import Spock.Lib.Outcome
import Spock.Pass.Handlers

/-!
# Spock — what the handlers of a transaction keep

However an entry ends, the state it leaves comes from the state it found by a few updates. A row or
a TRUNCATE first starts the transaction and counts the action (`Env.entered`); everything after that
is an update of `Updates`. A relation between states that allows these updates is kept by the rest
of every handler, in every mode of exception handling.
-/

namespace Spock.Pass

open Outcome

variable {env : Env} {r : State → State → Prop} [Std.Refl r]

theorem keeps_raiseRead {α : Type} (x : Except ErrorData α) : Keeps r (raiseRead x) := by
  cases x with
  | ok a => exact keeps_pure a
  | error => exact keeps_throw _

theorem keeps_raiseFault {α : Type} (x : Except Fault α) : Keeps r (raiseFault x) := by
  cases x with
  | ok a => exact keeps_pure a
  | error => exact keeps_throw _

/-- The relations that allow the updates of the handlers. -/
structure Updates (r : State → State → Prop) : Prop where
  begins : ∀ s env, r s (s.beginReplicationStep env)
  counts : ∀ s, r s s.countCommand
  excepts : ∀ s, r s s.setHadException
  writes : ∀ s l, r s (s.write l)
  executes : ∀ s tuple, r s (s.execute tuple)
  syncs : ∀ s : State, r s { s with syncPending := true }
  advances : ∀ (s : State) lsn, r s { s with originAdvances := s.originAdvances ++ [lsn] }

/-- A row or a TRUNCATE, which `xact_action_counter` counts. -/
def PassEntry.isRow : PassEntry → Bool
  | .relation _ | .message _ => false
  | .insert _ | .update _ | .delete _ | .truncate _ => true

/-- The state in which an entry starts its work. -/
def Env.entered (env : Env) (s : State) : PassEntry → State
  | .relation r => s.cacheUpdate r
  | .message _ => s
  | .insert _ | .update _ | .delete _ | .truncate _ =>
    if env.isSkippingChanges then s else s.beginAction env

theorem entered_eq {γ : Type} {f : State → γ} (hbegin : ∀ s, f (s.beginAction env) = f s)
    (hcache : ∀ s r, f (s.cacheUpdate r) = f s) (s : State) (e : PassEntry) :
    f (env.entered s e) = f s := by
  cases e with
  | relation r => exact hcache s r
  | message => rfl
  | _ =>
    unfold Env.entered
    dsimp only
    split
    · rfl
    · exact hbegin s

theorem ends_skipping {x : Handler} {s : State}
    (h : Ends x s (fun _ s' => r (s.beginAction env) s') (fun _ s' => r (s.beginAction env) s')) :
    Ends (if env.isSkippingChanges then pure ⟨⟩ else x) s
      (fun _ s' => r (if env.isSkippingChanges then s else s.beginAction env) s')
      (fun _ s' => r (if env.isSkippingChanges then s else s.beginAction env) s') := by
  cases env.isSkippingChanges with
  | true => exact Std.Refl.refl s
  | false => exact h

variable [IsTrans State r] (hr : Updates r)

include hr

theorem keeps_applyOrRaise (apply : List Write → Except Fault (List Write)) :
    Keeps r (applyOrRaise apply) :=
  keeps_bind keeps_get fun _ => keeps_bind (keeps_raiseFault _) fun l =>
    keeps_modify fun s => hr.writes s l

omit [Std.Refl r] [IsTrans State r] in
theorem keeps_logInsert (failed : Bool) (errmsg : Option String) (rel : Option OpenedRelation)
    (oldtup newtup : Option Tuple) (name : String) :
    Keeps r (logInsertException env failed errmsg rel oldtup newtup name) :=
  keeps_modify fun s => hr.writes s _

theorem keeps_trySubTransaction (apply : List Write → Except Fault (List Write)) :
    Keeps r (trySubTransaction apply) := by
  refine keeps_bind (keeps_modify hr.counts) fun _ => keeps_bind keeps_get fun s => ?_
  cases apply s.writes with
  | ok l => exact keeps_bind (keeps_modify fun s => hr.writes s l) fun _ => keeps_pure _
  | error => exact keeps_bind (keeps_modify hr.excepts) fun _ => keeps_pure _

theorem keeps_applyChange (rel : Option OpenedRelation) (oldtup newtup : Option Tuple)
    (apply : List Write → Except Fault (List Write)) (name : String) :
    Keeps r (applyChange env rel oldtup newtup apply name) := by
  refine keeps_ite (keeps_ite ?_ ?_) (keeps_applyOrRaise hr apply)
  · refine keeps_bind (keeps_modify hr.counts) fun _ => keeps_bind keeps_get fun s => ?_
    exact keeps_logInsert hr false _ rel oldtup newtup name
  · refine keeps_bind (keeps_trySubTransaction hr apply) fun e => ?_
    cases e with
    | none => exact keeps_pure _
    | some => exact keeps_logInsert hr true _ rel oldtup newtup name

theorem handleRow_ends_of (name : String) (read : Except ErrorData (Option RowChange)) (s : State) :
    Ends (handleRow env name read) s (fun _ s' => r (s.beginAction env) s')
      (fun _ s' => r (s.beginAction env) s') := by
  unfold handleRow
  rw [ends_bind, ends_modify]
  refine keeps_bind (keeps_raiseRead read) (fun row => ?_) _
  cases row with
  | none =>
    refine keeps_bind (keeps_bind (keeps_modify fun s => ?_) fun _ => ?_) fun _ => keeps_pure _
    · exact IsTrans.trans _ _ _ (hr.excepts s) (hr.counts _)
    · exact keeps_logInsert hr true _ none none none name
  | some =>
    exact keeps_ite (keeps_bind (keeps_applyChange hr _ _ _ _ _) fun _ => keeps_pure _)
      (keeps_pure _)

theorem keeps_handleSqlOrException (q : QueuedMessage) (b : Bool) :
    Keeps r (handleSqlOrException env q b) := by
  have hlog : ∀ failed sql message, Keeps r (logSql env failed sql q.role message) :=
    fun failed sql message => keeps_modify fun s => hr.writes s _
  refine keeps_bind (keeps_modify fun s => hr.begins s env) fun _ => ?_
  refine keeps_ite (keeps_ite ?_ ?_) (keeps_applyOrRaise hr _)
  · refine keeps_bind (keeps_modify hr.counts) fun _ => ?_
    exact keeps_bind keeps_get fun s => hlog _ _ _
  · refine keeps_bind (keeps_trySubTransaction hr _) fun e => ?_
    cases e with
    | some => exact hlog _ _ _
    | none => exact keeps_bind keeps_get fun s => hlog _ _ _

theorem keeps_handleTableSync (q : QueuedMessage) : Keeps r (handleTableSync env q) := by
  refine keeps_bind (keeps_raiseRead _) fun rv => keeps_bind keeps_get fun s => ?_
  refine keeps_ite (keeps_pure _) (keeps_modify fun s => ?_)
  exact IsTrans.trans _ _ _ (hr.writes s _) (hr.syncs _)

theorem keeps_handleSequence (q : QueuedMessage) : Keeps r (handleSequence env q) := by
  refine keeps_bind (keeps_raiseRead _) fun fields => keeps_bind keeps_get fun s => ?_
  refine keeps_ite (keeps_throw _) (keeps_bind (keeps_raiseFault _) fun value => ?_)
  exact keeps_applyOrRaise hr _

theorem keeps_handleQueuedMessage (tuple : Tuple) (b : Bool) :
    Keeps r (handleQueuedMessage env tuple b) := by
  refine keeps_bind (keeps_modify fun s => hr.executes s tuple) fun _ => ?_
  refine keeps_bind (keeps_raiseFault _) fun q => ?_
  cases q.command with
  | sql => exact keeps_handleSqlOrException hr q b
  | tablesync => exact keeps_handleTableSync hr q
  | sequence => exact keeps_handleSequence hr q
  | unknown => exact keeps_throw _

omit [IsTrans State r] in
theorem keeps_handleMessage (m : WalMessageBody) : Keeps r (handleMessage m) :=
  keeps_ite (keeps_throw _) (keeps_ite (keeps_ite (keeps_pure _)
    (keeps_modify fun s => hr.advances s m.lsn)) (keeps_throw _))

/-- **One entry.** Whatever it is and however it ends. -/
theorem handleEntry_ends_of (e : PassEntry) (s : State) :
    Ends (handleEntry env e) s (fun _ s' => r (env.entered s e) s')
      (fun _ s' => r (env.entered s e) s') := by
  cases e with
  | relation => exact Std.Refl.refl _
  | insert =>
    refine ends_skipping ?_
    rw [ends_bind, ends_get, ends_bind]
    refine (handleRow_ends_of hr "INSERT" _ s).imp ?_
    intro row s' hs'
    have hrest : Keeps r (handleInserted env s.xact.isNone row) := by
      cases row with
      | none => exact keeps_pure _
      | some => exact keeps_ite (keeps_handleQueuedMessage hr _ _) (keeps_pure _)
    exact (hrest s').mono (fun _ _ h => IsTrans.trans _ _ _ hs' h)
      fun _ _ h => IsTrans.trans _ _ _ hs' h
  | update | delete =>
    refine ends_skipping ?_
    rw [ends_bind, ends_get, ends_bind]
    exact (handleRow_ends_of hr _ _ s).imp fun _ _ h => h
  | truncate =>
    refine ends_skipping ?_
    rw [ends_bind, ends_get, ends_bind, ends_modify]
    exact keeps_applyChange hr none none none _ _ _
  | message m => exact keeps_handleMessage hr m s

end Spock.Pass
