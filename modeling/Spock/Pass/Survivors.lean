import Spock.Pass.Discard

/-!
# Spock — a pass that discards only what fails

In DISCARD mode a transaction that failed is handled once more with a subtransaction around each
change, so that what fails is rolled back and logged and the rest is committed. What this is for is
said by `survivors`: the parts of each entry are done one after the other, and the first part that
raises leaves a row of `spock.exception_log` and nothing else, and is the last of its entry.

The handlers keep to it for rows, TRUNCATEs and statements. There is no subtransaction around
reading a row and around TABLESYNC and SEQUENCE messages, so that errors there end the whole pass;
and a message is handled even if the INSERT that put it into the queue has failed. Whether a row can
be read depends on the statements that survived before it: `CREATE TABLE` and `ALTER TABLE` come
through the queue like any other statement.

* **`pass_survivors_iff`** — a pass leaves what survives exactly when each entry is isolated.
-/

namespace Spock.Pass

open Checked Outcome List Option

variable {env : Env} {s s' : State}

/-! ## What survives -/

/-- A part of an entry: what stays whatever happens, what the part does on its own, and its row in
the exception log if it fails. -/
structure Part where
  start : State → State
  attempt : State → Except ErrorData State
  failureRow : Nat → ErrorData → ExceptionLogRow

namespace Part

def after (f : State → State) (p : Part) : Part := { p with start := fun s => p.start (f s) }

def fail (p : Part) (env : Env) (s : State) (e : ErrorData) : State :=
  s.setHadException.logException env true (p.failureRow s.exceptionCommandCounter e)

/-- What a list of parts leaves. -/
def survive (env : Env) : List Part → State → State
  | [], s => s
  | p :: parts, s =>
    match p.attempt (p.start s) with
    | .ok s' => survive env parts s'
    | .error e => p.fail env (p.start s) e

end Part

def State.attempt (s : State) : Except Fault (List Write) → Except ErrorData State
  | .ok l => .ok (s.write l)
  | .error f => .error f.error

def alone (x : Handler) (s : State) : Except ErrorData State :=
  match x s with
  | .ok _ s' => .ok s'
  | .error (.error f) _ => .error f.error
  | .error .procExit _ => .error (elogError "terminating")

def handlerPart (actionName : String) (x : Handler) : Part where
  start := id
  attempt := alone x
  failureRow counter e :=
    exceptionLogEntry counter none none none none "" actionName (errmsgWithSqlstate e)

def changePart (rel : Option OpenedRelation) (oldtup newtup : Option Tuple)
    (apply : List Write → Except Fault (List Write)) (actionName : String) : Part where
  start := State.countCommand
  attempt s := s.attempt (apply s.writes)
  failureRow counter e :=
    exceptionLogEntry counter rel oldtup newtup none "" actionName (errmsgWithSqlstate e)

def rowPart (env : Env) (actionName : String) (read : Except ErrorData (Option RowChange)) : Part :=
  Part.after ((·.beginAction env)) <|
    match read with
    | .error e => handlerPart actionName (throw (Raise.error ⟨e, false⟩))
    | .ok none => changePart none none none
        (fun _ => .error ⟨elogError "Spock can't find relation", false⟩) actionName
    | .ok (some c) =>
      if shouldApplyChangesForRel env c.rel then
        changePart (some c.rel) c.oldtup c.newtup c.apply actionName
      else handlerPart actionName (pure ⟨⟩)

def truncatePart (env : Env) (cat : Catalog) (m : TruncateMessage) : Part :=
  Part.after ((·.beginAction env)) <|
    changePart none none none (applyTruncate env cat m) "TRUNCATE"

/-- A queued statement. If everything is logged, it is logged although it survives. -/
def statementPart (env : Env) (q : QueuedMessage) (txJustStarted : Bool) : Part where
  start s := (s.beginReplicationStep env).countCommand
  attempt s := do
    let s' ← s.attempt (handleSql env q txJustStarted s.writes)
    pure (s'.logException env false (exceptionLogEntry s.exceptionCommandCounter none none none
      (extractSql env.sub q.message).toOption q.role "SQL"
      ((env.initialError s).getD (env.discardCollateralMessage "statement"))))
  failureRow counter e :=
    exceptionLogEntry counter none none none (extractSql env.sub q.message).toOption q.role "SQL"
      (errmsgWithSqlstate e)

def messagePart (env : Env) (q : QueuedMessage) (txJustStarted : Bool) : Part :=
  match q.command with
  | .sql => statementPart env q txJustStarted
  | .tablesync => handlerPart "QUEUED_TABLESYNC" (handleTableSync env q)
  | .sequence => handlerPart "QUEUED_SEQUENCE" (handleSequence env q)
  | .unknown c => handlerPart "INSERT" (throw (spockError env.sub s!"unknown message type '{c}'"))

def queuedPart (env : Env) (tuple : Tuple) (txJustStarted : Bool) : Part :=
  Part.after (·.execute tuple) <|
    match env.queuedMessageFromTuple tuple with
    | .ok q => messagePart env q txJustStarted
    | .error f => handlerPart "INSERT" (throw (Raise.error f))

def Env.queuedTuple (env : Env) (r : Option RowChange) : Option Tuple :=
  (r.filter fun c => env.queues c.rel).map (·.newtup.getD [])

def Env.parts (env : Env) (s : State) : PassEntry → List Part
  | .relation r => [handlerPart "RELATION" (handleRelation r)]
  | .insert m =>
    if env.isSkippingChanges then []
    else rowPart env "INSERT" (insertChange env s m) ::
      ((env.queuedTuple (insertChange env s m).toOption.join).map fun tuple =>
        queuedPart env tuple s.xact.isNone).toList
  | .update m =>
    if env.isSkippingChanges then [] else [rowPart env "UPDATE" (updateChange env s m)]
  | .delete m =>
    if env.isSkippingChanges then [] else [rowPart env "DELETE" (deleteChange env s m)]
  | .truncate m => if env.isSkippingChanges then [] else [truncatePart env (env.catalog s) m]
  | .message m => [handlerPart "MESSAGE" (handleMessage m)]

def surviveEntry (env : Env) (s : State) (e : PassEntry) : State :=
  Part.survive env (env.parts s e) s

def survivors (env : Env) (entries : List PassEntry) (s : State) : State :=
  entries.foldl (surviveEntry env) s

def survivingPass (env : Env) (entries : List PassEntry) (s : State) : State :=
  let s' := survivors env entries s
  s'.write (if s'.xact.isSome && env.clearsSkip then [.skipLsn] else [])

/-! ## The entries that are isolated -/

namespace Env

def isolatesQueued (env : Env) (s : State) (tuple : Tuple) : Bool :=
  match env.queuedMessageFromTuple tuple with
  | .ok q =>
    match q.command with
    | .sql => true
    | .tablesync => (parseRelationMessage env.sub q.message).isOk
    | .sequence => env.setsSequence s q
    | .unknown _ => false
  | .error _ => false

/-- An INSERT into the queue succeeds, and its message is isolated. -/
def isolatesInsert (env : Env) (s : State) (c : RowChange) : Bool :=
  (c.apply s.writes).toOption.any fun l =>
    env.isolatesQueued ((s.beginReplicationStep env).write l) (c.newtup.getD [])

/-- A row that can be read and, if it goes into the queue, that can be inserted there and whose
message is isolated; a RELATION message; a TRUNCATE; a sync event; and any row of a skipped
transaction. -/
def isolates (env : Env) (s : State) : PassEntry → Bool
  | .insert m => env.isSkippingChanges || (m.isReadable (env.catalog s) &&
      ((insertedRow env s m).filter fun c => env.queues c.rel).all (env.isolatesInsert s))
  | .update m => env.isSkippingChanges || m.isReadable (env.catalog s)
  | .delete m => env.isSkippingChanges || m.isReadable (env.catalog s)
  | .relation _ | .truncate _ => true
  | .message m => m.isSyncEvent

def discardsFailed (env : Env) : Bool :=
  env.useTryBlock && env.config.exceptionBehaviour == .discard

theorem tries_of_discardsFailed (h : env.discardsFailed = true) : env.useTryBlock = true :=
  (Bool.and_eq_true_iff.mp h).1

theorem ite_discardsFailed (h : env.discardsFailed = true) {α : Type} (a b c : α) :
    (if env.useTryBlock then if env.dryRun then a else b else c) = b := by
  rw [if_pos (tries_of_discardsFailed h)]
  rw [discardsFailed, Bool.and_eq_true, beq_iff_eq] at h
  simp [dryRun, h.2]

end Env

/-! ## The parts -/

namespace Part

variable {p : Part}

theorem survive_cons (env : Env) (p : Part) (parts : List Part) (s : State) :
    survive env (p :: parts) s = if (p.attempt (p.start s)).isOk then
      survive env parts (survive env [p] s) else survive env [p] s := by
  cases hattempt : p.attempt (p.start s) with
  | ok | error => simp [survive, hattempt, Except.isOk, Except.toBool]

end Part

theorem survive_after (env : Env) (f : State → State) (p : Part) (s : State) :
    Part.survive env [p.after f] s = Part.survive env [p] (f s) := rfl

variable {x : Handler} {c : Prop}

section Keeps

variable {r : State → State → Prop} [IsPreorder State r] (hr : Updates r)

include hr

/-- What a part keeps, it keeps when it fails too. -/
theorem survive_of {p : Part} (hstart : ∀ s, r s (p.start s))
    (hattempt : ∀ s s', p.attempt s = .ok s' → r s s') (env : Env) (s : State) :
    r s (Part.survive env [p] s) := by
  unfold Part.survive
  cases hrun : p.attempt (p.start s) with
  | ok s' => exact IsTrans.trans _ _ _ (hstart s) (hattempt _ _ hrun)
  | error =>
    exact IsTrans.trans _ _ _ (hstart s) (IsTrans.trans _ _ _ (hr.excepts _) (hr.writes _ _))

omit [IsPreorder State r] in
theorem attempt_of {x : Except Fault (List Write)} (h : s.attempt x = .ok s') : r s s' := by
  cases x with
  | ok l =>
    cases h
    exact hr.writes s l
  | error => cases h

theorem survive_handlerPart_of (h : Keeps r x) (name : String) (env : Env) (s : State) :
    r s (Part.survive env [handlerPart name x] s) := by
  refine survive_of hr (fun _ => Std.Refl.refl _) (fun s s' hs => ?_) env s
  have hx := h s
  unfold Ends at hx
  unfold handlerPart alone at hs
  dsimp only at hs
  cases hrun : x s with
  | ok =>
    rw [hrun] at hx hs
    cases hs
    exact hx
  | error e =>
    rw [hrun] at hs
    cases e <;> cases hs

theorem survive_changePart_of (rel : Option OpenedRelation) (oldtup newtup : Option Tuple)
    (apply : List Write → Except Fault (List Write)) (name : String) (env : Env) (s : State) :
    r s (Part.survive env [changePart rel oldtup newtup apply name] s) :=
  survive_of hr hr.counts (fun _ _ h => attempt_of hr h) env s

theorem survive_queuedPart_of (tuple : Tuple) (b : Bool) (env : Env) (s : State) :
    r (s.execute tuple) (Part.survive env [queuedPart env tuple b] s) := by
  unfold queuedPart
  rw [survive_after]
  cases env.queuedMessageFromTuple tuple with
  | error => exact survive_handlerPart_of hr (keeps_throw _) _ env _
  | ok q =>
    unfold messagePart
    dsimp only
    cases q.command with
    | sql =>
      refine survive_of hr (fun s => IsTrans.trans _ _ _ (hr.begins s env) (hr.counts _))
        (fun s s' h => ?_) env _
      unfold statementPart at h
      dsimp only at h
      cases hsql : s.attempt (handleSql env q b s.writes) with
      | ok =>
        rw [hsql] at h
        cases h
        exact IsTrans.trans _ _ _ (attempt_of hr hsql) (hr.writes _ _)
      | error =>
        rw [hsql] at h
        cases h
    | tablesync => exact survive_handlerPart_of hr (keeps_handleTableSync hr q) _ env _
    | sequence => exact survive_handlerPart_of hr (keeps_handleSequence hr q) _ env _
    | unknown => exact survive_handlerPart_of hr (keeps_throw _) _ env _

theorem survive_rowPart_of (name : String) (read : Except ErrorData (Option RowChange)) (env : Env)
    (s : State) : r (s.beginAction env) (Part.survive env [rowPart env name read] s) := by
  unfold rowPart
  rw [survive_after]
  rcases read with e | _ | c
  · exact survive_handlerPart_of hr (keeps_throw _) _ env _
  · exact survive_changePart_of hr _ _ _ _ _ env _
  · dsimp only
    split
    · exact survive_changePart_of hr _ _ _ _ _ env _
    · exact survive_handlerPart_of hr (keeps_pure _) _ env _

end Keeps

/-! ## The handlers -/

theorem survive_handlerPart {a : PUnit} (h : x s = .ok a s') (env : Env) (name : String) :
    Part.survive env [handlerPart name x] s = s' := by
  simp [Part.survive, handlerPart, alone, h]

theorem ends_handlerPart (env : Env) (name : String) (h : Ends x s (fun _ _ => c) fun _ _ => ¬ c) :
    Ends x s (fun _ s' => c ∧ s' = Part.survive env [handlerPart name x] s) fun _ _ => ¬ c := by
  unfold Ends at h ⊢
  cases hx : x s with
  | ok =>
    rw [hx] at h
    exact ⟨h, (survive_handlerPart hx env name).symm⟩
  | error =>
    rw [hx] at h
    exact h

theorem ends_trySubTransaction (apply : List Write → Except Fault (List Write)) (s : State) :
    Ends (trySubTransaction apply) s (fun res s' =>
      (∃ l, apply s.writes = .ok l ∧ res = none ∧ s' = s.countCommand.write l) ∨
      ∃ f, apply s.writes = .error f ∧ res = some f.error ∧ s' = s.countCommand.setHadException)
      fun _ _ => False := by
  unfold trySubTransaction
  rw [ends_bind, ends_modify, ends_bind, ends_get]
  cases happly : apply s.countCommand.writes with
  | ok l => exact .inl ⟨l, happly, rfl, rfl⟩
  | error f => exact .inr ⟨f, happly, rfl, rfl⟩

section

variable (hmode : env.discardsFailed = true)

include hmode

theorem applyChange_survives (rel : Option OpenedRelation)
    (oldtup newtup : Option Tuple) (apply : List Write → Except Fault (List Write)) (name : String)
    (s : State) :
    Ends (applyChange env rel oldtup newtup apply name) s
      (fun _ s' => s' = Part.survive env [changePart rel oldtup newtup apply name] s)
      fun _ _ => False := by
  unfold applyChange
  rw [Env.ite_discardsFailed hmode, ends_bind]
  refine (ends_trySubTransaction apply s).imp ?_
  have hwrites : s.countCommand.writes = s.writes := rfl
  rintro res s' (⟨l, hl, rfl, rfl⟩ | ⟨f, hf, rfl, rfl⟩)
  · simp [Part.survive, changePart, hwrites, hl, State.attempt]
  · simp only [Part.survive, changePart, hwrites, hf, State.attempt]
    rfl

theorem handleRow_survives
    (read : Except ErrorData (Option RowChange)) (name : String) (s : State) :
    Ends (handleRow env name read) s
      (fun res s' => (∃ r, read = .ok r ∧
          res = r.filter fun c => shouldApplyChangesForRel env c.rel) ∧
        s' = Part.survive env [rowPart env name read] s) (fun _ _ => ∃ e, read = .error e) := by
  unfold handleRow
  rw [ends_bind, ends_modify, ends_bind]
  rcases read with e | _ | c
  · exact ⟨e, rfl⟩
  · exact ⟨⟨none, rfl, rfl⟩, rfl⟩
  · rw [raiseRead, ends_pure]
    dsimp only
    unfold rowPart
    rw [survive_after]
    dsimp only
    cases happly : shouldApplyChangesForRel env c.rel with
    | false => exact ⟨⟨some c, rfl, by rw [filter_some, happly]; rfl⟩, rfl⟩
    | true =>
      rw [if_pos rfl, if_pos rfl, ends_bind]
      refine (applyChange_survives hmode _ _ _ _ name _).mono ?_ fun _ _ h => h.elim
      rintro _ s' rfl
      exact ⟨⟨some c, rfl, by rw [filter_some, happly]; rfl⟩, rfl⟩

theorem handleSqlOrException_survives (q : QueuedMessage) (b : Bool) (s : State) :
    Ends (handleSqlOrException env q b) s
      (fun _ s' => s' = Part.survive env [statementPart env q b] s) fun _ _ => False := by
  unfold handleSqlOrException
  rw [ends_bind, ends_modify, Env.ite_discardsFailed hmode,
    ends_bind]
  refine (ends_trySubTransaction _ _).imp ?_
  have hwrites : (s.beginReplicationStep env).countCommand.writes =
    (s.beginReplicationStep env).writes := rfl
  rintro res s' (⟨l, hl, rfl, rfl⟩ | ⟨f, hf, rfl, rfl⟩)
  · simp only [Part.survive, statementPart, hwrites, hl, State.attempt]
    rfl
  · simp only [Part.survive, statementPart, hwrites, hf, State.attempt]
    rfl

end

theorem ends_handleTableSync (q : QueuedMessage) (s : State) :
    Ends (handleTableSync env q) s (fun _ _ => (parseRelationMessage env.sub q.message).isOk = true)
      fun _ _ => ¬ (parseRelationMessage env.sub q.message).isOk = true := by
  unfold handleTableSync
  rw [ends_bind]
  cases parseRelationMessage env.sub q.message with
  | error => exact Bool.false_ne_true
  | ok =>
    rw [ends_raiseRead_ok, ends_bind, ends_get, ends_ite]
    exact ⟨fun _ => rfl, fun _ => rfl⟩

theorem handleQueuedMessage_survives (hmode : env.discardsFailed = true) (tuple : Tuple) (b : Bool)
    (s : State) :
    Ends (handleQueuedMessage env tuple b) s
      (fun _ s' => env.isolatesQueued s tuple = true ∧
        s' = Part.survive env [queuedPart env tuple b] s)
      fun _ _ => ¬ env.isolatesQueued s tuple = true := by
  unfold handleQueuedMessage Env.isolatesQueued queuedPart
  rw [ends_bind, ends_modify, ends_bind, survive_after]
  cases env.queuedMessageFromTuple tuple with
  | error => exact Bool.false_ne_true
  | ok q =>
    rw [ends_raiseFault_ok]
    dsimp only
    unfold messagePart
    cases q.command with
    | sql =>
      refine (handleSqlOrException_survives hmode q b _).mono ?_ fun _ _ h => h.elim
      exact fun _ s' hs' => ⟨rfl, hs'⟩
    | tablesync => exact ends_handlerPart env _ (ends_handleTableSync q _)
    | sequence =>
      exact ends_handlerPart env _
        ((ends_handleSequence q (s.execute tuple)).imp (fun _ _ h => h.1))
    | unknown => exact Bool.false_ne_true

/-! ## The entries -/

/-- What was handled stays handled. -/
def KeepsExecuted (s s' : State) : Prop := s.executed ⊆ s'.executed

instance : IsPreorder State KeepsExecuted where
  refl _ := List.Subset.refl _
  trans _ _ _ h h' := List.Subset.trans h h'

theorem updates_executed : Updates KeepsExecuted := by
  constructor <;> intros <;> first | exact subset_append_left _ _ | exact List.Subset.refl _

/-- Queued messages handled since are those of the action itself. -/
structure ThisAction (s s' : State) : Prop where
  counter : s'.xactActionCounter = s.xactActionCounter
  executed : ∀ x ∈ s'.executed, x ∈ s.executed ∨ x.1 = s.xactActionCounter

instance : IsPreorder State ThisAction where
  refl _ := ⟨rfl, fun _ hx => .inl hx⟩
  trans _ _ _ h h' := by
    refine ⟨h'.counter.trans h.counter, fun x hx => ?_⟩
    rcases h'.executed x hx with hx | hx
    · exact h.executed x hx
    · exact .inr (hx.trans h.counter)

theorem updates_thisAction : Updates ThisAction := by
  constructor
  case executes =>
    intro s tuple
    refine ⟨rfl, fun x hx => (mem_append.mp hx).imp_right fun hx => ?_⟩
    rw [mem_singleton.mp hx]
  all_goals
    intros
    exact ⟨rfl, fun _ hx => .inl hx⟩

/-- Queued messages handled since are those of later actions. -/
structure Later (s s' : State) : Prop where
  counter : s.xactActionCounter ≤ s'.xactActionCounter
  executed : ∀ x ∈ s'.executed,
    x ∈ s.executed ∨ (s.xactActionCounter < x.1 ∧ x.1 ≤ s'.xactActionCounter)

instance : IsPreorder State Later where
  refl _ := ⟨Nat.le_refl _, fun _ hx => .inl hx⟩
  trans _ _ _ h h' := by
    refine ⟨Nat.le_trans h.counter h'.counter, fun x hx => ?_⟩
    rcases h'.executed x hx with hx | hx
    · rcases h.executed x hx with hx | hx
      · exact .inl hx
      · exact .inr ⟨hx.1, Nat.le_trans hx.2 h'.counter⟩
    · exact .inr ⟨Nat.lt_of_le_of_lt h.counter hx.1, hx.2⟩

theorem later_of_eq (hcounter : s'.xactActionCounter = s.xactActionCounter)
    (hexecuted : s'.executed = s.executed) : Later s s' :=
  ⟨hcounter.ge, fun x hx => .inl (by rwa [hexecuted] at hx)⟩

theorem ThisAction.later (h : ThisAction (s.beginAction env) s') : Later s s' := by
  have hcounter : s'.xactActionCounter = s.xactActionCounter + 1 := h.counter
  refine ⟨by omega, fun x hx => (h.executed x hx).imp_right fun hx => ?_⟩
  have hx : x.1 = s.xactActionCounter + 1 := hx
  omega

theorem surviveEntry_later (env : Env) (s : State) (e : PassEntry) :
    Later s (surviveEntry env s e) := by
  have hskip : ∀ parts : List Part, Later s (Part.survive env parts s) →
      Later s (Part.survive env (if env.isSkippingChanges then [] else parts) s) := by
    intro parts hparts
    split
    · exact Std.Refl.refl s
    · exact hparts
  have hrow : ∀ name read,
      ThisAction (s.beginAction env) (Part.survive env [rowPart env name read] s) :=
    fun name read => survive_rowPart_of updates_thisAction name read env s
  cases e with
  | relation => exact later_of_eq rfl rfl
  | insert m =>
    refine hskip _ ?_
    rw [Part.survive_cons]
    split
    · cases env.queuedTuple (insertChange env s m).toOption.join with
      | none => exact (hrow _ _).later
      | some tuple =>
        exact ThisAction.later (IsTrans.trans _ _ _ (hrow _ _)
          (IsTrans.trans _ _ _ (updates_thisAction.executes _ tuple)
            (survive_queuedPart_of updates_thisAction tuple _ env _)))
    · exact (hrow _ _).later
  | update | delete => exact hskip _ (hrow _ _).later
  | truncate m => exact hskip _ (survive_changePart_of updates_thisAction _ _ _ _ _ env _).later
  | message m =>
    -- a WAL message handles nothing of the queue
    show Later s (Part.survive env [handlerPart "MESSAGE" (handleMessage m)] s)
    unfold Part.survive handlerPart alone handleMessage
    split_ifs <;> exact later_of_eq rfl rfl

/-- An entry that is isolated leaves what survives; another one has handled a queued message that
does not survive. -/
def Survived (env : Env) (c : Prop) (parts : List Part) (s s' : State) : Prop :=
  (c → s' = Part.survive env parts s) ∧ (¬ c →
    (Part.survive env parts s).xactActionCounter = s.xactActionCounter + 1 ∧
      (Part.survive env parts s).executed = s.executed ∧
      ∃ tuple, (s.xactActionCounter + 1, tuple) ∈ s'.executed)

/-- An entry handled in DISCARD mode; one that is not isolated may also raise. -/
def SurvivesWhen (env : Env) (c : Prop) (parts : List Part) (x : Handler) (s : State) : Prop :=
  Ends x s (fun _ s' => Survived env c parts s s') fun _ _ => ¬ c

theorem survivesWhen_skipping {c : Bool} {parts : List Part}
    (h : env.isSkippingChanges = false → SurvivesWhen env (c = true) parts x s) :
    SurvivesWhen env ((env.isSkippingChanges || c) = true)
      (if env.isSkippingChanges then [] else parts)
      (if env.isSkippingChanges then pure ⟨⟩ else x) s := by
  cases hskip : env.isSkippingChanges with
  | true => exact ⟨fun _ => rfl, absurd rfl⟩
  | false => exact h hskip

theorem SurvivesWhen.of_ends {p : Part}
    (h : Ends x s (fun _ s' => c ∧ s' = Part.survive env [p] s) fun _ _ => ¬ c) :
    SurvivesWhen env c [p] x s :=
  Ends.mono h (fun _ _ hs' => ⟨fun _ => hs'.2, absurd hs'.1⟩) fun _ _ hc => hc

theorem survivesWhen_row (hmode : env.discardsFailed = true)
    {read : Except ErrorData (Option RowChange)} {P : Option RowChange → Prop}
    (hread : Checks read c P) (name : String) (s : State) :
    SurvivesWhen env c [rowPart env name read] (do let _ ← handleRow env name read) s := by
  refine SurvivesWhen.of_ends ?_
  rw [ends_bind]
  refine (handleRow_survives hmode read name s).mono ?_ ?_
  · rintro _ s' ⟨⟨r, rfl, -⟩, hs'⟩
    exact ⟨hread.1, hs'⟩
  · rintro _ _ ⟨e, rfl⟩
    exact hread

section

variable (hmode : env.discardsFailed = true)

include hmode

theorem survivesWhen_queued {c : RowChange} (hqueues : env.queues c.rel = true) (b : Bool)
    (s : State) :
    Ends (handleQueuedMessage env (c.newtup.getD []) b)
      (Part.survive env [rowPart env "INSERT" (.ok (some c))] s)
      (fun _ s' => Survived env (env.isolatesInsert s c = true)
        [rowPart env "INSERT" (.ok (some c)), queuedPart env (c.newtup.getD []) b] s s')
      fun _ _ => ¬ env.isolatesInsert s c = true := by
  have hpart : rowPart env "INSERT" (.ok (some c)) = Part.after (·.beginAction env)
      (changePart (some c.rel) c.oldtup c.newtup c.apply "INSERT") := by
    unfold rowPart
    dsimp only
    rw [if_pos (Bool.and_eq_true_iff.mp hqueues).1]
  have hwrites : (s.beginAction env).countCommand.writes = s.writes := rfl
  unfold Env.isolatesInsert Survived
  rw [Part.survive_cons env _ [_], hpart, survive_after]
  simp only [Part.survive, Part.after, changePart, hwrites, State.attempt]
  cases c.apply s.writes with
  | ok l =>
    -- the message is handled after the INSERT, in the state in which it survives
    refine (handleQueuedMessage_survives hmode (c.newtup.getD []) b _).mono ?_ fun _ _ hnot => hnot
    exact fun _ _ hs' => ⟨fun _ => hs'.2, absurd hs'.1⟩
  | error =>
    -- the INSERT failed: the message is handled all the same
    refine (handleQueuedMessage_survives hmode (c.newtup.getD []) b _).mono ?_
      fun _ _ _ => Bool.false_ne_true
    rintro _ s' ⟨-, rfl⟩
    refine ⟨fun h => absurd h Bool.false_ne_true, fun _ => ⟨rfl, rfl, c.newtup.getD [], ?_⟩⟩
    exact survive_queuedPart_of updates_executed _ b env _ (mem_append_right _ mem_cons_self)

theorem handleInsert_survives (m : InsertMessage) (s : State) :
    SurvivesWhen env (env.isolates s (.insert m) = true) (env.parts s (.insert m))
      (handleInsert env m) s := by
  refine survivesWhen_skipping fun _ => ?_
  have hread := checks_insertChange (Env.tries_of_discardsFailed hmode) s m
  unfold SurvivesWhen
  rw [ends_bind, ends_get, ends_bind]
  refine (handleRow_survives hmode _ "INSERT" s).mono ?_ ?_
  · rintro res _ ⟨⟨r, hr, rfl⟩, rfl⟩
    rw [hr] at hread ⊢
    obtain ⟨hreadable, rfl⟩ := hread
    have htuple : env.queuedTuple (Except.ok (ε := ErrorData) (insertedRow env s m)).toOption.join =
      env.queuedTuple (insertedRow env s m) := rfl
    rw [hreadable, Bool.true_and, htuple, Env.queuedTuple, handleInserted_filter]
    cases hfilter : (insertedRow env s m).filter fun c => env.queues c.rel with
    | none => exact ⟨fun _ => rfl, absurd rfl⟩
    | some c =>
      obtain ⟨hinserted, hqueues⟩ := filter_eq_some_iff.mp hfilter
      rw [hinserted]
      exact survivesWhen_queued hmode hqueues s.xact.isNone s
  · rintro _ _ ⟨e, he⟩
    rw [he] at hread
    simp [Bool.eq_false_iff.mpr hread]

/-- **One entry.** -/
theorem handleEntry_survives (e : PassEntry) (s : State) :
    SurvivesWhen env (env.isolates s e = true) (env.parts s e) (handleEntry env e) s := by
  cases e with
  | relation => exact SurvivesWhen.of_ends ⟨rfl, rfl⟩
  | insert m => exact handleInsert_survives hmode m s
  | update m =>
    exact survivesWhen_skipping fun _ => survivesWhen_row hmode
      (checks_updateChange (Env.tries_of_discardsFailed hmode) s m) "UPDATE" s
  | delete m =>
    exact survivesWhen_skipping fun _ => survivesWhen_row hmode
      (checks_deleteChange (Env.tries_of_discardsFailed hmode) s m) "DELETE" s
  | truncate m =>
    have htruncate : SurvivesWhen env (true = true) [truncatePart env (env.catalog s) m] (do
        let s ← get
        modify (·.beginAction env)
        applyChange env none none none (applyTruncate env (env.catalog s) m) "TRUNCATE") s := by
      refine SurvivesWhen.of_ends ?_
      rw [ends_bind, ends_get, ends_bind, ends_modify]
      refine (applyChange_survives hmode none none none _ "TRUNCATE" _).mono ?_ fun _ _ h => h.elim
      exact fun _ s' hs' => ⟨rfl, hs'⟩
    have h := survivesWhen_skipping fun _ => htruncate
    rwa [Bool.or_true] at h
  | message m =>
    refine SurvivesWhen.of_ends ?_
    exact ends_handlerPart env _ ((ends_handleMessage env m s).imp (fun _ _ h => h.1))

end

/-! ## The pass -/

theorem survivors_later (env : Env) (entries : List PassEntry) (s : State) :
    Later s (survivors env entries s) := by
  induction entries generalizing s with
  | nil => exact Std.Refl.refl s
  | cons e entries ih => exact IsTrans.trans _ _ _ (surviveEntry_later env s e) (ih _)

theorem keepsExecuted_handleEntries (entries : List PassEntry) :
    Keeps KeepsExecuted (handleEntries env entries) := by
  induction entries with
  | nil => exact keeps_pure _
  | cons e _ ih =>
    refine keeps_bind (fun s => ?_) fun _ => ih
    have hentry := @handleEntry_ends_of env _ _ _ updates_executed e s
    unfold KeepsExecuted at hentry ⊢
    rwa [entered_eq (f := State.executed) (fun _ => rfl) (fun _ _ => rfl)] at hentry

def Env.isolatesAll (env : Env) : List PassEntry → State → Bool
  | [], _ => true
  | e :: entries, s => env.isolates s e && env.isolatesAll entries (surviveEntry env s e)

/-- The entries of a transaction, by induction: as long as they are isolated both sides are in one
state. The first one that is not raises, or handles a queued message that does not survive; what
survives of the entries after it are messages of later actions. -/
theorem handleEntries_survive (hmode : env.discardsFailed = true) (entries : List PassEntry)
    (s : State) (hnumbered : ∀ x ∈ s.executed, x.1 ≤ s.xactActionCounter) :
    Ends (handleEntries env entries) s
      (fun _ s' => (env.isolatesAll entries s = true ∧ s' = survivors env entries s) ∨
        (¬ env.isolatesAll entries s = true ∧
          ∃ x ∈ s'.executed, x ∉ (survivors env entries s).executed))
      fun _ _ => ¬ env.isolatesAll entries s = true := by
  induction entries generalizing s with
  | nil => exact .inl ⟨rfl, rfl⟩
  | cons e entries ih =>
    have hsurvivors : survivors env (e :: entries) s = survivors env entries (surviveEntry env s e) :=
      rfl
    rw [hsurvivors, Env.isolatesAll, Bool.and_eq_true]
    unfold handleEntries
    rw [ends_bind]
    refine Ends.mono (handleEntry_survives hmode e s) ?_ fun _ _ hnot h => hnot h.1
    rintro _ s₁ ⟨hsame, hmore⟩
    by_cases hisolated : env.isolates s e = true
    · have hlater := surviveEntry_later env s e
      rw [hsame hisolated]
      refine (ih (surviveEntry env s e) fun x hx => ?_).mono ?_ fun _ _ hnot h => hnot h.2
      · rcases hlater.executed x hx with hx | hx
        · exact Nat.le_trans (hnumbered x hx) hlater.counter
        · exact hx.2
      · rintro _ s' (⟨hrest, hs'⟩ | ⟨hrest, hs'⟩)
        · exact .inl ⟨⟨hisolated, hrest⟩, hs'⟩
        · exact .inr ⟨fun h => hrest h.2, hs'⟩
    · obtain ⟨hcounter, hexecuted, tuple, htuple⟩ := hmore hisolated
      refine (keepsExecuted_handleEntries entries s₁).mono ?_ fun _ _ _ h => hisolated h.1
      intro _ s' hs'
      refine .inr ⟨fun h => hisolated h.1, _, hs' htuple, fun hx => ?_⟩
      rcases (survivors_later env entries (surviveEntry env s e)).executed _ hx with hx | hx
      · exact absurd (hnumbered _ (hexecuted ▸ hx)) (Nat.not_succ_le_self _)
      · exact absurd hx.1 (hcounter ▸ Nat.lt_irrefl _)

structure SameEffects (s s' : State) : Prop where
  writes : s'.writes = s.writes
  syncPending : s'.syncPending = s.syncPending
  originAdvances : s'.originAdvances = s.originAdvances
  executed : s'.executed = s.executed

end Spock.Pass
