import Spock.Worker.Log
import Spock.Worker.Stream

/-!
# Spock — a committed transaction is not handled again

Once the local transaction of a remote one has been committed, nothing of the remote transaction
may be applied or recorded again. What stands against it is that the replay queue is emptied only at
the end of `handle_commit`: an error raised between the local commit and that point is taken by
`PG_CATCH` for a failure of the transaction, which is then replayed although it is committed.

A commit LSN is *due* while its transaction is on the connection or being attempted. The invariant
is that no record of the log finishes a transaction that is due.

* **`handled_at_most_once`** — every run of such steps.
-/

namespace Spock

open Outcome List Option

variable {pub : Publisher} {sub : Subscription} {n n' : Node}

/-! ## Finished transactions -/

/-- The record ends the transaction with this commit LSN, and not to disable the subscription. -/
def LocalCommit.finishes (c : LocalCommit) (commitLsn : Nat) : Bool :=
  c.ended.any fun e => e.commitLsn == commitLsn && !e.disables

/-- No local transaction applies or records a change of a remote transaction that an earlier one
finished. -/
def AtMostOnce (commits : List LocalCommit) : Prop :=
  commits.Pairwise fun c d => ∀ x ∈ d.effects, c.finishes x.commitLsn = false
  deriving Decidable

def Unfinished (commits : List LocalCommit) (commitLsn : Nat) : Prop :=
  ∀ c ∈ commits, c.finishes commitLsn = false

/-- Nothing is handled twice, and the origin has passed what was finished with a commit record. -/
structure OnceLog (commits : List LocalCommit) (d : Durable) : Prop where
  once : AtMostOnce commits
  passed : ∀ c ∈ commits, c.wal = true → ∀ lsn, c.finishes lsn = true → lsn < d.origin

theorem finishes_of_ended_none {c : LocalCommit} (h : c.ended = none) (lsn : Nat) :
    c.finishes lsn = false := by
  rw [LocalCommit.finishes, h]
  rfl

theorem Unfinished.concat {l : List LocalCommit} {c : LocalCommit} {lsn : Nat} (h : Unfinished l lsn)
    (hc : c.finishes lsn = false) : Unfinished (l ++ [c]) lsn := by
  intro c' hc'
  rcases mem_append.mp hc' with hc' | hc'
  · exact h c' hc'
  · rw [mem_singleton.mp hc']
    exact hc

theorem OnceLog.concat {l : List LocalCommit} {d : Durable} {c : LocalCommit} (h : OnceLog l d)
    (heffects : ∀ x ∈ c.effects, Unfinished l x.commitLsn) (horigin : d.origin ≤ c.after.origin)
    (hpassed : c.wal = true → ∀ lsn, c.finishes lsn = true → lsn < c.after.origin) :
    OnceLog (l ++ [c]) c.after := by
  refine ⟨pairwise_append.mpr ⟨h.once, pairwise_singleton _ _, ?_⟩, ?_⟩
  · intro c' hc' d' hd' x hx
    rw [mem_singleton.mp hd'] at hx
    exact heffects x hx c' hc'
  · intro c' hc' hwal lsn hlsn
    rcases mem_append.mp hc' with hc' | hc'
    · exact Nat.lt_of_lt_of_le (h.passed c' hc' hwal lsn hlsn) horigin
    · rw [mem_singleton.mp hc'] at hwal hlsn
      exact hpassed hwal lsn hlsn

/-! ## What is due -/

namespace Node

def awaits (n : Node) (commitLsn : Nat) : Prop := ∃ t ∈ n.later, t.commitLsn = commitLsn

def due (n : Node) (commitLsn : Nat) : Prop := n.awaits commitLsn ∨ n.attempt = some commitLsn

end Node

/-- The log handles nothing twice, and has finished nothing that is due. -/
structure Once (due : Nat → Prop) (n : Node) : Prop where
  log : LogInv OnceLog n
  unfinished : ∀ lsn, due lsn → Unfinished n.commits lsn

section Once

variable {due due' : Nat → Prop}

theorem Once.mono (h : Once due n) (hdue : ∀ lsn, due' lsn → due lsn) : Once due' n :=
  ⟨h.log, fun lsn hlsn => h.unfinished lsn (hdue lsn hlsn)⟩

theorem Once.same (h : Once due n) (hs : LogSame n n') : Once due n' :=
  ⟨h.log.same hs, by rw [hs.commits]; exact h.unfinished⟩

theorem LogInv.once (h : LogInv OnceLog n) : Once (fun _ => False) n := ⟨h, fun _ hf => hf.elim⟩

theorem Once.concat (h : Once due n) {c : LocalCommit} (hended : c.ended = none)
    (heffects : c.effects = []) (horigin : n.durable.origin ≤ c.after.origin)
    (hbase : n'.base = n.base) (hcommits : n'.commits = n.commits ++ [c])
    (hdurable : n'.durable = c.after) : Once due n' := by
  refine ⟨h.log.concat hbase hcommits hdurable (h.log.current.concat ?_ horigin ?_), ?_⟩
  · simp [heffects]
  · intro _ lsn hlsn
    rw [finishes_of_ended_none hended] at hlsn
    cases hlsn
  · intro lsn hlsn
    rw [hcommits]
    exact (h.unfinished lsn hlsn).concat (finishes_of_ended_none hended lsn)

theorem Once.commitOwn (h : Once due n) (wrote : Bool) : Once due (n.commitOwn wrote) := by
  cases wrote
  · exact h
  · exact h.concat rfl rfl (Nat.le_max_left _ _) rfl rfl rfl

theorem Once.advance (h : Once due n) (lsn : Nat) : Once due (n.reploriginSessionAdvance lsn) :=
  h.concat rfl rfl (Nat.le_max_left _ _) rfl rfl rfl

theorem Once.commitOther (h : Once due n) {f : Durable → Durable}
    (hf : ∀ d, (f d).origin = d.origin) : Once due (n.commitOther f) :=
  h.concat rfl rfl (Nat.le_of_eq (hf n.durable).symm) rfl rfl rfl

end Once

theorem Node.due_of_same (hqueue : n'.queue = n.queue) (hlater : n'.later = n.later) :
    n'.due = n.due := by
  unfold Node.due Node.awaits Node.attempt
  rw [hqueue, hlater]

theorem Once.frame (h : Once n.due n) (hf : Frame n n') : Once n'.due n' := by
  rw [Node.due_of_same hf.queue hf.later]
  exact h.same hf.logSame

/-! ## COMMIT -/

theorem finishes_of_ended {c : LocalCommit} {commitLsn endLsn : Nat} {skipped : Bool}
    (h : c.ended = some (n.ended commitLsn endLsn skipped)) (lsn : Nat) :
    c.finishes lsn = (commitLsn == lsn && !n.mustDisable) := by
  rw [LocalCommit.finishes, h, any_some, n.ended_disables]
  rfl

theorem Node.commitTransaction_origin (n : Node) (wal : Bool) {f : Durable → Durable}
    (hf : ∀ d, (f d).origin = d.origin) (effects : List Effect) (ended : Option Ended) :
    (n.commitTransaction wal f effects ended).durable.origin
      = if wal then max n.durable.origin n.sessionOriginLsn else n.durable.origin := by
  cases wal with
  | false => rfl
  | true => exact hf _

/-- **The local commit** of a transaction that is due. It stays due only if the commit is to disable
the subscription. -/
theorem commitRemote_once {due : Nat → Prop} {t : RemoteTxn} (h : Once due n)
    (hdue : due t.commitLsn)
    (heffects : ∀ x, n.xact = some x → ∀ e ∈ x.effects, e.commitLsn = t.commitLsn)
    (hsession : n.mustDisable = false → t.commitLsn < n.sessionOriginLsn) (skipped : Bool) :
    Once (fun lsn => due lsn ∧ (n.mustDisable = false → lsn ≠ t.commitLsn))
      (n.commitRemote t.commitLsn t.endLsn skipped) := by
  have horigin := n.commitTransaction_origin (n.xact.getD ⟨[], false⟩).writesWal
    (Node.resetSkipLsn_origin (n.xact.getD ⟨[], false⟩).clearsSkip) (n.xact.getD ⟨[], false⟩).effects
    (some (n.ended t.commitLsn t.endLsn skipped))
  refine ⟨h.log.concat rfl rfl rfl (h.log.current.concat ?_ ?_ ?_), ?_⟩
  · -- its effects are of the transaction itself
    intro e he
    have hlsn : e.commitLsn = t.commitLsn := by
      cases hx : n.xact with
      | none =>
        rw [hx] at he
        cases he
      | some x =>
        rw [hx] at he
        exact heffects x hx e he
    rw [hlsn]
    exact h.unfinished _ hdue
  · refine Nat.le_trans ?_ (Nat.le_of_eq horigin.symm)
    split
    · exact Nat.le_max_left _ _
    · exact Nat.le_refl _
  · intro hwal lsn hlsn
    rw [finishes_of_ended rfl, Bool.and_eq_true, beq_iff_eq, Bool.not_eq_true'] at hlsn
    refine Nat.lt_of_lt_of_le ?_ (Nat.le_of_eq horigin.symm)
    rw [if_pos hwal, ← hlsn.1]
    exact Nat.lt_of_lt_of_le (hsession hlsn.2) (Nat.le_max_right _ _)
  · rintro lsn ⟨hlsn, hne⟩
    refine (h.unfinished lsn hlsn).concat ?_
    rw [finishes_of_ended rfl, Bool.and_eq_false_imp, beq_iff_eq]
    rintro rfl
    cases hdis : n.mustDisable with
    | true => rfl
    | false => exact absurd rfl (hne hdis)

/-- What COMMIT needs: the transaction is due, what was done is its own, and the session stands
at it. -/
structure Committing (due : Nat → Prop) (t : RemoteTxn) (n : Node) : Prop where
  once : Once due n
  due : due t.commitLsn
  effects : ∀ x, n.xact = some x → ∀ e ∈ x.effects, e.commitLsn = t.commitLsn
  session : n.sessionOriginLsn = t.commitLsn

theorem clearSubscriptionSkipLsn_effects {lsn : Nat}
    (h : ∀ x, n.xact = some x → ∀ e ∈ x.effects, e.commitLsn = lsn) :
    ∀ x, n.clearSubscriptionSkipLsn.xact = some x → ∀ e ∈ x.effects, e.commitLsn = lsn := by
  intro x hx
  obtain ⟨y, hy, rfl⟩ := map_eq_some_iff.mp hx
  exact h y hy

theorem finishSkipping_effects {lsn : Nat}
    (h : ∀ x, n.xact = some x → ∀ e ∈ x.effects, e.commitLsn = lsn) :
    ∀ x, n.finishSkipping.xact = some x → ∀ e ∈ x.effects, e.commitLsn = lsn := by
  intro x hx e he
  cases hxact : n.xact with
  | none =>
    have hx : some (n.xact.getD ⟨[], false⟩) = some x := hx
    rw [hxact] at hx
    cases hx
    cases he
  | some y =>
    have hx : some (n.xact.getD ⟨[], false⟩) = some x := hx
    rw [hxact] at hx
    cases hx
    exact h y hxact e he

theorem settle_once {due : Nat → Prop} {t : RemoteTxn} (h : Committing due t n) (skipped : Bool)
    (env : CommitEnv) :
    Ends (settle sub t.commitLsn t.endLsn skipped env) n
      (fun _ n' => Once (fun lsn => due lsn ∧ lsn ≠ t.commitLsn) n') (fun _ n' => Once due n') := by
  refine settle_ends (fun _ => ?_) fun _ => ?_
  swap
  · exact (h.once.advance t.endLsn).mono fun _ hlsn => hlsn.1
  refine commitLocally_ends (fun _ _ => h.once.same .of_eq) ?_
  have hstaged : Once due (n.clearSubscriptionSkipLsn.stageOriginLsn t.endLsn).clearDiscarded :=
    h.once.same .of_eq
  have hsession := Node.stageOriginLsn_session h.session t.endLsn
  have hcommit := commitRemote_once hstaged h.due (clearSubscriptionSkipLsn_effects h.effects)
    (fun hdis => by
      rw [hsession, show n.mustDisable = false from hdis]
      exact t.commitLsn_lt) skipped
  refine commitStaged_ends (fun _ _ => ?_) (fun hdis _ => ?_) fun hdis => ?_
  · exact hstaged.same .of_eq
  · refine (hcommit.mono fun lsn hlsn => ⟨hlsn, fun hfalse => ?_⟩).same .of_eq
    cases hdis.symm.trans hfalse
  · exact (hcommit.mono fun lsn hlsn => ⟨hlsn.1, fun _ => hlsn.2⟩).same .of_eq

/-! ### After the local commit -/

/-- The points of `handle_commit` after the local commit and before the queue is reset. -/
def CommitPoint.isLate : CommitPoint → Bool
  | .forward | .progress | .syncStatus => true
  | _ => false

/-- An error at a late point does not start a replay: it is one of the connection, or the
transaction is itself a replay that went without an exception. -/
def Node.lateErrorEnds (n : Node) (env : CommitEnv) : Bool :=
  env.fault.all fun p => !p.1.isLate || p.2.isConnection ||
    (n.useTryBlock && !n.xactHadException && !n.isSkippingChanges)

theorem catchError_not_looping {f : Fault}
    (h : f.isConnection = true ∨ (n.useTryBlock = true ∧ n.xactHadException = false)) :
    ¬ (n.catchError f).looping := by
  unfold Node.catchError
  rcases h with hconn | ⟨htry, hhad⟩
  · simp [hconn, Node.looping, Node.exit]
  · simp only [htry, hhad]
    repeat' split
    all_goals simp_all [Node.looping, Node.exit]

structure Settling (n n' : Node) : Prop where
  queue : n'.queue = n.queue
  later : n'.later = n.later
  useTry : n'.useTryBlock = n.useTryBlock
  had : n'.xactHadException = n.xactHadException

instance : IsPreorder Node Settling where
  refl _ := ⟨rfl, rfl, rfl, rfl⟩
  trans _ _ _ h h' := ⟨h'.queue.trans h.queue,
  h'.later.trans h.later, h'.useTry.trans h.useTry, h'.had.trans h.had⟩

theorem settling_settleStages : SettleStages Settling := by
  constructor <;> intros <;> exact ⟨rfl, rfl, rfl, rfl⟩

/-- The transaction that `n` handles the COMMIT of is finished in `m`. -/
structure Finished (n m : Node) : Prop where
  once : Once n.awaits m
  later : m.later = n.later
  flags : n.isSkippingChanges = false →
    m.useTryBlock = n.useTryBlock ∧ m.xactHadException = n.xactHadException

theorem Finished.commitOwn {m : Node} (h : Finished n m) (wrote : Bool) :
    Finished n (m.commitOwn wrote) := by
  refine ⟨h.once.commitOwn wrote, ?_, ?_⟩
  · cases wrote <;> exact h.later
  · cases wrote <;> exact h.flags

theorem Once.due_of_awaits {m : Node} (h : Once n.awaits m) (hlater : m.later = n.later)
    (hqueue : m.queue = []) : Once m.due m := by
  refine h.mono fun lsn hlsn => ?_
  rcases hlsn with ha | ha
  · rwa [Node.awaits, hlater] at ha
  · rw [Node.attempt, hqueue] at ha
    cases ha

/-- How an error leaves the worker: nothing was handled twice, and nothing that is due is
finished if the worker goes on. -/
def OnceRaise (e : Raise) (n : Node) : Prop :=
  LogInv OnceLog n ∧ ((n.finish e).looping → Once n.due n)

theorem Once.raise (h : Once n.due n) {e : Raise} : OnceRaise e n := ⟨h.log, fun _ => h⟩

theorem onceRaise_procExit (h : LogInv OnceLog n) : OnceRaise .procExit n :=
  ⟨h, fun hloop => by simp [Node.finish, Node.exit, Node.looping] at hloop⟩

theorem Finished.onceRaise {m : Node} (h : Finished n m) {env : CommitEnv} {p : CommitPoint}
    {f : Fault} (hlate : n.lateErrorEnds env = true) (hfault : env.fault = some (p, f))
    (hp : p.isLate = true) : OnceRaise (.error f) m := by
  refine ⟨h.once.log, fun hloop => absurd hloop (catchError_not_looping ?_)⟩
  simp only [Node.lateErrorEnds, hfault, all_some, hp, Bool.not_true, Bool.false_or,
    Bool.or_eq_true, Bool.and_eq_true, Bool.not_eq_true'] at hlate
  refine hlate.imp_right fun ⟨⟨htry, hhad⟩, hskip⟩ => ?_
  obtain ⟨htry', hhad'⟩ := h.flags hskip
  exact ⟨htry'.trans htry, hhad'.trans hhad⟩

theorem finishCommit_once {m : Node} (h : Finished n m) (endLsn : Nat) {env : CommitEnv}
    (hlate : n.lateErrorEnds env = true) :
    Ends (finishCommit sub endLsn env) m (fun _ n' => Once n'.due n') OnceRaise := by
  refine finishCommit_ends
    (fun f hf => (h.commitOwn env.forwardWrites).onceRaise hlate hf rfl) fun k hk => ?_
  have hk : Finished n k := by
    rcases hk with rfl | rfl
    · exact h
    · exact h.commitOwn env.forwardWrites
  have hleave : Finished n k.leaveRemoteTransaction :=
    { hk with once := hk.once.same .of_eq }
  have hreset : Once (k.leaveRemoteTransaction.resetTransaction.commitOwn env.tablesWrite).due
      (k.leaveRemoteTransaction.resetTransaction.commitOwn env.tablesWrite) := by
    refine Once.due_of_awaits (n := n) ?_ ?_ (queueSame_commitOwn _ _)
    · have hreset : Once n.awaits k.leaveRemoteTransaction.resetTransaction :=
        hleave.once.same .of_eq
      exact hreset.commitOwn env.tablesWrite
    · cases env.tablesWrite <;> exact hk.later
  refine endRemoteTransaction_ends (fun f hf => hk.onceRaise hlate hf rfl)
    (fun f hf => hleave.onceRaise hlate hf rfl) ?_ (fun f _ => ⟨hreset.log, fun _ => hreset⟩) hreset
  exact onceRaise_procExit ((hleave.commitOwn sub.syncWorker).once.log.same .of_eq)

/-- **COMMIT.** -/
theorem handleCommit_once {t : RemoteTxn} (h : Committing n.due t n)
    (horder : ∀ u ∈ n.later, t.commitLsn < u.commitLsn) {env : CommitEnv}
    (hlate : n.lateErrorEnds env = true) :
    Ends (handleCommit sub t.commitLsn t.endLsn env) n (fun _ n' => Once n'.due n') OnceRaise := by
  have hawaits : ∀ lsn, n.awaits lsn → n.due lsn ∧ lsn ≠ t.commitLsn := by
    rintro lsn ⟨u, hu, rfl⟩
    exact ⟨.inl ⟨u, hu, rfl⟩, Nat.ne_of_gt (horder u hu)⟩
  have hsettle : ∀ (skipped : Bool) (m : Node), Committing n.due t m → m.queue = n.queue →
      m.later = n.later →
      (n.isSkippingChanges = false →
        m.useTryBlock = n.useTryBlock ∧ m.xactHadException = n.xactHadException) →
      Ends (settle sub t.commitLsn t.endLsn skipped env) m
        (fun _ n' => Ends (finishCommit sub t.endLsn env) n' (fun _ n' => Once n'.due n') OnceRaise)
        OnceRaise := by
    intro skipped m hm hqueue hlater hflags
    refine ((settle_once hm skipped env).and
      (keeps_settle_of settling_settleStages m)).mono ?_ ?_
    · rintro _ n' ⟨honce, hs⟩
      refine finishCommit_once ⟨honce.mono hawaits, hs.later.trans hlater, fun hskip => ?_⟩ _ hlate
      exact ⟨hs.useTry.trans (hflags hskip).1, hs.had.trans (hflags hskip).2⟩
    · rintro _ n' ⟨honce, hs⟩
      refine ⟨honce.log, fun _ => ?_⟩
      rw [Node.due_of_same (hs.queue.trans hqueue) (hs.later.trans hlater)]
      exact honce
  have hload : Committing n.due t (n.actionCommit.reload env.reload) :=
    { h with once := h.once.same .of_eq }
  refine handleCommit_ends (fun _ _ => ⟨hload.once.log, fun _ => hload.once⟩)
    (fun _ => ?_) fun hskip => ?_
  · exact hsettle false _ hload rfl rfl fun _ => ⟨rfl, rfl⟩
  · refine hsettle true _ ⟨hload.once.same .of_eq, h.due, ?_, h.session⟩ rfl rfl fun hfalse => ?_
    · exact finishSkipping_effects (n := n.actionCommit.reload env.reload) h.effects
    · cases hskip.symm.trans hfalse

/-! ## Each message -/

section Messages

variable {t : RemoteTxn} {pre done : List WalMessage} {m : WalMessage} {o : EntryOutcome}

theorem Taken.committing (ht : Taken pub n t pre done m) (h : Once n.due n) {c e : Nat}
    (hm : m.entry = .commit c e) : Committing n.due t n := by
  have hremote := ht.inRemote_of_commit hm
  refine ⟨h, .inr ?_, ht.effects, ht.session hremote⟩
  cases hattempt : n.attempt with
  | none =>
    rw [(ht.resting hattempt).1] at hremote
    cases hremote
  | some => rw [ht.attempt_eq hattempt]

/-- **One message** of the current transaction, or one sent before it. -/
theorem Taken.dispatch_once (ht : Taken pub n t pre done m) (h : Once n.due n)
    (hlate : ∀ env, o = .commit env → n.lateErrorEnds env = true) {x : Handler}
    (hx : dispatch sub m.entry o = some x) : Ends x n (fun _ n' => Once n'.due n') OnceRaise := by
  refine dispatch_ends_of_frame hx (fun _ hf => h.frame hf) (fun _ _ hf => (h.frame hf).raise)
    (h.advance) fun c e env hm ho => ?_
  obtain ⟨-, rfl, rfl, -⟩ := ht.commit_eq hm
  refine handleCommit_once (ht.committing h hm) (fun u hu => ?_) (hlate env ho)
  exact Nat.lt_of_lt_of_le t.commitLsn_lt (ht.conn.ordered ht.cur hu)

theorem dispatch_aside_once (h : Once n.due n) (haside : m.entry.isAside = true) {x : Handler}
    (hx : dispatch sub m.entry o = some x) : Ends x n (fun _ n' => Once n'.due n') OnceRaise :=
  dispatch_aside_of_frame haside hx (fun _ hf => h.frame hf) (fun _ _ hf => (h.frame hf).raise)
    h.advance

/-! ## Steps -/

/-- The invariant between handlers: of the log always, of what is due while the worker is in its
loops. -/
def OnceBetween (n : Node) : Prop := LogInv OnceLog n ∧ (n.looping → Once n.due n)

theorem Once.between (h : Once n.due n) : OnceBetween n := ⟨h.log, fun _ => h⟩

theorem onceBetween_finish {e : Raise} (h : OnceRaise e n) : OnceBetween (n.finish e) := by
  have hs := sessionSame_finish n e
  refine ⟨h.1.same hs.toLogSame, fun hloop => ?_⟩
  rw [Node.due_of_same hs.queue hs.later]
  exact (h.2 hloop).same hs.toLogSame

theorem onceBetween_catchError (h : Once n.due n) (f : Fault) : OnceBetween (n.catchError f) :=
  onceBetween_finish (e := .error f) h.raise

theorem onceBetween_handle (hstep : n.handle sub m o = some n') (h : Once n.due n)
    (hx : ∀ x, dispatch sub m.entry o = some x →
      Ends x n.resetAction (fun _ n' => Once n'.due n') OnceRaise) : OnceBetween n' := by
  refine handle_of_ends hstep (onceRaise_procExit h.log) (fun x hdispatch => ?_)
    fun _ _ hn' => onceBetween_finish hn'
  exact (hx x hdispatch).mono (fun _ _ hn' => hn'.between) fun _ _ hn' => hn'

theorem once_next {p : Node} (h : Once n.due n) (hnext : Next pub n m p) : Once p.due p := by
  cases hnext with
  | aside | replayed => exact h.same .of_eq
  | received _ _ hattempt _ _ hnew =>
    refine (h.mono fun lsn hlsn => ?_).same .of_eq
    exact hlsn.imp_right fun ha => hattempt.trans (hnew.symm.trans ha)
  | begun t _ _ _ hlater hnew =>
    refine (h.mono fun lsn hlsn => ?_).same .of_eq
    rcases hlsn with ⟨u, hu, hlsn⟩ | ha
    · exact .inl ⟨u, by rw [hlater]; exact mem_cons_of_mem t hu, hlsn⟩
    · exact .inl ⟨t, by simp [hlater], some.inj (hnew.symm.trans ha)⟩

theorem onceBetween_handleNext (hstep : n.handleNext sub o = some n') (hwf : Wf pub n)
    (h : Once n.due n) (hlate : ∀ env, o = .commit env → n.lateErrorEnds env = true) :
    OnceBetween n' := by
  rcases Node.handleNext_next hwf hstep with ⟨-, rfl⟩ | ⟨m, p, hnext, hhandle⟩
  · exact Once.between (h.same .of_eq)
  have hp := once_next h hnext
  have hreset : Once p.resetAction.due p.resetAction := hp.same .of_eq
  refine onceBetween_handle hhandle hp fun x hx => ?_
  cases hnext with
  | aside _ _ _ _ haside => exact dispatch_aside_once hreset haside hx
  | replayed _ _ _ _ htaken | received _ _ _ _ _ _ htaken | begun _ _ _ _ _ _ htaken =>
    exact htaken.dispatch_once hreset hlate hx

end Messages

namespace Node

/-- The origin has passed every transaction that a commit without a commit record ended. -/
def readOnlyPassed (n : Node) : Bool :=
  n.commits.all fun c => c.wal || c.ended.all fun e => e.disables || e.commitLsn < n.origin

/-- No late error starts a replay, and no worker starts on a transaction whose local commit was
read-only. -/
def repeatsNothing (n : Node) : WorkerEvent → Bool
  | .inner (.next (.commit env)) => n.lateErrorEnds env
  | .start _ => n.readOnlyPassed
  | _ => true

end Node

theorem once_start (h : LogInv OnceLog n) (hpassed : n.readOnlyPassed = true)
    (config : WorkerConfig) : Once (n.start pub config).due (n.start pub config) := by
  refine ⟨h.same .of_eq, fun lsn hlsn c hc => ?_⟩
  have hle : n.origin ≤ lsn := by
    rcases hlsn with ⟨t, ht, rfl⟩ | ha
    · simpa using (mem_filter.mp ht).2
    · cases ha
  by_contra hfin
  have hfin : c.finishes lsn = true := by simpa using hfin
  have hlt : lsn < n.origin := by
    cases hwal : c.wal with
    | true => exact h.current.passed c hc hwal lsn hfin
    | false =>
      obtain ⟨e, he, hfin⟩ := (any_eq_true _ _).mp hfin
      have hp := all_eq_true.mp hpassed c hc
      simp only [Bool.and_eq_true, beq_iff_eq, Bool.not_eq_true'] at hfin
      simpa [hwal, he, hfin.1, hfin.2] using hp
  omega

theorem once_leaveInner (h : Once n.due n) : Once n.leaveInner.due n.leaveInner :=
  Node.leaveInner_of (P := fun m => Once m.due m) (h.same .of_eq)
    (h.same .of_eq)

theorem once_commitOwn (h : Once n.due n) (wrote : Bool) :
    Once (n.commitOwn wrote).due (n.commitOwn wrote) := by
  rw [Node.due_of_same (queueSame_commitOwn n wrote) (by cases wrote <;> rfl)]
  exact h.commitOwn wrote

/-- **One step.** -/
theorem onceRun_step {e : WorkerEvent} (hwf : n.looping → Wf pub n) (h : OnceBetween n)
    (hrep : n.repeatsNothing e = true) (hstep : n.step sub pub e = some n') : OnceBetween n' := by
  have hlog : ∀ {m : Node}, LogSame n m → ¬ m.looping → OnceBetween m :=
    fun hs hstop => ⟨h.1.same hs, fun hloop => absurd hloop hstop⟩
  have hquiet : LogSame n n' → n'.queue = n.queue → n'.later = n.later → n'.pc = n.pc →
      OnceBetween n' := by
    intro hs hqueue hlater hpc
    refine ⟨h.1.same hs, fun hloop => ?_⟩
    rw [Node.due_of_same hqueue hlater]
    exact (h.2 (by rwa [Node.looping, hpc] at hloop)).same hs
  have houter : n.pc = .outer → Once n.due n := fun hpc => h.2 (.inl hpc)
  have hinner : n.pc = .inner → Once n.due n := fun hpc => h.2 (.inr (.inl hpc))
  have hafter : n.pc = .afterInner → Once n.due n := fun hpc => h.2 (.inr (.inr hpc))
  have hother : ∀ f : Durable → Durable, (∀ d, (f d).origin = d.origin) →
      OnceBetween (n.commitOther f) := by
    intro f hf
    exact ⟨(h.1.once.commitOther hf).log, fun hloop => (h.2 hloop).commitOther hf⟩
  cases Node.step_cases hstep with
  | start config => exact (once_start h.1 hrep config).between
  | crash kept =>
    exact ⟨h.1.recover kept, fun hloop => by simp [Node.looping, Node.recover, Node.exit] at hloop⟩
  | exit | outerExit | disableOpen | afterDisabling =>
    exact hlog .of_eq (by simp [Node.looping, Node.exit, Node.moveTo])
  | sigterm | flush | reload | keepalive => exact hquiet .of_eq rfl rfl rfl
  | enable | setSkipLsn => exact hother _ fun _ => rfl
  | readonly => exact h
  | cleanup wrote hpc => exact (once_commitOwn (houter hpc) wrote).between
  | outerError f hpc => exact onceBetween_catchError (houter hpc) f
  | enterInner hpc => exact Once.between ((houter hpc).same .of_eq)
  | stopInner _ hpc => exact Once.between ((hinner hpc).same .of_eq)
  | next _ hpc _ hnext =>
    refine onceBetween_handleNext hnext (hwf (.inr (.inl hpc))) (hinner hpc) ?_
    rintro env rfl
    exact hrep
  | aside m _ hpc _ _ haside _ _ _ hhandle =>
    have hreceive : Once (n.receive m).due (n.receive m) := by
      refine ((hinner hpc).mono fun lsn hlsn => ?_).same .of_eq
      refine hlsn.imp_right fun ha => ?_
      rwa [Node.attempt, Node.receive, attemptOf_concat (beginLsn_of_isAside haside)] at ha
    refine onceBetween_handle hhandle hreceive fun x hx => ?_
    have hreset : Once (n.receive m).resetAction.due (n.receive m).resetAction :=
      hreceive.same .of_eq
    exact dispatch_aside_once hreset haside hx
  | interrupt f hpc => exact onceBetween_catchError (hinner hpc) f
  | afterRemote _ _ hpc => exact (once_leaveInner (hafter hpc)).between
  | afterOwn wrote hpc => exact (once_commitOwn (once_leaveInner (hafter hpc)) wrote).between
  | afterError wrote f hpc =>
    exact onceBetween_catchError (once_commitOwn (once_leaveInner (hafter hpc)) wrote) f
  | disable =>
    have hcommit : Once (fun _ => False) n.commitDisabled :=
      h.1.once.concat rfl rfl (Nat.le_max_left _ _) rfl rfl rfl
    exact ⟨hcommit.log.same .of_eq, fun hloop => by
      simp [Node.looping, Node.exit] at hloop⟩

/-- **Every run** whose steps repeat nothing. -/
theorem onceRun_run {n₀ : Node} {events : List WorkerEvent} (hinit : n₀.Initial pub)
    (halong : Runs.Along (Node.step sub pub) (fun n e => n.repeatsNothing e = true) n₀ events)
    (hrun : Runs.run (Node.step sub pub) n₀ events = some n) : OnceBetween n := by
  have hstopped : ¬ n₀.looping := by simp [Node.looping, hinit.stopped]
  have hempty : OnceLog [] n₀.base := ⟨List.Pairwise.nil, fun c hc => by cases hc⟩
  refine (Runs.run_invariant_along (I := fun n => (n.looping → Wf pub n) ∧ OnceBetween n)
    (fun _ _ _ h hrep hstep => ?_) ?_ halong hrun).2
  · exact ⟨Node.wf_step h.1 hstep, onceRun_step h.1 h.2 hrep hstep⟩
  · exact ⟨fun hloop => absurd hloop hstopped, logInv_nil hinit.commits hinit.durable hempty,
      fun hloop => absurd hloop hstopped⟩

/-- **A committed transaction is not handled again.** In every run in which no error between the
local commit and the reset of the queue starts a replay, and no worker starts on a transaction whose
local commit was read-only, no local transaction applies or records a change of a remote transaction
that an earlier one finished. -/
theorem handled_at_most_once {n₀ : Node} {events : List WorkerEvent} (hinit : n₀.Initial pub)
    (halong : Runs.Along (Node.step sub pub) (fun n e => n.repeatsNothing e = true) n₀ events)
    (hrun : Runs.run (Node.step sub pub) n₀ events = some n) : AtMostOnce n.commits :=
  (onceRun_run hinit halong hrun).1.current.once

/-- An error in `process_syncing_tables` comes after the queue is reset: the worker goes on with the
next transaction. A transaction that is itself a replay may fail later than that too. -/
def tablesErrorRun : List WorkerEvent :=
  [.start ⟨.discard, .all, false⟩, .outer none, .nextPlain, .nextWritten, .nextWritten,
    .nextCommit (some (.tables, sampleFault)), .outer none, .nextPlain, .nextPlain,
    .nextWritten, .nextCommit (some (.progress, sampleFault))]

theorem handled_at_most_once_tablesErrorRun :
    ∃ n, Runs.run (Node.step sampleSubscription samplePublisher) sampleNode tablesErrorRun = some n ∧
      n.commits.map LocalCommit.effects = [[.applied 20 1, .applied 20 2], [.applied 40 3]] ∧
      AtMostOnce n.commits := by
  have halong : Runs.Along (Node.step sampleSubscription samplePublisher)
      (fun n e => n.repeatsNothing e = true) sampleNode tablesErrorRun := by decide
  exact ⟨_, rfl, rfl, handled_at_most_once sampleNode_initial halong rfl⟩

def progressErrorRun (behaviour : ExceptionBehaviour) : List WorkerEvent :=
  [.start ⟨behaviour, .all, false⟩, .outer none, .nextPlain, .nextWritten, .nextWritten,
    .nextCommit (some (.progress, sampleFault)), .outer none, .nextPlain, .nextWritten, .nextWritten,
    .nextCommit none]

/-- **A transaction that is handled again**: whatever the mode, it is committed and then replayed,
which applies its changes a second time or records them as discarded. -/
theorem handled_again : sampleNode.Initial samplePublisher ∧
    ∀ behaviour, ∃ n, Runs.run (Node.step sampleSubscription samplePublisher) sampleNode
        (progressErrorRun behaviour) = some n ∧
      n.commits.map LocalCommit.effects = [[.applied 20 1, .applied 20 2],
        if behaviour = .discard then [.applied 20 1, .applied 20 2]
        else [.logged 20 1, .logged 20 2]] ∧ ¬ AtMostOnce n.commits := by
  refine ⟨sampleNode_initial, fun behaviour => ?_⟩
  cases behaviour with
  | discard | transdiscard | subDisable => exact ⟨_, rfl, rfl, by decide⟩

end Spock
