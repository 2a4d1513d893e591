import Spock.Worker.Run

/-!
# Spock — what a handler leaves alone

Most of a node's state is touched by few functions. `Frame` collects what no handler of a single
row touches, `FrameSession` adds the session origin; both are preorders, so that the rules for
`Keeps` carry them through a handler.

* **`keeps_handleBegin`**, **`keeps_handleChange`**, **`keeps_handleOrigin`** — the row handlers;
* **`handleBegin_ends`**, **`handleChange_ends`** — what the first two do change;
* **`EnterStages`**, **`SettleStages`**, **`FinishStages`** — what `handle_commit` keeps, statement
  by statement.
-/

namespace Spock

open Outcome Option

/-- The local log, the history, the queue, the feedback state and the connection are the same. -/
structure Frame (n n' : Node) : Prop where
  durable : n'.durable = n.durable
  base : n'.base = n.base
  walEnd : n'.walEnd = n.walEnd
  walFlush : n'.walFlush = n.walFlush
  commits : n'.commits = n.commits
  errored : n'.errored = n.errored
  reports : n'.reports = n.reports
  failedBehaviour : n'.failedBehaviour = n.failedBehaviour
  pc : n'.pc = n.pc
  config : n'.config = n.config
  gotSigterm : n'.gotSigterm = n.gotSigterm
  xactLastCommitEnd : n'.xactLastCommitEnd = n.xactLastCommitEnd
  queue : n'.queue = n.queue
  replay : n'.replay = n.replay
  lastReceived : n'.lastReceived = n.lastReceived
  fb : n'.fb = n.fb
  cur : n'.cur = n.cur
  todo : n'.todo = n.todo
  later : n'.later = n.later

/-- And the session origin. -/
structure FrameSession (n n' : Node) : Prop extends Frame n n' where
  session : n'.sessionOriginLsn = n.sessionOriginLsn
  commitFailed : n'.commitFailed = n.commitFailed

theorem Frame.refl (n : Node) : Frame n n := by constructor <;> rfl

variable {n₁ n₂ n₃ : Node} {sub : Subscription} {entry : Entry} {o : EntryOutcome}

theorem Frame.trans (h : Frame n₁ n₂) (h' : Frame n₂ n₃) : Frame n₁ n₃ := by
  cases h
  cases h'
  constructor <;> apply Eq.trans <;> assumption

instance : IsPreorder Node Frame where
  refl := Frame.refl
  trans _ _ _ := Frame.trans

theorem FrameSession.refl (n : Node) : FrameSession n n := ⟨Frame.refl n, rfl, rfl⟩

theorem FrameSession.trans (h : FrameSession n₁ n₂) (h' : FrameSession n₂ n₃) :
    FrameSession n₁ n₃ :=
  ⟨h.toFrame.trans h'.toFrame, h'.session.trans h.session, h'.commitFailed.trans h.commitFailed⟩

instance : IsPreorder Node FrameSession where
  refl := FrameSession.refl
  trans _ _ _ := FrameSession.trans

theorem keeps_frame {α : Type} {x : EStateM Raise Node α} (h : Keeps FrameSession x) :
    Keeps Frame x :=
  fun n => (h n).mono (fun _ _ hf => hf.toFrame) fun _ _ hf => hf.toFrame

/-! ## Parts of the handlers -/

variable {r : Node → Node → Prop} {n : Node} {Q : PUnit → Node → Prop} {R : Raise → Node → Prop}
  {x : Handler} {lsn commitLsn endLsn : Nat} {fault : Option Fault} {transactional skipped : Bool}
  {env : CommitEnv} {p : CommitPoint}

/-- An error that may come at this point leaves everything as it is. -/
theorem keeps_raiseIf [Std.Refl r] : Keeps r (raiseIf fault) := by
  cases fault with
  | none => exact keeps_pure _
  | some => exact keeps_throw _

theorem keeps_raiseAt [Std.Refl r] :
    Keeps r (env.raiseAt p) := keeps_raiseIf

/-- `raiseAt` raises the fault of its point, if there is one, and does nothing otherwise. -/
theorem raiseAt_ends (hQ : (∀ f, env.fault ≠ some (p, f)) → Q ⟨⟩ n)
    (hR : ∀ f, env.fault = some (p, f) → R (.error f) n) : Ends (env.raiseAt p) n Q R := by
  unfold CommitEnv.raiseAt
  rcases hf : env.fault with _ | ⟨q, f⟩
  · exact hQ fun f h => by simp [hf] at h
  · by_cases hq : q = p
    · subst hq
      simpa [raiseIf] using hR f hf
    · simpa [raiseIf, hq] using hQ fun f' h => hq (by simp_all)

theorem onlyIf_ends {c : Bool} :
    Ends (onlyIf c x) n Q R ↔ (c = true → Ends x n Q R) ∧ (c = false → Q ⟨⟩ n) := by
  cases c <;> simp [onlyIf]

theorem keeps_onlyIf [Std.Refl r] {c : Bool} (h : Keeps r x) :
    Keeps r (onlyIf c x) := keeps_ite h (keeps_pure _)

/-! ## `handle_begin` -/

/-- The search for the slot only sets the statics of exception handling. -/
theorem keeps_findExceptionLogSlot : Keeps FrameSession (findExceptionLogSlot sub lsn) := by
  intro n
  unfold findExceptionLogSlot
  rw [ends_bind, ends_get]
  rcases n.slotIndex sub with _ | i
  · rcases n.freeSlotIndex with _ | i
    · exact ⟨by constructor <;> rfl, rfl, rfl⟩
    · exact ⟨by constructor <;> rfl, rfl, rfl⟩
  · exact ⟨by constructor <;> rfl, rfl, rfl⟩

/-- BEGIN sets the session origin, and nothing else of the frame. -/
theorem keeps_handleBegin : Keeps Frame (handleBegin sub lsn fault) := by
  refine keeps_bind (keeps_modify fun n => by constructor <;> rfl) fun _ => ?_
  refine keeps_bind (keeps_raiseIf) fun _ => ?_
  refine keeps_bind (keeps_modify fun n => by constructor <;> rfl) fun _ => ?_
  refine keeps_bind (keeps_modify fun n => by constructor <;> rfl) fun _ => ?_
  refine keeps_bind keeps_get fun n => ?_
  refine keeps_bind (keeps_onlyIf (keeps_frame (keeps_findExceptionLogSlot))) fun _ => ?_
  exact keeps_modify fun n => by constructor <;> rfl

/-- The slot search sets `use_try_block` only when a slot of ours holds this commit LSN. -/
theorem findExceptionLogSlot_ends :
    Ends (findExceptionLogSlot sub lsn) n
      (fun _ n' => n'.xact = n.xact ∧ n'.firstBeginAtStartup = false ∧
        (n'.useTryBlock = true → n.useTryBlock = true ∨
          ∃ e ∈ n.exceptionLog, e.isFor sub.name = true ∧ e.commitLsn = lsn))
      (fun _ _ => True) := by
  unfold findExceptionLogSlot
  rw [ends_bind, ends_get]
  rcases hslot : n.slotIndex sub with _ | i
  · rcases n.freeSlotIndex with _ | i
    · exact trivial
    · exact ⟨rfl, rfl, fun h => absurd h (by simp [Node.fillSlot])⟩
  · refine ⟨rfl, rfl, fun h => ?_⟩
    obtain ⟨hlt, hfor, -⟩ := List.findIdx?_eq_some_iff_getElem.mp hslot
    have huse : n.useTryBlock = true ∨ n.exceptionLog[i].commitLsn = lsn := by
      simpa [Node.takeSlot, List.getElem?_eq_getElem hlt] using h
    exact huse.imp_right fun heq => ⟨_, List.getElem_mem hlt, hfor, heq⟩

/-- After BEGIN a remote transaction is under way, at its commit LSN. If it raises, that is before
or after the session origin was set. -/
theorem handleBegin_ends :
    Ends (handleBegin sub lsn fault) n
      (fun _ n' => n'.inRemoteTransaction = true ∧ n'.sessionOriginLsn = lsn ∧
        n'.commitFailed = false ∧ n'.xact = n.xact ∧ n'.firstBeginAtStartup = false ∧
        (n'.useTryBlock = true → n.useTryBlock = true ∨ (n.firstBeginAtStartup = true ∧
          ∃ e ∈ n.exceptionLog, e.isFor sub.name = true ∧ e.commitLsn = lsn)))
      (fun _ n' => (n'.sessionOriginLsn = n.sessionOriginLsn ∧ n'.commitFailed = n.commitFailed) ∨
        (n'.sessionOriginLsn = lsn ∧ n'.commitFailed = false)) := by
  unfold handleBegin
  rw [ends_bind, ends_modify, ends_bind]
  cases fault with
  | some => exact .inl ⟨rfl, rfl⟩
  | none =>
    simp only [raiseIf, ends_pure, ends_bind, ends_modify, ends_get]
    -- from here on the session origin is set
    refine onlyIf_ends.mpr ⟨fun hf => ?_, fun hf => ?_⟩
    · refine ((keeps_findExceptionLogSlot _).and (findExceptionLogSlot_ends)).mono
        ?_ fun _ p hp => .inr ⟨hp.1.session, hp.1.commitFailed⟩
      rintro _ p ⟨hp, hpx, hpf, hpt⟩
      exact ⟨rfl, hp.session, hp.commitFailed, hpx, hpf, fun h => (hpt h).imp_right fun h => ⟨hf, h⟩⟩
    · exact ⟨rfl, rfl, rfl, rfl, hf, fun h => .inl h⟩

/-! ## The row handlers -/

section RowHandlers

variable {id : Nat} {result : ChangeResult}

/-- A change opens the transaction, adds effects to it and may set `xact_had_exception`. -/
theorem keeps_handleChange_of [Std.Refl r] [IsTrans Node r]
    (hbegin : ∀ n : Node, r n n.beginReplicationStep)
    (heffects : ∀ (n : Node) (l : List Effect), r n (n.addEffects l))
    (hhad : ∀ n : Node, r n n.setHadException) : Keeps r (handleChange id result) := by
  refine keeps_bind keeps_get fun n => keeps_ite (keeps_pure _) ?_
  refine keeps_bind (keeps_modify hbegin) fun _ => ?_
  have hdry : Keeps r (modify (fun n => n.logException false id) : Handler) :=
    keeps_modify fun n => heffects n _
  have hfail : Keeps r (modify (fun n => n.setHadException.logException true id) : Handler) :=
    keeps_modify fun n => IsTrans.trans _ _ _ (hhad n) (heffects n.setHadException _)
  cases result with
  | skipped => exact keeps_pure _
  | raised => exact keeps_throw _
  | missingRelation => exact keeps_ite hfail (keeps_throw _)
  | ok => exact keeps_ite hdry (keeps_ite (keeps_modify fun n => heffects n _) (keeps_pure _))
  | failed => exact keeps_ite hdry (keeps_ite hfail (keeps_throw _))

/-- It leaves the log, the queue and the connection alone. -/
theorem keeps_handleChange : Keeps FrameSession (handleChange id result) :=
  keeps_handleChange_of (fun n => ⟨by constructor <;> rfl, rfl, rfl⟩)
    (fun n l => ⟨by constructor <;> rfl, rfl, rfl⟩) (fun n => ⟨by constructor <;> rfl, rfl, rfl⟩)

/-- The state after a change: its transaction is open, and what the change did is in it. -/
def Touched (n n' : Node) : Prop :=
  n'.inRemoteTransaction = n.inRemoteTransaction ∧ n'.skipXactFinishLsn = n.skipXactFinishLsn ∧
    ∃ l : List Effect, (∀ e ∈ l, e.commitLsn = n.sessionOriginLsn) ∧
      n'.xact = some ⟨(n.xact.getD ⟨[], false⟩).effects ++ l, (n.xact.getD ⟨[], false⟩).clearsSkip⟩

theorem touched_addEffects (n : Node) {l : List Effect}
    (hl : ∀ e ∈ l, e.commitLsn = n.sessionOriginLsn) :
    Touched n (n.beginReplicationStep.addEffects l) := ⟨rfl, rfl, l, hl, rfl⟩

theorem commitLsn_logged (c : Bool) (lsn id : Nat) :
    ∀ e ∈ (if c then [Effect.logged lsn id] else []), e.commitLsn = lsn := by
  cases c <;> simp [Effect.commitLsn]

/-- What a change does, unless the transaction is being skipped. -/
theorem handleChange_ends :
    Ends (handleChange id result) n
      (fun _ n' => (n.isSkippingChanges = true ∧ n' = n) ∨ Touched n n') (fun _ _ => True) := by
  unfold handleChange
  rw [ends_bind, ends_get, ends_ite]
  refine ⟨fun hskip => .inl ⟨hskip, rfl⟩, fun _ => ?_⟩
  rw [ends_bind, ends_modify]
  have hdry : Touched n (n.beginReplicationStep.logException false id) :=
    touched_addEffects n (commitLsn_logged _ _ _)
  have hfail : Touched n (n.beginReplicationStep.setHadException.logException true id) :=
    ⟨rfl, rfl, _, commitLsn_logged _ _ _, rfl⟩
  cases result with
  | skipped => exact .inr ⟨rfl, rfl, [], by simp, by simp [Node.beginReplicationStep]⟩
  | raised => exact trivial
  | missingRelation => exact ends_ite.mpr ⟨fun _ => .inr hfail, fun _ => trivial⟩
  | ok =>
    refine ends_ite.mpr ⟨fun _ => .inr hdry, fun _ => ends_ite.mpr ⟨fun _ => .inr ?_, fun _ => ?_⟩⟩
    · exact touched_addEffects n (by simp [Effect.commitLsn, Node.beginReplicationStep])
    · exact .inr ⟨rfl, rfl, [], by simp, by simp [Node.beginReplicationStep]⟩
  | failed =>
    exact ends_ite.mpr ⟨fun _ => .inr hdry, fun _ =>
      ends_ite.mpr ⟨fun _ => .inr hfail, fun _ => trivial⟩⟩

end RowHandlers

/-- The statics that say how far the current transaction has come are the same. -/
structure FrameXact (n n' : Node) : Prop extends FrameSession n n' where
  inRemote : n'.inRemoteTransaction = n.inRemoteTransaction
  skip : n'.skipXactFinishLsn = n.skipXactFinishLsn
  xact : n'.xact = n.xact
  useTry : n'.useTryBlock = n.useTryBlock
  firstBegin : n'.firstBeginAtStartup = n.firstBeginAtStartup
  exceptionLog : n'.exceptionLog = n.exceptionLog

theorem FrameXact.refl (n : Node) : FrameXact n n :=
  ⟨FrameSession.refl n, rfl, rfl, rfl, rfl, rfl, rfl⟩

theorem FrameXact.trans (h : FrameXact n₁ n₂) (h' : FrameXact n₂ n₃) : FrameXact n₁ n₃ :=
  ⟨h.toFrameSession.trans h'.toFrameSession, h'.inRemote.trans h.inRemote, h'.skip.trans h.skip,
    h'.xact.trans h.xact, h'.useTry.trans h.useTry, h'.firstBegin.trans h.firstBegin,
    h'.exceptionLog.trans h.exceptionLog⟩

instance : IsPreorder Node FrameXact where
  refl := FrameXact.refl
  trans _ _ _ := FrameXact.trans

/-- ORIGIN is refused unless it comes right after BEGIN, and marks the transaction as forwarded. -/
theorem keeps_handleOrigin : Keeps FrameXact (handleOrigin sub fault) := by
  refine keeps_bind keeps_get fun n => ?_
  refine keeps_ite (keeps_throw _) ?_
  exact keeps_bind (keeps_raiseIf) fun _ =>
    keeps_modify fun n => ⟨⟨by constructor <;> rfl, rfl, rfl⟩, rfl, rfl, rfl, rfl, rfl, rfl⟩

/-! ## `handle_commit` -/

/-- A relation that the first statements of `handle_commit` keep. -/
structure EnterStages (r : Node → Node → Prop) : Prop where
  actionCommit : ∀ n : Node, r n n.actionCommit
  reload : ∀ (n : Node) c, r n (n.reload c)
  finishSkipping : ∀ n : Node, r n n.finishSkipping

/-- A relation that every statement of the local commit keeps. -/
structure SettleStages (r : Node → Node → Prop) : Prop where
  clearSkip : ∀ n : Node, r n n.clearSubscriptionSkipLsn
  stage : ∀ (n : Node) endLsn, r n (n.stageOriginLsn endLsn).clearDiscarded
  failCommit : ∀ n : Node, r n n.failCommit
  commitRemote : ∀ (n : Node) commitLsn endLsn skipped, r n (n.commitRemote commitLsn endLsn skipped)
  clearLog : ∀ n : Node, r n (n.clearExceptionLog true)
  track : ∀ (n : Node) endLsn, r n (n.clearSavedMessage.trackCommit endLsn)
  advance : ∀ (n : Node) lsn, r n (n.reploriginSessionAdvance lsn)

/-- A relation that every statement of `handle_commit` keeps, after the local commit. -/
structure FinishStages (r : Node → Node → Prop) : Prop where
  commitOwn : ∀ n : Node, r n (n.commitTransaction true id [] none)
  leave : ∀ n : Node, r n n.leaveRemoteTransaction
  flushWal : ∀ n : Node, r n n.flushWal
  reset : ∀ n : Node, r n n.resetTransaction

section CommitStages

variable [Std.Refl r] [IsTrans Node r]

omit [IsTrans Node r] in
theorem FinishStages.commitOwn_of (h : FinishStages r) (n : Node) (wrote : Bool) :
    r n (n.commitOwn wrote) := by
  cases wrote
  · exact Std.Refl.refl n
  · exact h.commitOwn n

/-- The local commit, statement by statement, whichever of them raises. -/
theorem keeps_commitLocally_of (h : SettleStages r) :
    Keeps r (commitLocally sub commitLsn endLsn skipped env) := by
  refine keeps_bind (keeps_modify h.clearSkip) fun _ => ?_
  refine keeps_bind (keeps_raiseAt) fun _ => ?_
  refine keeps_bind (keeps_modify fun n => h.stage n endLsn) fun _ => ?_
  unfold commitStaged
  refine keeps_bind (keeps_onlyIf (keeps_modify h.failCommit)) fun _ => ?_
  refine keeps_bind (keeps_raiseAt) fun _ => ?_
  refine keeps_bind (keeps_modify fun n => h.commitRemote n commitLsn endLsn skipped) fun _ => ?_
  refine keeps_bind keeps_get fun _ => keeps_ite ?_ (keeps_modify fun n => h.track n endLsn)
  exact keeps_bind (keeps_modify h.clearLog) fun _ => keeps_throw _

/-- Settling the transaction: the local commit, or an advance of the origin. -/
theorem keeps_settle_of (h : SettleStages r) : Keeps r (settle sub commitLsn endLsn skipped env) :=
  keeps_bind keeps_get fun _ => keeps_ite (keeps_commitLocally_of h)
    (keeps_modify fun n => h.advance n endLsn)

/-- The statements after the local commit, each in a transaction of its own. -/
theorem keeps_finishCommit_of (h : FinishStages r) : Keeps r (finishCommit sub endLsn env) := by
  have hown : ∀ wrote, Keeps r (modify (·.commitOwn wrote) : Handler) :=
    fun wrote => keeps_modify fun n => h.commitOwn_of n wrote
  refine keeps_bind (keeps_bind keeps_get fun _ => keeps_ite ?_ (keeps_pure _)) fun _ => ?_
  · exact keeps_bind (hown _) fun _ => keeps_raiseAt
  unfold endRemoteTransaction
  refine keeps_bind (keeps_raiseAt) fun _ => ?_
  refine keeps_bind (keeps_modify h.leave) fun _ => keeps_ite ?_ ?_
  · refine keeps_bind (keeps_onlyIf (keeps_raiseAt)) fun _ => ?_
    refine keeps_bind (hown _) fun _ => ?_
    exact keeps_bind (keeps_modify h.flushWal) fun _ => keeps_throw _
  · refine keeps_bind (keeps_modify h.reset) fun _ => ?_
    exact keeps_bind (hown _) fun _ => keeps_raiseAt

/-- **What all statements keep, `handle_commit` keeps.** -/
theorem keeps_handleCommit_of (h : EnterStages r) (hsettle : SettleStages r)
    (hfinish : FinishStages r) : Keeps r (handleCommit sub commitLsn endLsn env) := by
  refine keeps_bind (keeps_modify h.actionCommit) fun _ => ?_
  refine keeps_bind (keeps_modify fun n => h.reload n env.reload) fun _ => ?_
  refine keeps_bind (keeps_raiseAt) fun _ => ?_
  refine keeps_bind keeps_get fun _ => ?_
  refine keeps_bind (keeps_onlyIf (keeps_modify h.finishSkipping)) fun _ => ?_
  exact keeps_bind (keeps_settle_of hsettle) fun _ =>
    keeps_finishCommit_of hfinish

end CommitStages

section CommitEnds

/-- Handling a COMMIT is settling the transaction and finishing, after skipping has ended. -/
theorem handleCommit_ends
    (hwait : ∀ f, env.fault = some (.wait, f) → R (.error f) (n.actionCommit.reload env.reload))
    (hplain : n.isSkippingChanges = false →
      Ends (settle sub commitLsn endLsn false env) (n.actionCommit.reload env.reload)
        (fun _ n' => Ends (finishCommit sub endLsn env) n' Q R) R)
    (hskip : n.isSkippingChanges = true →
      Ends (settle sub commitLsn endLsn true env) (n.actionCommit.reload env.reload).finishSkipping
        (fun _ n' => Ends (finishCommit sub endLsn env) n' Q R) R) :
    Ends (handleCommit sub commitLsn endLsn env) n Q R := by
  unfold handleCommit
  rw [ends_bind, ends_modify, ends_bind, ends_modify, ends_bind]
  refine raiseAt_ends (fun _ => ?_) hwait
  rw [ends_bind, ends_get, ends_bind]
  refine onlyIf_ends.mpr ⟨fun hs => ?_, fun hs => ?_⟩
  · rw [ends_modify, ends_bind, show (n.actionCommit.reload env.reload).isSkippingChanges = true from hs]
    exact hskip hs
  · rw [ends_bind, show (n.actionCommit.reload env.reload).isSkippingChanges = false from hs]
    exact hplain hs

/-- The commit raises and is marked as failed, or goes through. -/
theorem commitStaged_ends (hfail : ∀ f, env.fault = some (.commit, f) → R (.error f) n.failCommit)
    (hdisable : n.mustDisable = true → ∀ e,
      R e ((n.commitRemote commitLsn endLsn skipped).clearExceptionLog true))
    (hok : n.mustDisable = false →
      Q ⟨⟩ ((n.commitRemote commitLsn endLsn skipped).clearSavedMessage.trackCommit endLsn)) :
    Ends (commitStaged sub commitLsn endLsn skipped env) n Q R := by
  unfold commitStaged
  rw [ends_bind]
  refine onlyIf_ends.mpr ⟨fun hpoint => ?_, fun hpoint => ?_⟩
  · rw [ends_modify, ends_bind]
    refine raiseAt_ends (fun hno => ?_) hfail
    obtain ⟨p, hp, hcommit⟩ := (any_eq_true _ _).mp hpoint
    exact absurd (by rw [hp, ← of_decide_eq_true hcommit]) (hno p.2)
  · rw [ends_bind]
    refine raiseAt_ends (fun _ => ?_) fun f hf => by simp [hf] at hpoint
    rw [ends_bind, ends_modify, afterLocalCommit, ends_bind, ends_get, ends_ite]
    exact ⟨fun hdis => hdisable hdis _, fun hdis => hok (Bool.eq_false_iff.mpr hdis)⟩

/-- The local transaction is committed, after its skip LSN is cleared and its origin staged. -/
theorem commitLocally_ends
    (hclear : ∀ f, env.fault = some (.clearSkip, f) → R (.error f) n.clearSubscriptionSkipLsn)
    (hstaged : Ends (commitStaged sub commitLsn endLsn skipped env)
      (n.clearSubscriptionSkipLsn.stageOriginLsn endLsn).clearDiscarded Q R) :
    Ends (commitLocally sub commitLsn endLsn skipped env) n Q R := by
  unfold commitLocally
  rw [ends_bind, ends_modify, ends_bind]
  refine raiseAt_ends (fun _ => ?_) hclear
  rw [ends_bind, ends_modify]
  exact hstaged

/-- The remote transaction is settled by a local one, or by an advance of the origin. -/
theorem settle_ends
    (hopen : n.xact.isSome = true → Ends (commitLocally sub commitLsn endLsn skipped env) n Q R)
    (hnone : n.xact = none → Q ⟨⟩ (n.reploriginSessionAdvance endLsn)) :
    Ends (settle sub commitLsn endLsn skipped env) n Q R := by
  unfold settle
  rw [ends_bind, ends_get, ends_ite]
  exact ⟨hopen, fun h => hnone (not_isSome_iff_eq_none.mp h)⟩

/-- What follows the local commit, in the order of its errors. -/
theorem finishCommit_ends
    (hforward : ∀ f, env.fault = some (.forward, f) → R (.error f) (n.commitOwn env.forwardWrites))
    (hend : ∀ m, m = n ∨ m = n.commitOwn env.forwardWrites →
      Ends (endRemoteTransaction sub endLsn env) m Q R) :
    Ends (finishCommit sub endLsn env) n Q R := by
  unfold finishCommit maybeAdvanceForwardedOrigin
  rw [ends_bind, ends_bind, ends_get, ends_ite]
  refine ⟨fun _ => ?_, fun _ => hend n (.inl rfl)⟩
  rw [ends_bind, ends_modify]
  exact raiseAt_ends (fun _ => hend _ (.inr rfl)) hforward

/-- The worker leaves the remote transaction. It stops there once `replay_stop_lsn` is reached, and
looks at the syncing tables otherwise. -/
theorem endRemoteTransaction_ends
    (hprogress : ∀ f, env.fault = some (.progress, f) → R (.error f) n)
    (hsync : ∀ f, env.fault = some (.syncStatus, f) → R (.error f) n.leaveRemoteTransaction)
    (hstop : R .procExit (n.leaveRemoteTransaction.commitOwn sub.syncWorker).flushWal)
    (htables : ∀ f, env.fault = some (.tables, f) →
      R (.error f) (n.leaveRemoteTransaction.resetTransaction.commitOwn env.tablesWrite))
    (hok : Q ⟨⟩ (n.leaveRemoteTransaction.resetTransaction.commitOwn env.tablesWrite)) :
    Ends (endRemoteTransaction sub endLsn env) n Q R := by
  unfold endRemoteTransaction
  rw [ends_bind]
  refine raiseAt_ends (fun _ => ?_) hprogress
  rw [ends_bind, ends_modify, ends_ite]
  refine ⟨fun _ => ?_, fun _ => ?_⟩
  · rw [stopReplay, ends_bind]
    exact onlyIf_ends.mpr ⟨fun _ => raiseAt_ends (fun _ => hstop) hsync, fun _ => hstop⟩
  · rw [ends_bind, ends_modify, processSyncingTables, ends_bind, ends_modify]
    exact raiseAt_ends (fun _ => hok) htables

end CommitEnds

/-! ## Messages, and the end of a handler -/

/-- A message that is not part of a transaction advances the origin. -/
theorem handleMessage_ends :
    Ends (handleMessage lsn transactional fault) n
      (fun _ n' => n' = n ∨ (transactional = false ∧ n' = n.reploriginSessionAdvance lsn))
      (fun _ n' => n' = n) := by
  unfold handleMessage
  rw [ends_bind]
  cases fault with
  | some => exact rfl
  | none => cases transactional <;> simp [raiseIf]

/-- One case for each kind of message. -/
theorem dispatch_ends (hx : dispatch sub entry o = some x)
    (hbegin : ∀ lsn fault, entry = .begin lsn → o = .plain fault →
      Ends (handleBegin sub lsn fault) n Q R)
    (hchange : ∀ id result, entry = .change id → o = .change result →
      Ends (handleChange id result) n Q R)
    (hcommit : ∀ c e env, entry = .commit c e → o = .commit env →
      Ends (handleCommit sub c e env) n Q R)
    (horigin : ∀ fault, entry = .origin → o = .plain fault → Ends (handleOrigin sub fault) n Q R)
    (hmessage : ∀ lsn transactional fault, entry = .message lsn transactional → o = .plain fault →
      Ends (handleMessage lsn transactional fault) n Q R)
    (hother : ∀ fault, entry = .other → o = .plain fault → Ends (raiseIf fault) n Q R) :
    Ends x n Q R := by
  unfold dispatch at hx
  split at hx <;> cases hx
  · exact hbegin _ _ rfl rfl
  · exact horigin _ rfl rfl
  · exact hchange _ _ rfl rfl
  · exact hmessage _ _ _ rfl rfl
  · exact hother _ rfl rfl
  · exact hcommit _ _ _ rfl rfl

/-- The dispatch of a message sent between transactions. -/
theorem dispatch_aside_ends (haside : entry.isAside = true) (hx : dispatch sub entry o = some x)
    (hmessage : ∀ lsn transactional fault, entry = .message lsn transactional → o = .plain fault →
      Ends (handleMessage lsn transactional fault) n Q R)
    (hother : ∀ fault, entry = .other → o = .plain fault → Ends (raiseIf fault) n Q R) :
    Ends x n Q R := by
  refine dispatch_ends hx ?_ ?_ ?_ ?_ hmessage hother
  all_goals
    intros
    subst_vars
    cases haside

/-- `replication_handler` adds nothing to what a handler keeps. -/
theorem replicationHandler_ends (hexit : R .procExit n) (h : Ends x n.resetAction Q R) :
    Ends (replicationHandler x) n Q R := by
  unfold replicationHandler
  rw [ends_bind, ends_get, ends_ite]
  exact ⟨fun _ => hexit, fun _ => h⟩

/-- What a handler may end in, the worker goes on from. -/
theorem runHandler_of_ends {P : Node → Prop} (h : Ends x n (fun _ n' => P n') R)
    (hR : ∀ e n', R e n' → P (n'.finish e)) : P (n.runHandler x) := by
  unfold Ends at h
  unfold Node.runHandler
  cases hx : x n with
  | ok =>
    rw [hx] at h
    exact h
  | error e n' =>
    rw [hx] at h
    exact hR e n' h

/-! ## Rules for a worker -/

section Rules

variable {n' : Node} {P : Node → Prop}

/-- Handling a message is its handler, and what `apply_work` makes of its end. -/
theorem handle_of_ends {m : WalMessage} (hstep : n.handle sub m o = some n') (hexit : R .procExit n)
    (h : ∀ x, dispatch sub m.entry o = some x → Ends x n.resetAction (fun _ n' => P n') R)
    (hR : ∀ e n', R e n' → P (n'.finish e)) : P n' := by
  obtain ⟨x, hx, rfl⟩ := map_eq_some_iff.mp hstep
  exact runHandler_of_ends (replicationHandler_ends hexit (h x hx)) hR

/-- Only COMMIT, and a message that advances the origin, go beyond the frame. -/
theorem dispatch_ends_of_frame (hx : dispatch sub entry o = some x) (hP : ∀ n', Frame n n' → P n')
    (hR : ∀ e n', Frame n n' → R e n') (hadvance : ∀ lsn, P (n.reploriginSessionAdvance lsn))
    (hcommit : ∀ c e env, entry = .commit c e → o = .commit env →
      Ends (handleCommit sub c e env) n (fun _ n' => P n') R) : Ends x n (fun _ n' => P n') R := by
  have hframe : ∀ {y : Handler}, Keeps Frame y → Ends y n (fun _ n' => P n') R := fun hy =>
    (hy n).mono (fun _ n' hf => hP n' hf) hR
  refine dispatch_ends hx (fun lsn fault _ _ => hframe (keeps_handleBegin))
    (fun id result _ _ => hframe (keeps_frame (keeps_handleChange))) hcommit
    (fun fault _ _ => ?_) (fun lsn transactional fault _ _ => ?_)
    fun fault _ _ => hframe (keeps_raiseIf)
  · exact (keeps_handleOrigin n).mono (fun _ n' hf => hP n' hf.toFrame)
      fun e n' hf => hR e n' hf.toFrame
  · refine (handleMessage_ends).mono ?_
      fun e _ heq => heq ▸ hR e n (Frame.refl n)
    rintro _ n' (rfl | ⟨-, rfl⟩)
    · exact hP _ (Frame.refl _)
    · exact hadvance lsn

/-- A message sent between transactions is not a COMMIT. -/
theorem dispatch_aside_of_frame (haside : entry.isAside = true) (hx : dispatch sub entry o = some x)
    (hP : ∀ n', Frame n n' → P n') (hR : ∀ e n', Frame n n' → R e n')
    (hadvance : ∀ lsn, P (n.reploriginSessionAdvance lsn)) : Ends x n (fun _ n' => P n') R := by
  refine dispatch_ends_of_frame hx hP hR hadvance fun c e env hentry _ => ?_
  rw [hentry] at haside
  cases haside

end Rules

end Spock
