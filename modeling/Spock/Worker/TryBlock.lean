import Spock.Worker.Stream

/-!
# Spock — when a transaction is handled as failed

A worker with `use_try_block` set takes the transaction it handles for one that has failed
before: TRANSDISCARD discards it, SUB_DISABLE disables the subscription. The flag comes from two
places. `PG_CATCH` sets it for every error that it turns into a replay, and `handle_begin` sets it
at the first BEGIN of a process when the shared slot still holds the same commit LSN.

Both can hit a transaction that never failed. An error outside any transaction (the idle timeout,
`process_syncing_tables`) is charged to the next one, and a process that goes away in the middle
of a transaction leaves that transaction's LSN in the slot, which then meets it after the restart.

* **`useTryBlock_of_error`** — what that says about the transaction being handled.
-/

namespace Spock

open Outcome Option

namespace Node

def strayError (n : Node) : WorkerEvent → Bool
  | .outer (some f) => !f.isConnection && n.attempt.isNone
  | .interrupt f => !f.isConnection && n.attempt.isNone
  | .afterInner _ (some f) => !f.isConnection && n.attempt.isNone
  | .inner (.aside _ (some f)) => !f.isConnection
  | .inner (.next (.commit env)) => env.fault.any fun p => p.1 = .tables && !p.2.isConnection
  | _ => false

/-- Our slot holds no LSN, one the origin has passed, or that of a transaction that failed. -/
def slotHarmless (n : Node) (sub : Subscription) : Bool :=
  n.exceptionLog.all fun e => !e.isFor sub.name || e.commitLsn == 0 ||
    decide (e.commitLsn < n.origin) || n.errored.contains e.commitLsn

/-- No stray error, and no start with an LSN in the slot that will come again. -/
def attributable (sub : Subscription) (n : Node) (e : WorkerEvent) : Bool :=
  !n.strayError e &&
    match e with
    | .start _ => n.slotHarmless sub
    | _ => true

end Node

/-- The flag and the slot speak of transactions that failed. -/
structure TryInv (sub : Subscription) (n : Node) : Prop where
  attempt_of_try : n.useTryBlock = true → n.attempt ≠ none
  attempt_of_replay : n.replay ≠ none → n.attempt ≠ none
  failed : ∀ lsn, n.attempt = some lsn → (n.useTryBlock = true ∨ n.replay ≠ none) →
    lsn ∈ n.errored
  harmless : n.firstBeginAtStartup = true → n.attempt = none → ∀ e ∈ n.exceptionLog,
    e.isFor sub.name = true →
      e.commitLsn = 0 ∨ e.commitLsn ∈ n.errored ∨ ∀ t ∈ n.later, e.commitLsn < t.commitLsn
  begun : n.inRemoteTransaction = true → n.firstBeginAtStartup = false

structure TrySame (n n' : Node) : Prop where
  attempt : n'.attempt = n.attempt
  replay : n'.replay ≠ none → n.replay ≠ none
  errored : n'.errored = n.errored
  useTry : n'.useTryBlock = n.useTryBlock
  firstBegin : n'.firstBeginAtStartup = n.firstBeginAtStartup
  exceptionLog : n'.exceptionLog = n.exceptionLog
  later : n'.later = n.later
  inRemote : n'.inRemoteTransaction = n.inRemoteTransaction

theorem TrySame.refl (n : Node) : TrySame n n := ⟨rfl, id, rfl, rfl, rfl, rfl, rfl, rfl⟩

variable {n₁ n₂ n₃ : Node} {m : WalMessage} {o : EntryOutcome} {t : RemoteTxn}
  {pre done : List WalMessage}

theorem TrySame.trans (h : TrySame n₁ n₂) (h' : TrySame n₂ n₃) : TrySame n₁ n₃ :=
  ⟨h'.attempt.trans h.attempt, fun hr => h.replay (h'.replay hr), h'.errored.trans h.errored,
    h'.useTry.trans h.useTry, h'.firstBegin.trans h.firstBegin,
    h'.exceptionLog.trans h.exceptionLog, h'.later.trans h.later, h'.inRemote.trans h.inRemote⟩

instance : IsPreorder Node TrySame where
  refl := TrySame.refl
  trans _ _ _ := TrySame.trans

variable {sub : Subscription} {pub : Publisher} {n n' : Node}

theorem TryInv.same (h : TryInv sub n) (hs : TrySame n n') : TryInv sub n' where
  attempt_of_try := by
    rw [hs.useTry, hs.attempt]
    exact h.attempt_of_try
  attempt_of_replay := by
    rw [hs.attempt]
    exact fun hr => h.attempt_of_replay (hs.replay hr)
  failed := by
    rw [hs.attempt, hs.useTry, hs.errored]
    exact fun lsn ha hor => h.failed lsn ha (hor.imp_right hs.replay)
  harmless := by
    rw [hs.firstBegin, hs.attempt, hs.exceptionLog, hs.errored, hs.later]
    exact h.harmless
  begun := by
    rw [hs.inRemote, hs.firstBegin]
    exact h.begun

/-! ## Errors -/

theorem tryInv_catchError (f : Fault) (hattempt : f.isConnection = false → n.attempt ≠ none)
    (hloop : (n.catchError f).looping) : TryInv sub (n.catchError f) := by
  obtain ⟨hconn, -, heq⟩ := Node.catchError_looping hloop
  have ha : n.attempt ≠ none := hattempt hconn
  rw [heq]
  refine ⟨fun _ => ha, fun _ => ha, fun lsn hlsn _ => ?_, fun _ hnone => absurd hnone ha,
    fun hr => (Bool.false_ne_true hr).elim⟩
  show lsn ∈ n.attempt.toList ++ n.errored
  rw [show n.attempt = some lsn from hlsn]
  simp

/-! ## Handlers -/

/-- A state a handler was left in by an error: the attempt is still in the queue, unless the error
comes from `process_syncing_tables`. -/
def Charged (o : EntryOutcome) (n : Node) (e : Raise) (n' : Node) : Prop :=
  n'.attempt = n.attempt ∨ ∃ env f, o = .commit env ∧ e = .error f ∧ env.fault = some (.tables, f)

theorem tryInv_handle (hstep : n.handle sub m o = some n') (ha : n.attempt ≠ none)
    (hstray : ∀ env f, o = .commit env → env.fault = some (.tables, f) → f.isConnection = true)
    (h : ∀ x, dispatch sub m.entry o = some x →
      Ends x n.resetAction (fun _ n' => TryInv sub n') (fun e n' => Charged o n e n')) :
    n'.looping → TryInv sub n' := by
  refine Node.handle_looping hstep (.inl rfl) h fun f n' hc hloop => ?_
  refine tryInv_catchError f (fun hconn => ?_) hloop
  rcases hc with heq | ⟨env, f', ho, heq, hfault⟩
  · rw [heq]
    exact ha
  · cases heq
    rw [hstray env f ho hfault] at hconn
    cases hconn

theorem keeps_trySame_handleChange (id : Nat) (result : ChangeResult) :
    Keeps TrySame (handleChange id result) :=
  keeps_handleChange_of (fun _ => ⟨rfl, fun h => h, rfl, rfl, rfl, rfl, rfl, rfl⟩)
    (fun _ _ => ⟨rfl, fun h => h, rfl, rfl, rfl, rfl, rfl, rfl⟩)
    (fun _ => ⟨rfl, fun h => h, rfl, rfl, rfl, rfl, rfl, rfl⟩)

theorem FrameXact.trySame (h : FrameXact n n') : TrySame n n' :=
  { h with attempt := by rw [Node.attempt, h.queue, Node.attempt], replay := fun hr => h.replay ▸ hr }

structure CommitTry (n n' : Node) : Prop where
  errored : n'.errored = n.errored
  firstBegin : n'.firstBeginAtStartup = n.firstBeginAtStartup

theorem CommitTry.trans (h : CommitTry n₁ n₂) (h' : CommitTry n₂ n₃) :
    CommitTry n₁ n₃ := ⟨h'.errored.trans h.errored, h'.firstBegin.trans h.firstBegin⟩

instance : IsPreorder Node CommitTry where
  refl _ := ⟨rfl, rfl⟩
  trans _ _ _ := CommitTry.trans

theorem commitTry_enterStages : EnterStages CommitTry := by
  constructor <;> intros <;> exact ⟨rfl, rfl⟩

theorem commitTry_settleStages : SettleStages CommitTry := by
  constructor <;> intros <;> exact ⟨rfl, rfl⟩

theorem commitTry_finishStages : FinishStages CommitTry where
  commitOwn := fun _ => ⟨rfl, rfl⟩
  leave := fun _ => ⟨rfl, rfl⟩
  flushWal := fun _ => ⟨rfl, rfl⟩
  reset := fun _ => ⟨rfl, rfl⟩

theorem finishCommit_charged (endLsn : Nat) (env : CommitEnv) (n : Node) :
    Ends (finishCommit sub endLsn env) n (fun _ _ => True)
      (fun e n' => n'.queue = n.queue ∨ ∃ f, e = .error f ∧ env.fault = some (.tables, f)) := by
  have hown := queueSame_commitOwn n env.forwardWrites
  refine finishCommit_ends (fun _ _ => .inl hown) fun m hm => ?_
  have hm : m.queue = n.queue := by
    rcases hm with rfl | rfl
    · rfl
    · exact hown
  exact endRemoteTransaction_ends (fun _ _ => .inl hm) (fun _ _ => .inl hm)
    (.inl ((queueSame_commitOwn _ _).trans hm)) (fun f hf => .inr ⟨f, rfl, hf⟩) trivial

theorem handleCommit_charged (commitLsn endLsn : Nat) (env : CommitEnv) (n : Node) :
    Ends (handleCommit sub commitLsn endLsn env) n (fun _ _ => True)
      (fun e n' => n'.queue = n.queue ∨ ∃ f, e = .error f ∧ env.fault = some (.tables, f)) := by
  have hsettle : ∀ (skipped : Bool) (m : Node), m.queue = n.queue →
      Ends (settle sub commitLsn endLsn skipped env) m
        (fun _ n' => Ends (finishCommit sub endLsn env) n' (fun _ _ => True)
          (fun e n' => n'.queue = n.queue ∨ ∃ f, e = .error f ∧ env.fault = some (.tables, f)))
        (fun e n' => n'.queue = n.queue ∨ ∃ f, e = .error f ∧ env.fault = some (.tables, f)) := by
    intro skipped m hm
    refine (keeps_settle_of queueSame_settleStages m).mono ?_
      fun _ n' hn' => .inl (Eq.trans hn' hm)
    intro _ n' hn'
    refine (finishCommit_charged endLsn env n').mono (fun _ _ h => h) fun e n'' h => ?_
    exact h.imp_left fun hq => hq.trans (Eq.trans hn' hm)
  exact handleCommit_ends (fun _ _ => .inl rfl)
    (fun _ => hsettle _ _ rfl) fun _ => hsettle _ _ rfl

/-! ## One message -/

theorem handleBegin_tryInv {lsn : Nat} (h : TryInv sub n) (ha : n.attempt = some lsn)
    (hslot : n.firstBeginAtStartup = true → ∀ e ∈ n.exceptionLog, e.isFor sub.name = true →
      e.commitLsn = lsn → lsn ∈ n.errored) (fault : Option Fault) :
    Ends (handleBegin sub lsn fault) n (fun _ n' => TryInv sub n')
      (fun e n' => Charged (.plain fault) n e n') := by
  refine ((keeps_handleBegin n).and (handleBegin_ends)).mono ?_
    fun _ n' hf => .inl (by rw [Node.attempt, hf.1.queue, Node.attempt])
  rintro _ n' ⟨hf, -, -, -, -, hfirst, htry⟩
  have hattempt : n'.attempt = some lsn := by rw [← ha, Node.attempt, hf.queue, Node.attempt]
  refine ⟨fun _ => by simp [hattempt], fun _ => by simp [hattempt], fun l hl hor => ?_,
    fun hf' => ?_, fun _ => hfirst⟩
  · have heq : lsn = l := some.inj (hattempt.symm.trans hl)
    rw [← heq, hf.errored]
    rcases hor with huse | hreplay
    · rcases htry huse with huse | ⟨hfirst', e, he, hfor, hlsn⟩
      · exact h.failed lsn ha (.inl huse)
      · exact hslot hfirst' e he hfor hlsn
    · exact h.failed lsn ha (.inr (hf.replay ▸ hreplay))
  · cases hfirst.symm.trans hf'

theorem handleCommit_tryInv {c e : Nat} (h : TryInv sub n) (ht : Taken pub n t pre done m)
    (hm : m.entry = .commit c e) (env : CommitEnv) :
    Ends (handleCommit sub c e env) n (fun _ n' => TryInv sub n')
      (fun e n' => Charged (.commit env) n e n') := by
  have hfirst := h.begun (ht.inRemote_of_commit hm)
  refine (((keeps_handleCommit_of commitTry_enterStages commitTry_settleStages
    commitTry_finishStages n).and
    (handleCommit_ok sub c e env n)).and (handleCommit_charged c e env n)).mono ?_ ?_
  · rintro _ n' ⟨⟨hkept, hqueue, hreplay, hremote, -, htry⟩, -⟩
    have hattempt : n'.attempt = none := by rw [Node.attempt, hqueue]; rfl
    refine ⟨fun huse => ?_, absurd hreplay, fun l hl => ?_, fun hf => ?_, fun hr => ?_⟩
    · cases htry.symm.trans huse
    · cases hattempt.symm.trans hl
    · rw [hkept.firstBegin, hfirst] at hf
      cases hf
    · cases hremote.symm.trans hr
  · rintro _ n' ⟨-, hq | ⟨f, rfl, hf⟩⟩
    · exact .inl (by rw [Node.attempt, hq, Node.attempt])
    · exact .inr ⟨env, f, rfl, rfl, hf⟩

theorem dispatch_tryInv (ht : Taken pub n t pre done m) (h : TryInv sub n)
    (hslot : ∀ lsn, m.entry = .begin lsn → n.attempt = some lsn ∧ (n.firstBeginAtStartup = true →
      ∀ e ∈ n.exceptionLog, e.isFor sub.name = true → e.commitLsn = lsn → lsn ∈ n.errored))
    {x : Handler} (hx : dispatch sub m.entry o = some x) :
    Ends x n (fun _ n' => TryInv sub n') (fun e n' => Charged o n e n') := by
  refine dispatch_ends hx (fun lsn fault hm ho => ?_) (fun id result hm ho => ?_)
    (fun c e env hm ho => ?_) (fun fault hm ho => ?_) (fun lsn transactional fault hm ho => ?_)
    fun fault hm ho => ?_
  · rw [ho]
    exact handleBegin_tryInv h (hslot lsn hm).1 (hslot lsn hm).2 fault
  · exact (keeps_trySame_handleChange id result n).mono (fun _ _ hs => h.same hs)
      fun _ _ hs => .inl hs.attempt
  · rw [ho]
    exact handleCommit_tryInv h ht hm env
  · exact (keeps_handleOrigin n).mono (fun _ _ hf => h.same hf.trySame)
      fun _ _ hf => .inl hf.trySame.attempt
  · refine (handleMessage_ends).mono ?_ fun _ _ heq => .inl (heq ▸ rfl)
    rintro _ n' (rfl | ⟨-, rfl⟩)
    · exact h
    · exact h.same ⟨rfl, fun hr => hr, rfl, rfl, rfl, rfl, rfl, rfl⟩
  · cases fault with
    | none => exact h
    | some => exact .inl rfl

theorem tryInv_handleNext (hstep : n.handleNext sub o = some n') (hwf : Wf pub n) (h : TryInv sub n)
    (hstray : ∀ env f, o = .commit env → env.fault = some (.tables, f) → f.isConnection = true) :
    n'.looping → TryInv sub n' := by
  rcases Node.handleNext_next hwf hstep with ⟨-, rfl⟩ | ⟨m, p, hnext, hhandle⟩
  · exact fun _ => h.same ⟨rfl, absurd rfl, rfl, rfl, rfl, rfl, rfl, rfl⟩
  cases hnext with
  | aside _ _ hattempt hreplay => exact absurd hattempt (h.attempt_of_replay (by simp [hreplay]))
  | replayed _ rest hattempt hreplay htaken =>
    -- the attempt under way failed before
    have hinv : TryInv sub (n.replayNext m rest).resetAction :=
      h.same ⟨rfl, fun _ => by simp [hreplay], rfl, rfl, rfl, rfl, rfl, rfl⟩
    refine tryInv_handle hhandle (fun hnone => some_ne_none _ (hattempt.symm.trans hnone))
      hstray fun x hx => dispatch_tryInv htaken hinv (fun l hl => ?_) hx
    have heq := (htaken.begin_eq hl).2.1.trans (htaken.attempt_eq hattempt).symm
    exact ⟨heq ▸ hattempt, fun _ _ _ _ _ => h.failed l (heq ▸ hattempt) (.inr (by simp [hreplay]))⟩
  | received _ rest hattempt _ _ hnew htaken =>
    have hinv : TryInv sub (n.takeNext m rest).resetAction :=
      h.same ⟨hnew.trans hattempt.symm, fun hr => hr, rfl, rfl, rfl, rfl, rfl, rfl⟩
    refine tryInv_handle hhandle (by simp [hnew]) hstray fun x hx =>
      dispatch_tryInv htaken hinv (fun l hl => ?_) hx
    -- the BEGIN of the attempt was handled before
    have hnone : n.attempt = none := attemptOf_asides (htaken.begin_eq hl).2.2
    exact absurd (hattempt.symm.trans hnone) (by simp)
  | begun t later hattempt hreplay hlater hnew htaken =>
    have htry : n.useTryBlock = false :=
      Bool.eq_false_iff.mpr fun huse => h.attempt_of_try huse hattempt
    have hinv : TryInv sub (n.takeBegin t later).resetAction := by
      refine ⟨fun huse => ?_, absurd hreplay, fun l _ hor => ?_, fun _ hnone => ?_,
        h.begun⟩
      · exact absurd (htry.symm.trans huse) (by decide)
      · exact hor.elim (fun huse => absurd (htry.symm.trans huse) (by decide))
          (absurd hreplay)
      · exact absurd (hnew.symm.trans hnone) (by simp)
    refine tryInv_handle hhandle (by simp [hnew]) hstray fun x hx =>
      dispatch_tryInv htaken hinv (fun l hl => ?_) hx
    obtain ⟨-, rfl, -⟩ := htaken.begin_eq hl
    refine ⟨hnew, fun hfirst e he hfor heq => ?_⟩
    rcases h.harmless hfirst hattempt e he hfor with hzero | herr | hpast
    · have := t.commitLsn_pos
      omega
    · exact heq ▸ herr
    · have := hpast t (by simp [hlater])
      omega

/-! ## Steps and runs -/

theorem tryInv_receive_aside (h : TryInv sub n) (hm : m.entry.isAside = true) :
    TryInv sub (n.receive m) :=
  h.same ⟨attemptOf_concat (beginLsn_of_isAside hm), fun hr => hr, rfl, rfl, rfl, rfl, rfl, rfl⟩

theorem tryInv_handle_aside {fault : Option Fault} (hstep : n.handle sub m (.plain fault) = some n')
    (h : TryInv sub n) (hm : m.entry.isAside = true)
    (hstray : ∀ f, fault = some f → f.isConnection = true) : n'.looping → TryInv sub n' := by
  refine Node.handle_looping
    (R := fun e _ => ∀ f, e = .error f → f.isConnection = true) hstep nofun (fun x hx => ?_) ?_
  · have hreset : TryInv sub n.resetAction := h.same ⟨rfl, fun hr => hr, rfl, rfl, rfl, rfl, rfl, rfl⟩
    refine dispatch_aside_ends hm hx (fun lsn transactional fault' _ ho => ?_) fun fault' _ ho => ?_
    · cases ho
      unfold handleMessage
      rw [ends_bind]
      cases fault with
      | some => exact fun _ hf => hstray _ (congrArg some (Raise.error.inj hf))
      | none =>
        cases transactional with
        | true => exact hreset
        | false => exact hreset.same ⟨rfl, fun hr => hr, rfl, rfl, rfl, rfl, rfl, rfl⟩
    · cases ho
      cases fault with
      | some => exact fun _ hf => hstray _ (congrArg some (Raise.error.inj hf))
      | none => exact hreset
  · intro f n' hf hloop
    exact nomatch (Node.catchError_looping hloop).1.symm.trans (hf f rfl)

theorem tryInv_start (hharmless : n.slotHarmless sub = true) (config : WorkerConfig) :
    TryInv sub (n.start pub config) := by
  refine ⟨fun huse => (Bool.false_ne_true huse).elim, absurd rfl,
    fun _ ha => (some_ne_none _ ha.symm).elim, fun _ _ e he hfor => ?_,
    fun hr => (Bool.false_ne_true hr).elim⟩
  have hslot := List.all_eq_true.mp hharmless e he
  simp only [hfor, Bool.not_true, Bool.false_or, Bool.or_eq_true, beq_iff_eq, decide_eq_true_eq,
    List.contains_iff_mem] at hslot
  rcases hslot with (hzero | hpast) | herr
  · exact .inl hzero
  · refine .inr (.inr fun t ht => ?_)
    have hle : n.origin ≤ t.commitLsn := by simpa using (List.mem_filter.mp ht).2
    omega
  · exact .inr (.inl herr)

theorem trySame_commitOwn (n : Node) (wrote : Bool) : TrySame n (n.commitOwn wrote) := by
  cases wrote
  · exact TrySame.refl n
  · exact ⟨rfl, fun hr => hr, rfl, rfl, rfl, rfl, rfl, rfl⟩

theorem trySame_leaveInner (n : Node) : TrySame n n.leaveInner :=
  Node.leaveInner_of ⟨rfl, fun hr => hr, rfl, rfl, rfl, rfl, rfl, rfl⟩
    ⟨rfl, fun hr => hr, rfl, rfl, rfl, rfl, rfl, rfl⟩

/-- **One step.** -/
theorem TryInv.step {e : WorkerEvent} (hwf : n.looping → Wf pub n) (h : n.looping → TryInv sub n)
    (hattr : n.attributable sub e = true) (hstep : n.step sub pub e = some n') :
    n'.looping → TryInv sub n' := by
  obtain ⟨hstray, hstart⟩ := Bool.and_eq_true_iff.mp hattr
  have hsame : TrySame n n' → n'.pc = n.pc → n'.looping → TryInv sub n' := by
    intro hs hpc hloop
    exact (h (by rwa [Node.looping, hpc] at hloop)).same hs
  have hcharge : ∀ f : Fault, (!(!f.isConnection && n.attempt.isNone)) = true →
      f.isConnection = false → n.attempt ≠ none := by
    intro f hf hconn hnone
    simp [hconn, hnone] at hf
  cases Node.step_cases hstep with
  | start config => exact fun _ => tryInv_start hstart config
  | exit | crash | outerExit | afterDisabling | disable | disableOpen =>
    simp [Node.looping, Node.exit, Node.recover, Node.moveTo]
  | sigterm | flush | enable | setSkipLsn | reload | keepalive =>
    exact hsame ⟨rfl, fun hr => hr, rfl, rfl, rfl, rfl, rfl, rfl⟩ rfl
  | cleanup wrote => exact hsame (trySame_commitOwn n wrote) (by cases wrote <;> rfl)
  | outerError f | interrupt f => exact tryInv_catchError f (hcharge f hstray)
  | enterInner hpc =>
    exact fun _ => (h (.inl hpc)).same ⟨rfl, fun hr => hr, rfl, rfl, rfl, rfl, rfl, rfl⟩
  | stopInner _ hpc =>
    exact fun _ => (h (.inr (.inl hpc))).same ⟨rfl, fun hr => hr, rfl, rfl, rfl, rfl, rfl, rfl⟩
  | readonly => exact h
  | next _ hpc _ hnext =>
    have hloop : n.looping := .inr (.inl hpc)
    refine tryInv_handleNext hnext (hwf hloop) (h hloop) fun env f ho hf => ?_
    subst ho
    simpa [Node.strayError, hf] using hstray
  | aside _ _ hpc _ _ haside _ _ _ hhandle =>
    have hinv := tryInv_receive_aside (h (.inr (.inl hpc))) haside
    refine tryInv_handle_aside hhandle hinv haside fun f hf => ?_
    subst hf
    simpa [Node.strayError] using hstray
  | afterRemote _ _ hpc => exact fun _ => (h (.inr (.inr hpc))).same (trySame_leaveInner n)
  | afterOwn wrote hpc =>
    exact fun _ => (h (.inr (.inr hpc))).same
      ((trySame_leaveInner n).trans (trySame_commitOwn _ wrote))
  | afterError wrote f =>
    refine tryInv_catchError f fun hconn => ?_
    rw [((trySame_leaveInner n).trans (trySame_commitOwn _ wrote)).attempt]
    exact hcharge f hstray hconn

/-- **Every run** without stray errors and harmful slots. -/
theorem tryInv_run {n₀ : Node} {events : List WorkerEvent} (hinit : n₀.Initial pub)
    (halong : Runs.Along (Node.step sub pub) (fun n e => n.attributable sub e = true) n₀ events)
    (hrun : Runs.run (Node.step sub pub) n₀ events = some n) :
    n.looping → Wf pub n ∧ TryInv sub n := by
  refine Runs.run_invariant_along (I := fun n => n.looping → Wf pub n ∧ TryInv sub n)
    ?_ ?_ halong hrun
  · intro s e s' hinv hattr hstep hloop
    exact ⟨Node.wf_step (fun hl => (hinv hl).1) hstep hloop,
      TryInv.step (fun hl => (hinv hl).1) (fun hl => (hinv hl).2) hattr hstep hloop⟩
  · simp [Node.looping, hinit.stopped]

/-- **A transaction taken for a failed one has failed.** In every run whose errors and restarts
are attributable, a transaction is handled with `use_try_block` only if an attempt to apply it
raised an error before. -/
theorem useTryBlock_of_error {n₀ : Node} {events : List WorkerEvent} (hinit : n₀.Initial pub)
    (halong : Runs.Along (Node.step sub pub) (fun n e => n.attributable sub e = true) n₀ events)
    (hrun : Runs.run (Node.step sub pub) n₀ events = some n) (hloop : n.looping)
    (htry : n.useTryBlock = true) : ∃ t done, Attempting n t done ∧ t.commitLsn ∈ n.errored := by
  obtain ⟨hwf, hinv⟩ := tryInv_run hinit halong hrun hloop
  obtain ⟨lsn, hlsn⟩ := ne_none_iff_exists'.mp (hinv.attempt_of_try htry)
  obtain ⟨t, done, ht⟩ := hwf.attempting lsn hlsn
  obtain ⟨u, -, hcur, hu, -⟩ := hwf.active lsn hlsn
  have htu : t = u := some.inj (ht.cur.symm.trans hcur)
  refine ⟨t, done, ht, ?_⟩
  rw [htu, hu]
  exact hinv.failed lsn hlsn (.inl htry)

/-- The second change of a transaction fails, and the transaction is replayed. -/
def replayRun : List WorkerEvent :=
  [.start ⟨.transdiscard, .all, false⟩, .outer none, .nextPlain, .nextWritten,
    .inner (.next (.change (.failed sampleFault))), .outer none, .nextPlain]

theorem useTryBlock_of_error_replayRun :
    ∃ n, Runs.run (Node.step sampleSubscription samplePublisher) sampleNode replayRun = some n ∧
      n.useTryBlock = true ∧ ∃ t done, Attempting n t done ∧ t.commitLsn ∈ n.errored := by
  have halong : Runs.Along (Node.step sampleSubscription samplePublisher)
      (fun n e => n.attributable sampleSubscription e = true) sampleNode replayRun := by decide
  exact ⟨_, rfl, rfl, useTryBlock_of_error sampleNode_initial halong rfl (.inr (.inl rfl)) rfl⟩

/-- The worker goes away in the middle of a transaction, and the next one meets it again. -/
def disconnectRun : List WorkerEvent :=
  [.start ⟨.transdiscard, .all, false⟩, .outer none, .nextPlain, .nextWritten, .exit,
    .start ⟨.transdiscard, .all, false⟩, .outer none, .nextPlain]

/-- The idle timeout strikes after a transaction, and the next transaction arrives. -/
def idleTimeoutRun : List WorkerEvent :=
  [.start ⟨.transdiscard, .all, false⟩, .outer none, .nextPlain, .nextWritten, .nextWritten,
    .nextCommit none, .inner .noData, .afterInner false none,
    .outer (some ⟨elogError ("SPOCK sub: no data received for 300 seconds, " ++
      "reconnecting (spock.apply_idle_timeout)"), false⟩),
    .outer none, .nextPlain, .nextPlain]

/-- **Healthy transactions handled as failed ones.** Neither transaction has ever raised an
error. -/
theorem useTryBlock_without_error : sampleNode.Initial samplePublisher ∧
    (∃ n, Runs.run (Node.step sampleSubscription samplePublisher) sampleNode disconnectRun = some n ∧
      n.inRemoteTransaction = true ∧ n.useTryBlock = true ∧ n.attempt = some sampleTxn.commitLsn ∧
      n.errored = []) ∧
    ∃ n, Runs.run (Node.step sampleSubscription samplePublisher) sampleNode idleTimeoutRun = some n ∧
      n.inRemoteTransaction = true ∧ n.useTryBlock = true ∧ n.attempt = some secondTxn.commitLsn ∧
      n.errored = [] :=
  ⟨sampleNode_initial, ⟨_, rfl, rfl, rfl, rfl, rfl⟩, ⟨_, rfl, rfl, rfl, rfl, rfl⟩⟩

end Spock
