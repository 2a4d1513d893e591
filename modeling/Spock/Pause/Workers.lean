import Mathlib.Logic.Function.Basic
import Spock.Lib.Runs

/-!
# Spock — pausing the apply workers

While a node is added, `pause_apply_workers` sets a flag and goes over the slots of the workers
until it has seen each of them without a transaction id or with its `paused` mark. A worker reads
the flag before it starts a transaction and after it has committed one; it gets a transaction id
only with its first write, some time after it has started the transaction.

* **`pause_freezes`** — then nothing is committed until the workers are resumed, and what the origin
  positions cover is what a snapshot sees.
-/

namespace Spock.Pause

open Runs List Option Function

/-! ## An apply worker -/

inductive Phase where
  | absent
  | idle
  /-- The flag was set; `toStart` if a transaction is to be started afterwards. -/
  | entering (toStart : Bool)
  /-- In the loop on the condition variable. -/
  | sleeping (toStart : Bool)
  | leaving (toStart : Bool)
  /-- Past the check, before `StartTransactionCommand`. -/
  | passed
  /-- In a transaction, with a transaction id or not. -/
  | inXact (xid : Bool)
  /-- The commit is recorded and the origin advanced; other sessions still see the id as running. -/
  | committing (endLsn : Nat)
  /-- Before `maybe_advance_forwarded_origin` and the update of the progress entry. -/
  | committed (endLsn : Nat)
  deriving DecidableEq

structure Worker where
  phase : Phase
  paused : Bool
  /-- The remote transactions with changes that the position of the origin covers. -/
  recorded : List Nat
  /-- Those that a snapshot taken now sees. -/
  visible : List Nat
  /-- Those that the position of a forwarded origin and the progress entry take into account. -/
  finished : List Nat
  deriving DecidableEq

inductive Action where
  | attach
  | detach
  | check (toStart : Bool)
  | setPaused
  | wake
  /-- `spock.pause_timeout`. -/
  | timeout
  | clearPaused
  | startXact
  /-- `handle_commit` starts a transaction for one that is skipped. -/
  | startSkipped
  | assignXid
  | abort
  | commitNoXid
  | commitRecord (endLsn : Nat)
  | commitEnd
  | finishCommit
  deriving DecidableEq

def Phase.hasXid : Phase → Bool
  | .inXact xid => xid
  | .committing _ => true
  | _ => false

namespace Worker

def start : Worker where
  phase := .absent
  paused := false
  recorded := []
  visible := []
  finished := []

/-- One step of a worker. An empty remote transaction, which moves the position of the origin over
nothing that could be seen, is not a step here. -/
def act (flag : Bool) (w : Worker) (a : Action) : Option Worker :=
  match a, w.phase with
  | .attach, .absent => some { w with phase := .idle, paused := false }
  | .detach, .absent => none
  | .detach, .committing _ => none
  | .detach, _ => some { w with phase := .absent }
  | .check toStart, .idle =>
    some { w with phase := if flag then .entering toStart else if toStart then .passed else .idle }
  | .setPaused, .entering toStart => some { w with phase := .sleeping toStart, paused := true }
  | .wake, .sleeping toStart => if flag then none else some { w with phase := .leaving toStart }
  | .timeout, .sleeping toStart => some { w with phase := .leaving toStart }
  | .clearPaused, .leaving toStart =>
    some { w with phase := if toStart then .passed else .idle, paused := false }
  | .startXact, .passed => some { w with phase := .inXact false }
  | .startSkipped, .idle => some { w with phase := .inXact false }
  | .assignXid, .inXact false => some { w with phase := .inXact true }
  | .abort, .inXact _ => some { w with phase := .idle }
  | .commitNoXid, .inXact false => some { w with phase := .idle }
  | .commitRecord endLsn, .inXact true =>
    some { w with phase := .committing endLsn, recorded := w.recorded ++ [endLsn] }
  | .commitEnd, .committing endLsn =>
    some { w with phase := .committed endLsn, visible := w.visible ++ [endLsn] }
  | .finishCommit, .committed endLsn =>
    some { w with phase := .idle, finished := w.finished ++ [endLsn] }
  | _, _ => none

/-- What `pause_apply_workers` asks of a slot. -/
def accepted (w : Worker) : Bool := w.phase == .absent || w.paused || !w.phase.hasXid

end Worker

/-! ## The system -/

structure State where
  /-- `pause_apply`. -/
  flag : Bool
  workers : Nat → Worker
  /-- The slot that `pause_apply_workers` looks at next. -/
  poll : Option Nat
  /-- It has returned, and neither has `resume_apply_workers` been called nor a timeout expired. -/
  frozen : Bool

def State.start : State where
  flag := false
  workers _ := .start
  poll := none
  frozen := false

inductive Event where
  | worker (w : Nat) (a : Action)
  | pauseBegin
  | pollOk
  | pollBusy
  | pauseReturn
  | pauseGivesUp
  | resume
  deriving DecidableEq

/-- One step of a worker, of `pause_apply_workers` or of `resume_apply_workers`. A worker whose time
is over clears the flag itself. -/
def step (totalWorkers : Nat) (s : State) : Event → Option State
  | .worker w a =>
    if w < totalWorkers then
      ((s.workers w).act s.flag a).map fun wk =>
        { s with
          workers := Function.update s.workers w wk
          flag := s.flag && a != .timeout
          frozen := s.frozen && a != .timeout }
    else none
  | .pauseBegin =>
    if s.poll = none ∧ s.frozen = false then some { s with flag := true, poll := some 0 } else none
  | .pollOk =>
    s.poll.bind fun i =>
      if i < totalWorkers ∧ (s.workers i).accepted then some { s with poll := some (i + 1) } else none
  | .pollBusy =>
    s.poll.bind fun i =>
      if i < totalWorkers ∧ (s.workers i).accepted = false then some { s with poll := some 0 }
      else none
  | .pauseReturn =>
    if s.poll = some totalWorkers then some { s with poll := none, frozen := true } else none
  | .pauseGivesUp =>
    if s.poll.isSome then some { s with flag := false, poll := none } else none
  | .resume => some { s with flag := false, frozen := false }

/-! ## What one worker does -/

/-- A worker that reads the flag before it starts another transaction, or has read that it is
set. -/
def Phase.safe : Phase → Bool
  | .absent => true
  | .idle => true
  | .entering _ => true
  | .sleeping _ => true
  | _ => false

def Phase.ahead : Phase → List Nat
  | .committing endLsn => [endLsn]
  | _ => []

theorem Phase.ahead_of_safe {p : Phase} (h : p.safe = true) : p.ahead = [] := by
  cases p with
  | committing => cases h
  | _ => rfl

def Action.commits : Action → Bool
  | .commitRecord _ => true
  | .commitEnd => true
  | _ => false

/-- The position of the origin is ahead of what can be seen during a commit only. -/
def Worker.Consistent (w : Worker) : Prop := w.recorded = w.visible ++ w.phase.ahead

section Act

variable {flag : Bool} {w w' : Worker} {a : Action}

/-- A step that changes the phase and the mark only. From a safe phase it leads to one, as long as
the flag is set; two steps apart. -/
structure Moves (flag : Bool) (w : Worker) (a : Action) (w' : Worker) : Prop where
  quiet : a.commits = false
  before : w.phase.ahead = []
  after : w'.phase.ahead = []
  recorded : w'.recorded = w.recorded
  visible : w'.visible = w.visible
  finished : w'.finished = w.finished
  safe : flag = true → a ≠ .timeout → a ≠ .startSkipped → w.phase.safe = true → w'.phase.safe = true

/-- **The steps of a worker.** A commit is recorded, made visible or finished, or only the phase
changes. -/
theorem act_cases (h : w.act flag a = some w') :
    (∃ endLsn, a = .commitRecord endLsn ∧ w.phase = .inXact true ∧
      w' = { w with phase := .committing endLsn, recorded := w.recorded ++ [endLsn] }) ∨
    (∃ endLsn, a = .commitEnd ∧ w.phase = .committing endLsn ∧
      w' = { w with phase := .committed endLsn, visible := w.visible ++ [endLsn] }) ∨
    (∃ endLsn, a = .finishCommit ∧ w.phase = .committed endLsn ∧
      w' = { w with phase := .idle, finished := w.finished ++ [endLsn] }) ∨
    Moves flag w a w' := by
  cases a with
  | commitRecord endLsn =>
    cases hphase : w.phase with
    | inXact xid =>
      cases xid with
      | true =>
        simp only [Worker.act, hphase, some.injEq] at h
        exact .inl ⟨endLsn, rfl, rfl, h.symm⟩
      | false => simp [Worker.act, hphase] at h
    | _ => simp [Worker.act, hphase] at h
  | commitEnd =>
    cases hphase : w.phase with
    | committing endLsn =>
      simp only [Worker.act, hphase, some.injEq] at h
      exact .inr (.inl ⟨endLsn, rfl, rfl, h.symm⟩)
    | _ => simp [Worker.act, hphase] at h
  | finishCommit =>
    cases hphase : w.phase with
    | committed endLsn =>
      simp only [Worker.act, hphase, some.injEq] at h
      exact .inr (.inr (.inl ⟨endLsn, rfl, rfl, h.symm⟩))
    | _ => simp [Worker.act, hphase] at h
  | check toStart =>
    refine .inr (.inr (.inr ?_))
    cases hphase : w.phase with
    | idle =>
      simp only [Worker.act, hphase, some.injEq] at h
      subst h
      refine ⟨rfl, by rw [hphase]; rfl, ?_, rfl, rfl, rfl, fun hflag _ _ _ => ?_⟩
      · cases flag <;> cases toStart <;> rfl
      · rw [hflag]
        rfl
    | _ => simp [Worker.act, hphase] at h
  | wake =>
    refine .inr (.inr (.inr ?_))
    cases hphase : w.phase with
    | sleeping =>
      simp only [Worker.act, hphase] at h
      -- in the loop the flag has been read as not set
      split at h
      · cases h
      · next hflag =>
        cases h
        exact ⟨rfl, by rw [hphase]; rfl, rfl, rfl, rfl, rfl, fun hset => absurd hset hflag⟩
    | _ => simp [Worker.act, hphase] at h
  | clearPaused =>
    refine .inr (.inr (.inr ?_))
    cases hphase : w.phase with
    | leaving toStart =>
      simp only [Worker.act, hphase, some.injEq] at h
      subst h
      refine ⟨rfl, by rw [hphase]; rfl, ?_, rfl, rfl, rfl, fun _ _ _ hsafe => ?_⟩
      · cases toStart <;> rfl
      · rw [hphase] at hsafe
        cases hsafe
    | _ => simp [Worker.act, hphase] at h
  | attach | detach | setPaused | timeout | startXact | startSkipped | assignXid | abort
  | commitNoXid =>
    refine .inr (.inr (.inr ?_))
    -- in each phase the step is not possible, or leads to one other phase
    rcases hphase : w.phase with _ | _ | _ | _ | _ | _ | ⟨_ | _⟩ | _ | _ <;>
      simp only [Worker.act, hphase, some.injEq, reduceCtorEq] at h <;>
      (subst h
       exact ⟨rfl, by rw [hphase]; rfl, rfl, rfl, rfl, rfl, fun _ _ _ _ => by simp_all [Phase.safe]⟩)

theorem consistent_act (hw : w.Consistent) (h : w.act flag a = some w') : w'.Consistent := by
  unfold Worker.Consistent at hw ⊢
  rcases act_cases h with ⟨endLsn, -, hphase, rfl⟩ | ⟨endLsn, -, hphase, rfl⟩ | ⟨endLsn, -, hphase, rfl⟩ |
    hmoves
  · rw [hphase] at hw
    have hsame : w.recorded = w.visible := hw.trans (append_nil _)
    show w.recorded ++ [endLsn] = w.visible ++ [endLsn]
    rw [hsame]
  · rw [hphase] at hw
    show w.recorded = (w.visible ++ [endLsn]) ++ []
    rw [hw, append_nil]
    rfl
  · rw [hphase] at hw
    exact hw
  · rw [hmoves.recorded, hmoves.visible, hmoves.after, hw, hmoves.before]

/-- **A safe worker stays safe** while the flag is set, and commits nothing. -/
theorem act_of_safe (hw : w.phase.safe = true) (htimeout : a ≠ .timeout) (hskipped : a ≠ .startSkipped)
    (h : w.act true a = some w') : w'.phase.safe = true ∧ a.commits = false ∧
      w'.recorded = w.recorded ∧ w'.visible = w.visible ∧ w'.finished = w.finished := by
  rcases act_cases h with ⟨endLsn, -, hphase, -⟩ | ⟨endLsn, -, hphase, -⟩ | ⟨endLsn, -, hphase, -⟩ |
    hmoves
  · rw [hphase] at hw
    cases hw
  · rw [hphase] at hw
    cases hw
  · rw [hphase] at hw
    cases hw
  · exact ⟨hmoves.safe rfl htimeout hskipped hw, hmoves.quiet, hmoves.recorded, hmoves.visible,
      hmoves.finished⟩

end Act

/-! ## The runs -/

section Runs

variable {totalWorkers : Nat} {s s' : State}

/-- The workers that have been looked at are safe, and all of them when the function has
returned. -/
structure Inv (totalWorkers : Nat) (s : State) : Prop where
  consistent : ∀ w, (s.workers w).Consistent
  beyond : ∀ w, totalWorkers ≤ w → (s.workers w).phase = .absent
  polled : ∀ i, s.poll = some i →
    s.frozen = false ∧ (s.flag = true → ∀ w < i, (s.workers w).phase.safe = true)
  frozen : s.frozen = true → s.flag = true ∧ ∀ w, (s.workers w).phase.safe = true

/-- The poll takes no worker for paused that is past its check, the flag is still set when it is
done, and no transaction is skipped while the flag is set. -/
def Careful (s : State) : Event → Prop
  | .worker _ a => a = .startSkipped → s.flag = false
  | .pollOk => ∀ i ∈ s.poll, (s.workers i).phase.safe = true
  | .pauseReturn => s.flag = true
  | .pauseBegin | .pollBusy | .pauseGivesUp | .resume => True

instance (s : State) (e : Event) : Decidable (Careful s e) := by
  cases e <;> unfold Careful <;> infer_instance

theorem inv_start : Inv totalWorkers .start :=
  ⟨fun _ => rfl, fun _ _ => rfl, nofun, nofun⟩

theorem safe_worker {w q : Nat} {a : Action} {wk : Worker} (hflag : s.flag = true)
    (htimeout : a ≠ .timeout) (hcareful : Careful s (.worker w a))
    (hact : (s.workers w).act s.flag a = some wk) (hq : (s.workers q).phase.safe = true) :
    (update s.workers w wk q).phase.safe = true := by
  rcases update_cases (f := s.workers) (a := w) (b := wk) rfl q with ⟨rfl, heq⟩ | ⟨-, heq⟩
  · rw [heq]
    rw [hflag] at hact
    have hskipped : a ≠ .startSkipped := by
      intro ha
      have hoff := hcareful ha
      cases hflag.symm.trans hoff
    exact (act_of_safe hq htimeout hskipped hact).1
  · rw [heq]
    exact hq

theorem inv_worker (h : Inv totalWorkers s) {w : Nat} {a : Action}
    (hcareful : Careful s (.worker w a)) (hstep : step totalWorkers s (.worker w a) = some s') :
    Inv totalWorkers s' := by
  obtain ⟨_, hstep⟩ := ite_none_right_eq_some.mp hstep
  obtain ⟨wk, hact, rfl⟩ := map_eq_some_iff.mp hstep
  -- after a timeout the flag is not set, and nothing is asked of the workers
  have hset : ∀ b : Bool, (b && a != .timeout) = true → b = true ∧ a ≠ .timeout := by
    intro b hb
    simpa using hb
  refine ⟨fun q => ?_, fun q hq => ?_, fun i hi => ⟨?_, fun hflag q hq => ?_⟩,
    fun hfrozen => ⟨?_, fun q => ?_⟩⟩
  · rcases update_cases (f := s.workers) (a := w) (b := wk) rfl q with ⟨rfl, heq⟩ | ⟨-, heq⟩
    · show (update s.workers q wk q).Consistent
      rw [heq]
      exact consistent_act (h.consistent q) hact
    · show (update s.workers w wk q).Consistent
      rw [heq]
      exact h.consistent q
  · have hne : q ≠ w := by omega
    show (update s.workers w wk q).phase = _
    rw [update_of_ne hne]
    exact h.beyond q hq
  · show (s.frozen && _) = false
    rw [(h.polled i hi).1, Bool.false_and]
  · obtain ⟨hflag, htimeout⟩ := hset s.flag hflag
    exact safe_worker hflag htimeout hcareful hact ((h.polled i hi).2 hflag q hq)
  · obtain ⟨hfrozen, htimeout⟩ := hset s.frozen hfrozen
    show (s.flag && a != .timeout) = true
    simp [(h.frozen hfrozen).1, htimeout]
  · obtain ⟨hfrozen, htimeout⟩ := hset s.frozen hfrozen
    obtain ⟨hflag, hsafe⟩ := h.frozen hfrozen
    exact safe_worker hflag htimeout hcareful hact (hsafe q)

/-- **One step.** -/
theorem inv_step {e : Event} (h : Inv totalWorkers s) (hcareful : Careful s e)
    (hstep : step totalWorkers s e = some s') : Inv totalWorkers s' := by
  cases e with
  | worker => exact inv_worker h hcareful hstep
  | pauseBegin =>
    obtain ⟨⟨-, hfrozen⟩, rfl⟩ := of_guard hstep
    refine ⟨h.consistent, h.beyond, fun i hi => ⟨hfrozen, fun _ w hw => ?_⟩, fun h' => ?_⟩
    · cases hi
      exact absurd hw (Nat.not_lt_zero w)
    · exact nomatch hfrozen.symm.trans h'
  | pollOk =>
    obtain ⟨i, hpoll, hstep⟩ := bind_eq_some_iff.mp hstep
    obtain ⟨-, rfl⟩ := of_guard hstep
    obtain ⟨hnot, hsafe⟩ := h.polled i hpoll
    refine { h with polled := fun j hj => ⟨hnot, fun hflag w hw => ?_⟩ }
    -- the workers before this one have stayed safe since they were looked at
    cases hj
    rcases Nat.lt_succ_iff_lt_or_eq.mp hw with hlt | rfl
    · exact hsafe hflag w hlt
    · exact hcareful w hpoll
  | pollBusy =>
    obtain ⟨i, hpoll, hstep⟩ := bind_eq_some_iff.mp hstep
    obtain ⟨-, rfl⟩ := of_guard hstep
    -- the poll starts again, and nothing has been looked at
    refine { h with polled := fun j hj => ⟨(h.polled i hpoll).1, fun _ w hw => ?_⟩ }
    cases hj
    exact absurd hw (Nat.not_lt_zero w)
  | pauseReturn =>
    obtain ⟨hpoll, rfl⟩ := of_guard hstep
    refine ⟨h.consistent, h.beyond, nofun, fun _ => ⟨hcareful, fun w => ?_⟩⟩
    -- the poll has come to all slots, and beyond them there are no workers
    by_cases hlt : w < totalWorkers
    · exact (h.polled totalWorkers hpoll).2 hcareful w hlt
    · show (s.workers w).phase.safe = true
      rw [h.beyond w (Nat.le_of_not_lt hlt)]
      rfl
  | pauseGivesUp =>
    obtain ⟨hpoll, rfl⟩ := of_guard hstep
    obtain ⟨i, hi⟩ := isSome_iff_exists.mp hpoll
    refine ⟨h.consistent, h.beyond, nofun, fun hfrozen => ?_⟩
    exact nomatch (h.polled i hi).1.symm.trans hfrozen
  | resume =>
    cases hstep
    exact ⟨h.consistent, h.beyond, fun _ _ => ⟨rfl, nofun⟩, nofun⟩

def State.Same (s s' : State) : Prop :=
  ∀ w, (s'.workers w).recorded = (s.workers w).recorded ∧
    (s'.workers w).visible = (s.workers w).visible ∧ (s'.workers w).finished = (s.workers w).finished

def Event.commits : Event → Bool
  | .worker _ a => a.commits
  | _ => false

def Event.thaws : Event → Bool
  | .worker _ .timeout => true
  | .resume => true
  | _ => false

theorem same_step {e : Event} (h : Inv totalWorkers s) (hfrozen : s.frozen = true)
    (hcareful : Careful s e) (hthaws : e.thaws = false) (hstep : step totalWorkers s e = some s') :
    s'.frozen = true ∧ s.Same s' ∧ e.commits = false := by
  obtain ⟨hflag, hsafe⟩ := h.frozen hfrozen
  cases e with
  | worker w a =>
    have htimeout : a ≠ .timeout := by
      rintro rfl
      cases hthaws
    have hskipped : a ≠ .startSkipped := by
      intro ha
      exact nomatch hflag.symm.trans (hcareful ha)
    obtain ⟨-, hstep⟩ := ite_none_right_eq_some.mp hstep
    obtain ⟨wk, hact, rfl⟩ := map_eq_some_iff.mp hstep
    rw [hflag] at hact
    obtain ⟨-, hcommits, hrest⟩ := act_of_safe (hsafe w) htimeout hskipped hact
    refine ⟨by simp [hfrozen, htimeout], fun q => ?_, hcommits⟩
    show (update s.workers w wk q).recorded = _ ∧ _ ∧ _
    rcases update_cases (f := s.workers) (a := w) (b := wk) rfl q with ⟨rfl, heq⟩ | ⟨-, heq⟩
    · simp only [heq]
      exact hrest
    · simp only [heq, and_self]
  | pauseBegin =>
    -- a pause has no poll any more, and no other pause begins during it
    obtain ⟨⟨-, hnot⟩, -⟩ := ite_none_right_eq_some.mp hstep
    exact nomatch hnot.symm.trans hfrozen
  | pollOk | pollBusy =>
    obtain ⟨i, hpoll, -⟩ := bind_eq_some_iff.mp hstep
    exact nomatch (h.polled i hpoll).1.symm.trans hfrozen
  | pauseReturn =>
    obtain ⟨hpoll, -⟩ := ite_none_right_eq_some.mp hstep
    exact nomatch (h.polled _ hpoll).1.symm.trans hfrozen
  | pauseGivesUp =>
    obtain ⟨hpoll, -⟩ := ite_none_right_eq_some.mp hstep
    obtain ⟨i, hi⟩ := isSome_iff_exists.mp hpoll
    exact nomatch (h.polled i hi).1.symm.trans hfrozen
  | resume => cases hthaws

theorem same_run {fs : List Event} (h : Inv totalWorkers s) (hfrozen : s.frozen = true)
    (hcareful : Along (step totalWorkers) Careful s fs) (hthaws : ∀ e ∈ fs, e.thaws = false)
    (hrun : run (step totalWorkers) s fs = some s') :
    Inv totalWorkers s' ∧ s'.frozen = true ∧ s.Same s' ∧ ∀ e ∈ fs, e.commits = false := by
  -- each step leaves a state that is still one of the pause
  induction fs generalizing s with
  | nil =>
    cases hrun
    exact ⟨h, hfrozen, fun w => ⟨rfl, rfl, rfl⟩, nofun⟩
  | cons e _ ih =>
    obtain ⟨s₁, hs₁, hrest⟩ := run_cons_eq_some.mp hrun
    obtain ⟨hfrozen₁, hsame₁, hcommits⟩ :=
      same_step h hfrozen hcareful.1 (hthaws e mem_cons_self) hs₁
    obtain ⟨hinv, hfrozen', hsame, hrest⟩ := ih (inv_step h hcareful.1 hs₁) hfrozen₁
      (hcareful.2 s₁ hs₁) (fun e' he' => hthaws e' (mem_cons_of_mem e he')) hrest
    refine ⟨hinv, hfrozen', fun w => ?_, ?_⟩
    · obtain ⟨hrecorded, hvisible, hfinished⟩ := hsame w
      obtain ⟨hrecorded₁, hvisible₁, hfinished₁⟩ := hsame₁ w
      exact ⟨hrecorded.trans hrecorded₁, hvisible.trans hvisible₁, hfinished.trans hfinished₁⟩
    · intro e' he'
      rcases mem_cons.mp he' with rfl | he'
      · exact hcommits
      · exact hrest e' he'

/-- **The pause is one.** After any steps of the workers and of `pause_apply_workers`, each of them
`Careful`: from a state in which that has returned until the workers are resumed or the time of one
is over, nothing is committed, the positions do not move, and they cover what a snapshot taken at
any moment in between sees. -/
theorem pause_freezes {es fs : List Event} {s₁ s₂ : State}
    (hcareful : Along (step totalWorkers) Careful .start (es ++ fs))
    (hes : run (step totalWorkers) .start es = some s₁) (hfrozen : s₁.frozen = true)
    (hthaws : ∀ e ∈ fs, e.thaws = false) (hfs : run (step totalWorkers) s₁ fs = some s₂) :
    (∀ e ∈ fs, e.commits = false) ∧
      ∀ w, (s₂.workers w).recorded = (s₁.workers w).visible ∧
        (s₂.workers w).visible = (s₁.workers w).visible ∧
        (s₂.workers w).finished = (s₁.workers w).finished := by
  have hinv := run_invariant_along (fun _ _ _ => inv_step) inv_start hcareful.of_append hes
  obtain ⟨-, -, hsame, hcommits⟩ := same_run hinv hfrozen (hcareful.after hes) hthaws hfs
  refine ⟨hcommits, fun w => ?_⟩
  obtain ⟨hrecorded, hvisible, hfinished⟩ := hsame w
  refine ⟨?_, hvisible, hfinished⟩
  -- a safe worker is not in the middle of a commit
  have hmatch : (s₁.workers w).recorded = (s₁.workers w).visible := by
    have hconsistent := hinv.consistent w
    unfold Worker.Consistent at hconsistent
    rw [hconsistent, Phase.ahead_of_safe ((hinv.frozen hfrozen).2 w), append_nil]
  exact hrecorded.trans hmatch

/-- Worker 0 is in a transaction when the flag is set, and is waited for; worker 1 is idle. -/
def carefulPause : List Event :=
  [.worker 0 .attach, .worker 1 .attach, .worker 0 (.check true), .worker 0 .startXact,
    .worker 0 .assignXid, .pauseBegin, .pollBusy, .worker 0 (.commitRecord 20), .worker 0 .commitEnd,
    .worker 0 .finishCommit, .worker 0 (.check false), .worker 0 .setPaused, .pollOk, .pollOk,
    .pauseReturn]

def frozenSteps : List Event := [.worker 1 (.check true), .worker 1 .setPaused, .worker 0 .detach]

theorem pause_freezes_carefulPause :
    ∃ s₁ s₂, run (step 2) .start carefulPause = some s₁ ∧ run (step 2) s₁ frozenSteps = some s₂ ∧
      s₁.frozen = true ∧ (s₂.workers 0).recorded = [20] ∧
      (∀ e ∈ frozenSteps, e.commits = false) ∧
      ∀ w, (s₂.workers w).recorded = (s₁.workers w).visible ∧
        (s₂.workers w).visible = (s₁.workers w).visible ∧
        (s₂.workers w).finished = (s₁.workers w).finished := by
  have hcareful : Along (step 2) Careful .start (carefulPause ++ frozenSteps) := by decide +kernel
  exact ⟨_, _, rfl, rfl, rfl, rfl, pause_freezes hcareful rfl rfl (by decide) rfl⟩

end Runs

/-! ## What goes wrong otherwise -/

/-- Worker 0 in two states between the return of `pause_apply_workers` and the resumption: what is
visible and finished in the first, and what is recorded, visible and finished in the second. -/
def duringPause (es fs : List Event) : Option (List (List Nat)) :=
  (run (step 2) .start es).bind fun s₁ => (run (step 2) s₁ fs).bind fun s₂ =>
    if s₁.frozen && s₂.frozen then
      some [(s₁.workers 0).visible, (s₁.workers 0).finished, (s₂.workers 0).recorded,
        (s₂.workers 0).visible, (s₂.workers 0).finished]
    else none

def writes (endLsn : Nat) : List Event :=
  [.worker 0 .assignXid, .worker 0 (.commitRecord endLsn), .worker 0 .commitEnd]

/-- `pause_apply_workers`, with both slots accepted at once. -/
def pauses : List Event := [.pauseBegin, .pollOk, .pollOk, .pauseReturn]

/-- **A pause that is none.** A worker that has read the flag but not started its transaction, and
one that has not written yet, have no transaction id. One that comes out of an earlier pause still
has its mark. A transaction that is skipped does not read the flag. A worker that has waited too
long clears the flag under a poll that then comes to its end. In all these cases a transaction
commits during the pause; and a worker that is past its commit still has positions to write. -/
theorem pause_not_frozen :
    duringPause (([.worker 0 .attach, .worker 0 (.check true)] : List Event) ++ pauses)
        (.worker 0 .startXact :: writes 20) = some [[], [], [20], [20], []] ∧
      duringPause (([.worker 0 .attach, .worker 0 (.check true), .worker 0 .startXact] :
          List Event) ++ pauses) (writes 20) = some [[], [], [20], [20], []] ∧
      duringPause (([.worker 0 .attach, .pauseBegin, .worker 0 (.check true), .worker 0 .setPaused,
          .pollOk, .pollOk, .pauseReturn, .resume, .worker 0 .wake] : List Event) ++ pauses)
        (([.worker 0 .clearPaused, .worker 0 .startXact] : List Event) ++ writes 20) =
          some [[], [], [20], [20], []] ∧
      duringPause (.worker 0 .attach :: pauses) (.worker 0 .startSkipped :: writes 20) =
        some [[], [], [20], [20], []] ∧
      duringPause [.worker 0 .attach, .worker 1 .attach, .pauseBegin, .worker 1 (.check true),
          .worker 1 .setPaused, .worker 1 .timeout, .pollOk, .pollOk, .pauseReturn]
        (([.worker 0 (.check true), .worker 0 .startXact] : List Event) ++ writes 20) =
          some [[], [], [20], [20], []] ∧
      duringPause (([.worker 0 .attach, .worker 0 (.check true), .worker 0 .startXact] :
          List Event) ++ writes 20 ++ pauses) [.worker 0 .finishCommit] =
        some [[20], [], [20], [20], [20]] := by
  decide +kernel

end Spock.Pause
