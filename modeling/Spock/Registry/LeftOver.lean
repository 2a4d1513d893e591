import Mathlib.Data.List.Nodup
import Spock.Registry.Unique

/-!
# Spock — the workers a pass of the manager removes

`manage_apply_workers` takes the workers it finds for enabled subscriptions off its list, registers
workers for the subscriptions that have none, and in the end signals what is still on the list and
clears what has terminated. The list holds slots, not workers: it is made before the registrations,
and read after them.

* **`Pass`**, **`passStep`** — a pass among all other processes, with the subscriptions it has read
  and the slots it has hit;
* **`pass_spares_enabled`** — then no slot that is hit shows a subscription that was read as
  enabled.
-/

namespace Spock.ApplyManager

open Runs List Option
open Registry (Slot Registration)

/-! ## A pass -/

/-- The processes, with what the pass under way has read and what the last clean-up has hit: the
slots as they were when their workers were signalled, or when they were cleared. -/
structure Pass where
  state : State
  read : List Subscription
  hits : List Slot

/-- The slots that `spock_worker_kill` signals or the clean-up clears. -/
def touched (slots : Nat → Slot) (workers : List Nat) : List Slot :=
  (workers.map slots).filter fun slot => slot.proc.isSome || slot.terminatedAt != 0

def Pass.record (p : Pass) : Event → Pass
  | .readSubscriptions => { p with read := p.state.subscriptions, hits := [] }
  | .cleanUp =>
    { p with hits := touched p.state.reg.slots ((leftOver p.state.manager).getD []) }
  | _ => p

section Step

variable (totalWorkers dboid : Nat)

def passStep (p : Pass) (e : Event) : Option Pass :=
  (step totalWorkers dboid p.state e).map fun s => { p.record e with state := s }

end Step

def Pass.Spared (p : Pass) : Prop :=
  ∀ slot ∈ p.hits, ∀ sub ∈ p.read, sub.enabled = true → slot.subid ≠ sub.id

/-! ## The list -/

def Manager.workers : Manager → List Nat
  | .listed workers => workers
  | .deciding workers _ _ _ => workers
  | .starting workers _ _ => workers
  | _ => []

def Distinct (slots : Nat → Slot) (workers : List Nat) : Prop :=
  (workers.map fun i => (slots i).subid).Nodup
  deriving Decidable

def Clear (slots : Nat → Slot) (workers : List Nat) (subid : Nat) : Prop :=
  ∀ i ∈ workers, (slots i).subid ≠ subid

/-- What the list may still contain, at each point of the pass. -/
def Spares (slots : Nat → Slot) (read : List Subscription) : Manager → Prop
  | .listed workers => Distinct slots workers
  | .deciding workers todo _ _ => Distinct slots workers ∧
    ∀ sub ∈ read, sub.enabled = true → sub ∈ todo ∨ Clear slots workers sub.id
  | .starting workers _ _ => ∀ sub ∈ read, sub.enabled = true → Clear slots workers sub.id
  | _ => True

section List

variable {slots slots' : Nat → Slot} {workers : List Nat}

theorem clear_eraseP (h : Distinct slots workers) (subid : Nat) :
    Clear slots (workers.eraseP fun i => (slots i).subid == subid) subid := by
  unfold Distinct at h
  induction workers with
  | nil =>
    intro i hi
    cases hi
  | cons j _ ih =>
    rw [map_cons, nodup_cons] at h
    by_cases hj : (slots j).subid = subid
    · rw [eraseP_cons_of_pos (by simpa using hj)]
      intro i hi heq
      exact h.1 (mem_map.mpr ⟨i, hi, heq.trans hj.symm⟩)
    · rw [eraseP_cons_of_neg (by simpa using hj)]
      intro i hi
      rcases mem_cons.mp hi with rfl | hi
      · exact hj
      · exact ih h.2 i hi

theorem Distinct.eraseP (h : Distinct slots workers) (p : Nat → Bool) :
    Distinct slots (workers.eraseP p) :=
  h.sublist (eraseP_sublist.map _)

theorem Clear.eraseP {subid : Nat} (h : Clear slots workers subid) (p : Nat → Bool) :
    Clear slots (workers.eraseP p) subid :=
  fun i hi => h i (mem_of_mem_eraseP hi)

theorem Distinct.congr (hsubid : ∀ i ∈ workers, (slots' i).subid = (slots i).subid)
    (h : Distinct slots workers) : Distinct slots' workers := by
  have hmap : workers.map (fun i => (slots' i).subid) = workers.map fun i => (slots i).subid :=
    map_congr_left hsubid
  unfold Distinct
  rw [hmap]
  exact h

theorem Clear.congr {subid : Nat} (hsubid : ∀ i ∈ workers, (slots' i).subid = (slots i).subid)
    (h : Clear slots workers subid) : Clear slots' workers subid := by
  intro i hi
  rw [hsubid i hi]
  exact h i hi

theorem Spares.congr {read : List Subscription} {m : Manager}
    (hsubid : ∀ i ∈ m.workers, (slots' i).subid = (slots i).subid) (h : Spares slots read m) :
    Spares slots' read m := by
  cases m with
  | absent | idle => exact trivial
  | listed => exact Distinct.congr hsubid h
  | deciding =>
    refine ⟨Distinct.congr hsubid h.1, fun sub hsub henabled => ?_⟩
    exact (h.2 sub hsub henabled).imp_right (Clear.congr hsubid)
  | starting => exact fun sub hsub henabled => Clear.congr hsubid (h sub hsub henabled)

end List

/-! ## The steps of the manager -/

section Manager

variable {slots : Nat → Slot} {read : List Subscription} {m m' : Manager}

section

variable (h : Spares slots read m)

include h

theorem spares_findWorker (hm : findWorker slots m = some m') :
    Spares slots read m' := by
  unfold findWorker at hm
  split at hm
  · next start =>
    obtain ⟨hdistinct, hclear⟩ := h
    split at hm
    · cases hm
      refine ⟨hdistinct.eraseP _, fun sub' hsub' henabled => ?_⟩
      rcases hclear sub' hsub' henabled with htodo | hclear
      · rcases mem_cons.mp htodo with rfl | htodo
        · exact .inr (clear_eraseP hdistinct sub'.id)
        · exact .inl htodo
      · exact .inr (hclear.eraseP _)
    · next hdisabled =>
      cases hm
      refine ⟨hdistinct, fun sub' hsub' henabled => ?_⟩
      refine (hclear sub' hsub' henabled).imp_left fun htodo => ?_
      -- the subscription that is passed over is not enabled
      rcases mem_cons.mp htodo with rfl | htodo
      · exact absurd henabled hdisabled
      · exact htodo
  · cases hm

theorem spares_judge {now : Nat} (hm : judge slots now m = some m') :
    Spares slots read m' := by
  unfold judge at hm
  split at hm
  · cases hm
    exact h
  · cases hm

theorem spares_decided (hm : decided m = some m') :
    Spares slots read m' := by
  unfold decided at hm
  split at hm
  · cases hm
    intro sub hsub henabled
    rcases h.2 sub hsub henabled with htodo | hclear
    · cases htodo
    · exact hclear
  · cases hm

theorem spares_made {regs : Nat → Registration}
    (hm : made regs m = some m') : Spares slots read m' := by
  unfold made at hm
  split at hm
  · obtain ⟨-, rfl⟩ := of_guard hm
    exact h
  · cases hm

theorem clear_leftOver {workers : List Nat} (hm : leftOver m = some workers) :
    ∀ sub ∈ read, sub.enabled = true → Clear slots workers sub.id := by
  unfold leftOver at hm
  split at hm
  · cases hm
    exact h
  · cases hm

end

end Manager

/-! ## The runs -/

section Runs

variable (totalWorkers dboid : Nat)

/-- The slots on the list are not given out, and when the list is made they show different
subscriptions. -/
def Steady (p : Pass) : Event → Prop
  | .registry e => ∀ i ∈ taken totalWorkers p.state.reg e, i ∉ p.state.manager.workers
  | .registerNext _ => ∀ i ∈ Registry.findEmptyWorkerSlot totalWorkers p.state.reg.slots dboid,
    i ∉ p.state.manager.workers
  | .scan => Distinct p.state.reg.slots (applyFindAll totalWorkers dboid p.state.reg.slots)
  | .createSubscription _ _ | .setEnabled _ _ | .dropSubscription _ | .startManager | .exitManager
  | .readSubscriptions | .findWorker | .judge _ | .decided | .made | .cleanUp => True

instance (p : Pass) : ∀ e, Decidable (Steady totalWorkers dboid p e)
  | .registry _ | .createSubscription _ _ | .setEnabled _ _ | .dropSubscription _ | .startManager
  | .exitManager | .scan | .readSubscriptions | .findWorker | .judge _ | .decided | .registerNext _
  | .made | .cleanUp => by
    dsimp only [Steady]
    infer_instance

structure Pass.Ok (p : Pass) : Prop where
  spares : Spares p.state.reg.slots p.read p.state.manager
  spared : p.Spared

variable {totalWorkers dboid} {p p' : Pass}

theorem ok_registry (h : p.Ok) {e : Registry.Event}
    (hsteady : Steady totalWorkers dboid p (.registry e))
    (hstep : passStep totalWorkers dboid p (.registry e) = some p') : p'.Ok := by
  obtain ⟨s, hs, rfl⟩ := map_eq_some_iff.mp hstep
  obtain ⟨-, hs⟩ := ite_none_right_eq_some.mp hs
  obtain ⟨reg, hreg, rfl⟩ := map_eq_some_iff.mp hs
  refine ⟨?_, h.spared⟩
  have hspares : Spares reg.slots p.read p.state.manager :=
    h.spares.congr fun i hi => subid_step hreg fun htaken => hsteady i htaken hi
  -- a manager whose registration fails exits
  show Spares reg.slots p.read (if _ then _ else _)
  split
  · exact trivial
  · exact hspares

theorem ok_registerNext (h : p.Ok) {delay : Nat}
    (hsteady : Steady totalWorkers dboid p (.registerNext delay))
    (hstep : passStep totalWorkers dboid p (.registerNext delay) = some p') : p'.Ok := by
  obtain ⟨s, hs, rfl⟩ := map_eq_some_iff.mp hstep
  obtain ⟨next, hnext, hs⟩ := bind_eq_some_iff.mp hs
  obtain ⟨reg, hreg, rfl⟩ := map_eq_some_iff.mp hs
  refine ⟨?_, h.spared⟩
  have hspares : Spares reg.slots p.read p.state.manager :=
    h.spares.congr fun i hi => subid_step hreg fun htaken => hsteady i htaken hi
  unfold nextToStart at hnext
  split at hnext
  · next heq =>
    cases hnext
    rw [heq] at hspares
    exact hspares
  · cases hnext

/-- **One step.** -/
theorem ok_step {e : Event} (h : p.Ok) (hsteady : Steady totalWorkers dboid p e)
    (hstep : passStep totalWorkers dboid p e = some p') : p'.Ok := by
  obtain ⟨s, hs, rfl⟩ := map_eq_some_iff.mp hstep
  cases e with
  | registry => exact ok_registry h hsteady hstep
  | registerNext => exact ok_registerNext h hsteady hstep
  | setEnabled | dropSubscription =>
    cases hs
    exact { h with }
  | createSubscription =>
    obtain ⟨-, rfl⟩ := of_guard hs
    exact { h with }
  | startManager | exitManager =>
    obtain ⟨-, rfl⟩ := of_guard hs
    exact ⟨trivial, h.spared⟩
  | scan =>
    obtain ⟨-, rfl⟩ := of_guard hs
    exact ⟨hsteady, h.spared⟩
  | readSubscriptions =>
    simp only [step] at hs
    split at hs
    · next heq =>
      cases hs
      have hdistinct := h.spares
      rw [heq] at hdistinct
      refine ⟨⟨hdistinct, fun sub hsub _ => .inl hsub⟩, fun slot hslot => ?_⟩
      cases hslot
    · cases hs
  | findWorker =>
    obtain ⟨m, hm, rfl⟩ := map_eq_some_iff.mp hs
    exact ⟨spares_findWorker h.spares hm, h.spared⟩
  | judge =>
    obtain ⟨m, hm, rfl⟩ := map_eq_some_iff.mp hs
    exact ⟨spares_judge h.spares hm, h.spared⟩
  | decided =>
    obtain ⟨m, hm, rfl⟩ := map_eq_some_iff.mp hs
    exact ⟨spares_decided h.spares hm, h.spared⟩
  | made =>
    obtain ⟨m, hm, rfl⟩ := map_eq_some_iff.mp hs
    exact ⟨spares_made h.spares hm, h.spared⟩
  | cleanUp =>
    obtain ⟨workers, hworkers, rfl⟩ := map_eq_some_iff.mp hs
    refine ⟨trivial, fun slot hslot sub hsub henabled => ?_⟩
    have htouched : slot ∈ touched p.state.reg.slots workers := by
      simpa only [Pass.record, hworkers, getD_some] using hslot
    obtain ⟨i, hi, rfl⟩ := mem_map.mp (mem_of_mem_filter htouched)
    exact clear_leftOver h.spares hworkers sub hsub henabled i hi

/-- **What a pass removes.** From any slots, subscriptions and processes, whatever the manager and
all others do and in whatever order, as long as each step is `Steady`: no worker is signalled and
no slot cleared that shows a subscription which the pass has read as enabled. -/
theorem pass_spares_enabled {s : State} (hidle : s.manager = .idle) {es : List Event}
    (hsteady : Along (passStep totalWorkers dboid) (Steady totalWorkers dboid) ⟨s, [], []⟩ es)
    (hrun : run (passStep totalWorkers dboid) ⟨s, [], []⟩ es = some p) :
    ∀ slot ∈ p.hits, ∀ sub ∈ p.read, sub.enabled = true → slot.subid ≠ sub.id := by
  have hstart : Pass.Ok ⟨s, [], []⟩ := by
    refine ⟨?_, fun slot hslot => ?_⟩
    · show Spares s.reg.slots [] s.manager
      rw [hidle]
      exact trivial
    · cases hslot
  exact (run_invariant_along (fun _ _ _ => ok_step) hstart hsteady hrun).spared

def idleStart : Pass := ⟨{ State.start with manager := .idle }, [], []⟩

/-- Workers 0 and 1 run for subscriptions 4 and 5; subscription 4 is disabled, and the next pass
finds the worker of the other only. -/
def steadyRun : List Event := flatten
  [[.createSubscription 4 true, .createSubscription 5 true], deciding 2, starting 0, starting 1,
    [.cleanUp, .setEnabled 4 false, .scan, .readSubscriptions, .findWorker, .findWorker, .judge 500,
      .decided, .cleanUp]]

theorem pass_spares_enabled_steadyRun :
    ∃ p, run (passStep 2 1) idleStart steadyRun = some p ∧ p.hits.map (·.subid) = [4] ∧
      ⟨5, true⟩ ∈ p.read ∧
      ∀ slot ∈ p.hits, ∀ sub ∈ p.read, sub.enabled = true → slot.subid ≠ sub.id := by
  have hsteady : Along (passStep 2 1) (Steady 2 1) idleStart steadyRun := by decide +kernel
  have hrun : (run (passStep 2 1) idleStart steadyRun).map (fun p =>
      (p.hits.map (·.subid), decide (⟨5, true⟩ ∈ p.read))) = some ([4], true) := by decide +kernel
  obtain ⟨p, hp, hend⟩ := Option.map_eq_some_iff.mp hrun
  obtain ⟨hhits, hread⟩ := Prod.ext_iff.mp hend
  exact ⟨p, hp, hhits, of_decide_eq_true hread, pass_spares_enabled rfl hsteady hp⟩

end Runs

/-! ## What goes wrong otherwise -/

/-- What the last pass of a run has hit: the subscriptions of the slots that are registered and that
it had read as enabled, with the process that was signalled. -/
def enabledHits (es : List Event) : Option (List (Nat × Option Nat)) :=
  (run (passStep 2 1) idleStart es).map fun p =>
    (p.hits.filter fun slot => slot.workerType != .none &&
      p.read.any fun sub => sub.enabled && sub.id == slot.subid).map fun slot =>
        (slot.subid, slot.proc)

/-- Worker 0 crashes and its subscription is disabled, so that its slot stays on the list; the
worker for subscription 5 is registered in that slot. -/
def slotOnListReused : List Event := flatten
  [[.createSubscription 4 true], deciding 1, starting 0, [.cleanUp, .registry (.detach 0 true 100),
      .setEnabled 4 false, .createSubscription 5 true, .scan, .readSubscriptions, .findWorker,
      .findWorker, .judge 500, .decided], starting 1]

/-- The worker for subscription 5 crashes in slot 1 and is started again in slot 0, which has become
free: two slots show the subscription. -/
def twoSlots : List Event := flatten
  [[.createSubscription 4 true, .createSubscription 5 true], deciding 2, starting 0, starting 1,
    [.cleanUp, .registry (.setRestartDelay 1 0), .registry (.detach 1 true 100),
      .registry (.detach 0 false 101), .dropSubscription 4], deciding 1, starting 2, [.cleanUp],
    deciding 1]

/-- **The list is out of date when it is used.** The pass signals the worker it has just registered;
if that has crashed meanwhile, its slot is cleared, and with it the time until which it was not to
be started again. A slot that shows a subscription a second time is cleared too. -/
theorem pass_hits_enabled :
    enabledHits (slotOnListReused ++ ([.cleanUp] : List Event)) = some [(5, some 1)] ∧
      enabledHits (slotOnListReused ++ ([.registry (.detach 1 true 600), .cleanUp] : List Event)) =
        some [(5, none)] ∧
      enabledHits (twoSlots ++ ([.cleanUp] : List Event)) = some [(5, none)] := by
  decide +kernel

end Spock.ApplyManager
