import Mathlib.Data.List.Nodup
import Spock.Registry.Ownership

/-!
# Spock — the manager and the apply workers of a database

`manage_apply_workers` lists the apply workers of its database under the lock, decides without it
which enabled subscriptions have none that is running, registers a worker for each of those one
after the other, and in the end removes what is left over. Nothing but the slots tells a manager
what the one before it has started.

* **`Manager`**, **`State`**, **`step`** — the manager, step by step, among all other processes;
* **`taken`**, **`subid_step`** — the slot that a step gives out, and that no other slot changes the
  subscription it shows.
-/

namespace Spock.ApplyManager

open Runs
open Registry (Slot Registration)

/-! ## The manager -/

structure Subscription where
  id : Nat
  enabled : Bool
  deriving DecidableEq

inductive Manager where
  | absent
  /-- Between two calls of `manage_apply_workers`. -/
  | idle
  /-- With the result of `spock_apply_find_all`. -/
  | listed (workers : List Nat)
  /-- In the loop over the subscriptions: those that are left, the one that is looked at with the
  slot found for it, and `subs_to_start`. -/
  | deciding (workers : List Nat) (todo : List Subscription)
    (found : Option (Subscription × Option Nat)) (start : List Nat)
  /-- In the loop over `subs_to_start`, with the registration that is being made. -/
  | starting (workers : List Nat) (start : List Nat) (making : Option Nat)
  deriving DecidableEq

/-- `spock_apply_find_all`. -/
def applyFindAll (totalWorkers dboid : Nat) (slots : Nat → Slot) : List Nat :=
  (List.range totalWorkers).filter fun i => (slots i).workerType == .apply && (slots i).dboid == dboid

def findWorker (slots : Nat → Slot) : Manager → Option Manager
  | .deciding workers (sub :: todo) none start =>
    if sub.enabled then
      some (.deciding (workers.eraseP fun i => (slots i).subid == sub.id) todo
        (some (sub, workers.find? fun i => (slots i).subid == sub.id)) start)
    else some (.deciding workers todo none start)
  | _ => none

/-- `spock_worker_running`. -/
def running (slots : Nat → Slot) (apply : Option Nat) : Bool :=
  apply.any fun i => (slots i).proc.isSome

def delayed (slots : Nat → Slot) (apply : Option Nat) (now : Nat) : Bool :=
  apply.any fun i => (slots i).terminatedAt != 0 &&
    (slots i).terminatedAt + (slots i).restartDelay * 1000 ≥ now

def judge (slots : Nat → Slot) (now : Nat) : Manager → Option Manager
  | .deciding workers todo (some (sub, apply)) start =>
    some (.deciding workers todo none
      (if running slots apply || delayed slots apply now then start else start ++ [sub.id]))
  | _ => none

def decided : Manager → Option Manager
  | .deciding workers [] none start => some (.starting workers start none)
  | _ => none

/-- The next of `subs_to_start`, and what is left. -/
structure Next where
  workers : List Nat
  subid : Nat
  start : List Nat

def nextToStart : Manager → Option Next
  | .starting workers (subid :: start) none => some ⟨workers, subid, start⟩
  | _ => none

def Manager.making : Manager → Option Nat
  | .starting _ _ making => making
  | _ => none

/-- `spock_worker_register` has returned. -/
def made (regs : Nat → Registration) : Manager → Option Manager
  | .starting workers start (some r) =>
    if (regs r).registrant = .over then some (.starting workers start none) else none
  | _ => none

def leftOver : Manager → Option (List Nat)
  | .starting workers [] none => some workers
  | _ => none

def cleanSlot (s : Registry.State) (i : Nat) : Registry.State :=
  if (s.slots i).terminatedAt ≠ 0 then
    s.setSlot i { s.slots i with workerType := .none, terminatedAt := 0 }
  else s

/-! ## Among the other processes -/

structure State where
  reg : Registry.State
  subscriptions : List Subscription
  manager : Manager

def State.start : State where
  reg := .start
  subscriptions := []
  manager := .absent

inductive Event where
  /-- A step of any process on the slots, the waiting of the manager included. -/
  | registry (e : Registry.Event)
  | createSubscription (id : Nat) (enabled : Bool)
  | setEnabled (id : Nat) (enabled : Bool)
  | dropSubscription (id : Nat)
  | startManager
  | exitManager
  | scan
  | readSubscriptions
  | findWorker
  | judge (now : Nat)
  | decided
  | registerNext (restartDelayDefault : Nat)
  | made
  | cleanUp
  deriving DecidableEq

def registersApply (dboid : Nat) : Registry.Event → Bool
  | .register worker _ => worker.workerType == .apply && worker.dboid == dboid
  | _ => false

/-- The registration fails, or is left: if it is the manager's, the manager exits. -/
def gives (r : Nat) : Registry.Event → Bool
  | .leave q => q == r
  | .launchFails q _ => q == r
  | _ => false

section Step

variable (totalWorkers dboid : Nat)

def step (s : State) : Event → Option State
  | .registry e =>
    if registersApply dboid e = false then
      (Registry.step totalWorkers s.reg e).map fun reg =>
        { s with
          reg := reg
          manager := if s.manager.making.any (gives · e) then .absent else s.manager }
    else none
  | .createSubscription id enabled =>
    if id ∉ s.subscriptions.map (·.id) then
      some { s with subscriptions := s.subscriptions ++ [⟨id, enabled⟩] }
    else none
  | .setEnabled id enabled =>
    some { s with subscriptions := s.subscriptions.map fun sub =>
      { sub with enabled := if sub.id = id then enabled else sub.enabled } }
  | .dropSubscription id =>
    some { s with subscriptions := s.subscriptions.filter fun sub => sub.id ≠ id }
  | .startManager => if s.manager = .absent then some { s with manager := .idle } else none
  | .exitManager => if s.manager.making = none then some { s with manager := .absent } else none
  | .scan =>
    if s.manager = .idle then
      some { s with manager := .listed (applyFindAll totalWorkers dboid s.reg.slots) }
    else none
  | .readSubscriptions =>
    match s.manager with
    | .listed workers => some { s with manager := .deciding workers s.subscriptions none [] }
    | _ => none
  | .findWorker => (findWorker s.reg.slots s.manager).map fun m => { s with manager := m }
  | .judge now => (judge s.reg.slots now s.manager).map fun m => { s with manager := m }
  | .decided => (decided s.manager).map fun m => { s with manager := m }
  | .registerNext delay =>
    (nextToStart s.manager).bind fun next =>
      (Registry.step totalWorkers s.reg (.register ⟨.apply, dboid, next.subid⟩ delay)).map fun reg =>
        { s with reg := reg, manager := .starting next.workers next.start (some s.reg.next) }
  | .made => (made s.reg.regs s.manager).map fun m => { s with manager := m }
  | .cleanUp =>
    (leftOver s.manager).map fun workers =>
      { s with reg := workers.foldl cleanSlot s.reg, manager := .idle }

end Step

/-! ## The slots that are given out -/

section Taken

def taken (totalWorkers : Nat) (s : Registry.State) : Registry.Event → Option Nat
  | .register worker _ => Registry.findEmptyWorkerSlot totalWorkers s.slots worker.dboid
  | _ => none

variable {totalWorkers : Nat} {s s' : Registry.State}

theorem subid_act {r : Nat} {slot : Slot} (hslot : slot.subid = (s.slotOf r).subid)
    (reg : Registration) (i : Nat) : ((s.act r slot reg).slots i).subid = (s.slots i).subid := by
  rcases Runs.update_cases (s.act_slots r slot reg) i with ⟨rfl, heq⟩ | ⟨-, heq⟩
  · rw [heq]
    exact hslot
  · rw [heq]

theorem subid_setSlot {j : Nat} {slot : Slot} (hslot : slot.subid = (s.slots j).subid) (i : Nat) :
    ((s.setSlot j slot).slots i).subid = (s.slots i).subid := by
  rcases Runs.update_cases (s.setSlot_slots j slot) i with ⟨rfl, heq⟩ | ⟨-, heq⟩
  · rw [heq]
    exact hslot
  · rw [heq]

/-- **The subscription that a slot shows changes only when the slot is given out.** -/
theorem subid_step {e : Registry.Event} (hstep : Registry.step totalWorkers s e = some s') {i : Nat}
    (hi : i ∉ taken totalWorkers s e) : (s'.slots i).subid = (s.slots i).subid := by
  cases e with
  | register =>
    obtain ⟨-, hstep⟩ := Option.ite_none_right_eq_some.mp hstep
    obtain ⟨j, hj, rfl⟩ := Option.map_eq_some_iff.mp hstep
    have hne : i ≠ j := fun heq => hi (heq ▸ hj)
    rw [s.register_slots, Function.update_of_ne hne]
  | launchFails | mark | attach =>
    obtain ⟨-, rfl⟩ := of_guard hstep
    refine subid_act ?_ _ i
    rfl
  | detach =>
    obtain ⟨-, rfl⟩ := of_guard hstep
    refine subid_act ?_ _ i
    unfold Slot.detach
    split <;> rfl
  | setRestartDelay | clean =>
    obtain ⟨-, rfl⟩ := of_guard hstep
    refine subid_setSlot ?_ i
    rfl
  -- the other steps are of the registration alone
  | launch r | beginWait r | seeRunning r | seeStopped r | readType r | readGeneration r
  | readTerminated r | leave r | stopEarly r =>
    obtain ⟨-, rfl⟩ := of_guard hstep
    rfl

end Taken

end Spock.ApplyManager
