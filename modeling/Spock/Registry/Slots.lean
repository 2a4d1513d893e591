import Mathlib.Logic.Function.Basic

/-!
# Spock — the array of worker slots

A worker is registered by another process: `spock_worker_register` fills a slot of the shared array
under the lock, releases it, asks the postmaster for a background worker, and waits until that has
attached to the slot or is known to have stopped. The new process is given the number of the slot
and nothing else; the one that waits looks at the slot without the lock, and tells its own
registration from a later one by a counter of 16 bits.

* **`State.register`**, **`attach`**, **`detach`** — the steps under the lock.
-/

namespace Spock.Registry

open Function

/-- `SpockWorkerType`. -/
inductive WorkerType where
  | none
  | manager
  | apply
  | sync
  deriving DecidableEq

/-- What the caller of `spock_worker_register` fills in. The subscription stands at the same place
for apply and sync workers. -/
structure Worker where
  workerType : WorkerType
  dboid : Nat
  subid : Nat
  deriving DecidableEq

/-- `SpockWorker`, in shared memory. -/
structure Slot where
  workerType : WorkerType
  generation : Nat
  /-- The process that is attached, by the registration it was started for. -/
  proc : Option Nat
  terminatedAt : Nat
  restartDelay : Nat
  dboid : Nat
  subid : Nat
  deriving DecidableEq

def invalidOid : Nat := 0

/-- `PG_UINT16_MAX`. -/
def uint16Max : Nat := 65535

namespace Slot

def init : Slot where
  workerType := .none
  generation := 0
  proc := none
  terminatedAt := 0
  restartDelay := 0
  dboid := invalidOid
  subid := 0

/-- The test of `find_empty_worker_slot`. -/
def isEmpty (slot : Slot) (dboid : Nat) : Bool :=
  slot.workerType == .none ||
    (slot.terminatedAt != 0 && (slot.dboid == dboid || slot.dboid == invalidOid))

def nextGeneration (slot : Slot) : Nat :=
  if slot.generation = uint16Max then 0 else slot.generation + 1

/-- The part of `spock_worker_register` that is done under the lock. -/
def fill (slot : Slot) (worker : Worker) (restartDelayDefault : Nat) : Slot where
  workerType := worker.workerType
  generation := slot.nextGeneration
  proc := none
  terminatedAt := 0
  restartDelay := restartDelayDefault
  dboid := worker.dboid
  subid := worker.subid

/-- `spock_worker_detach`. -/
def detach (slot : Slot) (crash : Bool) (now : Nat) : Slot :=
  if crash then { slot with proc := none, terminatedAt := now }
  else { slot with proc := none, workerType := .none, dboid := invalidOid }

end Slot

/-- `find_empty_worker_slot`. -/
def findEmptyWorkerSlot (totalWorkers : Nat) (slots : Nat → Slot) (dboid : Nat) : Option Nat :=
  (List.range totalWorkers).find? fun i => (slots i).isEmpty dboid

/-! ## Registrations -/

inductive Registrant where
  | registered
  /-- `RegisterDynamicBackgroundWorker` has succeeded. -/
  | launched
  /-- In the loop of `wait_for_worker_startup`. -/
  | waiting
  /-- `BGWH_STOPPED`. -/
  | stopped
  /-- The type of the slot was not `SPOCK_WORKER_NONE`. -/
  | typed
  /-- And the generation was the one at entry. -/
  | same
  /-- And `terminated_at` was not set. -/
  | premature
  | over
  deriving DecidableEq

inductive Process where
  | unlaunched
  /-- The postmaster knows of it; it may be running, but has not attached. -/
  | pending
  | attached
  | stopped
  deriving DecidableEq

/-- One call of `spock_worker_register`, how far it has come, and its process. -/
structure Registration where
  slot : Nat
  worker : Worker
  /-- The how-manieth registration of the slot this is. -/
  number : Nat
  registrant : Registrant
  /-- The local variable of `wait_for_worker_startup`. -/
  generation : Nat
  process : Process
  deriving DecidableEq

/-- In place of a registration that has not been made. -/
def Registration.absent : Registration where
  slot := 0
  worker := ⟨.none, invalidOid, 0⟩
  number := 0
  registrant := .over
  generation := 0
  process := .stopped

structure State where
  slots : Nat → Slot
  regs : Nat → Registration
  next : Nat
  /-- The registration that the slot was given to last, and how many there have been. -/
  owner : Nat → Option Nat
  registered : Nat → Nat

namespace State

def start : State where
  slots _ := .init
  regs _ := .absent
  next := 0
  owner _ := none
  registered _ := 0

def slotOf (s : State) (r : Nat) : Slot := s.slots (s.regs r).slot

def setSlot (s : State) (i : Nat) (slot : Slot) : State :=
  { s with slots := Function.update s.slots i slot }

def setReg (s : State) (r : Nat) (reg : Registration) : State :=
  { s with regs := Function.update s.regs r reg }

/-- A step that a registration or its process takes on its own slot. -/
def act (s : State) (r : Nat) (slot : Slot) (reg : Registration) : State :=
  (s.setSlot (s.regs r).slot slot).setReg r reg

/-- `spock_worker_register` for slot `i`. -/
def register (s : State) (worker : Worker) (restartDelayDefault i : Nat) : State where
  slots := Function.update s.slots i ((s.slots i).fill worker restartDelayDefault)
  regs := Function.update s.regs s.next
    { slot := i, worker := worker, number := s.registered i + 1, registrant := .registered,
      generation := 0, process := .unlaunched }
  next := s.next + 1
  owner := Function.update s.owner i (some s.next)
  registered := Function.update s.registered i (s.registered i + 1)

variable (s : State)

theorem setSlot_slots (i : Nat) (slot : Slot) :
    (s.setSlot i slot).slots = update s.slots i slot := rfl

theorem act_slots (r : Nat) (slot : Slot) (reg : Registration) :
    (s.act r slot reg).slots = update s.slots (s.regs r).slot slot := rfl

theorem act_regs (r : Nat) (slot : Slot) (reg : Registration) :
    (s.act r slot reg).regs = update s.regs r reg := rfl

theorem register_slots (worker : Worker) (delay i : Nat) :
    (s.register worker delay i).slots =
      update s.slots i ((s.slots i).fill worker delay) := rfl

theorem register_regs (worker : Worker) (delay i : Nat) :
    (s.register worker delay i).regs = update s.regs s.next
      ⟨i, worker, s.registered i + 1, .registered, 0, .unlaunched⟩ := rfl

end State

/-! ## The steps -/

inductive Event where
  | register (worker : Worker) (restartDelayDefault : Nat)
  | launch (r : Nat)
  | launchFails (r now : Nat)
  | beginWait (r : Nat)
  | seeRunning (r : Nat)
  | seeStopped (r : Nat)
  | readType (r : Nat)
  | readGeneration (r : Nat)
  | readTerminated (r : Nat)
  | mark (r now : Nat)
  /-- SIGTERM, an error, or the end of the process. -/
  | leave (r : Nat)
  | attach (r : Nat)
  /-- The worker is not started, or stops before it has attached. -/
  | stopEarly (r : Nat)
  | detach (r : Nat) (crash : Bool) (now : Nat)
  | setRestartDelay (r delay : Nat)
  /-- A manager removes what is left of a worker that has terminated. -/
  | clean (i : Nat)
  deriving DecidableEq

/-- The status that `GetBackgroundWorkerPid` gives is `BGWH_STARTED`, or may be. -/
def Process.started (p : Process) : Bool := p == .pending || p == .attached

/-- Every step of every process, the reads of `wait_for_worker_startup` one by one. -/
def step (totalWorkers : Nat) (s : State) : Event → Option State
  | .register worker delay =>
    if worker.workerType ≠ .none then
      (findEmptyWorkerSlot totalWorkers s.slots worker.dboid).map (s.register worker delay)
    else none
  | .launch r =>
    if (s.regs r).registrant = .registered then
      some (s.setReg r { s.regs r with registrant := .launched, process := .pending })
    else none
  | .launchFails r now =>
    if (s.regs r).registrant = .registered ∧ now ≠ 0 then
      some (s.act r { s.slotOf r with terminatedAt := now }
        { s.regs r with registrant := .over, process := .stopped })
    else none
  | .beginWait r =>
    if (s.regs r).registrant = .launched then
      some (s.setReg r
        { s.regs r with registrant := .waiting, generation := (s.slotOf r).generation })
    else none
  | .seeRunning r =>
    if (s.regs r).registrant = .waiting ∧ (s.regs r).process.started ∧ (s.slotOf r).proc.isSome then
      some (s.setReg r { s.regs r with registrant := .over })
    else none
  | .seeStopped r =>
    if (s.regs r).registrant = .waiting ∧ (s.regs r).process = .stopped then
      some (s.setReg r { s.regs r with registrant := .stopped })
    else none
  | .readType r =>
    if (s.regs r).registrant = .stopped then
      some (s.setReg r { s.regs r with
        registrant := if (s.slotOf r).workerType ≠ .none then .typed else .over })
    else none
  | .readGeneration r =>
    if (s.regs r).registrant = .typed then
      some (s.setReg r { s.regs r with
        registrant := if (s.slotOf r).generation = (s.regs r).generation then .same else .over })
    else none
  | .readTerminated r =>
    if (s.regs r).registrant = .same then
      some (s.setReg r { s.regs r with
        registrant := if (s.slotOf r).terminatedAt = 0 then .premature else .over })
    else none
  | .mark r now =>
    if (s.regs r).registrant = .premature ∧ now ≠ 0 then
      some (s.act r { s.slotOf r with terminatedAt := now } { s.regs r with registrant := .over })
    else none
  | .leave r =>
    if (s.regs r).registrant ≠ .over then
      some (s.setReg r { s.regs r with
        registrant := .over
        -- a worker that has not been asked for will not be
        process := if (s.regs r).process = .unlaunched then .stopped else (s.regs r).process })
    else none
  | .attach r =>
    if (s.regs r).process = .pending then
      some (s.act r { s.slotOf r with proc := some r } { s.regs r with process := .attached })
    else none
  | .stopEarly r =>
    if (s.regs r).process = .pending then some (s.setReg r { s.regs r with process := .stopped })
    else none
  | .detach r crash now =>
    if (s.regs r).process = .attached ∧ now ≠ 0 then
      some (s.act r ((s.slotOf r).detach crash now) { s.regs r with process := .stopped })
    else none
  | .setRestartDelay r delay =>
    if (s.regs r).process = .attached then
      some (s.setSlot (s.regs r).slot { s.slotOf r with restartDelay := delay })
    else none
  | .clean i =>
    if (s.slots i).terminatedAt ≠ 0 then
      some (s.setSlot i { s.slots i with workerType := .none, terminatedAt := 0 })
    else none

end Spock.Registry
