import Mathlib.Logic.Function.Basic
import Spock.Lib.Runs

/-!
# Spock — synchronizing slots to a standby

The failover worker of a standby copies the primary's logical slots: in passes it asks the primary
for their positions, limits these to what the standby has received, and moves the slots it has or
creates the missing ones. A new slot first reserves what the standby can still provide. If that is
less than the primary's slot needs, the worker waits until the primary's slot has moved on, polling
it over a connection that may be lost; a promotion ends the wait, and the slot is persisted then as
it is.
-/

namespace Spock.SlotSync

/-! ## Slots -/

/-- What a logical slot says: where its decoding starts reading, which catalog rows it needs, and
what its consumer has confirmed. Xids count on without wrapping around, and `0` is none. -/
structure Position where
  restartLsn : Nat
  catalogXmin : Nat
  confirmedLsn : Nat
  deriving DecidableEq

/-- Nothing of `q` is behind `p`. -/
def Position.Upto (p q : Position) : Prop :=
  p.restartLsn ≤ q.restartLsn ∧ p.catalogXmin ≤ q.catalogXmin ∧ p.confirmedLsn ≤ q.confirmedLsn

instance (p q : Position) : Decidable (p.Upto q) := by unfold Position.Upto; infer_instance

/-- A slot of the primary, as it was read; the name stands for the string. -/
structure RemoteSlot extends Position where
  name : Nat
  deriving DecidableEq

/-- A slot of the standby. What was reserved for it when it was created is not part of it. -/
structure LocalSlot extends Position where
  reservedLsn : Nat
  reservedXmin : Nat
  deriving DecidableEq

namespace LocalSlot

/-- `LogicalConfirmReceivedLocation`. -/
def confirmReceivedLocation (l : LocalSlot) (lsn : Nat) : LocalSlot :=
  { l with confirmedLsn := lsn }

/-- `LogicalIncreaseXminForSlot`; a candidate for later does not occur here. -/
def increaseXmin (l : LocalSlot) (currentLsn xmin : Nat) : LocalSlot :=
  if xmin ≤ l.catalogXmin then l
  else if currentLsn ≤ l.confirmedLsn then { l with catalogXmin := xmin }
  else l

/-- `LogicalIncreaseRestartDecodingForSlot`. -/
def increaseRestartDecoding (l : LocalSlot) (currentLsn restartLsn : Nat) : LocalSlot :=
  if restartLsn ≤ l.restartLsn then l
  else if currentLsn ≤ l.confirmedLsn then { l with restartLsn := restartLsn }
  else l

/-- The three calls that give a slot its new position. -/
def moveTo (l : LocalSlot) (r : RemoteSlot) : LocalSlot :=
  let l := l.confirmReceivedLocation r.confirmedLsn
  let l := l.increaseXmin r.confirmedLsn r.catalogXmin
  l.increaseRestartDecoding r.confirmedLsn r.restartLsn

def isAhead (l : LocalSlot) (r : RemoteSlot) : Bool :=
  decide (r.restartLsn < l.restartLsn) ||
    (r.catalogXmin != 0 && decide (r.catalogXmin < l.catalogXmin))

/-- A new slot: `ReplicationSlotReserveWal` with the redo pointer as the least value, and the oldest
xid that can be decoded safely. -/
def reserve (restartLsn redo xmin : Nat) : LocalSlot :=
  let restartLsn := if redo ≠ 0 ∧ restartLsn < redo then redo else restartLsn
  ⟨⟨restartLsn, xmin, 0⟩, restartLsn, xmin⟩

variable {l : LocalSlot} {currentLsn : Nat}

theorem increaseXmin_eq (h : currentLsn ≤ l.confirmedLsn) (xmin : Nat) :
    l.increaseXmin currentLsn xmin = { l with catalogXmin := max l.catalogXmin xmin } := by
  unfold increaseXmin
  split
  · rename_i hle
    rw [Nat.max_eq_left hle]
  · rename_i hlt
    rw [Nat.max_eq_right (Nat.le_of_not_le hlt)]

theorem increaseRestartDecoding_eq (h : currentLsn ≤ l.confirmedLsn) (restartLsn : Nat) :
    l.increaseRestartDecoding currentLsn restartLsn =
      { l with restartLsn := max l.restartLsn restartLsn } := by
  unfold increaseRestartDecoding
  split
  · rename_i hle
    rw [Nat.max_eq_left hle]
  · rename_i hlt
    rw [Nat.max_eq_right (Nat.le_of_not_le hlt)]

/-- **Moving a slot** takes over the confirmed position, and nothing else that is older than what
the slot has. -/
theorem moveTo_eq (l : LocalSlot) (r : RemoteSlot) :
    l.moveTo r =
      { l with
        restartLsn := max l.restartLsn r.restartLsn
        catalogXmin := max l.catalogXmin r.catalogXmin
        confirmedLsn := r.confirmedLsn } := by
  have hconfirmed : r.confirmedLsn ≤ (l.confirmReceivedLocation r.confirmedLsn).confirmedLsn :=
    Nat.le_refl _
  rw [moveTo, increaseXmin_eq hconfirmed]
  refine increaseRestartDecoding_eq ?_ r.restartLsn
  exact hconfirmed

theorem isAhead_eq_false {r : RemoteSlot} :
    l.isAhead r = false ↔
      l.restartLsn ≤ r.restartLsn ∧ (r.catalogXmin = 0 ∨ l.catalogXmin ≤ r.catalogXmin) := by
  simp [isAhead, or_iff_not_imp_left]

end LocalSlot

/-! ## The worker and its surroundings -/

inductive Phase where
  | idle
  /-- the primary's slots have been read -/
  | listed (slots : List RemoteSlot)
  | syncing (todo : List RemoteSlot)
  /-- `l` is reserved for `r`, and not yet persistent -/
  | created (r : RemoteSlot) (l : LocalSlot) (todo : List RemoteSlot)
  | waiting (r : RemoteSlot) (l : LocalSlot) (todo : List RemoteSlot)
  /-- the wait has an answer of the primary, `new` -/
  | polled (r : RemoteSlot) (l : LocalSlot) (new : RemoteSlot) (todo : List RemoteSlot)
  /-- the wait has returned false -/
  | interrupted (r : RemoteSlot) (l : LocalSlot) (todo : List RemoteSlot)
  /-- `l` is to be persisted at the position of `r` -/
  | ready (r : RemoteSlot) (l : LocalSlot) (todo : List RemoteSlot)
  deriving DecidableEq

/-- The positions that have been read from the primary and not yet been limited. -/
def Phase.readings : Phase → List RemoteSlot
  | .listed slots => slots
  | .polled _ _ new _ => [new]
  | _ => []

/-- `history` has the positions that the primary's slots have had, the newest first, and `present`
the slots that exist. `received` is what `GetWalRcvFlushRecPtr` returns. -/
structure State where
  history : Nat → List Position
  present : Nat → Bool
  received : Nat
  latestWalEnd : Nat
  redo : Nat
  inRecovery : Bool
  slots : Nat → Option LocalSlot
  phase : Phase

def State.init : State where
  history _ := []
  present _ := false
  received := 0
  latestWalEnd := 0
  redo := 0
  inRecovery := true
  slots _ := none
  phase := .idle

inductive Event where
  -- the primary, and the standby's recovery
  | advance (name : Nat) (p : Position)
  | dropRemote (name : Nat)
  | receive (lsn : Nat)
  | walEnd (lsn : Nat)
  | redo (lsn : Nat)
  | promote
  -- the worker
  | fetch (names : List Nat) (drop : Bool)
  | cap (safeLsn : Nat)
  | sync (restartLsn xmin : Nat)
  | check
  | poll
  | pollFails
  | compare
  | giveUp
  | persist
  | finish
  | abort
  deriving DecidableEq

namespace State

def remote (s : State) (name : Nat) : Option RemoteSlot :=
  if s.present name then (s.history name).head?.map fun p => ⟨p, name⟩ else none

end State

/-- The oldest `restart_lsn` of the slots. -/
def oldestRestart (slots : List RemoteSlot) : Nat :=
  slots.foldl (fun lsn r => if lsn = 0 ∨ r.restartLsn < lsn then r.restartLsn else lsn) 0

def RemoteSlot.limit (r : RemoteSlot) (restartLsn confirmedLsn : Nat) : RemoteSlot :=
  { r with
    restartLsn := min r.restartLsn restartLsn
    confirmedLsn := min r.confirmedLsn confirmedLsn }

/-! ## Steps -/

namespace State

/-- The end of `synchronize_failover_slots`: the confirmed positions are limited to what has been
received, and all slots start at the `restart_lsn` of the furthest-behind one. -/
def capSlots (s : State) (slots : List RemoteSlot) (safeLsn : Nat) : Phase :=
  if slots = [] ∨ safeLsn = 0 ∨ s.latestWalEnd = 0 ∨ s.received = 0 ∨
      s.latestWalEnd < oldestRestart slots then .idle
  else
    .syncing ((slots.map (·.limit (oldestRestart slots) s.received)).filter (·.confirmedLsn ≠ 0))

/-- `synchronize_one_slot`, up to the reservation for a new slot. -/
def syncOne (s : State) (r : RemoteSlot) (todo : List RemoteSlot) (restartLsn xmin : Nat) : State :=
  if s.inRecovery then
    match s.slots r.name with
    | some l =>
      if l.isAhead r then { s with phase := .syncing todo }
      else
        { s with
          slots := Function.update s.slots r.name (some (l.moveTo r)), phase := .syncing todo }
    | none => { s with phase := .created r (.reserve restartLsn s.redo xmin) todo }
  else { s with phase := .syncing todo }

/-- The top of the loop of `wait_for_primary_slot_catchup`, and its query. -/
def pollOne (s : State) (r : RemoteSlot) (l : LocalSlot) (todo : List RemoteSlot) : Phase :=
  if s.inRecovery then
    match s.remote r.name with
    | some new => .polled r l new todo
    | none => .interrupted r l todo
  else .interrupted r l todo

def compareOne (s : State) (r : RemoteSlot) (l : LocalSlot) (new : RemoteSlot)
    (todo : List RemoteSlot) : Phase :=
  let new := new.limit s.received s.received
  if l.isAhead new then .waiting r l todo else .ready new l todo

end State

/-- Every slot that the query selects is in its result once. `pollFails` is a lost connection, or a
reconnection that fails. An error ends the worker, and with it a slot that is not persistent. -/
def step (s : State) : Event → Option State
  | .advance name p =>
    if ∀ old ∈ s.history name, old.Upto p then
      some { s with
        history := Function.update s.history name (p :: s.history name)
        present := Function.update s.present name true }
    else none
  | .dropRemote name => some { s with present := Function.update s.present name false }
  | .receive lsn => some { s with received := lsn }
  | .walEnd lsn => some { s with latestWalEnd := lsn }
  | .redo lsn => some { s with redo := lsn }
  | .promote => some { s with inRecovery := false }
  | .fetch names drop =>
    if s.phase = .idle ∧ names.Nodup then
      let slots := names.filterMap s.remote
      some { s with
        slots := fun n => if drop ∧ ∀ r ∈ slots, r.name ≠ n then none else s.slots n
        phase := .listed slots }
    else none
  | .cap safeLsn =>
    match s.phase with
    | .listed slots => some { s with phase := s.capSlots slots safeLsn }
    | _ => none
  | .sync restartLsn xmin =>
    match s.phase with
    | .syncing (r :: todo) => some (s.syncOne r todo restartLsn xmin)
    | _ => none
  | .check =>
    match s.phase with
    | .created r l todo =>
      some { s with phase := if l.isAhead r then .waiting r l todo else .ready r l todo }
    | _ => none
  | .poll =>
    match s.phase with
    | .waiting r l todo => some { s with phase := s.pollOne r l todo }
    | _ => none
  | .pollFails =>
    match s.phase with
    | .waiting _ _ _ => some s
    | _ => none
  | .compare =>
    match s.phase with
    | .polled r l new todo => some { s with phase := s.compareOne r l new todo }
    | _ => none
  | .giveUp =>
    match s.phase with
    | .interrupted r l todo =>
      some { s with phase := if s.inRecovery then .syncing todo else .ready r l todo }
    | _ => none
  | .persist =>
    match s.phase with
    | .ready r l todo =>
      some { s with
        slots := Function.update s.slots r.name (some (l.moveTo r)), phase := .syncing todo }
    | _ => none
  | .finish =>
    match s.phase with
    | .syncing [] => some { s with phase := .idle }
    | _ => none
  | .abort => some { s with phase := .idle }

end Spock.SlotSync
