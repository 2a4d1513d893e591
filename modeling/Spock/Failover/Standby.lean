import Mathlib.Data.List.Dedup
import Mathlib.Data.List.Perm.Subperm
import Mathlib.Logic.Function.Basic

/-!
# Spock — waiting for the standbys

A walsender holds back a message until enough of the slots named in `pg_standby_slot_names` have
confirmed its start LSN. It keeps the least position that it has seen of them, so that it does not
have to look again for messages below it. The names and the number of slots that have to confirm are
settings that can be reloaded at any time, also while it waits; one of them it overwrites itself,
when it finds its own slot among the names.

* **`State.recheck`**, **`State.skips`** — `skip_standby_slot_names`;
* **`Confirmed`**, **`Justified`** — what has to be so for a message to pass.
-/

namespace Spock.Failover

open List

/-- `ReplicationSlot`; the name stands for the string. -/
structure Slot where
  name : Nat
  logical : Bool
  restartLsn : Nat
  confirmedFlush : Nat
  deriving DecidableEq

/-- Physical slots advance `restart_lsn` on flush. -/
def Slot.flushPos (slot : Slot) : Nat := if slot.logical then slot.confirmedFlush else slot.restartLsn

/-- The number of slots to wait for, of `n`; with -1 all of them. -/
def waitSlots (minConfirmed : Int) (n : Nat) : Nat :=
  if minConfirmed = -1 then n else min minConfirmed.toNat n

/-! ## The scan -/

/-- One slot: `wait_slots_remaining` and `oldest_flush_pos`. -/
def scanStep (commitLsn : Nat) (acc : Nat × Nat) (flushPos : Nat) : Nat × Nat :=
  (if flushPos ≥ commitLsn ∧ acc.1 > 0 then acc.1 - 1 else acc.1,
    if acc.2 = 0 ∨ acc.2 > flushPos then flushPos else acc.2)

/-- The loop over the slots, with the readings it makes. -/
def scan (commitLsn waiting : Nat) (readings : List Nat) : Nat × Nat :=
  readings.foldl (scanStep commitLsn) (waiting, 0)

theorem scan_fst (commitLsn : Nat) (readings : List Nat) (acc : Nat × Nat) :
    (readings.foldl (scanStep commitLsn) acc).1 = acc.1 - readings.countP (commitLsn ≤ ·) := by
  induction readings generalizing acc with
  | nil => rfl
  | cons r _ ih =>
    rw [foldl_cons, ih, countP_cons, scanStep]
    by_cases hr : commitLsn ≤ r
    · by_cases hacc : acc.1 > 0
      · simp only [hr, hacc, and_self, ↓reduceIte, decide_true]
        omega
      · simp only [hr, hacc, and_false, ↓reduceIte, decide_true]
        omega
    · simp [hr]

/-- **When the scan is content**, that many readings have reached the LSN. -/
theorem count_of_scan {commitLsn waiting : Nat} {readings : List Nat}
    (h : (scan commitLsn waiting readings).1 = 0) : waiting ≤ readings.countP (commitLsn ≤ ·) := by
  rw [scan, scan_fst] at h
  have hle : waiting - readings.countP (commitLsn ≤ ·) = 0 := h
  omega

/-- **The least position**, as long as none of them is 0, which stands for not set. -/
theorem scan_le {commitLsn : Nat} {readings : List Nat} (hpos : ∀ r ∈ readings, r ≠ 0)
    (acc : Nat × Nat) : (∀ r ∈ readings, (readings.foldl (scanStep commitLsn) acc).2 ≤ r) ∧
      (acc.2 ≠ 0 → (readings.foldl (scanStep commitLsn) acc).2 ≤ acc.2) := by
  induction readings generalizing acc with
  | nil => exact ⟨nofun, fun _ => Nat.le_refl _⟩
  | cons r _ ih =>
    have hr := hpos r mem_cons_self
    obtain ⟨hrest, hacc⟩ :=
      ih (fun q hq => hpos q (mem_cons_of_mem r hq)) (scanStep commitLsn acc r)
    -- the accumulator is set from here on, and at most `r`
    have hset : (scanStep commitLsn acc r).2 ≠ 0 ∧ (scanStep commitLsn acc r).2 ≤ r ∧
        (acc.2 ≠ 0 → (scanStep commitLsn acc r).2 ≤ acc.2) := by
      unfold scanStep
      dsimp only
      split <;> omega
    obtain ⟨hne, hle, hold⟩ := hset
    rw [foldl_cons]
    refine ⟨fun q hq => ?_, fun h => Nat.le_trans (hacc hne) (hold h)⟩
    rcases mem_cons.mp hq with rfl | hq
    · exact Nat.le_trans (hacc hne) hle
    · exact hrest q hq

/-! ## The walsender -/

structure State where
  slots : Nat → Option Slot
  /-- `MyReplicationSlot`. -/
  mySlot : Option Nat
  /-- `pg_standby_slot_names`, and the address of the list. -/
  names : List Nat
  namesPtr : Nat
  cachedPtr : Nat
  /-- `standby_slots_min_confirmed` as it has been set. -/
  setting : Int
  minConfirmed : Int
  /-- `standby_slot_names_oldest_flush_lsn`. -/
  oldest : Nat
  waiting : Option Nat
  /-- The highest position that each slot has ever confirmed. -/
  best : Nat → Nat
  /-- The start LSNs of the messages that have passed, the last one first. -/
  sent : List Nat

namespace State

def start (mySlot : Option Nat) : State where
  slots _ := none
  mySlot := mySlot
  names := []
  namesPtr := 0
  cachedPtr := 0
  setting := -1
  minConfirmed := -1
  oldest := 0
  waiting := none
  best _ := 0
  sent := []

def named (s : State) : Bool := s.mySlot.any (· ∈ s.names)

/-- The first part of `skip_standby_slot_names`: with a new list, the own slot is looked for. -/
def recheck (s : State) : State :=
  if s.namesPtr ≠ s.cachedPtr then
    { s with minConfirmed := if s.named then 0 else s.minConfirmed, cachedPtr := s.namesPtr }
  else s

def skips (s : State) (commitLsn : Nat) : Bool :=
  s.oldest ≥ commitLsn || s.minConfirmed == 0 || s.names.length == 0

def pass (s : State) (commitLsn : Nat) : State :=
  { s with waiting := none, sent := commitLsn :: s.sent }

/-- `skip_standby_slot_names`: the message passes, or is held back. -/
def offer (s : State) (commitLsn : Nat) : State :=
  if s.recheck.skips commitLsn then s.recheck.pass commitLsn
  else { s.recheck with waiting := some commitLsn }

def namedSlots (s : State) (maxSlots : Nat) : List Slot :=
  ((List.range maxSlots).filterMap s.slots).filter (·.name ∈ s.names)

/-- One round of `wait_for_standby_confirmation` with these readings. -/
def poll (s : State) (commitLsn : Nat) (readings : List Nat) : State :=
  let result := scan commitLsn (waitSlots s.minConfirmed s.names.length) readings
  if result.1 = 0 then { s with oldest := max s.oldest result.2 }.pass commitLsn else s

/-- The assignments of a reload: the names with the address of the new list, and the number. -/
def assign (s : State) (names : Option (List Nat × Nat)) (minConfirmed : Option Int) : State :=
  { s with
    names := (names.map (·.1)).getD s.names
    namesPtr := (names.map (·.2)).getD s.namesPtr
    oldest := if names.isSome then 0 else s.oldest
    setting := minConfirmed.getD s.setting
    minConfirmed := minConfirmed.getD s.minConfirmed }

def confirm (s : State) (slot : Slot) : State :=
  { s with best := Function.update s.best slot.name (max (s.best slot.name) slot.flushPos) }

end State

inductive Event where
  | createSlot (i : Nat) (slot : Slot)
  | dropSlot (i : Nat)
  | advance (i restartLsn confirmedFlush : Nat)
  /-- A 'w' message is given to `socket_putmessage_noblock`. -/
  | putMessage (commitLsn : Nat)
  | poll (readings : List Nat)
  | reload (names : Option (List Nat × Nat)) (minConfirmed : Option Int)
  deriving DecidableEq

/-- One step. What a scan reads of a slot is a position that the slot has had; an empty list has the
address 0. -/
def step (maxSlots : Nat) (s : State) : Event → Option State
  | .createSlot i slot =>
    if i < maxSlots ∧ s.slots i = none ∧
        ∀ j < maxSlots, ∀ other ∈ s.slots j, other.name ≠ slot.name then
      some ({ s with slots := Function.update s.slots i (some slot) }.confirm slot)
    else none
  | .dropSlot i => some { s with slots := Function.update s.slots i none }
  | .advance i restartLsn confirmedFlush =>
    (s.slots i).bind fun slot =>
      if i < maxSlots ∧ slot.restartLsn ≤ restartLsn ∧ slot.confirmedFlush ≤ confirmedFlush then
        let slot' := { slot with restartLsn := restartLsn, confirmedFlush := confirmedFlush }
        some ({ s with slots := Function.update s.slots i (some slot') }.confirm slot')
      else none
  | .putMessage commitLsn => if s.waiting = none then some (s.offer commitLsn) else none
  | .poll readings =>
    s.waiting.bind fun commitLsn =>
      if List.Forall₂ (· ≤ ·) readings ((s.namedSlots maxSlots).map (·.flushPos)) then
        some (s.poll commitLsn readings)
      else none
  | .reload names minConfirmed =>
    if (∀ a ∈ names, a.2 = 0 ↔ a.1 = []) ∧ ∀ m ∈ minConfirmed, -1 ≤ m ∧ m ≤ 100 then
      let s' := s.assign names minConfirmed
      -- in the loop of `wait_for_standby_confirmation` the message is looked at again
      some (s.waiting.elim s' s'.offer)
    else none

/-! ## What has to be so for a message to pass -/

/-- As many named slots as the setting asks for have at some time confirmed the LSN. -/
def Confirmed (names : List Nat) (setting : Int) (best : Nat → Nat) (lsn : Nat) : Prop :=
  waitSlots setting names.dedup.length ≤ (names.dedup.filter fun n => lsn ≤ best n).length
  deriving Decidable

def Justified (s : State) (lsn : Nat) : Prop :=
  s.names = [] ∨ s.setting = 0 ∨ s.named = true ∨ Confirmed s.names s.setting s.best lsn
  deriving Decidable

section Confirmed

variable {names : List Nat} {setting : Int} {best best' : Nat → Nat} {lsn lsn' : Nat}

theorem Confirmed.mono (h : Confirmed names setting best lsn)
    (hlsn : ∀ n, lsn ≤ best n → lsn' ≤ best' n) : Confirmed names setting best' lsn' := by
  refine Nat.le_trans h ?_
  rw [← countP_eq_length_filter, ← countP_eq_length_filter]
  refine countP_mono_left fun n _ hn => ?_
  rw [decide_eq_true_eq] at hn ⊢
  exact hlsn n hn

theorem confirmed_zero (names : List Nat) (setting : Int) (best : Nat → Nat) :
    Confirmed names setting best 0 := by
  have hall : (names.dedup.filter fun n => decide (0 ≤ best n)) = names.dedup :=
    filter_eq_self.mpr fun n _ => by simp
  unfold Confirmed waitSlots
  rw [hall]
  split
  · exact Nat.le_refl _
  · exact Nat.min_le_right _ _

theorem waitSlots_dedup_le (setting : Int) (names : List Nat) :
    waitSlots setting names.dedup.length ≤ waitSlots setting names.length := by
  have hle : names.dedup.length ≤ names.length := (dedup_sublist names).length_le
  unfold waitSlots
  split
  · exact hle
  · omega

/-- **Slots that have reached the LSN**, under different names of the list. -/
theorem confirmed_of_slots {slots : List Slot} {readings : List Nat}
    (hnodup : (slots.map (·.name)).Nodup) (hnames : ∀ slot ∈ slots, slot.name ∈ names)
    (hbest : ∀ slot ∈ slots, slot.flushPos ≤ best slot.name)
    (hreadings : List.Forall₂ (· ≤ ·) readings (slots.map (·.flushPos)))
    (hcount : waitSlots setting names.length ≤ readings.countP (lsn ≤ ·)) :
    Confirmed names setting best lsn := by
  -- from the readings to the slots
  have hslots : readings.countP (lsn ≤ ·) ≤ slots.countP fun slot => lsn ≤ best slot.name := by
    clear hcount hnodup hnames
    induction slots generalizing readings with
    | nil =>
      cases hreadings
      exact Nat.le_refl _
    | cons slot _ ih =>
      rw [map_cons] at hreadings
      obtain ⟨r, _, _, hrest, rfl⟩ := forall₂_cons_right_iff.mp hreadings
      have hrest := ih (fun q hq => hbest q (mem_cons_of_mem slot hq)) hrest
      have hslot := hbest slot mem_cons_self
      rw [countP_cons, countP_cons]
      by_cases hle : lsn ≤ r
      · have hle' : lsn ≤ best slot.name := by omega
        simp only [hle, hle', decide_true, ↓reduceIte]
        omega
      · simp only [hle, decide_false, Bool.false_eq_true, ↓reduceIte]
        omega
  -- from the slots to the names
  have hlen : (slots.countP fun slot => lsn ≤ best slot.name) ≤
      (names.dedup.filter fun n => lsn ≤ best n).length := by
    have hmap : ((slots.map (·.name)).filter fun n => lsn ≤ best n).length =
        slots.countP fun slot => lsn ≤ best slot.name := by
      rw [← countP_eq_length_filter, countP_map]
      rfl
    rw [← hmap]
    refine ((hnodup.filter _).subperm fun n hn => ?_).length_le
    obtain ⟨hmem, hle⟩ := mem_filter.mp hn
    obtain ⟨slot, hslot, rfl⟩ := mem_map.mp hmem
    exact mem_filter.mpr ⟨mem_dedup.mpr (hnames slot hslot), hle⟩
  calc waitSlots setting names.dedup.length
      ≤ waitSlots setting names.length := waitSlots_dedup_le setting names
    _ ≤ readings.countP (lsn ≤ ·) := hcount
    _ ≤ slots.countP fun slot => lsn ≤ best slot.name := hslots
    _ ≤ _ := hlen

end Confirmed

end Spock.Failover
