import Mathlib.Data.Fintype.Card
import Mathlib.Logic.Function.Basic
import Spock.Output.Sends

/-!
# Spock — slot groups

The slots of one publisher whose names differ only in a last digit form a group: each has a
walsender, all of them decode every transaction, and `pg_decode_begin_txn` lets the first that gets
to a transaction claim it. The group is two words of shared memory, `last_lsn` and `last_commit_ts`,
which live from the first member that joins until the last has left.

* **`begun`** — the part of the begin callback that reads and writes the group, with
  **`ends_begun`**, which says that this is what the callback of the output plugin does.
-/

namespace Spock.Group

open Output Outcome List Option

/-! ## The begin callback -/

/-- What the begin callback makes of the group and of the static variable of the walsender. -/
structure Begun where
  slotGroup : SlotGroup
  /-- `slot_group_last_commit_ts`, which is sent as COMMIT-ORDER. -/
  commitOrder : Int64
  taken : Bool

def begun (group : SlotGroup) (lastCommitTs : Int64) (txn : Output.Txn) : Begun where
  slotGroup :=
    { lastLsn := if txn.endLsn ≤ group.lastLsn then group.lastLsn else txn.endLsn
      lastCommitTs :=
        if group.lastCommitTs < txn.commitTime then txn.commitTime else group.lastCommitTs }
  commitOrder := if group.lastCommitTs < txn.commitTime then group.lastCommitTs else lastCommitTs
  taken := txn.endLsn ≤ group.lastLsn

variable {group : SlotGroup} {txn : Output.Txn}

theorem moveCommitTs_begun {s : Plugin} (hgroup : s.slotGroup = some group) (txn : Output.Txn) :
    (s.moveCommitTs txn).slotGroupLastCommitTs =
        (begun group s.slotGroupLastCommitTs txn).commitOrder ∧
      (s.moveCommitTs txn).slotGroup = some
        { group with
          lastCommitTs := (begun group s.slotGroupLastCommitTs txn).slotGroup.lastCommitTs } := by
  unfold Plugin.moveCommitTs begun
  rw [hgroup]
  by_cases hts : group.lastCommitTs < txn.commitTime
  · simp only [hts, if_true, and_self]
  · simp only [hts, if_false, hgroup, and_self]

/-- **The begin callback of a member of a group.** It leaves the group and the static variable as
`begun` says, and sends the head of the transaction, with its commit order, unless it is taken. -/
theorem ends_begun (c : Connection) {s : Plugin} (hgroup : s.slotGroup = some group)
    (txn : Output.Txn) :
    Ends (pgDecodeBeginTxn c txn) s
      (fun _ s' =>
        s'.slotGroup = some (begun group s.slotGroupLastCommitTs txn).slotGroup ∧
          s'.slotGroupLastCommitTs = (begun group s.slotGroupLastCommitTs txn).commitOrder ∧
          s'.sent = s.sent ++
            if (begun group s.slotGroupLastCommitTs txn).taken then []
            else s.startupMessages c ++
              opening c txn (begun group s.slotGroupLastCommitTs txn).commitOrder.toUInt64)
      fun _ _ => False := by
  refine (ends_pgDecodeBeginTxn c txn s).imp fun _ s' hs' => ?_
  obtain ⟨-, hts, hs'⟩ := hs'
  obtain ⟨horder, hmoved⟩ := moveCommitTs_begun hgroup txn
  have htaken : s.isTaken txn = decide (txn.endLsn ≤ group.lastLsn) := by
    unfold Plugin.isTaken
    rw [hgroup]
    rfl
  rw [htaken] at hs'
  by_cases hlsn : txn.endLsn ≤ group.lastLsn
  · rw [if_pos (decide_eq_true hlsn)] at hs'
    refine ⟨?_, hts.trans horder, ?_⟩
    · rw [hs'.1, hmoved]
      simp only [begun, hlsn, if_true]
    · simp only [hs'.2.1, begun, hlsn, decide_true, if_true, append_nil]
  · rw [if_neg (by simpa only [decide_eq_true_eq] using hlsn)] at hs'
    refine ⟨?_, hts.trans horder, ?_⟩
    · rw [hs'.1, Plugin.claim, hmoved]
      simp only [begun, hlsn, if_false, map_some]
    · rw [hs'.2.1, horder, append_assoc]
      simp only [begun, hlsn, decide_false, Bool.false_eq_true, if_false]

/-! ## State -/

structure Member where
  attached : Bool
  /-- The transactions of the WAL that it has decoded to their end. -/
  next : Nat
  /-- Between the begin and the commit callback of the transaction after these. -/
  inTxn : Bool
  /-- The static variable `slot_group_last_commit_ts`. -/
  lastCommitTs : Int64
  /-- The position of the slot: it is past that many transactions, and decoding restarts after
  them. -/
  confirmed : Nat
  /-- What has been claimed on this connection and not been confirmed. -/
  unconfirmed : List Nat
  deriving DecidableEq

def Member.decoded (w : Member) : Nat := if w.inTxn then w.next + 1 else w.next

structure Sent (n : Nat) where
  member : Fin n
  index : Nat
  commitOrder : Int64
  deriving DecidableEq

/-- A slot group with `n` slots. The names leave room for ten. -/
structure Senders (n : Nat) where
  /-- The transactions in the order of their commit records. -/
  wal : List Output.Txn
  nattached : Nat
  slotGroup : SlotGroup
  member : Fin n → Member
  /-- All that was ever claimed, with what was sent as its commit order. -/
  sent : List (Sent n)
  /-- What a subscriber has confirmed to the member that sent it. -/
  acked : List Nat

def Member.fresh : Member where
  attached := false
  next := 0
  inTxn := false
  lastCommitTs := 0
  confirmed := 0
  unconfirmed := []

/-- All slots at one position, with the WAL from there on. -/
def Senders.start (n : Nat) : Senders n where
  wal := []
  nattached := 0
  slotGroup := ⟨0, 0⟩
  member _ := .fresh
  sent := []
  acked := []

variable {n : Nat}

/-- Slots at different positions, counted from the earliest one. The transactions from there on that
are in the WAL already are the first that the run commits. -/
def Senders.startAt (position : Fin n → Nat) : Senders n :=
  { Senders.start n with member := fun m => { Member.fresh with confirmed := position m } }

/-! ## Steps -/

/-- `spock_output_join_slot_group`: the group is set up by the first that joins. Decoding starts at
the position of the slot. -/
def Senders.join (s : Senders n) (m : Fin n) : Senders n :=
  { s with
    nattached := if s.nattached = 0 then 1 else s.nattached + 1
    slotGroup := if s.nattached = 0 then ⟨0, 0⟩ else s.slotGroup
    member := Function.update s.member m
      { Member.fresh with
        attached := true
        next := (s.member m).confirmed
        confirmed := (s.member m).confirmed } }

/-- `spock_output_leave_slot_group`. What was on the connection is gone with it. -/
def Senders.leave (s : Senders n) (m : Fin n) : Senders n :=
  { s with
    nattached := s.nattached - 1
    member := Function.update s.member m
      { s.member m with attached := false, inTxn := false, unconfirmed := [] } }

/-- `pg_decode_begin_txn` for the next transaction of a member. -/
def Senders.begin (s : Senders n) (m : Fin n) (txn : Output.Txn) : Senders n :=
  let w := s.member m
  let b := begun s.slotGroup w.lastCommitTs txn
  { s with
    slotGroup := b.slotGroup
    member := Function.update s.member m
      { w with
        inTxn := true
        lastCommitTs := b.commitOrder
        unconfirmed := if b.taken then w.unconfirmed else w.unconfirmed ++ [w.next] }
    sent := if b.taken then s.sent else s.sent ++ [⟨m, w.next, b.commitOrder⟩] }

/-- `pg_decode_commit_txn`. -/
def Senders.finish (s : Senders n) (m : Fin n) : Senders n :=
  { s with
    member := Function.update s.member m
      { s.member m with next := (s.member m).next + 1, inTxn := false } }

/-- Feedback of the subscriber moves the slot. A transaction that was skipped needs no confirmation:
a keepalive gets the position past it. -/
def Senders.confirm (s : Senders n) (m : Fin n) (pos : Nat) : Senders n :=
  { s with
    member := Function.update s.member m
      { s.member m with
        confirmed := pos
        unconfirmed := (s.member m).unconfirmed.filter (pos ≤ ·) }
    acked := s.acked ++ (s.member m).unconfirmed.filter (· < pos) }

inductive Event (n : Nat) where
  | commit (txn : Output.Txn)
  | join (m : Fin n)
  | begin (m : Fin n)
  | finish (m : Fin n)
  | confirm (m : Fin n) (pos : Nat)
  | leave (m : Fin n)

/-- Commit records follow each other in the WAL, and a commit timestamp is not 0, which reads as
none (`progress_update_struct` asserts that none is negative). -/
def Senders.step (s : Senders n) : Event n → Option (Senders n)
  | .commit txn =>
    if (∀ t ∈ s.wal, t.endLsn < txn.endLsn) ∧ 0 < txn.endLsn ∧ 0 < txn.commitTime then
      some { s with wal := s.wal ++ [txn] }
    else none
  | .join m => if (s.member m).attached then none else some (s.join m)
  | .begin m =>
    if (s.member m).attached && !(s.member m).inTxn then
      (s.wal[(s.member m).next]?).map (s.begin m)
    else none
  | .finish m => if (s.member m).attached && (s.member m).inTxn then some (s.finish m) else none
  | .confirm m pos =>
    if (s.member m).attached ∧ (s.member m).confirmed ≤ pos ∧ pos ≤ (s.member m).next then
      some (s.confirm m pos)
    else none
  | .leave m => if (s.member m).attached then some (s.leave m) else none

def Senders.skipped (s : Senders n) (m : Fin n) (txn : Output.Txn) : Senders n :=
  { s with
    slotGroup :=
      { s.slotGroup with
        lastCommitTs := (begun s.slotGroup (s.member m).lastCommitTs txn).slotGroup.lastCommitTs }
    member := Function.update s.member m
      { s.member m with
        inTxn := true
        lastCommitTs := (begun s.slotGroup (s.member m).lastCommitTs txn).commitOrder } }

def Senders.claimed (s : Senders n) (m : Fin n) (txn : Output.Txn) : Senders n :=
  { s with
    slotGroup :=
      { lastLsn := txn.endLsn
        lastCommitTs := (begun s.slotGroup (s.member m).lastCommitTs txn).slotGroup.lastCommitTs }
    member := Function.update s.member m
      { s.member m with
        inTxn := true
        lastCommitTs := (begun s.slotGroup (s.member m).lastCommitTs txn).commitOrder
        unconfirmed := (s.member m).unconfirmed ++ [(s.member m).next] }
    sent := s.sent ++
      [⟨m, (s.member m).next, (begun s.slotGroup (s.member m).lastCommitTs txn).commitOrder⟩] }

inductive Stepped (s : Senders n) : Event n → Senders n → Prop where
  | commit (txn : Output.Txn) (hend : ∀ t ∈ s.wal, t.endLsn < txn.endLsn) (hpos : 0 < txn.endLsn)
      (hts : 0 < txn.commitTime) : Stepped s (.commit txn) { s with wal := s.wal ++ [txn] }
  | join (m : Fin n) (hm : (s.member m).attached = false) : Stepped s (.join m) (s.join m)
  | skip (m : Fin n) (txn : Output.Txn) (hm : (s.member m).attached = true)
      (hidle : (s.member m).inTxn = false) (htxn : s.wal[(s.member m).next]? = some txn)
      (htaken : txn.endLsn ≤ s.slotGroup.lastLsn) : Stepped s (.begin m) (s.skipped m txn)
  | claim (m : Fin n) (txn : Output.Txn) (hm : (s.member m).attached = true)
      (hidle : (s.member m).inTxn = false) (htxn : s.wal[(s.member m).next]? = some txn)
      (hfree : ¬ txn.endLsn ≤ s.slotGroup.lastLsn) : Stepped s (.begin m) (s.claimed m txn)
  | finish (m : Fin n) (hm : (s.member m).attached = true) (hin : (s.member m).inTxn = true) :
      Stepped s (.finish m) (s.finish m)
  | confirm (m : Fin n) (pos : Nat) (hm : (s.member m).attached = true)
      (hold : (s.member m).confirmed ≤ pos) (hpos : pos ≤ (s.member m).next) :
      Stepped s (.confirm m pos) (s.confirm m pos)
  | leave (m : Fin n) (hm : (s.member m).attached = true) : Stepped s (.leave m) (s.leave m)

variable {s s' : Senders n} {e : Event n}

theorem begin_of_taken {m : Fin n} (htaken : txn.endLsn ≤ s.slotGroup.lastLsn) :
    s.begin m txn = s.skipped m txn := by
  simp only [Senders.begin, Senders.skipped, begun, htaken, decide_true, if_true]

theorem begin_of_free {m : Fin n} (hfree : ¬ txn.endLsn ≤ s.slotGroup.lastLsn) :
    s.begin m txn = s.claimed m txn := by
  simp only [Senders.begin, Senders.claimed, begun, hfree, decide_false, if_false, Bool.false_eq_true]

/-- All that a step can do. -/
theorem stepped_of_step (h : s.step e = some s') : Stepped s e s' := by
  cases e with
  | commit txn =>
    obtain ⟨⟨hend, hpos, hts⟩, rfl⟩ := Runs.of_guard h
    exact .commit txn hend hpos hts
  | join m =>
    obtain ⟨hm, h⟩ := ite_none_left_eq_some.1 h
    cases h
    exact .join m (Bool.eq_false_iff.2 hm)
  | begin m =>
    obtain ⟨hidle, h⟩ := ite_none_right_eq_some.1 h
    obtain ⟨txn, htxn, rfl⟩ := map_eq_some_iff.1 h
    obtain ⟨hm, hidle⟩ := Bool.and_eq_true_iff.1 hidle
    have hidle : (s.member m).inTxn = false := by simpa using hidle
    by_cases htaken : txn.endLsn ≤ s.slotGroup.lastLsn
    · rw [begin_of_taken htaken]
      exact .skip m txn hm hidle htxn htaken
    · rw [begin_of_free htaken]
      exact .claim m txn hm hidle htxn htaken
  | finish m =>
    obtain ⟨hm, rfl⟩ := Runs.of_guard h
    obtain ⟨hm, hin⟩ := Bool.and_eq_true_iff.1 hm
    exact .finish m hm hin
  | confirm m pos =>
    obtain ⟨⟨hm, hold, hpos⟩, rfl⟩ := Runs.of_guard h
    exact .confirm m pos hm hold hpos
  | leave m =>
    obtain ⟨hm, rfl⟩ := Runs.of_guard h
    exact .leave m hm

/-! ## Places in the WAL -/

/-- In a list where `r` holds from each element to the later ones, an element that is not before
another has the higher place. -/
theorem place_le_of_pairwise {α : Type} {r : α → α → Prop} {l : List α} (h : l.Pairwise r) {i j : Nat}
    {a b : α} (hi : l[i]? = some a) (hj : l[j]? = some b) (hba : ¬ r b a) : i ≤ j := by
  by_contra hlt
  obtain ⟨hil, rfl⟩ := List.getElem?_eq_some_iff.1 hi
  obtain ⟨hjl, rfl⟩ := List.getElem?_eq_some_iff.1 hj
  exact hba (List.pairwise_iff_getElem.1 h j i hjl hil (by omega))

def Senders.Ordered (s : Senders n) : Prop :=
  s.wal.Pairwise fun t t' => t.endLsn < t'.endLsn

theorem Senders.Ordered.step (h : s.Ordered) (hstep : Stepped s e s') : s'.Ordered := by
  cases hstep with
  | commit _ hend =>
    refine pairwise_append.2 ⟨h, pairwise_singleton _ _, fun t ht t' ht' => ?_⟩
    rw [mem_singleton.1 ht']
    exact hend t ht
  | join | skip | claim | finish | confirm | leave => exact h

theorem Senders.Ordered.place_le (h : s.Ordered) {i j : Nat} {t t' : Output.Txn}
    (hi : s.wal[i]? = some t) (hj : s.wal[j]? = some t') (hle : t.endLsn ≤ t'.endLsn) : i ≤ j :=
  place_le_of_pairwise h hi hj (UInt64.not_lt.2 hle)

end Spock.Group
