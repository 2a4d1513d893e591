import Spock.Conflict.Resolve

/-!
# Spock — transactions on one node

A node changes its row in two ways: a local transaction runs SQL on it and is decoded into the
change messages the other nodes get, and an apply worker runs the changes of a remote
transaction through `applyChange` and commits. Both take their place in the commit order through
the logical clock of the patched server, which makes a local commit timestamp exceed every
timestamp the node has committed or applied before.

A transaction is modelled as one atomic step of the node. The row lock it takes on its first
change (`LockTupleExclusive` in `FindReplTupleInLocalRel`, taken by a losing change too) is held
to its commit, so two transactions on the key never interleave on one node.

The effect of a transaction on the **version** a node shows, row and stamp together, is:

* **`commitLocalTransaction_spec`** — a local transaction installs its last row, stamped with a
  timestamp above the clock and with no origin;
* **`applyRemoteTransaction_spec`** — a remote transaction has the effect of `takeRemote`.
-/

namespace Spock

open List Option

variable {Node V : Type} {natts : Nat}

/-! ## The logical clock and commit -/

/-- `EnsureMonotonicTransactionStopTimestamp`: the clock and the commit record's timestamp. -/
def ensureMonotonicTransactionStopTimestamp
    (logicalClock remoteTransactionStopTimestamp xactTime : Int) :
    Int × Int :=
  if remoteTransactionStopTimestamp ≠ 0 then
    let clock := if xactTime > logicalClock then xactTime else logicalClock
    let clock :=
      if remoteTransactionStopTimestamp > clock then remoteTransactionStopTimestamp else clock
    (clock, xactTime)
  else if logicalClock ≥ xactTime then (logicalClock + 1, logicalClock + 1)
  else (xactTime, xactTime)

def startTransaction (s : NodeState Node natts V) : Xact Node natts V where
  node := { s with nextXid := s.nextXid + 1 }
  topXid := s.nextXid
  children := []
  subTransCommitTsData := []

/-- `TransactionTreeSetCommitTsData` with the per-sub-transaction overrides. -/
def transactionTreeSetCommitTsData (x : Xact Node natts V) (ts : Int)
    (nodeid : Option Node) : Nat → Option (CommitTimestampEntry Node) := fun xid =>
  if xid = x.topXid ∨ xid ∈ x.children then
    match x.subTransCommitTsData.find? (fun e => e.xid == xid) with
    | some e => some ⟨e.time, e.nodeid⟩
    | none => some ⟨ts, nodeid⟩
  else x.node.commitTsData xid

/-- `RecordTransactionCommit`: a session without an origin, or with no origin timestamp, stamps
the transaction with the commit record's timestamp. -/
def commitTransaction (x : Xact Node natts V) (replOrigin : Option Node)
    (replOriginTimestamp remoteTransactionStopTimestamp xactTime : Int) :
    NodeState Node natts V :=
  let (clock, stop) := ensureMonotonicTransactionStopTimestamp x.node.logicalClock
    remoteTransactionStopTimestamp xactTime
  let ts := if replOrigin.isNone || replOriginTimestamp == 0 then stop else replOriginTimestamp
  { x.node with
    commitTsData := transactionTreeSetCommitTsData x ts replOrigin
    logicalClock := clock }

/-! ## Transactions -/

/-- A transaction as it is replicated: at least one change of the key. -/
structure Txn (Node : Type) (natts : Nat) (V : Type) where
  origin : Node
  commitTs : Int
  first : Change natts V
  rest : List (Change natts V)

def Txn.changes (t : Txn Node natts V) : List (Change natts V) := t.first :: t.rest

/-- A local SQL statement on the key. In an UPDATE the columns of `externalOnDisk` keep their
TOASTed value; its old tuple, when one is logged, carries the columns of `oldCols`. -/
inductive LocalChange (natts : Nat) (V : Type) where
  | insert (values : Row natts V)
  | update (values : Row natts V) (externalOnDisk : Fin natts → Bool)
      (oldCols : Option (Fin natts → Bool))

def updatedRow (row values : Row natts V) (externalOnDisk : Fin natts → Bool) : Row natts V :=
  fun c => if externalOnDisk c then row c else values c

/-- Execute a statement on the row: the new row and the decoded change. A second INSERT of the
key fails and an UPDATE without a row changes nothing. -/
def LocalChange.exec (r : Option (Row natts V)) :
    LocalChange natts V → Option (Row natts V × Change natts V)
  | .insert values =>
    match r with
    | none => some (values, .insert (spockReadTuple (spockWriteTuple values fun _ => false)))
    | some _ => none
  | .update values externalOnDisk oldCols =>
    match r with
    | none => none
    | some row =>
      let row' := updatedRow row values externalOnDisk
      some (row', .update (oldCols.map fun p => ⟨fun c => if p c then row c else none, p⟩)
        (spockReadTuple (spockWriteTuple row' externalOnDisk)))

def execLocalChanges : Row natts V → List (LocalChange natts V) →
    Option (Row natts V × List (Change natts V))
  | row, [] => some (row, [])
  | row, stmt :: stmts => do
    let (row₁, ch) ← stmt.exec (some row)
    let (row₂, chs) ← execLocalChanges row₁ stmts
    return (row₂, ch :: chs)

/-- A local transaction of at least one statement, committed at wall-clock time `now`. -/
def commitLocalTransaction (n : Node) (now : Int) (first : LocalChange natts V)
    (rest : List (LocalChange natts V)) (s : NodeState Node natts V) :
    Option (NodeState Node natts V × Txn Node natts V) := do
  let (row, ch) ← first.exec (s.heap.map (·.row))
  let (row, chs) ← execLocalChanges row rest
  let x := (startTransaction s).store row (startTransaction s).topXid
  let ts := (ensureMonotonicTransactionStopTimestamp s.logicalClock 0 now).2
  return (commitTransaction x none 0 0 now, ⟨n, ts, ch, chs⟩)

/-- The apply worker of node `n` runs the changes of `t` and commits at wall-clock time `now`. -/
def applyRemoteTransaction [DecidableEq Node] (cfg : ConflictConfig Node)
    (rel : SpockRelation natts V) (n : Node) (now : Int) (t : Txn Node natts V)
    (s : NodeState Node natts V) : Except ErrorData (NodeState Node natts V) := do
  let sess := remoteSession n t.origin t.commitTs
  let x ← t.changes.foldlM (applyChange cfg sess rel) (startTransaction s)
  return commitTransaction x (some t.origin) t.commitTs t.commitTs now

/-! ## Versions

What a reader of the node sees: the row and the stamp of the transaction that wrote it. -/

structure Version (Node : Type) (natts : Nat) (V : Type) where
  row : Row natts V
  entry : CommitTimestampEntry Node

def NodeState.version (s : NodeState Node natts V) : Option (Version Node natts V) :=
  s.heap.bind fun tup => (s.commitTsData tup.xmin).map fun entry => ⟨tup.row, entry⟩

/-- Between transactions: every row version is stamped, with a timestamp the clock has reached,
and ids not yet given out have no entry. -/
structure NodeState.Wf (s : NodeState Node natts V) : Prop where
  nextXid_normal : firstNormalTransactionId ≤ s.nextXid
  fresh : ∀ xid, s.nextXid ≤ xid → s.commitTsData xid = none
  clock_nonneg : 0 ≤ s.logicalClock
  stamped : ∀ tup, s.heap = some tup → firstNormalTransactionId ≤ tup.xmin ∧
    ∃ entry, s.commitTsData tup.xmin = some entry ∧ entry.time ≤ s.logicalClock

def rowAfter (rel : SpockRelation natts V) : Option (Row natts V) → Change natts V → Row natts V
  -- an UPDATE does not get here without a row: it raises
  | none, ch => computeStoredGenerated rel (slotFillDefaults rel (slotStoreData rel ch.newtup))
  | some row, ch => appliedRow rel row ch

def Txn.rowFrom (rel : SpockRelation natts V) (t : Txn Node natts V) (r : Option (Row natts V)) :
    Row natts V :=
  t.rest.foldl (appliedRow rel) (rowAfter rel r t.first)

/-- The stamp a transaction leaves on node `n`: no origin for its own. -/
def Txn.entryAt [DecidableEq Node] (t : Txn Node natts V) (n : Node) : CommitTimestampEntry Node :=
  ⟨t.commitTs, if t.origin = n then none else some t.origin⟩

def Txn.accept [DecidableEq Node] (rel : SpockRelation natts V) (n : Node) (t : Txn Node natts V)
    (v : Option (Version Node natts V)) : Version Node natts V :=
  ⟨t.rowFrom rel (v.map (·.row)), t.entryAt n⟩

/-- A transaction whose first change loses. Without delta columns nothing happens. With them the
first change is forced under the old stamp, and a second one meets a version whose id has no
commit timestamp yet: it wins, with everything after it. -/
def Txn.lose [DecidableEq Node] (rel : SpockRelation natts V) (n : Node) (t : Txn Node natts V)
    (v : Version Node natts V) : Version Node natts V :=
  if rel.hasDeltaColumns then
    match t.rest with
    | [] => ⟨forcedRow rel v.row t.first, v.entry⟩
    | ch :: chs => ⟨(ch :: chs).foldl (appliedRow rel) (forcedRow rel v.row t.first), t.entryAt n⟩
  else v

/-- The effect of a remote transaction on the version of node `n`. -/
def Txn.takeRemote [DecidableEq Node] (cfg : ConflictConfig Node) (rel : SpockRelation natts V)
    (n : Node) (t : Txn Node natts V) : Option (Version Node natts V) → Version Node natts V
  | none => t.accept rel n none
  | some v =>
    if remoteWins cfg n t.origin t.commitTs v.entry then t.accept rel n (some v)
    else t.lose rel n v

/-! ## The clock -/

theorem ensureMonotonic_local (logicalClock now : Int) :
    logicalClock < (ensureMonotonicTransactionStopTimestamp logicalClock 0 now).2 ∧
      (ensureMonotonicTransactionStopTimestamp logicalClock 0 now).1
        = (ensureMonotonicTransactionStopTimestamp logicalClock 0 now).2 := by
  unfold ensureMonotonicTransactionStopTimestamp
  split
  · exact absurd rfl ‹(0 : Int) ≠ 0›
  · split
    · exact ⟨Int.lt_succ logicalClock, rfl⟩
    · exact ⟨Int.lt_of_not_ge ‹_›, rfl⟩

theorem ensureMonotonic_remote {remote : Int} (hremote : remote ≠ 0) (logicalClock now : Int) :
    logicalClock ≤ (ensureMonotonicTransactionStopTimestamp logicalClock remote now).1 ∧
      remote ≤ (ensureMonotonicTransactionStopTimestamp logicalClock remote now).1 := by
  simp only [ensureMonotonicTransactionStopTimestamp, if_pos hremote]
  split <;> split <;> constructor <;> omega

/-! ## Storing row versions -/

variable {x : Xact Node natts V} {s : NodeState Node natts V}

variable {tup : HeapTuple natts V}

theorem Xact.store_self (hheap : x.node.heap = some tup) : x.store tup.row tup.xmin = x := by
  obtain ⟨⟨_, _⟩, _⟩ := x
  cases hheap
  rfl

/-! ## A remote transaction, change by change -/

section Remote

variable [DecidableEq Node] {cfg : ConflictConfig Node} (hcfg : cfg.LastUpdateWins)
  (n origin : Node) (ts : Int)
include hcfg

/-- **After the first winning change every change wins.** The row then carries the id of the
current transaction, so `get_tuple_origin` reports the session's own origin and timestamp. -/
theorem foldlM_applyChange_top (rel : SpockRelation natts V) (changes : List (Change natts V))
    {row : Row natts V} (hheap : x.node.heap = some ⟨row, x.topXid⟩)
    (hnormal : firstNormalTransactionId ≤ x.topXid) :
    changes.foldlM (applyChange cfg (remoteSession n origin ts) rel) x
      = .ok (x.store (changes.foldl (appliedRow rel) row)
          x.topXid) := by
  induction changes generalizing x row with
  | nil => exact congrArg Except.ok (Xact.store_self hheap).symm
  | cons _ _ ih =>
    have hwins : remoteWins cfg n origin ts
        (tupleEntry cfg (remoteSession n origin ts) x ⟨row, x.topXid⟩) := by
      rw [tupleEntry_top hcfg n origin ts x row hnormal]
      exact .inr ⟨rfl, .inl rfl⟩
    rw [foldlM_cons, applyChange_of_heap hcfg rel hheap, if_pos hwins]
    exact ih (x := x.store _ x.topXid) rfl hnormal

/-- A change that loses to a committed version leaves a table without delta columns alone, and so
do all the changes after it. -/
theorem foldlM_applyChange_keep (rel : SpockRelation natts V) (changes : List (Change natts V))
    {tup : HeapTuple natts V} (hheap : x.node.heap = some tup)
    (hlose : ¬ remoteWins cfg n origin ts (tupleEntry cfg (remoteSession n origin ts) x tup))
    (hd : rel.hasDeltaColumns = false) :
    changes.foldlM (applyChange cfg (remoteSession n origin ts) rel) x = .ok x := by
  induction changes with
  | nil => rfl
  | cons _ _ ih =>
    rw [foldlM_cons, applyChange_of_heap hcfg rel hheap, if_neg hlose, hd]
    exact ih

end Remote

/-! ## Commit

What is known of a transaction in progress on node state `s`, and what its commit makes of the
three places its row version can come from: its own id, an older transaction, a forced
sub-transaction. -/

/-- `x` is a transaction in progress, started in state `s`. -/
structure Xact.Of (s : NodeState Node natts V) (x : Xact Node natts V) : Prop where
  topXid : x.topXid = s.nextXid
  commitTsData : x.node.commitTsData = s.commitTsData
  logicalClock : x.node.logicalClock = s.logicalClock
  nextXid : s.nextXid < x.node.nextXid
  children : ∀ c ∈ x.children, s.nextXid < c ∧ c < x.node.nextXid
  subs : ∀ e ∈ x.subTransCommitTsData, e.xid ∈ x.children

theorem startTransaction_of (s : NodeState Node natts V) : (startTransaction s).Of s where
  topXid := rfl
  commitTsData := rfl
  logicalClock := rfl
  nextXid := Nat.lt_succ_self _
  children := by simp [startTransaction]
  subs := by simp [startTransaction]

theorem Xact.Of.store (h : x.Of s) (row : Row natts V) (xid : Nat) : (x.store row xid).Of s :=
  { h with }

theorem Xact.Of.storeInSubTransaction (h : x.Of s) (row : Row natts V) (ts : Int)
    (origin : Option Node) :
    (x.storeInSubTransaction row ts origin).Of s where
  __ := h
  nextXid := Nat.lt_succ_of_lt h.nextXid
  children := by
    intro c hc
    rcases mem_append.mp hc with hc | hc
    · exact ⟨(h.children c hc).1, Nat.lt_succ_of_lt (h.children c hc).2⟩
    · obtain rfl := mem_singleton.mp hc
      exact ⟨h.nextXid, Nat.lt_succ_self _⟩
  subs := by
    intro e he
    rcases mem_append.mp he with he | he
    · exact mem_append_left _ (h.subs e he)
    · obtain rfl := mem_singleton.mp he
      exact mem_append_right _ (mem_singleton.mpr rfl)

namespace Xact.Of

variable (h : x.Of s)
include h

theorem setCommitTsData_top (ts : Int) (origin : Option Node) :
    transactionTreeSetCommitTsData x ts origin x.topXid = some ⟨ts, origin⟩ := by
  have hnone : x.subTransCommitTsData.find? (fun e => e.xid == x.topXid) = none := by
    refine find?_eq_none.mpr fun e he heq => ?_
    have hlt := (h.children e.xid (h.subs e he)).1
    rw [beq_iff_eq] at heq
    rw [heq, h.topXid] at hlt
    exact absurd hlt (Nat.lt_irrefl _)
  simp [transactionTreeSetCommitTsData, hnone]

theorem setCommitTsData_other (ts : Int) (origin : Option Node) {xid : Nat}
    (hxid : xid < s.nextXid ∨ x.node.nextXid ≤ xid) :
    transactionTreeSetCommitTsData x ts origin xid = s.commitTsData xid := by
  have hnext := h.nextXid
  have hne : ¬ (xid = x.topXid ∨ xid ∈ x.children) := by
    rintro (heq | hmem)
    · rw [h.topXid] at heq
      omega
    · have := h.children xid hmem
      omega
  rw [transactionTreeSetCommitTsData, if_neg hne, h.commitTsData]

end Xact.Of

theorem NodeState.Wf.version_of_heap (hs : s.Wf) (htup : s.heap = some tup) :
    ∃ entry, s.version = some ⟨tup.row, entry⟩ ∧ s.commitTsData tup.xmin = some entry ∧
      entry.time ≤ s.logicalClock ∧ firstNormalTransactionId ≤ tup.xmin ∧ tup.xmin < s.nextXid := by
  obtain ⟨hnormal, entry, hentry, htime⟩ := hs.stamped tup htup
  refine ⟨entry, by simp [NodeState.version, htup, hentry], hentry, htime, hnormal, ?_⟩
  by_contra hge
  rw [hs.fresh tup.xmin (by omega)] at hentry
  cases hentry

/-- The transaction has left its row in a version that its commit stamps with `v.entry`. -/
structure Xact.Leaves (s : NodeState Node natts V) (origin : Option Node) (ts : Int)
    (v : Version Node natts V) (x : Xact Node natts V) : Prop where
  of : x.Of s
  row : ∃ xid, x.node.heap = some ⟨v.row, xid⟩ ∧ firstNormalTransactionId ≤ xid ∧
    transactionTreeSetCommitTsData x ts origin xid = some v.entry
  time : v.entry.time ≤ ts ∨ v.entry.time ≤ s.logicalClock

section Leaves

variable (hs : s.Wf) (origin : Option Node) (ts : Int) {entry : CommitTimestampEntry Node}
include hs

theorem leaves_top (hx : x.Of s) (row : Row natts V) :
    (x.store row x.topXid).Leaves s origin ts ⟨row, ⟨ts, origin⟩⟩ := by
  have hof := hx.store row x.topXid
  refine ⟨hof, ⟨x.topXid, rfl, ?_, hof.setCommitTsData_top ts origin⟩, .inl le_rfl⟩
  rw [hx.topXid]
  exact hs.nextXid_normal

omit hs in
theorem leaves_keep (htup : s.heap = some tup) (hentry : s.commitTsData tup.xmin = some entry)
    (htime : entry.time ≤ s.logicalClock) (hnormal : firstNormalTransactionId ≤ tup.xmin)
    (hlt : tup.xmin < s.nextXid) : (startTransaction s).Leaves s origin ts ⟨tup.row, entry⟩ := by
  have hof := startTransaction_of s
  refine ⟨hof, ⟨tup.xmin, htup, hnormal, ?_⟩, .inr htime⟩
  exact (hof.setCommitTsData_other ts origin (.inl hlt)).trans hentry

theorem leaves_forced (row : Row natts V) (htime : entry.time ≤ s.logicalClock) :
    ((startTransaction s).storeInSubTransaction row entry.time entry.nodeid).Leaves s origin ts
      ⟨row, entry⟩ := by
  have hnormal := hs.nextXid_normal
  refine ⟨(startTransaction_of s).storeInSubTransaction row entry.time entry.nodeid,
    ⟨s.nextXid + 1, rfl, by omega, ?_⟩, .inr htime⟩
  simp [transactionTreeSetCommitTsData, Xact.storeInSubTransaction, startTransaction]

/-- **Commit** shows the version, in a node that is well-formed. -/
theorem Xact.Leaves.commit {v : Version Node natts V} {c : NodeState Node natts V}
    (h : x.Leaves s origin ts v) (hheap : c.heap = x.node.heap)
    (hdata : c.commitTsData = transactionTreeSetCommitTsData x ts origin)
    (hnext : c.nextXid = x.node.nextXid) (hclock : s.logicalClock ≤ c.logicalClock)
    (hts : ts ≤ c.logicalClock) : c.Wf ∧ c.version = some v := by
  obtain ⟨xid, hrow, hnormal, hentry⟩ := h.row
  refine ⟨⟨?_, fun xid' hxid' => ?_, hs.clock_nonneg.trans hclock, fun tup htup => ?_⟩, ?_⟩
  · rw [hnext]
    exact hs.nextXid_normal.trans h.of.nextXid.le
  · rw [hnext] at hxid'
    rw [hdata, h.of.setCommitTsData_other ts origin (.inr hxid')]
    exact hs.fresh xid' (h.of.nextXid.le.trans hxid')
  · rw [hheap, hrow] at htup
    cases htup
    exact ⟨hnormal, v.entry, by rw [hdata, hentry], h.time.elim hts.trans' hclock.trans'⟩
  · rw [NodeState.version, hheap, hrow, bind_some, hdata, hentry]
    rfl

end Leaves

/-! ## The effect of a whole transaction -/

section RemoteSpec

variable [DecidableEq Node] {cfg : ConflictConfig Node} (hcfg : cfg.LastUpdateWins)
  (rel : SpockRelation natts V) {n : Node} (now : Int) {t : Txn Node natts V} (hs : s.Wf)
  (hts : 0 < t.commitTs) (hn : t.origin ≠ n)
include hcfg hs hts hn

/-- **The changes of a remote transaction.** -/
theorem foldlM_changes_leaves
    (h : t.changes.foldlM (applyChange cfg (remoteSession n t.origin t.commitTs) rel)
      (startTransaction s) = .ok x) :
    x.Leaves s (some t.origin) t.commitTs (t.takeRemote cfg rel n s.version) := by
  have hstart := startTransaction_of s
  -- from the first winning change on, the row is under the id of the transaction
  have htop : ∀ {x₁ : Xact Node natts V} {row : Row natts V} (changes : List (Change natts V)),
      x₁.Of s → changes.foldlM (applyChange cfg (remoteSession n t.origin t.commitTs) rel)
        (x₁.store row x₁.topXid) = .ok x →
      x.Leaves s (some t.origin) t.commitTs ⟨changes.foldl (appliedRow rel) row, t.entryAt n⟩ := by
    intro x₁ row changes hx₁ hfold
    have hnormal : firstNormalTransactionId ≤ x₁.topXid := hx₁.topXid ▸ hs.nextXid_normal
    rw [foldlM_applyChange_top hcfg n t.origin t.commitTs rel changes
      (x := x₁.store row x₁.topXid) rfl hnormal] at hfold
    cases hfold
    rw [Txn.entryAt, if_neg hn]
    exact leaves_top hs (some t.origin) t.commitTs (hx₁.store _ _) _
  rw [Txn.changes, foldlM_cons] at h
  cases hheap : s.heap with
  | none =>
    have hnone : (startTransaction s).node.heap = none := hheap
    have hv : s.version = none := by simp [NodeState.version, hheap]
    rw [hv]
    show x.Leaves _ _ _ ⟨t.rowFrom rel none, _⟩
    unfold Txn.rowFrom
    cases hfirst : t.first with
    | update => simp [hfirst, applyChange, spockApplyHeapUpdate, hnone, bind, Except.bind] at h
    | insert newtup =>
      simp only [hfirst, applyChange, spockApplyHeapInsert, hnone] at h
      exact htop t.rest hstart h
  | some tup =>
    obtain ⟨entry, hv, hentry, htime, hnormal, hlt⟩ := hs.version_of_heap hheap
    have hsome : (startTransaction s).node.heap = some tup := hheap
    have hte := tupleEntry_committed hcfg n t.origin t.commitTs (startTransaction s)
      hnormal (by show tup.xmin ≠ s.nextXid; omega) hentry
    rw [applyChange_of_heap hcfg rel hsome, hte] at h
    rw [hv, Txn.takeRemote]
    by_cases hwins : remoteWins cfg n t.origin t.commitTs entry
    · rw [if_pos hwins] at h ⊢
      exact htop t.rest hstart h
    rw [if_neg hwins] at h ⊢
    unfold Txn.lose
    cases hd : rel.hasDeltaColumns with
    | false =>
      simp only [hd, Bool.false_eq_true, if_false] at h ⊢
      rw [← hte] at hwins
      cases (foldlM_applyChange_keep hcfg n t.origin t.commitTs rel t.rest hsome hwins hd).symm.trans h
      exact leaves_keep _ _ hheap hentry htime hnormal hlt
    | true =>
      simp only [hd, if_true] at h ⊢
      cases hrest : t.rest with
      | nil =>
        rw [hrest] at h
        cases h
        exact leaves_forced hs _ _ _ htime
      | cons ch chs =>
        -- the version is now under the sub-transaction's id, which has no commit timestamp
        have hunset : tupleEntry cfg (remoteSession n t.origin t.commitTs) _
            ⟨forcedRow rel tup.row t.first, (startTransaction s).node.nextXid⟩ = ⟨0, none⟩ :=
          tupleEntry_unset hcfg n t.origin t.commitTs
            ((startTransaction s).storeInSubTransaction (forcedRow rel tup.row t.first) entry.time
              entry.nodeid) (by show s.nextXid + 1 ≠ s.nextXid; omega) (hs.fresh _ (Nat.le_succ _))
        have hwins : remoteWins cfg n t.origin t.commitTs ⟨0, none⟩ := .inl hts
        rw [hrest] at h
        change (ch :: chs).foldlM (applyChange cfg (remoteSession n t.origin t.commitTs) rel) _ = _ at h
        rw [foldlM_cons, applyChange_of_heap hcfg rel rfl, hunset, if_pos hwins] at h
        exact htop chs (hstart.storeInSubTransaction _ _ _) h

/-- **A remote transaction has the effect of `takeRemote`,** keeps the node well-formed and moves
the clock to its timestamp at least. -/
theorem applyRemoteTransaction_spec {s' : NodeState Node natts V}
    (h : applyRemoteTransaction cfg rel n now t s = .ok s') :
    s'.Wf ∧ s'.version = some (t.takeRemote cfg rel n s.version) ∧
      s.logicalClock ≤ s'.logicalClock ∧ t.commitTs ≤ s'.logicalClock := by
  rw [applyRemoteTransaction] at h
  cases hx : t.changes.foldlM (applyChange cfg (remoteSession n t.origin t.commitTs) rel)
      (startTransaction s) with
  | error e => simp [hx, bind, Except.bind] at h
  | ok x =>
    simp only [hx, bind, Except.bind, pure, Except.pure, Except.ok.injEq] at h
    subst h
    have hleaves := foldlM_changes_leaves hcfg rel hs hts hn hx
    have hclock := ensureMonotonic_remote hts.ne' s.logicalClock now
    obtain ⟨hwf, hversion⟩ := hleaves.commit hs _ _
      (c := commitTransaction x (some t.origin) t.commitTs t.commitTs now) rfl
      (by simp [commitTransaction, hts.ne']) rfl
      (by rw [commitTransaction, hleaves.of.logicalClock]; exact hclock.1)
      (by rw [commitTransaction, hleaves.of.logicalClock]; exact hclock.2)
    refine ⟨hwf, hversion, ?_⟩
    rw [commitTransaction, hleaves.of.logicalClock]
    exact hclock

end RemoteSpec

/-! ## A local transaction

The decoded changes of a local transaction, replayed as winning changes, give the row the
transaction left. For delta columns this needs the old value in the message and a function that
returns the new value when the old one is the local one. -/

/-- On the origin itself the delta functions reproduce the new value. -/
def SpockRelation.DeltaExact (rel : SpockRelation natts V) : Prop :=
  ∀ c f, rel.deltaApplyFunctions c = some f → ∀ l new, f l new l = new

def LocalChange.SendsDeltas (rel : SpockRelation natts V) : LocalChange natts V → Prop
  | .insert _ => True
  | .update _ externalOnDisk oldCols => ∀ c, (rel.deltaApplyFunctions c).isSome →
      externalOnDisk c = false ∧ ∃ p, oldCols = some p ∧ p c = true

theorem SpockRelation.deltaApplyFunctions_eq_none {rel : SpockRelation natts V}
    (hmap : rel.AllMapped) (hd : rel.hasDeltaColumns = false) (c : Fin natts) :
    rel.deltaApplyFunctions c = none := by
  have h := any_eq_false.mp hd c (hmap.mapped c)
  simpa using h

section Local

variable {rel : SpockRelation natts V} (hmap : rel.AllMapped) (hexact : rel.DeltaExact)
include hmap hexact

variable {row : Row natts V}

/-- An UPDATE column by column: plain columns take the sent value, delta columns the same value
by way of the old one. -/
theorem appliedRow_update {values : Row natts V} {externalOnDisk : Fin natts → Bool}
    {oldCols : Option (Fin natts → Bool)}
    (hsends : (LocalChange.update values externalOnDisk oldCols).SendsDeltas rel) :
    appliedRow rel row (.update
        (oldCols.map fun p => ⟨fun c => if p c then row c else none, p⟩)
        (spockReadTuple (spockWriteTuple (updatedRow row values externalOnDisk) externalOnDisk)))
      = updatedRow row values externalOnDisk := by
  have hplain := slotModifyData_read_write hmap row (updatedRow row values externalOnDisk)
    externalOnDisk (fun c hc => by simp [updatedRow, hc])
  funext c
  rw [appliedRow_eq hmap]
  cases hc : rel.deltaApplyFunctions c with
  | none =>
    rw [deltaSlot_of_none hmap hc]
    exact congrFun hplain c
  | some f =>
    obtain ⟨hext, p, rfl, hp⟩ := hsends c (by rw [hc]; rfl)
    rw [deltaSlot_of_some hmap hc, Change.newtup, spockReadTuple_write_values _ hext]
    simp only [Change.oldtup, map_some, getD_some, hp, if_true]
    cases hrow : row c with
    | none => rfl
    | some l =>
      cases hval : updatedRow row values externalOnDisk c with
      | none => rfl
      | some new => exact congrArg some (hexact c f hc l new)

theorem LocalChange.exec_rowAfter {stmt : LocalChange natts V} (hsends : stmt.SendsDeltas rel)
    {r : Option (Row natts V)} {ch : Change natts V} (h : stmt.exec r = some (row, ch)) :
    rowAfter rel r ch = row := by
  cases stmt with
  | insert values =>
    cases r with
    | some => simp [LocalChange.exec] at h
    | none =>
      simp only [LocalChange.exec, some.injEq, Prod.mk.injEq] at h
      obtain ⟨rfl, rfl⟩ := h
      rw [rowAfter, computeStoredGenerated_eq hmap, slotFillDefaults_storeData hmap]
      funext c
      exact spockReadTuple_write_values values rfl
  | update =>
    cases r with
    | none => simp [LocalChange.exec] at h
    | some =>
      simp only [LocalChange.exec, some.injEq, Prod.mk.injEq] at h
      obtain ⟨rfl, rfl⟩ := h
      exact appliedRow_update hmap hexact hsends

theorem execLocalChanges_rowAfter {stmts : List (LocalChange natts V)}
    (hsends : ∀ stmt ∈ stmts, stmt.SendsDeltas rel) {row' : Row natts V}
    {chs : List (Change natts V)} (h : execLocalChanges row stmts = some (row', chs)) :
    chs.foldl (appliedRow rel) row = row' := by
  induction stmts generalizing row chs with
  | nil =>
    obtain ⟨rfl, rfl⟩ : row = row' ∧ [] = chs := by simpa [execLocalChanges] using h
    rfl
  | cons stmt _ ih =>
    simp only [execLocalChanges, bind_eq_bind, bind_eq_some_iff, Prod.exists,
      Option.pure_def, Option.some.injEq, Prod.mk.injEq] at h
    obtain ⟨row₁, ch, hstmt, _, _, hrest, rfl, rfl⟩ := h
    have hrow : appliedRow rel row ch = row₁ :=
      LocalChange.exec_rowAfter hmap hexact (hsends stmt (by simp)) hstmt
    rw [foldl_cons, hrow]
    exact ih (fun st hst => hsends st (by simp [hst])) hrest

/-- **A local transaction installs the row its decoded changes describe,** stamped above the
clock and without an origin. -/
theorem commitLocalTransaction_spec [DecidableEq Node] {n : Node} {now : Int}
    {first : LocalChange natts V} {rest : List (LocalChange natts V)}
    (hsends : ∀ stmt ∈ first :: rest, stmt.SendsDeltas rel) {s' : NodeState Node natts V}
    (hs : s.Wf) {t : Txn Node natts V}
    (h : commitLocalTransaction n now first rest s = some (s', t)) :
    s'.Wf ∧ t.origin = n ∧ s'.version = some (t.accept rel n s.version) ∧
      s.logicalClock < t.commitTs ∧ s'.logicalClock = t.commitTs := by
  simp only [commitLocalTransaction, bind_eq_bind, bind_eq_some_iff, Prod.exists,
    Option.pure_def, Option.some.injEq, Prod.mk.injEq] at h
  obtain ⟨_, ch, hfirst, row, chs, hrest, rfl, rfl⟩ := h
  obtain ⟨hlt, hclock⟩ := ensureMonotonic_local s.logicalClock now
  have hrow : chs.foldl (appliedRow rel) (rowAfter rel (s.version.map (·.row)) ch) = row := by
    have hview : s.version.map (·.row) = s.heap.map (·.row) := by
      cases hheap : s.heap with
      | none => simp [NodeState.version, hheap]
      | some =>
        obtain ⟨_, hv, -⟩ := hs.version_of_heap hheap
        rw [hv]
        rfl
    rw [hview, LocalChange.exec_rowAfter hmap hexact (hsends first (by simp)) hfirst]
    exact execLocalChanges_rowAfter hmap hexact (fun st hst => hsends st (by simp [hst])) hrest
  -- the row is under the new transaction's id, which gets the commit record's timestamp
  obtain ⟨hwf, hversion⟩ := (leaves_top hs none
      (ensureMonotonicTransactionStopTimestamp s.logicalClock 0 now).2 (startTransaction_of s) row
    ).commit hs _ _
    (c := commitTransaction ((startTransaction s).store row s.nextXid) none 0 0 now) rfl rfl rfl
    (hlt.le.trans hclock.ge) hclock.ge
  refine ⟨hwf, rfl, hversion.trans ?_, hlt, hclock⟩
  rw [Txn.accept, Txn.rowFrom, hrow, Txn.entryAt, if_pos rfl]

end Local

end Spock
