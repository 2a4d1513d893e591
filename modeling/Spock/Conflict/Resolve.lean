import Mathlib.Algebra.Order.Ring.Int
import Spock.Conflict.Heap

/-!
# Spock — conflict resolution and the heap apply functions

The functions of `spock_conflict.c` and `spock_apply_heap.c` that decide between the local row
and an incoming change, over one key of one table, with the PostgreSQL state they read: the row
version a node holds, the commit-timestamp entries of past transactions, and the transaction
being applied with its sub-transactions.

An origin is `none` for `InvalidRepOriginId` (a local change) and otherwise the node the change
came from, which is what the publisher always forwards. The conflict decision is taken from the
local tuple's `xmin` alone:

* **`tupleEntry_top`**, **`tupleEntry_committed`**, **`tupleEntry_unset`** — what the local tuple
  says of itself when the current transaction wrote it, when a committed one did, and when it was
  written under a transaction id that has no commit timestamp yet.
-/

namespace Spock

variable {Node V : Type} {natts : Nat}

/-- `SPOCK_RESOLVE_*`. -/
inductive SpockConflictResolver where
  | error
  | applyRemote
  | keepLocal
  | lastUpdateWins
  | firstUpdateWins
  deriving DecidableEq

inductive SpockConflictResolution where
  | applyRemote
  | keepLocal
  | skip
  deriving DecidableEq

/-- `CommitTimestampEntry`. -/
structure CommitTimestampEntry (Node : Type) where
  time : Int
  nodeid : Option Node
  deriving DecidableEq

/-- `SubTransactionCommitTsEntry`: the override recorded for one sub-transaction. -/
structure SubTransactionCommitTsEntry (Node : Type) where
  xid : Nat
  time : Int
  nodeid : Option Node

/-- What one node holds for the key: the visible row version, the commit-timestamp entries and
the logical clock (`XLogGetLastTransactionStopTimestamp`). -/
structure NodeState (Node : Type) (natts : Nat) (V : Type) where
  heap : Option (HeapTuple natts V)
  commitTsData : Nat → Option (CommitTimestampEntry Node)
  nextXid : Nat
  logicalClock : Int

structure Xact (Node : Type) (natts : Nat) (V : Type) where
  node : NodeState Node natts V
  topXid : Nat
  children : List Nat
  subTransCommitTsData : List (SubTransactionCommitTsEntry Node)

structure ConflictConfig (Node : Type) where
  trackCommitTimestamp : Bool
  spockConflictResolver : SpockConflictResolver
  /-- `spock.node.tiebreaker`. -/
  tiebreaker : Node → Int

/-- The apply session: the node it runs on, and `replorigin_session_origin` and
`replorigin_session_origin_timestamp` of the remote transaction. -/
structure ApplySession (Node : Type) where
  localNode : Node
  replOrigin : Option Node
  replOriginTimestamp : Int

/-! ## The decision -/

/-- `timestamptz_cmp_internal`. -/
def timestamptzCmpInternal (dt1 dt2 : Int) : Int :=
  if dt1 < dt2 then -1 else if dt1 > dt2 then 1 else 0

/-- `conflict_resolve_by_timestamp`. On equal timestamps the tiebreaker compared is that of the
applying node, not of the local tuple's origin. `get_node` of an origin that is no node raises. -/
def conflictResolveByTimestamp [DecidableEq Node] (cfg : ConflictConfig Node)
    (sess : ApplySession Node) (localOrigin : Option Node) (localTs : Int)
    (lastUpdateWins : Bool) : Except ErrorData (Bool × SpockConflictResolution) :=
  let cmp := timestamptzCmpInternal sess.replOriginTimestamp localTs
  let cmp := if lastUpdateWins then cmp else -cmp
  if cmp > 0 then .ok (true, .applyRemote)
  else if cmp < 0 then .ok (false, .keepLocal)
  else if localOrigin ≠ none ∧ localOrigin = sess.replOrigin then .ok (true, .applyRemote)
  else
    match sess.replOrigin with
    | none => .error (elogError "node 0 not found")
    | some remoteNode =>
      -- loc_node is the applying node
      if cfg.tiebreaker sess.localNode = cfg.tiebreaker remoteNode then .ok (true, .applyRemote)
      else if cfg.tiebreaker sess.localNode < cfg.tiebreaker remoteNode then
        .ok (false, .keepLocal)
      else .ok (true, .applyRemote)

/-- `get_tuple_origin` for a tuple found in the heap (`tid` is not NULL): the local origin, the
local timestamp, and whether origin data was found. -/
def getTupleOrigin (cfg : ConflictConfig Node) (sess : ApplySession Node)
    (x : Xact Node natts V) (localTuple : HeapTuple natts V) :
    Option Node × Int × Bool :=
  let xmin := localTuple.xmin
  if cfg.trackCommitTimestamp = false then (sess.replOrigin, sess.replOriginTimestamp, false)
  else if transactionIdIsValid xmin && !transactionIdIsNormal xmin then (none, 0, false)
  else if xmin = x.topXid then (sess.replOrigin, sess.replOriginTimestamp, true)
  else
    match x.node.commitTsData xmin with
    | some entry => (entry.nodeid, entry.time, true)
    | none => (none, 0, false)

/-- `try_resolve_conflict`: whether the remote tuple is the result tuple. -/
def tryResolveConflict [DecidableEq Node] (cfg : ConflictConfig Node) (sess : ApplySession Node)
    (localOrigin : Option Node) (localTs : Int) :
    Except ErrorData (Bool × SpockConflictResolution) :=
  match cfg.spockConflictResolver with
  | .error => .error (elogError "cannot apply conflicting row")
  | .applyRemote => .ok (true, .applyRemote)
  | .keepLocal => .ok (false, .keepLocal)
  | .lastUpdateWins => conflictResolveByTimestamp cfg sess localOrigin localTs true
  | .firstUpdateWins => conflictResolveByTimestamp cfg sess localOrigin localTs false

/-! ## Applying one change -/

/-- Store a row version written by `xid`. -/
def Xact.store (x : Xact Node natts V) (row : Row natts V) (xid : Nat) :
    Xact Node natts V :=
  { x with node := { x.node with heap := some ⟨row, xid⟩ } }

/-- The forced delta apply: the UPDATE runs in a sub-transaction of its own, whose id becomes the
new version's `xmin` and whose commit timestamp is overridden with the local tuple's
(`SubTransactionIdSetCommitTsData`). -/
def Xact.storeInSubTransaction (x : Xact Node natts V) (row : Row natts V)
    (localTs : Int) (localOrigin : Option Node) : Xact Node natts V :=
  let subxid := x.node.nextXid
  { x with
    node := { x.node with heap := some ⟨row, subxid⟩, nextXid := subxid + 1 }
    children := x.children ++ [subxid]
    subTransCommitTsData := x.subTransCommitTsData ++ [⟨subxid, localTs, localOrigin⟩] }

/-- `spock_handle_conflict_and_apply`. When the remote tuple wins, the mapped and sent columns
replace those of the local row; delta columns are computed on top of the winner. A losing change
is still applied, to the delta columns only, when the table has some. -/
def spockHandleConflictAndApply [DecidableEq Node] (cfg : ConflictConfig Node)
    (sess : ApplySession Node) (rel : SpockRelation natts V) (x : Xact Node natts V)
    (localslot : HeapTuple natts V) (oldtup newtup : SpockTupleData natts V) :
    Except ErrorData (Xact Node natts V) := do
  let (localOrigin, localTs, _) := getTupleOrigin cfg sess x localslot
  let (apply, _) ← tryResolveConflict cfg sess localOrigin localTs
  let current := if apply then slotModifyData rel localslot.row newtup else localslot.row
  let remoteslot := computeStoredGenerated rel (deltaSlot rel current oldtup newtup localslot.row)
  if apply then
    return x.store remoteslot x.topXid
  else if rel.hasDeltaColumns then
    -- is_delta_apply
    return x.storeInSubTransaction remoteslot localTs localOrigin
  else
    return x

/-- `spock_apply_heap_insert`. -/
def spockApplyHeapInsert [DecidableEq Node] (cfg : ConflictConfig Node) (sess : ApplySession Node)
    (rel : SpockRelation natts V) (x : Xact Node natts V) (newtup : SpockTupleData natts V) :
    Except ErrorData (Xact Node natts V) :=
  match x.node.heap with
  | some localslot =>
    spockHandleConflictAndApply cfg sess rel x localslot (initTupleWithDefaults rel) newtup
  | none => .ok (x.store (computeStoredGenerated rel
      (slotFillDefaults rel (slotStoreData rel newtup))) x.topXid)

/-- `spock_apply_heap_update`. -/
def spockApplyHeapUpdate [DecidableEq Node] (cfg : ConflictConfig Node) (sess : ApplySession Node)
    (rel : SpockRelation natts V) (x : Xact Node natts V) (oldtup newtup : SpockTupleData natts V) :
    Except ErrorData (Xact Node natts V) :=
  match x.node.heap with
  | some localslot => spockHandleConflictAndApply cfg sess rel x localslot oldtup newtup
  | none => .error (elogError
      ("logical replication did not find row to be updated in replication target relation ("
        ++ rel.nspname ++ "." ++ rel.relname ++ ")"))

inductive Change (natts : Nat) (V : Type) where
  | insert (newtup : SpockTupleData natts V)
  | update (oldtup : Option (SpockTupleData natts V)) (newtup : SpockTupleData natts V)

def Change.newtup : Change natts V → SpockTupleData natts V
  | .insert newtup => newtup
  | .update _ newtup => newtup

/-- `handle_insert` and `handle_update` for this table: without an old tuple the new one serves
as the search key. -/
def applyChange [DecidableEq Node] (cfg : ConflictConfig Node) (sess : ApplySession Node)
    (rel : SpockRelation natts V) (x : Xact Node natts V) :
    Change natts V → Except ErrorData (Xact Node natts V)
  | .insert newtup => spockApplyHeapInsert cfg sess rel x newtup
  | .update oldtup newtup => spockApplyHeapUpdate cfg sess rel x (oldtup.getD newtup) newtup

/-! ## What last-update-wins decides

From here on the resolver is `last_update_wins` and commit timestamps are tracked; the change
comes from the node `origin`. -/

/-- `last_update_wins` with `track_commit_timestamp` on. -/
structure ConflictConfig.LastUpdateWins (cfg : ConflictConfig Node) : Prop where
  track : cfg.trackCommitTimestamp = true
  resolver : cfg.spockConflictResolver = .lastUpdateWins

/-- The default settings on nodes numbered from 0, each with its number as tiebreaker. -/
def numberedNodes (k : Nat) : ConflictConfig (Fin k) := ⟨true, .lastUpdateWins, fun i => i⟩

theorem numberedNodes_lastUpdateWins (k : Nat) : (numberedNodes k).LastUpdateWins := ⟨rfl, rfl⟩

theorem numberedNodes_injective (k : Nat) : Function.Injective (numberedNodes k).tiebreaker :=
  fun _ _ h => Fin.ext (Int.ofNat.inj h)

def nodeA : Fin 2 := (Fin.last 0).castSucc
def nodeB : Fin 2 := Fin.last 1

/-- The remote change of `origin` at `ts` wins on node `n` over a row stamped `entry`. -/
def remoteWins [DecidableEq Node] (cfg : ConflictConfig Node) (n origin : Node)
    (ts : Int) (entry : CommitTimestampEntry Node) : Prop :=
  entry.time < ts ∨
    (entry.time = ts ∧ (entry.nodeid = some origin ∨ cfg.tiebreaker origin ≤ cfg.tiebreaker n))
  deriving Decidable

/-- The apply session of a transaction of `origin` on node `n`. -/
def remoteSession (n origin : Node) (ts : Int) : ApplySession Node := ⟨n, some origin, ts⟩

/-- The stamp `get_tuple_origin` reports. -/
def tupleEntry (cfg : ConflictConfig Node) (sess : ApplySession Node) (x : Xact Node natts V)
    (tup : HeapTuple natts V) : CommitTimestampEntry Node :=
  ⟨(getTupleOrigin cfg sess x tup).2.1, (getTupleOrigin cfg sess x tup).1⟩

/-- The old tuple `spock_handle_conflict_and_apply` gets for a change. -/
def Change.oldtup (rel : SpockRelation natts V) : Change natts V → SpockTupleData natts V
  | .insert _ => initTupleWithDefaults rel
  | .update oldtup newtup => oldtup.getD newtup

def appliedRow (rel : SpockRelation natts V) (row : Row natts V) (ch : Change natts V) :
    Row natts V :=
  computeStoredGenerated rel
    (deltaSlot rel (slotModifyData rel row ch.newtup) (ch.oldtup rel) ch.newtup row)

def forcedRow (rel : SpockRelation natts V) (row : Row natts V) (ch : Change natts V) :
    Row natts V :=
  computeStoredGenerated rel (deltaSlot rel row (ch.oldtup rel) ch.newtup row)

section Rows

variable {rel : SpockRelation natts V} (hmap : rel.AllMapped) (row : Row natts V)
  (ch : Change natts V)
include hmap

theorem appliedRow_eq : appliedRow rel row ch =
    deltaSlot rel (slotModifyData rel row ch.newtup) (ch.oldtup rel) ch.newtup row :=
  computeStoredGenerated_eq hmap _

theorem forcedRow_eq : forcedRow rel row ch = deltaSlot rel row (ch.oldtup rel) ch.newtup row :=
  computeStoredGenerated_eq hmap _

end Rows

theorem applyChange_eq_handle [DecidableEq Node] (cfg : ConflictConfig Node)
    (sess : ApplySession Node) (rel : SpockRelation natts V) {x : Xact Node natts V}
    {tup : HeapTuple natts V} (ch : Change natts V) (hheap : x.node.heap = some tup) :
    applyChange cfg sess rel x ch
      = spockHandleConflictAndApply cfg sess rel x tup (ch.oldtup rel) ch.newtup := by
  cases ch with
  | insert newtup => simp [applyChange, spockApplyHeapInsert, hheap, Change.oldtup, Change.newtup]
  | update oldtup newtup =>
    simp [applyChange, spockApplyHeapUpdate, hheap, Change.oldtup, Change.newtup]

section LastUpdateWins

variable {cfg : ConflictConfig Node} (hcfg : cfg.LastUpdateWins) (n origin : Node) (ts : Int)
include hcfg

theorem tupleEntry_top (x : Xact Node natts V) (row : Row natts V)
    (hnormal : firstNormalTransactionId ≤ x.topXid) :
    tupleEntry cfg (remoteSession n origin ts) x ⟨row, x.topXid⟩ = ⟨ts, some origin⟩ := by
  simp [tupleEntry, getTupleOrigin, hcfg.track, transactionIdIsNormal, hnormal, remoteSession]

variable {tup : HeapTuple natts V}

theorem tupleEntry_committed (x : Xact Node natts V) (hnormal : firstNormalTransactionId ≤ tup.xmin)
    (hne : tup.xmin ≠ x.topXid) {entry : CommitTimestampEntry Node}
    (hts : x.node.commitTsData tup.xmin = some entry) :
    tupleEntry cfg (remoteSession n origin ts) x tup = entry := by
  simp [tupleEntry, getTupleOrigin, hcfg.track, transactionIdIsNormal, hnormal, hne, hts]

theorem tupleEntry_unset (x : Xact Node natts V) (hne : tup.xmin ≠ x.topXid)
    (hts : x.node.commitTsData tup.xmin = none) :
    tupleEntry cfg (remoteSession n origin ts) x tup = ⟨0, none⟩ := by
  simp [tupleEntry, getTupleOrigin, hcfg.track, hne, hts]

variable [DecidableEq Node]

/-- **The decision as a condition.** -/
theorem tryResolveConflict_lastUpdateWins (localOrigin : Option Node) (localTs : Int) :
    ∃ resolution, tryResolveConflict cfg (remoteSession n origin ts) localOrigin localTs
      = .ok (decide (remoteWins cfg n origin ts ⟨localTs, localOrigin⟩), resolution) := by
  have hcmp := lt_trichotomy localTs ts
  unfold tryResolveConflict conflictResolveByTimestamp timestamptzCmpInternal
  simp only [hcfg.resolver, remoteSession]
  rcases hcmp with hlt | rfl | hgt
  · -- the remote change is newer
    exact ⟨.applyRemote, by simp [remoteWins, hlt, not_lt_of_gt hlt]⟩
  · -- equal timestamps: same origin first, then the tiebreakers
    by_cases hsame : localOrigin = some origin
    · exact ⟨.applyRemote, by simp [remoteWins, hsame]⟩
    · rcases lt_trichotomy (cfg.tiebreaker n) (cfg.tiebreaker origin) with h | h | h
      · exact ⟨.keepLocal, by simp [remoteWins, hsame, h, ne_of_lt h]⟩
      · exact ⟨.applyRemote, by simp [remoteWins, hsame, h]⟩
      · exact ⟨.applyRemote, by
          simp [remoteWins, hsame, le_of_lt h, ne_of_gt h, not_lt_of_gt h]⟩
  · exact ⟨.keepLocal, by simp [remoteWins, hgt, ne_of_gt hgt, not_lt_of_gt hgt]⟩

variable {n origin} {ts}

/-- **One change on an existing row.** -/
theorem applyChange_of_heap (rel : SpockRelation natts V) {x : Xact Node natts V}
    (hheap : x.node.heap = some tup) (ch : Change natts V) :
    applyChange cfg (remoteSession n origin ts) rel x ch = .ok
      (if remoteWins cfg n origin ts (tupleEntry cfg (remoteSession n origin ts) x tup) then
        x.store (appliedRow rel tup.row ch) x.topXid
      else if rel.hasDeltaColumns then
        x.storeInSubTransaction (forcedRow rel tup.row ch)
          (tupleEntry cfg (remoteSession n origin ts) x tup).time
          (tupleEntry cfg (remoteSession n origin ts) x tup).nodeid
      else x) := by
  obtain ⟨_, hres⟩ := tryResolveConflict_lastUpdateWins hcfg n origin ts
    (getTupleOrigin cfg (remoteSession n origin ts) x tup).1
    (getTupleOrigin cfg (remoteSession n origin ts) x tup).2.1
  rw [applyChange_eq_handle _ _ rel ch hheap]
  simp only [spockHandleConflictAndApply, hres, tupleEntry, appliedRow, forcedRow]
  by_cases hw : remoteWins cfg n origin ts
      ⟨(getTupleOrigin cfg (remoteSession n origin ts) x tup).2.1,
        (getTupleOrigin cfg (remoteSession n origin ts) x tup).1⟩
  · simp [hw, bind, Except.bind, pure, Except.pure]
  · cases hd : rel.hasDeltaColumns <;> simp [hw, bind, Except.bind, pure, Except.pure]

end LastUpdateWins

end Spock
