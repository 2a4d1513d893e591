import Spock.Lib.Bytes
import Spock.Lib.Outcome
import Spock.Lib.Runs
import Spock.Repset.Info

/-!
# Spock — the output plugin

`spock_output_plugin.c`: the callbacks that logical decoding makes for the transactions of the WAL,
and the messages they send on a connection of the native protocol. A callback is an `EStateM`
program over the static variables of the module, since an error keeps what was sent before it and
ends the connection.

A callback is one step. An invalidation can also come in while a callback opens a relation, which is
why `relmetacache_invalidation_cb` only marks an entry; here it comes before or after the callback.
-/

namespace Spock.Output

open Protocol Repset

/-! ## State -/

/-- `SpockOutputData` with the lookups of the callbacks. -/
structure Connection where
  localNodeId : UInt32
  replicateOnlyTable : Option (CString × CString)
  forwardChangesetOrigins : Bool
  /-- `prepare_startup_message`. -/
  startupParams : List (CString × CString)
  myOutputNodeId : UInt16
  myOutputNodeName : CString
  publisher : Publisher
  getNamespaceOid : CString → UInt32
  getNode : UInt16 → Option CString
  /-- The replication sets of a row of the queue table. -/
  queuedMessageFromTuple : Deformed → Option (List CString)
  replicationSetFromTuple : Deformed → RepSet
  /-- What the memory of a new entry of `RepSetTableHash` reads as. -/
  uninit : Memo.Entry TableRepInfo

/-- `ReorderBufferTXN`. -/
structure Txn where
  xid : UInt32
  finalLsn : UInt64
  endLsn : UInt64
  commitTime : Int64
  originId : UInt16
  originLsn : UInt64

/-- `ReorderBufferChange` with the tuples the WAL has. -/
inductive Change where
  | insert (newtuple : Deformed)
  | update (oldtuple : Option Deformed) (newtuple : Deformed)
  | delete (oldtuple : Option Deformed)

/-- `SpockOutputSlotGroup`, in shared memory. -/
structure SlotGroup where
  lastLsn : UInt64
  lastCommitTs : Int64
  deriving DecidableEq

/-- `SPKRelMetaCacheEntry`. -/
structure RelMetaCacheEntry where
  isCached : Bool
  isValid : Bool
  deriving DecidableEq

/-- The static variables, the two caches, the catalogs, and the messages sent so far. -/
structure Plugin where
  catalog : Catalog
  /-- `data->replication_sets`. -/
  replicationSets : List RepSet
  startupMessageSent : Bool
  slotGroup : Option SlotGroup
  slotGroupSkipXact : Bool
  slotGroupLastCommitTs : Int64
  repairMode : Bool
  relMetaCache : UInt32 → Option RelMetaCacheEntry
  invalidRelMetaCacheCnt : Nat
  repSetTableHash : RepSetTableHash
  txn : Option Txn
  raised : Bool
  sent : List Message

/-- The end of `pg_decode_startup`. -/
def Plugin.connect (catalog : Catalog) (replicationSets : List RepSet)
    (slotGroup : Option SlotGroup) : Plugin where
  catalog := catalog
  replicationSets := replicationSets
  startupMessageSent := false
  slotGroup := slotGroup
  slotGroupSkipXact := false
  slotGroupLastCommitTs := 0
  repairMode := false
  relMetaCache _ := none
  invalidRelMetaCacheCnt := 0
  repSetTableHash := .empty
  txn := none
  raised := false
  sent := []

abbrev Callback := EStateM ErrorData Plugin

def unlessThat (c : Bool) (x : Callback Unit) : Callback Unit := if c then pure () else x

/-- `OutputPluginWrite`, unless the writer raises. -/
def emit (c : Connection) (m : Message) : Callback Unit :=
  match c.publisher.write m with
  | .ok _ => modify fun s => { s with sent := s.sent ++ [m] }
  | .error e => throw e

def sendStartupMessage (c : Connection) : Callback Unit := do
  emit c (.startup c.startupParams)
  modify fun s => { s with startupMessageSent := true }

/-! ## The transaction callbacks -/

def Plugin.isTaken (s : Plugin) (txn : Txn) : Bool :=
  s.slotGroup.any fun group => txn.endLsn ≤ group.lastLsn

def Plugin.moveCommitTs (s : Plugin) (txn : Txn) : Plugin :=
  match s.slotGroup with
  | none => s
  | some group =>
    if group.lastCommitTs < txn.commitTime then
      { s with
        slotGroupLastCommitTs := group.lastCommitTs
        slotGroup := some { group with lastCommitTs := txn.commitTime } }
    else s

def Plugin.claim (s : Plugin) (txn : Txn) : Plugin :=
  { s with slotGroup := s.slotGroup.map fun group => { group with lastLsn := txn.endLsn } }

def originMessage (c : Connection) (txn : Txn) : Message :=
  if txn.originId = 0 then .origin c.myOutputNodeId txn.originLsn (some c.myOutputNodeName)
  else .origin txn.originId txn.originLsn (c.getNode txn.originId)

def sendReplicationOrigin (c : Connection) (txn : Txn) : Callback Unit := do
  emit c (originMessage c txn)
  let s ← get
  emit c (.commitOrder s.slotGroupLastCommitTs.toUInt64)

def pgDecodeBeginTxn (c : Connection) (txn : Txn) : Callback Unit := do
  modify fun s => { s with repairMode := false }
  let s ← get
  modify (·.moveCommitTs txn)
  if s.isTaken txn then modify fun s => { s with slotGroupSkipXact := true }
  else
    modify (·.claim txn)
    unlessThat s.startupMessageSent (sendStartupMessage c)
    emit c (.begin txn.finalLsn txn.commitTime.toUInt64 txn.xid)
    unlessThat (!c.forwardChangesetOrigins) (sendReplicationOrigin c txn)

/-- `RELMETACACHE_INITIAL_SIZE`. -/
def relmetacacheInitialSize : Nat := 128

def Plugin.relmetacachePrune (s : Plugin) : Plugin :=
  if s.invalidRelMetaCacheCnt < relmetacacheInitialSize / 2 then s
  else
    { s with
      relMetaCache := fun relid => (s.relMetaCache relid).filter (·.isValid)
      invalidRelMetaCacheCnt := 0 }

def pgDecodeCommitTxn (c : Connection) (txn : Txn) (commitLsn : UInt64) : Callback Unit := do
  modify fun s => { s with repairMode := false }
  let s ← get
  if s.slotGroupSkipXact then modify fun s => { s with slotGroupSkipXact := false }
  else
    emit c (.commit commitLsn txn.endLsn txn.commitTime.toUInt64)
    modify (·.relmetacachePrune)

/-! ## Messages in the WAL -/

/-- `SPOCK_MESSAGE_PREFIX`: the letters of `Spock`. -/
def spockMessage : CString := ⟨[83, 112, 111, 99, 107], by decide⟩

/-- The first four bytes of a message, in the order of the machine. -/
def mtype (message : List UInt8) : Nat := Bytes.ofLe (message.take 4)

/-- `SPOCK_SYNC_EVENT_MSG`, for Spock and long enough. -/
def isSyncEvent (pref : CString) (message : List UInt8) : Bool :=
  pref == spockMessage && 4 ≤ message.length && mtype message == 3

/-- `SPOCK_REPAIR_MODE_ON` (1) and `SPOCK_REPAIR_MODE_OFF` (2) have no further fields. -/
def pgDecodeMessage (c : Connection) (xid : UInt32) (lsn : UInt64) (transactional : Bool)
    (pref : CString) (message : List UInt8) : Callback Unit :=
  if pref ≠ spockMessage then pure ()
  else if message.length < 4 then pure ()
  else
    match mtype message with
    | 1 => unlessThat (message.length != 4) (modify fun s => { s with repairMode := true })
    | 2 => unlessThat (message.length != 4) (modify fun s => { s with repairMode := false })
    | 3 => do
      let s ← get
      unlessThat s.startupMessageSent (sendStartupMessage c)
      emit c (.message xid lsn transactional pref message)
    | _ => pure ()

/-! ## The filter -/

def Change.row : Change → Option Deformed
  | .insert newtuple => some newtuple
  | .update _ newtuple => some newtuple
  | .delete oldtuple => oldtuple

def allowsAction (actions : Actions) : Change → Bool
  | .insert _ => actions.replicateInsert
  | .update .. => actions.replicateUpdate
  | .delete _ => actions.replicateDelete

def passesFilters (filters : List RowFilter) (change : Change) : Bool :=
  filters.isEmpty || change.row.any fun row => filters.all fun rowFilter => rowFilter row == some true

/-- `get_table_replication_info` for the sets of the connection. -/
def tableReplicationInfo (c : Connection) (rel : Relation) : Callback TableRepInfo := do
  let s ← get
  let r := getTableReplicationInfo c.uninit s.repSetTableHash (s.catalog.repsetTables rel.relid)
    c.localNodeId rel s.replicationSets
  modify fun s => { s with repSetTableHash := r.2 }
  match r.1 with
  | .ok info => pure info
  | .error e => throw e

def Connection.isTable (c : Connection) (table : CString × CString) (rel : Relation) : Bool :=
  rel.relname.toCString == table.2 && rel.relnamespace == c.getNamespaceOid table.1

/-- A message of the queue goes to the connections that have one of its sets, or to all. -/
def queueFilter (c : Connection) (repsets : List RepSet) : Change → Bool
  | .insert newtuple =>
    match c.queuedMessageFromTuple newtuple with
    | none => true
    | some setnames => setnames.any fun setname => repsets.any fun rs => setname == rs.name
  | .update .. | .delete _ => false

def updateActions (replicated : RepSet) : List RepSet → List RepSet
  | [] => []
  | rs :: repsets =>
    if rs.id = replicated.id then { rs with toActions := replicated.toActions } :: repsets
    else rs :: updateActions replicated repsets

/-- A change of `spock.replication_set`. The table has a primary key, so a delete has an old
tuple. -/
def replicationSetChanged (c : Connection) : Change → Callback Unit
  | .update _ newtuple =>
    modify fun s => { s with
      replicationSets := updateActions (c.replicationSetFromTuple newtuple) s.replicationSets }
  | .delete (some oldtuple) => do
    let s ← get
    match s.replicationSets.find? fun rs => rs.id == (c.replicationSetFromTuple oldtuple).id with
    | some rs => throw (elogError ("replication set \"" ++ CString.toString rs.name ++
        "\" used by this connection was deleted, existing"))
    | none => pure ()
  | .delete none | .insert _ => pure ()

/-- `spock_change_filter`: `none` if the change is not sent, else the column list. -/
def changeFilter (c : Connection) (rel : Relation) (change : Change) :
    Callback (Option (Option (List Nat))) := do
  let s ← get
  match c.replicateOnlyTable with
  | some table => pure (if c.isTable table rel then some none else none)
  | none =>
    if rel.relid = s.catalog.queueTableOid then
      pure (if queueFilter c s.replicationSets change then some none else none)
    else if rel.relid = s.catalog.replicationSetRelOid then do
      replicationSetChanged c change
      pure none
    else do
      let info ← tableReplicationInfo c rel
      pure (if allowsAction info.toActions change && passesFilters info.rowFilter change then
        some info.attList else none)

/-! ## Changes and truncates -/

/-- `relmetacache_get_relation`. -/
def relmetacacheGetRelation : Option RelMetaCacheEntry → RelMetaCacheEntry
  | some entry => if entry.isValid then entry else ⟨false, true⟩
  | none => ⟨false, true⟩

def Plugin.setRelMeta (s : Plugin) (relid : UInt32) (entry : RelMetaCacheEntry) : Plugin :=
  { s with relMetaCache := Function.update s.relMetaCache relid (some entry) }

def maybeSendSchema (c : Connection) (rel : Relation) : Callback Unit := do
  let s ← get
  let entry := relmetacacheGetRelation (s.relMetaCache rel.relid)
  modify (·.setRelMeta rel.relid entry)
  unlessThat entry.isCached do
    let info ← tableReplicationInfo c rel
    emit c (.relation rel info.attList)
    modify (·.setRelMeta rel.relid { entry with isCached := true })

def sendChange (c : Connection) (rel : Relation) (attList : Option (List Nat)) :
    Change → Callback Unit
  | .insert newtuple => emit c (.insert rel newtuple attList)
  | .update oldtuple newtuple => emit c (.update rel oldtuple newtuple attList)
  | .delete (some oldtuple) => emit c (.delete rel oldtuple attList)
  | .delete none => pure ()

def pgDecodeChange (c : Connection) (relid : UInt32) (change : Change) : Callback Unit := do
  let s ← get
  unlessThat (s.slotGroupSkipXact || s.repairMode) do
    let filtered ← changeFilter c (s.catalog.relation relid) change
    match filtered with
    | none => pure ()
    | some attList =>
      maybeSendSchema c (s.catalog.relation relid)
      sendChange c (s.catalog.relation relid) attList change

def canReplicateTruncate (repsets : List RepSet) : Bool := repsets.any (·.replicateTruncate)

/-- `get_table_replication_sets` for the node of the connection. -/
def tableReplicationSets (c : Connection) (relid : UInt32) : Callback (List RepSet) := do
  let s ← get
  match s.catalog.getTableReplicationSets c.localNodeId relid with
  | .ok repsets => pure repsets
  | .error e => throw e

/-- The loop of `pg_decode_truncate`: the ids that are sent. -/
def truncateLoop (c : Connection) : List UInt32 → Callback (List UInt32)
  | [] => pure []
  | relid :: relids => do
    let repsets ← tableReplicationSets c relid
    if canReplicateTruncate repsets then
      let s ← get
      maybeSendSchema c (s.catalog.relation relid)
      let rest ← truncateLoop c relids
      pure (relid :: rest)
    else truncateLoop c relids

def pgDecodeTruncate (c : Connection) (relids : List UInt32) (cascade restartSeqs : Bool) :
    Callback Unit := do
  let s ← get
  unlessThat (s.slotGroupSkipXact || s.repairMode) do
    let relids ← truncateLoop c relids
    unlessThat relids.isEmpty (emit c (.truncate relids cascade restartSeqs))

/-! ## Invalidation -/

/-- `relmetacache_invalidation_cb`: the entry of that id, which for `InvalidOid` does not exist. -/
def Plugin.relmetacacheInvalidationCb (s : Plugin) (relid : UInt32) : Plugin :=
  { s with
    relMetaCache := Function.update s.relMetaCache relid
      ((s.relMetaCache relid).map fun entry => { entry with isValid := false })
    invalidRelMetaCacheCnt :=
      if (s.relMetaCache relid).isSome then s.invalidRelMetaCacheCnt + 1 else s.invalidRelMetaCacheCnt }

def Plugin.invalidated (s : Plugin) (relid : UInt32) (catalog : Catalog) : Plugin :=
  { s.relmetacacheInvalidationCb relid with
    catalog := catalog
    repSetTableHash := repsetRelcacheInvalidateCallback relid s.repSetTableHash }

/-! ## Decoding -/

inductive Event where
  | begin (txn : Txn)
  | change (relid : UInt32) (change : Change)
  | truncate (relids : List UInt32) (cascade restartSeqs : Bool)
  | message (lsn : UInt64) (pref : CString) (message : List UInt8)
  | commit (commitLsn : UInt64)
  /-- A message that is not transactional; it may still have been written under some id. -/
  | standalone (xid : UInt32) (lsn : UInt64) (pref : CString) (message : List UInt8)
  /-- Other members of the slot group have moved it on. -/
  | slotGroup (group : SlotGroup)
  /-- A relation or the sets it is in have changed, and its relcache entry is invalidated. -/
  | invalidate (rel : Relation) (rows : List RepSetTable)
  /-- The invalidation with `InvalidOid`, after any changes. -/
  | invalidateAll (catalog : Catalog)
  /-- `spock.replication_set` has changed. -/
  | repsets (repsets : UInt32 → Option RepSet)

def ended : EStateM.Result ErrorData Plugin Unit → Plugin
  | .ok _ s => s
  | .error _ s => { s with raised := true }

/-- What can happen next. The callbacks of a transaction are made between its begin and its commit,
and those for messages that are not transactional between transactions. -/
def Plugin.step (c : Connection) (s : Plugin) (e : Event) : Option Plugin :=
  if s.raised then none
  else
    match e, s.txn with
    | .begin txn, none => some (ended (pgDecodeBeginTxn c txn { s with txn := some txn }))
    | .change relid change, some _ => some (ended (pgDecodeChange c relid change s))
    | .truncate relids cascade restartSeqs, some _ =>
      some (ended (pgDecodeTruncate c relids cascade restartSeqs s))
    | .message lsn pref message, some txn =>
      some (ended (pgDecodeMessage c txn.xid lsn true pref message s))
    | .commit commitLsn, some txn =>
      some { ended (pgDecodeCommitTxn c txn commitLsn s) with txn := none }
    | .standalone xid lsn pref message, none =>
      some (ended (pgDecodeMessage c xid lsn false pref message s))
    | .slotGroup group, _ => some { s with slotGroup := s.slotGroup.map fun _ => group }
    | .invalidate rel rows, _ =>
      (s.catalog.alter rel rows).map fun catalog => s.invalidated rel.relid catalog
    | .invalidateAll catalog, _ => some (s.invalidated invalidOid catalog)
    | .repsets repsets, _ => some { s with catalog := { s.catalog with repsets := repsets } }
    | _, _ => none

inductive Stepped (c : Connection) (s : Plugin) : Event → Plugin → Prop where
  | begin (txn : Txn) (htxn : s.txn = none) :
      Stepped c s (.begin txn) (ended (pgDecodeBeginTxn c txn { s with txn := some txn }))
  | change (relid : UInt32) (change : Change) (txn : Txn) (htxn : s.txn = some txn) :
      Stepped c s (.change relid change) (ended (pgDecodeChange c relid change s))
  | truncate (relids : List UInt32) (cascade restartSeqs : Bool) (txn : Txn)
      (htxn : s.txn = some txn) :
      Stepped c s (.truncate relids cascade restartSeqs)
        (ended (pgDecodeTruncate c relids cascade restartSeqs s))
  | message (lsn : UInt64) (pref : CString) (message : List UInt8) (txn : Txn)
      (htxn : s.txn = some txn) :
      Stepped c s (.message lsn pref message)
        (ended (pgDecodeMessage c txn.xid lsn true pref message s))
  | commit (commitLsn : UInt64) (txn : Txn) (htxn : s.txn = some txn) :
      Stepped c s (.commit commitLsn)
        { ended (pgDecodeCommitTxn c txn commitLsn s) with txn := none }
  | standalone (xid : UInt32) (lsn : UInt64) (pref : CString) (message : List UInt8)
      (htxn : s.txn = none) :
      Stepped c s (.standalone xid lsn pref message)
        (ended (pgDecodeMessage c xid lsn false pref message s))
  | slotGroup (group : SlotGroup) :
      Stepped c s (.slotGroup group) { s with slotGroup := s.slotGroup.map fun _ => group }
  | invalidate (rel : Relation) (rows : List RepSetTable) (catalog : Catalog)
      (hcatalog : s.catalog.alter rel rows = some catalog) :
      Stepped c s (.invalidate rel rows) (s.invalidated rel.relid catalog)
  | invalidateAll (catalog : Catalog) :
      Stepped c s (.invalidateAll catalog) (s.invalidated invalidOid catalog)
  | repsets (repsets : UInt32 → Option RepSet) :
      Stepped c s (.repsets repsets) { s with catalog := { s.catalog with repsets := repsets } }

theorem stepped_of_step {c : Connection} {s s' : Plugin} {e : Event} (h : s.step c e = some s') :
    s.raised = false ∧ Stepped c s e s' := by
  unfold Plugin.step at h
  split at h
  · cases h
  · rename_i hraised
    refine ⟨Bool.eq_false_iff.2 hraised, ?_⟩
    split at h
    · rename_i txn htxn
      cases h
      exact .begin txn htxn
    · rename_i relid change txn htxn
      cases h
      exact .change relid change txn htxn
    · rename_i relids cascade restartSeqs txn htxn
      cases h
      exact .truncate relids cascade restartSeqs txn htxn
    · rename_i lsn pref message txn htxn
      cases h
      exact .message lsn pref message txn htxn
    · rename_i commitLsn txn htxn
      cases h
      exact .commit commitLsn txn htxn
    · rename_i xid lsn pref message htxn
      cases h
      exact .standalone xid lsn pref message htxn
    · cases h
      exact .slotGroup _
    · obtain ⟨catalog, hcatalog, rfl⟩ := Option.map_eq_some_iff.1 h
      exact .invalidate _ _ catalog hcatalog
    · cases h
      exact .invalidateAll _
    · cases h
      exact .repsets _
    · cases h

theorem ended_of_ends {x : Callback Unit} {s : Plugin} {P : Plugin → Prop}
    (h : Outcome.Ends x s (fun _ s' => P s') fun _ s' => P { s' with raised := true }) :
    P (ended (x s)) := by
  unfold Outcome.Ends at h
  cases hx : x s with
  | ok | error =>
    rw [hx] at h
    exact h

section Sample

def sampleConnection (replicateOnlyTable : Option (CString × CString)) : Connection where
  localNodeId := 1
  replicateOnlyTable := replicateOnlyTable
  forwardChangesetOrigins := true
  startupParams := []
  myOutputNodeId := 1
  myOutputNodeName := cString [110]
  publisher :=
    { version := 5
      insertLsn := 0
      allowInternalBasetypes := false
      allowBinaryBasetypes := false
      getNamespaceName := fun _ => some (.letter 110)
      searchType := fun _ => none }
  getNamespaceOid _ := 1
  getNode _ := none
  queuedMessageFromTuple _ := none
  replicationSetFromTuple _ := sampleSet 0 ⟨false, false, false, false⟩
  uninit := ⟨false, .zero⟩

def sampleTxn (xid : UInt32) (endLsn : UInt64) : Txn := ⟨xid, endLsn - 1, endLsn, 0, 0, 0⟩

def sampleName : CString × CString := (cString [110], cString [116])

def sampleRow : Deformed := fun _ => none

end Sample

end Spock.Output
