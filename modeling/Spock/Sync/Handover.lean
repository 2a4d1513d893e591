import Spock.Lib.Runs
import Spock.Worker.Position

/-!
# Spock — the handover of a table from its sync worker to the main worker

A table is synchronised next to a running subscription. A sync worker of its own copies it in the
snapshot of a new slot and then follows the stream of that slot, for this table only, up to where
the main apply worker is; from there on the main worker applies its changes. The two agree through
the status of the table in `spock.local_sync_status`, the sync worker's `replay_stop_lsn` in shared
memory, and the list `SyncingTables` that the main worker keeps of the statuses it has last read.
-/

namespace Spock.Sync

open Runs

/-! ## State -/

/-- `SYNC_STATUS_*`. -/
inductive Status where
  | init
  | started
  | data
  | syncwait
  | catchup
  | syncdone
  | ready
  deriving DecidableEq

/-- `SpockSyncStatus`, of one table. -/
structure SpockSyncStatus where
  status : Status
  statuslsn : Nat
  deriving DecidableEq

/-- A committed transaction of the publisher. `commitLsn` is the start of its commit record. -/
structure Txn where
  commitLsn : Nat
  endLsn : Nat
  changes : Bool
  tableSync : Bool
  commitLsn_pos : 0 < commitLsn
  commitLsn_lt : commitLsn < endLsn
  deriving DecidableEq

/-- Where the main worker is: in its loop, before the call of `process_syncing_tables(end_lsn)`, or
in the wait for the sync worker inside it. -/
inductive Pc where
  | loop
  | processing (endLsn : Nat)
  | waiting (endLsn : Nat)
  deriving DecidableEq

/-- Both workers, what is durable, the publisher's transactions, and which of them the table on the
subscriber has through the copy, the catch-up stream and the main worker. -/
structure System where
  -- the publisher
  wal : List Txn
  walEnd : Nat
  -- `spock.local_sync_status`, and whether the table was synchronised with the subscription
  sync : Option SpockSyncStatus
  initially : Bool
  -- the sync worker, by its `replay_stop_lsn`, and the next transaction of its stream
  worker : Option Nat
  cursor : Nat
  -- the main worker
  pc : Pc
  next : Nat
  position : Position
  syncingTables : Option SpockSyncStatus
  syncPending : Bool
  failed : Bool
  -- the transactions whose changes the table has, and through what
  copied : List Nat
  caughtUp : List Nat
  applied : List Nat
  deriving DecidableEq

namespace System

def times (s : System) (i : Nat) : Nat := s.copied.count i + s.caughtUp.count i + s.applied.count i

/-! ## The main worker -/

/-- `should_apply_changes_for_rel`. -/
def shouldApplyChangesForRel (syncingTables : Option SpockSyncStatus) (sessionLsn : Nat) : Bool :=
  syncingTables.all fun sync =>
    sync.status == .ready || (sync.status == .syncdone && sync.statuslsn ≤ sessionLsn)

/-- BEGIN to COMMIT of the next transaction. A TABLESYNC message creates the table's status, if it
has none; the list is not read again before the transaction is over. -/
def handleTxn (s : System) (t : Txn) (o : Ending) : System :=
  let begun := s.position.begin t.commitLsn
  let applies := shouldApplyChangesForRel s.syncingTables begun.sessionLsn && t.changes
  let queues := t.tableSync && s.sync.isNone
  { s with
    sync := if queues then some ⟨.init, 0⟩ else s.sync
    pc := .processing t.endLsn
    next := s.next + 1
    position := begun.settle t.endLsn o
    syncPending := s.syncPending || queues
    failed := false
    applied := if applies then s.applied ++ [s.next] else s.applied }

/-- What the local side of a transaction can be: a change that is applied and a new status write
WAL, and a change that is skipped has at least started a transaction. -/
def canEnd (s : System) (t : Txn) (o : Ending) : Bool :=
  let applies := shouldApplyChangesForRel s.syncingTables t.commitLsn && t.changes
  let queues := t.tableSync && s.sync.isNone
  (!(applies || queues) || o == .wrote) && (!t.changes || o != .empty)

/-- `reread_unsynced_tables`, if it is pending. -/
def rereadUnsyncedTables (s : System) : System :=
  if s.syncPending then
    { s with syncPending := false, syncingTables := s.sync.filter (·.status != .ready) }
  else s

/-- `start_sync_worker`, unless some sync worker is running. -/
def startSyncWorker (s : System) (busy : Bool) : System :=
  if s.worker.isNone && !busy then { s with worker := some s.position.sessionLsn } else s

def setTableSyncStatus (s : System) (sync : SpockSyncStatus) : System :=
  { s with sync := some sync, position := s.position.commit }

/-- The table has been handed over, once `end_lsn` has reached where its sync worker stopped. -/
def finishTable (s : System) (sync : SpockSyncStatus) (endLsn : Nat) : System :=
  if sync.statuslsn ≤ endLsn then
    { s.setTableSyncStatus ⟨.ready, endLsn⟩ with syncingTables := none }
  else { s with syncingTables := some sync }

/-- The loops of `process_syncing_tables`, for a table in the list whose status is `newsync`. -/
def processTable (s : System) (newsync : SpockSyncStatus) (endLsn : Nat) (busy : Bool) : System :=
  match newsync.status with
  | .syncwait =>
    if s.worker.any (· ≤ s.position.sessionLsn) then
      { s.setTableSyncStatus { newsync with status := .catchup } with
        worker := some s.position.sessionLsn
        syncingTables := some { newsync with status := .catchup }
        pc := .waiting endLsn }
    else startSyncWorker { s with syncingTables := some newsync } busy
  | .syncdone => s.finishTable newsync endLsn
  | .ready => { s with syncingTables := none }
  | .init | .started | .data | .catchup =>
    startSyncWorker { s with syncingTables := some newsync } busy

/-- `process_syncing_tables`. -/
def processSyncingTables (s : System) (endLsn : Nat) (busy : Bool) : System :=
  let s := { s.rereadUnsyncedTables with pc := .loop }
  match s.syncingTables, s.sync with
  | none, _ => s
  | some _, none => { s with syncingTables := none }
  | some _, some newsync => s.processTable newsync endLsn busy

def firstFrom (wal : List Txn) (lsn : Nat) : Nat := wal.findIdx fun t => lsn ≤ t.commitLsn

def restart (s : System) : System :=
  { s with
    pc := .loop
    next := firstFrom s.wal s.position.remoteLsn
    position := { s.position with sessionLsn := 0 }
    syncingTables := none
    syncPending := true
    failed := false }

/-! ## The sync worker -/

/-- The snapshot of a slot has the transactions that committed before its LSN. -/
def snapshot (s : System) (lsn : Nat) : List Nat :=
  (List.range s.wal.length).filter fun i => s.wal[i]?.any fun t => t.changes && t.endLsn ≤ lsn

/-- The next transaction of the catch-up stream. The worker is done with the first one that ends at
or after `replay_stop_lsn`. -/
def catchUp (s : System) (stop : Nat) (t : Txn) : System :=
  let s := { s with
    cursor := s.cursor + 1
    caughtUp := if t.changes then s.caughtUp ++ [s.cursor] else s.caughtUp }
  if stop ≤ t.endLsn then { s with sync := some ⟨.syncdone, t.endLsn⟩, worker := none } else s

/-- `spock_sync_main`: the slot and its snapshot, the copy, and after the handshake with the main
worker the catch-up stream. -/
def spockSyncMain (s : System) : Option System :=
  match s.worker, s.sync with
  | some stop, some sync =>
    match sync.status with
    | .init => some { s with sync := some ⟨.started, 0⟩ }
    | .started => some { s with sync := some ⟨.data, s.walEnd⟩, cursor := s.wal.length }
    | .data => some { s with sync := some { sync with status := .syncwait },
                             copied := s.snapshot sync.statuslsn }
    | .syncwait => none
    | .catchup =>
      if stop ≤ sync.statuslsn then
        some { s with sync := some { sync with status := .syncdone }, worker := none }
      else s.wal[s.cursor]?.map (s.catchUp stop)
    | .syncdone | .ready => some { s with worker := none }
  | _, _ => none

end System

/-! ## Events -/

inductive Event where
  | publish (t : Txn)
  | grow (walEnd : Nat)
  | txn (o : Ending)
  /-- The main worker fails to, before or after `handle_commit` has set the session's position. -/
  | fail (staged : Bool)
  /-- The main worker is idle, or (with `spock.readonly = 'all'`) has not begun to replay. -/
  | idle (lastReceived : Nat)
  /-- `process_syncing_tables`; `busy` says that the sync worker of another table is running. -/
  | process (busy : Bool)
  | wake
  /-- The wait ends with an error: the sync worker is found to be gone before its status is read. -/
  | giveUp
  | own
  | restart
  | sync
  /-- `spock.sub_resync_table` with truncate. -/
  | resync
  deriving DecidableEq

namespace System

/-- A published transaction changes the table only if a TABLESYNC message was queued before, or the
table was synchronised with the subscription. -/
def announces (s : System) (t : Txn) : Bool :=
  !t.changes || s.initially || t.tableSync || s.wal.any (·.tableSync)

/-- What the worker has received does not run ahead of the transactions that it has not handled. -/
def hasReceived (s : System) (lsn : Nat) : Bool :=
  lsn ≤ s.walEnd && (s.wal.drop (if s.failed then s.next + 1 else s.next)).all (lsn < ·.endLsn)

/-- The events, with restarts of the main worker at any point. -/
def step (s : System) : Event → Option System
  | .publish t =>
    if s.walEnd ≤ t.commitLsn ∧ s.announces t = true then
      some { s with wal := s.wal ++ [t], walEnd := t.endLsn }
    else none
  | .grow walEnd => if s.walEnd ≤ walEnd then some { s with walEnd := walEnd } else none
  | .txn o =>
    match s.pc, s.wal[s.next]? with
    | .loop, some t => if s.canEnd t o then some (s.handleTxn t o) else none
    | _, _ => none
  | .fail staged =>
    match s.pc, s.wal[s.next]? with
    | .loop, some t =>
      some { s with
        position := { s.position with sessionLsn := if staged then t.endLsn else t.commitLsn }
        syncPending := s.syncPending || t.tableSync
        failed := true }
    | _, _ => none
  | .idle lastReceived =>
    if s.pc = .loop ∧ s.hasReceived lastReceived = true then
      some { s with pc := .processing lastReceived }
    else none
  | .process busy =>
    match s.pc with
    | .processing endLsn => some (s.processSyncingTables endLsn busy)
    | _ => none
  | .wake =>
    match s.pc, s.sync with
    | .waiting endLsn, some sync =>
      if sync.status = .syncdone then some { s.finishTable sync endLsn with pc := .loop } else none
    | _, _ => none
  | .giveUp =>
    match s.pc, s.worker with
    | .waiting _, none => some { s with pc := .loop }
    | _, _ => none
  | .own => if s.pc = .loop then some { s with position := s.position.commit } else none
  | .restart => some s.restart
  | .sync => s.spockSyncMain
  | .resync =>
    if s.sync.any (·.status == .ready) then
      some { s with
        sync := some ⟨.init, 0⟩
        syncPending := true
        copied := []
        caughtUp := []
        applied := [] }
    else none

/-- A subscription whose table is synchronised later, by a TABLESYNC message. -/
def unsynced (position : Nat) : System where
  wal := []
  walEnd := position
  sync := none
  initially := false
  worker := none
  cursor := 0
  pc := .loop
  next := 0
  position := ⟨position, 0⟩
  syncingTables := none
  syncPending := true
  failed := false
  copied := []
  caughtUp := []
  applied := []

/-- A subscription that was synchronised as a whole, in a snapshot at `lsn`, and starts from
there. -/
def synced (wal : List Txn) (lsn : Nat) : System where
  wal := wal
  walEnd := lsn
  sync := some ⟨.ready, lsn⟩
  initially := true
  worker := none
  cursor := 0
  pc := .loop
  next := wal.length
  position := ⟨lsn, 0⟩
  syncingTables := none
  syncPending := true
  failed := false
  copied := (List.range wal.length).filter fun i => wal[i]?.any (·.changes)
  caughtUp := []
  applied := []

inductive Start : System → Prop
  | queued (position : Nat) : Start (unsynced position)
  | whole {wal : List Txn} {lsn : Nat} (hordered : wal.Pairwise fun t u => t.endLsn ≤ u.commitLsn)
    (hle : ∀ t ∈ wal, t.endLsn ≤ lsn) : Start (synced wal lsn)

end System

end Spock.Sync
