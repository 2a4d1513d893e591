import Spock.Pass.Message
import Spock.Worker.Handlers

/-!
# Spock — the handlers of a transaction's entries

`handle_insert`, `handle_update`, `handle_delete`, `handle_truncate`, `handle_relation`, the queue
handlers and `handle_message` in full: every mode of exception handling, every message kind and the
nesting of queued messages in the INSERT that brings them. A local transaction is the list of its
writes. What PostgreSQL does with a row, a TRUNCATE or a statement is a function of the writes so
far, which adds writes or raises; a subtransaction that raises adds none. The local catalogs are
functions of the statements so far: a queued `CREATE TABLE` gives the rows after it a table, and one
that was rolled back does not. What is known of the remote relations changes with each RELATION
message.
-/

namespace Spock.Pass

/-! ## Writes -/

/-- `SYNC_STATUS_*`. -/
inductive SyncState where
  | none
  | init
  | structureOnly
  | data
  | constraints
  | syncwait
  | started
  | catchup
  | syncdone
  | ready
  | failed
  deriving DecidableEq

/-- `SpockSyncStatus`, of this subscription. -/
structure SyncStatus where
  nspname : String
  relname : String
  status : SyncState
  statuslsn : Nat
  deriving DecidableEq

/-- A row of `spock.exception_log`; its columns on the origin are those of the transaction. -/
structure ExceptionLogRow where
  commandCounter : Nat
  schema : Option String
  table : Option String
  operation : String
  remoteOldTup : Option Tuple
  remoteNewTup : Option Tuple
  ddlStatement : Option String
  ddlUser : Option String
  errorMessage : String
  deriving DecidableEq

inductive Write where
  | row (reloid : Nat) (tuple : Option Tuple)
  | statement (sql : String)
  | sequence (reloid : Nat) (lastValue : Int)
  | syncStatus (row : SyncStatus)
  | exceptionLog (row : ExceptionLogRow)
  | skipLsn
  deriving DecidableEq

def Write.statement? : Write → Option String
  | .statement sql => some sql
  | _ => none

/-! ## The environment of a pass -/

/-- `QueuedMessage`. -/
structure QueuedMessage where
  messageType : Char
  role : String
  message : Jsonb

/-- `QUEUE_COMMAND_TYPE_*`; a DDL command is handled as SQL. -/
inductive QueueCommand where
  | sql
  | tablesync
  | sequence
  | unknown (messageType : Char)
  deriving DecidableEq

def QueuedMessage.command (q : QueuedMessage) : QueueCommand :=
  match q.messageType with
  | 'D' | 'Q' => .sql
  | 'A' => .tablesync
  | 'S' => .sequence
  | c => .unknown c

/-- A relation with the attributes `setval` looks at. -/
structure SequenceRelation where
  reloid : Nat
  nspname : String
  relname : String
  isSequence : Bool
  isLocalTemp : Bool
  minValue : Int
  maxValue : Int
  deriving DecidableEq

/-- What is fixed while the entries of one transaction are handled: the settings and statics that
`handle_begin` and the failed attempt left, what the statements of the transaction make of the local
catalogs, and what PostgreSQL does. -/
structure Env where
  sub : Subscription
  config : WorkerConfig
  useTryBlock : Bool
  isSkippingChanges : Bool
  -- our slot of the shared exception log; an empty message is none
  failedAction : Nat
  initialErrorMessage : String
  sessionOriginLsn : Nat
  -- whether `clear_subscription_skip_lsn` finds something to clear
  clearsSkip : Bool
  queueRelid : Nat
  syncingTables : List SyncStatus
  -- the catalogs, after the statements that were executed so far
  localSyncStatus : List String → List SyncStatus
  tables : List String → List LocalTable
  deltaFunctions : List String → List String
  namespaces : List String → List String
  sequences : List String → List SequenceRelation
  -- PostgreSQL
  queuedMessageFromTuple : Tuple → Except Fault QueuedMessage
  jsonbToCString : Jsonb → String
  pgStrtoint64 : String → Except Fault Int
  heapInsert : List Write → OpenedRelation → Tuple → Except Fault (List Write)
  heapUpdate : List Write → OpenedRelation → Tuple → Tuple → Except Fault (List Write)
  heapDelete : List Write → OpenedRelation → Tuple → Except Fault (List Write)
  executeTruncateGuts : List Write → List OpenedRelation → Bool → Except Fault (List Write)
  executeSqlCommand : List Write → String → String → Bool → Except Fault (List Write)

/-- TRANSDISCARD and SUB_DISABLE handle a failed transaction without applying anything. -/
def Env.dryRun (env : Env) : Bool :=
  env.useTryBlock && (env.config.exceptionBehaviour == .transdiscard ||
    env.config.exceptionBehaviour == .subDisable)

/-- The state of a pass. `xact` is the open transaction: whether it is read-only. `remote` is
`SpockRelationHash`, the latest entry of a relation first. `executed` are the queued messages that
were handled, with the action that brought each; no handler reads it. -/
structure State where
  remote : List RemoteRelation
  xact : Option Bool
  xactActionCounter : Nat
  exceptionCommandCounter : Nat
  xactHadException : Bool
  writes : List Write
  syncPending : Bool
  originAdvances : List Nat
  executed : List (Nat × Tuple)
  deriving DecidableEq

abbrev Handler := EStateM Raise State PUnit

def raiseRead {α : Type} : Except ErrorData α → EStateM Raise State α
  | .ok a => pure a
  | .error e => throw (.error ⟨e, false⟩)

def raiseFault {α : Type} : Except Fault α → EStateM Raise State α
  | .ok a => pure a
  | .error f => throw (.error f)

namespace State

/-- `begin_replication_step`: the first of a transaction starts it. -/
def beginReplicationStep (s : State) (env : Env) : State :=
  { s with xact := some (s.xact.getD env.dryRun) }

def countAction (s : State) : State := { s with xactActionCounter := s.xactActionCounter + 1 }

/-- What a row or a TRUNCATE begins with. -/
def beginAction (s : State) (env : Env) : State := (s.beginReplicationStep env).countAction

def countCommand (s : State) : State :=
  { s with exceptionCommandCounter := s.exceptionCommandCounter + 1 }

def setHadException (s : State) : State := { s with xactHadException := true }

def write (s : State) (l : List Write) : State := { s with writes := s.writes ++ l }

def execute (s : State) (tuple : Tuple) : State :=
  { s with executed := s.executed ++ [(s.xactActionCounter, tuple)] }

/-- `spock_relation_cache_update`. -/
def cacheUpdate (s : State) (r : RemoteRelation) : State := { s with remote := r :: s.remote }

/-- The statements executed so far. -/
def statements (s : State) : List String := s.writes.filterMap Write.statement?

end State

/-- The relations that can be resolved in a state. -/
def Env.catalog (env : Env) (s : State) : Catalog where
  remote := s.remote
  tables := env.tables s.statements
  deltaFunctions := env.deltaFunctions s.statements

/-! ## The exception log -/

/-- `unpack_sql_state`. -/
def unpackSqlState (code : Nat) : String :=
  String.ofList ((List.range 5).map fun i => Char.ofNat (48 + code / 64 ^ i % 64))

def sqlState : SqlErrCode → String
  | .internalError => "XX000"
  | .connectionFailure => "08006"
  | .connectionException => "08000"
  | .connectionDoesNotExist => "08003"
  | .adminShutdown => "57P01"
  | .protocolViolation => "08P01"
  | .invalidParameterValue => "22023"
  | .undefinedTable => "42P01"
  | .uniqueViolation => "23505"
  | .datatypeMismatch => "42804"
  | .invalidBinaryRepresentation => "22P03"
  | .readOnlySqlTransaction => "25006"
  | .other code => unpackSqlState code

/-- `errmsg_with_sqlstate`. -/
def errmsgWithSqlstate (e : ErrorData) : String :=
  if e.sqlerrcode = .internalError then e.message
  else s!"[SQLSTATE {sqlState e.sqlerrcode}] {e.message}"

/-- `get_exception_behaviour_name`. -/
def exceptionBehaviourName : ExceptionBehaviour → String
  | .discard => "discard"
  | .transdiscard => "transdiscard"
  | .subDisable => "sub_disable"

namespace Env

/-- `discard_collateral_message`. -/
def discardCollateralMessage (env : Env) (what : String) : String :=
  let name := exceptionBehaviourName env.config.exceptionBehaviour
  if env.failedAction ≠ 0 then
    s!"{name}: {what} discarded due to exception at command_counter {env.failedAction}"
  else if env.initialErrorMessage ≠ "" then
    s!"{name}: {what} discarded due to exception: {env.initialErrorMessage}"
  else s!"{name}: {what} discarded due to exception (root cause not captured)"

def initialError (env : Env) (s : State) : Option String :=
  if s.xactActionCounter = env.failedAction ∧ env.initialErrorMessage ≠ "" then
    some env.initialErrorMessage
  else none

end Env

/-- `add_entry_to_exception_log`: a statement is logged as DDL and without a relation. -/
def exceptionLogEntry (counter : Nat) (rel : Option OpenedRelation) (oldtup newtup : Option Tuple)
    (ddlStatement : Option String) (ddlUser : String) (operation errorMessage : String) :
    ExceptionLogRow :=
  match ddlStatement with
  | none =>
    ⟨counter, some ((rel.map (·.remote.nspname)).getD ""), some ((rel.map (·.remote.relname)).getD ""),
      operation, oldtup, newtup, none, none, errorMessage⟩
  | some sql => ⟨counter, none, none, "DDL", none, none, some sql, some ddlUser, errorMessage⟩

def State.logException (s : State) (env : Env) (failed : Bool) (row : ExceptionLogRow) : State :=
  s.write (if shouldLogException env.config failed then [.exceptionLog row] else [])

/-- `log_insert_exception`. -/
def logInsertException (env : Env) (failed : Bool) (errmsg : Option String)
    (rel : Option OpenedRelation) (oldtup newtup : Option Tuple) (actionName : String) : Handler :=
  modify fun s => s.logException env failed (exceptionLogEntry s.exceptionCommandCounter rel oldtup
    newtup none "" actionName (errmsg.getD (env.discardCollateralMessage "tuple")))

/-! ## Rows -/

/-- A row that was read: its relation, its tuples and what applying it does. -/
structure RowChange where
  rel : OpenedRelation
  oldtup : Option Tuple
  newtup : Option Tuple
  apply : List Write → Except Fault (List Write)

/-- `should_apply_changes_for_rel`. -/
def shouldApplyChangesForRel (env : Env) (rel : OpenedRelation) : Bool :=
  env.syncingTables.all fun sync =>
    !(sync.nspname == rel.remote.nspname && sync.relname == rel.remote.relname &&
      sync.status != .ready &&
        !(sync.status == .syncdone && sync.statuslsn ≤ env.sessionOriginLsn))

def applyOrRaise (apply : List Write → Except Fault (List Write)) : Handler := do
  let s ← get
  let l ← raiseFault (apply s.writes)
  modify (·.write l)

/-- `PG_TRY` around a subtransaction, in DISCARD mode: the error, if there was one. -/
def trySubTransaction (apply : List Write → Except Fault (List Write)) :
    EStateM Raise State (Option ErrorData) := do
  modify State.countCommand
  let s ← get
  match apply s.writes with
  | .ok l =>
    modify (·.write l)
    pure none
  | .error f =>
    modify State.setHadException
    pure (some f.error)

def discardRow (env : Env) (rel : Option OpenedRelation) (oldtup newtup : Option Tuple)
    (actionName : String) : Handler := do
  modify State.countCommand
  let s ← get
  logInsertException env false (env.initialError s) rel oldtup newtup actionName

def applyChange (env : Env) (rel : Option OpenedRelation) (oldtup newtup : Option Tuple)
    (apply : List Write → Except Fault (List Write)) (actionName : String) : Handler := do
  if env.useTryBlock then
    if env.dryRun then discardRow env rel oldtup newtup actionName
    else
      match ← trySubTransaction apply with
      | none => pure ⟨⟩
      | some e => logInsertException env true (some (errmsgWithSqlstate e)) rel oldtup newtup actionName
  else applyOrRaise apply

def logMissingRelation (env : Env) (actionName : String) : Handler := do
  modify fun s => s.setHadException.countCommand
  logInsertException env true (some "Spock can't find relation") none none none actionName

/-- The common part of the row handlers: the change, if it got as far as being applied. -/
def handleRow (env : Env) (actionName : String) (read : Except ErrorData (Option RowChange)) :
    EStateM Raise State (Option RowChange) := do
  modify (·.beginAction env)
  match ← raiseRead read with
  | none =>
    logMissingRelation env actionName
    pure none
  | some c =>
    if shouldApplyChangesForRel env c.rel then
      applyChange env (some c.rel) c.oldtup c.newtup c.apply actionName
      pure (some c)
    else pure none

/-! ## Queued messages -/

def SyncStatus.isOf (r : SyncStatus) (rv : String × String) : Bool :=
  r.nspname == rv.1 && r.relname == rv.2

def Write.isSyncStatusOf (rv : String × String) : Write → Bool
  | .syncStatus r => r.isOf rv
  | _ => false

/-- `get_table_sync_status` finds a row. -/
def hasTableSyncStatus (env : Env) (s : State) (rv : String × String) : Bool :=
  (env.localSyncStatus s.statements).any (·.isOf rv) || s.writes.any (·.isSyncStatusOf rv)

/-- `handle_table_sync`. -/
def handleTableSync (env : Env) (q : QueuedMessage) : Handler := do
  let rv ← raiseRead (parseRelationMessage env.sub q.message)
  let s ← get
  if hasTableSyncStatus env s rv then pure ⟨⟩
  else
    modify fun s => { s.write [.syncStatus ⟨rv.1, rv.2, .init, 0⟩] with syncPending := true }

/-- `setval_oid`. A read-only transaction may only set temporary sequences. -/
def setvalOid (sequences : List SequenceRelation) (readOnly : Bool) (reloid : Nat) (value : Int) :
    Except Fault (List Write) :=
  match sequences.find? (·.reloid == reloid) with
  | none => throw ⟨⟨.undefinedTable, s!"could not open relation with OID {reloid}"⟩, false⟩
  | some seq =>
    -- ERRCODE_WRONG_OBJECT_TYPE, ERRCODE_NUMERIC_VALUE_OUT_OF_RANGE
    if !seq.isSequence then throw ⟨⟨.other 151027844, s!"\"{seq.relname}\" is not a sequence"⟩, false⟩
    else if !seq.isLocalTemp && readOnly then
      throw ⟨⟨.readOnlySqlTransaction, "cannot execute setval() in a read-only transaction"⟩, false⟩
    else if value < seq.minValue ∨ seq.maxValue < value then
      throw ⟨⟨.other 50331778, (s!"setval: value {value} is out of bounds for sequence " ++
        s!"\"{seq.relname}\" ({seq.minValue}..{seq.maxValue})")⟩, false⟩
    else pure [.sequence reloid value]

/-- `handle_sequence`. -/
def handleSequence (env : Env) (q : QueuedMessage) : Handler := do
  let (nspname, relname, lastValue) ← raiseRead (parseSequenceMessage env.sub q.message)
  let s ← get
  -- ERRCODE_UNDEFINED_SCHEMA
  if nspname ∉ env.namespaces s.statements then
    throw (.error ⟨⟨.other 1411, s!"schema \"{nspname}\" does not exist"⟩, false⟩)
  else
    let sequences := env.sequences s.statements
    let found := sequences.find? fun r => r.nspname == nspname && r.relname == relname
    let value ← raiseFault (env.pgStrtoint64 lastValue)
    applyOrRaise fun _ =>
      setvalOid sequences (s.xact.getD false) ((found.map (·.reloid)).getD 0) value

/-- `handle_sql`, with the statement it extracted. -/
def handleSql (env : Env) (q : QueuedMessage) (txJustStarted : Bool) (writes : List Write) :
    Except Fault (List Write) :=
  match extractSql env.sub q.message with
  | .ok sql => env.executeSqlCommand writes sql q.role txJustStarted
  | .error e => throw ⟨e, false⟩

def logSql (env : Env) (failed : Bool) (sql : Option String) (role errorMessage : String) : Handler :=
  modify fun s => s.logException env failed
    (exceptionLogEntry s.exceptionCommandCounter none none none sql role "SQL" errorMessage)

/-- `handle_sql_or_exception`. A statement that succeeds in DISCARD mode is logged too, if
everything is. -/
def handleSqlOrException (env : Env) (q : QueuedMessage) (txJustStarted : Bool) : Handler := do
  modify (·.beginReplicationStep env)
  if env.useTryBlock then
    if env.dryRun then
      modify State.countCommand
      let s ← get
      logSql env false (some (env.jsonbToCString q.message)) q.role
        ((env.initialError s).getD (env.discardCollateralMessage "statement"))
    else
      let sql := (extractSql env.sub q.message).toOption
      match ← trySubTransaction (handleSql env q txJustStarted) with
      | some e => logSql env true sql q.role (errmsgWithSqlstate e)
      | none =>
        let s ← get
        logSql env false sql q.role
          ((env.initialError s).getD (env.discardCollateralMessage "statement"))
  else applyOrRaise (handleSql env q txJustStarted)

/-- `handle_queued_message`. -/
def handleQueuedMessage (env : Env) (tuple : Tuple) (txJustStarted : Bool) : Handler := do
  modify (·.execute tuple)
  let q ← raiseFault (env.queuedMessageFromTuple tuple)
  match q.command with
  | .sql => handleSqlOrException env q txJustStarted
  | .tablesync => handleTableSync env q
  | .sequence => handleSequence env q
  | .unknown c => throw (spockError env.sub s!"unknown message type '{c}'")

/-! ## The entries -/

def insertChange (env : Env) (s : State) (m : InsertMessage) :
    Except ErrorData (Option RowChange) :=
  (spockReadInsert (env.catalog s) env.useTryBlock m).map fun r => r.map fun p =>
    ⟨p.1, none, some p.2, fun writes => env.heapInsert writes p.1 p.2⟩

/-- An INSERT into the queue is followed by its message. -/
def handleInserted (env : Env) (txJustStarted : Bool) : Option RowChange → Handler
  | none => pure ⟨⟩
  | some c =>
    if c.rel.table.reloid = env.queueRelid then
      handleQueuedMessage env (c.newtup.getD []) txJustStarted
    else pure ⟨⟩

/-- `handle_insert`. -/
def handleInsert (env : Env) (m : InsertMessage) : Handler := do
  if env.isSkippingChanges then pure ⟨⟩
  else
    let s ← get
    let c ← handleRow env "INSERT" (insertChange env s m)
    handleInserted env s.xact.isNone c

/-- The change of an UPDATE. Without an old tuple the new one identifies the row. -/
def updateChange (env : Env) (s : State) (m : UpdateMessage) :
    Except ErrorData (Option RowChange) :=
  (spockReadUpdate (env.catalog s) env.useTryBlock m).map fun r => r.map fun p =>
    ⟨p.1, p.2.1, some p.2.2, fun writes => env.heapUpdate writes p.1 (p.2.1.getD p.2.2) p.2.2⟩

/-- `handle_update`. -/
def handleUpdate (env : Env) (m : UpdateMessage) : Handler := do
  if env.isSkippingChanges then pure ⟨⟩
  else
    let s ← get
    let _ ← handleRow env "UPDATE" (updateChange env s m)

def deleteChange (env : Env) (s : State) (m : DeleteMessage) :
    Except ErrorData (Option RowChange) :=
  (spockReadDelete (env.catalog s) env.useTryBlock m).map fun r => r.map fun p =>
    ⟨p.1, some p.2, none, fun writes => env.heapDelete writes p.1 p.2⟩

/-- `handle_delete`. -/
def handleDelete (env : Env) (m : DeleteMessage) : Handler := do
  if env.isSkippingChanges then pure ⟨⟩
  else
    let s ← get
    let _ ← handleRow env "DELETE" (deleteChange env s m)

def openTruncated (env : Env) (cat : Catalog) : List Nat → Except ErrorData (List OpenedRelation)
  | [] => pure []
  | relid :: relids => do
    match ← spockRelationOpen cat relid with
    | none => throw ⟨.undefinedTable, s!"Spock can't find relation with oid {relid}"⟩
    | some rel =>
      let rels ← openTruncated env cat relids
      pure (if shouldApplyChangesForRel env rel then rel :: rels else rels)

structure TruncateMessage where
  relids : List Nat
  cascade : Bool
  restartSeqs : Bool
  deriving DecidableEq

/-- `apply_truncate`. The leaf partitions of a partitioned table go with it. -/
def applyTruncate (env : Env) (cat : Catalog) (m : TruncateMessage) (writes : List Write) :
    Except Fault (List Write) :=
  match openTruncated env cat m.relids with
  | .ok rels => env.executeTruncateGuts writes rels m.restartSeqs
  | .error e => throw ⟨e, false⟩

/-- `handle_truncate`. -/
def handleTruncate (env : Env) (m : TruncateMessage) : Handler := do
  if env.isSkippingChanges then pure ⟨⟩
  else
    let s ← get
    modify (·.beginAction env)
    applyChange env none none none (applyTruncate env (env.catalog s) m) "TRUNCATE"

structure WalMessageBody where
  lsn : Nat
  transactional : Bool
  messagePrefix : String
  mtype : Nat
  deriving DecidableEq

/-- `SPOCK_SYNC_EVENT_MSG`. -/
def spockSyncEventMsg : Nat := 3

/-- `handle_message`. -/
def handleMessage (m : WalMessageBody) : Handler :=
  if m.lsn = 0 ∨ m.messagePrefix ≠ "Spock" then throw .procExit
  else if m.mtype = spockSyncEventMsg then
    if m.transactional then pure ⟨⟩
    else modify fun s => { s with originAdvances := s.originAdvances ++ [m.lsn] }
  else throw (.error ⟨elogError s!"Spock custom WAL message: unknown message type {m.mtype}", false⟩)

/-- `handle_relation`. -/
def handleRelation (r : RemoteRelation) : Handler := modify (·.cacheUpdate r)

inductive PassEntry where
  | relation (r : RemoteRelation)
  | insert (m : InsertMessage)
  | update (m : UpdateMessage)
  | delete (m : DeleteMessage)
  | truncate (m : TruncateMessage)
  | message (m : WalMessageBody)

def handleEntry (env : Env) : PassEntry → Handler
  | .relation r => handleRelation r
  | .insert m => handleInsert env m
  | .update m => handleUpdate env m
  | .delete m => handleDelete env m
  | .truncate m => handleTruncate env m
  | .message m => handleMessage m

def handleEntries (env : Env) : List PassEntry → Handler
  | [] => pure ⟨⟩
  | e :: entries => do
    handleEntry env e
    handleEntries env entries

/-- `clear_subscription_skip_lsn`, from `handle_commit`. -/
def clearSubscriptionSkipLsn (env : Env) : Handler :=
  modify fun s => s.write (if s.xact.isSome && env.clearsSkip then [.skipLsn] else [])

/-- A pass over a transaction, from its first entry up to the local commit. -/
def pass (env : Env) (entries : List PassEntry) : Handler := do
  handleEntries env entries
  clearSubscriptionSkipLsn env

end Spock.Pass
