import Spock.Lib.Outcome
import Spock.Worker.State

/-!
# Spock — the message handlers of an apply worker

`handle_begin`, `handle_commit`, the row handlers and `handle_message`, with the `PG_CATCH` block
of `apply_work` that ends every error. A handler is an `EStateM` program: an error keeps the state
it was raised in, which is what makes the order of the statements of `handle_commit` matter. The
places where PostgreSQL code may raise are named (`CommitPoint`) and chosen by the environment.
-/

namespace Spock

abbrev Handler := EStateM Raise Node PUnit

def raiseIf : Option Fault → Handler
  | some f => throw (.error f)
  | none => pure ⟨⟩

def onlyIf (c : Bool) (x : Handler) : Handler := if c then x else pure ⟨⟩

/-- `elog(ERROR, "SPOCK %s: ...")` with the connection alive. -/
def spockError (sub : Subscription) (message : String) : Raise :=
  .error ⟨elogError ("SPOCK " ++ sub.name ++ ": " ++ message), false⟩

/-! ## `handle_begin` -/

/-- `strncmp(slot_name, MySubscription->name, strlen(MySubscription->name)) == 0`: a prefix. -/
def SpockExceptionLog.isFor (e : SpockExceptionLog) (name : String) : Bool :=
  name.toList.isPrefixOf e.slotName.toList

namespace Node

def slotIndex (n : Node) (sub : Subscription) : Option Nat :=
  n.exceptionLog.findIdx? (·.isFor sub.name)

def freeSlotIndex (n : Node) : Option Nat :=
  n.exceptionLog.findIdx? (·.slotName.isEmpty)

/-- `maybe_start_skipping_changes`. -/
def maybeStartSkippingChanges (n : Node) (finishLsn : Nat) : Node :=
  { n with
    skipXactFinishLsn :=
      if n.skiplsn = 0 ∨ n.skiplsn ≠ finishLsn then n.skipXactFinishLsn else finishLsn }

/-- The slot was found: an equal `commit_lsn` in it means that we errored and restarted. -/
def takeSlot (n : Node) (i commitLsn : Nat) : Node :=
  { n with
    firstBeginAtStartup := false
    myExceptionLogIndex := some i
    useTryBlock := n.useTryBlock || (n.exceptionLog[i]?.map (·.commitLsn)) == some commitLsn }

def fillSlot (n : Node) (sub : Subscription) (i commitLsn : Nat) : Node :=
  { n with
    firstBeginAtStartup := false
    myExceptionLogIndex := some i
    useTryBlock := false
    exceptionLog := n.exceptionLog.modify i fun e =>
      { e with slotName := sub.name, commitLsn := commitLsn } }

/-- The last lines of `handle_begin`. -/
def enterRemoteTransaction (n : Node) (commitLsn : Nat) : Node :=
  { n.modifyExceptionLog fun e => { e with commitLsn := commitLsn } with
    inRemoteTransaction := true }

end Node

/-- The search of the shared array at the first BEGIN. The second search, under the lock, sees
the same array: no other worker uses this subscription's name. -/
def findExceptionLogSlot (sub : Subscription) (commitLsn : Nat) : Handler := do
  let n ← get
  match n.slotIndex sub, n.freeSlotIndex with
  | some i, _ => modify (·.takeSlot i commitLsn)
  | none, some i => modify (·.fillSlot sub i commitLsn)
  | none, none =>
    modify fun n => { n with firstBeginAtStartup := false, useTryBlock := false }
    throw (spockError sub "unable to find an empty exception log slot.")

def handleBegin (sub : Subscription) (commitLsn : Nat) (fault : Option Fault) : Handler := do
  modify fun n => { n with xactActionCounter := 1, xactHadException := false }
  raiseIf fault
  modify (·.maybeStartSkippingChanges commitLsn)
  modify fun n => { n with sessionOriginLsn := commitLsn, forwarded := false, commitFailed := false }
  let n ← get
  onlyIf n.firstBeginAtStartup (findExceptionLogSlot sub commitLsn)
  modify (·.enterRemoteTransaction commitLsn)

/-! ## Row changes -/

/-- How a change goes: its relation is being synchronised, the operation succeeds (and writes the
row or leaves it, as the conflict resolution decides), its relation is missing, the operation
raises, or something before it does. -/
inductive ChangeResult where
  | skipped
  | ok (wrote : Bool)
  | missingRelation (relid : Nat)
  | failed (f : Fault)
  | raised (f : Fault)
  deriving DecidableEq

/-- `should_log_exception`. -/
def shouldLogException (config : WorkerConfig) (failed : Bool) : Bool :=
  config.exceptionLogging != .none &&
    (failed || config.exceptionLogging == .all ||
      config.exceptionBehaviour == .transdiscard || config.exceptionBehaviour == .subDisable)

namespace Node

/-- TRANSDISCARD and SUB_DISABLE handle the failed transaction without applying anything. -/
def dryRun (n : Node) : Bool :=
  n.useTryBlock && (n.config.exceptionBehaviour == .transdiscard ||
    n.config.exceptionBehaviour == .subDisable)

/-- `begin_replication_step`, and the action counter. -/
def beginReplicationStep (n : Node) : Node :=
  { n with
    xact := some (n.xact.getD ⟨[], false⟩)
    xactActionCounter := n.xactActionCounter + 1 }

def addEffects (n : Node) (l : List Effect) : Node :=
  { n with xact := n.xact.map fun x => { x with effects := x.effects ++ l } }

/-- `log_insert_exception`. -/
def logException (n : Node) (failed : Bool) (id : Nat) : Node :=
  n.addEffects (if shouldLogException n.config failed then [.logged n.sessionOriginLsn id] else [])

def setHadException (n : Node) : Node := { n with xactHadException := true }

end Node

/-- `handle_insert`, `handle_update`, `handle_delete` and `handle_truncate`. -/
def handleChange (id : Nat) (result : ChangeResult) : Handler := do
  let n ← get
  if n.isSkippingChanges then pure ⟨⟩
  else
    modify Node.beginReplicationStep
    match result with
    | .skipped => pure ⟨⟩
    | .raised f => throw (.error f)
    | .missingRelation relid =>
      if n.useTryBlock then modify (·.setHadException.logException true id)
      else throw (.error ⟨elogError s!"Spock can't find relation with oid {relid}", false⟩)
    | .ok wrote =>
      if n.dryRun then modify (·.logException false id)
      else if wrote then modify fun n => n.addEffects [.applied n.sessionOriginLsn id]
      else pure ⟨⟩
    | .failed f =>
      if n.dryRun then modify (·.logException false id)
      else if n.useTryBlock then modify (·.setHadException.logException true id)
      else throw (.error f)

/-! ## `handle_commit` -/

/-- The places where `handle_commit` may raise. -/
inductive CommitPoint where
  | wait
  | clearSkip
  | commit
  | forward
  | progress
  | syncStatus
  | tables
  deriving DecidableEq

/-- What the environment decides while COMMIT is handled: a config reload while waiting for the
predecessor, an error, and which of the worker's own transactions write WAL. -/
structure CommitEnv where
  reload : Option WorkerConfig
  fault : Option (CommitPoint × Fault)
  forwardWrites : Bool
  tablesWrite : Bool
  deriving DecidableEq

def CommitEnv.raiseAt (env : CommitEnv) (point : CommitPoint) : Handler :=
  raiseIf (env.fault.bind fun p => if p.1 = point then some p.2 else none)

namespace Node

def actionCommit (n : Node) : Node :=
  { n with actionIsCommit := true, xactActionCounter := n.xactActionCounter + 1 }

/-- `ProcessConfigFile`, when a reload is pending. -/
def reload (n : Node) (config : Option WorkerConfig) : Node :=
  { n with config := config.getD n.config }

/-- The skipped transaction is over: leave exception handling, and have a transaction to clear
the skip LSN in. -/
def finishSkipping (n : Node) : Node :=
  { n.clearExceptionLog n.useTryBlock with
    skipXactFinishLsn := 0
    useTryBlock := false
    xact := some (n.xact.getD ⟨[], false⟩) }

/-- `clear_subscription_skip_lsn`, inside the open transaction. -/
def clearSubscriptionSkipLsn (n : Node) : Node :=
  let clears := n.skiplsn != 0 && n.durable.subSkipLsn == n.skiplsn
  { n with xact := n.xact.map fun x => { x with clearsSkip := x.clearsSkip || clears } }

def advancesOrigin (n : Node) : Bool :=
  (!n.xactHadException && !(n.useTryBlock && n.config.exceptionBehaviour == .subDisable)) ||
    n.config.exceptionBehaviour == .discard || n.config.exceptionBehaviour == .transdiscard

def stageOriginLsn (n : Node) (endLsn : Nat) : Node :=
  { n with sessionOriginLsn := if n.advancesOrigin then endLsn else n.sessionOriginLsn }

def clearDiscarded (n : Node) : Node :=
  n.clearExceptionLog (!n.xactHadException && n.dryRun)

def ended (n : Node) (commitLsn endLsn : Nat) (skipped : Bool) : Ended where
  commitLsn := commitLsn
  endLsn := endLsn
  skipped := skipped
  hadException := n.xactHadException
  tried := n.useTryBlock
  behaviour := n.config.exceptionBehaviour
  failedBehaviour := if n.useTryBlock then n.failedBehaviour else none

def resetSkipLsn (clears : Bool) (d : Durable) : Durable :=
  { d with subSkipLsn := if clears then 0 else d.subSkipLsn }

/-- `CommitTransactionCommand` of the remote transaction. -/
def commitRemote (n : Node) (commitLsn endLsn : Nat) (skipped : Bool) : Node :=
  let x := n.xact.getD ⟨[], false⟩
  n.commitTransaction x.writesWal (resetSkipLsn x.clearsSkip) x.effects
    (some (n.ended commitLsn endLsn skipped))

def failCommit (n : Node) : Node := { n with commitFailed := true }

def mustDisable (n : Node) : Bool :=
  n.config.exceptionBehaviour == .subDisable && (n.xactHadException || n.useTryBlock)

def clearSavedMessage (n : Node) : Node :=
  n.modifyExceptionLog fun e =>
    if n.useTryBlock && e.initialErrorMessage.isSome then
      { e with initialErrorMessage := none, failedAction := 0 }
    else e

def trackCommit (n : Node) (endLsn : Nat) : Node :=
  { n with fb := n.fb.track n.xactLastCommitEnd endLsn }

def leaveRemoteTransaction (n : Node) : Node := { n with inRemoteTransaction := false }

/-- `XLogFlush(GetXLogWriteRecPtr())`. -/
def flushWal (n : Node) : Node := { n with walFlush := max n.walFlush n.walEnd }

/-- `apply_replay_queue_reset` and the resets around it. -/
def resetTransaction (n : Node) : Node :=
  { n with
    xactActionCounter := 0
    xactHadException := false
    queue := []
    replay := none
    useTryBlock := false
    failedBehaviour := none }

end Node

/-- What follows the local commit: in SUB_DISABLE mode the error that disables the subscription,
otherwise the entry of `lsn_mapping`. -/
def afterLocalCommit (sub : Subscription) (endLsn : Nat) : Handler := do
  let n ← get
  if n.mustDisable then
    modify (·.clearExceptionLog true)
    throw (spockError sub "disabling subscription due to exception in SUB_DISABLE mode")
  else modify fun n => n.clearSavedMessage.trackCommit endLsn

def commitStaged (sub : Subscription) (commitLsn endLsn : Nat) (skipped : Bool)
    (env : CommitEnv) : Handler := do
  onlyIf (env.fault.any (·.1 = .commit)) (modify Node.failCommit)
  env.raiseAt .commit
  modify (·.commitRemote commitLsn endLsn skipped)
  afterLocalCommit sub endLsn

/-- The local transaction of a remote one: clear the skip LSN, stage the origin, commit. -/
def commitLocally (sub : Subscription) (commitLsn endLsn : Nat) (skipped : Bool)
    (env : CommitEnv) : Handler := do
  modify Node.clearSubscriptionSkipLsn
  env.raiseAt .clearSkip
  modify fun n => (n.stageOriginLsn endLsn).clearDiscarded
  commitStaged sub commitLsn endLsn skipped env

/-- The local transaction, or for an empty transaction the advance of the origin. -/
def settle (sub : Subscription) (commitLsn endLsn : Nat) (skipped : Bool) (env : CommitEnv) :
    Handler := do
  let n ← get
  if n.xact.isSome then commitLocally sub commitLsn endLsn skipped env
  else modify (·.reploriginSessionAdvance endLsn)

/-- `maybe_advance_forwarded_origin`. -/
def maybeAdvanceForwardedOrigin (env : CommitEnv) : Handler := do
  let n ← get
  if !n.xactHadException && n.forwarded then
    modify (·.commitOwn env.forwardWrites)
    env.raiseAt .forward
  else pure ⟨⟩

/-- The end of a limited replay. A sync worker marks its table as done first. -/
def stopReplay (sub : Subscription) (env : CommitEnv) : Handler := do
  onlyIf sub.syncWorker (env.raiseAt .syncStatus)
  modify (·.commitOwn sub.syncWorker)
  modify Node.flushWal
  throw .procExit

/-- `process_syncing_tables`. -/
def processSyncingTables (env : CommitEnv) : Handler := do
  modify (·.commitOwn env.tablesWrite)
  env.raiseAt .tables

def endRemoteTransaction (sub : Subscription) (endLsn : Nat) (env : CommitEnv) : Handler := do
  env.raiseAt .progress
  modify Node.leaveRemoteTransaction
  if sub.replayStopLsn ≠ 0 ∧ sub.replayStopLsn ≤ endLsn then stopReplay sub env
  else
    modify Node.resetTransaction
    processSyncingTables env

/-- The rest of `handle_commit` once the remote transaction is settled. -/
def finishCommit (sub : Subscription) (endLsn : Nat) (env : CommitEnv) : Handler := do
  maybeAdvanceForwardedOrigin env
  endRemoteTransaction sub endLsn env

def handleCommit (sub : Subscription) (commitLsn endLsn : Nat) (env : CommitEnv) : Handler := do
  modify Node.actionCommit
  modify (·.reload env.reload)
  env.raiseAt .wait
  let n ← get
  onlyIf n.isSkippingChanges (modify Node.finishSkipping)
  settle sub commitLsn endLsn n.isSkippingChanges env
  finishCommit sub endLsn env

/-! ## The other handlers -/

/-- `handle_message`. -/
def handleMessage (lsn : Nat) (transactional : Bool) (fault : Option Fault) : Handler := do
  raiseIf fault
  if transactional then pure ⟨⟩ else modify (·.reploriginSessionAdvance lsn)

/-- `handle_origin`. -/
def handleOrigin (sub : Subscription) (fault : Option Fault) : Handler := do
  let n ← get
  if !n.inRemoteTransaction || n.xact.isSome then
    throw (spockError sub "ORIGIN message sent out of order")
  else
    raiseIf fault
    modify fun n => { n with forwarded := true }

inductive EntryOutcome where
  | plain (fault : Option Fault)
  | change (result : ChangeResult)
  | commit (env : CommitEnv)
  deriving DecidableEq

/-- The dispatch of `replication_handler`; `none` when the outcome is not one of the entry. -/
def dispatch (sub : Subscription) : Entry → EntryOutcome → Option Handler
  | .begin commitLsn, .plain fault => some (handleBegin sub commitLsn fault)
  | .origin, .plain fault => some (handleOrigin sub fault)
  | .change id, .change result => some (handleChange id result)
  | .message lsn transactional, .plain fault => some (handleMessage lsn transactional fault)
  | .other, .plain fault => some (raiseIf fault)
  | .commit commitLsn endLsn, .commit env => some (handleCommit sub commitLsn endLsn env)
  | _, _ => none

def Node.resetAction (n : Node) : Node := { n with actionIsCommit := false }

/-- `replication_handler`: not while the cluster is read-only. -/
def replicationHandler (x : Handler) : Handler := do
  let n ← get
  if n.config.readonlyAll then throw .procExit
  else
    modify Node.resetAction
    x

/-! ## The `PG_CATCH` block of `apply_work` -/

namespace Node

def noteError (n : Node) : Node := { n with errored := n.attempt.toList ++ n.errored }

/-- First occurrence of an exception: abort, save the error, replay the queue with
`use_try_block`. -/
def startReplay (n : Node) (f : Fault) : Node :=
  { n.modifyExceptionLog fun e =>
      { e with
        initialErrorMessage := some f.error
        failedAction := if n.actionIsCommit then 0 else n.xactActionCounter } with
    xact := none
    replay := some n.queue
    inRemoteTransaction := false
    firstBeginAtStartup := true
    forwarded := false
    useTryBlock := true
    failedBehaviour := some n.config.exceptionBehaviour
    pc := .outer }

def catchError (n : Node) (f : Fault) : Node :=
  if f.isConnection then n.exit
  else if n.mustDisable then { n.noteError with pc := .disabling }
  else if !n.xactHadException && n.useTryBlock then n.noteError.exit
  else n.noteError.startReplay f

/-- How a handler's end is taken by `apply_work`. -/
def finish (n : Node) : Raise → Node
  | .error f => n.catchError f
  | .procExit => n.exit

def runHandler (n : Node) (x : Handler) : Node :=
  match x n with
  | .ok _ n' => n'
  | .error e n' => n'.finish e

end Node

end Spock
