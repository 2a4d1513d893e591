import Spock.Basic
import Spock.Feedback.Position

/-!
# Spock — the state of an apply worker

One subscription on one node: what outlives a worker process (the shared `exception_log` array,
the replication origin, the subscription's catalog row, the local WAL), the statics of the
process, and the connection to the publisher. No synchronous standby is configured; feedback with
one is the subject of `Spock.Feedback.SyncStandby`.

Row changes are opaque here: a `change` entry has a number, and whether applying it succeeds is up
to the environment. What a local transaction did to the database is kept as a list of effects,
and every commit of the session is remembered in `commits`, which is also what a server crash
recovers from. `commits`, `errored`, `reports`, `commitFailed` and `failedBehaviour` exist for the
statements only: no function of the worker reads them.
-/

namespace Spock

/-- `SpockExceptionBehaviour`. -/
inductive ExceptionBehaviour where
  | discard
  | transdiscard
  | subDisable
  deriving DecidableEq

/-- `SpockExceptionLogging`. -/
inductive ExceptionLogging where
  | none
  | discard
  | all
  deriving DecidableEq

/-- The settings that `ProcessConfigFile` can change under a running worker. -/
structure WorkerConfig where
  exceptionBehaviour : ExceptionBehaviour
  exceptionLogging : ExceptionLogging
  readonlyAll : Bool
  deriving DecidableEq

/-- `SpockExceptionLog`, without its `local_tuple`; `none` is the empty message. -/
structure SpockExceptionLog where
  slotName : String
  commitLsn : Nat
  initialErrorMessage : Option ErrorData
  failedAction : Nat
  deriving DecidableEq

/-- What the worker knows of its subscription for good, and of its own kind. `replayStopLsn` is
`0` unless the replay is limited. -/
structure Subscription where
  name : String
  replayStopLsn : Nat
  syncWorker : Bool
  deriving DecidableEq

/-! ## The stream -/

/-- What a `'w'` message carries. `other` is STARTUP, COMMIT ORDER and RELATION. -/
inductive Entry where
  | begin (commitLsn : Nat)
  | origin
  | change (id : Nat)
  | message (lsn : Nat) (transactional : Bool)
  | other
  | commit (commitLsn endLsn : Nat)
  deriving DecidableEq

/-- A `'w'` message: the positions of its header and its body. -/
structure WalMessage where
  startLsn : Nat
  endLsn : Nat
  entry : Entry
  deriving DecidableEq

def Entry.isChange : Entry → Bool
  | .change _ => true
  | _ => false

def Entry.isInner : Entry → Bool
  | .origin | .change _ | .message _ true | .other => true
  | _ => false

def Entry.isAside : Entry → Bool
  | .message _ false | .other => true
  | _ => false

/-- A committed transaction of the publisher. Until its COMMIT message no position it is sent
with exceeds its commit record. -/
structure RemoteTxn where
  firstLsn : Nat
  commitLsn : Nat
  endLsn : Nat
  body : List WalMessage
  firstLsn_le : firstLsn ≤ commitLsn
  commitLsn_pos : 0 < commitLsn
  commitLsn_lt : commitLsn < endLsn
  body_inner : ∀ m ∈ body, m.entry.isInner = true
  body_le : ∀ m ∈ body, m.startLsn ≤ commitLsn ∧ m.endLsn ≤ commitLsn

namespace RemoteTxn

def beginMessage (t : RemoteTxn) : WalMessage := ⟨t.firstLsn, t.firstLsn, .begin t.commitLsn⟩

def commitMessage (t : RemoteTxn) : WalMessage := ⟨t.endLsn, t.endLsn, .commit t.commitLsn t.endLsn⟩

def messages (t : RemoteTxn) : List WalMessage := t.beginMessage :: (t.body ++ [t.commitMessage])

def isEmpty (t : RemoteTxn) : Bool := t.body.all fun m => !m.entry.isChange

end RemoteTxn

structure Publisher where
  history : List RemoteTxn
  ordered : history.Pairwise fun t u => t.endLsn ≤ u.commitLsn

def Entry.beginLsn : Entry → Option Nat
  | .begin commitLsn => some commitLsn
  | _ => none

def attemptOf (queue : List WalMessage) : Option Nat := queue.findSome? fun m => m.entry.beginLsn

/-! ## Errors -/

/-- An error and whether `PQstatus(applyconn)` is bad when it is caught. -/
structure Fault where
  error : ErrorData
  connectionBad : Bool
  deriving DecidableEq

/-- The errors `apply_work` rethrows at once. -/
def Fault.isConnection (f : Fault) : Bool :=
  f.connectionBad ||
    match f.error.sqlerrcode with
    | .connectionFailure | .connectionException | .connectionDoesNotExist | .adminShutdown => true
    | _ => false

/-- What ends a handler early: an ERROR, or the exit of the process (FATAL, `proc_exit`). -/
inductive Raise where
  | error (f : Fault)
  | procExit
  deriving DecidableEq

/-! ## Local transactions -/

/-- What a local transaction did with a change of the remote transaction that committed at
`commitLsn`: applied it, or recorded it in `spock.exception_log`. -/
inductive Effect where
  | applied (commitLsn id : Nat)
  | logged (commitLsn id : Nat)
  deriving DecidableEq

def Effect.commitLsn : Effect → Nat
  | .applied commitLsn _ => commitLsn
  | .logged commitLsn _ => commitLsn

/-- The open transaction. `clearsSkip` says that it resets the subscription's skip LSN. -/
structure OpenXact where
  effects : List Effect
  clearsSkip : Bool
  deriving DecidableEq

def OpenXact.writesWal (x : OpenXact) : Bool := !x.effects.isEmpty || x.clearsSkip

/-- The state a commit makes durable: the origin position and the subscription's row. -/
structure Durable where
  origin : Nat
  subSkipLsn : Nat
  enabled : Bool
  deriving DecidableEq

/-- The remote transaction a local commit ended, and how it stood when it committed. -/
structure Ended where
  commitLsn : Nat
  endLsn : Nat
  skipped : Bool
  hadException : Bool
  tried : Bool
  behaviour : ExceptionBehaviour
  failedBehaviour : Option ExceptionBehaviour
  deriving DecidableEq

/-- A commit of the session, or an advance of its origin without a commit (`wal = false`).
`localEnd` is `XactLastCommitEnd` after it. -/
structure LocalCommit where
  localEnd : Nat
  wal : Bool
  after : Durable
  effects : List Effect
  ended : Option Ended
  deriving DecidableEq

/-! ## The node -/

/-- Where the process stands in `apply_work`: not running, at the head of the outer loop, at the
head of the inner loop, after the inner loop, or in `spock_disable_subscription`. -/
inductive Pc where
  | stopped
  | outer
  | inner
  | afterInner
  | disabling
  deriving DecidableEq

structure Node where
  -- shared memory, catalogs and WAL
  exceptionLog : List SpockExceptionLog
  durable : Durable
  base : Durable
  walEnd : Nat
  walFlush : Nat
  -- history
  commits : List LocalCommit
  errored : List Nat
  reports : List Nat
  commitFailed : Bool
  failedBehaviour : Option ExceptionBehaviour
  -- the process
  pc : Pc
  config : WorkerConfig
  gotSigterm : Bool
  skiplsn : Nat
  firstBeginAtStartup : Bool
  myExceptionLogIndex : Option Nat
  useTryBlock : Bool
  xactHadException : Bool
  inRemoteTransaction : Bool
  skipXactFinishLsn : Nat
  sessionOriginLsn : Nat
  forwarded : Bool
  xactActionCounter : Nat
  actionIsCommit : Bool
  xact : Option OpenXact
  xactLastCommitEnd : Nat
  queue : List WalMessage
  replay : Option (List WalMessage)
  lastReceived : Nat
  fb : FeedbackState
  -- the connection: the transaction last begun, what is left of it, what comes after it
  cur : Option RemoteTxn
  todo : List WalMessage
  later : List RemoteTxn

namespace Node

def origin (n : Node) : Nat := n.durable.origin

/-- `is_skipping_changes`. -/
def isSkippingChanges (n : Node) : Bool := n.skipXactFinishLsn != 0

def unsent (n : Node) : List RemoteTxn :=
  (if n.todo.isEmpty then [] else n.cur.toList) ++ n.later

/-- The commit LSN of the transaction being attempted: the one whose BEGIN is in the queue. -/
def attempt (n : Node) : Option Nat := attemptOf n.queue

def modifyExceptionLog (n : Node) (f : SpockExceptionLog → SpockExceptionLog) : Node :=
  { n with
    exceptionLog :=
      match n.myExceptionLogIndex with
      | some i => n.exceptionLog.modify i f
      | none => n.exceptionLog }

/-- `commit_lsn`, `initial_error_message` and `failed_action` back to their empty values, if
`c`. -/
def clearExceptionLog (n : Node) (c : Bool) : Node :=
  n.modifyExceptionLog fun e =>
    if c then { e with commitLsn := 0, initialErrorMessage := none, failedAction := 0 } else e

/-- The process is gone: its transaction is rolled back, and its session origin was reset before
that. -/
def exit (n : Node) : Node := { n with pc := .stopped, xact := none }

/-- A commit of the session that writes WAL moves the origin up to
`replorigin_session_origin_lsn`. One that does not leaves everything as it is, and so
`XactLastCommitEnd`. -/
def commitTransaction (n : Node) (wal : Bool) (f : Durable → Durable) (effects : List Effect)
    (ended : Option Ended) : Node :=
  let durable : Durable :=
    if wal then f { n.durable with origin := max n.durable.origin n.sessionOriginLsn }
    else n.durable
  let walEnd := if wal then n.walEnd + 1 else n.walEnd
  let localEnd := if wal then walEnd else n.xactLastCommitEnd
  { n with
    durable := durable
    walEnd := walEnd
    xactLastCommitEnd := localEnd
    xact := none
    commits := n.commits ++ [⟨localEnd, wal, durable, effects, ended⟩] }

def commitOwn (n : Node) (wrote : Bool) : Node :=
  if wrote then n.commitTransaction true id [] none else n

/-- `replorigin_session_advance(lsn, InvalidXLogRecPtr)`. -/
def reploriginSessionAdvance (n : Node) (lsn : Nat) : Node :=
  let durable := { n.durable with origin := max n.durable.origin lsn }
  { n with
    durable := durable
    commits := n.commits ++ [⟨n.xactLastCommitEnd, false, durable, [], none⟩] }

/-- `send_feedback`. -/
def sendFeedback (n : Node) (recvpos : Nat) (force : Bool) : Node :=
  let r := Spock.sendFeedback none n.walFlush recvpos force n.fb
  { n with fb := r.1, reports := n.reports ++ (r.2.map StatusMessage.flush).toList }

end Node

end Spock
