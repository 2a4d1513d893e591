import Spock.Lib.Runs
import Spock.Worker.Handlers

/-!
# Spock — runs of the apply workers of a subscription

The two loops of `apply_work` as a transition function. The environment starts and stops worker
processes, delivers messages, reloads the configuration where the code looks for a reload, decides
where errors are raised and what the local WAL has flushed, and may crash the server. After a
restart the publisher sends the transactions whose commit record starts at or after the origin
position.

* **`Node.step`** — one event; **`Node.step_cases`** — every way it can go.
-/

namespace Spock

open Option

/-- What the inner loop gets: nothing to read, a keepalive, a message sent between transactions,
or the next message of the replay queue or the stream. -/
inductive Input where
  | noData
  | keepalive (endpos : Nat) (replyRequested : Bool)
  | aside (m : WalMessage) (fault : Option Fault)
  | next (o : EntryOutcome)
  deriving DecidableEq

inductive WorkerEvent where
  -- the manager and the operating system
  | start (config : WorkerConfig)
  | exit
  | sigterm
  | flush (lsn : Nat)
  | crash (kept : Nat)
  -- other sessions
  | enable
  | setSkipLsn (lsn : Nat)
  -- the worker
  | reload (config : WorkerConfig)
  | cleanup (wrote : Bool)
  | outer (fault : Option Fault)
  | inner (input : Input)
  | interrupt (f : Fault)
  | afterInner (tablesWrite : Bool) (fault : Option Fault)
  | disable
  deriving DecidableEq

namespace Node

/-- `spock_apply_main`: statics and connection afresh, streaming from the origin, and a first
status message with the origin as every position. -/
def start (n : Node) (pub : Publisher) (config : WorkerConfig) : Node :=
  { n with
    reports := n.reports ++ [n.origin]
    commitFailed := false
    failedBehaviour := none
    pc := .outer
    config := config
    gotSigterm := false
    skiplsn := n.durable.subSkipLsn
    firstBeginAtStartup := true
    myExceptionLogIndex := none
    useTryBlock := false
    xactHadException := false
    inRemoteTransaction := false
    skipXactFinishLsn := 0
    sessionOriginLsn := 0
    forwarded := false
    xactActionCounter := 0
    actionIsCommit := false
    xact := none
    xactLastCommitEnd := 0
    queue := []
    replay := none
    lastReceived := 0
    fb := FeedbackState.init
    cur := none
    todo := []
    later := pub.history.filter fun t => n.origin ≤ t.commitLsn }

def commitOther (n : Node) (f : Durable → Durable) : Node :=
  { n with
    durable := f n.durable
    walEnd := n.walEnd + 1
    commits := n.commits ++ [⟨n.walEnd + 1, true, f n.durable, [], none⟩] }

/-- Recovery after a crash: the local WAL ends where it was flushed, shared memory is empty. -/
def recover (n : Node) (kept : List LocalCommit) : Node :=
  { n.exit with
    exceptionLog := n.exceptionLog.map fun _ => ⟨"", 0, none, 0⟩
    durable := (kept.getLast?.map LocalCommit.after).getD n.base
    walEnd := n.walFlush
    commits := kept }

/-- What was flushed survives a crash, and nothing unflushed does. An advance of the origin
without a commit survives when a checkpoint came after it. -/
def crashKeeps (n : Node) (kept : Nat) : Bool :=
  (n.commits.take kept).all (fun c => c.localEnd ≤ n.walFlush) &&
    (n.commits.drop kept).all fun c => !(c.wal && decide (c.localEnd ≤ n.walFlush))

/-- A `'w'` message arrives: it goes to the replay queue before it is handled. -/
def receive (n : Node) (m : WalMessage) : Node :=
  { n with
    lastReceived := max n.lastReceived (max m.startLsn m.endLsn)
    queue := n.queue ++ [m] }

def replayNext (n : Node) (m : WalMessage) (rest : List WalMessage) : Node :=
  { n with
    lastReceived := max n.lastReceived (max m.startLsn m.endLsn)
    replay := some rest }

def takeNext (n : Node) (m : WalMessage) (rest : List WalMessage) : Node :=
  { n.receive m with todo := rest }

def takeBegin (n : Node) (t : RemoteTxn) (later : List RemoteTxn) : Node :=
  { n.receive t.beginMessage with
    cur := some t, todo := t.body ++ [t.commitMessage], later := later }

/-- The next message of the stream: of the transaction being sent, or of the next one. -/
def streamNext (n : Node) : Option (WalMessage × Node) :=
  match n.todo, n.later with
  | m :: rest, _ => some (m, n.takeNext m rest)
  | [], t :: later => some (t.beginMessage, n.takeBegin t later)
  | [], [] => none

def handle (n : Node) (sub : Subscription) (m : WalMessage) (o : EntryOutcome) : Option Node :=
  (dispatch sub m.entry o).map fun x => n.runHandler (replicationHandler x)

/-- `apply_replay_mode` decides where the next message comes from. -/
def handleNext (n : Node) (sub : Subscription) (o : EntryOutcome) : Option Node :=
  match n.replay with
  | some (m :: rest) => (n.replayNext m rest).handle sub m o
  | some [] => some { n with replay := none }
  | none =>
    match n.streamNext with
    | some (m, n') => n'.handle sub m o
    | none => none

def positionSent (n : Node) (lsn : Nat) : Bool := n.unsent.all fun t => lsn ≤ t.commitLsn

def keepalive (n : Node) (endpos : Nat) (replyRequested : Bool) : Node :=
  let n := n.sendFeedback endpos replyRequested
  { n with lastReceived := max n.lastReceived endpos }

def moveTo (n : Node) (pc : Pc) : Node := { n with pc := pc }

def readInput (n : Node) (sub : Subscription) : Input → Option Node
  | .next o => n.handleNext sub o
  | .noData => if n.replay.isNone then some (n.moveTo .afterInner) else none
  | .keepalive endpos replyRequested =>
    if n.replay.isNone && n.positionSent endpos then some (n.keepalive endpos replyRequested)
    else none
  | .aside m fault =>
    if n.replay.isNone && n.todo.isEmpty && m.entry.isAside &&
        n.positionSent m.startLsn && n.positionSent m.endLsn &&
        (match m.entry with | .message lsn _ => n.positionSent lsn | _ => true) then
      (n.receive m).handle sub m (.plain fault)
    else none

def innerStep (n : Node) (sub : Subscription) (input : Input) : Option Node :=
  if n.gotSigterm then some (n.moveTo .afterInner)
  else if n.config.readonlyAll then
    if n.xactHadException then some n else some (n.moveTo .afterInner)
  else n.readInput sub input

def feedbackAfterInner (n : Node) : Node :=
  if !n.xactHadException &&
      (!n.useTryBlock || n.config.exceptionBehaviour == .discard) then
    n.sendFeedback n.lastReceived false
  else n

def leaveInner (n : Node) : Node := n.feedbackAfterInner.moveTo .outer

def afterInnerStep (n : Node) (tablesWrite : Bool) (fault : Option Fault) : Node :=
  if n.xactHadException && n.config.exceptionBehaviour == .subDisable then
    n.moveTo .disabling
  else
    let n := n.leaveInner
    if n.inRemoteTransaction then n
    else
      -- process_syncing_tables
      match fault with
      | some f => (n.commitOwn tablesWrite).catchError f
      | none => n.commitOwn tablesWrite

/-- The subscription's row is updated in a transaction of its own. `alter_subscription` is given
`MySubscription`, and writes the skip LSN that was loaded with it. -/
def commitDisabled (n : Node) : Node :=
  n.commitTransaction true (fun d => { d with enabled := false, subSkipLsn := n.skiplsn }) [] none

/-- `spock_disable_subscription`: inside an open transaction it is rolled back at exit. -/
def disableSubscription (n : Node) : Node :=
  if n.xact.isNone then n.commitDisabled.exit else n.exit

def step (sub : Subscription) (pub : Publisher) (n : Node) : WorkerEvent → Option Node
  | .start config =>
    if n.pc = .stopped ∧ n.durable.enabled then some (n.start pub config) else none
  | .exit => if n.pc = .stopped then none else some n.exit
  | .sigterm => some { n with gotSigterm := true }
  | .flush lsn =>
    if n.walFlush ≤ lsn ∧ lsn ≤ n.walEnd then some { n with walFlush := lsn } else none
  | .crash kept => if n.crashKeeps kept then some (n.recover (n.commits.take kept)) else none
  | .enable => some (n.commitOther fun d => { d with enabled := true })
  | .setSkipLsn lsn => some (n.commitOther fun d => { d with subSkipLsn := lsn })
  | .reload config =>
    if n.pc = .outer ∨ n.pc = .inner then some (n.reload (some config)) else none
  | .cleanup wrote =>
    if n.pc = .outer ∧ n.xact.isNone then some (n.commitOwn wrote) else none
  | .outer fault =>
    if n.pc = .outer then
      if n.gotSigterm then some n.exit
      else
        match fault with
        | some f => some (n.catchError f)
        | none => some (n.moveTo .inner)
    else none
  | .inner input => if n.pc = .inner then n.innerStep sub input else none
  -- an error raised in the inner loop outside the handlers
  | .interrupt f => if n.pc = .inner then some (n.catchError f) else none
  | .afterInner tablesWrite fault =>
    if n.pc = .afterInner then some (n.afterInnerStep tablesWrite fault) else none
  | .disable => if n.pc = .disabling then some n.disableSubscription else none

/-! ## What a step can do -/

inductive Stepped (sub : Subscription) (pub : Publisher) (n : Node) : WorkerEvent → Node → Prop
  | start (config : WorkerConfig) (hpc : n.pc = .stopped) :
    Stepped sub pub n (.start config) (n.start pub config)
  | exit : Stepped sub pub n .exit n.exit
  | sigterm : Stepped sub pub n .sigterm { n with gotSigterm := true }
  | flush (lsn : Nat) (hle : n.walFlush ≤ lsn) (hend : lsn ≤ n.walEnd) :
    Stepped sub pub n (.flush lsn) { n with walFlush := lsn }
  | crash (kept : Nat) (hkept : n.crashKeeps kept = true) :
    Stepped sub pub n (.crash kept) (n.recover (n.commits.take kept))
  | enable : Stepped sub pub n .enable (n.commitOther fun d => { d with enabled := true })
  | setSkipLsn (lsn : Nat) :
    Stepped sub pub n (.setSkipLsn lsn) (n.commitOther fun d => { d with subSkipLsn := lsn })
  | reload (config : WorkerConfig) (hpc : n.pc = .outer ∨ n.pc = .inner) :
    Stepped sub pub n (.reload config) (n.reload (some config))
  | cleanup (wrote : Bool) (hpc : n.pc = .outer) (hxact : n.xact = none) :
    Stepped sub pub n (.cleanup wrote) (n.commitOwn wrote)
  | outerExit (fault : Option Fault) : Stepped sub pub n (.outer fault) n.exit
  | outerError (f : Fault) (hpc : n.pc = .outer) :
    Stepped sub pub n (.outer (some f)) (n.catchError f)
  | enterInner (hpc : n.pc = .outer) : Stepped sub pub n (.outer none) (n.moveTo .inner)
  | stopInner (input : Input) (hpc : n.pc = .inner) :
    Stepped sub pub n (.inner input) (n.moveTo .afterInner)
  | readonly (input : Input) (hpc : n.pc = .inner) (hreadonly : n.config.readonlyAll = true) :
    Stepped sub pub n (.inner input) n
  | next (o : EntryOutcome) {n' : Node} (hpc : n.pc = .inner)
    (hreadonly : n.config.readonlyAll = false) (hnext : n.handleNext sub o = some n') :
    Stepped sub pub n (.inner (.next o)) n'
  | keepalive (endpos : Nat) (replyRequested : Bool) (hpc : n.pc = .inner)
    (hreplay : n.replay = none) (hsent : n.positionSent endpos = true) :
    Stepped sub pub n (.inner (.keepalive endpos replyRequested)) (n.keepalive endpos replyRequested)
  | aside (m : WalMessage) (fault : Option Fault) {n' : Node} (hpc : n.pc = .inner)
    (hreplay : n.replay = none) (htodo : n.todo = []) (haside : m.entry.isAside = true)
    (hstart : n.positionSent m.startLsn = true) (hend : n.positionSent m.endLsn = true)
    (hlsn : ∀ lsn b, m.entry = .message lsn b → n.positionSent lsn = true)
    (hhandle : (n.receive m).handle sub m (.plain fault) = some n') :
    Stepped sub pub n (.inner (.aside m fault)) n'
  | interrupt (f : Fault) (hpc : n.pc = .inner) : Stepped sub pub n (.interrupt f) (n.catchError f)
  | afterDisabling (wrote : Bool) (fault : Option Fault) (hpc : n.pc = .afterInner) :
    Stepped sub pub n (.afterInner wrote fault) (n.moveTo .disabling)
  | afterRemote (wrote : Bool) (fault : Option Fault) (hpc : n.pc = .afterInner)
    (hremote : n.inRemoteTransaction = true) :
    Stepped sub pub n (.afterInner wrote fault) n.leaveInner
  | afterOwn (wrote : Bool) (hpc : n.pc = .afterInner) (hremote : n.inRemoteTransaction = false) :
    Stepped sub pub n (.afterInner wrote none) (n.leaveInner.commitOwn wrote)
  | afterError (wrote : Bool) (f : Fault) (hpc : n.pc = .afterInner)
    (hremote : n.inRemoteTransaction = false) :
    Stepped sub pub n (.afterInner wrote (some f)) ((n.leaveInner.commitOwn wrote).catchError f)
  | disable (hpc : n.pc = .disabling) (hxact : n.xact = none) :
    Stepped sub pub n .disable n.commitDisabled.exit
  | disableOpen (hpc : n.pc = .disabling) : Stepped sub pub n .disable n.exit

theorem leaveInner_cases (n : Node) :
    n.leaveInner = n.moveTo .outer ∨
    (n.xactHadException = false ∧
      (n.useTryBlock = false ∨ n.config.exceptionBehaviour = .discard) ∧
      n.leaveInner = (n.sendFeedback n.lastReceived false).moveTo .outer) := by
  unfold leaveInner feedbackAfterInner
  split
  · rename_i hguard
    simp only [Bool.and_eq_true, Bool.or_eq_true, Bool.not_eq_true', beq_iff_eq] at hguard
    exact .inr ⟨hguard.1, hguard.2, rfl⟩
  · exact .inl rfl

variable {n : Node} {sub : Subscription} {pub : Publisher}

theorem leaveInner_of {P : Node → Prop} (h : P (n.moveTo .outer))
    (hsent : P ((n.sendFeedback n.lastReceived false).moveTo .outer)) : P n.leaveInner := by
  rcases n.leaveInner_cases with heq | ⟨-, -, heq⟩
  · rwa [heq]
  · rwa [heq]

theorem innerStep_cases {n' : Node} {input : Input} (hpc : n.pc = .inner)
    (hstep : n.innerStep sub input = some n') : Stepped sub pub n (.inner input) n' := by
  unfold innerStep at hstep
  split at hstep
  · cases hstep
    exact .stopInner input hpc
  split at hstep
  · rename_i hreadonly
    split at hstep
    · cases hstep
      exact .readonly input hpc hreadonly
    · cases hstep
      exact .stopInner input hpc
  rename_i hreadonly
  cases input with
  | next o => exact .next o hpc (Bool.eq_false_iff.mpr hreadonly) hstep
  | noData =>
    obtain ⟨-, rfl⟩ := Runs.of_guard hstep
    exact .stopInner _ hpc
  | keepalive endpos replyRequested =>
    obtain ⟨hguard, rfl⟩ := Runs.of_guard hstep
    simp only [Bool.and_eq_true, isNone_iff_eq_none] at hguard
    exact .keepalive endpos replyRequested hpc hguard.1 hguard.2
  | aside m fault =>
    obtain ⟨hguard, hstep⟩ := ite_none_right_eq_some.mp hstep
    simp only [Bool.and_eq_true, isNone_iff_eq_none, List.isEmpty_iff] at hguard
    obtain ⟨⟨⟨⟨⟨hreplay, htodo⟩, hm⟩, hstart⟩, hend⟩, hlsn⟩ := hguard
    refine .aside m fault hpc hreplay htodo hm hstart hend (fun lsn b hentry => ?_) hstep
    rw [hentry] at hlsn
    exact hlsn

theorem afterInnerStep_cases (hpc : n.pc = .afterInner) (wrote : Bool) (fault : Option Fault) :
    Stepped sub pub n (.afterInner wrote fault) (n.afterInnerStep wrote fault) := by
  have hremote : n.leaveInner.inRemoteTransaction = n.inRemoteTransaction :=
    leaveInner_of (P := fun m => m.inRemoteTransaction = n.inRemoteTransaction) rfl rfl
  unfold afterInnerStep
  split
  · exact .afterDisabling wrote fault hpc
  simp only [hremote]
  split
  · rename_i hr
    exact .afterRemote wrote fault hpc hr
  · rename_i hr
    have hr := Bool.eq_false_iff.mpr hr
    cases fault with
    | none => exact .afterOwn wrote hpc hr
    | some f => exact .afterError wrote f hpc hr

/-- **The inversion of a step.** -/
theorem step_cases {n' : Node} {e : WorkerEvent} (hstep : n.step sub pub e = some n') :
    Stepped sub pub n e n' := by
  cases e with
  | start config =>
    obtain ⟨hguard, rfl⟩ := Runs.of_guard hstep
    exact .start config hguard.1
  | exit =>
    obtain ⟨-, heq⟩ := ite_none_left_eq_some.mp hstep
    cases heq
    exact .exit
  | sigterm =>
    cases hstep
    exact .sigterm
  | flush lsn =>
    obtain ⟨hguard, rfl⟩ := Runs.of_guard hstep
    exact .flush lsn hguard.1 hguard.2
  | crash kept =>
    obtain ⟨hguard, rfl⟩ := Runs.of_guard hstep
    exact .crash kept hguard
  | enable =>
    cases hstep
    exact .enable
  | setSkipLsn lsn =>
    cases hstep
    exact .setSkipLsn lsn
  | reload config =>
    obtain ⟨hguard, rfl⟩ := Runs.of_guard hstep
    exact .reload config hguard
  | cleanup wrote =>
    obtain ⟨⟨hpc, hxact⟩, rfl⟩ := Runs.of_guard hstep
    exact .cleanup wrote hpc (isNone_iff_eq_none.mp hxact)
  | outer fault =>
    obtain ⟨hpc, heq⟩ := ite_none_right_eq_some.mp hstep
    split at heq
    · cases heq
      exact .outerExit fault
    · cases fault with
      | some f =>
        cases heq
        exact .outerError f hpc
      | none =>
        cases heq
        exact .enterInner hpc
  | inner =>
    obtain ⟨hpc, hstep⟩ := ite_none_right_eq_some.mp hstep
    exact innerStep_cases hpc hstep
  | interrupt f =>
    obtain ⟨hpc, rfl⟩ := Runs.of_guard hstep
    exact .interrupt f hpc
  | afterInner wrote fault =>
    obtain ⟨hpc, rfl⟩ := Runs.of_guard hstep
    exact afterInnerStep_cases hpc wrote fault
  | disable =>
    obtain ⟨hpc, rfl⟩ := Runs.of_guard hstep
    unfold disableSubscription
    split
    · rename_i hxact
      exact .disable hpc (isNone_iff_eq_none.mp hxact)
    · exact .disableOpen hpc

/-- A subscription whose workers have never run. It starts before the publisher's history. -/
structure Initial (pub : Publisher) (n : Node) : Prop where
  stopped : n.pc = .stopped
  commits : n.commits = []
  errored : n.errored = []
  reports : n.reports = []
  failedBehaviour : n.failedBehaviour = none
  durable : n.durable = n.base
  origin : ∀ t ∈ pub.history, n.origin ≤ t.commitLsn
  wal : n.walFlush ≤ n.walEnd

def fresh (exceptionLog : List SpockExceptionLog) (durable : Durable) : Node where
  exceptionLog := exceptionLog
  durable := durable
  base := durable
  walEnd := 0
  walFlush := 0
  commits := []
  errored := []
  reports := []
  commitFailed := false
  failedBehaviour := none
  pc := .stopped
  config := ⟨.transdiscard, .all, false⟩
  gotSigterm := false
  skiplsn := 0
  firstBeginAtStartup := true
  myExceptionLogIndex := none
  useTryBlock := false
  xactHadException := false
  inRemoteTransaction := false
  skipXactFinishLsn := 0
  sessionOriginLsn := 0
  forwarded := false
  xactActionCounter := 0
  actionIsCommit := false
  xact := none
  xactLastCommitEnd := 0
  queue := []
  replay := none
  lastReceived := 0
  fb := FeedbackState.init
  cur := none
  todo := []
  later := []

theorem fresh_initial (exceptionLog : List SpockExceptionLog) {durable : Durable}
    (h : ∀ t ∈ pub.history, durable.origin ≤ t.commitLsn) :
    (fresh exceptionLog durable).Initial pub :=
  ⟨rfl, rfl, rfl, rfl, rfl, rfl, h, Nat.le_refl 0⟩

end Node

/-! ## A small stream

Two transactions, of two changes and of one, on which the runs of the other modules are shown. -/

def sampleTxn : RemoteTxn where
  firstLsn := 10
  commitLsn := 20
  endLsn := 25
  body := [⟨11, 11, .change 1⟩, ⟨12, 12, .change 2⟩]
  firstLsn_le := by decide
  commitLsn_pos := by decide
  commitLsn_lt := by decide
  body_inner := by decide
  body_le := by decide

def secondTxn : RemoteTxn where
  firstLsn := 30
  commitLsn := 40
  endLsn := 45
  body := [⟨31, 31, .change 3⟩]
  firstLsn_le := by decide
  commitLsn_pos := by decide
  commitLsn_lt := by decide
  body_inner := by decide
  body_le := by decide

def samplePublisher : Publisher := ⟨[sampleTxn, secondTxn], by decide⟩

def sampleSubscription : Subscription := ⟨"sub", 0, false⟩

/-- Two free slots in the shared array, and the origin at the start. -/
def sampleNode : Node := Node.fresh (List.replicate 2 ⟨"", 0, none, 0⟩) ⟨0, 0, true⟩

theorem sampleNode_initial : sampleNode.Initial samplePublisher :=
  Node.fresh_initial _ fun _ _ => Nat.zero_le _

namespace WorkerEvent

/-- A BEGIN, ORIGIN or other message without a row, handled without error. -/
def nextPlain : WorkerEvent := .inner (.next (.plain none))

def nextWritten : WorkerEvent := .inner (.next (.change (.ok true)))

/-- A COMMIT, with an error at a point of `handle_commit` if one is given. -/
def nextCommit (fault : Option (CommitPoint × Fault)) : WorkerEvent :=
  .inner (.next (.commit ⟨none, fault, false, false⟩))

end WorkerEvent

def sampleFault : Fault := ⟨⟨.uniqueViolation, "duplicate key value violates unique constraint"⟩, false⟩

end Spock
