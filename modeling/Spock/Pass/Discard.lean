import Spock.Pass.Frames

/-!
# Spock — a pass that discards a transaction

In TRANSDISCARD and SUB_DISABLE mode a transaction that failed is handled once more without applying
it: each entry is recorded in `spock.exception_log`, in a read-only transaction, and nothing else is
to happen. Rows, TRUNCATEs and queued statements have a branch for this. Queued TABLESYNC and
SEQUENCE messages do not: the first is carried out, the second is refused by the read-only
transaction. Rows have to be read before they are logged, and reading may raise. No statement is
executed, so the local catalogs are those the pass began with; RELATION messages are taken in.

* **`pass_discards_iff`** — a pass goes through and only logs exactly when every entry can.
-/

namespace Spock.Pass

open Checked Outcome List Option

variable {env : Env} {s s' : State}

/-! ## What a discarded transaction may write -/

def Write.isLog : Write → Bool
  | .exceptionLog _ | .skipLsn => true
  | _ => false

structure OnlyLogs (s s' : State) : Prop where
  writes : ∃ l, s'.writes = s.writes ++ l ∧ ∀ w ∈ l, w.isLog = true
  syncPending : s'.syncPending = s.syncPending

def WritesMore (s s' : State) : Prop :=
  ∃ l, s'.writes = s.writes ++ l ∧ ∃ w ∈ l, w.isLog = false

/-- Only log rows were written, and a read-only transaction stays one. -/
structure Discarded (s s' : State) : Prop extends OnlyLogs s s' where
  readOnly : s.xact ≠ some false → s'.xact ≠ some false

variable {s₂ : State} {read : Except ErrorData (Option RowChange)} {r : Option RowChange} {c : Bool}
  {x : Handler}

theorem Discarded.trans {s₁ s₃ : State} (h : Discarded s₁ s₂) (h' : Discarded s₂ s₃) :
    Discarded s₁ s₃ := by
  obtain ⟨l, hl, hlog⟩ := h.writes
  obtain ⟨l', hl', hlog'⟩ := h'.writes
  refine ⟨⟨⟨l ++ l', by rw [hl', hl, append_assoc], fun w hw => ?_⟩,
    h'.syncPending.trans h.syncPending⟩, fun hro => h'.readOnly (h.readOnly hro)⟩
  exact (mem_append.mp hw).elim (hlog w) (hlog' w)

theorem discarded_of_eq (hwrites : s'.writes = s.writes)
    (hpending : s'.syncPending = s.syncPending) (hxact : s'.xact = s.xact) : Discarded s s' :=
  ⟨⟨⟨[], by simp [hwrites], by simp⟩, hpending⟩, by rw [hxact]; exact fun h => h⟩

theorem discarded_write (s : State) {l : List Write} (hl : ∀ w ∈ l, w.isLog = true) :
    Discarded s (s.write l) := ⟨⟨⟨l, rfl, hl⟩, rfl⟩, fun h => h⟩

theorem discarded_write_ite (s : State) {p : Prop} [Decidable p] {w : Write} (hw : w.isLog = true) :
    Discarded s (s.write (if p then [w] else [])) := by
  refine discarded_write s fun w' hw' => ?_
  split at hw'
  · rwa [mem_singleton.mp hw']
  · cases hw'

theorem WritesMore.after (h : Discarded s s') (h' : WritesMore s' s₂) : WritesMore s s₂ := by
  obtain ⟨l, hl, -⟩ := h.writes
  obtain ⟨l', hl', w, hw, hlog⟩ := h'
  exact ⟨l ++ l', by rw [hl', hl, append_assoc], w, mem_append_right _ hw, hlog⟩

theorem discarded_beginReplicationStep (hdry : env.dryRun = true) (s : State) :
    Discarded s (s.beginReplicationStep env) := by
  refine ⟨⟨⟨[], by simp [State.beginReplicationStep], by simp⟩, rfl⟩, fun hro => ?_⟩
  cases hx : s.xact with
  | none => simp [State.beginReplicationStep, hx, hdry]
  | some => simpa [State.beginReplicationStep, hx] using hro

theorem discarded_beginAction (hdry : env.dryRun = true) (s : State) :
    Discarded s (s.beginAction env) :=
  (discarded_beginReplicationStep hdry s).trans (discarded_of_eq rfl rfl rfl)

/-! ## What is logged -/

/-- A row that an entry leaves in the log: its relation is not found, or its tuple or the statement
it queues is discarded. -/
inductive LogItem where
  | missing
  | tuple
  | statement
  deriving DecidableEq

def Env.discardText (env : Env) (action : Nat) (what : String) : String :=
  if action = env.failedAction ∧ env.initialErrorMessage ≠ "" then env.initialErrorMessage
  else env.discardCollateralMessage what

/-- Its text, at an action: the saved error, or the number of the action that failed. -/
def Env.logText (env : Env) (action : Nat) : LogItem → String
  | .missing => "Spock can't find relation"
  | .tuple => env.discardText action "tuple"
  | .statement => env.discardText action "statement"

theorem initialError_getD (env : Env) (s : State) (what : String) :
    (env.initialError s).getD (env.discardCollateralMessage what) =
      env.discardText s.xactActionCounter what := by
  unfold Env.initialError Env.discardText
  split <;> rfl

def Write.logRow? : Write → Option ExceptionLogRow
  | .exceptionLog logged => some logged
  | _ => none

/-- The texts and numbers of the rows among some writes. -/
def numberedTexts (l : List Write) : List (String × Nat) :=
  (l.filterMap Write.logRow?).map fun row => (row.errorMessage, row.commandCounter)

/-- The texts of what is logged with their numbers, if anything is. -/
def Env.numbered (env : Env) (first : Nat) (texts : List String) : List (String × Nat) :=
  if env.config.exceptionLogging = .none then [] else texts.zipIdx first

/-- What an entry has logged since it began its action, with the numbers that the command counter
gave to it. -/
structure Logs (env : Env) (items : List LogItem) (s s' : State) : Prop where
  counter : s'.exceptionCommandCounter = s.exceptionCommandCounter + items.length
  action : s'.xactActionCounter = s.xactActionCounter
  remote : s'.remote = s.remote
  statements : s'.statements = s.statements
  rows : ∃ l, s'.writes = s.writes ++ l ∧ numberedTexts l =
    env.numbered (s.exceptionCommandCounter + 1) (items.map (env.logText s.xactActionCounter))

section NoItem

variable (hcounter : s'.exceptionCommandCounter = s.exceptionCommandCounter)
  (haction : s'.xactActionCounter = s.xactActionCounter) (hremote : s'.remote = s.remote)
include hcounter haction hremote

/-- What is written is neither a row of the log nor a statement. -/
theorem logs_write {l : List Write} (hwrites : s'.writes = s.writes ++ l)
    (hrows : l.filterMap Write.logRow? = []) (hstatements : l.filterMap Write.statement? = []) :
    Logs env [] s s' := by
  refine ⟨hcounter, haction, hremote, ?_, l, hwrites, ?_⟩
  · rw [State.statements, hwrites, filterMap_append, hstatements, append_nil]
    rfl
  · simp [numberedTexts, hrows, Env.numbered]

theorem logs_nil (hwrites : s'.writes = s.writes) : Logs env [] s s' :=
  logs_write hcounter haction hremote (hwrites.trans (append_nil _).symm) rfl rfl

end NoItem

theorem Logs.trans {items items' : List LogItem} {s₁ s₂ s₃ : State} (h : Logs env items s₁ s₂)
    (h' : Logs env items' s₂ s₃) : Logs env (items ++ items') s₁ s₃ := by
  obtain ⟨l, hl, hrows⟩ := h.rows
  obtain ⟨l', hl', hrows'⟩ := h'.rows
  refine ⟨?_, h'.action.trans h.action, h'.remote.trans h.remote,
    h'.statements.trans h.statements, l ++ l', ?_, ?_⟩
  · rw [h'.counter, h.counter, length_append, Nat.add_assoc]
  · rw [hl', hl, append_assoc]
  · rw [numberedTexts, filterMap_append, map_append]
    refine (congrArg₂ (· ++ ·) hrows hrows').trans ?_
    rw [h.counter, h.action, map_append]
    unfold Env.numbered
    split
    · rfl
    · rw [zipIdx_append, length_map, Nat.add_right_comm]

theorem shouldLog_dryRun (hdry : env.dryRun = true) (failed : Bool) :
    shouldLogException env.config failed = true ↔ env.config.exceptionLogging ≠ .none := by
  have hmode := (Bool.and_eq_true_iff.mp hdry).2
  unfold shouldLogException
  rw [Bool.or_assoc, hmode, Bool.or_true, Bool.and_true, bne_iff_ne]

/-- A row of the log, written when the command counter has counted it. -/
theorem logs_logException (hdry : env.dryRun = true) {row : ExceptionLogRow} {item : LogItem}
    (failed : Bool) (hcounter : s'.exceptionCommandCounter = s.exceptionCommandCounter + 1)
    (haction : s'.xactActionCounter = s.xactActionCounter) (hremote : s'.remote = s.remote)
    (hwrites : s'.writes = s.writes) (hnumber : row.commandCounter = s'.exceptionCommandCounter)
    (htext : row.errorMessage = env.logText s.xactActionCounter item) :
    Logs env [item] s (s'.logException env failed row) := by
  refine ⟨hcounter, haction, hremote, ?_, _, congrArg (· ++ _) hwrites, ?_⟩
  · rw [State.statements, State.logException, State.write, hwrites, filterMap_append]
    split <;> exact append_nil _
  · unfold Env.numbered
    by_cases hlog : env.config.exceptionLogging = .none
    · rw [if_neg fun h => (shouldLog_dryRun hdry failed).mp h hlog, if_pos hlog]
      rfl
    · rw [if_pos ((shouldLog_dryRun hdry failed).mpr hlog), if_neg hlog, map_singleton, ← htext,
        ← hcounter, ← hnumber]
      rfl

/-! ## The entries that can be discarded -/

def WalMessageBody.isSyncEvent (m : WalMessageBody) : Bool :=
  m.lsn != 0 && m.messagePrefix == "Spock" && m.mtype == spockSyncEventMsg

namespace Env

/-- The row goes into the queue. -/
def queues (env : Env) (rel : OpenedRelation) : Bool :=
  shouldApplyChangesForRel env rel && rel.table.reloid == env.queueRelid

/-- A queued message: a statement, or a TABLESYNC for a table that has a status already. -/
def discardsQueued (env : Env) (tuple : Tuple) : Bool :=
  match env.queuedMessageFromTuple tuple with
  | .ok q =>
    match q.command with
    | .sql => true
    | .tablesync =>
      match parseRelationMessage env.sub q.message with
      | .ok rv => (env.localSyncStatus []).any (·.isOf rv)
      | .error _ => false
    | .sequence | .unknown _ => false
  | .error _ => false

def setsSequence (env : Env) (s : State) (q : QueuedMessage) : Bool :=
  match parseSequenceMessage env.sub q.message with
  | .ok (nspname, relname, lastValue) => nspname ∈ env.namespaces s.statements &&
    match env.pgStrtoint64 lastValue with
    | .ok value =>
      let sequences := env.sequences s.statements
      let found := sequences.find? fun r => r.nspname == nspname && r.relname == relname
      (sequences.find? (·.reloid == (found.map (·.reloid)).getD 0)).any fun seq =>
        seq.isSequence && (seq.isLocalTemp || !s.xact.getD false) &&
          (seq.minValue ≤ value && value ≤ seq.maxValue)
    | .error _ => false
  | .error _ => false

/-- A RELATION message, a row that can be read, a TRUNCATE, or a sync event; and any row of a
skipped transaction. -/
def discards (env : Env) (cat : Catalog) : PassEntry → Bool
  | .insert m => env.isSkippingChanges || (m.isReadable cat &&
      ((cat.opened m.relid).filter env.queues).all fun rel =>
        env.discardsQueued (m.newtup.values rel.table))
  | .update m => env.isSkippingChanges || m.isReadable cat
  | .delete m => env.isSkippingChanges || m.isReadable cat
  | .relation _ | .truncate _ => true
  | .message m => m.isSyncEvent

/-- What a row leaves in the log: nothing if its table is still being synchronized. -/
def rowItems (env : Env) : Option OpenedRelation → List LogItem
  | none => [.missing]
  | some rel => if shouldApplyChangesForRel env rel then [.tuple] else []

def queuedItems (env : Env) (tuple : Tuple) : List LogItem :=
  match env.queuedMessageFromTuple tuple with
  | .ok q => if q.command = .sql then [.statement] else []
  | .error _ => []

/-- What the log of a pass gets of an entry. -/
def logItems (env : Env) (cat : Catalog) (e : PassEntry) : List LogItem :=
  if env.isSkippingChanges then []
  else
    match e with
    | .insert m => env.rowItems (cat.opened m.relid) ++
        ((cat.opened m.relid).filter env.queues).elim [] fun rel =>
          env.queuedItems (m.newtup.values rel.table)
    | .update m => env.rowItems (cat.opened m.relid)
    | .delete m => env.rowItems (cat.opened m.relid)
    | .truncate _ => [.tuple]
    | .relation _ | .message _ => []

end Env

/-- A RELATION message is known to the entries after it. -/
def Catalog.after (cat : Catalog) : PassEntry → Catalog
  | .relation r => { cat with remote := r :: cat.remote }
  | _ => cat

def Env.discardsAll (env : Env) : Catalog → List PassEntry → Bool
  | _, [] => true
  | cat, e :: entries => env.discards cat e && env.discardsAll (cat.after e) entries

theorem tries_of_dryRun (h : env.dryRun = true) : env.useTryBlock = true :=
  (Bool.and_eq_true_iff.mp h).1

theorem ite_dryRun (h : env.dryRun = true) {α : Type} (a b c : α) :
    (if env.useTryBlock then if env.dryRun then a else b else c) = a := by
  rw [if_pos (tries_of_dryRun h), if_pos h]

/-! ## Each handler -/

def insertedRow (env : Env) (s : State) (m : InsertMessage) : Option RowChange :=
  ((env.catalog s).opened m.relid).map fun rel => ⟨rel, none, some (m.newtup.values rel.table),
    fun writes => env.heapInsert writes rel (m.newtup.values rel.table)⟩

section Raise

variable {α : Type} {a : α} {Q : α → State → Prop} {R : Raise → State → Prop}

theorem ends_raiseRead_ok : Ends (raiseRead (.ok a)) s Q R ↔ Q a s := Iff.rfl

theorem ends_raiseFault_ok : Ends (raiseFault (.ok a)) s Q R ↔ Q a s := Iff.rfl

end Raise

theorem raiseRead_ends {α : Type} {x : Except ErrorData α} {c : Prop} {Q : α → Prop}
    (h : Checks x c Q) : Ends (raiseRead x) s (fun a s' => s' = s ∧ c ∧ Q a) (fun _ _ => ¬ c) := by
  cases x with
  | ok => exact ⟨rfl, h⟩
  | error => exact h

section Read

variable (htry : env.useTryBlock = true) (s : State)

include htry

theorem checks_insertChange (m : InsertMessage) :
    Checks (insertChange env s m) (m.isReadable (env.catalog s) = true)
      (· = insertedRow env s m) := by
  unfold insertChange
  rw [htry]
  refine (checks_map _ (checks_spockReadInsert (env.catalog s) m)).mono Iff.rfl fun r hr => ?_
  rw [hr, Option.map_map]
  rfl

theorem checks_updateChange (m : UpdateMessage) :
    Checks (updateChange env s m) (m.isReadable (env.catalog s) = true)
      fun r => r.map (·.rel) = (env.catalog s).opened m.relid := by
  unfold updateChange
  rw [htry]
  refine (checks_map _ (checks_spockReadUpdate (env.catalog s) m)).mono Iff.rfl fun r hr => ?_
  rw [hr, Option.map_map, Option.map_map]
  exact congrFun Option.map_id _

theorem checks_deleteChange (m : DeleteMessage) :
    Checks (deleteChange env s m) (m.isReadable (env.catalog s) = true)
      fun r => r.map (·.rel) = (env.catalog s).opened m.relid := by
  unfold deleteChange
  rw [htry]
  refine (checks_map _ (checks_spockReadDelete (env.catalog s) m)).mono Iff.rfl fun r hr => ?_
  rw [hr, Option.map_map, Option.map_map]
  exact congrFun Option.map_id _

end Read

/-- After an INSERT, the message of a row that goes into the queue. -/
theorem handleInserted_filter (b : Bool) (r : Option RowChange) :
    handleInserted env b (r.filter fun c => shouldApplyChangesForRel env c.rel) =
      (r.filter fun c => env.queues c.rel).elim (pure ⟨⟩) fun c =>
        handleQueuedMessage env (c.newtup.getD []) b := by
  cases r with
  | none => rfl
  | some c =>
    rw [filter_some, filter_some, Env.queues]
    cases shouldApplyChangesForRel env c.rel with
    | false => rfl
    | true =>
      by_cases hqueue : c.rel.table.reloid = env.queueRelid <;> simp [handleInserted, hqueue]

/-- The state of a pass that has written nothing but log rows. -/
structure Clean (s : State) : Prop where
  readOnly : s.xact ≠ some false
  logs : ∀ w ∈ s.writes, w.isLog = true

theorem Clean.discarded (h : Clean s) (hd : Discarded s s') : Clean s' := by
  obtain ⟨l, hl, hlog⟩ := hd.writes
  refine ⟨hd.readOnly h.readOnly, fun w hw => ?_⟩
  rw [hl] at hw
  exact (mem_append.mp hw).elim (h.logs w) (hlog w)

theorem Clean.statements (h : Clean s) : s.statements = [] := by
  refine filterMap_eq_nil_iff.mpr fun w hw => ?_
  cases w with
  | statement => exact absurd (h.logs _ hw) (by simp [Write.isLog])
  | _ => rfl

/-- What was handled is discarded exactly when `c`: otherwise something else was written. -/
def DiscardedWhen (c : Bool) (s s' : State) : Prop :=
  (c = true → Discarded s s') ∧ (c = false → WritesMore s s')

theorem DiscardedWhen.after (hd : Discarded s s') (h : DiscardedWhen c s' s₂) :
    DiscardedWhen c s s₂ :=
  ⟨fun hc => hd.trans (h.1 hc), fun hc => (h.2 hc).after hd⟩

/-- A handler that logs what the entry that began in `s₀` leaves, and discards what it handles
exactly when `c`, if nothing but log rows was written before it. If it does not, it may raise. -/
def DiscardsWhen (env : Env) (c : Bool) (items : List LogItem) (s₀ : State) (x : Handler)
    (s : State) : Prop :=
  Ends x s (fun _ s' => Logs env items s₀ s' ∧ (Clean s → DiscardedWhen c s s'))
    fun _ _ => Clean s → c = false

variable {items items' : List LogItem} {s₀ : State}

theorem DiscardsWhen.after (hl : Logs env items s₀ s') (hd : Discarded s s')
    (h : DiscardsWhen env c items' s' x s') :
    Ends x s' (fun _ s₂ => Logs env (items ++ items') s₀ s₂ ∧ (Clean s → DiscardedWhen c s s₂))
      fun _ _ => Clean s → c = false :=
  Ends.mono h
    (fun _ _ h₂ => ⟨hl.trans h₂.1, fun hclean => (h₂.2 (hclean.discarded hd)).after hd⟩)
    fun _ _ hc hclean => hc (hclean.discarded hd)

section DryRun

variable (hdry : env.dryRun = true)

include hdry

theorem applyChange_dryRun (rel : Option OpenedRelation) (oldtup newtup : Option Tuple)
    (apply : List Write → Except Fault (List Write)) (name : String) (s : State) :
    Ends (applyChange env rel oldtup newtup apply name) s
      (fun _ s' => Logs env [.tuple] s s' ∧ Discarded s s') (fun _ _ => False) := by
  unfold applyChange
  rw [ite_dryRun hdry, discardRow, ends_bind, ends_modify, ends_bind, ends_get]
  have hcount : Discarded s s.countCommand := discarded_of_eq rfl rfl rfl
  exact ⟨logs_logException hdry _ rfl rfl rfl rfl rfl (initialError_getD env s.countCommand _),
    hcount.trans (discarded_write_ite _ rfl)⟩

theorem handleRow_dryRun {c : Prop} {P : Option RowChange → Prop} (hread : Checks read c P)
    (name : String) (s : State) :
    Ends (handleRow env name read) s
      (fun res s' => c ∧ ∃ r, P r ∧ res = (r.filter fun ch => shouldApplyChangesForRel env ch.rel) ∧
        Logs env (env.rowItems (r.map (·.rel))) (s.beginAction env) s' ∧ Discarded s s')
      (fun _ _ => ¬ c) := by
  have hbegin := discarded_beginAction hdry s
  unfold handleRow
  rw [ends_bind, ends_modify, ends_bind]
  refine (raiseRead_ends hread).imp ?_
  rintro res _ ⟨rfl, hc, hres⟩
  cases res with
  | none =>
    rw [ends_bind, logMissingRelation, ends_bind, ends_modify]
    have hcount : Discarded s (s.beginAction env).setHadException.countCommand :=
      hbegin.trans (discarded_of_eq rfl rfl rfl)
    exact ⟨hc, none, hres, rfl, logs_logException hdry _ rfl rfl rfl rfl rfl rfl,
      hcount.trans (discarded_write_ite _ rfl)⟩
  | some ch =>
    rw [ends_ite]
    refine ⟨fun happly => ?_, fun hskip => ⟨hc, _, hres, ?_, ?_, hbegin⟩⟩
    · rw [ends_bind]
      refine (applyChange_dryRun hdry _ _ _ _ name _).mono ?_ fun _ _ h => h.elim
      rintro _ s' ⟨hl, hd⟩
      refine ⟨hc, _, hres, by rw [filter_some, if_pos happly], ?_, hbegin.trans hd⟩
      rwa [map_some, Env.rowItems, if_pos happly]
    · rw [filter_some, if_neg hskip]
    · rw [map_some, Env.rowItems, if_neg hskip]
      exact logs_nil rfl rfl rfl rfl

theorem handleSqlOrException_dryRun (q : QueuedMessage) (b : Bool) (s : State) :
    DiscardsWhen env true [.statement] s (handleSqlOrException env q b) s := by
  unfold DiscardsWhen handleSqlOrException
  rw [ends_bind, ends_modify, ite_dryRun hdry, ends_bind, ends_modify, ends_bind, ends_get]
  have hcount : Discarded s (s.beginReplicationStep env).countCommand :=
    (discarded_beginReplicationStep hdry s).trans (discarded_of_eq rfl rfl rfl)
  refine ⟨logs_logException hdry _ rfl rfl rfl rfl rfl ?_, fun _ =>
    ⟨fun _ => hcount.trans (discarded_write_ite _ rfl), nofun⟩⟩
  exact initialError_getD env (s.beginReplicationStep env).countCommand _

end DryRun

theorem hasTableSyncStatus_clean (hclean : Clean s) (rv : String × String) :
    hasTableSyncStatus env s rv = (env.localSyncStatus []).any (·.isOf rv) := by
  -- nothing of the pass itself made a status
  have hnone : s.writes.any (·.isSyncStatusOf rv) = false := by
    rw [List.any_eq_false]
    intro w hw
    cases w with
    | syncStatus => exact absurd (hclean.logs _ hw) (by simp [Write.isLog])
    | _ => simp [Write.isSyncStatusOf]
  rw [hasTableSyncStatus, hclean.statements, hnone, Bool.or_false]

theorem handleTableSync_dryRun (q : QueuedMessage) (s : State) :
    DiscardsWhen env (match parseRelationMessage env.sub q.message with
      | .ok rv => (env.localSyncStatus []).any (·.isOf rv)
      | .error _ => false) [] s (handleTableSync env q) s := by
  unfold DiscardsWhen handleTableSync
  cases parseRelationMessage env.sub q.message with
  | error => exact fun _ => rfl
  | ok rv =>
    rw [ends_bind, ends_raiseRead_ok, ends_bind, ends_get, ends_ite]
    refine ⟨fun hstatus => ⟨logs_nil rfl rfl rfl rfl, fun hclean => ?_⟩, fun hstatus =>
      ⟨logs_write rfl rfl rfl rfl rfl rfl, fun hclean => ?_⟩⟩
    · rw [hasTableSyncStatus_clean hclean] at hstatus
      exact ⟨fun _ => discarded_of_eq rfl rfl rfl,
        fun h => absurd (hstatus.symm.trans h) (by decide)⟩
    · rw [hasTableSyncStatus_clean hclean] at hstatus
      exact ⟨fun h => absurd h hstatus, fun _ => ⟨_, rfl, _, mem_singleton.mpr rfl, rfl⟩⟩

theorem checks_setvalOid (sequences : List SequenceRelation) (readOnly : Bool) (reloid : Nat)
    (value : Int) :
    Checks (setvalOid sequences readOnly reloid value)
      (((sequences.find? (·.reloid == reloid)).any fun seq =>
        seq.isSequence && (seq.isLocalTemp || !readOnly) &&
          (seq.minValue ≤ value && value ≤ seq.maxValue)) = true)
      (· = [.sequence reloid value]) := by
  unfold setvalOid
  cases sequences.find? (·.reloid == reloid) with
  | none => exact Bool.false_ne_true
  | some seq =>
    refine (checks_ite fun _ => checks_ite fun _ => checks_ite fun _ => checks_pure _).iff ?_
    cases htemp : seq.isLocalTemp <;> simp [htemp, and_assoc]

theorem ends_handleSequence (q : QueuedMessage) (s : State) :
    Ends (handleSequence env q) s
      (fun _ s' => env.setsSequence s q = true ∧
        ∃ reloid value, s' = s.write [.sequence reloid value])
      fun _ _ => ¬ env.setsSequence s q = true := by
  unfold handleSequence Env.setsSequence
  rw [ends_bind]
  cases parseSequenceMessage env.sub q.message with
  | error => exact Bool.false_ne_true
  | ok fields =>
    obtain ⟨nspname, relname, lastValue⟩ := fields
    rw [ends_raiseRead_ok, ends_bind, ends_get, ends_ite]
    dsimp only
    refine ⟨fun hschema => ?_, fun hschema => ?_⟩
    · simp [hschema]
    · rw [ends_bind, decide_eq_true (not_not.mp hschema), Bool.true_and]
      cases env.pgStrtoint64 lastValue with
      | error => exact Bool.false_ne_true
      | ok value =>
        rw [ends_raiseFault_ok, applyOrRaise, ends_bind, ends_get, ends_bind]
        have hset := checks_setvalOid (env.sequences s.statements) (s.xact.getD false)
          ((((env.sequences s.statements).find? fun r =>
            r.nspname == nspname && r.relname == relname).map (·.reloid)).getD 0) value
        cases hrun : setvalOid (env.sequences s.statements) (s.xact.getD false) _ value with
        | error =>
          rw [hrun] at hset
          exact hset
        | ok =>
          rw [hrun] at hset
          exact ⟨hset.1, _, _, by rw [← hset.2]⟩

theorem handleQueuedMessage_dryRun (hdry : env.dryRun = true) (tuple : Tuple) (b : Bool)
    (s : State) :
    DiscardsWhen env (env.discardsQueued tuple) (env.queuedItems tuple) s
      (handleQueuedMessage env tuple b) s := by
  unfold DiscardsWhen handleQueuedMessage Env.discardsQueued Env.queuedItems
  rw [ends_bind, ends_modify, ends_bind]
  cases env.queuedMessageFromTuple tuple with
  | error => exact fun _ => rfl
  | ok q =>
    rw [ends_raiseFault_ok]
    refine DiscardsWhen.after (logs_nil rfl rfl rfl rfl : Logs env [] s (s.execute tuple))
      (discarded_of_eq rfl rfl rfl) ?_
    dsimp only
    cases q.command with
    | sql => exact handleSqlOrException_dryRun hdry q b _
    | tablesync => exact handleTableSync_dryRun q _
    | sequence =>
      refine Ends.mono (ends_handleSequence q _) ?_ fun _ _ _ _ => rfl
      rintro _ _ ⟨-, _, _, rfl⟩
      exact ⟨logs_write rfl rfl rfl rfl rfl rfl,
        fun _ => ⟨nofun, fun _ => ⟨_, rfl, _, mem_singleton.mpr rfl, rfl⟩⟩⟩
    | unknown => exact fun _ => rfl

theorem discardsWhen_skipping (s : State) (h : DiscardsWhen env c items (s.beginAction env) x s) :
    DiscardsWhen env (env.isSkippingChanges || c) (if env.isSkippingChanges then [] else items)
      (if env.isSkippingChanges then s else s.beginAction env)
      (if env.isSkippingChanges then pure ⟨⟩ else x) s := by
  cases env.isSkippingChanges with
  | true => exact ⟨logs_nil rfl rfl rfl rfl, fun _ => ⟨fun _ => discarded_of_eq rfl rfl rfl, nofun⟩⟩
  | false => exact h

theorem discardsWhen_row (hdry : env.dryRun = true) {o : Option OpenedRelation}
    (hread : Checks read (c = true) fun r => r.map (·.rel) = o) (name : String) (s : State) :
    DiscardsWhen env c (env.rowItems o) (s.beginAction env)
      (do let _ ← handleRow env name read) s := by
  unfold DiscardsWhen
  rw [ends_bind]
  refine (handleRow_dryRun hdry hread name s).mono ?_ fun _ _ h _ => Bool.eq_false_iff.mpr h
  rintro _ s' ⟨hc, r, rfl, -, hl, hd⟩
  exact ⟨hl, fun _ => ⟨fun _ => hd, fun hfalse => absurd (hc.symm.trans hfalse) (by decide)⟩⟩

theorem ends_handleMessage (env : Env) (m : WalMessageBody) (s : State) :
    Ends (handleMessage m) s (fun _ s' => m.isSyncEvent = true ∧ Logs env [] s s' ∧ Discarded s s')
      fun _ _ => ¬ m.isSyncEvent = true := by
  unfold handleMessage WalMessageBody.isSyncEvent
  rw [ends_ite]
  refine ⟨fun hbad => ?_, fun hgood => ends_ite.mpr ⟨fun hsync => ?_, fun hsync => ?_⟩⟩
  · rw [ends_throw]
    rcases hbad with hlsn | hname
    · simp [hlsn]
    · simp [hname]
  · obtain ⟨hlsn, hname⟩ := not_or.mp hgood
    have hok :
        (m.lsn != 0 && m.messagePrefix == "Spock" && m.mtype == spockSyncEventMsg) = true := by
      simp [hlsn, not_not.mp hname, hsync]
    exact ends_ite.mpr
      ⟨fun _ => ⟨hok, logs_nil rfl rfl rfl rfl, discarded_of_eq rfl rfl rfl⟩,
        fun _ => ⟨hok, logs_nil rfl rfl rfl rfl, discarded_of_eq rfl rfl rfl⟩⟩
  · rw [ends_throw]
    simp [hsync]

theorem handleInsert_dryRun (hdry : env.dryRun = true) (m : InsertMessage) (s : State) :
    DiscardsWhen env (env.discards (env.catalog s) (.insert m))
      (env.logItems (env.catalog s) (.insert m)) (env.entered s (.insert m)) (handleInsert env m)
      s := by
  refine discardsWhen_skipping s ?_
  unfold DiscardsWhen
  rw [ends_bind, ends_get, ends_bind]
  have hread := checks_insertChange (tries_of_dryRun hdry) s m
  refine (handleRow_dryRun hdry hread "INSERT" s).mono ?_ fun _ _ h _ => ?_
  · rintro _ s' ⟨hc, _, rfl, rfl, hl, hd⟩
    rw [hc, Bool.true_and, handleInserted_filter]
    unfold insertedRow at hl ⊢
    dsimp only
    cases hopened : (env.catalog s).opened m.relid with
    | none =>
      rw [hopened] at hl
      exact ⟨hl, fun _ => ⟨fun _ => hd, nofun⟩⟩
    | some rel =>
      rw [hopened] at hl
      rw [map_some, filter_some, filter_some]
      cases hqueues : env.queues rel with
      | false =>
        exact ⟨(append_nil (env.rowItems (some rel))).symm ▸ hl, fun _ => ⟨fun _ => hd, nofun⟩⟩
      | true => exact (handleQueuedMessage_dryRun hdry _ _ s').after hl hd
  · rw [Bool.eq_false_iff.mpr h]
    rfl

/-- **One entry.** -/
theorem handleEntry_dryRun (hdry : env.dryRun = true) (e : PassEntry) (s : State) :
    DiscardsWhen env (env.discards (env.catalog s) e) (env.logItems (env.catalog s) e)
      (env.entered s e) (handleEntry env e) s := by
  cases e with
  | relation =>
    rw [Env.logItems, ite_self]
    exact ⟨logs_nil rfl rfl rfl rfl, fun _ => ⟨fun _ => discarded_of_eq rfl rfl rfl, nofun⟩⟩
  | insert m => exact handleInsert_dryRun hdry m s
  | update m =>
    exact discardsWhen_skipping s
      (discardsWhen_row hdry (checks_updateChange (tries_of_dryRun hdry) s m) "UPDATE" s)
  | delete m =>
    exact discardsWhen_skipping s
      (discardsWhen_row hdry (checks_deleteChange (tries_of_dryRun hdry) s m) "DELETE" s)
  | truncate m =>
    have htruncate : DiscardsWhen env true [.tuple] (s.beginAction env) (do
        let s ← get
        modify (·.beginAction env)
        applyChange env none none none (applyTruncate env (env.catalog s) m) "TRUNCATE") s := by
      unfold DiscardsWhen
      rw [ends_bind, ends_get, ends_bind, ends_modify]
      refine (applyChange_dryRun hdry none none none _ "TRUNCATE" _).mono ?_ fun _ _ h => h.elim
      exact fun _ s' hs' => ⟨hs'.1, fun _ =>
        ⟨fun _ => (discarded_beginAction hdry s).trans hs'.2, nofun⟩⟩
    have hskip := discardsWhen_skipping s htruncate
    rw [Bool.or_true] at hskip
    exact hskip
  | message m =>
    rw [Env.logItems, ite_self]
    refine Ends.mono (ends_handleMessage env m s) ?_ fun _ _ h _ => Bool.eq_false_iff.mpr h
    rintro _ s' ⟨hsync, hl, hd⟩
    exact ⟨hl, fun _ => ⟨fun _ => hd, fun hfalse => absurd (hsync.symm.trans hfalse) (by decide)⟩⟩

/-- Without statements, what an entry changes of the catalogs is what its RELATION message says. -/
theorem catalog_after {e : PassEntry} (h : Logs env items (env.entered s e) s') :
    env.catalog s' = (env.catalog s).after e := by
  have hstatements : s'.statements = s.statements :=
    h.statements.trans (entered_eq (fun _ => rfl) (fun _ _ => rfl) s e)
  have hremote : s'.remote = ((env.catalog s).after e).remote := by
    rw [h.remote]
    cases e with
    | relation | message => rfl
    | _ =>
      unfold Env.entered
      dsimp only
      split <;> rfl
  have hafter : (env.catalog s).after e = { env.catalog s with
      remote := ((env.catalog s).after e).remote } := by cases e <;> rfl
  rw [hafter, ← hremote, Env.catalog, hstatements]
  rfl

/-! ## The pass -/

def Appends (s s' : State) : Prop := s.writes <+: s'.writes

instance : IsPreorder State Appends where
  refl _ := List.prefix_refl _
  trans _ _ _ h h' := List.IsPrefix.trans h h'

theorem updates_appends : Updates Appends := by
  constructor <;> intros <;> first | exact prefix_append _ _ | exact prefix_refl _

theorem keeps_handleEntries (entries : List PassEntry) :
    Keeps Appends (handleEntries env entries) := by
  induction entries with
  | nil => exact keeps_pure _
  | cons e _ ih =>
    refine keeps_bind (fun s => ?_) fun _ => ih
    have hentry := @handleEntry_ends_of env _ _ _ updates_appends e s
    unfold Appends at hentry ⊢
    rwa [entered_eq (f := State.writes) (fun _ => rfl) (fun _ _ => rfl)] at hentry

theorem WritesMore.before (h : WritesMore s s') (ha : Appends s' s₂) : WritesMore s s₂ := by
  obtain ⟨l, hl, w, hw, hlog⟩ := h
  obtain ⟨l', hl'⟩ := ha
  exact ⟨l ++ l', by rw [← hl', hl, append_assoc], w, mem_append_left _ hw, hlog⟩

/-- The entries of a transaction: the induction is over those still to come, from a state in which
everything so far was discarded. -/
theorem handleEntries_dryRun (hdry : env.dryRun = true) (entries : List PassEntry)
    (hclean : Clean s) :
    Ends (handleEntries env entries) s
      (fun _ s' => DiscardedWhen (env.discardsAll (env.catalog s) entries) s s')
      fun _ _ => env.discardsAll (env.catalog s) entries = false := by
  induction entries generalizing s with
  | nil => exact ⟨fun _ => discarded_of_eq rfl rfl rfl, nofun⟩
  | cons e entries ih =>
    unfold handleEntries
    rw [ends_bind, Env.discardsAll]
    refine Ends.mono (handleEntry_dryRun hdry e s) ?_ fun _ _ hc => by
      rw [hc hclean, Bool.false_and]
    rintro _ s' ⟨hlogs, hs'⟩
    obtain ⟨hdiscard, hmore⟩ := hs' hclean
    cases hc : env.discards (env.catalog s) e with
    | true =>
      have hd := hdiscard hc
      rw [Bool.true_and, ← catalog_after hlogs]
      exact (ih (hclean.discarded hd)).imp fun _ _ h => h.after hd
    | false =>
      refine (keeps_handleEntries entries s').mono ?_ fun _ _ _ => rfl
      exact fun _ s₂ ha => ⟨nofun, fun _ => (hmore hc).before ha⟩

def State.afterBegin (remote : List RemoteRelation) (commandCounter : Nat) (syncPending : Bool) :
    State :=
  ⟨remote, none, 1, commandCounter, false, [], syncPending, [], []⟩

theorem pass_dryRun (hdry : env.dryRun = true) (entries : List PassEntry) (hclean : Clean s) :
    Ends (pass env entries) s
      (fun _ s' => DiscardedWhen (env.discardsAll (env.catalog s) entries) s s')
      fun _ _ => env.discardsAll (env.catalog s) entries = false := by
  unfold pass
  rw [ends_bind]
  refine (handleEntries_dryRun hdry entries hclean).imp ?_
  rintro _ s' ⟨hdiscard, hmore⟩
  exact ⟨fun hc => (hdiscard hc).trans (discarded_write_ite s' rfl),
    fun hc => (hmore hc).before (prefix_append _ _)⟩

/-- **A pass that discards.** In TRANSDISCARD and SUB_DISABLE mode the pass over a transaction goes
through, and writes nothing but log rows and the cleared skip LSN, if and only if each of its
entries can be discarded: a RELATION message; a row whose relation is known by then and, if there is
a local table for it, has all its columns and takes all its values; an INSERT into the queue of a
statement or of a TABLESYNC for a table that has a status; a TRUNCATE; a sync event. -/
theorem pass_discards_iff (hdry : env.dryRun = true) (entries : List PassEntry)
    (remote : List RemoteRelation) (commandCounter : Nat) (syncPending : Bool) :
    (∃ s', pass env entries (State.afterBegin remote commandCounter syncPending) = .ok ⟨⟩ s' ∧
      OnlyLogs (State.afterBegin remote commandCounter syncPending) s') ↔
    env.discardsAll ⟨remote, env.tables [], env.deltaFunctions []⟩ entries = true := by
  set s := State.afterBegin remote commandCounter syncPending with hs
  have hpass := pass_dryRun hdry entries (s := s) ⟨nofun, nofun⟩
  unfold Ends at hpass
  have hcatalog : env.catalog s = ⟨remote, env.tables [], env.deltaFunctions []⟩ := rfl
  rw [hcatalog] at hpass
  cases hrun : pass env entries s with
  | error =>
    rw [hrun] at hpass
    rw [show env.discardsAll _ entries = false from hpass]
    simp
  | ok a s' =>
    rw [hrun] at hpass
    refine ⟨?_, fun hc => ⟨s', rfl, (hpass.1 hc).toOnlyLogs⟩⟩
    rintro ⟨s₂, heq, honly⟩
    obtain rfl : s' = s₂ := (EStateM.Result.ok.inj heq).2
    by_contra hc
    -- a write that is no log row would be among the log rows
    obtain ⟨l, hl, w, hw, hlog⟩ := hpass.2 (Bool.eq_false_iff.mpr hc)
    obtain ⟨_, hl', hlogs⟩ := honly.writes
    rw [append_cancel_left (hl.symm.trans hl')] at hw
    rw [hlogs w hw] at hlog
    cases hlog

/-! ## A small database -/

def sampleRemote : List RemoteRelation :=
  [⟨1, "public", "t", ["a"]⟩, ⟨2, "spock", "queue", ["message"]⟩]

/-- The table `public.t` and the queue. The statement `ALTER` adds the column `b` to the table. A
tuple of the queue is named after the message it holds. -/
def sampleEnv (config : WorkerConfig) : Env where
  sub := ⟨"sub", 0, false⟩
  config := config
  useTryBlock := true
  isSkippingChanges := false
  failedAction := 2
  initialErrorMessage := "duplicate key value violates unique constraint"
  sessionOriginLsn := 20
  clearsSkip := false
  queueRelid := 20
  syncingTables := []
  localSyncStatus := fun _ => [⟨"public", "t", .ready, 0⟩]
  tables := fun statements =>
    [⟨10, "public", "t", ⟨"a", 25, none⟩ ::
        if "ALTER" ∈ statements then [⟨"b", 25, none⟩] else []⟩,
      ⟨20, "spock", "queue", [⟨"message", 114, none⟩]⟩]
  deltaFunctions := fun _ => []
  namespaces := fun _ => ["public"]
  sequences := fun _ => [⟨30, "public", "s", true, false, 1, 100⟩]
  queuedMessageFromTuple := fun tuple =>
    if tuple = [some (some "tablesync")] then
      .ok ⟨'A', "u", .object [("schema_name", .string "public"), ("table_name", .string "u")]⟩
    else if tuple = [some (some "sequence")] then
      .ok ⟨'S', "u", .object [("last_value", .string "7"), ("schema_name", .string "public"),
        ("sequence_name", .string "s")]⟩
    else if tuple = [some (some "nowhere")] then
      .ok ⟨'S', "u", .object [("last_value", .string "7"), ("schema_name", .string "nowhere"),
        ("sequence_name", .string "s")]⟩
    else if tuple = [some (some "alter")] then .ok ⟨'D', "u", .string "ALTER"⟩
    else .ok ⟨'Q', "u", .string "SELECT 1"⟩
  jsonbToCString := fun _ => "\"SELECT 1\""
  pgStrtoint64 := fun _ => .ok 7
  heapInsert := fun writes rel tuple =>
    if .row rel.table.reloid (some tuple) ∈ writes then
      .error ⟨⟨.uniqueViolation, "duplicate key value violates unique constraint"⟩, false⟩
    else .ok [.row rel.table.reloid (some tuple)]
  heapUpdate := fun _ rel _ tuple => .ok [.row rel.table.reloid (some tuple)]
  heapDelete := fun _ rel _ => .ok [.row rel.table.reloid none]
  executeTruncateGuts := fun _ rels _ => .ok (rels.map fun rel => .row rel.table.reloid none)
  executeSqlCommand := fun _ sql _ _ => .ok [.statement sql]

def sampleInsert (relid : Nat) (value : String) : PassEntry :=
  .insert ⟨relid, 'N', ⟨'T', [.sent fun _ => .ok value]⟩⟩

/-- The table has a column `b` at its origin, and a row with it. -/
def sampleWider : List PassEntry :=
  [.relation ⟨1, "public", "t", ["a", "b"]⟩,
    .insert ⟨1, 'N', ⟨'T', [.sent fun _ => .ok "x", .sent fun _ => .ok "y"]⟩⟩]

theorem pass_discards_iff_statement :
    ∃ s', pass (sampleEnv ⟨.transdiscard, .all, false⟩)
        [sampleInsert 1 "x", sampleInsert 2 "statement"]
        (State.afterBegin sampleRemote 0 false) = .ok ⟨⟩ s' ∧
      OnlyLogs (State.afterBegin sampleRemote 0 false) s' :=
  (pass_discards_iff (by decide) _ sampleRemote 0 false).mpr (by decide)

/-- **A transaction that is not discarded**: the TABLESYNC is carried out. **And transactions that
cannot be**: a SEQUENCE raises, and so does a row with a column that the local table lacks, which is
what is left of a transaction whose `ALTER TABLE` the replay does not execute. -/
theorem pass_discards_not :
    (∃ s', pass (sampleEnv ⟨.transdiscard, .all, false⟩) [sampleInsert 2 "tablesync"]
        (State.afterBegin sampleRemote 0 false) = .ok ⟨⟩ s' ∧
      .syncStatus ⟨"public", "u", .init, 0⟩ ∈ s'.writes ∧ s'.syncPending = true) ∧
    (∃ s', pass (sampleEnv ⟨.transdiscard, .all, false⟩) [sampleInsert 2 "sequence"]
        (State.afterBegin sampleRemote 0 false) = .error (.error ⟨⟨.readOnlySqlTransaction,
          "cannot execute setval() in a read-only transaction"⟩, false⟩) s') ∧
    ∃ s', pass (sampleEnv ⟨.transdiscard, .all, false⟩) (sampleInsert 2 "alter" :: sampleWider)
      (State.afterBegin sampleRemote 0 false) =
        .error (.error ⟨elogError "unknown column name b", false⟩) s' :=
  ⟨⟨_, rfl, by decide, rfl⟩, ⟨_, rfl⟩, ⟨_, rfl⟩⟩

end Spock.Pass
