import Mathlib.Algebra.Group.Int.Defs
import Spock.Lib.ByteFile
import Spock.Lib.Bytes
import Spock.Lib.Machine

/-!
# Spock — the replay queue

`apply_work` keeps every `'w'` message of the transaction it is applying, so that the transaction
can be handled once more after an error. The first messages are kept in a linked list; once their
size exceeds `spock.exception_replay_queue_size` the following ones go to a temporary file. A flag
says whether messages come from the queue or from the stream, a pointer and a counter say where in
the list and in the file a replay stands.

What the queue is for is a log that is appended to, read from its start any number of times, and
emptied (`ReplayLog`). The queue does this as long as its 32-bit counter of spilled messages does
not overflow and no spilled message is longer than `palloc` allows:

* **`replayQueue_is_log`** — every sequence of events.
-/

namespace Spock.Replay

open Machine Runs List Option

/-! ## Messages -/

/-- A message as libpq delivers it: not empty, and its length fits an `int`. -/
structure CopyData where
  data : List UInt8
  nonempty : 0 < data.length
  lengthFits : data.length < 2 ^ 31
  deriving DecidableEq

/-- `MaxAllocSize`. -/
def maxAllocSize : Nat := 0x3fffffff

/-- A C `int`. -/
def int32 (x : Int) : Int := (x + 2 ^ 31) % 2 ^ 32 - 2 ^ 31

/-- `ApplyReplayEntry`; a pointer is an index into the memory context. -/
structure ReplayEntry where
  copydata : List UInt8
  fromPq : Bool
  next : Option Nat
  deriving DecidableEq

def ReplayEntry.ofPq (buf : List UInt8) : ReplayEntry := ⟨buf, true, none⟩

/-- The statics of the queue. Memory that is freed stays in `context` and is not used again. -/
structure ReplayQueue where
  context : List ReplayEntry
  head : Option Nat
  tail : Option Nat
  next : Option Nat
  bytes : Nat
  mode : Bool
  spillFile : Option ByteFile
  spilling : Bool
  spillCount : Int
  spillRead : Int
  deriving DecidableEq

namespace ReplayQueue

def initial : ReplayQueue := ⟨[], none, none, none, 0, false, none, false, 0, 0⟩

/-- `apply_replay_entry_create`. -/
def entryCreate (q : ReplayQueue) (buf : List UInt8) : Nat × ReplayQueue :=
  (q.context.length, { q with context := q.context ++ [.ofPq buf] })

/-- `apply_replay_spill_write_entry`: the length, then the data. -/
def spillWriteEntry (q : ReplayQueue) (data : List UInt8) : ReplayQueue :=
  { q with
    spillCount := int32 (q.spillCount + 1)
    spillFile := q.spillFile.map fun f => (f.write (Bytes.le 4 data.length)).write data }

def validLength (len : Int) : Bool := 0 < len && len ≤ maxAllocSize

/-- `apply_replay_spill_read_entry`; `none` if it raises. -/
def spillReadEntry (q : ReplayQueue) : Option (ReplayEntry × ReplayQueue) := do
  let f ← q.spillFile
  let (lenBytes, f) := f.read 4
  let len := int32 (Bytes.ofLe lenBytes)
  if lenBytes.length = 4 && validLength len then
    let (data, f) := f.read len.toNat
    if data.length = len.toNat then
      some (⟨data, false, none⟩,
        { q with spillFile := some f, spillRead := int32 (q.spillRead + 1) })
    else none
  else none

/-- `apply_replay_queue_reset`. -/
def queueReset (q : ReplayQueue) : ReplayQueue :=
  { q with
    head := none, tail := none, next := none, bytes := 0, mode := false
    spillFile := none, spilling := false, spillCount := 0, spillRead := 0
    context := [] }

/-- `apply_replay_queue_next_entry`: the entry, if there is one; `none` if it raises. -/
def queueNextEntry (q : ReplayQueue) : Option (Option ReplayEntry × ReplayQueue) :=
  match q.next with
  | some p => (q.context[p]?).map fun entry => (some entry, { q with next := entry.next })
  | none =>
    if q.spilling && q.spillRead < q.spillCount then
      q.spillReadEntry.map fun (entry, q) => (some entry, q)
    else some (none, { q with mode := false })

/-- The in-memory limit, in MB, is exceeded; the size is a `uint64`. -/
def exceedsLimit (q : ReplayQueue) (replayQueueSize len : Nat) : Bool :=
  0 < replayQueueSize && replayQueueSize * 1024 * 1024 < (q.bytes + len) % 2 ^ 64

def spills (q : ReplayQueue) (replayQueueSize len : Nat) : Bool :=
  q.spilling || q.exceedsLimit replayQueueSize len

def activateSpill (q : ReplayQueue) : ReplayQueue :=
  { q with spillFile := some ByteFile.empty, spilling := true, bytes := 0 }

def link (q : ReplayQueue) (p : Nat) (data : List UInt8) : ReplayQueue :=
  { q with
    bytes := (q.bytes + data.length) % 2 ^ 64
    context :=
      if q.head.isNone then q.context
      else q.tail.elim q.context fun t =>
        q.context.modify t fun entry => { entry with next := some p }
    head := q.head.or (some p)
    tail := some p }

/-- `apply_replay_queue_append_entry`: whether the caller is to free the entry, and the queue. -/
def queueAppendEntry (q : ReplayQueue) (replayQueueSize : Nat) (p : Nat) (data : List UInt8) :
    Bool × ReplayQueue :=
  let q := if !q.spilling && q.exceedsLimit replayQueueSize data.length then q.activateSpill else q
  if q.spilling then (true, q.spillWriteEntry data) else (false, q.link p data)

/-- `apply_replay_queue_start_replay`. -/
def queueStartReplay (q : ReplayQueue) : ReplayQueue :=
  { q with
    next := q.head, mode := true
    spillFile := if q.spilling then q.spillFile.map ByteFile.rewind else q.spillFile
    spillRead := if q.spilling then 0 else q.spillRead }

end ReplayQueue

/-! ## The events of `apply_work` -/

/-- A `'w'` message from the stream, with the setting in force; any other message from the stream;
the next entry of the queue; an error, which starts a replay; a COMMIT, which resets the queue. -/
inductive QueueEvent where
  | receive (replayQueueSize : Nat) (m : CopyData)
  | other (m : CopyData)
  | next
  | fail
  | commit
  deriving DecidableEq

abbrev Delivery := Option (List UInt8)

/-- An event and what the queue delivers in it. Messages are taken from the stream exactly when the
queue is not in replay mode. -/
def ReplayQueue.step (q : ReplayQueue) : QueueEvent → Option (List Delivery × ReplayQueue)
  | .receive size m =>
    if q.mode then none
    else
      let (p, q) := q.entryCreate m.data
      some ([], (q.queueAppendEntry size p m.data).2)
  | .other m => if q.mode then none else some ([], (q.entryCreate m.data).2)
  | .next =>
    if q.mode then q.queueNextEntry.map fun (entry, q) => ([entry.map (·.copydata)], q) else none
  | .fail => some ([], q.queueStartReplay)
  | .commit => some ([], q.queueReset)

/-! ## The log -/

/-- A log of messages, and those still to be replayed, if it is being replayed. -/
structure ReplayLog where
  log : List (List UInt8)
  replay : Option (List (List UInt8))
  deriving DecidableEq

namespace ReplayLog

def empty : ReplayLog := ⟨[], none⟩

/-- A message is appended; the log is read from its start; after its end the stream goes on. -/
def step (l : ReplayLog) : QueueEvent → Option (List Delivery × ReplayLog)
  | .receive _ m =>
    match l.replay with
    | none => some ([], { l with log := l.log ++ [m.data] })
    | some _ => none
  | .other _ =>
    match l.replay with
    | none => some ([], l)
    | some _ => none
  | .next =>
    match l.replay with
    | none => none
    | some [] => some ([none], { l with replay := none })
    | some (m :: rest) => some ([some m], { l with replay := some rest })
  | .fail => some ([], { l with replay := some l.log })
  | .commit => some ([], empty)

end ReplayLog

/-! ## The linked list -/

theorem int32_of_bounds {x : Int} (h : -2 ^ 31 ≤ x) (h' : x < 2 ^ 31) : int32 x = x := by
  unfold int32
  omega

/-- The entries at the addresses hold the messages, and each points to the next. The addresses
increase, because memory is not used again before it is reset. -/
structure Linked (context : List ReplayEntry) (addrs : List Nat) (mem : List (List UInt8)) :
    Prop where
  length : addrs.length = mem.length
  increasing : addrs.Pairwise (· < ·)
  entry : ∀ (i a : Nat) (m : List UInt8), addrs[i]? = some a → mem[i]? = some m →
    context[a]? = some ⟨m, true, addrs[i + 1]?⟩

namespace Linked

variable {context : List ReplayEntry} {addrs : List Nat} {mem : List (List UInt8)}

theorem nil : Linked [] [] [] := ⟨rfl, List.Pairwise.nil, by simp⟩

theorem message (h : Linked context addrs mem) {i a : Nat} (ha : addrs[i]? = some a) :
    ∃ m, mem[i]? = some m := by
  have hi : i < mem.length := h.length ▸ (List.getElem?_eq_some_iff.mp ha).1
  exact ⟨mem[i], List.getElem?_eq_getElem hi⟩

theorem lt_length (h : Linked context addrs mem) {a : Nat} (ha : a ∈ addrs) : a < context.length := by
  obtain ⟨i, hi⟩ := mem_iff_getElem?.mp ha
  obtain ⟨m, hm⟩ := h.message hi
  exact (List.getElem?_eq_some_iff.mp (h.entry i a m hi hm)).1

theorem alloc (h : Linked context addrs mem) (e : ReplayEntry) : Linked (context ++ [e]) addrs mem where
  __ := h
  entry i a m ha hm := by
    rw [getElem?_append_left (h.lt_length (mem_of_getElem? ha))]
    exact h.entry i a m ha hm

theorem first (h : Linked context [] mem) (m : List UInt8) :
    Linked (context ++ [ReplayEntry.ofPq m]) [context.length] (mem ++ [m]) := by
  have hmem : mem = [] := length_eq_zero_iff.mp h.length.symm
  subst hmem
  refine ⟨rfl, pairwise_singleton _ _, fun i a m' ha hm' => ?_⟩
  cases i with
  | zero =>
    cases ha
    cases hm'
    simp [ReplayEntry.ofPq]
  | succ => cases ha

theorem link (h : Linked context addrs mem) {t : Nat} (ht : addrs.getLast? = some t) (m : List UInt8) :
    Linked ((context ++ [ReplayEntry.ofPq m]).modify t fun e => { e with next := some context.length })
      (addrs ++ [context.length]) (mem ++ [m]) where
  length := by simp [h.length]
  increasing := by
    refine pairwise_append.mpr ⟨h.increasing, pairwise_singleton _ _, fun a ha b hb => ?_⟩
    rw [mem_singleton.mp hb]
    exact h.lt_length ha
  entry i a m' ha hm' := by
    have hlast : addrs[addrs.length - 1]? = some t := by rw [← getLast?_eq_getElem?, ht]
    have htail : t < context.length := h.lt_length (mem_of_getElem? hlast)
    have hlen : addrs.length - 1 < addrs.length := (List.getElem?_eq_some_iff.mp hlast).1
    rw [List.getElem?_modify]
    by_cases hi : i < addrs.length
    · rw [getElem?_append_left hi] at ha
      rw [getElem?_append_left (h.length ▸ hi)] at hm'
      rw [(h.alloc _).entry i a m' ha hm']
      by_cases hnext : i + 1 < addrs.length
      · -- not the tail
        have hne : a < t := by
          have hi' := List.getElem?_eq_some_iff.mp ha
          have hlast' := List.getElem?_eq_some_iff.mp hlast
          rw [← hi'.2, ← hlast'.2]
          exact List.pairwise_iff_getElem.mp h.increasing i (addrs.length - 1) hi hlen (by omega)
        rw [getElem?_append_left hnext]
        simp [Nat.ne_of_gt hne]
      · have hi' : i = addrs.length - 1 := by omega
        subst hi'
        have hat : a = t := some.inj (ha.symm.trans hlast)
        subst hat
        rw [Nat.sub_add_cancel (by omega), getElem?_append_right (by omega)]
        simp
    · have hi' : i = addrs.length := by
        have := (List.getElem?_eq_some_iff.mp ha).1
        simp at this
        omega
      subst hi'
      rw [getElem?_append_right (Nat.le_refl _)] at ha
      rw [h.length, getElem?_append_right (Nat.le_refl _)] at hm'
      simp only [Nat.sub_self, getElem?_cons_zero, some.injEq] at ha hm'
      subst ha hm'
      rw [getElem?_append_right (Nat.le_refl _)]
      simp [Nat.ne_of_lt htail, ReplayEntry.ofPq]

end Linked

/-! ## The spill file -/

def record (m : List UInt8) : List UInt8 := Bytes.le 4 m.length ++ m

def records (l : List (List UInt8)) : List UInt8 := (l.map record).flatten

theorem records_append (l l' : List (List UInt8)) : records (l ++ l') = records l ++ records l' := by
  simp [records]

theorem records_singleton (m : List UInt8) : records [m] = record m := by simp [records]

variable {m : List UInt8} {q : ReplayQueue}

variable {l : List (List UInt8)} {f : ByteFile} {rest : List UInt8}

theorem records_drop {j : Nat} (h : l[j]? = some m) :
    ∃ rest, (records l).drop (records (l.take j)).length = record m ++ rest := by
  obtain ⟨hj, hm⟩ := List.getElem?_eq_some_iff.mp h
  refine ⟨records (l.drop (j + 1)), ?_⟩
  have hsplit : l = l.take j ++ (m :: l.drop (j + 1)) := by
    rw [← hm, ← drop_eq_getElem_cons hj, take_append_drop]
  have hrecords : records l = records (l.take j) ++ (record m ++ records (l.drop (j + 1))) := by
    nth_rewrite 1 [hsplit]
    rw [records_append]
    rfl
  rw [hrecords, drop_left]

theorem records_take_succ {j : Nat} (h : l[j]? = some m) :
    (records (l.take (j + 1))).length = (records (l.take j)).length + (record m).length := by
  obtain ⟨_, _⟩ := List.getElem?_eq_some_iff.mp h
  rw [List.take_add_one, h]
  simp [records_append, records_singleton]

theorem read_recordLength (hrecord : f.bytes.drop f.pos = record m ++ rest)
    (hfits : m.length < 2 ^ 31) :
    f.read 4 = (Bytes.le 4 m.length, { f with pos := f.pos + 4 }) ∧
      f.bytes.drop (f.pos + 4) = m ++ rest ∧ int32 (Bytes.ofLe (Bytes.le 4 m.length)) = m.length := by
  rw [record, append_assoc] at hrecord
  obtain ⟨hread, hdata⟩ := ByteFile.read_of_drop hrecord
  rw [Bytes.length_le] at hread hdata
  refine ⟨hread, hdata, ?_⟩
  rw [Bytes.ofLe_le_of_lt (by omega)]
  exact int32_of_bounds (by omega) (by omega)

theorem spillReadEntry_record (hfile : q.spillFile = some f)
    (hrecord : f.bytes.drop f.pos = record m ++ rest) (hpos : 0 < m.length)
    (hlen : m.length ≤ maxAllocSize) :
    q.spillReadEntry = some (⟨m, false, none⟩, { q with
      spillFile := some { f with pos := f.pos + (record m).length }
      spillRead := int32 (q.spillRead + 1) }) := by
  unfold maxAllocSize at hlen
  obtain ⟨hread, hdata, hvalue⟩ := read_recordLength hrecord (by omega)
  have hdataRead := (ByteFile.read_of_drop (f := { f with pos := f.pos + 4 }) hdata).1
  have hvalid : ReplayQueue.validLength m.length = true := by
    rw [ReplayQueue.validLength, Bool.and_eq_true, decide_eq_true_eq, decide_eq_true_eq]
    unfold maxAllocSize
    omega
  unfold ReplayQueue.spillReadEntry
  rw [hfile]
  simp only [bind_eq_bind, bind_some, hread, hvalue, hvalid, Int.toNat_natCast,
    hdataRead]
  simp [record, Nat.add_assoc]

theorem spillReadEntry_tooLong (hfile : q.spillFile = some f)
    (hrecord : f.bytes.drop f.pos = record m ++ rest) (hlen : maxAllocSize < m.length)
    (hfits : m.length < 2 ^ 31) : q.spillReadEntry = none := by
  obtain ⟨hread, -, hvalue⟩ := read_recordLength hrecord hfits
  have hinvalid : ReplayQueue.validLength m.length = false := by
    rw [ReplayQueue.validLength, Bool.and_eq_false_iff, decide_eq_false_iff_not,
      decide_eq_false_iff_not]
    unfold maxAllocSize at hlen ⊢
    omega
  unfold ReplayQueue.spillReadEntry
  rw [hfile]
  simp only [bind_eq_bind, bind_some, hread, hvalue, hinvalid, Bool.and_false]
  rfl

/-! ## The log of a queue -/

/-- The queue stands for the log: `mem` is in the linked list and `spilled` in the file. A replay
that has delivered `k` messages stands at the `k`th address and, beyond those, at the record of the
same count in the file. Outside of a replay the file is at its end, where the next message goes. -/
structure ReplayQueue.RepAt (q : ReplayQueue) (l : ReplayLog) (addrs : List Nat)
    (mem spilled : List (List UInt8)) : Prop where
  log : l.log = mem ++ spilled
  linked : Linked q.context addrs mem
  head : q.head = addrs[0]?
  tail : q.tail = addrs.getLast?
  memory : q.spilling = false → q.spillFile = none ∧ spilled = [] ∧ q.spillRead = 0
  file : q.spilling = true → ∃ f, q.spillFile = some f ∧ f.bytes = records spilled
  count : q.spillCount = spilled.length ∧ spilled.length < 2 ^ 31
  fits : ∀ m ∈ spilled, 0 < m.length ∧ m.length ≤ maxAllocSize
  stream : l.replay = none → q.mode = false ∧ ∀ f, q.spillFile = some f → f.AtEnd
  replay : ∀ rest, l.replay = some rest → q.mode = true ∧ ∃ k, k ≤ (mem ++ spilled).length ∧
    rest = (mem ++ spilled).drop k ∧ q.next = addrs[k]? ∧ q.spillRead = (k - mem.length : Nat) ∧
      ∀ f, q.spillFile = some f → f.pos = (records (spilled.take (k - mem.length))).length

/-- Which log a queue stands for. -/
def ReplayQueue.Rep (q : ReplayQueue) (l : ReplayLog) : Prop :=
  ∃ addrs mem spilled, q.RepAt l addrs mem spilled

theorem rep_initial : ReplayQueue.initial.Rep ReplayLog.empty :=
  ⟨[], [], [], rfl, Linked.nil, rfl, rfl, fun _ => ⟨rfl, rfl, rfl⟩, nofun, ⟨rfl, by decide⟩, nofun,
    fun _ => ⟨rfl, nofun⟩, nofun⟩

/-- What a spilled message must be like: `palloc` accepts its length, and the counter of spilled
messages, an `int`, does not overflow. -/
def ReplayQueue.accepts (q : ReplayQueue) : QueueEvent → Prop
  | .receive size m => q.spills size m.data.length = true →
      m.data.length ≤ maxAllocSize ∧ q.spillCount < 2 ^ 31 - 1
  | _ => True

instance (q : ReplayQueue) (e : QueueEvent) : Decidable (q.accepts e) := by
  cases e <;> unfold ReplayQueue.accepts <;> infer_instance

section Step

variable {l : ReplayLog} {addrs : List Nat} {mem spilled : List (List UInt8)}

section

variable (h : q.RepAt l addrs mem spilled)

include h

theorem ReplayQueue.RepAt.alloc (buf : List UInt8) :
    (q.entryCreate buf).2.RepAt l addrs mem spilled :=
  { h with linked := h.linked.alloc _ }

theorem ReplayQueue.RepAt.link (hspill : q.spilling = false)
    (hstream : l.replay = none) (m : List UInt8) :
    ((q.entryCreate m).2.link (q.entryCreate m).1 m).RepAt { l with log := l.log ++ [m] }
      (addrs ++ [q.context.length]) (mem ++ [m]) spilled := by
  obtain ⟨hfile, rfl, hread⟩ := h.memory hspill
  have hlog : l.log ++ [m] = mem ++ [m] ++ [] := by rw [h.log]; simp
  have hlinked : Linked ((q.entryCreate m).2.link (q.entryCreate m).1 m).context
      (addrs ++ [q.context.length]) (mem ++ [m]) := by
    show Linked (if q.head.isNone then q.context ++ [.ofPq m] else q.tail.elim _ _) _ _
    rw [h.head, h.tail]
    cases haddrs : addrs with
    | nil => exact (haddrs ▸ h.linked).first m
    | cons a rest =>
      have hlast := getLast?_eq_some_getLast (cons_ne_nil a rest)
      rw [hlast]
      exact Linked.link (haddrs ▸ h.linked) hlast m
  exact
    { log := hlog
      linked := hlinked
      head := by
        show q.head.or (some q.context.length) = _
        rw [h.head]
        cases addrs <;> rfl
      tail := getLast?_concat.symm
      memory := fun _ => ⟨hfile, rfl, hread⟩
      file := fun hs => absurd (hspill.symm.trans hs) (by decide)
      count := h.count
      fits := nofun
      stream := fun _ => h.stream hstream
      replay := fun rest hrest => absurd (hstream.symm.trans hrest) nofun }

theorem ReplayQueue.RepAt.activateSpill (hspill : q.spilling = false)
    (hstream : l.replay = none) : q.activateSpill.RepAt l addrs mem spilled := by
  obtain ⟨_, rfl, _⟩ := h.memory hspill
  exact
    { h with
      memory := nofun
      file := fun _ => ⟨ByteFile.empty, rfl, rfl⟩
      stream := fun _ => ⟨(h.stream hstream).1, fun f hf => by
        cases hf
        rfl⟩
      replay := fun rest hrest => absurd (hstream.symm.trans hrest) nofun }

theorem ReplayQueue.RepAt.spillWriteEntry
    (hspill : q.spilling = true) (hstream : l.replay = none) (hpos : 0 < m.length)
    (hlen : m.length ≤ maxAllocSize) (hcount : q.spillCount < 2 ^ 31 - 1) :
    (q.spillWriteEntry m).RepAt { l with log := l.log ++ [m] } addrs mem (spilled ++ [m]) := by
  obtain ⟨f, hfile, hbytes⟩ := h.file hspill
  have hend : f.AtEnd := (h.stream hstream).2 f hfile
  have hwritten : (f.write (Bytes.le 4 m.length)).write m =
      ⟨records (spilled ++ [m]), (records (spilled ++ [m])).length⟩ := by
    rw [ByteFile.write_atEnd (ByteFile.atEnd_write hend _), ByteFile.write_atEnd hend, hbytes,
      records_append, records_singleton, record, append_assoc]
  have hspillFile : (q.spillWriteEntry m).spillFile =
      some ⟨records (spilled ++ [m]), (records (spilled ++ [m])).length⟩ := by
    rw [ReplayQueue.spillWriteEntry, hfile, map_some, hwritten]
  obtain ⟨hcount₁, _⟩ := h.count
  exact
    { log := by
        show l.log ++ [m] = _
        rw [h.log, append_assoc]
      linked := h.linked
      head := h.head
      tail := h.tail
      memory := fun hs => absurd (hspill.symm.trans hs) (by decide)
      file := fun _ => ⟨_, hspillFile, rfl⟩
      count := by
        rw [length_append, length_singleton]
        refine ⟨?_, by omega⟩
        show int32 (q.spillCount + 1) = _
        rw [int32_of_bounds (by omega) (by omega), hcount₁]
        rfl
      fits := fun m' hm' => by
        rcases mem_append.mp hm' with hold | hnew
        · exact h.fits m' hold
        · rw [mem_singleton.mp hnew]
          exact ⟨hpos, hlen⟩
      stream := fun _ => ⟨(h.stream hstream).1, fun f' hf' => by
        cases hspillFile.symm.trans hf'
        rfl⟩
      replay := fun rest hrest => absurd (hstream.symm.trans hrest) nofun }

end

/-- **A message from the stream is appended.** -/
theorem rep_receive (h : q.Rep l) (hstream : l.replay = none) {size : Nat} {m : CopyData}
    (haccepts : q.accepts (.receive size m)) :
    ((q.entryCreate m.data).2.queueAppendEntry size (q.entryCreate m.data).1 m.data).2.Rep
      { l with log := l.log ++ [m.data] } := by
  obtain ⟨addrs, mem, spilled, h⟩ := h
  unfold ReplayQueue.accepts ReplayQueue.spills at haccepts
  unfold ReplayQueue.queueAppendEntry
  have hspilling : (q.entryCreate m.data).2.spilling = q.spilling := rfl
  have hexceeds : (q.entryCreate m.data).2.exceedsLimit size m.data.length =
    q.exceedsLimit size m.data.length := rfl
  rw [hspilling, hexceeds]
  cases hspill : q.spilling with
  | true =>
    obtain ⟨hlen, hcount⟩ := haccepts (by rw [hspill, Bool.true_or])
    simp only [Bool.not_true, Bool.false_and, Bool.false_eq_true, if_false, hspilling, hspill, if_true]
    exact ⟨addrs, mem, _, (h.alloc m.data).spillWriteEntry hspill hstream m.nonempty hlen hcount⟩
  | false =>
    cases hlimit : q.exceedsLimit size m.data.length with
    | true =>
      obtain ⟨hlen, hcount⟩ := haccepts (by rw [hspill, hlimit, Bool.false_or])
      have hactive := (h.alloc m.data).activateSpill hspill hstream
      exact ⟨addrs, mem, _, hactive.spillWriteEntry rfl hstream m.nonempty hlen hcount⟩
    | false =>
      simp only [Bool.not_false, Bool.true_and, Bool.false_eq_true, if_false, hspilling, hspill]
      exact ⟨_, _, spilled, h.link hspill hstream m.data⟩

/-- **The next entry of a replay.** -/
theorem rep_next (h : q.Rep l) {rest : List (List UInt8)} (hreplay : l.replay = some rest) :
    ∃ entry q', q.queueNextEntry = some (entry, q') ∧
      entry.map (·.copydata) = rest.head? ∧
      q'.Rep { l with replay := if rest = [] then none else some rest.tail } := by
  obtain ⟨addrs, mem, spilled, h⟩ := h
  obtain ⟨hmode, k, hk, rfl, hnext, hread, hpos⟩ := h.replay rest hreplay
  have hlength := h.linked.length
  unfold ReplayQueue.queueNextEntry
  rw [hnext]
  by_cases hmem : k < mem.length
  · -- from memory
    obtain ⟨a, ha⟩ : ∃ a, addrs[k]? = some a := ⟨addrs[k], getElem?_eq_getElem (by omega)⟩
    have hentry := h.linked.entry k a mem[k] ha (getElem?_eq_getElem hmem)
    have hdrop : (mem ++ spilled).drop k = mem[k] :: (mem ++ spilled).drop (k + 1) := by
      rw [drop_eq_getElem_cons (by rw [length_append]; omega), getElem_append_left hmem]
    rw [ha, hdrop]
    dsimp only
    rw [hentry]
    refine ⟨_, _, rfl, rfl, addrs, mem, spilled, ?_⟩
    rw [if_neg (cons_ne_nil _ _), tail_cons]
    refine { h with stream := nofun, replay := fun rest hrest => ?_ }
    cases hrest
    refine ⟨hmode, k + 1, by rw [length_append]; omega, rfl, rfl, ?_, ?_⟩
    · rw [hread]
      omega
    · intro f hf
      rw [hpos f hf, Nat.sub_eq_zero_of_le (Nat.le_of_lt hmem), Nat.sub_eq_zero_of_le hmem]
  · have hnone : addrs[k]? = none := getElem?_eq_none (by omega)
    rw [hnone]
    obtain ⟨hcount₁, _⟩ := h.count
    rw [length_append] at hk
    by_cases hspilled : k - mem.length < spilled.length
    · -- from the file
      have hspill : q.spilling = true := by
        by_contra hnot
        rw [(h.memory (Bool.eq_false_iff.mpr hnot)).2.1] at hspilled
        exact absurd hspilled (Nat.not_lt_zero _)
      obtain ⟨f, hfile, hbytes⟩ := h.file hspill
      have hm : spilled[k - mem.length]? = some spilled[k - mem.length] :=
        getElem?_eq_getElem hspilled
      obtain ⟨hlen₁, hlen₂⟩ := h.fits _ (mem_of_getElem? hm)
      obtain ⟨_, hrecord⟩ := records_drop hm
      rw [← hbytes, ← hpos f hfile] at hrecord
      have hdrop : (mem ++ spilled).drop k =
          spilled[k - mem.length] :: (mem ++ spilled).drop (k + 1) := by
        rw [drop_eq_getElem_cons (by rw [length_append]; omega),
          getElem_append_right (by omega)]
      have hmore : (q.spilling && decide (q.spillRead < q.spillCount)) = true := by
        rw [hspill, hread, hcount₁, Bool.true_and, decide_eq_true_eq]
        exact Int.ofNat_lt.mpr hspilled
      dsimp only
      rw [if_pos hmore, spillReadEntry_record hfile hrecord hlen₁ hlen₂, hdrop]
      refine ⟨_, _, rfl, rfl, addrs, mem, spilled, ?_⟩
      rw [if_neg (cons_ne_nil _ _), tail_cons]
      refine { h with
        memory := fun hs => absurd (hspill.symm.trans hs) (by decide)
        file := fun _ => ⟨_, rfl, hbytes⟩
        stream := nofun
        replay := fun rest hrest => ?_ }
      cases hrest
      have hsucc : k + 1 - mem.length = (k - mem.length) + 1 := by omega
      refine ⟨hmode, k + 1, by rw [length_append]; omega, rfl, ?_, ?_, ?_⟩
      · rw [getElem?_eq_none (by omega)]
        exact hnext.trans hnone
      · show int32 (q.spillRead + 1) = _
        rw [hread, int32_of_bounds (by omega) (by omega), hsucc]
        rfl
      · intro f' hf'
        cases hf'
        rw [hsucc, records_take_succ hm, hpos f hfile]
    · -- everything was delivered: the file is at its end
      have hk' : k = (mem ++ spilled).length := by rw [length_append]; omega
      have hless : (q.spilling && decide (q.spillRead < q.spillCount)) = false := by
        rw [hread, hcount₁, Bool.and_eq_false_iff, decide_eq_false_iff_not]
        exact .inr fun hlt => hspilled (Int.ofNat_lt.mp hlt)
      dsimp only
      rw [hless, hk', drop_length]
      refine ⟨_, _, rfl, rfl, addrs, mem, spilled, ?_⟩
      refine { h with stream := fun _ => ⟨rfl, fun f hf => ?_⟩, replay := nofun }
      have hspill : q.spilling = true := by
        by_contra hnot
        exact absurd ((h.memory (Bool.eq_false_iff.mpr hnot)).1.symm.trans hf) nofun
      obtain ⟨_, hfile, hbytes⟩ := h.file hspill
      cases hfile.symm.trans hf
      show f.pos = f.bytes.length
      rw [hpos f hf, hbytes, take_of_length_le (Nat.le_of_not_lt hspilled)]

/-- **A replay starts at the first message**, wherever a replay before it was given up. -/
theorem rep_startReplay (h : q.Rep l) : q.queueStartReplay.Rep { l with replay := some l.log } := by
  obtain ⟨addrs, mem, spilled, h⟩ := h
  refine ⟨addrs, mem, spilled, ?_⟩
  refine { h with
    memory := fun hs => ?_
    file := fun hs => ?_
    stream := nofun
    replay := fun rest hrest => ?_ }
  · obtain ⟨hfile, hspilled, hread⟩ := h.memory hs
    have hspill : q.spilling = false := hs
    simp only [ReplayQueue.queueStartReplay, hspill]
    exact ⟨hfile, hspilled, hread⟩
  · obtain ⟨f, hfile, hbytes⟩ := h.file hs
    have hspill : q.spilling = true := hs
    refine ⟨f.rewind, ?_, hbytes⟩
    rw [ReplayQueue.queueStartReplay, hspill, if_pos rfl, hfile]
    rfl
  · cases hrest
    refine ⟨rfl, 0, Nat.zero_le _, by rw [h.log, drop_zero], h.head, ?_, fun f hf => ?_⟩
    · rw [Nat.zero_sub]
      show (if q.spilling then 0 else q.spillRead) = 0
      cases hspill : q.spilling with
      | true => rfl
      | false => exact (h.memory hspill).2.2
    · rw [Nat.zero_sub, take_zero]
      cases hspill : q.spilling with
      | true =>
        obtain ⟨_, hfile, -⟩ := h.file hspill
        rw [ReplayQueue.queueStartReplay, hspill, if_pos rfl, hfile] at hf
        cases hf
        rfl
      | false =>
        rw [ReplayQueue.queueStartReplay, hspill] at hf
        exact absurd ((h.memory hspill).1.symm.trans hf) nofun

theorem queueReset_eq (q : ReplayQueue) : q.queueReset = ReplayQueue.initial := rfl

theorem rep_mode (h : q.Rep l) : q.mode = l.replay.isSome := by
  obtain ⟨_, _, _, h⟩ := h
  cases hreplay : l.replay with
  | none => exact (h.stream hreplay).1
  | some rest => exact (h.replay rest hreplay).1

/-- **One event.** -/
theorem replayQueue_simulates (h : q.Rep l) {e : QueueEvent} (haccepts : q.accepts e) :
    Alike ReplayQueue.Rep (q.step e) (l.step e) := by
  have hmode := rep_mode h
  obtain ⟨_, replay⟩ := l
  unfold ReplayQueue.step ReplayLog.step
  cases e
  case fail => exact .some ⟨rfl, rep_startReplay h⟩
  case commit => exact .some ⟨rfl, rep_initial⟩
  all_goals
    dsimp only at hmode ⊢
    rw [hmode]
    cases replay
  case receive.none => exact .some ⟨rfl, rep_receive h rfl haccepts⟩
  case other.none m =>
    obtain ⟨addrs, mem, spilled, h⟩ := h
    exact .some ⟨rfl, addrs, mem, spilled, h.alloc m.data⟩
  case next.some rest =>
    obtain ⟨_, _, hnext, hentry, hrep⟩ := rep_next h rfl
    rw [hnext]
    cases rest with
    | nil | cons => exact .some ⟨congrArg (fun d => [d]) hentry, hrep⟩
  all_goals exact .none

end Step

/-! ## Every sequence of events -/

def appendedSinceReset (es : List QueueEvent) : List (List UInt8) :=
  es.foldl (fun l e =>
    match e with
    | .receive _ m => l ++ [m.data]
    | .commit => []
    | _ => l) []

theorem trace_log {es : List QueueEvent} {l l' : ReplayLog} {out : List Delivery}
    (h : trace ReplayLog.step l es = some (out, l')) :
    l'.log = es.foldl (fun log e =>
      match e with
      | .receive _ m => log ++ [m.data]
      | .commit => []
      | _ => log) l.log := by
  induction es generalizing l out with
  | nil =>
    cases h
    rfl
  | cons e _ ih =>
    obtain ⟨_, replay⟩ := l
    rw [trace] at h
    obtain ⟨r, hr, hrest⟩ := bind_eq_some_iff.mp h
    obtain ⟨_, hr', hout⟩ := map_eq_some_iff.mp hrest
    cases hout
    rw [ih hr', foldl_cons]
    congr 1
    unfold ReplayLog.step at hr
    cases e with
    | receive | other =>
      cases replay <;> cases hr
      rfl
    | next =>
      rcases replay with _ | _ | ⟨m, rest⟩
      · cases hr
      · cases hr
        rfl
      · cases hr
        rfl
    | fail | commit =>
      cases hr
      rfl

theorem trace_next (log rest : List (List UInt8)) :
    trace ReplayLog.step ⟨log, some rest⟩ (List.replicate (rest.length + 1) .next) =
      some (rest.map some ++ [none], ⟨log, none⟩) := by
  induction rest with
  | nil => rfl
  | cons m rest ih =>
    have hnext : ReplayLog.step ⟨log, some (m :: rest)⟩ .next = some ([some m], ⟨log, some rest⟩) := rfl
    rw [length_cons, replicate_succ, trace_cons_some hnext, ih]
    rfl

/-- **The replay queue is a log.** In every sequence of messages from the stream, replayed entries,
errors and COMMITs, with any limit for the memory at any time, in which the spilled messages are not
longer than `MaxAllocSize` and fewer than `2 ^ 31` of them come between two resets: the queue never
raises and delivers what the log delivers. From the state after it, a replay delivers the messages
appended since the last reset, byte for byte and in order, and then messages come from the stream
again; and a reset leaves the initial state. -/
theorem replayQueue_is_log {es : List QueueEvent}
    (haccepts : Along (next ReplayQueue.step) ReplayQueue.accepts ReplayQueue.initial es) :
    (trace ReplayQueue.step .initial es).map Prod.fst =
        (trace ReplayLog.step .empty es).map Prod.fst ∧
      ∀ out q, trace ReplayQueue.step .initial es = some (out, q) →
        (∃ q', q'.mode = false ∧ trace ReplayQueue.step q
          (.fail :: List.replicate ((appendedSinceReset es).length + 1) .next) =
            some ((appendedSinceReset es).map some ++ [none], q')) ∧
        q.queueReset = .initial := by
  have hstep : ∀ q l e, ReplayQueue.Rep q l → ReplayQueue.accepts q e →
      Alike ReplayQueue.Rep (ReplayQueue.step q e) (ReplayLog.step l e) :=
    fun _ _ _ h ha => replayQueue_simulates h ha
  have hsim := simulation hstep es rep_initial haccepts
  refine ⟨?_, fun out q hq => ⟨?_, queueReset_eq q⟩⟩
  · generalize trace ReplayQueue.step .initial es = x at hsim ⊢
    generalize trace ReplayLog.step .empty es = y at hsim ⊢
    cases hsim with
    | none => rfl
    | some h => exact congrArg some h.1
  · rw [hq] at hsim
    generalize hl : trace ReplayLog.step .empty es = y at hsim
    cases hsim with
    | @some _ r h =>
      obtain ⟨_, l⟩ := r
      have hlog : l.log = appendedSinceReset es := trace_log hl
      -- the replay, on both sides
      have hreplay : trace ReplayLog.step l
          (.fail :: List.replicate ((appendedSinceReset es).length + 1) .next) =
            some ((appendedSinceReset es).map some ++ [none], ⟨l.log, none⟩) := by
        have hfail : ReplayLog.step l .fail = some ([], ⟨l.log, some l.log⟩) := rfl
        rw [trace_cons_some hfail, ← hlog, trace_next]
        rfl
      have halong : Along (next ReplayQueue.step) ReplayQueue.accepts q
          (.fail :: List.replicate ((appendedSinceReset es).length + 1) .next) := by
        refine Along.mono (P := fun _ e => e = .fail ∨ e = .next) ?_ (along_of_forall ?_ q)
        · rintro _ _ (rfl | rfl) <;> trivial
        · intro e he
          rcases mem_cons.mp he with rfl | he
          · exact .inl rfl
          · exact .inr (eq_of_mem_replicate he)
      have hboth := simulation hstep _ h.2 halong
      rw [hreplay] at hboth
      generalize hr : trace ReplayQueue.step q _ = x at hboth
      cases hboth with
      | @some r _ h' =>
        obtain ⟨_, q'⟩ := r
        obtain ⟨rfl, hrep⟩ := h'
        exact ⟨q', rep_mode hrep, rfl⟩

def sampleMessage (b : UInt8) : CopyData := ⟨[119, b], by simp, by simp⟩

/-! ## Too many, or too long -/

theorem trace_receive_spilling (hspill : q.spilling = true) (hmode : q.mode = false)
    (hcount : int32 q.spillCount = q.spillCount) (size : Nat) (m : CopyData) (n : Nat) :
    ∃ q', trace ReplayQueue.step q (List.replicate n (.receive size m)) = some ([], q') ∧
      q'.spilling = true ∧ q'.spillCount = int32 (q.spillCount + n) ∧ q'.head = q.head ∧
      q.context <+: q'.context := by
  induction n generalizing q with
  | zero => exact ⟨q, rfl, hspill, by simp [hcount], rfl, prefix_refl _⟩
  | succ n ih =>
    have hstep : q.step (.receive size m) =
        some ([], (q.entryCreate m.data).2.spillWriteEntry m.data) := by
      simp [ReplayQueue.step, hmode, ReplayQueue.queueAppendEntry, hspill, ReplayQueue.entryCreate]
    have hwrap : ∀ x : Int, int32 (int32 x) = int32 x := by
      intro x
      unfold int32
      omega
    obtain ⟨q', htrace, hspill', hcount', hhead', hcontext'⟩ :=
      ih (q := (q.entryCreate m.data).2.spillWriteEntry m.data) hspill hmode (hwrap _)
    refine ⟨q', ?_, hspill', ?_, hhead', (prefix_append _ _).trans hcontext'⟩
    · rw [replicate_succ, trace_cons_some hstep, htrace]
      rfl
    · rw [hcount']
      show int32 (int32 (q.spillCount + 1) + n) = int32 (q.spillCount + (n + 1 : Nat))
      unfold int32
      omega

theorem trace_receive_log (log : List (List UInt8)) (size : Nat) (m : CopyData) (n : Nat) :
    trace ReplayLog.step ⟨log, none⟩ (List.replicate n (.receive size m)) =
      some ([], ⟨log ++ List.replicate n m.data, none⟩) := by
  induction n generalizing log with
  | zero =>
    rw [replicate_zero, replicate_zero, append_nil]
    rfl
  | succ _ ih =>
    have hstep : ReplayLog.step ⟨log, none⟩ (.receive size m) = some ([], ⟨log ++ [m.data], none⟩) :=
      rfl
    rw [replicate_succ, trace_cons_some hstep, ih, replicate_succ, append_assoc]
    rfl

/-- A message of `n` bytes. -/
def zeros (n : Nat) (h : 0 < n) (h' : n < 2 ^ 31) : CopyData :=
  ⟨List.replicate n 0, by rw [List.length_replicate]; exact h, by rw [List.length_replicate]; exact h'⟩

theorem step_receive_activates {size : Nat} {m : CopyData} (hmode : q.mode = false)
    (hspill : q.spilling = false) (hlimit : q.exceedsLimit size m.data.length = true) :
    q.step (.receive size m) =
      some ([], (q.entryCreate m.data).2.activateSpill.spillWriteEntry m.data) := by
  have hcreated : (q.entryCreate m.data).2.exceedsLimit size m.data.length = true := hlimit
  have hspilling : (q.entryCreate m.data).2.spilling = false := hspill
  have happend : (q.entryCreate m.data).2.queueAppendEntry size (q.entryCreate m.data).1 m.data =
      (true, (q.entryCreate m.data).2.activateSpill.spillWriteEntry m.data) := by
    unfold ReplayQueue.queueAppendEntry
    rw [hspilling, hcreated]
    rfl
  unfold ReplayQueue.step
  dsimp only
  rw [hmode, happend]
  rfl

/-- With a limit of one megabyte: a message that fills it, and `n + 1` that are spilled. -/
def fillAndSpill (m : CopyData) (n : Nat) : List QueueEvent :=
  .receive 1 m :: .receive 1 (sampleMessage 1) :: List.replicate n (.receive 1 (sampleMessage 1))

theorem step_receive_fills {m : CopyData} (hm : m.data.length = 2 ^ 20) :
    ReplayQueue.initial.step (.receive 1 m) =
      some ([], (ReplayQueue.initial.entryCreate m.data).2.link 0 m.data) := by
  simp [ReplayQueue.step, ReplayQueue.queueAppendEntry, ReplayQueue.exceedsLimit,
    ReplayQueue.initial, ReplayQueue.entryCreate, hm]

theorem trace_fillAndSpill {m : CopyData} (hm : m.data.length = 2 ^ 20) (n : Nat) :
    ∃ q, trace ReplayQueue.step .initial (fillAndSpill m n) = some ([], q) ∧ q.spilling = true ∧
      q.spillCount = int32 (n + 1) ∧ q.head = some 0 ∧ q.context[0]? = some (.ofPq m.data) := by
  have hfill := step_receive_fills hm
  generalize hq₁ : (ReplayQueue.initial.entryCreate m.data).2.link 0 m.data = q₁ at hfill
  have hbytes : q₁.bytes = 2 ^ 20 := by
    rw [← hq₁]
    simp [ReplayQueue.link, ReplayQueue.initial, ReplayQueue.entryCreate, hm]
  obtain ⟨hmode₁, hspill₁, hhead₁, hcontext₁, hcount₁⟩ : q₁.mode = false ∧ q₁.spilling = false ∧
      q₁.head = some 0 ∧ q₁.context = [.ofPq m.data] ∧ q₁.spillCount = 0 := by
    rw [← hq₁]
    exact ⟨rfl, rfl, rfl, rfl, rfl⟩
  have hspill : q₁.step (.receive 1 (sampleMessage 1)) = some ([],
      (q₁.entryCreate (sampleMessage 1).data).2.activateSpill.spillWriteEntry
        (sampleMessage 1).data) := by
    refine step_receive_activates hmode₁ hspill₁ ?_
    simp [ReplayQueue.exceedsLimit, hbytes, sampleMessage]
  obtain ⟨q, htrace, hspilling, hcount, hhead, hcontext⟩ := trace_receive_spilling
    (q := (q₁.entryCreate (sampleMessage 1).data).2.activateSpill.spillWriteEntry
      (sampleMessage 1).data) rfl hmode₁ (by
        show int32 (int32 (q₁.spillCount + 1)) = int32 (q₁.spillCount + 1)
        rw [hcount₁]
        decide) 1 (sampleMessage 1) n
  refine ⟨q, ?_, hspilling, ?_, hhead.trans hhead₁, ?_⟩
  · rw [fillAndSpill, trace_cons_some hfill, trace_cons_some hspill, htrace]
    rfl
  · rw [hcount]
    show int32 (int32 (q₁.spillCount + 1) + n) = _
    rw [hcount₁]
    unfold int32
    omega
  · obtain ⟨rest, hrest⟩ := hcontext
    rw [← hrest]
    show (q₁.context ++ [ReplayEntry.ofPq _] ++ rest)[0]? = _
    rw [hcontext₁]
    rfl

/-- One message in memory and one in the spill file. -/
theorem replayQueue_is_log_spilled :
    ∃ q q', trace ReplayQueue.step .initial
        (fillAndSpill (zeros (2 ^ 20) (by decide) (by decide)) 0) = some ([], q) ∧
      q.spilling = true ∧ trace ReplayQueue.step q [.fail, .next, .next, .next] =
        some ([some (List.replicate (2 ^ 20) 0), some [119, 1], none], q') := by
  have hm : (zeros (2 ^ 20) (by decide) (by decide)).data.length = 2 ^ 20 := length_replicate
  have haccepts : Along (next ReplayQueue.step) ReplayQueue.accepts .initial
      (fillAndSpill (zeros (2 ^ 20) (by decide) (by decide)) 0) := by
    refine ⟨fun _ => ⟨?_, by decide⟩, fun q hq => ⟨fun _ => ⟨by decide, ?_⟩, fun _ _ => trivial⟩⟩
    · rw [hm]
      decide
    · rw [Machine.next, step_receive_fills hm] at hq
      cases hq
      decide
  obtain ⟨q, htrace, hspill, -⟩ := trace_fillAndSpill hm 0
  obtain ⟨q', -, hq'⟩ := ((replayQueue_is_log haccepts).2 _ _ htrace).1
  exact ⟨q, q', htrace, hspill, hq'⟩

theorem trace_fillAndSpill_log (m : CopyData) (n : Nat) :
    ∃ l, trace ReplayLog.step .empty (fillAndSpill m n ++ ([.fail, .next, .next] : List QueueEvent)) =
      some ([some m.data, some (sampleMessage 1).data], l) := by
  have hfill : ReplayLog.empty.step (.receive 1 m) = some ([], ⟨[m.data], none⟩) := rfl
  have hspill : ReplayLog.step ⟨[m.data], none⟩ (.receive 1 (sampleMessage 1)) =
    some ([], ⟨[m.data, (sampleMessage 1).data], none⟩) := rfl
  rw [trace_append, fillAndSpill, trace_cons_some hfill, trace_cons_some hspill, trace_receive_log]
  exact ⟨_, rfl⟩

theorem trace_replay_negative (hspill : q.spilling = true) (hcount : q.spillCount ≤ 0)
    (hhead : q.head = some 0) (hentry : q.context[0]? = some (.ofPq m)) :
    ∃ q', trace ReplayQueue.step q [.fail, .next, .next] = some ([some m, none], q') := by
  have hfirst : q.queueStartReplay.step .next =
      some ([some m], { q.queueStartReplay with next := none }) := by
    simp [ReplayQueue.step, ReplayQueue.queueStartReplay, ReplayQueue.queueNextEntry, hhead, hentry,
      ReplayEntry.ofPq]
  have hsecond : ReplayQueue.step { q.queueStartReplay with next := none } .next =
      some ([none], { q.queueStartReplay with next := none, mode := false }) := by
    simp [ReplayQueue.step, ReplayQueue.queueStartReplay, ReplayQueue.queueNextEntry, hspill,
      Int.not_lt.mpr hcount]
  have hfail : q.step .fail = some ([], q.queueStartReplay) := rfl
  rw [trace_cons_some hfail, trace_cons_some hfirst, trace_cons_some hsecond]
  exact ⟨_, rfl⟩

/-- A message longer than `MaxAllocSize` is spilled, and cannot be read back. -/
theorem trace_tooLong {m : CopyData} (hm : maxAllocSize < m.data.length) :
    trace ReplayQueue.step .initial [.receive 1 m, .fail, .next] = none := by
  have hfits := m.lengthFits
  have hlimit : ReplayQueue.initial.exceedsLimit 1 m.data.length = true := by
    show (decide (0 < 1) && decide (1 * 1024 * 1024 < (0 + m.data.length) % 2 ^ 64)) = true
    unfold maxAllocSize at hm
    rw [Bool.and_eq_true, decide_eq_true_eq, decide_eq_true_eq]
    omega
  have hspill : ReplayQueue.initial.step (.receive 1 m) = some ([],
      (ReplayQueue.initial.entryCreate m.data).2.activateSpill.spillWriteEntry m.data) :=
    step_receive_activates rfl rfl hlimit
  generalize hq : (ReplayQueue.initial.entryCreate m.data).2.activateSpill.spillWriteEntry
    m.data = q at hspill
  have hfile : q.queueStartReplay.spillFile = some ⟨record m.data, 0⟩ := by
    have hwritten : (ByteFile.empty.write (Bytes.le 4 m.data.length)).write m.data =
        ⟨record m.data, (record m.data).length⟩ := by
      rw [ByteFile.write_atEnd (ByteFile.atEnd_write ByteFile.atEnd_empty _),
        ByteFile.write_atEnd ByteFile.atEnd_empty]
      rfl
    rw [← hq]
    show some (ByteFile.rewind ((ByteFile.empty.write (Bytes.le 4 m.data.length)).write m.data)) = _
    rw [hwritten]
    rfl
  have hnone : q.queueStartReplay.spillReadEntry = none :=
    spillReadEntry_tooLong hfile (append_nil _).symm hm hfits
  have hnext : q.queueStartReplay.step .next = none := by
    have hstate : q.queueStartReplay.next = none ∧ q.queueStartReplay.spilling = true ∧
        q.queueStartReplay.spillRead < q.queueStartReplay.spillCount := by
      rw [← hq]
      exact ⟨rfl, rfl, (by decide : (0 : Int) < int32 (0 + 1))⟩
    simp only [ReplayQueue.step, ReplayQueue.queueNextEntry]
    rw [hstate.1, hnone]
    simp [hstate.2.1, hstate.2.2]
  have hfail : q.step .fail = some ([], q.queueStartReplay) := rfl
  rw [trace_cons_some hspill, trace_cons_some hfail, trace, hnext]
  rfl

/-- **What the queue loses.** After `2 ^ 31` messages were spilled the replay ends with those in
memory; and a spilled message of `2 ^ 30` bytes ends it with an error. -/
theorem replayQueue_loses :
    ((∃ q, trace ReplayQueue.step .initial (fillAndSpill (zeros (2 ^ 20) (by decide) (by decide))
          (2 ^ 31 - 1) ++ ([.fail, .next, .next] : List QueueEvent)) =
        some ([some (List.replicate (2 ^ 20) 0), none], q)) ∧
      ∃ l, trace ReplayLog.step .empty (fillAndSpill (zeros (2 ^ 20) (by decide) (by decide))
          (2 ^ 31 - 1) ++ ([.fail, .next, .next] : List QueueEvent)) =
        some ([some (List.replicate (2 ^ 20) 0), some [119, 1]], l)) ∧
    trace ReplayQueue.step .initial
      [.receive 1 (zeros (2 ^ 30) (by decide) (by decide)), .fail, .next] = none := by
  have hm : (zeros (2 ^ 20) (by decide) (by decide)).data.length = 2 ^ 20 := length_replicate
  refine ⟨⟨?_, ?_⟩, trace_tooLong ?_⟩
  · obtain ⟨q, htrace, hspill, hcount, hhead, hentry⟩ := trace_fillAndSpill hm (2 ^ 31 - 1)
    obtain ⟨q', hreplay⟩ := trace_replay_negative hspill (by rw [hcount]; decide) hhead hentry
    refine ⟨q', ?_⟩
    rw [trace_append, htrace, bind_some, hreplay]
    rfl
  · exact trace_fillAndSpill_log _ _
  · show maxAllocSize < (List.replicate (2 ^ 30) (0 : UInt8)).length
    rw [length_replicate]
    decide

end Spock.Replay
