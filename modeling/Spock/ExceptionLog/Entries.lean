import Mathlib.Logic.Function.Basic
import Spock.Lib.Runs
import Spock.Worker.Handlers

/-!
# Spock — the exception log array in shared memory

The worker processes of one server share `exception_log_ptr`, an array of `total_workers` entries in
which each remembers what it failed on, to find it again after a restart. A worker looks for its
entry at its first BEGIN, by name: first without the lock, entry by entry, then, if it has found
none, once more under the lock, taking the first free entry. Both loops run to `i <= total_workers`,
one entry too far. The entry stays the worker's own until it exits, through every error it saves and
every transaction it replays; it is never given back.
-/

namespace Spock.ExceptionLog

open Runs List Option Function

/-! ## Entries and workers -/

/-- An entry. `localTuple` is an address in the memory of the process that stored it. `author` is
not in the memory: it is the worker that wrote to the entry last. -/
structure Entry extends SpockExceptionLog where
  localTuple : Option Nat
  author : Option Nat
  deriving DecidableEq

/-- What `spock_worker_shmem_startup` leaves: zeroes. -/
def Entry.empty : Entry := ⟨⟨"", 0, none, 0⟩, none, none⟩

/-- Where a worker is: outside `handle_begin`, at the entry `i` of the first search, before the
second search, after the searches, or on its way out with an error. -/
inductive Phase where
  | idle
  | searching (i commitLsn : Nat)
  | locking (commitLsn : Nat)
  | entering (commitLsn : Nat) (slotFound : Bool)
  | raised
  deriving DecidableEq

/-- A worker process, of either kind: a sync worker has the name of its subscription as well.
`index` is `my_exception_log_index`, with `none` for `-1`. -/
structure Worker where
  name : String
  live : Bool
  firstBeginAtStartup : Bool
  index : Option Nat
  useTryBlock : Bool
  phase : Phase
  deriving DecidableEq

def Worker.new (name : String) : Worker := ⟨name, true, true, none, false, .idle⟩

/-- The server. The array is `entries` below `total`, and `entries total` is the memory behind it.
Workers are numbered in the order in which they start. -/
structure State where
  total : Nat
  entries : Nat → Entry
  workers : List Worker
  subs : List String
  -- history: every name there was, the errors raised for want of an entry, the index of every
  -- access, and the workers that came upon what another one, still running, had written
  names : List String
  exhausted : Bool
  accesses : List (Option Nat)
  intrusions : List (Nat × Nat)

def State.init (total : Nat) (behind : Entry) : State where
  total := total
  entries := Function.update (fun _ => Entry.empty) total behind
  workers := []
  subs := []
  names := []
  exhausted := false
  accesses := []
  intrusions := []

inductive Action where
  | begin (commitLsn : Nat)
  | look
  | lock
  | enter
  | storeTuple (address : Nat)
  | clear
  | fail (error : ErrorData) (action : Nat)
  | exit
  deriving DecidableEq

inductive Event where
  | createSub (name : String)
  | dropSub (name : String)
  | start (name : String)
  | act (w : Nat) (action : Action)
  | behind (e : Entry)
  deriving DecidableEq

namespace State

def setWorker (s : State) (w : Nat) (p : Worker) : State :=
  { s with workers := s.workers.set w p }

def isLive (s : State) (w : Nat) : Bool := s.workers[w]?.any (·.live)

/-- `w` is at entry `i`, which another worker that is still running has written to. -/
def intrusion (s : State) (w i : Nat) : List (Nat × Nat) :=
  ((s.entries i).author.filter fun a => a != w && s.isLive a).toList.map fun a => (w, a)

/-- A write of `w` to entry `i`. -/
def write (s : State) (w i : Nat) (f : Entry → Entry) : State :=
  { s with
    entries := Function.update s.entries i { f (s.entries i) with author := some w }
    accesses := s.accesses ++ [some i]
    intrusions := s.intrusions ++ s.intrusion w i }

/-- A write of `w` to `exception_log_ptr[my_exception_log_index]`. What is before the array is not
modelled. -/
def access (s : State) (w : Nat) (p : Worker) (f : Entry → Entry) : State :=
  match p.index with
  | some i => s.write w i f
  | none => { s with accesses := s.accesses ++ [none] }

/-! ## `handle_begin` -/

def look (s : State) (w : Nat) (p : Worker) (i commitLsn : Nat) : State :=
  if (s.entries i).isFor p.name then
    s.setWorker w { p with index := some i, phase := .entering commitLsn true }
  else if i < s.total then s.setWorker w { p with phase := .searching (i + 1) commitLsn }
  else s.setWorker w { p with useTryBlock := false, phase := .locking commitLsn }

end State

/-- The loop of the search under the lock: the entry found, and the first free one before it. -/
def lockedSearch (entries : Nat → Entry) (name : String) :
    List Nat → Option Nat → Option Nat × Option Nat
  | [], free => (none, free)
  | i :: is, free =>
    if (entries i).isFor name then (some i, free)
    else
      lockedSearch entries name is
        (free.or (if (entries i).slotName.isEmpty then some i else none))

namespace State

def search (s : State) (name : String) : Option Nat × Option Nat :=
  lockedSearch s.entries name (List.range (s.total + 1)) none

def fill (s : State) (w : Nat) (name : String) (i commitLsn : Nat) : State :=
  s.write w i fun e => { e with slotName := name, commitLsn := commitLsn, localTuple := none }

/-- The second search. Names are written under the lock only, so that it is one step. Without a free
entry the error is raised even if the search has found one. -/
def lock (s : State) (w : Nat) (p : Worker) (commitLsn : Nat) : State :=
  match s.search p.name with
  | (found, none) =>
    { s with exhausted := true }.setWorker w { p with index := found.or p.index, phase := .raised }
  | (some i, some _) =>
    s.setWorker w { p with index := some i, phase := .entering commitLsn true }
  | (none, some i) =>
    (s.fill w p.name i commitLsn).setWorker w
      { p with index := some i, phase := .entering commitLsn false }

/-- The `commit_lsn` that the entry has is the one of this BEGIN. -/
def recorded (s : State) (p : Worker) (commitLsn : Nat) : Bool :=
  p.index.any fun i => (s.entries i).commitLsn == commitLsn

/-- The end of `handle_begin`. -/
def enter (s : State) (w : Nat) (p : Worker) (commitLsn : Nat) (slotFound : Bool) : State :=
  (s.access w p fun e => { e with commitLsn := commitLsn }).setWorker w
    { p with
      useTryBlock := p.useTryBlock || (slotFound && s.recorded p commitLsn)
      phase := .idle }

end State

/-- The start of `handle_begin`. -/
def Worker.begin (p : Worker) (commitLsn : Nat) : Worker :=
  if p.firstBeginAtStartup then
    { p with firstBeginAtStartup := false, phase := .searching 0 commitLsn }
  else { p with phase := .entering commitLsn false }

/-! ## Steps -/

/-- The block of `apply_work` that saves the error and starts the replay, in exception handling. The
BEGIN that is replayed searches for the entry again, and leaves `use_try_block` set if it finds the
entry, whatever LSN is there. -/
def State.fail (s : State) (w : Nat) (p : Worker) (error : ErrorData) (action : Nat) : State :=
  (s.access w p fun e =>
    { e with initialErrorMessage := some error, failedAction := action }).setWorker w
    { p with firstBeginAtStartup := true, useTryBlock := true, phase := .idle }

/-- `handle_commit` leaves exception handling. -/
def State.clear (s : State) (w : Nat) (p : Worker) : State :=
  (s.access w p fun e =>
    { e with commitLsn := 0, initialErrorMessage := none, failedAction := 0 }).setWorker w
    { p with useTryBlock := false }

/-- A step of a worker that runs. Tuples are stored and transactions committed after a BEGIN; an
error may come at any time outside `handle_begin`, or from its second search. -/
def act (s : State) (w : Nat) (p : Worker) : Action → Option State
  | .begin commitLsn =>
    match p.phase with
    | .idle => some (s.setWorker w (p.begin commitLsn))
    | _ => none
  | .look =>
    match p.phase with
    | .searching i commitLsn => some (s.look w p i commitLsn)
    | _ => none
  | .lock =>
    match p.phase with
    | .locking commitLsn => some (s.lock w p commitLsn)
    | _ => none
  | .enter =>
    match p.phase with
    | .entering commitLsn slotFound => some (s.enter w p commitLsn slotFound)
    | _ => none
  | .storeTuple address =>
    if p.phase = .idle ∧ p.firstBeginAtStartup = false then
      some ((s.access w p fun e => { e with localTuple := some address }).setWorker w p)
    else none
  | .clear =>
    if p.phase = .idle ∧ p.firstBeginAtStartup = false then some (s.clear w p) else none
  | .fail error action =>
    if p.phase = .idle ∨ p.phase = .raised then some (s.fail w p error action) else none
  | .exit => some (s.setWorker w { p with live := false })

/-- Subscriptions come and go, and their workers take their steps in any order. -/
def step (s : State) : Event → Option State
  | .createSub name =>
    if name ∈ s.subs then none
    else
      some { s with
        subs := name :: s.subs
        names := if name ∈ s.names then s.names else name :: s.names }
  | .dropSub name => some { s with subs := s.subs.erase name }
  | .start name =>
    if name ∈ s.subs then some { s with workers := s.workers ++ [Worker.new name] } else none
  | .act w action =>
    s.workers[w]?.bind fun p => if p.live then act s w p action else none
  | .behind e => some { s with entries := Function.update s.entries s.total e }

/-! ## The searches -/

theorem isFor_self (e : Entry) : e.isFor e.slotName := by
  simp [SpockExceptionLog.isFor]

variable {entries : Nat → Entry} {name : String} {is : List Nat} {free : Option Nat}
  {i total commitLsn : Nat} {q : Worker} {s' : State} {a : Action}

theorem lockedSearch_found (h : (lockedSearch entries name is free).1 = some i) :
    i ∈ is ∧ (entries i).isFor name := by
  induction is generalizing free with
  | nil => cases h
  | cons _ _ ih =>
    rw [lockedSearch] at h
    split at h
    · rename_i hfor
      cases h
      exact ⟨mem_cons_self, hfor⟩
    · exact ⟨mem_cons_of_mem _ (ih h).1, (ih h).2⟩

theorem lockedSearch_none {r : Option Nat} (h : lockedSearch entries name is free = (none, r)) :
    (∀ i ∈ is, (entries i).isFor name = false) ∧
      r = free.or (is.find? fun i => (entries i).slotName.isEmpty) := by
  induction is generalizing free with
  | nil =>
    cases h
    exact ⟨nofun, by simp⟩
  | cons j _ ih =>
    rw [lockedSearch] at h
    split at h
    · cases h
    · rename_i hfor
      obtain ⟨hnone, hfree⟩ := ih h
      refine ⟨forall_mem_cons.mpr ⟨by simpa using hfor, hnone⟩, ?_⟩
      rw [hfree, find?_cons]
      cases free <;> cases (entries j).slotName.isEmpty <;> rfl

namespace State

variable {s : State}

variable {r : Option Nat}

theorem search_found (h : (s.search name).1 = some i) :
    i ≤ s.total ∧ (s.entries i).isFor name := by
  obtain ⟨hmem, hfor⟩ := lockedSearch_found h
  exact ⟨Nat.le_of_lt_succ (mem_range.mp hmem), hfor⟩

theorem not_isFor_of_search (h : s.search name = (none, r)) (hi : i ≤ s.total) :
    (s.entries i).isFor name = false :=
  (lockedSearch_none h).1 i (mem_range.mpr (Nat.lt_succ_of_le hi))

theorem free_of_search (h : s.search name = (none, some i)) :
    i ≤ s.total ∧ (s.entries i).slotName = "" := by
  have hfree := (lockedSearch_none h).2.symm
  exact ⟨Nat.le_of_lt_succ (mem_range.mp (mem_of_find?_eq_some hfree)),
    by simpa using find?_some hfree⟩

theorem lt_total_of_search (h : s.search name = (none, r))
    (hfree : ∃ i < s.total, (s.entries i).slotName = "") : ∃ i < s.total, r = some i := by
  obtain ⟨i, hi, hempty⟩ := hfree
  rw [(lockedSearch_none h).2, range_succ, find?_append, none_or]
  cases hfind : (List.range s.total).find? fun i => (s.entries i).slotName.isEmpty with
  | none =>
    have hnot := find?_eq_none.mp hfind i (mem_range.mpr hi)
    simp [hempty] at hnot
  | some j => exact ⟨j, mem_range.mp (mem_of_find?_eq_some hfind), rfl⟩

end State

/-! ## What a step does

Everything that a worker's step does to the array, and to its own index. -/

def Worker.begun (p : Worker) : Bool :=
  match p.phase with
  | .entering _ _ => true
  | .idle => !p.firstBeginAtStartup
  | _ => false

/-- A worker that looks stays with its look in reach of the array, and one that has begun has an
entry. -/
structure Worker.Placed (total : Nat) (p : Worker) : Prop where
  within : ∀ i commitLsn, p.phase = .searching i commitLsn → i ≤ total
  indexed : p.begun → p.index ≠ none

/-- The effect of an action of `w`, which is `p`, with `q` as what it becomes: nothing, an entry
found, a free entry filled, the own entry written to, or the error for want of a free entry. -/
inductive Effect (s : State) (w : Nat) (p : Worker) (a : Action) : State → Worker → Prop
  | stays {q : Worker} (hindex : q.index = p.index) : Effect s w p a s q
  | finds {q : Worker} {i : Nat} (hi : p.Placed s.total → i ≤ s.total)
      (hfor : (s.entries i).isFor p.name) (hindex : q.index = some i)
      (ha : a = .look ∨ a = .lock) : Effect s w p a s q
  | fills {q : Worker} {i : Nat} (commitLsn : Nat) (hsearch : s.search p.name = (none, some i))
      (hindex : q.index = some i) (ha : a = .lock) : Effect s w p a (s.fill w p.name i commitLsn) q
  | uses {q : Worker} {f : Entry → Entry}
      (hbegun : p.begun ∨ ∃ error action, a = .fail error action)
      (hname : ∀ e, (f e).slotName = e.slotName) (hindex : q.index = p.index) :
      Effect s w p a (s.access w p f) q
  | raises {q : Worker} (ha : a = .lock) (hfree : (s.search p.name).2 = none)
      (hindex : q.index = (s.search p.name).1.or p.index) :
      Effect s w p a { s with exhausted := true } q

theorem Worker.begin_index (p : Worker) (commitLsn : Nat) :
    (p.begin commitLsn).index = p.index := by
  unfold Worker.begin
  split <;> rfl

theorem Worker.begin_name (p : Worker) (commitLsn : Nat) : (p.begin commitLsn).name = p.name := by
  unfold Worker.begin
  split <;> rfl

variable {p : Worker} {s : State} {w : Nat}

theorem Worker.Placed.begin (h : p.Placed total) (hidle : p.phase = .idle) (commitLsn : Nat) :
    (p.begin commitLsn).Placed total := by
  unfold Worker.begin
  split
  · refine ⟨fun i _ heq => ?_, nofun⟩
    cases heq
    exact Nat.zero_le total
  · rename_i hfirst
    exact ⟨nofun, fun _ => h.indexed (by simpa [Worker.begun, hidle] using hfirst)⟩

theorem Worker.Placed.idle (hphase : q.phase = .idle)
    (hindexed : q.firstBeginAtStartup = false → q.index ≠ none) : q.Placed total where
  within _ _ heq := nomatch hphase.symm.trans heq
  indexed hbegun := hindexed (by simpa [Worker.begun, hphase] using hbegun)

theorem look_effect (s : State) (w : Nat) (p : Worker) (hphase : p.phase = .searching i commitLsn) :
    ∃ q, s.look w p i commitLsn = s.setWorker w q ∧ Effect s w p .look s q ∧ q.name = p.name ∧
      (p.Placed s.total → q.Placed s.total) := by
  unfold State.look
  split
  · rename_i hfor
    exact ⟨_, rfl, .finds (fun hp => hp.within i commitLsn hphase) hfor rfl (.inl rfl), rfl,
      fun _ => ⟨nofun, fun _ => nofun⟩⟩
  · split
    · rename_i hlt
      refine ⟨_, rfl, .stays rfl, rfl, fun _ => ⟨fun j _ heq => ?_, nofun⟩⟩
      cases heq
      exact hlt
    · exact ⟨_, rfl, .stays rfl, rfl, fun _ => ⟨nofun, nofun⟩⟩

theorem lock_effect (s : State) (w : Nat) (p : Worker) (commitLsn : Nat) :
    ∃ t q, s.lock w p commitLsn = t.setWorker w q ∧ Effect s w p .lock t q ∧ q.name = p.name ∧
      (p.Placed s.total → q.Placed s.total) := by
  unfold State.lock
  split
  · rename_i hsearch
    exact ⟨_, _, rfl, .raises rfl (by rw [hsearch]) (by rw [hsearch]), rfl,
      fun _ => ⟨nofun, nofun⟩⟩
  · rename_i _ hsearch
    obtain ⟨hi, hfor⟩ := State.search_found (congrArg Prod.fst hsearch)
    exact ⟨_, _, rfl, .finds (fun _ => hi) hfor rfl (.inr rfl), rfl,
      fun _ => ⟨nofun, fun _ => nofun⟩⟩
  · rename_i hsearch
    exact ⟨_, _, rfl, .fills commitLsn hsearch rfl rfl, rfl, fun _ => ⟨nofun, fun _ => nofun⟩⟩

/-- **The steps of a worker.** -/
theorem act_effect (h : act s w p a = some s') :
    ∃ t q, s' = t.setWorker w q ∧ Effect s w p a t q ∧ q.name = p.name ∧
      (p.Placed s.total → q.Placed s.total) := by
  cases a
  case storeTuple =>
    obtain ⟨⟨hidle, hfirst⟩, rfl⟩ := of_guard h
    exact ⟨_, _, rfl, .uses (.inl (by simp [Worker.begun, hidle, hfirst])) (fun _ => rfl) rfl, rfl,
      id⟩
  case clear =>
    obtain ⟨⟨hidle, hfirst⟩, rfl⟩ := of_guard h
    have hbegun : p.begun := by simp [Worker.begun, hidle, hfirst]
    exact ⟨_, _, rfl, .uses (.inl hbegun) (fun _ => rfl) rfl, rfl,
      fun hp => .idle hidle fun _ => hp.indexed hbegun⟩
  case fail error action =>
    obtain ⟨-, rfl⟩ := of_guard h
    exact ⟨_, _, rfl, .uses (.inr ⟨error, action, rfl⟩) (fun _ => rfl) rfl, rfl,
      fun _ => .idle rfl nofun⟩
  case exit =>
    cases h
    exact ⟨s, _, rfl, .stays rfl, rfl, fun hp => { hp with }⟩
  -- the others are steps of one phase
  all_goals
    simp only [act] at h
    split at h <;> cases h
    rename_i hphase
  next commitLsn _ =>
    exact ⟨s, _, rfl, .stays (p.begin_index commitLsn), p.begin_name commitLsn,
      fun hp => hp.begin hphase commitLsn⟩
  next => exact ⟨s, look_effect s w p hphase⟩
  next => exact lock_effect s w p _
  next =>
    have hbegun : p.begun := by simp [Worker.begun, hphase]
    exact ⟨_, _, rfl, .uses (.inl hbegun) (fun _ => rfl) rfl, rfl,
      fun hp => .idle rfl fun _ => hp.indexed hbegun⟩

/-- **A new index.** It is one of the array unless the memory behind the array is taken for the
worker's entry, or for a free one. -/
theorem Effect.index_lt {t : State} (he : Effect s w p a t q) (hin : ∀ i ∈ p.index, i < s.total)
    (hplaced : p.Placed s.total)
    (hbehind : a = .look ∨ a = .lock → ¬ (s.entries s.total).isFor p.name)
    (hfree : a = .lock → s.search p.name ≠ (none, some s.total)) (hi : q.index = some i) :
    i < s.total := by
  cases he with
  | stays hsame | uses _ _ hsame => exact hin i (hsame ▸ hi)
  | finds hle hfor hindex ha =>
    cases hi.symm.trans hindex
    refine (hle hplaced).lt_of_ne ?_
    rintro rfl
    exact hbehind ha hfor
  | fills _ hsearch hindex ha =>
    cases hi.symm.trans hindex
    refine (State.free_of_search hsearch).1.lt_of_ne ?_
    rintro rfl
    exact hfree ha hsearch
  | raises ha _ hindex =>
    rcases or_eq_some_iff.mp (hindex.symm.trans hi) with hsearch | ⟨-, hi⟩
    · obtain ⟨hle, hfor⟩ := State.search_found hsearch
      refine hle.lt_of_ne ?_
      rintro rfl
      exact hbehind (.inr ha) hfor
    · exact hin i hi

/-! ## The names in the array -/

def State.InArray (s : State) : Prop :=
  ∀ p ∈ s.workers, ∀ i ∈ p.index, i < s.total

instance (s : State) : Decidable s.InArray := by unfold State.InArray; infer_instance

/-- The names of the entries are names of subscriptions, each in one entry. -/
structure Filled (s : State) : Prop where
  nodup : s.names.Nodup
  listed : ∀ n ∈ s.subs, n ∈ s.names
  known : ∀ p ∈ s.workers, p.name ∈ s.names
  named : ∀ i < s.total, (s.entries i).slotName ≠ "" → (s.entries i).slotName ∈ s.names
  apart : ∀ i < s.total, ∀ j < s.total, (s.entries i).slotName ≠ "" →
    (s.entries i).slotName = (s.entries j).slotName → i = j

theorem init_entries (behind : Entry) (hi : i < total) :
    (State.init total behind).entries i = Entry.empty := by
  simp [State.init, hi.ne]

theorem filled_init (total : Nat) (behind : Entry) : Filled (State.init total behind) where
  nodup := nodup_nil
  listed := nofun
  known := nofun
  named _ hi hne := absurd (congrArg (·.slotName) (init_entries behind hi)) hne
  apart _ hi _ _ hne := absurd (congrArg (·.slotName) (init_entries behind hi)) hne

namespace State

variable (s : State) (w : Nat) (p : Worker) {f : Entry → Entry}

theorem access_slotName (hname : ∀ e, (f e).slotName = e.slotName) (i : Nat) :
    ((s.access w p f).entries i).slotName = (s.entries i).slotName := by
  unfold State.access
  split
  · rename_i j _
    by_cases hij : i = j
    · subst hij
      simp [State.write, hname]
    · simp [State.write, update_of_ne hij]
  · rfl

theorem access_frame (f : Entry → Entry) :
    (s.access w p f).names = s.names ∧ (s.access w p f).subs = s.subs ∧
      (s.access w p f).workers = s.workers ∧ (s.access w p f).total = s.total ∧
      (s.access w p f).exhausted = s.exhausted := by
  unfold State.access
  split <;> exact ⟨rfl, rfl, rfl, rfl, rfl⟩

theorem fill_slotName (name : String) (i commitLsn j : Nat) :
    ((s.fill w name i commitLsn).entries j).slotName =
      if j = i then name else (s.entries j).slotName := by
  by_cases hij : j = i
  · subst hij
    simp [State.fill, State.write]
  · simp [State.fill, State.write, hij]

end State

theorem Filled.setWorker (h : Filled s) (hq : q.name ∈ s.names) :
    Filled (s.setWorker w q) where
  __ := h
  known p hp := (mem_or_eq_of_mem_set hp).elim (h.known p) fun heq => heq ▸ hq

theorem Filled.access (h : Filled s) {f : Entry → Entry} (hname : ∀ e, (f e).slotName = e.slotName) :
    Filled (s.access w p f) := by
  obtain ⟨hnames, hsubs, hworkers, htotal, -⟩ := s.access_frame w p f
  have hslot := s.access_slotName w p hname
  exact
    { nodup := hnames ▸ h.nodup
      listed := hnames ▸ hsubs ▸ h.listed
      known := hnames ▸ hworkers ▸ h.known
      named := by simpa only [hslot, hnames, htotal] using h.named
      apart := by simpa only [hslot, htotal] using h.apart }

theorem Filled.fill (h : Filled s) (hname : name ∈ s.names)
    (hsearch : s.search name = (none, some i)) :
    Filled (s.fill w name i commitLsn) := by
  have hslot := s.fill_slotName w name i commitLsn
  have hother : ∀ j < s.total, (s.entries j).slotName ≠ name := by
    rintro j hj rfl
    have hfor := State.not_isFor_of_search hsearch hj.le
    rw [isFor_self] at hfor
    cases hfor
  refine { h with named := fun j hj hne => ?_, apart := fun j hj k hk hne heq => ?_ }
  · rw [hslot] at hne ⊢
    split
    · exact hname
    · rename_i hji
      exact h.named j hj (by rwa [if_neg hji] at hne)
  · rw [hslot] at hne heq
    rw [hslot] at heq
    split at heq <;> rename_i hji <;> split at heq <;> rename_i hki
    · exact hji.trans hki.symm
    · exact absurd heq.symm (hother k hk)
    · exact absurd heq (hother j hj)
    · exact h.apart j hj k hk (by rwa [if_neg hji] at hne) heq

theorem Effect.filled {t : State} (he : Effect s w p a t q) (h : Filled s) (hp : p ∈ s.workers) :
    Filled t := by
  cases he with
  | stays | finds => exact h
  | fills _ hsearch => exact h.fill (h.known p hp) hsearch
  | uses _ hname => exact h.access hname
  | raises => exact { h with }

theorem Effect.frame {t : State} (he : Effect s w p a t q) :
    t.names = s.names ∧ t.workers = s.workers ∧ t.total = s.total := by
  cases he with
  | @uses _ f =>
    obtain ⟨hnames, -, hworkers, htotal, -⟩ := s.access_frame w p f
    exact ⟨hnames, hworkers, htotal⟩
  | _ => exact ⟨rfl, rfl, rfl⟩

theorem act_of_step (h : step s (.act w a) = some s') :
    ∃ p, s.workers[w]? = some p ∧ p.live ∧ act s w p a = some s' := by
  obtain ⟨p, hp, hact⟩ := bind_eq_some_iff.mp h
  obtain ⟨hlive, hact⟩ := ite_none_right_eq_some.mp hact
  exact ⟨p, hp, hlive, hact⟩

/-- **The names in the array**, along every run. -/
theorem filled_step {e : Event} (h : Filled s) (hstep : step s e = some s') :
    Filled s' := by
  cases e with
  | createSub name =>
    obtain ⟨-, heq⟩ := ite_none_left_eq_some.mp hstep
    cases heq
    have hsub : ∀ n ∈ s.names, n ∈ if name ∈ s.names then s.names else name :: s.names := by
      intro n hn
      split
      · exact hn
      · exact mem_cons_of_mem _ hn
    refine ⟨?_, fun n hn => ?_, fun p hp => hsub _ (h.known p hp),
      fun i hi hne => hsub _ (h.named i hi hne), h.apart⟩
    · show (if name ∈ s.names then s.names else name :: s.names).Nodup
      split
      · exact h.nodup
      · rename_i hnew
        exact nodup_cons.mpr ⟨hnew, h.nodup⟩
    · rcases mem_cons.mp hn with rfl | hn
      · show n ∈ if n ∈ s.names then s.names else n :: s.names
        split
        · assumption
        · exact mem_cons_self
      · exact hsub n (h.listed n hn)
  | dropSub =>
    cases hstep
    exact { h with listed := fun n hn => h.listed n (mem_of_mem_erase hn) }
  | start name =>
    obtain ⟨hname, rfl⟩ := of_guard hstep
    refine { h with known := fun p hp => ?_ }
    rcases mem_append.mp hp with hp | hp
    · exact h.known p hp
    · rw [mem_singleton.mp hp]
      exact h.listed name hname
  | act =>
    obtain ⟨p, hp, -, hact⟩ := act_of_step hstep
    obtain ⟨t, q, rfl, he, hname, -⟩ := act_effect hact
    have hmem := mem_of_getElem? hp
    exact (he.filled h hmem).setWorker (hname ▸ he.frame.1 ▸ h.known p hmem)
  | behind =>
    cases hstep
    refine { h with named := fun i hi => ?_, apart := fun i hi j hj => ?_ }
    · simpa only [update_of_ne hi.ne] using h.named i hi
    · simpa only [update_of_ne hi.ne, update_of_ne hj.ne] using h.apart i hi j hj

end Spock.ExceptionLog
