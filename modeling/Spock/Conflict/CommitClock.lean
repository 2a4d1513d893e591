import Mathlib.Data.List.Basic
import Mathlib.Logic.Function.Basic
import Spock.Conflict.Transaction
import Spock.Lib.Runs

/-!
# Spock — the commit clock of the server

The transactions of `Spock.Conflict.Transaction` are atomic steps of a node. On a server they are
those of many backends at once: each reads the wall clock at some moment of its commit, and the
record gets its place in the WAL at a later one. The patched server corrects the timestamp at that
place, in `ReserveXLogInsertLocation` with the insert lock held, against a clock that all backends
share.

* **`Server`**, **`step`** — backends that read the wall clock and insert their records in any
  order;
* **`stamps_increase`** — so that a local commit is later than all that is before it in the WAL.
-/

namespace Spock.CommitClock

open Runs List Option

variable {B : Type} [DecidableEq B]

structure Backend where
  /-- The commit timestamp of the remote transaction, in an apply worker that has come to its
  COMMIT. -/
  applied : Option Int
  remoteTransactionStopTimestamp : Int
  xactStopTimestamp : Option Int
  deriving DecidableEq

/-- `xl_xact_commit`, as far as it has to do with the clock. -/
structure CommitRecord where
  applied : Option Int
  xactTime : Int
  deriving DecidableEq

structure Server (B : Type) where
  lastTransactionStopTimestamp : Int
  backends : B → Option Backend
  wal : List CommitRecord

/-- `XLOGShmemInit` clears the shared memory. -/
def Server.start (B : Type) : Server B where
  lastTransactionStopTimestamp := 0
  backends _ := none
  wal := []

inductive Event (B : Type) where
  | startTransaction (b : B)
  /-- `handle_commit` tells the commit code the timestamp of the remote transaction. -/
  | setRemote (b : B) (commitTime : Int)
  /-- `GetCurrentTransactionStopTimestamp` reads the wall clock. -/
  | readClock (b : B) (now : Int)
  | insertCommit (b : B)
  | noCommit (b : B)

def Server.setBackend (s : Server B) (b : B) (x : Option Backend) : Server B :=
  { s with backends := Function.update s.backends b x }

/-- `EnsureMonotonicTransactionStopTimestamp`, in the backend. -/
def Backend.stamp (x : Backend) (clock xactTime : Int) : Int × Int :=
  ensureMonotonicTransactionStopTimestamp clock x.remoteTransactionStopTimestamp xactTime

def step (s : Server B) : Event B → Option (Server B)
  | .startTransaction b =>
    if s.backends b = none then some (s.setBackend b (some ⟨none, 0, none⟩)) else none
  | .setRemote b commitTime =>
    (s.backends b).map fun x =>
      s.setBackend b (some { x with
        applied := some commitTime, remoteTransactionStopTimestamp := commitTime })
  | .readClock b now =>
    (s.backends b).map fun x => s.setBackend b (some { x with xactStopTimestamp := some now })
  | .insertCommit b =>
    (s.backends b).bind fun x => x.xactStopTimestamp.map fun xactTime =>
      { s.setBackend b none with
        lastTransactionStopTimestamp := (x.stamp s.lastTransactionStopTimestamp xactTime).1
        wal := s.wal ++ [⟨x.applied, (x.stamp s.lastTransactionStopTimestamp xactTime).2⟩] }
  | .noCommit b => (s.backends b).map fun _ => s.setBackend b none

/-! ## The clock and the records -/

/-- The timestamp that later local commits have to exceed: that of the remote transaction, and for a
local one its own. -/
def CommitRecord.origTime (r : CommitRecord) : Int := r.applied.getD r.xactTime

/-- A record and a later one: if the later one is local, its timestamp is the greater one. -/
def Respected (r r' : CommitRecord) : Prop := r'.applied = none → r.origTime < r'.xactTime
  deriving Decidable

/-- The clock has reached every timestamp that was given out or came in. -/
structure Reached (s : Server B) : Prop where
  nonneg : 0 ≤ s.lastTransactionStopTimestamp
  wal : ∀ r ∈ s.wal, r.origTime ≤ s.lastTransactionStopTimestamp
  respected : s.wal.Pairwise Respected
  /-- Only an apply worker has set the variable. -/
  backends : ∀ b x, s.backends b = some x →
    x.remoteTransactionStopTimestamp = x.applied.getD 0

theorem reached_start (B : Type) : Reached (.start B) :=
  ⟨Int.le_refl 0, nofun, List.Pairwise.nil, nofun⟩

/-- **The stamp of a record.** The clock does not go back and reaches what the record stands for; a
local record gets a timestamp above all that the clock had reached. A remote timestamp of 0 is taken
for a local one, which moves the clock past 0 all the same. -/
theorem stamp_spec {x : Backend} (hx : x.remoteTransactionStopTimestamp = x.applied.getD 0)
    {clock : Int} (hclock : 0 ≤ clock) (xactTime : Int) :
    clock ≤ (x.stamp clock xactTime).1 ∧
      (CommitRecord.mk x.applied (x.stamp clock xactTime).2).origTime ≤ (x.stamp clock xactTime).1 ∧
      (x.applied = none → clock < (x.stamp clock xactTime).2) := by
  obtain ⟨applied, remote, _⟩ := x
  dsimp only at hx
  subst hx
  cases applied with
  | none =>
    obtain ⟨habove, hmoved⟩ := ensureMonotonic_local clock xactTime
    have hlt : clock < (ensureMonotonicTransactionStopTimestamp clock 0 xactTime).1 := hmoved ▸ habove
    exact ⟨Int.le_of_lt hlt, Int.le_of_eq hmoved.symm, fun _ => habove⟩
  | some t =>
    -- 0 stands for the absence of a remote timestamp
    by_cases ht : t = 0
    · subst ht
      obtain ⟨habove, hmoved⟩ := ensureMonotonic_local clock xactTime
      have hlt : clock < (ensureMonotonicTransactionStopTimestamp clock 0 xactTime).1 := hmoved ▸ habove
      exact ⟨Int.le_of_lt hlt, Int.le_trans hclock (Int.le_of_lt hlt), nofun⟩
    · obtain ⟨hclock', ht'⟩ := ensureMonotonic_remote ht clock xactTime
      exact ⟨hclock', ht', nofun⟩

section Steps

variable {s : Server B}

theorem Reached.setBackend (h : Reached s) (b : B) {x : Option Backend}
    (hx : ∀ y, x = some y → y.remoteTransactionStopTimestamp = y.applied.getD 0) :
    Reached (s.setBackend b x) := by
  refine { h with backends := fun b' y hy => ?_ }
  rcases update_cases (rfl : (s.setBackend b x).backends = _) b' with ⟨-, heq⟩ | ⟨-, heq⟩
  · exact hx y (heq.symm.trans hy)
  · exact h.backends b' y (heq.symm.trans hy)

/-- **One record.** -/
theorem Reached.insertCommit (h : Reached s) {b : B} {x : Backend} (hx : s.backends b = some x)
    (xactTime : Int) :
    Reached { s.setBackend b none with
      lastTransactionStopTimestamp := (x.stamp s.lastTransactionStopTimestamp xactTime).1
      wal := s.wal ++ [⟨x.applied, (x.stamp s.lastTransactionStopTimestamp xactTime).2⟩] } := by
  obtain ⟨hmono, hreached, hlocal⟩ := stamp_spec (h.backends b x hx) h.nonneg xactTime
  refine ⟨Int.le_trans h.nonneg hmono, ?_, ?_, (h.setBackend b (x := none) nofun).backends⟩
  · intro r hr
    rcases mem_append.mp hr with hold | hnew
    · exact Int.le_trans (h.wal r hold) hmono
    · exact mem_singleton.mp hnew ▸ hreached
  · refine pairwise_append.mpr ⟨h.respected, pairwise_singleton _ _, ?_⟩
    -- the clock had reached every record before the new one
    intro r hr r' hr'
    rw [mem_singleton.mp hr']
    exact fun hnone => Int.lt_of_le_of_lt (h.wal r hr) (hlocal hnone)

end Steps

variable {s s' : Server B} {e : Event B} {t : Int}

theorem reached_step (h : Reached s) (hstep : step s e = some s') : Reached s' := by
  cases e with
  | startTransaction b =>
    obtain ⟨-, rfl⟩ := of_guard hstep
    exact h.setBackend b (by rintro _ ⟨rfl⟩; rfl)
  | setRemote b =>
    obtain ⟨x, -, rfl⟩ := map_eq_some_iff.mp hstep
    exact h.setBackend b (by rintro _ ⟨rfl⟩; rfl)
  | readClock b =>
    obtain ⟨x, hx, rfl⟩ := map_eq_some_iff.mp hstep
    exact h.setBackend b (by rintro _ ⟨rfl⟩; exact h.backends b x hx)
  | insertCommit =>
    obtain ⟨x, hx, hstep⟩ := bind_eq_some_iff.mp hstep
    obtain ⟨xactTime, -, rfl⟩ := map_eq_some_iff.mp hstep
    exact h.insertCommit hx xactTime
  | noCommit b =>
    obtain ⟨x, -, rfl⟩ := map_eq_some_iff.mp hstep
    exact h.setBackend b nofun

/-- **Local commit timestamps go up, above everything applied before.** In every run, of any
backends and with any readings of their wall clocks: a record of a local commit has a timestamp
above that of each local commit before it in the WAL, and above the commit timestamp of each remote
transaction whose record is before it. -/
theorem stamps_increase {es : List (Event B)} {s : Server B}
    (hrun : run step (.start B) es = some s) (pre mid post : List CommitRecord)
    (r r' : CommitRecord) (hwal : s.wal = pre ++ r :: mid ++ r' :: post) (hlocal : r'.applied = none) :
    (r.applied = none → r.xactTime < r'.xactTime) ∧
      ∀ commitTime, r.applied = some commitTime → commitTime < r'.xactTime := by
  have hreached : Reached s := run_invariant (fun _ _ _ => reached_step) (reached_start B) hrun
  have hpairs := hwal ▸ hreached.respected
  have hlt : r.origTime < r'.xactTime :=
    (pairwise_append.mp hpairs).2.2 r (by simp) r' (by simp) hlocal
  unfold CommitRecord.origTime at hlt
  constructor
  · intro hnone
    rwa [hnone] at hlt
  · intro commitTime hsome
    rwa [hsome] at hlt

/-- A local commit, the commit of a remote transaction from the future, and one of another backend
that had read its wall clock before. -/
def overtaken : List (Event Bool) :=
  [.startTransaction true, .readClock true 5, .startTransaction false, .setRemote false 90,
    .readClock false 6, .insertCommit false, .insertCommit true]

theorem stamps_increase_overtaken :
    ∃ s, run step (.start Bool) overtaken = some s ∧ s.wal = [⟨some 90, 6⟩, ⟨none, 91⟩] ∧
      (90 : Int) < 91 := by
  refine ⟨_, rfl, rfl, ?_⟩
  exact (stamps_increase (rfl : run step (.start Bool) overtaken = some _) [] [] [] ⟨some 90, 6⟩
    ⟨none, 91⟩ rfl rfl).2 90 rfl

end Spock.CommitClock
