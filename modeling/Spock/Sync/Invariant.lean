import Spock.Sync.Handover

/-!
# Spock — the invariant of the handover

At any time the transactions whose changes the table has are known from its status alone: none
before the copy, those before the slot's LSN after it, those before the cursor of the catch-up
stream, and then also those that the main worker has handled. What is needed for that is that the
main worker skips what the sync worker brings, and knows where that ends. It does as long as its
list of statuses is not missing or out of date when a transaction changes the table (`Careful`).
-/

namespace Spock.Sync

open Runs

/-! ## The conditions -/

/-- What the main worker must not do: handle changes of the table in the transaction of its
TABLESYNC message, or of an unsynchronised table before it has read the status or while it has last
read CATCHUP; commit anything of its own while a failed transaction waits to be replayed; give up
waiting; and start again between the snapshot and the handshake if it had handled no transaction
when it started the sync worker. -/
def System.Careful (s : System) : Event → Prop
  | .txn _ => ∀ t, s.wal[s.next]? = some t → t.changes = true →
      (t.tableSync = true → s.sync ≠ none) ∧
      ∀ sync, s.sync = some sync → sync.status ≠ .ready →
        ∃ row, s.syncingTables = some row ∧ row.status ≠ .catchup
  | .idle _ | .own => s.failed = false
  | .giveUp => False
  | .restart => ∀ sync, s.sync = some sync → sync.status = .data ∨ sync.status = .syncwait →
      s.worker ≠ some 0
  | _ => True

instance (s : System) (e : Event) : Decidable (s.Careful e) := by
  cases e <;> unfold System.Careful <;> infer_instance

/-! ## The publisher's transactions -/

variable {s s' : System}

structure WalOk (s : System) : Prop where
  ordered : s.wal.Pairwise fun t u => t.endLsn ≤ u.commitLsn
  le : ∀ t ∈ s.wal, t.endLsn ≤ s.walEnd
  announced : ∀ (i : ℕ) (t : Txn), s.wal[i]? = some t → t.changes = true → s.initially = true ∨
    ∃ (j : ℕ) (u : Txn), j ≤ i ∧ s.wal[j]? = some u ∧ u.tableSync = true

variable {i : Nat} {t : Txn} {p p' : ℕ → Txn → Prop}

theorem WalOk.end_le_commit (h : WalOk s) {j : Nat} {u : Txn} (ht : s.wal[i]? = some t)
    (hu : s.wal[j]? = some u) (hlt : i < j) : t.endLsn ≤ u.commitLsn := by
  obtain ⟨hi, rfl⟩ := List.getElem?_eq_some_iff.1 ht
  obtain ⟨hj, rfl⟩ := List.getElem?_eq_some_iff.1 hu
  exact List.pairwise_iff_getElem.1 h.ordered i j hi hj hlt

structure Boundary (s : System) (lsn : Nat) : Prop where
  le : lsn ≤ s.walEnd
  cut : ∀ t ∈ s.wal, t.endLsn ≤ lsn ∨ lsn ≤ t.commitLsn

/-- The LSN is not after the start of a transaction that the main worker has not handled. -/
def NotPast (s : System) (lsn : Nat) : Prop :=
  ∀ (i : ℕ) (t : Txn), s.next ≤ i → s.wal[i]? = some t → lsn ≤ t.commitLsn

theorem boundary_zero (s : System) : Boundary s 0 :=
  ⟨Nat.zero_le _, fun _ _ => .inr (Nat.zero_le _)⟩

theorem Boundary.max {a b : Nat} (ha : Boundary s a) (hb : Boundary s b) :
    Boundary s (max a b) := by
  rcases Nat.le_total a b with hle | hle
  · rwa [Nat.max_eq_right hle]
  · rwa [Nat.max_eq_left hle]

theorem NotPast.max {a b : Nat} (ha : NotPast s a) (hb : NotPast s b) : NotPast s (max a b) :=
  fun i t hi ht => Nat.max_le.2 ⟨ha i t hi ht, hb i t hi ht⟩

theorem WalOk.boundary (h : WalOk s) (ht : s.wal[i]? = some t) :
    Boundary s t.commitLsn ∧ Boundary s t.endLsn := by
  have hend := h.le t (List.mem_of_getElem? ht)
  have hlt := t.commitLsn_lt
  have hcases : ∀ u ∈ s.wal, u.endLsn ≤ t.commitLsn ∨ u = t ∨ t.endLsn ≤ u.commitLsn := by
    intro u hu
    obtain ⟨j, hj⟩ := List.getElem?_of_mem hu
    rcases Nat.lt_trichotomy j i with hlt | rfl | hgt
    · exact .inl (h.end_le_commit hj ht hlt)
    · rw [ht, Option.some_inj] at hj
      exact .inr (.inl hj.symm)
    · exact .inr (.inr (h.end_le_commit ht hj hgt))
  refine ⟨⟨by omega, fun u hu => ?_⟩, ⟨hend, fun u hu => ?_⟩⟩
  · rcases hcases u hu with hle | rfl | hle
    · exact .inl hle
    · exact .inr (le_refl _)
    · exact .inr (by omega)
  · rcases hcases u hu with hle | rfl | hle
    · exact .inl (by omega)
    · exact .inl (le_refl _)
    · exact .inr hle

/-! ## The main worker -/

/-- Every change that the main worker has handled ends before the session's position, unless the
process has handled nothing; then it ends before the origin's. -/
def Handled (s : System) : Prop :=
  (s.position.sessionLsn = 0 ∧ ∀ (i : ℕ) (t : Txn), i < s.next → s.wal[i]? = some t →
    t.endLsn ≤ s.position.remoteLsn) ∨
  ∀ (i : ℕ) (t : Txn), i < s.next → s.wal[i]? = some t → t.changes = true →
    t.endLsn ≤ s.position.sessionLsn

theorem Handled.end_le (h : Handled s) (hi : i < s.next) (ht : s.wal[i]? = some t)
    (hchanges : t.changes = true) : t.endLsn ≤ s.position.commit.remoteLsn := by
  show t.endLsn ≤ max s.position.remoteLsn s.position.sessionLsn
  rcases h with ⟨-, hall⟩ | hall
  · exact (hall i t hi ht).trans (Nat.le_max_left _ _)
  · exact (hall i t hi ht hchanges).trans (Nat.le_max_right _ _)

/-- What `process_syncing_tables` is called with has not passed a transaction still to be
handled. -/
def Received (s : System) (lsn : Nat) : Prop :=
  s.failed = false ∧ lsn ≤ s.walEnd ∧
    ∀ (i : ℕ) (t : Txn), s.next ≤ i → s.wal[i]? = some t → lsn < t.endLsn

/-- **The positions of the main worker.** While a failed transaction waits to be replayed nothing is
known about the session's. -/
structure MainOk (s : System) : Prop where
  next_le : s.next ≤ s.wal.length
  origin_boundary : Boundary s s.position.remoteLsn
  origin_le : NotPast s s.position.remoteLsn
  session_boundary : s.failed = false → Boundary s s.position.sessionLsn
  session_le : s.failed = false → NotPast s s.position.sessionLsn
  handled : s.failed = false → Handled s
  received : ∀ x, s.pc = .processing x ∨ s.pc = .waiting x → Received s x

/-! ## The table -/

/-- The table has the changes of the transactions with `p` once, and nothing else. -/
structure Once (s : System) (p : ℕ → Txn → Prop) : Prop where
  one : ∀ (i : ℕ) (t : Txn), s.wal[i]? = some t → t.changes = true → p i t → s.times i = 1
  only : ∀ i, s.times i ≠ 0 → ∃ t, s.wal[i]? = some t ∧ t.changes = true ∧ p i t

theorem Once.congr (h : Once s p) (hwal : s'.wal = s.wal) (htimes : ∀ i, s'.times i = s.times i)
    (hp : ∀ (i : ℕ) (t : Txn), s.wal[i]? = some t → t.changes = true → (p' i t ↔ p i t)) :
    Once s' p' where
  one i t ht hchanges hp' := by
    rw [hwal] at ht
    rw [htimes]
    exact h.one i t ht hchanges ((hp i t ht hchanges).1 hp')
  only i hne := by
    rw [htimes] at hne
    obtain ⟨t, ht, hchanges, hpt⟩ := h.only i hne
    rw [hwal]
    exact ⟨t, ht, hchanges, (hp i t ht hchanges).2 hpt⟩

theorem Once.add (h : Once s p) (hwal : s'.wal = s.wal) {n : Nat} (ht : s.wal[n]? = some t)
    (hchanges : t.changes = true) (hnot : ¬ p n t)
    (htimes : ∀ i, s'.times i = s.times i + if i = n then 1 else 0)
    (hp : ∀ (i : ℕ) (t : Txn), s.wal[i]? = some t → t.changes = true → (p' i t ↔ p i t ∨ i = n)) :
    Once s' p' := by
  have hzero : s.times n = 0 := by
    by_contra hne
    obtain ⟨_, ht', -, hpt⟩ := h.only n hne
    rw [ht, Option.some_inj] at ht'
    exact hnot (ht' ▸ hpt)
  refine ⟨fun i u hu hu' hpu => ?_, fun i hne => ?_⟩
  · rw [hwal] at hu
    rw [htimes]
    by_cases heq : i = n
    · rw [heq, hzero, if_pos rfl]
    · rw [if_neg heq, h.one i u hu hu' (((hp i u hu hu').1 hpu).resolve_right heq)]
  · rw [htimes] at hne
    rw [hwal]
    by_cases heq : i = n
    · subst heq
      exact ⟨t, ht, hchanges, (hp i t ht hchanges).2 (.inr rfl)⟩
    · rw [if_neg heq] at hne
      obtain ⟨u, hu, hu', hpu⟩ := h.only i hne
      exact ⟨u, hu, hu', (hp i u hu hu').2 (.inl hpu)⟩

/-- The slot of the sync worker: its snapshot ends, and its stream begins, at the cursor. -/
structure Slot (s : System) (lsn : Nat) : Prop where
  le : lsn ≤ s.walEnd
  cursor_le : s.cursor ≤ s.wal.length
  before : ∀ (i : ℕ) (t : Txn), s.wal[i]? = some t → i < s.cursor → t.endLsn ≤ lsn
  after : ∀ (i : ℕ) (t : Txn), s.wal[i]? = some t → s.cursor ≤ i → lsn ≤ t.commitLsn

theorem Slot.boundary {lsn : Nat} (h : Slot s lsn) : Boundary s lsn := by
  refine ⟨h.le, fun t ht => ?_⟩
  obtain ⟨i, hi⟩ := List.getElem?_of_mem ht
  rcases Nat.lt_or_ge i s.cursor with hlt | hge
  · exact .inl (h.before i t hi hlt)
  · exact .inr (h.after i t hi hge)

theorem Slot.end_le_iff {lsn : Nat} (h : Slot s lsn) (ht : s.wal[i]? = some t) :
    t.endLsn ≤ lsn ↔ i < s.cursor := by
  refine ⟨fun hle => ?_, h.before i t ht⟩
  by_contra hge
  have hafter := h.after i t ht (Nat.le_of_not_lt hge)
  have hlt := t.commitLsn_lt
  omega

/-! ## The statuses -/

def Status.isCopying : Status → Bool
  | .init | .started | .data | .syncwait => true
  | _ => false

/-- The main worker has last read a status before the handshake, and does not wait. -/
structure Skips (s : System) : Prop where
  list : ∀ row, s.syncingTables = some row → row.status.isCopying = true
  pc : ∀ x, s.pc ≠ .waiting x

/-- **What holds in each status.** -/
inductive Phase (s : System) : Option SpockSyncStatus → Prop
  /-- No status: nothing was published so far. -/
  | absent (hinitially : s.initially = false)
    (hqueued : ∀ (i : ℕ) (t : Txn), i < s.next → s.wal[i]? = some t → t.tableSync = false)
    (hlist : s.syncingTables = none) (hworker : s.worker = none) (hpc : ∀ x, s.pc ≠ .waiting x)
    (hnone : ∀ i, s.times i = 0) : Phase s none
  /-- INIT and STARTED: the table is empty. -/
  | beginning {sync : SpockSyncStatus}
    (hstatus : sync.status = .init ∨ (sync.status = .started ∧ s.worker ≠ none))
    (hskips : Skips s) (hnone : ∀ i, s.times i = 0) : Phase s (some sync)
  /-- DATA and SYNCWAIT: the snapshot is taken, and then copied. A main worker that has handled
  nothing since it started the sync worker had handled nothing else than what is in the snapshot. -/
  | copying {sync : SpockSyncStatus}
    (hstatus : (sync.status = .data ∧ ∀ i, s.times i = 0) ∨
      (sync.status = .syncwait ∧ Once s fun i _ => i < s.cursor))
    (hworker : s.worker ≠ none) (hskips : Skips s) (hslot : Slot s sync.statuslsn)
    (hfresh : s.worker = some 0 → s.failed = false → s.position.sessionLsn = 0 →
      ∀ (i : ℕ) (t : Txn), i < s.next → s.wal[i]? = some t → t.endLsn ≤ sync.statuslsn) :
    Phase s (some sync)
  /-- CATCHUP: the main worker had skipped nothing after `replay_stop_lsn`. -/
  | catchup {lsn stop : Nat} (hworker : s.worker = some stop)
    (hlist : ∀ row, s.syncingTables = some row → row.status = .catchup)
    (hle : lsn ≤ s.walEnd) (hcursor : s.cursor ≤ s.wal.length) (hslot : stop ≤ lsn → Slot s lsn)
    (hskipped : ∀ (i : ℕ) (t : Txn), i < s.next → s.wal[i]? = some t → t.changes = true →
      t.endLsn ≤ max lsn stop)
    (honce : Once s fun i _ => i < s.cursor) : Phase s (some ⟨.catchup, lsn⟩)
  /-- SYNCDONE: what the main worker has applied lies after the LSN, and is durable. -/
  | syncdone {lsn : Nat} (hworker : s.worker = none)
    (hlist : ∀ row, s.syncingTables = some row → row.status = .catchup ∨ row = ⟨.syncdone, lsn⟩)
    (hboundary : Boundary s lsn)
    (hwritten : ∀ (i : ℕ) (t : Txn), i < s.next → s.wal[i]? = some t → t.changes = true →
      t.endLsn ≤ lsn ∨ t.endLsn ≤ s.position.remoteLsn)
    (honce : Once s fun i t => t.endLsn ≤ lsn ∨ i < s.next) : Phase s (some ⟨.syncdone, lsn⟩)
  /-- READY: the table has what the main worker has handled. -/
  | ready {lsn : Nat} (hworker : s.worker = none) (hlist : s.syncingTables = none)
    (hpc : ∀ x, s.pc ≠ .waiting x)
    (hwritten : ∀ (i : ℕ) (t : Txn), i < s.next → s.wal[i]? = some t → t.changes = true →
      t.endLsn ≤ s.position.remoteLsn)
    (honce : Once s fun i _ => i < s.next) : Phase s (some ⟨.ready, lsn⟩)

/-- **The invariant.** -/
structure Inv (s : System) : Prop where
  wal : WalOk s
  main : MainOk s
  phase : Phase s s.sync

end Spock.Sync
