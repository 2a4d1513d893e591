import Mathlib.Data.Int.Order.Basic
import Mathlib.Data.List.Nodup
import Mathlib.Order.MinMax
import Mathlib.Order.Nat
import Spock.Basic

/-!
# Spock — the progress of an apply group and its writers

Shared memory has one `SpockApplyProgress` for every pair of a subscriber and a provider, in the
hash table `SpockGroupHash`. Seven functions write to it, each a part of the fields and with a rule
of its own for what is already there.
-/

namespace Spock.Progress

open List

/-! ## One entry -/

/-- `SpockGroupKey`. -/
structure GroupKey where
  dbid : Nat
  nodeId : Nat
  remoteNodeId : Nat
  deriving DecidableEq

def someKey : GroupKey := ⟨5, 1, 2⟩

/-- `SpockApplyProgress`. -/
@[ext] structure ApplyProgress where
  key : GroupKey
  remoteCommitTs : Int
  prevRemoteTs : Int
  remoteCommitLsn : Nat
  remoteInsertLsn : Nat
  receivedLsn : Nat
  lastUpdatedTs : Int
  updatedByDecode : Bool
  deriving DecidableEq

/-- `spock_init_progress_fields`, of an entry that has its key. -/
def initProgressFields (key : GroupKey) : ApplyProgress where
  key := key
  remoteCommitTs := 0
  prevRemoteTs := 0
  remoteCommitLsn := 0
  remoteInsertLsn := 0
  receivedLsn := 0
  lastUpdatedTs := 0
  updatedByDecode := false

/-- The part of `progress_update_struct` that is about a commit. -/
def adoptCommit (dest src : ApplyProgress) : ApplyProgress :=
  if dest.remoteCommitTs < src.remoteCommitTs then
    { dest with
      remoteCommitTs := src.remoteCommitTs
      prevRemoteTs := src.prevRemoteTs
      remoteCommitLsn := src.remoteCommitLsn
      lastUpdatedTs := src.lastUpdatedTs
      updatedByDecode := src.updatedByDecode }
  else dest

/-- `progress_update_struct`. -/
def progressUpdateStruct (dest src : ApplyProgress) : ApplyProgress :=
  { adoptCommit dest src with
    remoteInsertLsn := max dest.remoteInsertLsn src.remoteInsertLsn
    receivedLsn := max dest.receivedLsn src.receivedLsn }

/-- `spock_group_attach`, of what `hash_search` finds. -/
def attach (key : GroupKey) (found : Option ApplyProgress) : ApplyProgress :=
  found.getD (initProgressFields key)

/-- `spock_group_progress_update`, of what `hash_search` finds. -/
def progressUpdate (sap : ApplyProgress) (found : Option ApplyProgress) : ApplyProgress :=
  progressUpdateStruct (attach sap.key found) sap

/-- What `UpdateWorkerStats` hands to `spock_group_progress_update_ptr`. -/
def workerStats (key : GroupKey) (lastReceived lastInserted : Nat) : ApplyProgress :=
  { initProgressFields key with receivedLsn := lastReceived, remoteInsertLsn := lastInserted }

/-- What `handle_commit` hands to `spock_group_progress_update_ptr`. The insert LSN is the one it
read from the entry just before, without the lock. -/
def commitProgress (key : GroupKey) (commitTime : Int) (endLsn insertLsn : Nat) (now : Int) :
    ApplyProgress where
  key := key
  remoteCommitTs := commitTime
  prevRemoteTs := commitTime
  remoteCommitLsn := endLsn
  remoteInsertLsn := insertLsn
  receivedLsn := endLsn
  lastUpdatedTs := now
  updatedByDecode := true

inductive ReconcileResult where
  | fileInSync
  | fileStale
  | fileAnomaly
  | fileAbsent
  deriving DecidableEq

/-- An entry that is moved to the LSN of the replication origin and loses its timestamps. -/
def trustOrigin (originLsn : Nat) (p : ApplyProgress) : ApplyProgress :=
  { p with
    remoteCommitLsn := originLsn
    remoteCommitTs := 0
    prevRemoteTs := 0
    lastUpdatedTs := 0
    remoteInsertLsn := max p.remoteInsertLsn originLsn
    receivedLsn := max p.receivedLsn originLsn }

/-- `reconcile_progress_with_origin`. -/
def reconcile (key : GroupKey) (originLsn : Nat) :
    Option ApplyProgress → ReconcileResult × ApplyProgress
  | none =>
    (.fileAbsent, { initProgressFields key with
      remoteCommitLsn := originLsn, remoteInsertLsn := originLsn, receivedLsn := originLsn })
  | some p =>
    if p.remoteCommitLsn = originLsn then (.fileInSync, p)
    else if p.remoteCommitLsn < originLsn then (.fileStale, trustOrigin originLsn p)
    else (.fileAnomaly, trustOrigin originLsn p)

/-- The end of `recover_progress_timestamps_from_commit_ts`: what the scan has found is stored. -/
def storeRecovered (runningMaxTs : Int) (p : ApplyProgress) : ApplyProgress :=
  if 0 < runningMaxTs ∧ p.remoteCommitTs < runningMaxTs then
    { p with
      remoteCommitTs := runningMaxTs, prevRemoteTs := runningMaxTs, lastUpdatedTs := runningMaxTs }
  else p

/-- `spock_group_progress_force_set_list`, of one element of the list. -/
def forceSet (sap : ApplyProgress) : ApplyProgress :=
  { sap with
    remoteInsertLsn := max sap.remoteInsertLsn sap.remoteCommitLsn
    receivedLsn := max sap.receivedLsn sap.remoteCommitLsn }

/-! ## The rows of a peer -/

/-- A row of `spock.progress` of a peer; a timestamp is NULL where the peer's entry has 0. -/
structure PeerRow where
  key : GroupKey
  remoteCommitTs : Option Int
  remoteCommitLsn : Nat
  remoteInsertLsn : Nat
  lastUpdatedTs : Option Int
  updatedByDecode : Bool
  deriving DecidableEq

/-- What `adjust_progress_info` makes of a row. The memory for it is not cleared, and a NULL column
leaves the field as it is there: `stale` has what `MemoryContextAlloc` returns. -/
def adjustProgressInfo (stale : ApplyProgress) (row : PeerRow) : ApplyProgress where
  key := row.key
  remoteCommitTs := row.remoteCommitTs.getD stale.remoteCommitTs
  prevRemoteTs := row.remoteCommitTs.getD stale.remoteCommitTs
  remoteCommitLsn := row.remoteCommitLsn
  remoteInsertLsn := row.remoteInsertLsn
  receivedLsn := row.remoteCommitLsn
  lastUpdatedTs := row.lastUpdatedTs.getD stale.lastUpdatedTs
  updatedByDecode := row.updatedByDecode

/-- What `spock_create_slot_and_read_progress` makes of a row: a NULL column is 0. -/
def readPeerProgress (row : PeerRow) : ApplyProgress where
  key := row.key
  remoteCommitTs := row.remoteCommitTs.getD 0
  prevRemoteTs := row.remoteCommitTs.getD 0
  remoteCommitLsn := row.remoteCommitLsn
  remoteInsertLsn := row.remoteInsertLsn
  receivedLsn := row.remoteCommitLsn
  lastUpdatedTs := row.lastUpdatedTs.getD 0
  updatedByDecode := row.updatedByDecode

/-! ### What the writers leave in the fields -/

variable {dest src : ApplyProgress} {key : GroupKey}

theorem adoptCommit_pos (h : dest.remoteCommitTs < src.remoteCommitTs) :
    adoptCommit dest src = { src with
      key := dest.key, remoteInsertLsn := dest.remoteInsertLsn, receivedLsn := dest.receivedLsn } :=
  if_pos h

theorem adoptCommit_neg (h : ¬ dest.remoteCommitTs < src.remoteCommitTs) :
    adoptCommit dest src = dest := if_neg h

variable (dest src : ApplyProgress)

@[simp] theorem adoptCommit_key : (adoptCommit dest src).key = dest.key := by
  unfold adoptCommit
  split <;> rfl

@[simp] theorem progressUpdateStruct_key :
    (progressUpdateStruct dest src).key = dest.key := adoptCommit_key dest src

@[simp] theorem progressUpdateStruct_insert :
    (progressUpdateStruct dest src).remoteInsertLsn
      = max dest.remoteInsertLsn src.remoteInsertLsn := rfl

theorem progressUpdateStruct_ts :
    (progressUpdateStruct dest src).remoteCommitTs = max dest.remoteCommitTs src.remoteCommitTs := by
  show (adoptCommit dest src).remoteCommitTs = _
  by_cases h : dest.remoteCommitTs < src.remoteCommitTs
  · rw [adoptCommit_pos h, max_eq_right (le_of_lt h)]
  · rw [adoptCommit_neg h, max_eq_left (not_lt.mp h)]

theorem progressUpdateStruct_commitLsn :
    (progressUpdateStruct dest src).remoteCommitLsn
      = if dest.remoteCommitTs < src.remoteCommitTs then src.remoteCommitLsn
        else dest.remoteCommitLsn := by
  show (adoptCommit dest src).remoteCommitLsn = _
  split
  · next h => rw [adoptCommit_pos h]
  · next h => rw [adoptCommit_neg h]

@[simp] theorem storeRecovered_key (ts : Int) (p : ApplyProgress) :
    (storeRecovered ts p).key = p.key := by
  unfold storeRecovered
  split <;> rfl

@[simp] theorem storeRecovered_insert (ts : Int) (p : ApplyProgress) :
    (storeRecovered ts p).remoteInsertLsn = p.remoteInsertLsn := by
  unfold storeRecovered
  split <;> rfl

variable {found : Option ApplyProgress}

theorem attach_key (h : ∀ p ∈ found, p.key = key) : (attach key found).key = key := by
  cases found with
  | none => rfl
  | some p => exact h p rfl

theorem reconcile_key (originLsn : Nat) (h : ∀ p ∈ found, p.key = key) :
    (reconcile key originLsn found).2.key = key := by
  cases found with
  | none => rfl
  | some p =>
    have hp := h p rfl
    unfold reconcile
    dsimp only
    split
    · exact hp
    · split <;> exact hp

/-! ## The table -/

/-- `SpockGroupHash`. A sequential scan of the table comes to its entries in the order of the
list. -/
structure GroupHash where
  capacity : Nat
  entries : List ApplyProgress
  nodup : (entries.map (·.key)).Nodup
  fits : entries.length ≤ capacity

namespace GroupHash

def empty (capacity : Nat) : GroupHash where
  capacity := capacity
  entries := []
  nodup := List.nodup_nil
  fits := Nat.zero_le capacity

/-- `hash_search(HASH_FIND)`. -/
def find (h : GroupHash) (key : GroupKey) : Option ApplyProgress :=
  h.entries.find? (fun p => p.key = key)

/-- The entries with `p` in the place of the one that has its key. -/
def replaced (h : GroupHash) (p : ApplyProgress) : List ApplyProgress :=
  h.entries.map (fun q => if q.key = p.key then p else q)

theorem replaced_keys (h : GroupHash) (p : ApplyProgress) :
    (h.replaced p).map (·.key) = h.entries.map (·.key) := by
  rw [replaced, map_map]
  refine map_congr_left fun q _ => ?_
  show (if q.key = p.key then p else q).key = q.key
  split
  · next heq => exact heq.symm
  · rfl

variable {h : GroupHash} {p : ApplyProgress}

theorem nodup_append (hp : p.key ∉ h.entries.map (·.key)) :
    ((h.entries ++ [p]).map (·.key)).Nodup := by
  rw [List.map_append, List.nodup_append]
  refine ⟨h.nodup, List.nodup_singleton _, fun k hk k' hk' heq => ?_⟩
  rw [List.map_singleton, List.mem_singleton] at hk'
  exact hp (hk' ▸ heq ▸ hk)

/-- `hash_search(HASH_ENTER)` and the write to the entry it returns. In a full table a new key gets
no entry. -/
def put (h : GroupHash) (p : ApplyProgress) : GroupHash :=
  if hp : p.key ∈ h.entries.map (·.key) then
    { capacity := h.capacity
      entries := h.replaced p
      nodup := h.replaced_keys p ▸ h.nodup
      fits := by rw [replaced, List.length_map]; exact h.fits }
  else if hfull : h.entries.length < h.capacity then
    { capacity := h.capacity
      entries := h.entries ++ [p]
      nodup := nodup_append hp
      fits := by rw [List.length_append]; exact hfull }
  else h

theorem find_key (hfind : h.find key = some p) : p.key = key := by
  simpa using find?_some hfind

theorem find_mem (hfind : h.find key = some p) :
    p ∈ h.entries := mem_of_find?_eq_some hfind

theorem find_eq_some_iff : h.find key = some p ↔ p ∈ h.entries ∧ p.key = key := by
  constructor
  · exact fun hfind => ⟨find_mem hfind, find_key hfind⟩
  · rintro ⟨hp, rfl⟩
    -- the first entry with the key is `p`, since there is no other
    obtain ⟨q, hq⟩ : ∃ q, h.find p.key = some q :=
      Option.isSome_iff_exists.mp (find?_isSome.mpr ⟨p, hp, by simp⟩)
    rw [hq, inj_on_of_nodup_map h.nodup (find_mem hq) hp (find_key hq)]

theorem mem_put {q : ApplyProgress} (hq : q ∈ (h.put p).entries) :
    q = p ∨ (q ∈ h.entries ∧ q.key ≠ p.key) := by
  unfold put at hq
  split at hq
  · obtain ⟨r, hr, rfl⟩ := mem_map.mp hq
    split
    · exact .inl rfl
    · next hne => exact .inr ⟨hr, hne⟩
  · next hnew =>
    have hother : ∀ r ∈ h.entries, r.key ≠ p.key :=
      fun r hr heq => hnew (heq ▸ mem_map_of_mem hr)
    split at hq
    · rcases mem_append.mp hq with hold | hlast
      · exact .inr ⟨hold, hother q hold⟩
      · exact .inl (mem_singleton.mp hlast)
    · exact .inr ⟨hq, hother q hq⟩

theorem mem_keys_put (hkey : key ∈ h.entries.map (·.key)) :
    key ∈ (h.put p).entries.map (·.key) := by
  unfold put
  split
  · rwa [replaced_keys]
  · split
    · rw [map_append]
      exact mem_append_left _ hkey
    · exact hkey

theorem forall_put {P : ApplyProgress → Prop} (hold : ∀ q ∈ h.entries, P q) (hnew : P p) :
    ∀ q ∈ (h.put p).entries, P q := by
  intro q hq
  rcases mem_put hq with rfl | ⟨hq, -⟩
  · exact hnew
  · exact hold q hq

end GroupHash

end Spock.Progress
