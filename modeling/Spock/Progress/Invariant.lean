import Spock.Lib.Runs
import Spock.Progress.Dump

/-!
# Spock — what the assertions of `progress_update_struct` say of every entry

`progress_update_struct` asserts that an entry has not committed more than has been inserted and
received, and that its two timestamps are set together. The assertions are compiled into debugging
builds only, and stand in one writer of seven. Here all writers run against the table, in any order.

* **`Shmem`**, **`step`** — the table, the file it is dumped to, and the calls that change them;
* **`entries_coherent`** — in a run of such calls every entry is as asserted.
-/

namespace Spock.Progress

open Runs List Option Function

/-! ## The shared memory and its writers -/

structure Shmem where
  systemIdentifier : Nat
  hash : GroupHash
  /-- `resource.dat`. -/
  file : Option ResFile
  /-- The greatest LSNs that `UpdateWorkerStats` was called with for a key since the server
  started. -/
  reportedInsert : GroupKey → Nat
  reportedReceived : GroupKey → Nat

def Shmem.start (systemIdentifier capacity : Nat) : Shmem where
  systemIdentifier := systemIdentifier
  hash := .empty capacity
  file := none
  reportedInsert _ := 0
  reportedReceived _ := 0

inductive Event where
  /-- `spock_group_attach`. -/
  | attach (key : GroupKey)
  /-- `UpdateWorkerStats`, for a data message or a keepalive. -/
  | report (key : GroupKey) (lastReceived lastInserted : Nat)
  /-- The update of `handle_commit`; `insertLsn` is what it read from the entry before. -/
  | commit (key : GroupKey) (commitTime : Int) (endLsn insertLsn : Nat) (now : Int)
  | reconcile (key : GroupKey) (originLsn : Nat)
  | recover (key : GroupKey) (runningMaxTs : Int)
  /-- One row of `spock_group_progress_update_list`, made into an entry in memory that held
  `stale`. -/
  | updateRow (stale : ApplyProgress) (row : PeerRow)
  /-- One row of `spock_group_progress_force_set_list`. -/
  | forceSetRow (row : PeerRow)
  | dump
  /-- The shared memory is set up anew and loaded from the file. -/
  | restart (capacity : Nat)

namespace Shmem

def put (s : Shmem) (p : ApplyProgress) : Shmem := { s with hash := s.hash.put p }

/-- The LSNs of a COMMIT message have been reported before. -/
def Reported (s : Shmem) (key : GroupKey) (endLsn : Nat) : Prop :=
  endLsn ≤ s.reportedInsert key ∧ endLsn ≤ s.reportedReceived key
  deriving Decidable

end Shmem

/-- A worker reports and commits through a pointer to its entry, so there is one. -/
def step (s : Shmem) : Event → Option Shmem
  | .attach key => some (s.put (attach key (s.hash.find key)))
  | .report key lastReceived lastInserted =>
    (s.hash.find key).map fun p =>
      { s.put (progressUpdateStruct p (workerStats key lastReceived lastInserted)) with
        reportedInsert :=
          Function.update s.reportedInsert key (max (s.reportedInsert key) lastInserted)
        reportedReceived :=
          Function.update s.reportedReceived key (max (s.reportedReceived key) lastReceived) }
  | .commit key commitTime endLsn insertLsn now =>
    if s.Reported key endLsn then
      (s.hash.find key).map fun p =>
        s.put (progressUpdateStruct p (commitProgress key commitTime endLsn insertLsn now))
    else none
  | .reconcile key originLsn => some (s.put (reconcile key originLsn (s.hash.find key)).2)
  | .recover key runningMaxTs => (s.hash.find key).map fun p => s.put (storeRecovered runningMaxTs p)
  | .updateRow stale row =>
    some (s.put (progressUpdate (adjustProgressInfo stale row) (s.hash.find row.key)))
  | .forceSetRow row => some (s.put (forceSet (readPeerProgress row)))
  | .dump => some { s with file := some (resourceDump s.systemIdentifier s.hash) }
  | .restart capacity =>
    (resourceLoad s.systemIdentifier capacity s.file).map fun hash =>
      { s with hash := hash, reportedInsert := fun _ => 0, reportedReceived := fun _ => 0 }

/-! ## The assertions -/

/-- The assertions at the end of `progress_update_struct`. -/
def Coherent (p : ApplyProgress) : Prop :=
  (p.remoteInsertLsn ≠ 0 → p.remoteCommitLsn ≠ 0 → p.remoteCommitLsn ≤ p.remoteInsertLsn) ∧
  (p.receivedLsn ≠ 0 → p.remoteCommitLsn ≠ 0 → p.remoteCommitLsn ≤ p.receivedLsn) ∧
  (p.remoteCommitTs = 0 ↔ p.lastUpdatedTs = 0) ∧
  0 ≤ p.remoteCommitTs ∧ 0 ≤ p.lastUpdatedTs
  deriving Decidable

/-- The same without the exception for LSNs that are not set, which no writer needs. -/
structure Consistent (p : ApplyProgress) : Prop where
  insert : p.remoteCommitLsn ≤ p.remoteInsertLsn
  received : p.remoteCommitLsn ≤ p.receivedLsn
  together : p.remoteCommitTs = 0 ↔ p.lastUpdatedTs = 0
  commitTs_nonneg : 0 ≤ p.remoteCommitTs
  lastUpdatedTs_nonneg : 0 ≤ p.lastUpdatedTs

variable {p : ApplyProgress} {key : GroupKey}

theorem Consistent.coherent (h : Consistent p) : Coherent p :=
  ⟨fun _ _ => h.insert, fun _ _ => h.received, h.together, h.commitTs_nonneg, h.lastUpdatedTs_nonneg⟩

theorem Consistent.lastUpdatedTs_pos (h : Consistent p) (hts : 0 < p.remoteCommitTs) :
    0 < p.lastUpdatedTs := by
  have hne : p.lastUpdatedTs ≠ 0 := fun hzero => by
    have := h.together.mpr hzero
    omega
  have := h.lastUpdatedTs_nonneg
  omega

theorem consistent_init (key : GroupKey) : Consistent (initProgressFields key) :=
  ⟨le_rfl, le_rfl, Iff.rfl, le_rfl, le_rfl⟩

/-- What the merge needs of an update, in case it takes over the commit of it. -/
structure Adoptable (dest src : ApplyProgress) : Prop where
  insert : src.remoteCommitLsn ≤ max dest.remoteInsertLsn src.remoteInsertLsn
  received : src.remoteCommitLsn ≤ max dest.receivedLsn src.receivedLsn
  lastUpdatedTs : 0 < src.lastUpdatedTs

theorem Consistent.update {dest src : ApplyProgress} (h : Consistent dest)
    (hsrc : dest.remoteCommitTs < src.remoteCommitTs → Adoptable dest src) :
    Consistent (progressUpdateStruct dest src) := by
  -- the commit is taken over as a whole, or not at all
  by_cases hts : dest.remoteCommitTs < src.remoteCommitTs
  · obtain ⟨hinsert, hreceived, hlast⟩ := hsrc hts
    have hpos : 0 < src.remoteCommitTs := lt_of_le_of_lt h.commitTs_nonneg hts
    unfold progressUpdateStruct
    rw [adoptCommit_pos hts]
    exact ⟨hinsert, hreceived, iff_of_false hpos.ne' hlast.ne', hpos.le, hlast.le⟩
  · unfold progressUpdateStruct
    rw [adoptCommit_neg hts]
    exact { h with
      insert := h.insert.trans (le_max_left _ _), received := h.received.trans (le_max_left _ _) }

variable {found : Option ApplyProgress} {row : PeerRow} {s : Shmem} {h : GroupHash}

theorem Consistent.attach (h : ∀ p ∈ found, Consistent p) : Consistent (attach key found) := by
  cases found with
  | none => exact consistent_init key
  | some p => exact h p rfl

theorem consistent_trustOrigin (originLsn : Nat) (p : ApplyProgress) :
    Consistent (trustOrigin originLsn p) :=
  ⟨le_max_right _ _, le_max_right _ _, Iff.rfl, le_rfl, le_rfl⟩

theorem Consistent.reconcile (key : GroupKey) (originLsn : Nat) (h : ∀ p ∈ found, Consistent p) :
    Consistent (reconcile key originLsn found).2 := by
  cases found with
  | none => exact ⟨le_rfl, le_rfl, Iff.rfl, le_rfl, le_rfl⟩
  | some p =>
    unfold Progress.reconcile
    dsimp only
    split
    · exact h p rfl
    · split <;> exact consistent_trustOrigin originLsn p

theorem Consistent.storeRecovered (h : Consistent p) (runningMaxTs : Int) :
    Consistent (storeRecovered runningMaxTs p) := by
  unfold Progress.storeRecovered
  split
  · next hmax => exact ⟨h.insert, h.received, Iff.rfl, hmax.1.le, hmax.1.le⟩
  · exact h

/-! ## Which calls keep them -/

def PeerRow.Paired (row : PeerRow) : Prop :=
  (row.remoteCommitTs = none ∧ row.lastUpdatedTs = none) ∨
    (row.remoteCommitTs.any (fun t => 0 < t) = true ∧ row.lastUpdatedTs.any (fun t => 0 < t) = true)
  deriving Decidable

def Shmem.heldTs (s : Shmem) (key : GroupKey) : Int := (attach key (s.hash.find key)).remoteCommitTs

/-- * the local clock is past the epoch;
* a row of `spock_group_progress_update_list` has both LSNs in order, and a `last_updated_ts` unless
  its `remote_commit_ts` is not above the one of the entry;
* a row of `spock_group_progress_force_set_list` has both timestamps or neither, and its LSNs are
  not below the insert LSN that has been reported for the entry. -/
def Careful (s : Shmem) : Event → Prop
  | .commit _ _ _ _ now => 0 < now
  | .updateRow _ row =>
    row.remoteCommitLsn ≤ row.remoteInsertLsn ∧
      (row.remoteCommitTs.any (fun t => t ≤ s.heldTs row.key) = true ∨
        row.lastUpdatedTs.any (fun t => 0 < t) = true)
  | .forceSetRow row =>
    row.Paired ∧ s.reportedInsert row.key ≤ max row.remoteInsertLsn row.remoteCommitLsn
  | _ => True

instance (s : Shmem) (e : Event) : Decidable (Careful s e) := by
  cases e <;> unfold Careful <;> infer_instance

theorem consistent_forceSet (h : row.Paired) : Consistent (forceSet (readPeerProgress row)) := by
  have hlsn : row.remoteCommitLsn ≤ max row.remoteInsertLsn row.remoteCommitLsn := le_max_right _ _
  have hlsn' : row.remoteCommitLsn ≤ max row.remoteCommitLsn row.remoteCommitLsn := le_max_right _ _
  rcases h with ⟨hts, hlast⟩ | ⟨hts, hlast⟩
  · refine ⟨hlsn, hlsn', ?_, ?_, ?_⟩ <;> simp [forceSet, readPeerProgress, hts, hlast]
  · obtain ⟨t, ht, htpos⟩ := (any_eq_true _ _).1 hts
    obtain ⟨u, hu, hupos⟩ := (any_eq_true _ _).1 hlast
    have htpos : 0 < t := of_decide_eq_true htpos
    have hupos : 0 < u := of_decide_eq_true hupos
    refine ⟨hlsn, hlsn', ?_, ?_, ?_⟩ <;> simp only [forceSet, readPeerProgress, ht, hu,
      getD_some] <;> omega

/-! ## The invariant -/

structure Inv (s : Shmem) : Prop where
  entries : ∀ p ∈ s.hash.entries, Consistent p
  records : ∀ file ∈ s.file, ∀ p ∈ file.records, Consistent p
  reported : ∀ p ∈ s.hash.entries, s.reportedInsert p.key ≤ p.remoteInsertLsn
  /-- Nothing has been reported where there is no entry. -/
  unreported : ∀ key, key ∉ s.hash.entries.map (·.key) → s.reportedInsert key = 0

theorem inv_start (systemIdentifier capacity : Nat) : Inv (.start systemIdentifier capacity) :=
  ⟨nofun, nofun, nofun, fun _ _ => rfl⟩

section Put

/-- **A write that keeps the invariant.** What is written is consistent and not below what has been
reported for its key. -/
theorem Inv.put (h : Inv s) (hp : Consistent p) (hreported : s.reportedInsert p.key ≤ p.remoteInsertLsn) :
    Inv (s.put p) where
  entries := GroupHash.forall_put h.entries hp
  records := h.records
  reported := GroupHash.forall_put (P := fun q => s.reportedInsert q.key ≤ q.remoteInsertLsn)
    h.reported hreported
  unreported key hkey := h.unreported key fun hmem => hkey (GroupHash.mem_keys_put hmem)

theorem Inv.find_consistent (h : Inv s) (key : GroupKey) : ∀ q ∈ s.hash.find key, Consistent q :=
  fun q hq => h.entries q (GroupHash.find_mem hq)

theorem find_key_eq (s : Shmem) (key : GroupKey) : ∀ q ∈ s.hash.find key, q.key = key :=
  fun _ hq => GroupHash.find_key hq

theorem Inv.reported_attach (h : Inv s) (key : GroupKey) :
    s.reportedInsert key ≤ (attach key (s.hash.find key)).remoteInsertLsn := by
  cases hfind : s.hash.find key with
  | none =>
    have hnew : key ∉ s.hash.entries.map (·.key) := by
      intro hmem
      obtain ⟨q, hq, rfl⟩ := mem_map.mp hmem
      exact absurd (GroupHash.find_eq_some_iff.mpr ⟨hq, rfl⟩) (by rw [hfind]; nofun)
    exact (h.unreported key hnew).le
  | some q =>
    have hq := h.reported q (GroupHash.find_mem hfind)
    rwa [GroupHash.find_key hfind] at hq

theorem Inv.putUpdate (h : Inv s) (key : GroupKey) {src : ApplyProgress}
    (hsrc : s.heldTs key < src.remoteCommitTs → Adoptable (attach key (s.hash.find key)) src) :
    Inv (s.put (progressUpdateStruct (attach key (s.hash.find key)) src)) := by
  have hattach : Consistent (attach key (s.hash.find key)) := .attach (h.find_consistent key)
  refine h.put (hattach.update hsrc) ?_
  rw [progressUpdateStruct_key, attach_key (find_key_eq s key), progressUpdateStruct_insert]
  exact le_max_of_le_left (h.reported_attach key)

theorem Inv.reconcile (h : Inv s) (key : GroupKey) (originLsn : Nat) :
    Inv (s.put (reconcile key originLsn (s.hash.find key)).2) := by
  refine h.put (.reconcile key originLsn (h.find_consistent key)) ?_
  rw [reconcile_key originLsn (find_key_eq s key)]
  have hreported := h.reported_attach key
  cases hfind : s.hash.find key with
  | none =>
    rw [hfind] at hreported
    exact hreported.trans (Nat.zero_le _)
  | some =>
    rw [hfind] at hreported
    unfold Progress.reconcile
    dsimp only
    split
    · exact hreported
    · split <;> exact le_max_of_le_left hreported

end Put

theorem attach_of_find (h : s.hash.find key = some p) : attach key (s.hash.find key) = p := by
  rw [h]
  rfl

theorem inv_of_report {lastReceived lastInserted : Nat} (h : Inv s)
    (hfind : s.hash.find key = some p) :
    Inv { s.put (progressUpdateStruct p (workerStats key lastReceived lastInserted)) with
      reportedInsert := update s.reportedInsert key (max (s.reportedInsert key) lastInserted)
      reportedReceived :=
        update s.reportedReceived key (max (s.reportedReceived key) lastReceived) } := by
  have hp := h.find_consistent key p hfind
  have hpkey := GroupHash.find_key hfind
  have hput : Inv (s.put (progressUpdateStruct p (workerStats key lastReceived lastInserted))) := by
    rw [← attach_of_find hfind]
    refine h.putUpdate key fun hts => ?_
    -- an update without a commit timestamp is never the newer one
    rw [Shmem.heldTs, attach_of_find hfind] at hts
    exact absurd hts (not_lt.mpr hp.commitTs_nonneg)
  refine ⟨hput.entries, hput.records, fun q hq => ?_, fun key' hkey' => ?_⟩
  · rcases GroupHash.mem_put hq with rfl | ⟨hold, hne⟩
    · have hreported := h.reported p (GroupHash.find_mem hfind)
      rw [progressUpdateStruct_key, hpkey, progressUpdateStruct_insert]
      rw [hpkey] at hreported
      simp only [update_self, workerStats]
      exact max_le_max hreported le_rfl
    · rw [progressUpdateStruct_key, hpkey] at hne
      simp only [update_of_ne hne]
      exact h.reported q hold
  -- a key without an entry is not the one that was reported for
  · have hne : key' ≠ key := by
      rintro rfl
      refine hkey' (GroupHash.mem_keys_put ?_)
      exact hpkey ▸ mem_map_of_mem (GroupHash.find_mem hfind)
    simp only [update_of_ne hne]
    exact hput.unreported key' hkey'

theorem inv_of_commit {commitTime now : Int} {endLsn insertLsn : Nat} (h : Inv s)
    (hfind : s.hash.find key = some p) (hend : s.Reported key endLsn) (hnow : 0 < now) :
    Inv (s.put (progressUpdateStruct p (commitProgress key commitTime endLsn insertLsn now))) := by
  rw [← attach_of_find hfind]
  refine h.putUpdate key fun _ => ⟨?_, le_max_right _ _, hnow⟩
  exact le_max_of_le_left (hend.1.trans (h.reported_attach key))

theorem inv_of_updateRow {stale : ApplyProgress} (h : Inv s)
    (hcareful : Careful s (.updateRow stale row)) :
    Inv (s.put (progressUpdate (adjustProgressInfo stale row) (s.hash.find row.key))) := by
  obtain ⟨hlsn, hts⟩ := hcareful
  refine h.putUpdate row.key fun hnewer => ⟨le_max_of_le_right hlsn, le_max_right _ _, ?_⟩
  rcases hts with hts | hlast
  · -- a timestamp of the row that is not above the one held is not taken over
    obtain ⟨t, ht, hle⟩ := (any_eq_true _ _).1 hts
    have hle : t ≤ s.heldTs row.key := of_decide_eq_true hle
    simp only [adjustProgressInfo, ht, getD_some] at hnewer
    omega
  · obtain ⟨u, hu, hpos⟩ := (any_eq_true _ _).1 hlast
    simp only [adjustProgressInfo, hu, getD_some]
    exact of_decide_eq_true hpos

theorem consistent_foldl {l : List ApplyProgress} (hl : ∀ p ∈ l, Consistent p)
    (hh : ∀ p ∈ h.entries, Consistent p) :
    ∀ p ∈ (l.foldl GroupHash.progressUpdate h).entries, Consistent p := by
  induction l generalizing h with
  | nil => exact hh
  | cons p _ ih =>
    refine ih (fun q hq => hl q (mem_cons_of_mem p hq)) (GroupHash.forall_put hh ?_)
    have hp := hl p mem_cons_self
    have hheld : Consistent (Progress.attach p.key (h.find p.key)) :=
      .attach fun q hq => hh q (GroupHash.find_mem hq)
    refine hheld.update fun hts => ?_
    refine ⟨le_max_of_le_right hp.insert, le_max_of_le_right hp.received, hp.lastUpdatedTs_pos ?_⟩
    exact lt_of_le_of_lt hheld.commitTs_nonneg hts

theorem consistent_of_load {systemIdentifier capacity : Nat} {file : Option ResFile}
    (hfile : ∀ f ∈ file, ∀ p ∈ f.records, Consistent p)
    (hload : resourceLoad systemIdentifier capacity file = some h) :
    ∀ p ∈ h.entries, Consistent p := by
  cases file with
  | none =>
    cases hload
    nofun
  | some f =>
    unfold resourceLoad at hload
    dsimp only at hload
    split at hload
    · cases hload; nofun
    · split at hload
      · cases hload; nofun
      · split at hload
        · cases hload
        · cases hload
          exact consistent_foldl (fun p hp => hfile f rfl p (mem_of_mem_take hp)) nofun

/-- **One call.** -/
theorem inv_step {s' : Shmem} {e : Event} (h : Inv s) (hcareful : Careful s e)
    (hstep : step s e = some s') : Inv s' := by
  cases e with
  | attach key =>
    cases hstep
    refine h.put (.attach (h.find_consistent key)) ?_
    rw [attach_key (find_key_eq s key)]
    exact h.reported_attach key
  | report =>
    obtain ⟨p, hfind, rfl⟩ := map_eq_some_iff.mp hstep
    exact inv_of_report h hfind
  | commit =>
    obtain ⟨hend, hstep⟩ := ite_none_right_eq_some.mp hstep
    obtain ⟨p, hfind, rfl⟩ := map_eq_some_iff.mp hstep
    exact inv_of_commit h hfind hend hcareful
  | reconcile key originLsn =>
    cases hstep
    exact h.reconcile key originLsn
  | recover _ runningMaxTs =>
    obtain ⟨p, hfind, rfl⟩ := map_eq_some_iff.mp hstep
    have hmem := GroupHash.find_mem hfind
    refine h.put ((h.entries p hmem).storeRecovered runningMaxTs) ?_
    rw [storeRecovered_key, storeRecovered_insert]
    exact h.reported p hmem
  | updateRow =>
    cases hstep
    exact inv_of_updateRow h hcareful
  | forceSetRow =>
    cases hstep
    exact h.put (consistent_forceSet hcareful.1) hcareful.2
  | dump =>
    cases hstep
    refine { h with records := ?_ }
    rintro file ⟨rfl⟩
    exact h.entries
  | restart =>
    obtain ⟨_, hload, rfl⟩ := map_eq_some_iff.mp hstep
    exact ⟨consistent_of_load h.records hload, h.records, fun _ _ => Nat.zero_le _, fun _ _ => rfl⟩

/-- **Every entry is as asserted.** From the first start of the server, whatever is called in
whatever order, if every call is `Careful`. -/
theorem entries_coherent {systemIdentifier capacity : Nat} {es : List Event} {s : Shmem}
    (hcareful : Along step Careful (.start systemIdentifier capacity) es)
    (hrun : run step (.start systemIdentifier capacity) es = some s) :
    ∀ p ∈ s.hash.entries, Coherent p := by
  have hinv : Inv s := run_invariant_along (fun _ _ _ => inv_step) (inv_start _ _) hcareful hrun
  exact fun p hp => (hinv.entries p hp).coherent

/-- A worker at work, rows of a peer with all columns set and with none, a restart. -/
def carefulCalls : List Event :=
  [.attach someKey, .report someKey 90 95, .commit someKey 20 90 95 21,
    .updateRow (initProgressFields someKey) ⟨someKey, some 25, 92, 95, some 26, true⟩,
    .reconcile someKey 80, .recover someKey 15, .forceSetRow ⟨someKey, none, 96, 97, none, false⟩,
    .dump, .restart 1]

theorem entries_coherent_carefulCalls :
    ∃ s, run step (.start 7 1) carefulCalls = some s ∧
      s.hash.entries = [{ initProgressFields someKey with remoteInsertLsn := 97, receivedLsn := 96 }] ∧
      ∀ p ∈ s.hash.entries, Coherent p := by
  have hcareful : Along step Careful (.start 7 1) carefulCalls := by decide
  exact ⟨_, rfl, rfl, entries_coherent hcareful rfl⟩

/-- A row of the peer at which nothing was committed yet, in memory that held two other numbers. -/
def nullRow : List Event :=
  [.updateRow { initProgressFields someKey with remoteCommitTs := 5, lastUpdatedTs := -3 }
    ⟨someKey, none, 40, 40, none, false⟩]

def halfRow : List Event := [.forceSetRow ⟨someKey, some 5, 40, 40, none, false⟩]

/-- A forced row between the report of a COMMIT message and its commit. -/
def forcedBack : List Event :=
  [.attach someKey, .report someKey 100 100, .forceSetRow ⟨someKey, none, 50, 60, none, false⟩,
    .commit someKey 5 100 60 9]

def breaks (es : List Event) : Bool :=
  (run step (.start 7 1) es).any fun s => s.hash.entries.any fun p => ¬ Coherent p

/-- **Entries that are not as asserted.** -/
theorem entries_not_coherent :
    breaks nullRow = true ∧ breaks halfRow = true ∧ breaks forcedBack = true := by
  decide

end Spock.Progress
