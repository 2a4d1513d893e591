import Spock.Progress.Entry

/-!
# Spock — the progress entries in `resource.dat`

A clean shutdown writes the table to a file, and the next start reads it back. The record of an
entry does not become the entry again, though: it goes through `spock_group_progress_update`, the
merge of running updates, against an entry of zeros.

* **`load_dump_eq_iff`** — which is the entry itself for those with a commit timestamp, and for
  those that have nothing of a commit at all.
-/

namespace Spock.Progress

open List Option

/-- `SpockResFileHeader`. -/
structure ResFileHeader where
  version : Nat
  systemIdentifier : Nat
  flags : Nat
  entryCount : Nat
  deriving DecidableEq

/-- The content of `resource.dat`. -/
structure ResFile where
  header : ResFileHeader
  records : List ApplyProgress
  deriving DecidableEq

def spockResVersion : Nat := 202508251

/-- `spock_group_resource_dump`. -/
def resourceDump (systemIdentifier : Nat) (h : GroupHash) : ResFile where
  header :=
    { version := spockResVersion
      systemIdentifier := systemIdentifier
      flags := 0
      entryCount := h.entries.length }
  records := h.entries

/-- `spock_group_progress_update`, on the table. -/
def GroupHash.progressUpdate (h : GroupHash) (sap : ApplyProgress) : GroupHash :=
  h.put (Progress.progressUpdate sap (h.find sap.key))

/-- `spock_group_resource_load`, into an empty table: `none` if `read_buf` gets to the end of the
file before it has the records that the header promises. -/
def resourceLoad (systemIdentifier capacity : Nat) : Option ResFile → Option GroupHash
  | none => some (.empty capacity)
  | some file =>
    if file.header.version ≠ spockResVersion then some (.empty capacity)
    else if file.header.systemIdentifier ≠ systemIdentifier then some (.empty capacity)
    else if file.records.length < file.header.entryCount then none
    else some ((file.records.take file.header.entryCount).foldl
      GroupHash.progressUpdate (.empty capacity))

/-! ## One record -/

/-- What a record becomes that way. -/
def restored (p : ApplyProgress) : ApplyProgress := progressUpdateStruct (initProgressFields p.key) p

@[simp] theorem restored_key (p : ApplyProgress) : (restored p).key = p.key :=
  progressUpdateStruct_key _ p

variable {p : ApplyProgress} {h : GroupHash}

theorem restored_of_pos (h : 0 < p.remoteCommitTs) : restored p = p := by
  unfold restored progressUpdateStruct
  rw [adoptCommit_pos h]
  simp [initProgressFields]

theorem restored_of_not_pos (h : ¬ 0 < p.remoteCommitTs) :
    restored p = { initProgressFields p.key with
      remoteInsertLsn := p.remoteInsertLsn, receivedLsn := p.receivedLsn } := by
  unfold restored progressUpdateStruct
  rw [adoptCommit_neg h]
  simp [initProgressFields]

/-- Entries that keep all their fields: with a commit timestamp, or without anything of a commit. -/
def Restorable (p : ApplyProgress) : Prop :=
  0 < p.remoteCommitTs ∨
    (p.remoteCommitTs = 0 ∧ p.prevRemoteTs = 0 ∧ p.remoteCommitLsn = 0 ∧ p.lastUpdatedTs = 0 ∧
      p.updatedByDecode = false)
  deriving Decidable

theorem restored_eq_iff (p : ApplyProgress) : restored p = p ↔ Restorable p := by
  by_cases h : 0 < p.remoteCommitTs
  · exact iff_of_true (restored_of_pos h) (.inl h)
  · rw [restored_of_not_pos h, ApplyProgress.ext_iff]
    simp only [initProgressFields, Restorable, h, false_or, true_and]
    constructor
    all_goals
      rintro ⟨hts, hprev, hlsn, hlast, hdecode⟩
      exact ⟨hts.symm, hprev.symm, hlsn.symm, hlast.symm, hdecode.symm⟩

/-! ## The table -/

theorem GroupHash.progressUpdate_new (hnew : p.key ∉ h.entries.map (·.key))
    (hroom : h.entries.length < h.capacity) :
    (h.progressUpdate p).entries = h.entries ++ [restored p] ∧
      (h.progressUpdate p).capacity = h.capacity := by
  have hnone : h.find p.key = none := by
    refine find?_eq_none.mpr fun q hq heq => hnew ?_
    exact (of_decide_eq_true heq) ▸ mem_map_of_mem hq
  have hput : h.progressUpdate p = h.put (restored p) := by
    rw [GroupHash.progressUpdate, hnone]
    rfl
  rw [hput, GroupHash.put, dif_neg (by rwa [restored_key]), dif_pos hroom]
  exact ⟨rfl, rfl⟩

/-- The loop of the load. The induction is on the records that are left; those before are in the
table, and the keys of the two are different ones. -/
theorem foldl_progressUpdate {l : List ApplyProgress}
    (hnodup : (h.entries.map (·.key) ++ l.map (·.key)).Nodup)
    (hroom : h.entries.length + l.length ≤ h.capacity) :
    (l.foldl GroupHash.progressUpdate h).entries = h.entries ++ l.map restored := by
  induction l generalizing h with
  | nil => simp
  | cons p l ih =>
    rw [map_cons, length_cons] at *
    have hnew : p.key ∉ h.entries.map (·.key) := fun hmem =>
      (nodup_append.mp hnodup).2.2 _ hmem _ mem_cons_self rfl
    obtain ⟨hentries, hcapacity⟩ := GroupHash.progressUpdate_new hnew (by omega)
    have hkeys : (h.progressUpdate p).entries.map (·.key) ++ l.map (·.key)
        = h.entries.map (·.key) ++ p.key :: l.map (·.key) := by
      simp [hentries]
    rw [foldl_cons, ih (hkeys ▸ hnodup) (by rw [hentries, hcapacity]; simp; omega), hentries]
    simp

/-- **Dump and load.** Each entry comes back as `restored` of it. -/
theorem load_dump (systemIdentifier : Nat) (h : GroupHash) :
    ∃ h', resourceLoad systemIdentifier h.capacity (some (resourceDump systemIdentifier h)) = some h' ∧
      h'.entries = h.entries.map restored := by
  have hload : resourceLoad systemIdentifier h.capacity (some (resourceDump systemIdentifier h))
      = some (h.entries.foldl GroupHash.progressUpdate (.empty h.capacity)) := by
    simp [resourceLoad, resourceDump]
  refine ⟨_, hload, ?_⟩
  have hfold := foldl_progressUpdate (l := h.entries) (h := .empty h.capacity)
    (by simpa [GroupHash.empty] using h.nodup) (by simpa [GroupHash.empty] using h.fits)
  simpa [GroupHash.empty] using hfold

theorem GroupHash.find_of_map_restored {h' : GroupHash} (heq : h'.entries = h.entries.map restored)
    (key : GroupKey) : h'.find key = (h.find key).map restored := by
  unfold GroupHash.find
  rw [heq, find?_map]
  congr 2
  funext p
  simp

/-- **What a restart keeps.** The table that is loaded from the dump has the entries of the table
that was dumped, field by field, exactly if each entry is `Restorable`. -/
theorem load_dump_eq_iff (systemIdentifier : Nat) (h : GroupHash) :
    (∃ h', resourceLoad systemIdentifier h.capacity (some (resourceDump systemIdentifier h)) = some h' ∧
        ∀ key, h'.find key = h.find key) ↔
      ∀ p ∈ h.entries, Restorable p := by
  obtain ⟨h', hload, hentries⟩ := load_dump systemIdentifier h
  have hfind := GroupHash.find_of_map_restored hentries
  constructor
  · rintro ⟨h₁, hload₁, hsame⟩ p hp
    cases some.inj (hload₁.symm.trans hload)
    have hp' : h.find p.key = some p := GroupHash.find_eq_some_iff.mpr ⟨hp, rfl⟩
    have hback : some (restored p) = some p := by
      rw [← hp', ← hsame p.key, hfind, hp', map_some]
    exact (restored_eq_iff p).mp (some.inj hback)
  · intro hall
    refine ⟨h', hload, fun key => ?_⟩
    rw [hfind]
    cases hkey : h.find key with
    | none => rfl
    | some p => rw [map_some, (restored_eq_iff p).mpr (hall p (GroupHash.find_mem hkey))]

/-- **A second restart loses nothing more.** Whatever the first load made of the entries is dumped
and loaded as it is. -/
theorem load_dump_twice (systemIdentifier : Nat) (h : GroupHash) :
    ∃ h' h'', resourceLoad systemIdentifier h.capacity (some (resourceDump systemIdentifier h)) =
        some h' ∧
      resourceLoad systemIdentifier h'.capacity (some (resourceDump systemIdentifier h')) = some h'' ∧
      ∀ key, h''.find key = h'.find key := by
  obtain ⟨h', hload, hentries⟩ := load_dump systemIdentifier h
  obtain ⟨h'', hload', hentries'⟩ := load_dump systemIdentifier h'
  refine ⟨h', h'', hload, hload', fun key => ?_⟩
  rw [GroupHash.find_of_map_restored hentries', GroupHash.find_of_map_restored hentries,
    Option.map_map]
  congr 1
  funext p
  refine (restored_eq_iff _).mpr ?_
  by_cases hp : 0 < p.remoteCommitTs
  · rw [restored_of_pos hp]
    exact .inl hp
  · rw [restored_of_not_pos hp]
    exact .inr ⟨rfl, rfl, rfl, rfl, rfl⟩

/-- A worker starts at LSN 100 of its replication origin, without an entry; the server is stopped
before the first commit, and comes back with an entry at LSN 0. -/
theorem load_dump_loses_commit_lsn :
    (resourceLoad 7 1 (some (resourceDump 7
        ((GroupHash.empty 1).put (reconcile someKey 100 none).2)))).map (fun h => h.find someKey)
      = some (some { initProgressFields someKey with remoteInsertLsn := 100, receivedLsn := 100 }) ∧
    ((GroupHash.empty 1).put (reconcile someKey 100 none).2).find someKey
      = some { initProgressFields someKey with
          remoteCommitLsn := 100, remoteInsertLsn := 100, receivedLsn := 100 } := by
  decide

end Spock.Progress
