import Mathlib
import Spock.Repset.Info

/-!
# Spock — the partitions of a replicated table

`spock.repset_add_partition` adds the partitions of a table to each replication set the table is in.
The variable with the row filter is set in the first set in which the table has one, and keeps that
filter in the sets that follow, although it is freed at the end of the set it comes from.

* **`addPartition_iff`** — when each partition gets the filter of its own set.
-/

namespace Spock.Partitions

open List Repset

/-- The rows of `spock.replication_set_table` for one set, by table. -/
abbrev Rows := UInt32 → Option RepSetTable

/-- The arguments, and what is known of the parent; `inheritors` are the parent and its
partitions. -/
structure Call where
  parent : UInt32
  partition : Option UInt32
  rowFilter : Option RowFilter
  isPartitioned : Bool
  inheritors : List UInt32

def Call.reloids (c : Call) : List UInt32 := c.partition.elim c.inheritors fun p => [p]

/-- `get_table_replication_row`, of the parent: its columns and its row filter. -/
def Call.parentRow (c : Call) (rows : Rows) : RepSetTable := (rows c.parent).getD ⟨0, none, none⟩

/-- The variable `row_filter`, which may point to memory that was freed. -/
inductive FilterPtr where
  | null
  | node (filter : RowFilter)
  | freed

namespace FilterPtr

/-- What `replication_set_add_table` stores, with what it finds in freed memory. -/
def stored (freed : RowFilter) : FilterPtr → Option RowFilter
  | .null => none
  | .node filter => some filter
  | .freed => some freed

def orElse (ptr : FilterPtr) (filter : Option RowFilter) : FilterPtr :=
  match ptr with
  | .null => filter.elim .null .node
  | ptr => ptr

def afterSet (ptr : FilterPtr) (filter : Option RowFilter) : FilterPtr :=
  match ptr with
  | .null => filter.elim .null fun _ => .freed
  | ptr => ptr

end FilterPtr

/-- The inner loop: the parent and the partitions that are there are skipped. -/
def addTable (parent : UInt32) (row : RepSetTable) (s : Rows × Nat) (partoid : UInt32) :
    Rows × Nat :=
  if partoid = parent ∨ (s.1 partoid).isSome then s
  else (Function.update s.1 partoid (some row), s.2 + 1)

/-- The loop over the replication sets of the parent: the rows of each, and how many were added. -/
def addSets (freed : Nat → RowFilter) (c : Call) : FilterPtr → List Rows → List (Rows × Nat)
  | _, [] => []
  | ptr, rows :: sets =>
    let parent := c.parentRow rows
    let row :=
      { parent with rowFilter := (ptr.orElse parent.rowFilter).stored (freed sets.length) }
    c.reloids.foldl (addTable c.parent row) (rows, 0) ::
      addSets freed c (ptr.afterSet parent.rowFilter) sets

/-- `spock_replication_set_add_partition`, for partitions that `replication_set_add_table` does not
refuse. -/
def addPartition (freed : Nat → RowFilter) (c : Call) (sets : List Rows) : List Rows × Nat :=
  if c.isPartitioned then
    let sets' := addSets freed c (c.rowFilter.elim .null .node) sets
    (sets'.map Prod.fst, (sets'.map Prod.snd).sum)
  else (sets, 0)

/-- Each selected partition is there, as it was or with the columns of the parent and the filter it
is to have. -/
def Added (c : Call) (sets sets' : List Rows) : Prop :=
  Forall₂ (fun rows rows' => ∀ p ∈ c.reloids, p ≠ c.parent → rows' p = some ((rows p).getD
    { c.parentRow rows with rowFilter := c.rowFilter <|> (c.parentRow rows).rowFilter })) sets sets'

def Complete (c : Call) (rows : Rows) : Prop := ∀ p ∈ c.reloids, p ≠ c.parent → (rows p).isSome

variable {c : Call} {rows : Rows} {sets : List Rows}

theorem foldl_addTable (parent : UInt32) (row : RepSetTable) (reloids : List UInt32) (rows : Rows)
    (nrows : Nat) (p : UInt32) :
    (reloids.foldl (addTable parent row) (rows, nrows)).1 p =
      if p ∈ reloids ∧ p ≠ parent then some ((rows p).getD row) else rows p := by
  induction reloids generalizing rows nrows with
  | nil => simp
  | cons q reloids ih =>
    rw [foldl_cons, addTable]
    by_cases hq : q = parent ∨ (rows q).isSome
    · rw [if_pos hq, ih]
      by_cases hpq : p = q
      · subst hpq
        rcases hq with rfl | hsome
        · simp
        · obtain ⟨r, hr⟩ := Option.isSome_iff_exists.mp hsome
          simp [hr]
      · simp [hpq]
    · rw [if_neg hq, ih]
      obtain ⟨hne, hnone⟩ := not_or.mp hq
      by_cases hpq : p = q
      · subst hpq
        simp [hne, Option.not_isSome_iff_eq_none.mp hnone]
      · simp [hpq]

theorem added_cons (freed : Nat → RowFilter) (ptr : FilterPtr) :
    Added c (rows :: sets) ((addSets freed c ptr (rows :: sets)).map Prod.fst) ↔
      (Complete c rows ∨ (ptr.orElse (c.parentRow rows).rowFilter).stored (freed sets.length) =
        (c.rowFilter <|> (c.parentRow rows).rowFilter)) ∧
      Added c sets
        ((addSets freed c (ptr.afterSet (c.parentRow rows).rowFilter) sets).map Prod.fst) := by
  unfold Added
  rw [addSets, map_cons, forall₂_cons]
  refine and_congr_left fun _ => ⟨fun h => or_iff_not_imp_left.mpr fun hc => ?_, fun h p hp hne => ?_⟩
  · obtain ⟨p, hp, hne, hnone⟩ : ∃ p ∈ c.reloids, p ≠ c.parent ∧ rows p = none := by
      simpa [Complete] using hc
    have hrow := h p hp hne
    rw [foldl_addTable, if_pos ⟨hp, hne⟩, hnone] at hrow
    exact (RepSetTable.mk.inj (Option.some.inj hrow)).2.2
  · rw [foldl_addTable, if_pos ⟨hp, hne⟩]
    rcases h with hc | heq
    · obtain ⟨r, hr⟩ := Option.isSome_iff_exists.mp (hc p hp hne)
      rw [hr, Option.getD_some, Option.getD_some]
    · rw [heq]

theorem added_freed_iff :
    (∀ freed, Added c sets ((addSets freed c .freed sets).map Prod.fst)) ↔
      ∀ rows ∈ sets, Complete c rows := by
  induction sets with
  | nil => simp [Added, addSets]
  | cons rows sets ih =>
    rw [forall_mem_cons, ← ih]
    simp only [added_cons, forall_and]
    refine and_congr_left fun _ => ⟨fun h => by_contra fun hc => ?_, fun hc _ => .inl hc⟩
    have hnone := (h fun _ _ => none).resolve_left hc
    have hother := (h fun _ _ => some true).resolve_left hc
    cases congrFun (Option.some.inj (hnone.trans hother.symm)) fun _ => none

theorem added_null_iff (hnone : c.rowFilter = none) :
    (∀ freed, Added c sets ((addSets freed c .null sets).map Prod.fst)) ↔
      sets.Pairwise fun rows rows' => (c.parentRow rows).rowFilter.isSome → Complete c rows' := by
  induction sets with
  | nil => simp [Added, addSets]
  | cons rows sets ih =>
    rw [pairwise_cons]
    simp only [added_cons, forall_and]
    cases hfilter : (c.parentRow rows).rowFilter with
    | none =>
      rw [FilterPtr.afterSet, Option.elim_none, ih]
      simp [FilterPtr.orElse, FilterPtr.stored, hnone]
    | some filter =>
      rw [FilterPtr.afterSet, Option.elim_some, added_freed_iff]
      have hpair (h : ∀ rows ∈ sets, Complete c rows) : sets.Pairwise fun rows rows' =>
          (c.parentRow rows).rowFilter.isSome → Complete c rows' :=
        pairwise_of_forall_mem_list fun _ _ rows' hrows' _ => h rows' hrows'
      simpa [FilterPtr.orElse, FilterPtr.stored, hnone] using hpair

theorem added_node {filter : RowFilter} (hsome : c.rowFilter = some filter) (freed : Nat → RowFilter) :
    Added c sets ((addSets freed c (.node filter) sets).map Prod.fst) := by
  induction sets with
  | nil => simp [Added, addSets]
  | cons rows sets ih => exact (added_cons freed _).mpr ⟨.inr (by rw [hsome]; rfl), ih⟩

/-- **The partitions of a table.** Whatever is found in freed memory, each partition is added with
the filter that is given or else with that of the parent in the same set, exactly when a filter is
given or nothing is added to the sets after one in which the parent has a row filter. -/
theorem addPartition_iff (c : Call) (sets : List Rows) (hpart : c.isPartitioned = true) :
    (∀ freed, Added c sets (addPartition freed c sets).1) ↔ c.rowFilter.isSome ∨
      sets.Pairwise fun rows rows' => (c.parentRow rows).rowFilter.isSome → Complete c rows' := by
  simp only [addPartition, hpart, if_true]
  cases hfilter : c.rowFilter with
  | none => simpa using added_null_iff hfilter
  | some filter => simpa using added_node hfilter

def sampleCall : Call := ⟨1, none, none, true, [1, 2]⟩

def parentOnly (setid : UInt32) (rowFilter : Option RowFilter) : Rows :=
  fun reloid => if reloid = 1 then some ⟨setid, none, rowFilter⟩ else none

def idGiven : RowFilter := fun row => some (row 1).isSome

theorem addPartition_iff_lastFilter :
    Added sampleCall [parentOnly 1 none, parentOnly 2 (some idGiven)]
      (addPartition (fun _ _ => none) sampleCall
        [parentOnly 1 none, parentOnly 2 (some idGiven)]).1 :=
  (addPartition_iff _ _ rfl).mpr (.inr (by simp [Call.parentRow, sampleCall, parentOnly])) _

/-- The second set has no row filter for the parent, and gets one for the partition: what is found
where the filter of the first set was. -/
theorem addPartition_keeps_filter :
    ((addPartition (fun _ => idGiven) sampleCall
      [parentOnly 1 (some idGiven), parentOnly 2 none]).1.map fun rows => rows 2) =
        [some ⟨1, none, some idGiven⟩, some ⟨2, none, some idGiven⟩] :=
  rfl

end Spock.Partitions
