import Mathlib.Data.List.Find
import Spock.Conflict.Heap

/-!
# Spock — the lookup of an inserted row in the unique indexes

An INSERT becomes an UPDATE if a local row is in its way. `spock_apply_heap_insert` looks for one
through the index of the replica identity and, with `spock.check_all_uc_indexes`, through the other
unique indexes one after the other. A scan key is built from the plain columns of an index, on the
row as it was received; a row is in the way if all columns and expressions of the key are equal on
the row as it will be stored.

* **`Searchable`**, **`lookup_correct_iff`** — exactly when a row that is found is in the way, and
  one is found if there is: where the first row met agrees in the expressions too, and none is missed
  under the primary key or for a generated column.
-/

namespace Spock.UniqueIndex

open List Option

variable {natts : Nat} {V : Type}

/-! ## Indexes -/

inductive KeySource (natts : Nat) (V : Type) where
  | attr (c : Fin natts)
  | expr (eval : Row natts V → Option V)

/-- A key column with the equality of its operator class and collation. The INCLUDE columns of an
index are no key columns. -/
structure KeyColumn (natts : Nat) (V : Type) where
  source : KeySource natts V
  eq : V → V → Bool

def KeyColumn.value (k : KeyColumn natts V) (row : Row natts V) : Option V :=
  match k.source with
  | .attr c => row c
  | .expr eval => eval row

/-- `pg_index`. A predicate that is NULL counts as false. -/
structure Index (natts : Nat) (V : Type) where
  keys : List (KeyColumn natts V)
  indpred : Option (Row natts V → Bool)
  indisunique : Bool
  indimmediate : Bool
  indisvalid : Bool
  indisprimary : Bool
  indisreplident : Bool
  indnullsnotdistinct : Bool

namespace Index

/-- `SpockPredicateMatches`. -/
def predicateMatches (x : Index natts V) (row : Row natts V) : Bool :=
  (x.indpred.map (· row)).getD true

def equal (x : Index natts V) (k : KeyColumn natts V) : Option V → Option V → Bool
  | some v, some w => k.eq w v
  | none, none => x.indnullsnotdistinct
  | some _, none | none, some _ => false

/-- A local row is in the way of a new one under an index. -/
def conflicts (x : Index natts V) (row localrow : Row natts V) : Bool :=
  x.predicateMatches row && x.predicateMatches localrow &&
    x.keys.all fun k => x.equal k (k.value row) (k.value localrow)

def enforced (x : Index natts V) : Bool := x.indisvalid && x.indisunique && x.indimmediate

/-- `IsIndexUsableForInsertConflict`. -/
def isUsableForInsertConflict (x : Index natts V) : Bool :=
  if x.indisprimary || x.indisreplident then false
  else if !x.indisvalid || !x.indisunique || !x.indimmediate then false
  else true

def hasNullKey (x : Index natts V) (searchslot : Row natts V) : Bool :=
  x.keys.any fun k =>
    match k.source with
    | .attr c => (searchslot c).isNone
    | .expr _ => false

/-- The scan key of `spock_build_replindex_scan_key`: a NULL is searched as such, and an expression
has no scan key. -/
def scanKeyMatches (x : Index natts V) (searchslot localrow : Row natts V) : Bool :=
  x.keys.all fun k =>
    match k.source with
    | .attr c =>
      match searchslot c, localrow c with
      | some v, some w => k.eq w v
      | none, none => true
      | some _, none | none, some _ => false
    | .expr _ => true

end Index

/-! ## Tables -/

/-- `pg_class.relreplident`. -/
inductive ReplicaIdentity where
  | default
  | index
  | full
  | nothing
  deriving DecidableEq

/-- A table with its visible rows. `entries` are the rows an index leads to, in its order. The last
fields are what PostgreSQL guarantees. -/
structure Table (natts : Nat) (V : Type) where
  attisdropped : Fin natts → Bool
  attgenerated : Fin natts → Option (Row natts V → Option V)
  relreplident : ReplicaIdentity
  indexes : List (Index natts V)
  rows : List (Row natts V)
  entries : Index natts V → List (Row natts V)
  entries_iff : ∀ x ∈ indexes, ∀ row, row ∈ entries x ↔ row ∈ rows ∧ x.predicateMatches row = true
  -- a primary key or replica identity is not partial, and its columns are plain and NOT NULL
  total : ∀ x ∈ indexes, x.indisprimary = true ∨ x.indisreplident = true → x.indpred = none
  notNull : ∀ x ∈ indexes, x.indisprimary = true ∨ x.indisreplident = true → ∀ k ∈ x.keys,
    ∃ c, k.source = .attr c ∧ ∀ row ∈ rows, (row c).isSome = true
  -- one index is marked as the replica identity, and only if one was chosen
  marked : ∀ x ∈ indexes, x.indisreplident = true → relreplident = .index ∧
    ∀ y ∈ indexes, y.indisreplident = true → y = x

namespace Table

def stored (t : Table natts V) (row : Row natts V) : Row natts V := fun c =>
  match t.attgenerated c with
  | some eval => eval row
  | none => row c

/-- `index_keys_match`: the NULLs of the columns in the scan key. -/
def indexKeysMatch (t : Table natts V) (x : Index natts V) (localrow searchslot : Row natts V) :
    Bool :=
  x.keys.all fun k =>
    match k.source with
    | .attr c => t.attisdropped c || (t.attgenerated c).isSome ||
      match localrow c, searchslot c with
      | some _, some _ => true
      | none, none => x.indnullsnotdistinct
      | some _, none | none, some _ => false
    | .expr _ => true

def indexScan (t : Table natts V) (x : Index natts V) (searchslot : Row natts V) :
    List (Row natts V) := (t.entries x).filter (x.scanKeyMatches searchslot)

/-- `SpockRelationFindReplTupleByIndex`. -/
def findReplTupleByIndex (t : Table natts V) (x : Index natts V) (searchslot : Row natts V) :
    Option (Row natts V) :=
  if !x.predicateMatches searchslot then none
  else if !x.indnullsnotdistinct && x.hasNullKey searchslot then none
  else (t.indexScan x searchslot).find? fun outslot =>
    t.indexKeysMatch x outslot searchslot && x.predicateMatches outslot

/-- `RelationGetReplicaIndex`: the primary key, or the index that was chosen. -/
def replicaIndex (t : Table natts V) : Option (Index natts V) :=
  match t.relreplident with
  | .default => t.indexes.find? fun x => x.enforced && x.indisprimary
  | .index => t.indexes.find? fun x => x.enforced && x.indisreplident
  | .full | .nothing => none

/-- `FindReplTupleInLocalRel`, for an INSERT: PostgreSQL's own `RelationFindReplTupleByIndex` with
the replica identity, and no sequential scan without one. -/
def findReplTupleInLocalRel (t : Table natts V) (remoteslot : Row natts V) :
    Option (Index natts V × Row natts V) :=
  t.replicaIndex.bind fun x => ((t.indexScan x remoteslot).head?).map (x, ·)

/-- `FindReplTupleByUCIndex`. -/
def findReplTupleByUCIndex (t : Table natts V) (remoteslot : Row natts V) :
    Option (Index natts V × Row natts V) :=
  t.indexes.findSome? fun x =>
    if x.isUsableForInsertConflict then (t.findReplTupleByIndex x remoteslot).map (x, ·) else none

/-- The lookup of `spock_apply_heap_insert` with `spock.check_all_uc_indexes`: the row that was
found, and the index. -/
def lookup (t : Table natts V) (remoteslot : Row natts V) :
    Option (Index natts V × Row natts V) :=
  match t.findReplTupleInLocalRel remoteslot with
  | some found => some found
  | none => t.findReplTupleByUCIndex remoteslot

end Table

/-! ## One index -/

variable {t : Table natts V} {x : Index natts V} {row row' localrow : Row natts V}

theorem conflicts_iff : x.conflicts row localrow = true ↔ x.predicateMatches row = true ∧
    x.predicateMatches localrow = true ∧
    ∀ k ∈ x.keys, x.equal k (k.value row) (k.value localrow) = true := by
  rw [Index.conflicts, Bool.and_eq_true, Bool.and_eq_true, List.all_eq_true, and_assoc]

structure SameKey (x : Index natts V) (row row' : Row natts V) : Prop where
  predicate : x.predicateMatches row = x.predicateMatches row'
  value : ∀ k ∈ x.keys, k.value row = k.value row'

theorem SameKey.conflicts_eq (h : SameKey x row row') :
    x.conflicts row localrow = x.conflicts row' localrow := by
  rw [Bool.eq_iff_iff, conflicts_iff, conflicts_iff, h.predicate]
  refine and_congr_right fun _ => and_congr_right fun _ => forall₂_congr fun k hk => ?_
  rw [h.value k hk]

def Index.Plain (x : Index natts V) : Prop := ∀ k ∈ x.keys, ∃ c, k.source = .attr c

/-- The local row agrees with the new one, as it was received, in the plain columns of the key. -/
def Index.meets (x : Index natts V) (remoteslot localrow : Row natts V) : Bool :=
  x.predicateMatches remoteslot && x.predicateMatches localrow && x.keys.all fun k =>
    match k.source with
    | .attr c => x.equal k (remoteslot c) (localrow c)
    | .expr _ => true

theorem meets_iff : x.meets row localrow = true ↔ x.predicateMatches row = true ∧
    x.predicateMatches localrow = true ∧ ∀ k ∈ x.keys, ∀ c, k.source = .attr c →
      x.equal k (row c) (localrow c) = true := by
  rw [Index.meets, Bool.and_eq_true, Bool.and_eq_true, List.all_eq_true, and_assoc]
  refine and_congr_right fun _ => and_congr_right fun _ => forall₂_congr fun k _ => ?_
  cases hk : k.source <;> simp

theorem value_of_attr {k : KeyColumn natts V} {c : Fin natts} (h : k.source = .attr c)
    (row : Row natts V) : k.value row = row c := by
  rw [KeyColumn.value, h]

theorem meets_of_conflicts (h : x.conflicts row localrow = true) :
    x.meets row localrow = true := by
  obtain ⟨hrow, hlocal, hkeys⟩ := conflicts_iff.mp h
  refine meets_iff.mpr ⟨hrow, hlocal, fun k hk c hc => ?_⟩
  have hequal := hkeys k hk
  rwa [value_of_attr hc, value_of_attr hc] at hequal

theorem conflicts_of_meets (hplain : x.Plain) (h : x.meets row localrow = true) :
    x.conflicts row localrow = true := by
  obtain ⟨hrow, hlocal, hkeys⟩ := meets_iff.mp h
  refine conflicts_iff.mpr ⟨hrow, hlocal, fun k hk => ?_⟩
  obtain ⟨c, hc⟩ := hplain k hk
  rw [value_of_attr hc, value_of_attr hc]
  exact hkeys k hk c hc

theorem scanKeyMatches_iff : x.scanKeyMatches row localrow = true ↔
    ∀ k ∈ x.keys, ∀ c, k.source = .attr c →
      x.equal k (row c) (localrow c) = true ∨ row c = none ∧ localrow c = none := by
  rw [Index.scanKeyMatches, List.all_eq_true]
  refine forall₂_congr fun k _ => ?_
  cases hk : k.source with
  | attr c => cases hrow : row c <;> cases hlocal : localrow c <;> simp [Index.equal, hrow, hlocal]
  | expr => simp

/-- **The scan of one index** finds the first of its rows that meets the new one. -/
theorem findReplTupleByIndex_eq (t : Table natts V) (x : Index natts V) (row : Row natts V) :
    t.findReplTupleByIndex x row = (t.entries x).find? (x.meets row) := by
  unfold Table.findReplTupleByIndex
  split
  · next hpred =>
    refine (find?_eq_none.mpr fun localrow _ hmeets => ?_).symm
    simp [(meets_iff.mp hmeets).1] at hpred
  split
  · -- a NULL that counts as distinct is equal to nothing
    next hnulls =>
    refine (find?_eq_none.mpr fun localrow _ hmeets => ?_).symm
    obtain ⟨hdistinct, hany⟩ := Bool.and_eq_true_iff.mp hnulls
    obtain ⟨k, hk, hnull⟩ := any_eq_true.mp hany
    split at hnull
    · next c hc =>
      have hequal := (meets_iff.mp hmeets).2.2 k hk c hc
      rw [isNone_iff_eq_none.mp hnull] at hequal
      revert hequal
      cases localrow c <;> simp_all [Index.equal]
    · cases hnull
  · next hpred hnulls =>
    rw [Table.indexScan, find?_filter]
    refine find?_congr fun localrow _ => Bool.eq_iff_iff.mpr ?_
    rw [decide_eq_true_eq, Bool.and_eq_true, scanKeyMatches_iff, meets_iff]
    refine ⟨fun ⟨hscan, _, hlocal⟩ => ⟨by simpa using hpred, hlocal, fun k hk c hc => ?_⟩,
      fun ⟨_, hlocal, hkeys⟩ => ⟨fun k hk c hc => .inl (hkeys k hk c hc), ?_, hlocal⟩⟩
    · rcases hscan k hk c hc with hequal | ⟨hnone, hnone'⟩
      · exact hequal
      · -- a NULL got past the check before the scan
        rw [hnone, hnone']
        refine by_contra fun hdistinct => hnulls (Bool.and_eq_true_iff.mpr
          ⟨by simpa [Index.equal] using hdistinct, any_eq_true.mpr ⟨k, hk, ?_⟩⟩)
        rw [hc]
        exact isNone_iff_eq_none.mpr hnone
    · refine all_eq_true.mpr fun k hk => ?_
      split
      · next c hc =>
        have hequal := hkeys k hk c hc
        revert hequal
        cases row c <;> cases localrow c <;> simp +contextual [Index.equal]
      · rfl

/-! ## The lookup -/

theorem isUsableForInsertConflict_iff : x.isUsableForInsertConflict = true ↔
    x.indisprimary = false ∧ x.indisreplident = false ∧ x.enforced = true := by
  unfold Index.isUsableForInsertConflict Index.enforced
  cases x.indisprimary <;> cases x.indisreplident <;> cases x.indisvalid <;>
    cases x.indisunique <;> cases x.indimmediate <;> decide

theorem replicaIndex_spec (h : t.replicaIndex = some x) : x ∈ t.indexes ∧
    (x.indisprimary = true ∨ x.indisreplident = true) := by
  have hfind {p : Index natts V → Bool}
      (hfind : t.indexes.find? (fun x => x.enforced && p x) = some x) :
      x ∈ t.indexes ∧ p x = true := by
    have hp := find?_some hfind
    exact ⟨mem_of_find?_eq_some hfind, (Bool.and_eq_true_iff.mp hp).2⟩
  unfold Table.replicaIndex at h
  split at h
  · exact (hfind h).imp_right .inl
  · exact (hfind h).imp_right .inr
  · cases h
  · cases h

theorem replicaIndex_of_marked (hx : x ∈ t.indexes) (hmark : x.indisreplident = true)
    (henforced : x.enforced = true) : t.replicaIndex = some x := by
  obtain ⟨hchosen, hone⟩ := t.marked x hx hmark
  unfold Table.replicaIndex
  rw [hchosen]
  dsimp only
  cases hfind : t.indexes.find? fun x => x.enforced && x.indisreplident with
  | none =>
    have hnot := find?_eq_none.mp hfind x hx
    rw [henforced, hmark] at hnot
    exact absurd rfl hnot
  | some y =>
    have hy := find?_some hfind
    rw [hone y (mem_of_find?_eq_some hfind) (Bool.and_eq_true_iff.mp hy).2]

/-- **The scan of the replica identity** does the same. Its columns are NOT NULL and it has no
predicate, so that the scan key says it all. -/
theorem indexScan_replicaIndex (h : t.replicaIndex = some x) (row : Row natts V) :
    (t.indexScan x row).head? = (t.entries x).find? (x.meets row) := by
  obtain ⟨hx, hmark⟩ := replicaIndex_spec h
  have htotal : ∀ row, x.predicateMatches row = true := fun row => by
    rw [Index.predicateMatches, t.total x hx hmark]
    rfl
  rw [Table.indexScan, head?_filter]
  refine find?_congr fun localrow hlocal => Bool.eq_iff_iff.mpr ?_
  have hrow := ((t.entries_iff x hx localrow).mp hlocal).1
  rw [scanKeyMatches_iff, meets_iff]
  refine ⟨fun hscan => ⟨htotal row, htotal localrow, fun k hk c hc => ?_⟩,
    fun hmeets k hk c hc => .inl (hmeets.2.2 k hk c hc)⟩
  refine (hscan k hk c hc).resolve_right fun ⟨_, hnone⟩ => ?_
  obtain ⟨c', hc', hnotNull⟩ := t.notNull x hx hmark k hk
  cases hc.symm.trans hc'
  have hsome := hnotNull localrow hrow
  rw [hnone] at hsome
  cases hsome

/-- The indexes in the order in which they are searched. -/
def Table.searched (t : Table natts V) : List (Index natts V) :=
  t.replicaIndex.toList ++ t.indexes.filter (·.isUsableForInsertConflict)

/-- The lookup finds the first row that meets the new one. -/
theorem lookup_eq (t : Table natts V) (remoteslot : Row natts V) : t.lookup remoteslot =
    t.searched.findSome? fun x => ((t.entries x).find? (x.meets remoteslot)).map (x, ·) := by
  have hsecond : t.findReplTupleByUCIndex remoteslot =
      (t.indexes.filter (·.isUsableForInsertConflict)).findSome? fun x =>
        ((t.entries x).find? (x.meets remoteslot)).map (x, ·) := by
    unfold Table.findReplTupleByUCIndex
    induction t.indexes with
    | nil => rfl
    | cons x xs ih =>
      rw [findSome?_cons, ih, findReplTupleByIndex_eq, filter_cons]
      cases x.isUsableForInsertConflict <;> rfl
  unfold Table.lookup Table.findReplTupleInLocalRel Table.searched
  rw [findSome?_append, ← hsecond]
  cases hindex : t.replicaIndex with
  | none => rfl
  | some x =>
    rw [bind_some, indexScan_replicaIndex hindex, toList_some, findSome?_singleton]
    cases (t.entries x).find? (x.meets remoteslot) <;> rfl

/-- The first row, in the order of the search and of the index, that meets the new one. -/
def Table.FirstMet (t : Table natts V) (remoteslot : Row natts V) (x : Index natts V)
    (localrow : Row natts V) : Prop :=
  ∃ before after, t.searched = before ++ x :: after ∧
    (∀ y ∈ before, ∀ row ∈ t.entries y, y.meets remoteslot row = false) ∧
    (t.entries x).find? (x.meets remoteslot) = some localrow

/-- What the lookup needs. -/
structure Searchable (t : Table natts V) (remoteslot : Row natts V) : Prop where
  -- an expression, or a generated column, of the first row met is that of the new row
  found : ∀ x localrow, t.FirstMet remoteslot x localrow →
    ¬ (x.Plain ∧ SameKey x (t.stored remoteslot) remoteslot) →
    x.conflicts (t.stored remoteslot) localrow = true
  -- if no row is met, none is in the way under a primary key that is not searched, nor for the
  -- generated columns of the new row
  missed : (∀ x ∈ t.searched, ∀ row ∈ t.entries x, x.meets remoteslot row = false) →
    ∀ x ∈ t.indexes, x.enforced = true →
      (x.indisprimary = true ∧ t.replicaIndex ≠ some x) ∨
        ¬ SameKey x (t.stored remoteslot) remoteslot →
      ∀ localrow ∈ t.rows, x.conflicts (t.stored remoteslot) localrow = false

theorem mem_of_mem_searched (h : x ∈ t.searched) : x ∈ t.indexes := by
  rcases mem_append.mp h with h | h
  · exact (replicaIndex_spec (mem_toList.mp h)).1
  · exact mem_of_mem_filter h

theorem lookup_eq_some_iff {remoteslot : Row natts V} :
    t.lookup remoteslot = some (x, localrow) ↔ t.FirstMet remoteslot x localrow := by
  rw [lookup_eq, findSome?_eq_some_iff]
  have hnone {before : List (Index natts V)} :
      (∀ y ∈ before, ((t.entries y).find? (y.meets remoteslot)).map (y, ·) = none) ↔
        ∀ y ∈ before, ∀ row ∈ t.entries y, y.meets remoteslot row = false := by
    simp
  constructor
  · rintro ⟨before, y, after, hsearched, hfirst, hbefore⟩
    obtain ⟨_, hfirst, heq⟩ := map_eq_some_iff.mp hfirst
    cases heq
    exact ⟨before, after, hsearched, hnone.mp hbefore, hfirst⟩
  · rintro ⟨before, after, hsearched, hbefore, hfirst⟩
    exact ⟨before, x, after, hsearched, by rw [hfirst]; rfl, hnone.mpr hbefore⟩

theorem lookup_eq_none_iff {remoteslot : Row natts V} : t.lookup remoteslot = none ↔
    ∀ x ∈ t.searched, ∀ row ∈ t.entries x, x.meets remoteslot row = false := by
  simp [lookup_eq, findSome?_eq_none_iff]

theorem mem_searched (hx : x ∈ t.indexes) (henforced : x.enforced = true)
    (hprimary : x.indisprimary = true → t.replicaIndex = some x) : x ∈ t.searched := by
  refine mem_append.mpr ?_
  by_cases hmark : x.indisprimary = true ∨ x.indisreplident = true
  · exact .inl (mem_toList.mpr (hmark.elim hprimary fun h => replicaIndex_of_marked hx h henforced))
  · refine .inr (mem_filter.mpr ⟨hx, isUsableForInsertConflict_iff.mpr ?_⟩)
    simpa [henforced] using hmark

def intKey (c : Fin 3) : KeyColumn 3 Int := ⟨.attr c, (· == ·)⟩

def markedIndex (c : Fin 3) (primary : Bool) : Index 3 Int :=
  ⟨[intKey c], none, true, true, true, primary, !primary, false⟩

def otherIndex (keys : List (KeyColumn 3 Int)) (indpred : Option (Row 3 Int → Bool)) :
    Index 3 Int :=
  ⟨keys, indpred, true, true, true, false, false, false⟩

def intRow (u v w : Option Int) : Row 3 Int
  | 0 => u
  | 1 => v
  | 2 => w

/-- One row, a primary key on the first column that is the replica identity, and another index. -/
def sampleTable (attgenerated : Fin 3 → Option (Row 3 Int → Option Int))
    (keys : List (KeyColumn 3 Int)) (indpred : Option (Row 3 Int → Bool)) (v w : Int) :
    Table 3 Int where
  attisdropped _ := false
  attgenerated := attgenerated
  relreplident := .default
  indexes := [markedIndex 0 true, otherIndex keys indpred]
  rows := [intRow (some 1) (some v) (some w)]
  entries x := [intRow (some 1) (some v) (some w)].filter x.predicateMatches
  entries_iff _ _ _ := List.mem_filter
  total x hx hmark := by
    rcases List.mem_pair.mp hx with rfl | rfl
    · rfl
    · simp [otherIndex] at hmark
  notNull x hx hmark k hk := by
    rcases List.mem_pair.mp hx with rfl | rfl
    · rw [List.mem_singleton.mp hk]
      exact ⟨0, rfl, fun row hrow => by rw [List.mem_singleton.mp hrow]; rfl⟩
    · simp [otherIndex] at hmark
  marked x hx hmark := by
    rcases List.mem_pair.mp hx with rfl | rfl <;> simp [otherIndex, markedIndex] at hmark

/-- One row, a primary key on the first column and the replica identity on the second. -/
def twoKeyTable : Table 3 Int where
  attisdropped _ := false
  attgenerated _ := none
  relreplident := .index
  indexes := [markedIndex 0 true, markedIndex 1 false]
  rows := [intRow (some 1) (some 10) (some 5)]
  entries x := [intRow (some 1) (some 10) (some 5)].filter x.predicateMatches
  entries_iff _ _ _ := List.mem_filter
  total x hx _ := by rcases List.mem_pair.mp hx with rfl | rfl <;> rfl
  notNull x hx _ k hk := by
    rcases List.mem_pair.mp hx with rfl | rfl
    · rw [List.mem_singleton.mp hk]
      exact ⟨0, rfl, fun row hrow => by rw [List.mem_singleton.mp hrow]; rfl⟩
    · rw [List.mem_singleton.mp hk]
      exact ⟨1, rfl, fun row hrow => by rw [List.mem_singleton.mp hrow]; rfl⟩
  marked x hx hmark := by
    rcases List.mem_pair.mp hx with rfl | rfl
    · simp [markedIndex] at hmark
    · simp [markedIndex]

def partialIndex : Index 3 Int := otherIndex [intKey 1] (some fun row => (row 2).any (0 < ·))

def partialTable : Table 3 Int :=
  sampleTable (fun _ => none) partialIndex.keys partialIndex.indpred 10 5

def expressionTable : Table 3 Int :=
  sampleTable (fun _ => none) [intKey 1, ⟨.expr fun row => (row 2).map (· % 10), (· == ·)⟩] none
    10 5

/-- Unique in the third column, which is generated as twice the second. -/
def generatedTable : Table 3 Int :=
  sampleTable (fun c => if c = 2 then some fun row => (row 1).map (2 * ·) else none) [intKey 2] none
    10 20

end Spock.UniqueIndex
