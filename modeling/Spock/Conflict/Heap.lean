import Mathlib.Data.List.FinRange
import Spock.Basic

/-!
# Spock — row versions and the slot functions of `spock_apply_heap.c`

One table, one primary key: the rows a node may hold for the key, the tuple data a change
message carries, and the functions that build the row to store from the two. A row gives each
column a datum or NULL (`none`). The column count is `natts`; `attmap` lists the local columns
the remote relation maps to.
-/

namespace Spock

variable {natts : Nat} {V : Type}

/-- The values of a tuple, `none` for NULL. -/
abbrev Row (natts : Nat) (V : Type) := Fin natts → Option V

/-- A stored row version with the id of the transaction that created it. -/
structure HeapTuple (natts : Nat) (V : Type) where
  row : Row natts V
  xmin : Nat

/-- `SpockTupleData`: the columns of a change message. A column sent as unchanged (`'u'`) has
`changed = false` and a NULL value. -/
structure SpockTupleData (natts : Nat) (V : Type) where
  values : Row natts V
  changed : Fin natts → Bool

/-- One column of a tuple message: `'n'`, `'u'`, or data in one of the transfer formats. -/
inductive TupleDatum (V : Type) where
  | null
  | unchanged
  | datum (v : V)

/-- `spock_write_tuple`: a value whose TOAST pointer is still on disk is not sent. -/
def spockWriteTuple (values : Row natts V) (externalOnDisk : Fin natts → Bool) :
    Fin natts → TupleDatum V := fun c =>
  match values c with
  | none => .null
  | some v => if externalOnDisk c then .unchanged else .datum v

/-- `spock_read_tuple`, over all columns: the slot functions look at mapped ones only. -/
def spockReadTuple (msg : Fin natts → TupleDatum V) : SpockTupleData natts V where
  values c :=
    match msg c with
    | .null => none
    | .unchanged => none
    | .datum v => some v
  changed c :=
    match msg c with
    | .null => true
    | .unchanged => false
    | .datum _ => true

/-- `SpockRelation`, with what the table's attribute options and defaults give per column. -/
structure SpockRelation (natts : Nat) (V : Type) where
  nspname : String
  relname : String
  attmap : List (Fin natts)
  /-- `delta_apply_functions`, called as `f old new local`. -/
  deltaApplyFunctions : Fin natts → Option (V → V → V → V)
  /-- `build_column_default` for columns the remote relation does not have. -/
  columnDefault : Fin natts → Option V
  /-- `zero_datum_for_type` of the column's type. -/
  zeroDatum : Fin natts → V
  /-- The expressions of the stored generated columns. The provider does not send a column that is
  generated there. -/
  attgenerated : Fin natts → Option (Row natts V → Option V)

/-- `has_delta_columns`: some mapped column has a delta-apply function. -/
def SpockRelation.hasDeltaColumns (rel : SpockRelation natts V) : Bool :=
  rel.attmap.any fun c => (rel.deltaApplyFunctions c).isSome

/-- Every column is sent, and none is generated here. -/
structure SpockRelation.AllMapped (rel : SpockRelation natts V) : Prop where
  mapped : ∀ c, c ∈ rel.attmap
  plain : ∀ c, rel.attgenerated c = none

/-- A table of integer columns, all mapped; the columns of `delta` add up the differences. -/
def intTable (natts : Nat) (delta : Fin natts → Bool) : SpockRelation natts Int where
  nspname := "public"
  relname := "t"
  attmap := List.finRange natts
  deltaApplyFunctions c := if delta c then some fun old new loc => loc + (new - old) else none
  columnDefault _ := none
  zeroDatum _ := 0
  attgenerated _ := none

theorem intTable_allMapped (natts : Nat) (delta : Fin natts → Bool) :
    (intTable natts delta).AllMapped := ⟨List.mem_finRange, fun _ => rfl⟩

def SpockTupleData.Complete (tup : SpockTupleData natts V) : Prop := ∀ c, tup.changed c = true
  deriving Decidable

def slotStoreData (rel : SpockRelation natts V) (tup : SpockTupleData natts V) : Row natts V :=
  fun c => if c ∈ rel.attmap then tup.values c else none

/-- `slot_fill_defaults`: nothing to do when every physical column came from the remote side. -/
def slotFillDefaults (rel : SpockRelation natts V) (slot : Row natts V) : Row natts V :=
  if natts = rel.attmap.length then slot
  else fun c => if c ∈ rel.attmap then slot c else rel.columnDefault c

/-- `slot_store_htup`: unmapped columns come out NULL. -/
def slotStoreHtup (rel : SpockRelation natts V) (htup : Row natts V) : Row natts V :=
  fun c => if c ∈ rel.attmap then htup c else none

/-- `slot_modify_data`: the source slot with the columns the message carries replaced. -/
def slotModifyData (rel : SpockRelation natts V) (srcslot : Row natts V)
    (tup : SpockTupleData natts V) : Row natts V :=
  fun c => if c ∈ rel.attmap ∧ tup.changed c = true then tup.values c else srcslot c

def heapModifyTuple (tuple : Row natts V) (repl : SpockTupleData natts V) : Row natts V :=
  fun c => if repl.changed c = true then repl.values c else tuple c

/-- The new value of one delta column. An old value that was not sent (NULL) forces the plain
new value. Delta columns are declared NOT NULL; the source does not look at the null flags of
the new and the local value, and the NULL result here stands for whatever it computes then. -/
def deltaValue (f : V → V → V → V) (old new loc : Option V) : Option V :=
  match old with
  | none => new
  | some o =>
    match new, loc with
    | some n, some l => some (f o n l)
    | _, _ => none

/-- `build_delta_tuple`: replaces exactly the mapped delta columns. -/
def buildDeltaTuple (rel : SpockRelation natts V) (oldtup newtup : SpockTupleData natts V)
    (localrow : Row natts V) : SpockTupleData natts V where
  values c :=
    if c ∈ rel.attmap then
      match rel.deltaApplyFunctions c with
      | none => none
      | some f => deltaValue f (oldtup.values c) (newtup.values c) (localrow c)
    else none
  changed c := decide (c ∈ rel.attmap) && (rel.deltaApplyFunctions c).isSome

/-- `init_tuple_with_defaults`: the old tuple of an INSERT turned into an UPDATE. -/
def initTupleWithDefaults (rel : SpockRelation natts V) : SpockTupleData natts V where
  values c := some (rel.zeroDatum c)
  changed _ := false

/-- The row the UPDATE stores: `base` (the local row or the local row with the remote columns)
with the delta columns computed on top when the table has some. -/
def deltaSlot (rel : SpockRelation natts V) (base : Row natts V)
    (oldtup newtup : SpockTupleData natts V) (localrow : Row natts V) : Row natts V :=
  if rel.hasDeltaColumns then
    slotStoreHtup rel (heapModifyTuple base (buildDeltaTuple rel oldtup newtup localrow))
  else base

/-- `ExecComputeStoredGenerated`, which `ExecSimpleRelationInsert` and `ExecSimpleRelationUpdate` call
on the slot that is to be stored. -/
def computeStoredGenerated (rel : SpockRelation natts V) (slot : Row natts V) : Row natts V :=
  fun c =>
    match rel.attgenerated c with
    | some eval => eval slot
    | none => slot c

/-! ## Slot lemmas -/

variable {rel : SpockRelation natts V} {c : Fin natts}

theorem slotModifyData_read_write (hmap : rel.AllMapped) (row values : Row natts V)
    (externalOnDisk : Fin natts → Bool) (hext : ∀ c, externalOnDisk c = true → values c = row c) :
    slotModifyData rel row (spockReadTuple (spockWriteTuple values externalOnDisk)) = values := by
  funext c
  cases hv : values c with
  | none => simp [slotModifyData, hmap.mapped c, spockReadTuple, spockWriteTuple, hv]
  | some =>
    cases he : externalOnDisk c with
    | false => simp [slotModifyData, hmap.mapped c, spockReadTuple, spockWriteTuple, hv, he]
    | true =>
      have hrow := hext c he
      simp [slotModifyData, spockReadTuple, spockWriteTuple, hv, he, ← hrow]

theorem spockReadTuple_write_values (values : Row natts V) {externalOnDisk : Fin natts → Bool}
    (h : externalOnDisk c = false) :
    (spockReadTuple (spockWriteTuple values externalOnDisk)).values c = values c := by
  cases hv : values c <;> simp [spockReadTuple, spockWriteTuple, hv, h]

theorem slotModifyData_complete (hmap : rel.AllMapped) {tup : SpockTupleData natts V}
    (hc : tup.Complete) (src : Row natts V) : slotModifyData rel src tup = tup.values := by
  funext c
  simp [slotModifyData, hmap.mapped c, hc c]

theorem slotFillDefaults_storeData (hmap : rel.AllMapped) (tup : SpockTupleData natts V) :
    slotFillDefaults rel (slotStoreData rel tup) = tup.values := by
  funext c
  unfold slotFillDefaults
  split <;> simp [slotStoreData, hmap.mapped c]

theorem computeStoredGenerated_eq (hmap : rel.AllMapped) (slot : Row natts V) :
    computeStoredGenerated rel slot = slot := by
  funext c
  rw [computeStoredGenerated, hmap.plain c]

theorem deltaSlot_noDelta (h : rel.hasDeltaColumns = false) (base : Row natts V)
    (oldtup newtup : SpockTupleData natts V) (localrow : Row natts V) :
    deltaSlot rel base oldtup newtup localrow = base := by
  simp [deltaSlot, h]

theorem deltaSlot_plain (hmap : c ∈ rel.attmap) (hc : rel.deltaApplyFunctions c = none)
    (base : Row natts V) (oldtup newtup : SpockTupleData natts V) (localrow : Row natts V) :
    deltaSlot rel base oldtup newtup localrow c = base c := by
  unfold deltaSlot
  split
  · simp [slotStoreHtup, heapModifyTuple, buildDeltaTuple, hmap, hc]
  · rfl

theorem deltaSlot_of_none (hmap : rel.AllMapped) (hc : rel.deltaApplyFunctions c = none)
    (base : Row natts V) (oldtup newtup : SpockTupleData natts V) (localrow : Row natts V) :
    deltaSlot rel base oldtup newtup localrow c = base c :=
  deltaSlot_plain (hmap.mapped c) hc base oldtup newtup localrow

theorem deltaSlot_of_some (hmap : rel.AllMapped) {f : V → V → V → V}
    (hc : rel.deltaApplyFunctions c = some f) (base : Row natts V)
    (oldtup newtup : SpockTupleData natts V) (localrow : Row natts V) :
    deltaSlot rel base oldtup newtup localrow c
      = deltaValue f (oldtup.values c) (newtup.values c) (localrow c) := by
  have hd : rel.hasDeltaColumns = true :=
    List.any_eq_true.mpr ⟨c, hmap.mapped c, by simp [hc]⟩
  simp [deltaSlot, hd, slotStoreHtup, heapModifyTuple, buildDeltaTuple, hmap.mapped c, hc]

end Spock
