import Spock.Lib.Checked
import Spock.Lib.Memo
import Spock.Protocol.Native

/-!
# Spock — what the replication sets say about a table

`spock_repset.c` on the side of the readers: the rows of `replication_set_table` for a table are
joined with the replication sets of the caller into a `SpockTableRepInfo`, which says which actions
and columns are published and which row filters there are. The result is kept in `RepSetTableHash`
under the table's id.
-/

namespace Spock.Repset

open Protocol Checked List

/-! ## Catalogs -/

structure Actions where
  replicateInsert : Bool
  replicateUpdate : Bool
  replicateDelete : Bool
  replicateTruncate : Bool
  deriving DecidableEq

/-- `SpockRepSet`, a row of `spock.replication_set`. -/
structure RepSet extends Actions where
  id : UInt32
  nodeid : UInt32
  name : CString
  deriving DecidableEq

/-- An immutable expression over the columns of a row; `none` is null. -/
abbrev RowFilter := Deformed → Option Bool

/-- A row of `spock.replication_set_table` for some table. -/
structure RepSetTable where
  setid : UInt32
  attList : Option (List CString)
  rowFilter : Option RowFilter

def RepSetTable.listed (t : RepSetTable) : List CString := t.attList.getD []

/-- The catalogs as the backend sees them: `replication_set_table` by table, `replication_set` by
id, and the relation cache. `EnsureRelationNotIgnored` keeps the tables of the extension itself out
of every replication set. -/
structure Catalog where
  repsetTables : UInt32 → List RepSetTable
  repsets : UInt32 → Option RepSet
  relcache : (relid : UInt32) → { rel : Relation // rel.relid = relid }
  queueTableOid : UInt32
  replicationSetRelOid : UInt32
  queue_ignored : repsetTables queueTableOid = []
  replicationSet_ignored : repsetTables replicationSetRelOid = []

def Catalog.relation (cat : Catalog) (relid : UInt32) : Relation := (cat.relcache relid).val

theorem Catalog.relation_relid (cat : Catalog) (relid : UInt32) : (cat.relation relid).relid = relid :=
  (cat.relcache relid).property

/-- Some transaction has changed the definition of a relation or the sets it is in; `none` for what
`EnsureRelationNotIgnored` refuses. -/
def Catalog.alter (cat : Catalog) (rel : Relation) (rows : List RepSetTable) : Option Catalog :=
  if h : rows = [] ∨ (rel.relid ≠ cat.queueTableOid ∧ rel.relid ≠ cat.replicationSetRelOid) then
    some { cat with
      repsetTables := Function.update cat.repsetTables rel.relid rows
      relcache := Function.update cat.relcache rel.relid ⟨rel, rfl⟩
      queue_ignored := by
        by_cases hrel : cat.queueTableOid = rel.relid
        · rw [hrel, Function.update_self]
          exact h.resolve_right fun hne => hne.1 hrel.symm
        · rw [Function.update_of_ne hrel, cat.queue_ignored]
      replicationSet_ignored := by
        by_cases hrel : cat.replicationSetRelOid = rel.relid
        · rw [hrel, Function.update_self]
          exact h.resolve_right fun hne => hne.2 hrel.symm
        · rw [Function.update_of_ne hrel, cat.replicationSet_ignored] }
  else none

/-- `get_replication_set`. -/
def Catalog.getReplicationSet (cat : Catalog) (setid : UInt32) : Except ErrorData RepSet :=
  match cat.repsets setid with
  | some repset => .ok repset
  | none => .error (elogError s!"replication set {setid} not found")

/-- `get_table_replication_sets`: every set of the node that the table is in. -/
def Catalog.getTableReplicationSets (cat : Catalog) (nodeid reloid : UInt32) :
    Except ErrorData (List RepSet) := do
  let repsets ← (cat.repsetTables reloid).mapM fun t => cat.getReplicationSet t.setid
  pure (repsets.filter fun repset => repset.nodeid == nodeid)

theorem Catalog.alter_other {cat cat' : Catalog} {rel : Relation} {rows : List RepSetTable}
    (h : cat.alter rel rows = some cat') {relid : UInt32} (hrelid : relid ≠ rel.relid) :
    cat'.repsetTables relid = cat.repsetTables relid ∧ cat'.relation relid = cat.relation relid := by
  unfold Catalog.alter at h
  split at h
  · cases h
    exact ⟨Function.update_of_ne hrelid .., congrArg Subtype.val (Function.update_of_ne hrelid ..)⟩
  · cases h

/-! ## `get_table_replication_info` -/

/-- `SpockTableRepInfo`. A null `att_list` stands for all columns. -/
structure TableRepInfo extends Actions where
  attList : Option (List Nat)
  rowFilter : List RowFilter

def TableRepInfo.zero : TableRepInfo := ⟨⟨false, false, false, false⟩, none, []⟩

def Actions.or (a b : Actions) : Actions where
  replicateInsert := a.replicateInsert || b.replicateInsert
  replicateUpdate := a.replicateUpdate || b.replicateUpdate
  replicateDelete := a.replicateDelete || b.replicateDelete
  replicateTruncate := a.replicateTruncate || b.replicateTruncate

def findAtt (desc : List Attribute) (attname : CString) : Option Attribute :=
  desc.find? fun att => !att.attisdropped && att.attname.toCString == attname

/-- `get_att_num_by_name`, where `0` stands for `FirstLowInvalidHeapAttributeNumber`. -/
def getAttNumByName (desc : List Attribute) (attname : CString) : Except ErrorData Nat :=
  match findAtt desc attname with
  | none => .ok 0
  | some att =>
    if att.attgenerated then
      .error ⟨.invalidParameterValue,
        s!"column {CString.toString attname} cannot be declared as generated"⟩
    else .ok att.attnum

/-- `bms_add_member`. -/
def addMember (attList : Option (List Nat)) (attnum : Nat) : Option (List Nat) :=
  some (attList.getD [] ++ [attnum])

def addColumn (desc : List Attribute) (attList : Option (List Nat)) (attname : CString) :
    Except ErrorData (Option (List Nat)) := do
  let attnum ← getAttNumByName desc attname
  pure (addMember attList attnum)

def addRow (desc : List Attribute) (info : TableRepInfo) (t : RepSetTable) (repset : RepSet) :
    Except ErrorData TableRepInfo := do
  let attList ← t.listed.foldlM (addColumn desc) info.attList
  pure ⟨info.toActions.or repset.toActions, attList, info.rowFilter ++ t.rowFilter.toList⟩

/-- The scan of `replication_set_table` and the loop over the sets that were passed. -/
def fillEntry (desc : List Attribute) (rows : List RepSetTable) (repsets : List RepSet) :
    Except ErrorData TableRepInfo :=
  rows.foldlM (fun info t =>
    repsets.foldlM (fun info repset =>
      if t.setid = repset.id then addRow desc info t repset else pure info) info) .zero

abbrev RepSetTableHash := Memo.Table UInt32 TableRepInfo

/-- `get_table_replication_info`. The node id is not used. -/
def getTableReplicationInfo (uninit : Memo.Entry TableRepInfo) (hash : RepSetTableHash)
    (rows : List RepSetTable) (_nodeid : UInt32) (table : Relation) (repsets : List RepSet) :
    Except ErrorData TableRepInfo × RepSetTableHash :=
  Memo.lookup uninit hash table.relid (fillEntry table.desc rows repsets)

def invalidOid : UInt32 := 0

/-- `repset_relcache_invalidate_callback`. -/
def repsetRelcacheInvalidateCallback (reloid : UInt32) (hash : RepSetTableHash) : RepSetTableHash :=
  Memo.invalidate (fun r => reloid == invalidOid || r == reloid)
    (fun info => { info with attList := none, rowFilter := [] }) hash

theorem sound_repsetRelcacheInvalidateCallback {P P' : UInt32 → TableRepInfo → Prop} {reloid : UInt32}
    {hash : RepSetTableHash} (h : Memo.Sound P hash)
    (hP : ∀ relid info, reloid ≠ invalidOid → relid ≠ reloid → P relid info → P' relid info) :
    Memo.Sound P' (repsetRelcacheInvalidateCallback reloid hash) := by
  refine Memo.Sound.invalidate h fun relid info hhit hinfo => ?_
  simp only [Bool.or_eq_false_iff, beq_eq_false_iff_ne] at hhit
  exact hP relid info hhit.1 hhit.2 hinfo

/-! ## The combination -/

def joined (rows : List RepSetTable) (repsets : List RepSet) : List (RepSetTable × RepSet) :=
  rows.flatMap fun t => (repsets.filter fun repset => t.setid = repset.id).map fun repset => (t, repset)

def listedColumns (pairs : List (RepSetTable × RepSet)) : List CString :=
  pairs.flatMap fun p => p.1.listed

def bitmapset : List Nat → Option (List Nat)
  | [] => none
  | attnum :: attnums => some (attnum :: attnums)

def unite (pairs : List (RepSetTable × RepSet)) (attnums : List Nat) : TableRepInfo where
  replicateInsert := pairs.any (·.2.replicateInsert)
  replicateUpdate := pairs.any (·.2.replicateUpdate)
  replicateDelete := pairs.any (·.2.replicateDelete)
  replicateTruncate := pairs.any (·.2.replicateTruncate)
  attList := bitmapset attnums
  rowFilter := pairs.filterMap (·.1.rowFilter)

/-- **The combination of the rows of a table over some replication sets**: an action is published if
a set publishes it, a column if it is listed or nothing is, and every row filter is kept. -/
def combination (desc : List Attribute) (rows : List RepSetTable) (repsets : List RepSet) :
    Except ErrorData TableRepInfo :=
  (unite (joined rows repsets)) <$>
    (listedColumns (joined rows repsets)).mapM (getAttNumByName desc)

def TableRepInfo.extend (info : TableRepInfo) (pairs : List (RepSetTable × RepSet))
    (attnums : List Nat) : TableRepInfo where
  replicateInsert := info.replicateInsert || pairs.any (·.2.replicateInsert)
  replicateUpdate := info.replicateUpdate || pairs.any (·.2.replicateUpdate)
  replicateDelete := info.replicateDelete || pairs.any (·.2.replicateDelete)
  replicateTruncate := info.replicateTruncate || pairs.any (·.2.replicateTruncate)
  attList := attnums.foldl addMember info.attList
  rowFilter := info.rowFilter ++ pairs.filterMap (·.1.rowFilter)

theorem foldl_addMember_some (l attnums : List Nat) :
    attnums.foldl addMember (some l) = some (l ++ attnums) := by
  induction attnums generalizing l with
  | nil => rw [foldl_nil, append_nil]
  | cons attnum _ ih =>
    rw [foldl_cons, show addMember (some l) attnum = some (l ++ [attnum]) from rfl, ih,
      append_assoc, singleton_append]

theorem zero_extend (pairs : List (RepSetTable × RepSet)) (attnums : List Nat) :
    TableRepInfo.zero.extend pairs attnums = unite pairs attnums := by
  have hattList : attnums.foldl addMember none = bitmapset attnums := by
    cases attnums with
    | nil => rfl
    | cons attnum attnums => exact foldl_addMember_some [attnum] attnums
  simp [TableRepInfo.extend, TableRepInfo.zero, unite, hattList]

theorem extend_extend (info : TableRepInfo) (p : RepSetTable × RepSet)
    (pairs : List (RepSetTable × RepSet)) (attnums attnums' : List Nat) :
    (info.extend [p] attnums).extend pairs attnums' =
      info.extend (p :: pairs) (attnums ++ attnums') := by
  simp [TableRepInfo.extend, Bool.or_assoc, foldl_append, filterMap_cons]
  cases p.1.rowFilter <;> rfl

section Fill

variable (desc : List Attribute)

theorem foldlM_addColumn (attList : Option (List Nat)) (attnames : List CString) :
    attnames.foldlM (addColumn desc) attList =
      (fun attnums => attnums.foldl addMember attList) <$>
        attnames.mapM (getAttNumByName desc) := by
  induction attnames generalizing attList with
  | nil => rfl
  | cons _ _ ih =>
    rw [foldlM_cons, mapM_cons, addColumn]
    simp only [ih, bind_assoc, pure_bind, map_bind, map_pure, foldl_cons]
    rfl

theorem addRow_eq (info : TableRepInfo) (t : RepSetTable) (repset : RepSet) :
    addRow desc info t repset =
      info.extend [(t, repset)] <$> t.listed.mapM (getAttNumByName desc) := by
  rw [addRow, foldlM_addColumn]
  simp only [bind_map_left]
  rw [← bind_pure_comp]
  congr 1
  funext attnums
  cases h : t.rowFilter <;> simp [TableRepInfo.extend, Actions.or, h]

theorem foldlM_addRow (info : TableRepInfo) (pairs : List (RepSetTable × RepSet)) :
    pairs.foldlM (fun info p => addRow desc info p.1 p.2) info =
      info.extend pairs <$> (listedColumns pairs).mapM (getAttNumByName desc) := by
  induction pairs generalizing info with
  | nil =>
    have hnil : info.extend [] [] = info := by simp [TableRepInfo.extend]
    rw [foldlM_nil, listedColumns, flatMap_nil, mapM_nil, map_pure, hnil]
  | cons p pairs ih =>
    have hcolumns : listedColumns (p :: pairs) = p.1.listed ++ listedColumns pairs := rfl
    rw [foldlM_cons, addRow_eq, hcolumns, mapM_append]
    simp only [ih, bind_map_left, map_bind, map_pure, ← extend_extend]
    rfl

theorem foldlM_filter_pure (info : TableRepInfo) (t : RepSetTable) (repsets : List RepSet) :
    repsets.foldlM (fun info repset =>
        if t.setid = repset.id then addRow desc info t repset else pure info) info =
      ((repsets.filter fun repset => t.setid = repset.id).map fun repset => (t, repset)).foldlM
        (fun info p => addRow desc info p.1 p.2) info := by
  induction repsets generalizing info with
  | nil => rfl
  | cons repset _ ih =>
    rw [foldlM_cons]
    by_cases h : t.setid = repset.id
    · rw [if_pos h, filter_cons_of_pos (by simpa using h), map_cons, foldlM_cons]
      simp only [ih]
    · rw [if_neg h, filter_cons_of_neg (by simpa using h), pure_bind, ih]

/-- **What the loops compute.** -/
theorem fillEntry_eq_combination (rows : List RepSetTable) (repsets : List RepSet) :
    fillEntry desc rows repsets = combination desc rows repsets := by
  have hloops : ∀ info, rows.foldlM (fun info t =>
      repsets.foldlM (fun info repset =>
        if t.setid = repset.id then addRow desc info t repset else pure info) info) info =
      (joined rows repsets).foldlM (fun info p => addRow desc info p.1 p.2) info := by
    intro info
    unfold joined
    induction rows generalizing info with
    | nil => rfl
    | cons _ _ ih =>
      rw [foldlM_cons, flatMap_cons, foldlM_append, foldlM_filter_pure]
      simp only [ih]
  rw [fillEntry, hloops, foldlM_addRow, combination]
  congr 1
  funext attnums
  exact zero_extend (joined rows repsets) attnums

end Fill

/-! ## Generated columns -/

def NoneGenerated (desc : List Attribute) (attnames : List CString) : Prop :=
  ∀ attname ∈ attnames, (findAtt desc attname).all (!·.attgenerated) = true
  deriving Decidable

def attNum (desc : List Attribute) (attname : CString) : Nat :=
  ((findAtt desc attname).map (·.attnum)).getD 0

theorem checks_getAttNumByName (desc : List Attribute) (attname : CString) :
    Checks (getAttNumByName desc attname) ((findAtt desc attname).all (!·.attgenerated) = true)
      (· = attNum desc attname) := by
  unfold getAttNumByName attNum
  cases findAtt desc attname with
  | none => exact ⟨rfl, rfl⟩
  | some att =>
    cases hatt : att.attgenerated with
    | false | true => simp [Checks, hatt]

/-- **When the combination is computed, and what it is.** -/
theorem combination_ok_iff {desc : List Attribute} {rows : List RepSetTable} {repsets : List RepSet}
    {info : TableRepInfo} :
    combination desc rows repsets = .ok info ↔
      NoneGenerated desc (listedColumns (joined rows repsets)) ∧
        info = unite (joined rows repsets)
          ((listedColumns (joined rows repsets)).map (attNum desc)) := by
  have hchecks := checks_mapM fun attname (_ : attname ∈ listedColumns (joined rows repsets)) =>
    checks_getAttNumByName desc attname
  unfold combination
  cases hmap : (listedColumns (joined rows repsets)).mapM (getAttNumByName desc) with
  | ok =>
    rw [hmap] at hchecks
    rw [← hchecks.2]
    constructor
    · intro h
      exact ⟨hchecks.1, (Except.ok.inj h).symm⟩
    · rintro ⟨-, rfl⟩
      rfl
  | error =>
    rw [hmap] at hchecks
    constructor
    · intro h
      cases h
    · intro h
      exact absurd h.1 hchecks

section Sample

/-- A table with columns `a` and `b`. -/
def sampleTable (relid : UInt32) : Relation where
  relid := relid
  relnamespace := 1
  relname := .letter 116
  desc := [⟨1, .letter 97, 23, 0, 4, true, false, false⟩,
    ⟨2, .letter 98, 23, 0, 4, true, false, false⟩]
  idattrs := [1]
  attnames_nodup := by decide
  natts_le := by decide

def sampleSet (id : UInt32) (actions : Actions) : RepSet := ⟨actions, id, 1, cString [115]⟩

def sampleCatalog (rows : List RepSetTable) (repsets : UInt32 → Option RepSet) : Catalog where
  repsetTables relid := if relid = 7 then rows else []
  repsets := repsets
  relcache relid := ⟨sampleTable relid, rfl⟩
  queueTableOid := 1
  replicationSetRelOid := 2
  queue_ignored := rfl
  replicationSet_ignored := rfl

def fullSet (id : UInt32) : RepSet := sampleSet id ⟨true, true, true, true⟩

/-- Table 7 is in set 1 as a whole, in set 2 with a filter that no row passes, and in set 3 with a
filter that every row passes. -/
def filteredSets : Catalog :=
  sampleCatalog [⟨1, none, none⟩, ⟨2, none, some fun _ => none⟩, ⟨3, none, some fun _ => some true⟩]
    fun _ => none

/-- Table 7 is in set 1 as a whole and in set 2 with column `a`. -/
def listedSets : Catalog :=
  sampleCatalog [⟨1, none, none⟩, ⟨2, some [cString [97]], none⟩] fun _ => none

end Sample

end Spock.Repset
