import Spock.Output.Sends

/-!
# Spock — whether a row is delivered, and with which columns

A row of a replicated table reaches a subscriber in one of three ways: by the COPY that starts the
synchronisation of the table (`copy_table_data`), by the stream that then catches up with this table
only (`replicate_only_table`), or by the stream of the subscription. Each has its own code for row
filters and column lists.

* **`paths_agree_iff`** — when the three ways deliver the same;
* **`further_set_iff`** — when a further replication set takes nothing away.
-/

namespace Spock.Output

open Protocol Repset Outcome List Option

/-! ## The streams -/

def Change.isSendable : Change → Bool
  | .delete none => false
  | _ => true

def Plugin.delivers (c : Connection) (s : Plugin) (relid : UInt32) (change : Change) :
    Option (List Attribute) :=
  match changeFilter c (s.catalog.relation relid) change s with
  | .ok (some attList) _ =>
    if change.isSendable then some ((s.catalog.relation relid).live attList) else none
  | .ok none _ | .error .. => none

/-! ## The initial copy -/

/-- `SpockRemoteRel`, as `spock.show_repset_table_info` answers. -/
structure RepsetTable where
  attList : List Attribute
  hasRowFilter : Bool

def showRepsetTableInfo (rel : Relation) (info : TableRepInfo) : RepsetTable where
  attList := rel.live info.attList
  hasRowFilter := !info.rowFilter.isEmpty

/-- `spock.table_data_filtered`: the row filters, joined by OR. -/
def tableDataFiltered (info : TableRepInfo) (row : Deformed) : Bool :=
  info.rowFilter.isEmpty || info.rowFilter.any fun rowFilter => rowFilter row == some true

/-- The columns of `SELECT *`. -/
def allColumns (rel : Relation) : List Attribute := rel.desc.filter (!·.attisdropped)

/-- The columns of the COPY query: without a name in the list it is left out, and replaced by `*` in
the queries that select. -/
def copyColumns (rel : Relation) (partitioned : Bool) (remote : RepsetTable) : List Attribute :=
  if remote.attList.isEmpty then
    if remote.hasRowFilter || partitioned then allColumns rel else rel.live none
  else remote.attList

/-- `copy_table_data`, for one row. -/
def copyTableData (rel : Relation) (partitioned : Bool) (info : TableRepInfo) (row : Deformed) :
    Option (List Attribute) :=
  let remote := showRepsetTableInfo rel info
  if !remote.hasRowFilter || tableDataFiltered info row then some (copyColumns rel partitioned remote)
  else none

def copyDelivers (catalog : Catalog) (relid : UInt32) (partitioned : Bool) (repsets : List RepSet)
    (row : Deformed) : Option (List Attribute) :=
  let rel := catalog.relation relid
  match fillEntry rel.desc (catalog.repsetTables relid) repsets with
  | .ok info => copyTableData rel partitioned info row
  | .error _ => none

/-! ## What the stream of a subscription sends -/

variable {rows : List RepSetTable} {repsets : List RepSet} {rel : Relation}
  {attnames : List CString} {row : Deformed}

variable {p : RepSetTable × RepSet} {catalog : Catalog} {relid : UInt32} {att : Attribute}
  {attnums : List Nat} {change : Change} {pairs : List (RepSetTable × RepSet)}
  {repsets' : List RepSet} {partitioned : Bool}

theorem mem_joined : p ∈ joined rows repsets ↔ p.1 ∈ rows ∧ p.2 ∈ repsets ∧ p.1.setid = p.2.id := by
  obtain ⟨t, repset⟩ := p
  simp only [joined, List.mem_flatMap, List.mem_map, List.mem_filter, decide_eq_true_eq,
    Prod.mk.injEq]
  constructor
  · rintro ⟨t', ht', r', ⟨hr', hid⟩, rfl, rfl⟩
    exact ⟨ht', hr', hid⟩
  · rintro ⟨ht, hr, hid⟩
    exact ⟨t, ht, repset, ⟨hr, hid⟩, rfl, rfl⟩

theorem ne_own_of_mem {t : RepSetTable} (h : t ∈ catalog.repsetTables relid) :
    relid ≠ catalog.queueTableOid ∧ relid ≠ catalog.replicationSetRelOid := by
  constructor
  · rintro rfl
    rw [catalog.queue_ignored] at h
    exact absurd h not_mem_nil
  · rintro rfl
    rw [catalog.replicationSet_ignored] at h
    exact absurd h not_mem_nil

section Stream

variable {c : Connection} (repsets : List RepSet) (slotGroup : Option SlotGroup) (change : Change)

theorem lookup_connect :
    ((Plugin.connect catalog repsets slotGroup).lookup c (catalog.relation relid)).1 =
    combination (catalog.relation relid).desc (catalog.repsetTables relid) repsets := by
  have hrelid : (catalog.relation relid).relid = relid := (catalog.relcache relid).property
  unfold Plugin.lookup getTableReplicationInfo
  rw [fillEntry_eq_combination, hrelid]
  exact Memo.lookup_of_not_valid rfl

theorem ends_changeFilter (honly : c.replicateOnlyTable = none)
    (hown : relid ≠ catalog.queueTableOid ∧ relid ≠ catalog.replicationSetRelOid) :
    Ends (changeFilter c (catalog.relation relid) change) (.connect catalog repsets slotGroup)
      (fun filtered _ => ∃ info,
        combination (catalog.relation relid).desc (catalog.repsetTables relid) repsets = .ok info ∧
        filtered = if allowsAction info.toActions change && passesFilters info.rowFilter change then
          some info.attList else none)
      fun e _ => combination (catalog.relation relid).desc (catalog.repsetTables relid) repsets =
        .error e := by
  have hrelid : (catalog.relation relid).relid = relid := (catalog.relcache relid).property
  refine (ends_bind _ _).2 (ends_get.2 ?_)
  rw [honly]
  dsimp only
  rw [hrelid]
  refine ends_ite.2 ⟨fun h => absurd h hown.1, fun _ =>
    ends_ite.2 ⟨fun h => absurd h hown.2, fun _ => ?_⟩⟩
  refine (ends_bind _ _).2 ((ends_tableReplicationInfo c _).2 ⟨fun info hinfo => ?_, fun e he => ?_⟩)
  · rw [lookup_connect] at hinfo
    exact ⟨info, hinfo, rfl⟩
  · rw [lookup_connect] at he
    exact he

def streamed (rel : Relation) (change : Change) (info : TableRepInfo) : Option (List Attribute) :=
  if allowsAction info.toActions change && passesFilters info.rowFilter change && change.isSendable then
    some (rel.live info.attList)
  else none

/-- **The stream of a subscription**, from a connection that has not seen the table before. -/
theorem delivers_connect (honly : c.replicateOnlyTable = none)
    (hown : relid ≠ catalog.queueTableOid ∧ relid ≠ catalog.replicationSetRelOid) :
    (Plugin.connect catalog repsets slotGroup).delivers c relid change =
      match combination (catalog.relation relid).desc (catalog.repsetTables relid) repsets with
      | .ok info => streamed (catalog.relation relid) change info
      | .error _ => none := by
  have hends := ends_changeFilter repsets slotGroup change honly hown
  have hcatalog : (Plugin.connect catalog repsets slotGroup).catalog = catalog := rfl
  unfold Ends at hends
  unfold Plugin.delivers
  rw [hcatalog]
  cases hfilter : changeFilter c (catalog.relation relid) change
    (.connect catalog repsets slotGroup) with
  | ok filtered s' =>
    rw [hfilter] at hends
    obtain ⟨info, hinfo, rfl⟩ := hends
    rw [hinfo]
    dsimp only [streamed]
    cases allowsAction info.toActions change && passesFilters info.rowFilter change with
    | false | true => rfl
  | error e s' =>
    rw [hfilter] at hends
    rw [show combination _ _ _ = Except.error e from hends]

end Stream

/-! ## Column lists and row filters -/

def Covers (rel : Relation) (attnames : List CString) : Prop :=
  attnames = [] ∨ ∀ att ∈ rel.live none, att.attnum ∈ attnames.map (attNum rel.desc)

def AllPass (pairs : List (RepSetTable × RepSet)) (row : Deformed) : Prop :=
  ∀ p ∈ pairs, (p.1.rowFilter.all fun rowFilter => rowFilter row == some true) = true
  deriving Decidable

theorem mem_live {attList : Option (List Nat)} :
    att ∈ rel.live attList ↔
      att ∈ rel.live none ∧ ∀ attnums, attList = some attnums → att.attnum ∈ attnums := by
  unfold Relation.live Attribute.isLive
  cases attList with
  | none => simp
  | some =>
    simp only [mem_filter, Bool.and_eq_true, all_none, all_some, and_true,
      contains_iff_mem, some.injEq, forall_eq', and_assoc]

theorem bitmapset_eq_some {attnums' : List Nat} :
    bitmapset attnums = some attnums' ↔ attnums ≠ [] ∧ attnums = attnums' := by
  cases attnums with
  | nil | cons => simp [bitmapset]

theorem mem_live_bitmapset :
    att ∈ rel.live (bitmapset (attnames.map (attNum rel.desc))) ↔
      att ∈ rel.live none ∧ (attnames ≠ [] → att.attnum ∈ attnames.map (attNum rel.desc)) := by
  rw [mem_live]
  refine and_congr_right fun _ => ⟨fun h hne => h _ (bitmapset_eq_some.2 ⟨by simpa using hne, rfl⟩), ?_⟩
  intro h attnums hattnums
  obtain ⟨hne, rfl⟩ := bitmapset_eq_some.1 hattnums
  exact h (by simpa using hne)

theorem live_bitmapset_eq_iff :
    rel.live (bitmapset (attnames.map (attNum rel.desc))) = rel.live none ↔ Covers rel attnames := by
  have hfilter : ∀ attList : Option (List Nat), rel.live attList =
      (rel.live none).filter fun att => attList.all (·.contains att.attnum) := by
    intro attList
    unfold Relation.live Attribute.isLive
    rw [List.filter_filter]
    congr 1
    funext att
    cases attList <;> simp [Bool.and_comm]
  rw [hfilter, filter_eq_self]
  unfold Covers
  cases attnames with
  | nil | cons => simp [bitmapset]

theorem passesFilters_eq_true {filters : List RowFilter} (hrow : change.row = some row) :
    passesFilters filters change = true ↔ ∀ rowFilter ∈ filters, rowFilter row = some true := by
  unfold passesFilters
  rw [hrow]
  cases filters with
  | nil | cons => simp

theorem Change.exists_row (h : change.isSendable = true) : ∃ row, change.row = some row := by
  cases change with
  | insert newtuple | update _ newtuple => exact ⟨newtuple, rfl⟩
  | delete oldtuple =>
    cases oldtuple with
    | none => cases h
    | some oldtuple => exact ⟨oldtuple, rfl⟩

theorem forall_mem_rowFilter :
    (∀ rowFilter ∈ (unite pairs attnums).rowFilter, rowFilter row = some true) ↔ AllPass pairs row := by
  unfold unite AllPass
  simp only [mem_filterMap]
  constructor
  · intro h p hp
    cases hf : p.1.rowFilter with
    | none => rfl
    | some f => exact beq_iff_eq.2 (h f ⟨p, hp, hf⟩)
  · rintro h f ⟨p, hp, hf⟩
    have hp := h p hp
    rw [hf] at hp
    exact beq_iff_eq.1 hp

theorem allowsAction_unite (pairs : List (RepSetTable × RepSet)) (attnums : List Nat)
    (change : Change) : allowsAction (unite pairs attnums).toActions change =
      pairs.any fun p => allowsAction p.2.toActions change := by
  cases change <;> rfl

section Streamed

variable {c : Connection} {slotGroup : Option SlotGroup} {columns : List Attribute}

theorem delivers_eq_some_iff (honly : c.replicateOnlyTable = none)
    (hown : relid ≠ catalog.queueTableOid ∧ relid ≠ catalog.replicationSetRelOid) :
    (Plugin.connect catalog repsets slotGroup).delivers c relid change = some columns ↔
      change.isSendable = true ∧
      NoneGenerated (catalog.relation relid).desc
        (listedColumns (joined (catalog.repsetTables relid) repsets)) ∧
      (∃ p ∈ joined (catalog.repsetTables relid) repsets, allowsAction p.2.toActions change = true) ∧
      (∀ row, change.row = some row → AllPass (joined (catalog.repsetTables relid) repsets) row) ∧
      columns = (catalog.relation relid).live (bitmapset ((listedColumns
        (joined (catalog.repsetTables relid) repsets)).map (attNum (catalog.relation relid).desc))) := by
  rw [delivers_connect repsets slotGroup change honly hown]
  constructor
  · intro h
    cases hinfo : combination (catalog.relation relid).desc (catalog.repsetTables relid) repsets with
    | error =>
      rw [hinfo] at h
      cases h
    | ok =>
      rw [hinfo] at h
      obtain ⟨hnone, rfl⟩ := combination_ok_iff.1 hinfo
      dsimp only [streamed] at h
      split at h
      · rename_i hpass
        cases h
        simp only [Bool.and_eq_true, allowsAction_unite, List.any_eq_true] at hpass
        refine ⟨hpass.2, hnone, hpass.1.1, fun row hrow => ?_, rfl⟩
        exact forall_mem_rowFilter.1 ((passesFilters_eq_true hrow).1 hpass.1.2)
      · cases h
  · rintro ⟨hsendable, hnone, hallows, hpass, rfl⟩
    rw [combination_ok_iff.2 ⟨hnone, rfl⟩]
    obtain ⟨row, hrow⟩ := Change.exists_row hsendable
    have hfilters : ∀ attnums, passesFilters
        (unite (joined (catalog.repsetTables relid) repsets) attnums).rowFilter change = true :=
      fun _ => (passesFilters_eq_true hrow).2 (forall_mem_rowFilter.2 (hpass row hrow))
    dsimp only [streamed]
    rw [allowsAction_unite, any_eq_true.2 hallows, hfilters, hsendable]
    rfl

end Streamed

/-! ## A further replication set -/

theorem mem_joined_append :
    p ∈ joined rows (repsets ++ repsets') ↔ p ∈ joined rows repsets ∨ p ∈ joined rows repsets' := by
  simp only [mem_joined, mem_append]
  tauto

theorem mem_listedColumns_append {attname : CString} :
    attname ∈ listedColumns (joined rows (repsets ++ repsets')) ↔
      attname ∈ listedColumns (joined rows repsets) ∨ attname ∈ listedColumns (joined rows repsets') := by
  simp only [listedColumns, mem_flatMap, mem_joined_append, or_and_right, exists_or]

theorem live_subset_iff (rel : Relation) {attnames' more : List CString}
    (hmem : ∀ attname, attname ∈ attnames' ↔ attname ∈ attnames ∨ attname ∈ more) :
    rel.live (bitmapset (attnames.map (attNum rel.desc))) ⊆
        rel.live (bitmapset (attnames'.map (attNum rel.desc))) ↔
      (attnames = [] → Covers rel more) := by
  simp only [subset_def, mem_live_bitmapset]
  constructor
  · rintro h rfl
    refine or_iff_not_imp_left.2 fun hmore att hatt => ?_
    obtain ⟨attname, hattname⟩ := exists_mem_of_ne_nil more hmore
    have hlisted := (h ⟨hatt, absurd rfl⟩).2
      (ne_nil_of_mem ((hmem attname).2 (.inr hattname)))
    obtain ⟨n, hn, hnum⟩ := mem_map.1 hlisted
    exact mem_map.2 ⟨n, ((hmem n).1 hn).resolve_left not_mem_nil, hnum⟩
  · rintro h att ⟨hatt, hlisted⟩
    refine ⟨hatt, fun hne => ?_⟩
    by_cases hnil : attnames = []
    · -- nothing was listed: what is listed now must be everything
      rcases h hnil with hmore | hall
      · obtain ⟨attname, hattname⟩ := exists_mem_of_ne_nil attnames' hne
        have hcases := (hmem attname).1 hattname
        rw [hnil, hmore] at hcases
        exact absurd hcases (by simp)
      · obtain ⟨n, hn, hnum⟩ := mem_map.1 (hall att hatt)
        exact mem_map.2 ⟨n, (hmem n).2 (.inr hn), hnum⟩
    · obtain ⟨n, hn, hnum⟩ := mem_map.1 (hlisted hnil)
      exact mem_map.2 ⟨n, (hmem n).2 (.inl hn), hnum⟩

/-- What a further set has to be like: the row passes its filter, if it has one, and if no other set
lists columns, it lists none or all. A generated column in its list would be an error. -/
def FurtherSetCondition (rel : Relation) (rows : List RepSetTable) (repsets : List RepSet)
    (further : RepSet) (change : Change) : Prop :=
  NoneGenerated rel.desc (listedColumns (joined rows [further])) ∧
    (∀ row, change.row = some row → AllPass (joined rows [further]) row) ∧
    (listedColumns (joined rows repsets) = [] → Covers rel (listedColumns (joined rows [further])))

/-- **When a further replication set takes nothing away.** -/
theorem further_set_iff (c : Connection) (catalog : Catalog) (slotGroup : Option SlotGroup)
    (relid : UInt32) (repsets : List RepSet) (further : RepSet) (change : Change)
    (columns : List Attribute) (hin : ∃ t ∈ catalog.repsetTables relid, t.setid = further.id)
    (hsent : (Plugin.connect catalog repsets slotGroup).delivers
      { c with replicateOnlyTable := none } relid change = some columns) :
    (∃ columns', (Plugin.connect catalog (repsets ++ [further]) slotGroup).delivers
        { c with replicateOnlyTable := none } relid change = some columns' ∧ columns ⊆ columns') ↔
      FurtherSetCondition (catalog.relation relid) (catalog.repsetTables relid) repsets further
        change := by
  obtain ⟨t, ht, -⟩ := hin
  have hown := ne_own_of_mem ht
  obtain ⟨hsendable, hnone, ⟨p, hp, hallows⟩, hpass, rfl⟩ :=
    (delivers_eq_some_iff rfl hown).1 hsent
  have hmem : ∀ attname,
      attname ∈ listedColumns (joined (catalog.repsetTables relid) (repsets ++ [further])) ↔
        attname ∈ listedColumns (joined (catalog.repsetTables relid) repsets) ∨
          attname ∈ listedColumns (joined (catalog.repsetTables relid) [further]) :=
    fun _ => mem_listedColumns_append
  have hcolumns := live_subset_iff (catalog.relation relid) hmem
  constructor
  · rintro ⟨columns', hsent', hsubset⟩
    obtain ⟨-, hnone', -, hpass', rfl⟩ := (delivers_eq_some_iff rfl hown).1 hsent'
    refine ⟨fun attname h => hnone' attname ((hmem attname).2 (.inr h)), fun row hrow q hq => ?_,
      hcolumns.1 hsubset⟩
    exact hpass' row hrow q (mem_joined_append.2 (.inr hq))
  · rintro ⟨hnone', hpass', hcovers⟩
    refine ⟨_, (delivers_eq_some_iff rfl hown).2 ⟨hsendable, fun attname h => ?_, ?_,
      fun row hrow q hq => ?_, rfl⟩, hcolumns.2 hcovers⟩
    · exact ((hmem attname).1 h).elim (hnone attname) (hnone' attname)
    · exact ⟨p, mem_joined_append.2 (.inl hp), hallows⟩
    · exact (mem_joined_append.1 hq).elim (hpass row hrow q) (hpass' row hrow q)

/-! ## Three ways of delivery -/

/-- The copy, the catch-up of the single table and the stream of the subscription deliver the same
of an inserted row. -/
def PathsAgree (c : Connection) (catalog : Catalog) (slotGroup : Option SlotGroup) (relid : UInt32)
    (table : CString × CString) (partitioned : Bool) (repsets : List RepSet) (row : Deformed) : Prop :=
  copyDelivers catalog relid partitioned repsets row =
      (Plugin.connect catalog [] slotGroup).delivers
        { c with replicateOnlyTable := some table } relid (.insert row) ∧
    (Plugin.connect catalog [] slotGroup).delivers
        { c with replicateOnlyTable := some table } relid (.insert row) =
      (Plugin.connect catalog repsets slotGroup).delivers
        { c with replicateOnlyTable := none } relid (.insert row)

/-- What the sets have to be like: the row passes every filter, and the column lists leave nothing
out and name no generated column. The last part is about tables with no column to send at all, where
`*` stands for the generated ones. -/
def DeliveryCondition (rel : Relation) (rows : List RepSetTable) (partitioned : Bool)
    (repsets : List RepSet) (row : Deformed) : Prop :=
  NoneGenerated rel.desc (listedColumns (joined rows repsets)) ∧
    AllPass (joined rows repsets) row ∧
    Covers rel (listedColumns (joined rows repsets)) ∧
    (rel.live none = [] → allColumns rel ≠ [] →
      partitioned = false ∧ ∀ p ∈ joined rows repsets, p.1.rowFilter = none)

theorem catchUp_delivers (c : Connection) (catalog : Catalog) (slotGroup : Option SlotGroup)
    {table : CString × CString} (row : Deformed)
    (htable : c.isTable table (catalog.relation relid) = true) :
    (Plugin.connect catalog [] slotGroup).delivers { c with replicateOnlyTable := some table } relid
      (.insert row) = some ((catalog.relation relid).live none) := by
  have hfilter : changeFilter { c with replicateOnlyTable := some table } (catalog.relation relid)
      (.insert row) (.connect catalog [] slotGroup) =
        .ok (if c.isTable table (catalog.relation relid) then some none else none)
          (.connect catalog [] slotGroup) := rfl
  unfold Plugin.delivers
  rw [show (Plugin.connect catalog [] slotGroup).catalog = catalog from rfl, hfilter, if_pos htable]
  rfl

theorem copyTableData_of_allPass (h : AllPass pairs row) :
    copyTableData rel partitioned (unite pairs attnums) row =
      some (copyColumns rel partitioned (showRepsetTableInfo rel (unite pairs attnums))) := by
  have hfilters : ∀ rowFilter ∈ (unite pairs attnums).rowFilter, rowFilter row = some true :=
    forall_mem_rowFilter.2 h
  unfold copyTableData showRepsetTableInfo tableDataFiltered
  cases hlist : (unite pairs attnums).rowFilter with
  | nil => rfl
  | cons f =>
    have hf : f row = some true := hfilters f (by rw [hlist]; exact mem_cons_self)
    simp [hf]

theorem copyDelivers_of_allPass (hnone : NoneGenerated (catalog.relation relid).desc
      (listedColumns (joined (catalog.repsetTables relid) repsets)))
    (h : AllPass (joined (catalog.repsetTables relid) repsets) row) :
    copyDelivers catalog relid partitioned repsets row =
      some (copyColumns (catalog.relation relid) partitioned (showRepsetTableInfo (catalog.relation relid)
        (unite (joined (catalog.repsetTables relid) repsets)
          ((listedColumns (joined (catalog.repsetTables relid) repsets)).map
            (attNum (catalog.relation relid).desc))))) := by
  unfold copyDelivers
  dsimp only
  rw [fillEntry_eq_combination, combination_ok_iff.2 ⟨hnone, rfl⟩]
  exact copyTableData_of_allPass h

theorem copyColumns_eq_iff {info : TableRepInfo} (hlive : rel.live info.attList = rel.live none) :
    copyColumns rel partitioned (showRepsetTableInfo rel info) = rel.live none ↔
      (rel.live none = [] → allColumns rel ≠ [] → partitioned = false ∧ info.rowFilter = []) := by
  unfold copyColumns showRepsetTableInfo
  dsimp only
  rw [hlive]
  cases hnone : rel.live none with
  | cons => simp
  | nil =>
    cases partitioned with
    | true => simp
    | false =>
      cases info.rowFilter with
      | nil | cons => simp

/-- **When the three ways deliver the same.** -/
theorem paths_agree_iff (c : Connection) (catalog : Catalog) (slotGroup : Option SlotGroup)
    (relid : UInt32) (table : CString × CString) (partitioned : Bool) (repsets : List RepSet)
    (row : Deformed) (htable : c.isTable table (catalog.relation relid) = true) (hne : repsets ≠ [])
    (hin : ∀ rs ∈ repsets, ∃ t ∈ catalog.repsetTables relid, t.setid = rs.id)
    (hinsert : ∀ rs ∈ repsets, rs.replicateInsert = true) :
    PathsAgree c catalog slotGroup relid table partitioned repsets row ↔
      DeliveryCondition (catalog.relation relid) (catalog.repsetTables relid) partitioned repsets
        row := by
  obtain ⟨rs, hrs⟩ := exists_mem_of_ne_nil repsets hne
  obtain ⟨t, ht, hid⟩ := hin rs hrs
  have hown := ne_own_of_mem ht
  have hpair : (t, rs) ∈ joined (catalog.repsetTables relid) repsets := mem_joined.2 ⟨ht, hrs, hid⟩
  have hfilters : ∀ attnums,
      (unite (joined (catalog.repsetTables relid) repsets) attnums).rowFilter = [] ↔
        ∀ p ∈ joined (catalog.repsetTables relid) repsets, p.1.rowFilter = none :=
    fun _ => filterMap_eq_nil_iff
  unfold PathsAgree
  rw [catchUp_delivers c catalog slotGroup row htable]
  constructor
  · rintro ⟨hcopy, hmain⟩
    obtain ⟨-, hnone, -, hpass, hcolumns⟩ := (delivers_eq_some_iff rfl hown).1 hmain.symm
    have hall := hpass row rfl
    refine ⟨hnone, hall, live_bitmapset_eq_iff.1 hcolumns.symm, ?_⟩
    rw [copyDelivers_of_allPass hnone hall] at hcopy
    have hlast := (copyColumns_eq_iff hcolumns.symm).1 (some.inj hcopy)
    rw [hfilters] at hlast
    exact hlast
  · rintro ⟨hnone, hall, hcovers, hlast⟩
    have hlive := live_bitmapset_eq_iff.2 hcovers
    have hmain : (Plugin.connect catalog repsets slotGroup).delivers
        { c with replicateOnlyTable := none } relid (.insert row) =
          some ((catalog.relation relid).live none) := by
      refine (delivers_eq_some_iff rfl hown).2 ⟨rfl, hnone, ⟨(t, rs), hpair, hinsert rs hrs⟩,
        fun row' hrow' => ?_, hlive.symm⟩
      cases hrow'
      exact hall
    refine ⟨?_, hmain.symm⟩
    rw [copyDelivers_of_allPass hnone hall]
    refine congrArg some ((copyColumns_eq_iff hlive).2 ?_)
    rw [hfilters]
    exact hlast

section Sample

/-- **Satisfiable.** Set 3 takes nothing away from set 1. -/
theorem further_set_iff_sample :
    ∃ columns columns', (Plugin.connect filteredSets [fullSet 1] none).delivers (sampleConnection none)
        7 (.insert sampleRow) = some columns ∧
      (Plugin.connect filteredSets [fullSet 1, fullSet 3] none).delivers (sampleConnection none)
        7 (.insert sampleRow) = some columns' ∧ columns ⊆ columns' := by
  have hcondition : FurtherSetCondition (filteredSets.relation 7) (filteredSets.repsetTables 7)
      [fullSet 1] (fullSet 3) (.insert sampleRow) := by
    refine ⟨by decide, fun row hrow => ?_, fun _ => .inl rfl⟩
    cases hrow
    decide
  obtain ⟨columns', hsent, hsubset⟩ := (further_set_iff (sampleConnection none) filteredSets none 7
    [fullSet 1] (fullSet 3) (.insert sampleRow) _ ⟨_, .tail _ (.tail _ (.head _)), rfl⟩ rfl).2 hcondition
  exact ⟨_, columns', rfl, hsent, hsubset⟩

/-- **A set that takes rows and columns away.** With set 1 the row is sent with both columns; a
second set with a row filter takes the row away, and one with a column list the column `b`. -/
theorem further_set_takes_away :
    (Plugin.connect filteredSets [fullSet 1] none).delivers (sampleConnection none) 7
        (.insert sampleRow) ≠ none ∧
      (Plugin.connect filteredSets [fullSet 1, fullSet 2] none).delivers (sampleConnection none) 7
        (.insert sampleRow) = none ∧
      ((Plugin.connect listedSets [fullSet 1] none).delivers (sampleConnection none) 7
        (.insert sampleRow)).map List.length = some 2 ∧
      ((Plugin.connect listedSets [fullSet 1, fullSet 2] none).delivers (sampleConnection none) 7
        (.insert sampleRow)).map List.length = some 1 := by
  decide

/-- **Satisfiable.** Sets 1 and 3 leave nothing out. -/
theorem paths_agree_iff_sample :
    PathsAgree (sampleConnection none) filteredSets none 7 sampleName false [fullSet 1, fullSet 3]
      sampleRow :=
  (paths_agree_iff (sampleConnection none) filteredSets none 7 sampleName false
    [fullSet 1, fullSet 3] sampleRow (by decide) (by decide)
    (forall_mem_cons.2 ⟨⟨_, .head _, rfl⟩, forall_mem_cons.2
      ⟨⟨_, .tail _ (.tail _ (.head _)), rfl⟩, nofun⟩⟩)
    (by decide)).2 ⟨by decide, by decide, .inl rfl, fun h => absurd h (by decide)⟩

/-- **Three ways, two answers.** In sets 2 and 3 the table has two filters, of which the row passes
one: it is copied and caught up with, but not streamed. -/
theorem paths_disagree :
    ¬ PathsAgree (sampleConnection none) filteredSets none 7 sampleName false [fullSet 2, fullSet 3]
        sampleRow ∧
      copyDelivers filteredSets 7 false [fullSet 2, fullSet 3] sampleRow ≠ none ∧
      (Plugin.connect filteredSets [] none).delivers (sampleConnection (some sampleName)) 7
        (.insert sampleRow) ≠ none ∧
      (Plugin.connect filteredSets [fullSet 2, fullSet 3] none).delivers (sampleConnection none) 7
        (.insert sampleRow) = none := by
  unfold PathsAgree
  decide

end Sample

end Spock.Output
