import Mathlib.Logic.Function.Basic
import Spock.AutoDdl.Tables

/-!
# Spock — which replication set a table is put in

After a statement has been executed and queued, `add_ddl_to_repset` puts the table, and the
partitions of a partitioned one, into `default` or `default_insert_only`. It looks at the indexes
that the table has now and, for ALTER TABLE, at what the subcommands could have done to them; the
sets that the table is in are the memory of everything before.

* **`managed_of_create`**, **`managed_of_alter`** — when the policy leaves a table so.
-/

namespace Spock.AutoDdl

open List Option

/-! ## The policy -/

/-- The sets that every node has, and those that its users have made. -/
inductive SetName where
  | default
  | defaultInsertOnly
  | ddlSql
  | custom (n : Nat)
  deriving DecidableEq

/-- `SpockRepSet`, as far as it has to do with the replica identity. -/
structure RepSetFlags where
  replicateUpdate : Bool
  replicateDelete : Bool
  deriving DecidableEq

inductive AlterPkRiChange where
  | unchanged
  | added
  | dropped
  deriving DecidableEq

/-- `classify_alter_pkri_change`. -/
def classifyAlterPkRiChange (cmds : List AlterTableCmd) (t : Table) : AlterPkRiChange :=
  let postHasPkOrRi := t.pkindexValid || t.replidindexValid || t.relreplident == .full
  if postHasPkOrRi && cmds.any (·.addsPkri) then .added
  else if !postHasPkOrRi && cmds.any (·.dropsPkri) then .dropped
  else .unchanged

section Policy

-- the flags of the users' own sets
variable (custom : Nat → RepSetFlags)

/-- The flags as `spock_create_node` sets them. -/
def SetName.flags : SetName → RepSetFlags
  | .default => ⟨true, true⟩
  | .defaultInsertOnly => ⟨false, false⟩
  | .ddlSql => ⟨false, false⟩
  | .custom n => custom n

def SetName.updDel (set : SetName) : Bool :=
  (set.flags custom).replicateUpdate || (set.flags custom).replicateDelete

/-- `classify_repset_membership`: `in_any_upd_del` and `in_any_custom`. -/
def classifyRepsetMembership (sets : List SetName) : Bool × Bool :=
  (sets.any (·.updDel custom), sets.any fun set => !(set == .default || set == .defaultInsertOnly))

/-- `remove_table_from_repsets`. -/
def removeTableFromRepsets (sets : List SetName) (onlyForUpdate : Bool) : List SetName :=
  if onlyForUpdate then sets.filter (fun set => !set.updDel custom) else []

/-- `replication_set_add_table`; `none` for the errors that depend on the table. The tables that
`EnsureRelationNotIgnored` refuses are not among those of the model. -/
def replicationSetAddTable (t : Table) (set : SetName) (sets : List SetName) : Option (List SetName) :=
  if !t.needsWal then none
  else if !t.replidindexValid && set.updDel custom then none
  else some (set :: sets)

/-- The table is added to the set unless it is there, or the set needs an index that it lacks. -/
def addIfAllowed (t : Table) (repset : SetName) (sets : List SetName) : Option (List SetName) :=
  if !t.replidindexValid && repset.updDel custom then some sets
  else if repset ∈ sets then some sets
  else replicationSetAddTable custom t repset sets

/-- The end of `apply_repset_policy_for_reloid`: the choice between the two default sets. -/
def routeTable (t : Table) (sets : List SetName) : Option (List SetName) :=
  if t.pkindexValid || t.replidindexValid then
    addIfAllowed custom t .default (removeTableFromRepsets custom sets false)
  else addIfAllowed custom t .defaultInsertOnly (removeTableFromRepsets custom sets true)

/-- `apply_repset_policy_for_reloid`, with the subcommands of an ALTER TABLE. -/
def applyRepsetPolicy (t : Table) (atstmt : Option (List AlterTableCmd)) (sets : List SetName) :
    Option (List SetName) :=
  if !t.needsWal then some (removeTableFromRepsets custom sets false)
  else
    match atstmt with
    | none => routeTable custom t sets
    | some cmds =>
      let (inAnyUpdDel, inAnyCustom) := classifyRepsetMembership custom sets
      match classifyAlterPkRiChange cmds t with
      | .unchanged => some sets
      | .dropped => if !inAnyUpdDel && inAnyCustom then some sets else routeTable custom t sets
      | .added => if inAnyCustom then some sets else routeTable custom t sets

/-! ## The statements -/

/-- The tables, and the sets of the local node that each is in. -/
structure Db where
  tables : List Table
  members : Nat → List SetName

def Db.start : Db where
  tables := []
  members _ := []

inductive Statement where
  | createTable (relid : Nat) (partitionOf : Option Nat) (isPartitioned needsWal : Bool)
    (keys : List Index)
  /-- CREATE TABLE IF NOT EXISTS for a table that exists. -/
  | createIfNotExists (relid : Nat)
  | alterTable (relid : Nat) (cmds : List AlterTableCmd)

/-- The tables that `add_ddl_to_repset` comes to. -/
def reloids (tables : List Table) (t : Table) : List Table :=
  if t.isPartitioned then tables.filter (·.inheritsFrom t) else [t]

/-- The loop of `add_ddl_to_repset`. -/
def policies (atstmt : Option (List AlterTableCmd)) (rs : List Table) (members : Nat → List SetName) :
    Option (Nat → List SetName) :=
  rs.foldlM (fun m r => (applyRepsetPolicy custom r atstmt (m r.relid)).map (Function.update m r.relid))
    members

/-- `add_ddl_to_repset`, for a statement that has left these tables. -/
def addDdlToRepset (atstmt : Option (List AlterTableCmd)) (tables : List Table) (t : Table)
    (members : Nat → List SetName) : Option Db :=
  (policies custom atstmt (reloids tables t) members).map fun m => ⟨tables, m⟩

/-- A table with a new id; the indexes of the table that it is a partition of come with it. -/
def newTable (relid : Nat) (parent : Option Table) (isPartitioned needsWal : Bool) (keys : List Index) :
    Table where
  relid := relid
  isPartitioned := isPartitioned
  ancestors := parent.elim [] fun p => p.relid :: p.ancestors
  needsWal := needsWal
  indexes := (parent.elim [] (·.indexes) ++ keys).map fun ix => { ix with indisreplident := false }
  relreplident := .default

/-- The tables after an ALTER TABLE that has made `t` into `t'`. -/
def alterTables (tables : List Table) (t t' : Table) (cmds : List AlterTableCmd) : List Table :=
  tables.map fun r =>
    if r.relid = t.relid then t'
    else if t.isPartitioned && r.ancestors.contains t.relid then r.alterPartition cmds
    else r

/-- A statement is executed and then handled; with an error in either it is rolled back. -/
def step (db : Db) : Statement → Option Db
  | .createTable relid partitionOf isPartitioned needsWal keys =>
    let parent := partitionOf.bind fun p => db.tables.find? fun t => t.relid = p && t.isPartitioned
    let t := newTable relid parent isPartitioned needsWal keys
    if (∀ r ∈ db.tables, r.relid ≠ relid ∧ relid ∉ r.ancestors) ∧ parent.isSome = partitionOf.isSome ∧
        (t.indexes.filter (·.indisprimary)).length ≤ 1 then
      addDdlToRepset custom none (db.tables ++ [t]) t db.members
    else none
  | .createIfNotExists relid =>
    (db.tables.find? fun t => t.relid = relid).bind fun t =>
      addDdlToRepset custom none db.tables t db.members
  | .alterTable relid cmds =>
    (db.tables.find? fun t => t.relid = relid).bind fun t => (t.alter cmds).bind fun t' =>
      addDdlToRepset custom (some cmds) (alterTables db.tables t t' cmds) t' db.members

end Policy

/-! ## What the policy leaves -/

section Managed

variable (custom : Nat → RepSetFlags)

/-- A permanent table is in a set, and in one that replicates UPDATE or DELETE only with a replica
identity index. -/
def Managed (t : Table) (sets : List SetName) : Prop :=
  t.needsWal = true → sets ≠ [] ∧ ∀ set ∈ sets, set.updDel custom = true → t.replidindexValid = true

def Builtin (sets : List SetName) : Prop := ∀ set ∈ sets, set = .default ∨ set = .defaultInsertOnly

/-- The primary key, if there is one, is not cut off from being the replica identity. -/
def PkIdentifies (t : Table) : Prop := t.pkindexValid = true → t.replidindexValid = true

variable {custom} {t : Table} {sets sets' : List SetName}

theorem routeTable_of_identity (hri : t.replidindexValid = true) (hwal : t.needsWal = true) :
    routeTable custom t sets = some [.default] := by
  simp [routeTable, addIfAllowed, hri, removeTableFromRepsets, replicationSetAddTable, hwal]

/-- Without an index of either kind the sets that need one are left, and the table is in
`default_insert_only`. -/
theorem routeTable_of_none (hpk : t.pkindexValid = false) (hri : t.replidindexValid = false)
    (hwal : t.needsWal = true) (h : routeTable custom t sets = some sets') :
    .defaultInsertOnly ∈ sets' ∧
      ∀ set ∈ sets', set.updDel custom = false ∧ (set ∈ sets ∨ set = .defaultInsertOnly) := by
  have hinsert : SetName.updDel custom .defaultInsertOnly = false := rfl
  have hkept : ∀ set ∈ removeTableFromRepsets custom sets true,
      set.updDel custom = false ∧ set ∈ sets := by
    intro set hset
    obtain ⟨hmem, hflag⟩ := mem_filter.mp hset
    exact ⟨by simpa using hflag, hmem⟩
  simp only [routeTable, addIfAllowed, hpk, hri, Bool.or_self, Bool.false_eq_true, ↓reduceIte,
    Bool.not_false, Bool.true_and, hinsert] at h
  split at h
  · next hin =>
    cases h
    exact ⟨hin, fun set hset => ⟨(hkept set hset).1, .inl (hkept set hset).2⟩⟩
  · simp only [replicationSetAddTable, hwal, hri, hinsert, Bool.not_true, Bool.false_eq_true,
      ↓reduceIte, Bool.and_false, some.injEq] at h
    subst h
    refine ⟨mem_cons_self, fun set hset => ?_⟩
    rcases mem_cons.mp hset with rfl | hset
    · exact ⟨hinsert, .inr rfl⟩
    · exact ⟨(hkept set hset).1, .inl (hkept set hset).2⟩

/-- **The table is routed rightly**, whatever it was in. -/
theorem managed_routeTable (hpk : PkIdentifies t) (hbuiltin : Builtin sets) (hwal : t.needsWal = true)
    (h : routeTable custom t sets = some sets') : Managed custom t sets' ∧ Builtin sets' := by
  cases hri : t.replidindexValid with
  | true =>
    rw [routeTable_of_identity hri hwal] at h
    cases h
    exact ⟨fun _ => ⟨cons_ne_nil _ _, fun _ _ _ => hri⟩, by simp [Builtin]⟩
  | false =>
    have hpk' : t.pkindexValid = false :=
      Bool.eq_false_iff.mpr fun hvalid => by simp [hpk hvalid] at hri
    obtain ⟨hin, hrest⟩ := routeTable_of_none hpk' hri hwal h
    refine ⟨fun _ => ⟨ne_nil_of_mem hin, fun set hset hflag => ?_⟩, fun set hset => ?_⟩
    · exact absurd hflag (by simp [(hrest set hset).1])
    · rcases (hrest set hset).2 with hold | rfl
      · exact hbuiltin set hold
      · exact .inr rfl

theorem inAnyCustom_of_builtin (custom : Nat → RepSetFlags) (h : Builtin sets) :
    (classifyRepsetMembership custom sets).2 = false := by
  refine any_eq_false.mpr fun set hset => ?_
  rcases h set hset with rfl | rfl <;> simp

theorem managed_of_create (hpk : t.needsWal = true → PkIdentifies t) (hbuiltin : Builtin sets)
    (h : applyRepsetPolicy custom t none sets = some sets') : Managed custom t sets' ∧ Builtin sets' := by
  unfold applyRepsetPolicy at h
  split at h
  · next hwal =>
    cases h
    exact ⟨fun hneeds => by simp [hneeds] at hwal, nofun⟩
  · next hwal =>
    have hwal : t.needsWal = true := by simpa using hwal
    exact managed_routeTable (hpk hwal) hbuiltin hwal h

theorem managed_of_alter {cmds : List AlterTableCmd} (hpk : t.needsWal = true → PkIdentifies t)
    (hbuiltin : Builtin sets)
    (hunchanged : classifyAlterPkRiChange cmds t = .unchanged → Managed custom t sets)
    (h : applyRepsetPolicy custom t (some cmds) sets = some sets') :
    Managed custom t sets' ∧ Builtin sets' := by
  have hcustom := inAnyCustom_of_builtin custom hbuiltin
  unfold applyRepsetPolicy at h
  split at h
  · next hwal =>
    cases h
    exact ⟨fun hneeds => by simp [hneeds] at hwal, nofun⟩
  · next hwal =>
    have hwal : t.needsWal = true := by simpa using hwal
    simp only [hcustom, Bool.and_false, Bool.false_eq_true, ↓reduceIte] at h
    split at h
    · next hclass =>
      cases h
      exact ⟨hunchanged hclass, hbuiltin⟩
    · exact managed_routeTable (hpk hwal) hbuiltin hwal h
    · exact managed_routeTable (hpk hwal) hbuiltin hwal h

end Managed

end Spock.AutoDdl
