import Mathlib.Data.List.Basic

/-!
# Spock — tables, their replica identity and ALTER TABLE

What the automatic management of replication sets sees of a table: whether it is permanent, the
indexes that can identify a row, and the replica identity that has been chosen. An ALTER TABLE is a
list of subcommands, which PostgreSQL sorts into passes and executes on the table and, those that
change the definition, on its partitions.
-/

namespace Spock.AutoDdl

open List Option

/-- `relreplident`. -/
inductive ReplIdent where
  | default
  | index
  | full
  | nothing
  deriving DecidableEq

/-- A unique index that is immediate, valid, without predicate and on columns that are not null. The
index of a partition goes by the name of the partitioned index that it belongs to. -/
structure Index where
  name : Nat
  columns : List Nat
  indisprimary : Bool
  indisreplident : Bool
  deriving DecidableEq

structure Table where
  relid : Nat
  isPartitioned : Bool
  /-- The partitioned tables that this is a partition of, directly or not. -/
  ancestors : List Nat
  /-- `RelationNeedsWAL`: neither unlogged nor temporary. -/
  needsWal : Bool
  indexes : List Index
  relreplident : ReplIdent
  deriving DecidableEq

namespace Table

/-- `OidIsValid(rd_pkindex)`. -/
def pkindexValid (t : Table) : Bool := t.indexes.any (·.indisprimary)

/-- `OidIsValid(rd_replidindex)`, after `RelationGetIndexList`. -/
def replidindexValid (t : Table) : Bool :=
  match t.relreplident with
  | .default => t.pkindexValid
  | .index => t.indexes.any (·.indisreplident)
  | .full => false
  | .nothing => false

/-- The table is `p` or a partition of it. -/
def inheritsFrom (t p : Table) : Bool := t.relid == p.relid || t.ancestors.contains p.relid

end Table

/-! ## ALTER TABLE -/

/-- `ReplicaIdentityStmt`. -/
inductive IdentityStmt where
  | default
  | index (name : Nat)
  | full
  | nothing
  deriving DecidableEq

/-- `AlterTableCmd`. -/
inductive AlterTableCmd where
  /-- PRIMARY KEY or UNIQUE. -/
  | addConstraint (name : Nat) (columns : List Nat) (primary : Bool)
  /-- PRIMARY KEY or UNIQUE, with an index that is there. -/
  | addIndexConstraint (name : Nat) (primary : Bool)
  /-- With the name of its index if the column is declared PRIMARY KEY. -/
  | addColumn (column : Nat) (primary : Option Nat)
  | replicaIdentity (identity : IdentityStmt)
  | dropConstraint (name : Nat)
  | dropColumn (column : Nat)
  | setLogged
  | setUnLogged
  | other
  deriving DecidableEq

/-- `AlterTablePass`, in which the subcommand is executed. -/
def AlterTableCmd.pass : AlterTableCmd → Nat
  | .dropConstraint _ | .dropColumn _ => 0
  | .addColumn _ _ => 1
  | .addConstraint _ _ _ | .addIndexConstraint _ _ => 2
  | .replicaIdentity _ | .setLogged | .setUnLogged | .other => 3

def inPasses (cmds : List AlterTableCmd) : List AlterTableCmd :=
  [0, 1, 2, 3].flatMap fun pass => cmds.filter fun cmd => cmd.pass = pass

theorem mem_inPasses {cmds : List AlterTableCmd} {cmd : AlterTableCmd} :
    cmd ∈ inPasses cmds → cmd ∈ cmds := by
  intro h
  obtain ⟨_, -, hmem⟩ := mem_flatMap.mp h
  exact (mem_filter.mp hmem).1

namespace Table

def addIndex (t : Table) (name : Nat) (columns : List Nat) (primary : Bool) : Option Table :=
  if primary && t.pkindexValid then none
  else some { t with indexes := t.indexes ++ [⟨name, columns, primary, false⟩] }

/-- A constraint with an index that is there; not for a partitioned table. -/
def useIndex (t : Table) (name : Nat) (primary : Bool) : Option Table :=
  if (t.isPartitioned || (primary && t.pkindexValid)) = false ∧ t.indexes.any (·.name == name) then
    some { t with indexes := t.indexes.map fun ix =>
      if ix.name = name then { ix with indisprimary := ix.indisprimary || primary } else ix }
  else none

/-- `relation_mark_replica_identity`: the mark of an index goes to the one that is named, if any. -/
def markReplident (t : Table) (relreplident : ReplIdent) (marked : Option Nat) : Table :=
  { t with
    relreplident := relreplident
    indexes := t.indexes.map fun ix => { ix with indisreplident := marked == some ix.name } }

/-- A subcommand on the table that the statement names; `none` if it raises an error. -/
def exec (t : Table) : AlterTableCmd → Option Table
  | .addConstraint name columns primary => t.addIndex name columns primary
  | .addIndexConstraint name primary => t.useIndex name primary
  | .addColumn _ none => some t
  | .addColumn column (some name) => t.addIndex name [column] true
  | .replicaIdentity .default => some (t.markReplident .default none)
  | .replicaIdentity (.index name) =>
    if t.indexes.any (·.name == name) then some (t.markReplident .index (some name)) else none
  | .replicaIdentity .full => some (t.markReplident .full none)
  | .replicaIdentity .nothing => some (t.markReplident .nothing none)
  | .dropConstraint name => some { t with indexes := t.indexes.filter (·.name ≠ name) }
  | .dropColumn column => some { t with indexes := t.indexes.filter (column ∉ ·.columns) }
  -- a partitioned table has no storage to rewrite
  | .setLogged => some (if t.isPartitioned then t else { t with needsWal := true })
  | .setUnLogged => some (if t.isPartitioned then t else { t with needsWal := false })
  | .other => some t

/-- The index of a partitioned table, on a partition. A primary key that is there becomes part of
the partitioned one. -/
def inheritIndex (t : Table) (name : Nat) (columns : List Nat) (primary : Bool) : Table :=
  if primary && t.pkindexValid then
    { t with indexes := t.indexes.map fun ix => if ix.indisprimary then { ix with name := name } else ix }
  else { t with indexes := t.indexes ++ [⟨name, columns, primary, false⟩] }

/-- A subcommand on a partition of the table that the statement names. The replica identity and the
persistence of a partition are its own. -/
def execPartition (t : Table) : AlterTableCmd → Table
  | .addConstraint name columns primary => t.inheritIndex name columns primary
  | .addColumn column (some name) => t.inheritIndex name [column] true
  | .dropConstraint name => { t with indexes := t.indexes.filter (·.name ≠ name) }
  | .dropColumn column => { t with indexes := t.indexes.filter (column ∉ ·.columns) }
  | .addColumn _ none | .addIndexConstraint _ _ | .replicaIdentity _ | .setLogged | .setUnLogged
  | .other => t

def alter (t : Table) (cmds : List AlterTableCmd) : Option Table := (inPasses cmds).foldlM exec t

def alterPartition (t : Table) (cmds : List AlterTableCmd) : Table :=
  (inPasses cmds).foldl execPartition t

/-! ## What a subcommand can do to the identity -/

/-- UPDATE and DELETE can be sent in some way. -/
def Identifies (t : Table) : Prop := t.replidindexValid = true ∨ t.relreplident = .full

end Table

namespace AlterTableCmd

/-- `has_add_pkri_cmd`. -/
def addsPkri : AlterTableCmd → Bool
  | .addConstraint _ _ primary => primary
  | .addIndexConstraint _ primary => primary
  | .addColumn _ primary => primary.isSome
  | .replicaIdentity .full => true
  | .replicaIdentity (.index _) => true
  | .replicaIdentity .nothing => false
  | .replicaIdentity .default => true
  | .dropConstraint _ | .dropColumn _ | .setLogged | .setUnLogged | .other => false

/-- `has_drop_pkri_candidate`. -/
def dropsPkri : AlterTableCmd → Bool
  | .replicaIdentity .full => false
  | .replicaIdentity (.index _) => false
  | .replicaIdentity .nothing => true
  | .replicaIdentity .default => true
  | .dropConstraint _ | .dropColumn _ => true
  | .addConstraint _ _ _ | .addIndexConstraint _ _ | .addColumn _ _ | .setLogged | .setUnLogged
  | .other => false

end AlterTableCmd

namespace Table

variable {t t' : Table} {cmd : AlterTableCmd}

structure SameTable (t t' : Table) : Prop where
  relid : t'.relid = t.relid
  isPartitioned : t'.isPartitioned = t.isPartitioned
  ancestors : t'.ancestors = t.ancestors

theorem SameTable.refl (t : Table) : SameTable t t := ⟨rfl, rfl, rfl⟩

theorem SameTable.trans {t'' : Table} (h : SameTable t t') (h' : SameTable t' t'') : SameTable t t'' :=
  ⟨h'.relid.trans h.relid, h'.isPartitioned.trans h.isPartitioned, h'.ancestors.trans h.ancestors⟩

/-- Indexes may be added and renamed, and may become primary or not. -/
structure Extends (t t' : Table) : Prop extends SameTable t t' where
  relreplident : t'.relreplident = t.relreplident
  pkindexValid : t.pkindexValid = true → t'.pkindexValid = true
  marked : t.indexes.any (·.indisreplident) = true → t'.indexes.any (·.indisreplident) = true

theorem Extends.identifies (h : Extends t t') (ht : t.Identifies) : t'.Identifies := by
  rcases ht with hvalid | hfull
  · refine .inl ?_
    unfold replidindexValid at hvalid ⊢
    rw [h.relreplident]
    cases hident : t.relreplident with
    | default =>
      rw [hident] at hvalid
      exact h.pkindexValid hvalid
    | index =>
      rw [hident] at hvalid
      exact h.marked hvalid
    | full | nothing => rw [hident] at hvalid; exact absurd hvalid Bool.false_ne_true
  · exact .inr (h.relreplident.trans hfull)

theorem extends_refl (t : Table) : Extends t t := ⟨SameTable.refl t, rfl, id, id⟩

theorem extends_append (t : Table) (ix : Index) : Extends t { t with indexes := t.indexes ++ [ix] } :=
  ⟨⟨rfl, rfl, rfl⟩, rfl, fun h => by
      show (t.indexes ++ [ix]).any _ = true
      rw [any_append]
      exact Bool.or_eq_true_iff.mpr (.inl h),
    fun h => by
      rw [any_append]
      exact Bool.or_eq_true_iff.mpr (.inl h)⟩

theorem extends_map (t : Table) {f : Index → Index}
    (hprimary : ∀ ix, ix.indisprimary = true → (f ix).indisprimary = true)
    (hmarked : ∀ ix, ix.indisreplident = true → (f ix).indisreplident = true) :
    Extends t { t with indexes := t.indexes.map f } := by
  refine ⟨⟨rfl, rfl, rfl⟩, rfl, fun h => ?_, fun h => ?_⟩
  · obtain ⟨ix, hix, hp⟩ := any_eq_true.mp h
    exact any_eq_true.mpr ⟨f ix, mem_map_of_mem hix, hprimary ix hp⟩
  · obtain ⟨ix, hix, hp⟩ := any_eq_true.mp h
    exact any_eq_true.mpr ⟨f ix, mem_map_of_mem hix, hmarked ix hp⟩

variable {primary : Bool} {P : Table → Prop} {cmds : List AlterTableCmd}

theorem extends_addIndex {name : Nat} {columns : List Nat}
    (h : t.addIndex name columns primary = some t') : Extends t t' := by
  unfold addIndex at h
  split at h
  · cases h
  · cases h
    exact extends_append t _

theorem extends_useIndex {name : Nat} (h : t.useIndex name primary = some t') : Extends t t' := by
  obtain ⟨-, h⟩ := ite_none_right_eq_some.mp h
  cases h
  refine extends_map t (fun ix hprimary => ?_) (fun ix hmarked => ?_)
  · split
    · exact Bool.or_eq_true_iff.mpr (.inl hprimary)
    · exact hprimary
  · split <;> exact hmarked

theorem extends_inheritIndex (t : Table) (name : Nat) (columns : List Nat) (primary : Bool) :
    Extends t (t.inheritIndex name columns primary) := by
  unfold inheritIndex
  split
  · refine extends_map t (fun ix h => ?_) (fun ix h => ?_) <;> (split <;> exact h)
  · exact extends_append t _

theorem sameTable_exec (h : t.exec cmd = some t') : SameTable t t' := by
  cases cmd with
  | addConstraint => exact (extends_addIndex h).toSameTable
  | addIndexConstraint => exact (extends_useIndex h).toSameTable
  | addColumn _ primary =>
    cases primary with
    | none => cases h; exact SameTable.refl t
    | some => exact (extends_addIndex h).toSameTable
  | replicaIdentity identity =>
    cases identity with
    | index =>
      obtain ⟨-, h⟩ := ite_none_right_eq_some.mp h
      cases h
      exact ⟨rfl, rfl, rfl⟩
    | default | full | nothing => cases h; exact ⟨rfl, rfl, rfl⟩
  | setLogged | setUnLogged =>
    cases h
    split
    · exact SameTable.refl t
    · exact ⟨rfl, rfl, rfl⟩
  | dropConstraint | dropColumn | other => cases h; exact ⟨rfl, rfl, rfl⟩

/-- **Nothing is dropped.** A subcommand that is no candidate for dropping the identity keeps it. -/
theorem identifies_exec (hcmd : cmd.dropsPkri = false) (h : t.exec cmd = some t') (ht : t.Identifies) :
    t'.Identifies := by
  cases cmd with
  | addConstraint => exact (extends_addIndex h).identifies ht
  | addIndexConstraint => exact (extends_useIndex h).identifies ht
  | addColumn _ primary =>
    cases primary with
    | none => cases h; exact ht
    | some => exact (extends_addIndex h).identifies ht
  | replicaIdentity identity =>
    cases identity with
    | index =>
      obtain ⟨hname, h⟩ := ite_none_right_eq_some.mp h
      cases h
      -- the index that is named carries the mark now
      obtain ⟨_, hix, hnamed⟩ := any_eq_true.mp hname
      refine .inl (any_eq_true.mpr ⟨_, mem_map_of_mem hix, ?_⟩)
      rw [beq_iff_eq] at hnamed
      simp [hnamed]
    | full => cases h; exact .inr rfl
    | default | nothing => cases hcmd
  | setLogged | setUnLogged =>
    cases h
    split
    · exact ht
    · exact ht
  | other => cases h; exact ht
  | dropConstraint | dropColumn => cases hcmd

/-- REPLICA IDENTITY FULL does not come from anything else. -/
theorem full_exec (hcmd : cmd.addsPkri = false) (h : t.exec cmd = some t')
    (ht : t'.relreplident = .full) : t.relreplident = .full := by
  cases cmd with
  | addConstraint => exact (extends_addIndex h).relreplident ▸ ht
  | addIndexConstraint => exact (extends_useIndex h).relreplident ▸ ht
  | addColumn _ primary =>
    cases primary with
    | none => cases h; exact ht
    | some => cases hcmd
  | replicaIdentity identity =>
    cases identity with
    | nothing => cases h; cases ht
    | default | index | full => cases hcmd
  | setLogged | setUnLogged =>
    cases h
    split at ht <;> exact ht
  | dropConstraint | dropColumn | other => cases h; exact ht

theorem execPartition_cases (t : Table) (cmd : AlterTableCmd) :
    SameTable t (t.execPartition cmd) ∧ (t.execPartition cmd).relreplident = t.relreplident ∧
      (cmd.dropsPkri = false → Extends t (t.execPartition cmd)) := by
  have hinherit : ∀ name columns primary, SameTable t (t.inheritIndex name columns primary) ∧
        (t.inheritIndex name columns primary).relreplident = t.relreplident ∧
        (cmd.dropsPkri = false → Extends t (t.inheritIndex name columns primary)) := by
    intro name columns primary
    have hextends := extends_inheritIndex t name columns primary
    exact ⟨hextends.toSameTable, hextends.relreplident, fun _ => hextends⟩
  cases cmd with
  | addConstraint name columns primary => exact hinherit name columns primary
  | addColumn column primary =>
    cases primary with
    | none => exact ⟨SameTable.refl t, rfl, fun _ => extends_refl t⟩
    | some name => exact hinherit name [column] true
  | dropConstraint | dropColumn => exact ⟨⟨rfl, rfl, rfl⟩, rfl, nofun⟩
  | addIndexConstraint | replicaIdentity | setLogged | setUnLogged | other =>
    exact ⟨SameTable.refl t, rfl, fun _ => extends_refl t⟩

/-! ### All subcommands of a statement -/

theorem foldlM_exec (hstep : ∀ cmd ∈ cmds, ∀ t t', t.exec cmd = some t' → P t → P t')
    (h : cmds.foldlM exec t = some t') (ht : P t) : P t' := by
  induction cmds generalizing t with
  | nil => cases h; exact ht
  | cons cmd _ ih =>
    rw [foldlM_cons] at h
    obtain ⟨t₁, h₁, hrest⟩ := bind_eq_some_iff.mp h
    exact ih (fun c hc => hstep c (mem_cons_of_mem cmd hc)) hrest
      (hstep cmd mem_cons_self t t₁ h₁ ht)

theorem foldl_execPartition (hstep : ∀ cmd ∈ cmds, ∀ t : Table, P t → P (t.execPartition cmd))
    (ht : P t) : P (cmds.foldl execPartition t) := by
  induction cmds generalizing t with
  | nil => exact ht
  | cons cmd _ ih =>
    exact ih (fun c hc => hstep c (mem_cons_of_mem cmd hc)) (hstep cmd mem_cons_self t ht)

section Alter

theorem sameTable_alter (h : t.alter cmds = some t') : SameTable t t' :=
  foldlM_exec (P := SameTable t) (fun _ _ _ _ hexec ht => ht.trans (sameTable_exec hexec)) h
    (SameTable.refl t)

theorem sameTable_alterPartition (t : Table) (cmds : List AlterTableCmd) :
    SameTable t (t.alterPartition cmds) :=
  foldl_execPartition (P := SameTable t)
    (fun cmd _ t₁ ht => ht.trans (execPartition_cases t₁ cmd).1) (SameTable.refl t)

theorem identifies_alter (hcmds : cmds.any (·.dropsPkri) = false) (h : t.alter cmds = some t')
    (ht : t.Identifies) : t'.Identifies := by
  refine foldlM_exec (fun cmd hcmd t₁ t₂ hexec => identifies_exec ?_ hexec) h ht
  exact Bool.eq_false_iff.mpr (any_eq_false.mp hcmds cmd (mem_inPasses hcmd))

theorem identifies_alterPartition (hcmds : cmds.any (·.dropsPkri) = false) (ht : t.Identifies) :
    (t.alterPartition cmds).Identifies := by
  refine foldl_execPartition (fun cmd hcmd t₁ => ?_) ht
  exact ((execPartition_cases t₁ cmd).2.2
    (Bool.eq_false_iff.mpr (any_eq_false.mp hcmds cmd (mem_inPasses hcmd)))).identifies

theorem full_alter (hcmds : cmds.any (·.addsPkri) = false) (h : t.alter cmds = some t')
    (ht : t'.relreplident = .full) : t.relreplident = .full := by
  revert ht
  refine foldlM_exec (P := fun t₁ => t₁.relreplident = .full → t.relreplident = .full)
    (fun cmd hcmd t₁ t₂ hexec hback hfull => hback (full_exec ?_ hexec hfull)) h id
  exact Bool.eq_false_iff.mpr (any_eq_false.mp hcmds cmd (mem_inPasses hcmd))

theorem relreplident_alterPartition (t : Table) (cmds : List AlterTableCmd) :
    (t.alterPartition cmds).relreplident = t.relreplident :=
  foldl_execPartition (P := fun t₁ => t₁.relreplident = t.relreplident)
    (fun cmd _ t₁ ht => (execPartition_cases t₁ cmd).2.1.trans ht) rfl

end Alter

end Table

end Spock.AutoDdl
