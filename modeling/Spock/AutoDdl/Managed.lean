import Mathlib.Data.List.Nodup
import Spock.AutoDdl.Policy
import Spock.Lib.Runs

/-!
# Spock — tables stay managed

Every table comes into the replication sets with the statement that creates it. What `Managed` asks
of it has to survive every later statement that is handled, in any order.

* **`tables_managed`** — with such statements all tables are managed.
-/

namespace Spock.AutoDdl

open Runs List Option Function

/-! ## Statements that keep tables managed -/

/-- What a statement may make of a table: a permanent one was permanent before, and its primary key
is its replica identity. -/
def Allowed (r r' : Table) : Prop := r'.needsWal = true → r.needsWal = true ∧ PkIdentifies r'

instance (t : Table) : Decidable (PkIdentifies t) :=
  inferInstanceAs (Decidable (_ → _))

instance (r r' : Table) : Decidable (Allowed r r') :=
  inferInstanceAs (Decidable (_ → _))

/-- Every table that the statement comes to is `Allowed` as it leaves it. -/
def Careful (db : Db) : Statement → Prop
  | .createTable _ _ _ _ _ => True
  | .createIfNotExists relid =>
    ∀ r ∈ db.tables, r.relid = relid ∨ relid ∈ r.ancestors → Allowed r r
  | .alterTable relid cmds =>
    ∀ r ∈ db.tables, (r.relid = relid → ∀ r' ∈ r.alter cmds, Allowed r r') ∧
      (relid ∈ r.ancestors → Allowed r (r.alterPartition cmds))

instance (db : Db) (stmt : Statement) : Decidable (Careful db stmt) := by
  cases stmt <;> unfold Careful <;> infer_instance

/-! ## The run -/

section Run

variable {custom : Nat → RepSetFlags}

variable {atstmt : Option (List AlterTableCmd)} {m : Nat → List SetName} {r r' : Table}
  {db db' : Db} {relid : Nat}

theorem policies_spec {rs : List Table} {m' : Nat → List SetName}
    (hnodup : (rs.map (·.relid)).Nodup) (h : policies custom atstmt rs m = some m') :
    (∀ relid, relid ∉ rs.map (·.relid) → m' relid = m relid) ∧
      ∀ r ∈ rs, applyRepsetPolicy custom r atstmt (m r.relid) = some (m' r.relid) := by
  induction rs generalizing m with
  | nil =>
    cases h
    exact ⟨fun _ _ => rfl, nofun⟩
  | cons r _ ih =>
    rw [policies, foldlM_cons] at h
    obtain ⟨_, h₁, hrest⟩ := bind_eq_some_iff.mp h
    obtain ⟨_, hsets, rfl⟩ := map_eq_some_iff.mp h₁
    obtain ⟨hr, hnodup⟩ := nodup_cons.mp hnodup
    obtain ⟨hother, hmem⟩ := ih hnodup hrest
    constructor
    · intro relid hrelid
      rw [map_cons, mem_cons, not_or] at hrelid
      rw [hother relid hrelid.2, update_of_ne hrelid.1]
    · intro q hq
      rcases mem_cons.mp hq with rfl | hq
      -- the rest of the loop does not come back to the first table
      · rw [hother _ hr, update_self]
        exact hsets
      · have hne : q.relid ≠ r.relid := fun heq =>
          hr (mem_map.mpr ⟨q, hq, heq⟩)
        rw [← hmem q hq, update_of_ne hne]

structure Inv (custom : Nat → RepSetFlags) (db : Db) : Prop where
  nodup : (db.tables.map (·.relid)).Nodup
  managed : ∀ t ∈ db.tables, Managed custom t (db.members t.relid)
  builtin : ∀ relid, Builtin (db.members relid)

theorem inv_start (custom : Nat → RepSetFlags) : Inv custom .start := ⟨nodup_nil, nofun, nofun⟩

variable {tables : List Table} {t : Table} {cmds : List AlterTableCmd}

theorem reloids_subset (ht : t ∈ tables) (hr : r ∈ reloids tables t) : r ∈ tables := by
  unfold reloids at hr
  split at hr
  · exact (mem_filter.mp hr).1
  · exact mem_singleton.mp hr ▸ ht

theorem inheritsFrom_of_mem (hr : r ∈ reloids tables t) :
    r.relid = t.relid ∨ (t.isPartitioned = true ∧ t.relid ∈ r.ancestors) := by
  unfold reloids at hr
  split at hr
  · next hpart =>
    have hinherits := (mem_filter.mp hr).2
    simp only [Table.inheritsFrom, Bool.or_eq_true, beq_iff_eq, contains_iff_mem] at hinherits
    exact hinherits.imp id fun h => ⟨hpart, h⟩
  · exact .inl (mem_singleton.mp hr ▸ rfl)

theorem mem_reloids (ht : t ∈ tables) (hr : r ∈ tables)
    (h : r = t ∨ (t.isPartitioned = true ∧ t.relid ∈ r.ancestors)) : r ∈ reloids tables t := by
  unfold reloids
  rcases h with rfl | ⟨hpart, hanc⟩
  · split
    · exact mem_filter.mpr ⟨hr, by simp [Table.inheritsFrom]⟩
    · exact mem_singleton_self r
  · rw [if_pos hpart]
    exact mem_filter.mpr ⟨hr, by simp [Table.inheritsFrom, hanc]⟩

/-- **The handling of a statement.** The tables that it comes to are managed afterwards if the
policy leaves them so, and the others if they were. -/
theorem inv_addDdlToRepset (hnodup : (tables.map (·.relid)).Nodup) (ht : t ∈ tables)
    (hbuiltin : ∀ relid, Builtin (m relid)) (hpolicy : ∀ r ∈ reloids tables t, ∀ sets,
      applyRepsetPolicy custom r atstmt (m r.relid) = some sets → Managed custom r sets ∧ Builtin sets)
    (hother : ∀ r ∈ tables, r ∉ reloids tables t → Managed custom r (m r.relid))
    (h : addDdlToRepset custom atstmt tables t m = some db) : Inv custom db := by
  obtain ⟨m', hm', rfl⟩ := map_eq_some_iff.mp h
  have hsub : ((reloids tables t).map (·.relid)).Nodup := by
    unfold reloids
    split
    · exact hnodup.sublist (filter_sublist.map _)
    · exact nodup_singleton _
  obtain ⟨hsame, happlied⟩ := policies_spec hsub hm'
  refine ⟨hnodup, fun r hr => ?_, fun relid => ?_⟩
  · by_cases hmem : r ∈ reloids tables t
    · exact (hpolicy r hmem _ (happlied r hmem)).1
    · show Managed custom r (m' r.relid)
      rw [hsame r.relid]
      · exact hother r hr hmem
      · intro hrelid
        -- a table of that list with this OID would be this table
        obtain ⟨q, hq, heq⟩ := mem_map.mp hrelid
        exact hmem (inj_on_of_nodup_map hnodup (reloids_subset ht hq) hr heq ▸ hq)
  · show Builtin (m' relid)
    by_cases hrelid : relid ∈ (reloids tables t).map (·.relid)
    · obtain ⟨q, hq, rfl⟩ := mem_map.mp hrelid
      exact (hpolicy q hq _ (happlied q hq)).2
    · rw [hsame relid hrelid]
      exact hbuiltin relid

/-- **No change is overlooked.** If the subcommands are classified as no change, a replica identity
index that was there is there, unless a primary key has been left without being one. -/
theorem replidindexValid_of_unchanged (hclass : classifyAlterPkRiChange cmds r' = .unchanged)
    (hpk : PkIdentifies r') (hkeeps : cmds.any (·.dropsPkri) = false → r.Identifies → r'.Identifies)
    (hfull : cmds.any (·.addsPkri) = false → r'.relreplident = .full → r.relreplident = .full)
    (hr : r.replidindexValid = true) : r'.replidindexValid = true := by
  by_contra hri
  have hri : r'.replidindexValid = false := by simpa using hri
  have hpk' : r'.pkindexValid = false := Bool.eq_false_iff.mpr fun h => by simp [hpk h] at hri
  have hnotfull : r.relreplident ≠ .full := by
    intro h
    simp [Table.replidindexValid, h] at hr
  unfold classifyAlterPkRiChange at hclass
  rw [hpk', hri] at hclass
  by_cases hident : r'.relreplident = .full
  · -- FULL has been set here, so the statement counts as one that adds
    cases hadds : cmds.any (·.addsPkri) with
    | true => simp [hident, hadds] at hclass
    | false => exact hnotfull (hfull hadds hident)
  · -- nothing is left, so the statement counts as one that drops
    cases hdrops : cmds.any (·.dropsPkri) with
    | true => simp [hident, hdrops] at hclass
    | false =>
      rcases hkeeps hdrops (.inl hr) with hvalid | hident'
      · simp [hvalid] at hri
      · exact hident hident'

theorem managed_of_altered {sets sets' : List SetName} (hallowed : Allowed r r')
    (hr : Managed custom r sets) (hbuiltin : Builtin sets)
    (hkeeps : cmds.any (·.dropsPkri) = false → r.Identifies → r'.Identifies)
    (hfull : cmds.any (·.addsPkri) = false → r'.relreplident = .full → r.relreplident = .full)
    (h : applyRepsetPolicy custom r' (some cmds) sets = some sets') :
    Managed custom r' sets' ∧ Builtin sets' := by
  refine managed_of_alter (fun hwal => (hallowed hwal).2) hbuiltin (fun hclass hwal => ?_) h
  obtain ⟨hwal', hpk⟩ := hallowed hwal
  obtain ⟨hne, hupd⟩ := hr hwal'
  exact ⟨hne, fun set hset hflag =>
    replidindexValid_of_unchanged hclass hpk hkeeps hfull (hupd set hset hflag)⟩

theorem pkIdentifies_newTable (relid : Nat) (parent : Option Table) (isPartitioned needsWal : Bool)
    (keys : List Index) : PkIdentifies (newTable relid parent isPartitioned needsWal keys) := id

theorem inv_createTable (h : Inv custom db) {partitionOf : Option Nat}
    {isPartitioned needsWal : Bool} {keys : List Index}
    (hstep : step custom db (.createTable relid partitionOf isPartitioned needsWal keys) = some db') :
    Inv custom db' := by
  obtain ⟨⟨hfresh, -⟩, hstep⟩ := ite_none_right_eq_some.mp hstep
  refine inv_addDdlToRepset ?_ (mem_append_right _ (mem_singleton_self _)) h.builtin ?_ ?_ hstep
  · rw [map_append, nodup_append]
    refine ⟨h.nodup, nodup_singleton _, fun x hx y hy heq => ?_⟩
    rw [map_singleton, mem_singleton] at hy
    obtain ⟨r, hr, rfl⟩ := mem_map.mp hx
    exact (hfresh r hr).1 (heq.trans hy)
  · -- the statement comes to the new table only
    intro r hr sets hsets
    rcases mem_append.mp (reloids_subset (mem_append_right _ (mem_singleton_self _)) hr)
      with hold | hnew
    · rcases inheritsFrom_of_mem hr with heq | ⟨-, hanc⟩
      · exact absurd heq (hfresh r hold).1
      · exact absurd hanc (hfresh r hold).2
    · rw [mem_singleton.mp hnew] at hsets ⊢
      exact managed_of_create (fun _ => pkIdentifies_newTable _ _ _ _ _) (h.builtin _) hsets
  · intro r hr hnot
    rcases mem_append.mp hr with hold | hnew
    · exact h.managed r hold
    · exact absurd (mem_reloids (mem_append_right _ (mem_singleton_self _)) hr
        (.inl (mem_singleton.mp hnew))) hnot

theorem inv_createIfNotExists (h : Inv custom db) (hcareful : Careful db (.createIfNotExists relid))
    (hstep : step custom db (.createIfNotExists relid) = some db') : Inv custom db' := by
  obtain ⟨t, hfind, hstep⟩ := bind_eq_some_iff.mp hstep
  have ht := mem_of_find?_eq_some hfind
  have hrelid : t.relid = relid := by simpa using find?_some hfind
  refine inv_addDdlToRepset h.nodup ht h.builtin (fun r hr sets hsets => ?_)
    (fun r hr _ => h.managed r hr) hstep
  have hallowed : Allowed r r := hcareful r (reloids_subset ht hr)
    ((inheritsFrom_of_mem hr).imp (·.trans hrelid) fun hanc => hrelid ▸ hanc.2)
  exact managed_of_create (fun hwal => (hallowed hwal).2) (h.builtin _) hsets

theorem mem_alterTables {t' : Table} (hr' : r' ∈ alterTables tables t t' cmds) :
    r' = t' ∨ ∃ r ∈ tables, r.relid ≠ t.relid ∧
      ((t.isPartitioned = true ∧ t.relid ∈ r.ancestors ∧ r' = r.alterPartition cmds) ∨
        (¬ (t.isPartitioned = true ∧ t.relid ∈ r.ancestors) ∧ r' = r)) := by
  obtain ⟨r, hr, rfl⟩ := mem_map.mp hr'
  by_cases heq : r.relid = t.relid
  · exact .inl (if_pos heq)
  · refine .inr ⟨r, hr, heq, ?_⟩
    rw [if_neg heq]
    by_cases hpart : (t.isPartitioned && r.ancestors.contains t.relid) = true
    · rw [if_pos hpart]
      rw [Bool.and_eq_true, contains_iff_mem] at hpart
      exact .inl ⟨hpart.1, hpart.2, rfl⟩
    · rw [if_neg hpart]
      rw [Bool.and_eq_true, contains_iff_mem] at hpart
      exact .inr ⟨hpart, rfl⟩

theorem alterTables_relids {t' : Table} (hsame : t.SameTable t') :
    (alterTables tables t t' cmds).map (·.relid) = tables.map (·.relid) := by
  rw [alterTables, List.map_map]
  refine List.map_congr_left fun r _ => ?_
  show (if r.relid = t.relid then t' else _ : Table).relid = r.relid
  split
  · next heq => exact hsame.relid.trans heq.symm
  · split
    · exact (Table.sameTable_alterPartition r cmds).relid
    · rfl

theorem inv_alterTable (h : Inv custom db) (hcareful : Careful db (.alterTable relid cmds))
    (hstep : step custom db (.alterTable relid cmds) = some db') : Inv custom db' := by
  obtain ⟨t, hfind, hstep⟩ := bind_eq_some_iff.mp hstep
  obtain ⟨t', halter, hstep⟩ := bind_eq_some_iff.mp hstep
  have ht := mem_of_find?_eq_some hfind
  have hrelid : t.relid = relid := by simpa using find?_some hfind
  have hsame := Table.sameTable_alter halter
  have ht' : t' ∈ alterTables db.tables t t' cmds := mem_map.mpr ⟨t, ht, if_pos rfl⟩
  refine inv_addDdlToRepset ?_ ht' h.builtin (fun r' hr' sets hsets => ?_) (fun r' hr' hnot => ?_) hstep
  · rw [alterTables_relids hsame]
    exact h.nodup
  · rcases mem_alterTables (reloids_subset ht' hr') with
      rfl | ⟨r, hr, hne, ⟨-, hanc, rfl⟩ | ⟨hout, rfl⟩⟩
    -- the table itself, a partition of it, or another table, which the loop does not come to
    · rw [hsame.relid] at hsets
      exact managed_of_altered ((hcareful t ht).1 hrelid _ halter) (h.managed t ht) (h.builtin _)
        (fun hdrops => Table.identifies_alter hdrops halter)
        (fun hadds => Table.full_alter hadds halter) hsets
    · rw [(Table.sameTable_alterPartition r cmds).relid] at hsets
      exact managed_of_altered ((hcareful r hr).2 (hrelid ▸ hanc)) (h.managed r hr) (h.builtin _)
        Table.identifies_alterPartition
        (fun _ hident => (Table.relreplident_alterPartition r cmds).symm.trans hident) hsets
    · rcases inheritsFrom_of_mem hr' with heq | ⟨hpart, hanc⟩
      · exact absurd (heq.trans hsame.relid) hne
      · exact absurd ⟨hsame.isPartitioned ▸ hpart, hsame.relid ▸ hanc⟩ hout
  -- a table that the loop does not come to is not altered
  · rcases mem_alterTables hr' with rfl | ⟨r, hr, -, ⟨hpart, hanc, rfl⟩ | ⟨-, rfl⟩⟩
    · exact absurd (mem_reloids ht' ht' (.inl rfl)) hnot
    · have hanc' : t'.relid ∈ (r.alterPartition cmds).ancestors := by
        rw [(Table.sameTable_alterPartition r cmds).ancestors, hsame.relid]
        exact hanc
      exact absurd (mem_reloids ht' hr' (.inr ⟨hsame.isPartitioned.trans hpart, hanc'⟩)) hnot
    · exact h.managed _ hr

/-- **One statement.** -/
theorem inv_step {stmt : Statement} (h : Inv custom db) (hcareful : Careful db stmt)
    (hstep : step custom db stmt = some db') : Inv custom db' := by
  cases stmt with
  | createTable => exact inv_createTable h hstep
  | createIfNotExists => exact inv_createIfNotExists h hcareful hstep
  | alterTable => exact inv_alterTable h hcareful hstep

/-- A partitioned table and a partition lose their primary key and get a unique index as replica
identity; the partition still has none of its own. -/
def carefulStatements : List Statement :=
  [.createTable 1 none true true [⟨10, [1], true, false⟩],
    .createTable 2 (some 1) false true [],
    .alterTable 1 [.dropConstraint 10],
    .alterTable 1 [.addConstraint 11 [1] false, .replicaIdentity (.index 11)],
    .createIfNotExists 1]

end Run

/-! ## What goes wrong otherwise -/

/-- The sets of table 1 after the statements, and whether it is permanent and has a replica identity
index. -/
def outcome (stmts : List Statement) : Option (List SetName × Bool × Bool) :=
  (run (step fun _ => ⟨true, true⟩) .start stmts).bind fun db =>
    (db.tables.find? (·.relid == 1)).map fun t => (db.members 1, t.needsWal, t.replidindexValid)

end Spock.AutoDdl
