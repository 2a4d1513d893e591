import Spock.Output.Plugin

/-!
# Spock — what the evaluation of row filters leaves behind

Before the row filters of a table are evaluated, `spock_change_filter` pushes a snapshot and creates
an executor state. Both are taken down after the last filter, but a filter that is false or null
returns from the middle of the loop.

* **`held_iff`** — decoding leaves nothing behind if and only if every filter it gets to is true.
-/

namespace Spock.Output

open Outcome Protocol Repset Runs

/-! ## The filters and what they hold -/

/-- Snapshots that were pushed and not popped, and executor states that were created and not
freed. -/
structure Held where
  activeSnapshots : Nat
  estates : Nat
  deriving DecidableEq

section Filter

variable (pgVersionNum : Nat)

/-- Row filters need no snapshot from PostgreSQL 18 on. -/
def filterSnapshots : Nat := if pgVersionNum < 180000 then 1 else 0

/-- `PushActiveSnapshot` and `create_estate_for_relation`. -/
def Held.setUp (h : Held) : Held :=
  ⟨h.activeSnapshots + filterSnapshots pgVersionNum, h.estates + 1⟩

/-- `FreeExecutorState` and `PopActiveSnapshot`. -/
def Held.takeDown (h : Held) : Held :=
  ⟨h.activeSnapshots - filterSnapshots pgVersionNum, h.estates - 1⟩

def rowFilterLoop (row : Deformed) : List RowFilter → Held → Bool × Held
  | [], h => (true, h.takeDown pgVersionNum)
  | rowFilter :: rowFilters, h =>
    match rowFilter row with
    | none => (false, h)
    | some false => (false, h)
    | some true => rowFilterLoop row rowFilters h

/-- The filters, which decide as in `changeFilter`, with what they hold. -/
def processRowFilters (rowFilters : List RowFilter) (change : Change) (h : Held) : Bool × Held :=
  if rowFilters.isEmpty then (true, h)
  else
    match change.row with
    | none => (false, h)
    | some row => rowFilterLoop pgVersionNum row rowFilters (h.setUp pgVersionNum)

/-- The filters that `spock_change_filter` gets to: the table is replicated by replication set
membership, and so is the action. -/
def Plugin.filtersFor (s : Plugin) (c : Connection) (relid : UInt32) (change : Change) :
    List RowFilter :=
  if (s.slotGroupSkipXact || s.repairMode || c.replicateOnlyTable.isSome ||
      relid == s.catalog.queueTableOid || relid == s.catalog.replicationSetRelOid) then []
  else
    match tableReplicationInfo c (s.catalog.relation relid) s with
    | .ok info _ => if allowsAction info.toActions change then info.rowFilter else []
    | .error .. => []

structure Decoding where
  plugin : Plugin
  held : Held

/-- The callbacks of `Plugin.step`. Only the filter of a change holds anything. -/
def Decoding.step (c : Connection) (d : Decoding) (e : Event) : Option Decoding :=
  (d.plugin.step c e).map fun s' => ⟨s', match e with
    | .change relid change =>
      (processRowFilters pgVersionNum (d.plugin.filtersFor c relid change) change d.held).2
    | _ => d.held⟩

end Filter

variable {pgVersionNum : Nat} {c : Connection} {d d' : Decoding} {e : Event} {es : List Event}

theorem rowFilterLoop_eq (row : Deformed) (rowFilters : List RowFilter) (h : Held) :
    rowFilterLoop pgVersionNum row rowFilters h =
      if rowFilters.all (fun rowFilter => rowFilter row == some true) then
        (true, h.takeDown pgVersionNum)
      else (false, h) := by
  induction rowFilters with
  | nil => rfl
  | cons rowFilter rowFilters ih =>
    unfold rowFilterLoop
    rw [List.all_cons]
    match rowFilter row with
    | none | some false => rfl
    | some true => exact ih

theorem processRowFilters_eq (rowFilters : List RowFilter) (change : Change) (h : Held) :
    processRowFilters pgVersionNum rowFilters change h = (passesFilters rowFilters change,
      if ∀ row ∈ change.row, ∀ rowFilter ∈ rowFilters, rowFilter row = some true then h
      else h.setUp pgVersionNum) := by
  have htakeDown : (h.setUp pgVersionNum).takeDown pgVersionNum = h := by
    simp [Held.setUp, Held.takeDown]
  have hall : ∀ row, (∀ rowFilter ∈ rowFilters, rowFilter row = some true) ↔
      (rowFilters.all fun rowFilter => rowFilter row == some true) = true := by
    simp
  unfold processRowFilters passesFilters
  cases hempty : rowFilters.isEmpty with
  | true => simp [List.isEmpty_iff.1 hempty]
  | false =>
    cases change.row with
    | none => simp
    | some row =>
      simp only [rowFilterLoop_eq, htakeDown, Option.mem_some_iff, forall_eq', hall, Option.any_some]
      cases rowFilters.all fun rowFilter => rowFilter row == some true <;> rfl

theorem changeFilter_of_filtersFor {s : Plugin} {relid : UInt32} {change : Change}
    (hne : s.filtersFor c relid change ≠ []) (h : Held) :
    Ends (changeFilter c (s.catalog.relation relid) change) s (fun filtered _ => filtered.isSome =
      (processRowFilters pgVersionNum (s.filtersFor c relid change) change h).1) fun _ _ => False := by
  unfold Plugin.filtersFor at hne ⊢
  split at hne
  · exact absurd rfl hne
  · rename_i hguard
    rw [if_neg hguard]
    simp only [Bool.or_eq_true, not_or, Option.isSome_iff_ne_none, beq_iff_eq, not_not] at hguard
    obtain ⟨⟨⟨-, honly⟩, hqueue⟩, hrepset⟩ := hguard
    unfold changeFilter
    simp only [honly, Catalog.relation_relid, hqueue, hrepset, ends_bind, ends_get, if_false]
    cases hinfo : tableReplicationInfo c (s.catalog.relation relid) s with
    | error =>
      rw [hinfo] at hne
      exact absurd rfl hne
    | ok info s' =>
      rw [hinfo] at hne
      simp only [ends_of_ok hinfo, processRowFilters_eq]
      cases hallowed : allowsAction info.toActions change with
      | false => simp [hallowed] at hne
      | true => cases hpasses : passesFilters info.rowFilter change <;> simp [hpasses]

/-! ## What is left -/

/-- **The condition on a change**: every filter that it gets to is true. -/
def FiltersTrue (c : Connection) (d : Decoding) : Event → Prop
  | .change relid change => ∀ row ∈ change.row, ∀ rowFilter ∈ d.plugin.filtersFor c relid change,
    rowFilter row = some true
  | _ => True

theorem step_held (hstep : d.step pgVersionNum c e = some d') :
    FiltersTrue c d e ∧ d'.held = d.held ∨
      ¬ FiltersTrue c d e ∧ d.held.estates < d'.held.estates := by
  obtain ⟨s', -, rfl⟩ := Option.map_eq_some_iff.1 hstep
  cases e with
  | change relid change =>
    simp only [processRowFilters_eq]
    by_cases htrue : FiltersTrue c d (.change relid change)
    · exact .inl ⟨htrue, if_pos htrue⟩
    · refine .inr ⟨htrue, ?_⟩
      rw [if_neg (by exact htrue)]
      exact Nat.lt_succ_self _
  | _ => exact .inl ⟨trivial, rfl⟩

/-- **Nothing is left behind** by a run, whatever the version of the server, if and only if every row
filter that it gets to is true. -/
theorem held_iff (hrun : run (Decoding.step pgVersionNum c) d es = some d') :
    d'.held = d.held ↔ Along (Decoding.step pgVersionNum c) (FiltersTrue c) d es := by
  refine good_iff_along (I := fun d₁ => d₁.held = d.held)
    (B := fun d₁ => d.held.estates < d₁.held.estates) (fun _ h => h) ?_ ?_ ?_ ?_ rfl hrun
  · intro d₁ hlt heq
    rw [heq] at hlt
    exact Nat.lt_irrefl _ hlt
  · intro d₁ e d₂ heq htrue hstep
    rcases step_held hstep with ⟨-, h⟩ | ⟨h, -⟩
    · rw [h, heq]
    · exact absurd htrue h
  · intro d₁ e d₂ heq htrue hstep
    rcases step_held hstep with ⟨h, -⟩ | ⟨-, h⟩
    · exact absurd h htrue
    · rwa [heq] at h
  · intro d₁ e d₂ hlt hstep
    rcases step_held hstep with ⟨-, h⟩ | ⟨-, h⟩
    · rwa [h]
    · exact hlt.trans h

section Sample

def sampleRows : List Event :=
  [.begin (sampleTxn 9 50), .change 7 (.insert sampleRow), .change 7 (.insert sampleRow)]

/-- The connection has one of the sets of `filteredSets`. -/
def sampleStart (id : UInt32) : Decoding := ⟨.connect filteredSets [fullSet id] none, ⟨0, 0⟩⟩

/-- **Satisfiable.** Set 3 has a filter that every row passes. -/
theorem held_iff_passed : ∃ d, run (Decoding.step 170000 (sampleConnection none)) (sampleStart 3)
    sampleRows = some d ∧ Along (Decoding.step 170000 (sampleConnection none))
      (FiltersTrue (sampleConnection none)) (sampleStart 3) sampleRows := by
  have hrun : run (Decoding.step 170000 (sampleConnection none)) (sampleStart 3) sampleRows = some _ :=
    rfl
  exact ⟨_, hrun, (held_iff hrun).1 rfl⟩

/-- **Rows that are filtered out pile up snapshots.** The filter of set 2 is null for every row. -/
theorem filtered_out_held : ∃ d, run (Decoding.step 170000 (sampleConnection none)) (sampleStart 2)
    sampleRows = some d ∧ d.held = ⟨2, 2⟩ := ⟨_, rfl, rfl⟩

end Sample

end Spock.Output
