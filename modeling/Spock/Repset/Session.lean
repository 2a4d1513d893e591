import Spock.Lib.Machine
import Spock.Repset.Info

/-!
# Spock — calls of `get_table_replication_info` in one backend

The output plugin, `spock.show_repset_table_info` (also as `repset_show_table`) and
`spock.table_data_filtered` call the function in their backend, with the sets of the connection or
those named in the call, and share the entries of `RepSetTableHash`. An entry is found by the table
alone.

* **`calls_are_current`** — while every call for a table passes the sets its entry was filled for,
  each result is the combination of the current rows over the sets of that call.
-/

namespace Spock.Repset

open Protocol Runs Machine Function

/-- A backend, and of the past the sets each entry was last filled for. -/
structure Session where
  catalog : Catalog
  hash : RepSetTableHash
  /-- What the memory of a new entry reads as. -/
  uninit : Memo.Entry TableRepInfo
  filledFor : UInt32 → List RepSet

def Session.start (catalog : Catalog) (uninit : Memo.Entry TableRepInfo) : Session :=
  ⟨catalog, .empty, uninit, fun _ => []⟩

inductive SessionEvent where
  | call (nodeid relid : UInt32) (repsets : List RepSet)
  /-- The relation or the sets it is in have changed, and its relcache entry is invalidated. -/
  | invalidate (rel : Relation) (rows : List RepSetTable)
  /-- The invalidation of all entries, after any changes. -/
  | invalidateAll (catalog : Catalog)

/-- A call with what it was answered, and what it should have been computed from. -/
structure Call where
  table : Relation
  rows : List RepSetTable
  repsets : List RepSet
  result : Except ErrorData TableRepInfo

def Call.Current (c : Call) : Prop := c.result = combination c.table.desc c.rows c.repsets

def Session.step (s : Session) : SessionEvent → Option (List Call × Session)
  | .call nodeid relid repsets =>
    let table := s.catalog.relation relid
    let rows := s.catalog.repsetTables relid
    let r := getTableReplicationInfo s.uninit s.hash rows nodeid table repsets
    some ([⟨table, rows, repsets, r.1⟩],
      { s with
        hash := r.2
        filledFor :=
          if Memo.valid s.hash relid then s.filledFor
          else Function.update s.filledFor relid repsets })
  | .invalidate rel rows => do
    let catalog ← s.catalog.alter rel rows
    some ([], { s with
      catalog := catalog, hash := repsetRelcacheInvalidateCallback rel.relid s.hash })
  | .invalidateAll catalog =>
    some ([], { s with
      catalog := catalog, hash := repsetRelcacheInvalidateCallback invalidOid s.hash })

/-- A call passes the sets that the table's valid entry was filled for. A call that creates an entry
must not raise, unless the new entry reads as invalid. -/
def Session.Steady (s : Session) : SessionEvent → Prop
  | .call _ relid repsets =>
    if Memo.valid s.hash relid then repsets = s.filledFor relid
    else s.uninit.isvalid = false ∨
      NoneGenerated (s.catalog.relation relid).desc
        (listedColumns (joined (s.catalog.repsetTables relid) repsets))
  | .invalidate .. | .invalidateAll _ => True

instance (s : Session) (e : SessionEvent) : Decidable (s.Steady e) := by
  cases e <;> unfold Session.Steady <;> infer_instance

def Session.Holds (s : Session) (relid : UInt32) (info : TableRepInfo) : Prop :=
  combination (s.catalog.relation relid).desc (s.catalog.repsetTables relid) (s.filledFor relid) =
    .ok info

theorem Session.step_call {s s' : Session} {nodeid relid : UInt32} {repsets : List RepSet}
    {calls : List Call} (hs : Memo.Sound s.Holds s.hash)
    (hsteady : s.Steady (.call nodeid relid repsets))
    (h : s.step (.call nodeid relid repsets) = some (calls, s')) :
    Memo.Sound s'.Holds s'.hash ∧ ∀ c ∈ calls, c.Current := by
  have hlookup : getTableReplicationInfo s.uninit s.hash (s.catalog.repsetTables relid) nodeid
      (s.catalog.relation relid) repsets = Memo.lookup s.uninit s.hash relid
        (combination (s.catalog.relation relid).desc (s.catalog.repsetTables relid) repsets) := by
    rw [getTableReplicationInfo, fillEntry_eq_combination, s.catalog.relation_relid relid]
  simp only [Session.step, hlookup, Option.some.injEq, Prod.mk.injEq] at h
  obtain ⟨rfl, rfl⟩ := h
  dsimp only [Session.Steady] at hsteady
  cases hv : Memo.valid s.hash relid with
  | true =>
    -- the entry answers, and it was filled for these sets
    rw [hv] at hsteady
    obtain ⟨e, he, hev⟩ := Memo.valid_iff.1 hv
    rw [Memo.lookup_of_valid he hev]
    refine ⟨hs, fun c hc => ?_⟩
    rw [List.mem_singleton.1 hc, Call.Current, show repsets = s.filledFor relid from hsteady]
    exact (hs relid e he hev).symm
  | false =>
    rw [hv] at hsteady
    have hcurrent : Memo.Sound (fun r info => combination (s.catalog.relation r).desc
        (s.catalog.repsetTables r) (update s.filledFor relid repsets r) = .ok info) s.hash := by
      refine hs.of_not_valid hv fun r info hr hinfo => ?_
      rw [update_of_ne hr]
      exact hinfo
    refine ⟨?_, fun c hc => ?_⟩
    · refine (hcurrent.lookup (fun info hinfo => ?_) fun e _ he => ?_).2
      · rw [update_self]
        exact hinfo
      · -- an error while the entry is new
        refine hsteady.resolve_right fun hnone => ?_
        rw [combination_ok_iff.2 ⟨hnone, rfl⟩] at he
        cases he
    · rw [List.mem_singleton.1 hc, Call.Current, Memo.lookup_of_not_valid hv]

theorem Session.step_current {s s' : Session} {e : SessionEvent} {calls : List Call}
    (hs : Memo.Sound s.Holds s.hash) (hsteady : s.Steady e) (h : s.step e = some (calls, s')) :
    Memo.Sound s'.Holds s'.hash ∧ ∀ c ∈ calls, c.Current := by
  cases e with
  | call => exact Session.step_call hs hsteady h
  | invalidate =>
    obtain ⟨_, hcatalog, heq⟩ := Option.bind_eq_some_iff.1 h
    cases heq
    refine ⟨sound_repsetRelcacheInvalidateCallback hs fun relid info _ hne hinfo => ?_, nofun⟩
    obtain ⟨hrows, hrelation⟩ := Catalog.alter_other hcatalog hne
    unfold Session.Holds
    rw [hrows, hrelation]
    exact hinfo
  | invalidateAll =>
    cases h
    exact ⟨sound_repsetRelcacheInvalidateCallback hs fun _ _ hne => absurd rfl hne, nofun⟩

/-- **The cache is right while the sets stay the same.** In every history of calls and invalidations
in which a call passes the sets its entry was filled for, every result is the combination of the
rows of that moment over the sets of the call. -/
theorem calls_are_current (catalog : Catalog) (uninit : Memo.Entry TableRepInfo)
    (es : List SessionEvent) (calls : List Call) (s : Session)
    (hsteady : Along (next Session.step) Session.Steady (.start catalog uninit) es)
    (htrace : trace Session.step (.start catalog uninit) es = some (calls, s)) :
    ∀ c ∈ calls, c.Current :=
  (trace_invariant_along (I := fun s => Memo.Sound s.Holds s.hash)
    (fun _ _ _ _ hs hsteady hstep => Session.step_current hs hsteady hstep)
    Memo.sound_empty hsteady htrace).2

section Sample

/-- Table 7 is in set 1, which publishes its inserts, and in set 2, which publishes its updates. -/
def twoSets : Catalog := sampleCatalog [⟨1, none, none⟩, ⟨2, none, none⟩] fun _ => none

def insertSet : RepSet := sampleSet 1 ⟨true, false, false, false⟩

def updateSet : RepSet := sampleSet 2 ⟨false, true, false, false⟩

/-- Two calls for one set, and after an invalidation one for the other. -/
def steadyCalls : List SessionEvent :=
  [.call 1 7 [insertSet], .call 1 7 [insertSet], .invalidate (sampleTable 7) [⟨2, none, none⟩],
    .call 1 7 [updateSet]]

/-- **Satisfiable.** -/
theorem calls_are_current_twoSets : ∃ calls s,
    trace Session.step (.start twoSets ⟨true, .zero⟩) steadyCalls = some (calls, s) ∧
      calls.length = 3 ∧ ∀ c ∈ calls, c.Current :=
  ⟨_, _, rfl, rfl, calls_are_current twoSets ⟨true, .zero⟩ steadyCalls _ _ (by decide) rfl⟩

/-- **The sets are not part of the key.** `show_repset_table_info` for a set that publishes inserts
only, then for one that publishes updates only: the second answer says that inserts are
published. -/
theorem call_of_other_sets : ∃ calls s,
    trace Session.step (.start twoSets ⟨false, .zero⟩) [.call 1 7 [insertSet], .call 1 7 [updateSet]] =
      some (calls, s) ∧ ∃ c ∈ calls, ¬ c.Current := by
  refine ⟨_, _, rfl, _, .tail _ (.head _), fun h => ?_⟩
  have hinsert := congrArg (fun r => r.toOption.any (·.replicateInsert)) h
  exact absurd hinsert (by decide)

end Sample

end Spock.Repset
