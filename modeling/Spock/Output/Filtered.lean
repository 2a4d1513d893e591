import Spock.Conflict.Resolve
import Spock.Output.Delivery

/-!
# Spock — a table replicated through a row filter

`spock_change_filter` evaluates the row filter on the new row of an UPDATE and, for a DELETE, on the
old tuple, of which the WAL has only the columns of the replica identity. What the subscriber needs
to know is whether the *old* row was one of those it holds: a row that an UPDATE moves into the
filter is not there to be updated, one that is moved out of it is never removed, and neither is a
deleted row if the filter reads columns outside the key.

* **`filtered_iff`** — every sequence of statements.
-/

namespace Spock.Output

open Protocol Repset Runs List Option Function

variable {Node : Type}

/-! ## The table on both sides -/

/-- A table that is published through one replication set, in which it has a row filter and no
column list, and a subscriber to that set. -/
structure Replication (Node : Type) where
  connection : Connection
  catalog : Catalog
  slotGroup : Option SlotGroup
  relid : UInt32
  repset : RepSet
  rowFilter : RowFilter
  cfg : ConflictConfig Node
  localNode : Node
  /-- The publisher, as the subscriber knows it. -/
  origin : Node
  /-- The names in the subscriber's `SpockRelation`. -/
  nspname : String
  relname : String
  /-- What `ExecSimpleRelationUpdate` raises when the new key is taken. -/
  uniqueViolation : ErrorData
  all_tables : connection.replicateOnlyTable = none
  one_set : joined (catalog.repsetTables relid) [repset] = [(⟨repset.id, none, some rowFilter⟩, repset)]
  all_actions : repset.replicateInsert = true ∧ repset.replicateUpdate = true ∧
    repset.replicateDelete = true
  last_update_wins : cfg.LastUpdateWins

abbrev Key := List (Option Datum)

/-- The publisher's table: each row with the commit time of its last change. -/
abbrev Source := Key → Option (Deformed × Int)

/-- The subscriber's table: each row with the stamp of the transaction that wrote it. -/
abbrev Target (Node : Type) := Key → Option (Deformed × CommitTimestampEntry Node)

/-- A row after a change of these columns. A value that the tuple of the WAL leaves in the TOAST
table is that of the old row. -/
def detoast (old newtuple : Deformed) : Deformed := fun attnum =>
  if newtuple attnum = some .onDisk then old attnum else newtuple attnum

/-- The row under `k` is replaced by one under `k'`. -/
def moveRow {α : Type} (t : Key → Option α) (k k' : Key) (v : α) : Key → Option α :=
  Function.update (Function.update t k none) k' (some v)

namespace Replication

variable (r : Replication Node)

def idattrs : List Nat := (r.catalog.relation r.relid).idattrs

def keyOf (row : Deformed) : Key := r.idattrs.map row

/-- `ExtractReplicaIdentity`: the old tuple of the WAL. -/
def extractReplicaIdentity (row : Deformed) : Deformed := fun attnum =>
  if attnum ∈ r.idattrs then row attnum else none

def passes (row : Deformed) : Bool := r.rowFilter row == some true

def sends (change : Change) : Bool :=
  ((Plugin.connect r.catalog [r.repset] r.slotGroup).delivers r.connection r.relid change).isSome

/-! ## The subscriber -/

/-- The stamp of a row that the apply worker writes in a transaction committed at `ts`. -/
def stamp (ts : Int) : CommitTimestampEntry Node := ⟨ts, some r.origin⟩

/-- `ExecSimpleRelationUpdate` of the row with key `k`. -/
def storeRow (target : Target Node) (k : Key) (row : Deformed) (ts : Int) :
    Except ErrorData (Target Node) :=
  if r.keyOf row ≠ k ∧ (target (r.keyOf row)).isSome = true then .error r.uniqueViolation
  else .ok (moveRow target k (r.keyOf row) (row, r.stamp ts))

variable [DecidableEq Node]

/-- `spock_handle_conflict_and_apply`, for a table without delta columns. -/
def handleConflictAndApply (target : Target Node) (k : Key)
    (localslot : Deformed × CommitTimestampEntry Node) (newtuple : Deformed) (ts : Int) :
    Except ErrorData (Target Node) := do
  let (apply, _) ← tryResolveConflict r.cfg (remoteSession r.localNode r.origin ts)
    localslot.2.nodeid localslot.2.time
  -- slot_modify_data leaves the columns that were not sent
  if apply then r.storeRow target k (detoast localslot.1 newtuple) ts else pure target

/-- `spock_apply_heap_insert`. -/
def applyHeapInsert (target : Target Node) (newtuple : Deformed) (ts : Int) :
    Except ErrorData (Target Node) :=
  match target (r.keyOf newtuple) with
  | some localslot => r.handleConflictAndApply target (r.keyOf newtuple) localslot newtuple ts
  | none => .ok (Function.update target (r.keyOf newtuple) (some (newtuple, r.stamp ts)))

/-- `spock_apply_heap_update`. -/
def applyHeapUpdate (target : Target Node) (oldtuple newtuple : Deformed) (ts : Int) :
    Except ErrorData (Target Node) :=
  match target (r.keyOf oldtuple) with
  | some localslot => r.handleConflictAndApply target (r.keyOf oldtuple) localslot newtuple ts
  | none => .error (elogError
      ("logical replication did not find row to be updated in replication target relation ("
        ++ r.nspname ++ "." ++ r.relname ++ ")"))

/-- `spock_apply_heap_delete`. A row that is missing is reported as a conflict, and skipped. -/
def applyHeapDelete (target : Target Node) (oldtuple : Deformed) (ts : Int) :
    Except ErrorData (Target Node) :=
  match target (r.keyOf oldtuple) with
  | some localslot => do
    let (apply, _) ← tryResolveConflict r.cfg (remoteSession r.localNode r.origin ts)
      localslot.2.nodeid localslot.2.time
    if apply then pure (Function.update target (r.keyOf oldtuple) none) else pure target
  | none => .ok target

/-- `handle_insert`, `handle_update` and `handle_delete`: without an old tuple the new one serves as
the search key. -/
def applyMessage (target : Target Node) (ts : Int) : Change → Except ErrorData (Target Node)
  | .insert newtuple => r.applyHeapInsert target newtuple ts
  | .update oldtuple newtuple => r.applyHeapUpdate target (oldtuple.getD newtuple) newtuple ts
  | .delete (some oldtuple) => r.applyHeapDelete target oldtuple ts
  | .delete none => .ok target

end Replication

/-! ## The publisher -/

/-- What a statement does to one row, in a transaction committed at `ts`. -/
inductive Statement where
  | insert (row : Deformed) (ts : Int)
  | update (k : Key) (newtuple : Deformed) (ts : Int)
  | delete (k : Key) (ts : Int)

def Statement.ts : Statement → Int
  | .insert _ ts | .update _ _ ts | .delete _ ts => ts

/-- A statement that was executed: the table after it, its change as the row filter sees it (which
reads a value in the TOAST table from there) and as the WAL has it. -/
structure Executed where
  source : Source
  change : Change
  message : Change

namespace Replication

variable (r : Replication Node)

/-- The old tuple of an UPDATE is in the WAL if the key is not in the new one. -/
def oldtuple (k : Key) (old newtuple : Deformed) : Option Deformed :=
  if r.keyOf newtuple = k then none else some (r.extractReplicaIdentity old)

/-- The statement on the publisher. It needs a row under the key, none under a new key, and a commit
that is not before the one that last changed the row, whose lock it has waited for. -/
def execute (source : Source) : Statement → Option Executed
  | .insert row ts =>
    if (source (r.keyOf row)).isSome then none
    else some ⟨Function.update source (r.keyOf row) (some (row, ts)), .insert row, .insert row⟩
  | .update k newtuple ts =>
    match source k with
    | none => none
    | some (old, changed) =>
      let row := detoast old newtuple
      if ts < changed ∨ (r.keyOf row ≠ k ∧ (source (r.keyOf row)).isSome = true) then none
      else some
        { source := moveRow source k (r.keyOf row) (row, ts)
          change := .update (r.oldtuple k old newtuple) row
          message := .update (r.oldtuple k old newtuple) newtuple }
  | .delete k ts =>
    match source k with
    | none => none
    | some (old, changed) =>
      let change := .delete (some (r.extractReplicaIdentity old))
      if ts < changed then none else some ⟨Function.update source k none, change, change⟩

end Replication

/-- `raised` says that an apply error has stopped the replication of the table. -/
structure Tables (Node : Type) where
  source : Source
  target : Target Node
  raised : Bool

namespace Replication

section Step

variable [DecidableEq Node] (r : Replication Node)

def stream (s : Tables Node) (x : Executed) (ts : Int) : Tables Node :=
  if s.raised || !r.sends x.change then { s with source := x.source }
  else
    match r.applyMessage s.target ts x.message with
    | .ok target => { s with source := x.source, target := target }
    | .error _ => { s with source := x.source, raised := true }

def step (s : Tables Node) (e : Statement) : Option (Tables Node) :=
  (r.execute s.source e).map fun x => r.stream s x e.ts

end Step

variable (r : Replication Node)

/-! ## What is claimed, and when -/

def Filtered (s : Tables Node) : Prop :=
  ∀ k, (s.target k).map Prod.fst = ((s.source k).map Prod.fst).filter r.passes

def Good (s : Tables Node) : Prop := s.raised = false ∧ r.Filtered s

/-- An UPDATE does not move a row into the filter or out of it, and of a row in the filter that is
deleted the key alone satisfies the filter. -/
def KeepsFiltered (s : Tables Node) : Statement → Prop
  | .insert .. => True
  | .update k newtuple _ => ∀ old changed, s.source k = some (old, changed) →
      r.passes (detoast old newtuple) = r.passes old
  | .delete k _ => ∀ old changed, s.source k = some (old, changed) →
      r.passes old = true → r.passes (r.extractReplicaIdentity old) = true

/-! ## What is sent -/

/-- **The stream of one set with one filter.** -/
theorem sends_eq {change : Change} (h : change.isSendable = true) :
    r.sends change = change.row.any r.passes := by
  obtain ⟨row, hrow⟩ := Change.exists_row h
  have hjoined := r.one_set
  have hown : r.relid ≠ r.catalog.queueTableOid ∧ r.relid ≠ r.catalog.replicationSetRelOid := by
    have hmem : (⟨r.repset.id, none, some r.rowFilter⟩, r.repset) ∈
        joined (r.catalog.repsetTables r.relid) [r.repset] := by
      rw [hjoined]
      exact mem_singleton_self _
    exact ne_own_of_mem (mem_joined.1 hmem).1
  have hallows : allowsAction r.repset.toActions change = true := by
    cases change with
    | insert => exact r.all_actions.1
    | update => exact r.all_actions.2.1
    | delete => exact r.all_actions.2.2
  rw [Bool.eq_iff_iff, sends, isSome_iff_exists, hrow, any_some]
  constructor
  · rintro ⟨columns, hcolumns⟩
    obtain ⟨-, -, -, hpass, -⟩ := (delivers_eq_some_iff r.all_tables hown).1 hcolumns
    rw [hjoined] at hpass
    exact hpass row hrow _ (mem_singleton_self _)
  · intro hpass
    refine ⟨_, (delivers_eq_some_iff r.all_tables hown).2 ⟨h, ?_, ?_, ?_, rfl⟩⟩
    · rw [hjoined]
      exact nofun
    · exact ⟨_, hjoined ▸ mem_singleton_self _, hallows⟩
    · rw [hjoined]
      rintro row' hrow' p hp
      cases mem_singleton.1 hp
      cases hrow.symm.trans hrow'
      exact hpass

/-! ## One key -/

/-- A change committed at `t` or later wins over a row with this stamp: it was written before, or
from the same origin. -/
def Yields (t : Int) (entry : CommitTimestampEntry Node) : Prop :=
  entry.time < t ∨ (entry.time = t ∧ entry.nodeid = some r.origin)

/-- **One key.** What the publisher and the subscriber have under it. -/
structure RowOk (k : Key) (p : Option (Deformed × Int))
    (q : Option (Deformed × CommitTimestampEntry Node)) : Prop where
  filtered : q.map Prod.fst = (p.map Prod.fst).filter r.passes
  keyed : ∀ row t, p = some (row, t) → r.keyOf row = k
  yields : ∀ row t row' entry, p = some (row, t) → q = some (row', entry) → r.Yields t entry

/-- The subscriber holds the filtered table, in rows that the stream may overwrite. -/
structure Synced (s : Tables Node) : Prop where
  raised : s.raised = false
  rows : ∀ k, r.RowOk k (s.source k) (s.target k)

variable {r} {s s' : Tables Node} {k : Key}

theorem Synced.good (h : r.Synced s) : r.Good s := ⟨h.raised, fun k => (h.rows k).filtered⟩

theorem rowOk_none (k : Key) : r.RowOk k none none := ⟨rfl, nofun, nofun⟩

variable {row : Deformed} {q : Option (Deformed × CommitTimestampEntry Node)}

theorem rowOk_sent (hkey : r.keyOf row = k) (hpass : r.passes row = true) (ts : Int) :
    r.RowOk k (some (row, ts)) (some (row, r.stamp ts)) where
  filtered := (filter_some_pos hpass).symm
  keyed := by
    rintro _ _ ⟨⟩
    exact hkey
  yields := by
    rintro _ _ _ _ ⟨⟩ ⟨⟩
    exact .inr ⟨rfl, rfl⟩

theorem rowOk_notSent (hkey : r.keyOf row = k) (hpass : r.passes row = false) (ts : Int) :
    r.RowOk k (some (row, ts)) none where
  filtered := (filter_some_neg hpass).symm
  keyed := by
    rintro _ _ ⟨⟩
    exact hkey
  yields := nofun

theorem RowOk.target_none (h : r.RowOk k none q) : q = none := map_eq_none_iff.1 h.filtered

variable {t : Int} {source : Source} {target : Target Node} {p : Option (Deformed × Int)}
  {old : Deformed}

theorem RowOk.not_passes (h : r.RowOk k (some (row, t)) q) (hpass : r.passes row = false) :
    q = none := by
  have hfiltered := h.filtered
  rw [map_some, filter_some_neg hpass] at hfiltered
  exact map_eq_none_iff.1 hfiltered

theorem RowOk.of_passes (h : r.RowOk k (some (row, t)) q) (hpass : r.passes row = true) :
    ∃ entry, q = some (row, entry) ∧ r.Yields t entry := by
  have hfiltered := h.filtered
  rw [map_some, filter_some_pos hpass] at hfiltered
  obtain ⟨⟨_, entry⟩, rfl, rfl⟩ := map_eq_some_iff.1 hfiltered
  exact ⟨entry, rfl, h.yields _ _ _ _ rfl rfl⟩

theorem rowOk_update (h : ∀ k, r.RowOk k (source k) (target k)) (hk : r.RowOk k p q) (k' : Key) :
    r.RowOk k' (update source k p k') (update target k q k') := by
  by_cases heq : k' = k
  · subst heq
    rwa [update_self, update_self]
  · rw [update_of_ne heq, update_of_ne heq]
    exact h k'

theorem rowOk_update_source (h : ∀ k, r.RowOk k (source k) (target k)) (hk : r.RowOk k p (target k))
    (k' : Key) : r.RowOk k' (update source k p k') (target k') := by
  have := rowOk_update h hk k'
  rwa [update_eq_self] at this

/-! ## One statement -/

theorem keyOf_extractReplicaIdentity (row : Deformed) :
    r.keyOf (r.extractReplicaIdentity row) = r.keyOf row := by
  refine map_congr_left fun attnum hmem => ?_
  exact if_pos hmem

theorem keyOf_oldtuple (hkey : r.keyOf old = k) (newtuple : Deformed) :
    r.keyOf ((r.oldtuple k old newtuple).getD newtuple) = k := by
  unfold oldtuple
  split
  · assumption
  · rw [getD_some, keyOf_extractReplicaIdentity, hkey]

theorem not_good_of_left (hs : r.Synced s) (hk : s.source k = some (old, t))
    (hpass : r.passes old = true) (hgone : ((source k).map Prod.fst).filter r.passes = none) :
    ¬ r.Good { s with source := source } := by
  intro hgood
  obtain ⟨_, htarget, -⟩ := RowOk.of_passes (hk ▸ hs.rows k) hpass
  have hfiltered : (s.target k).map Prod.fst = ((source k).map Prod.fst).filter r.passes :=
    hgood.2 k
  rw [htarget, hgone] at hfiltered
  cases hfiltered

section Step

variable [DecidableEq Node]

variable {ts : Int}

variable {entry : CommitTimestampEntry Node} {e : Statement} {change message : Change}
  {newtuple : Deformed}

theorem resolve_of_yields (h : r.Yields t entry) (hle : t ≤ ts) :
    ∃ resolution, tryResolveConflict r.cfg
      (remoteSession r.localNode r.origin ts) entry.nodeid entry.time = .ok (true, resolution) := by
  obtain ⟨resolution, hresolve⟩ := tryResolveConflict_lastUpdateWins r.last_update_wins r.localNode
    r.origin ts entry.nodeid entry.time
  have hwins : remoteWins r.cfg r.localNode r.origin ts ⟨entry.time, entry.nodeid⟩ := by
    rcases h with hlt | ⟨heq, hsame⟩
    · exact .inl (by show entry.time < ts; omega)
    · rcases Int.lt_or_eq_of_le hle with hlt | rfl
      · exact .inl (by show entry.time < ts; omega)
      · exact .inr ⟨heq, .inl hsame⟩
  refine ⟨resolution, ?_⟩
  rw [hresolve, decide_eq_true hwins]

theorem step_cases (hstep : r.step s e = some s') :
    (∃ row ts, e = .insert row ts ∧ s.source (r.keyOf row) = none ∧
      s' = r.stream s ⟨update s.source (r.keyOf row) (some (row, ts)), .insert row,
        .insert row⟩ ts) ∨
    (∃ k newtuple ts old t, e = .update k newtuple ts ∧ s.source k = some (old, t) ∧ t ≤ ts ∧
      (r.keyOf (detoast old newtuple) = k ∨ s.source (r.keyOf (detoast old newtuple)) = none) ∧
      s' = r.stream s ⟨moveRow s.source k (r.keyOf (detoast old newtuple)) (detoast old newtuple, ts),
        .update (r.oldtuple k old newtuple) (detoast old newtuple),
        .update (r.oldtuple k old newtuple) newtuple⟩ ts) ∨
    (∃ k ts old t, e = .delete k ts ∧ s.source k = some (old, t) ∧ t ≤ ts ∧
      s' = r.stream s ⟨update s.source k none, .delete (some (r.extractReplicaIdentity old)),
        .delete (some (r.extractReplicaIdentity old))⟩ ts) := by
  obtain ⟨x, hx, rfl⟩ := map_eq_some_iff.1 hstep
  cases e with
  | insert row ts =>
    obtain ⟨hnone, hx⟩ := ite_none_left_eq_some.1 hx
    cases hx
    exact .inl ⟨row, ts, rfl, not_isSome_iff_eq_none.1 hnone, rfl⟩
  | update k newtuple ts =>
    unfold execute at hx
    cases hk : s.source k with
    | none => simp only [hk] at hx; cases hx
    | some p =>
      simp only [hk] at hx
      obtain ⟨hnot, hx⟩ := ite_none_left_eq_some.1 hx
      cases hx
      rw [not_or, Int.not_lt, not_and_or, not_not, not_isSome_iff_eq_none] at hnot
      exact .inr (.inl ⟨k, newtuple, ts, p.1, p.2, rfl, hk, hnot.1, hnot.2, rfl⟩)
  | delete k ts =>
    unfold execute at hx
    cases hk : s.source k with
    | none => simp only [hk] at hx; cases hx
    | some p =>
      simp only [hk] at hx
      obtain ⟨hnot, hx⟩ := ite_none_left_eq_some.1 hx
      cases hx
      exact .inr (.inr ⟨k, ts, p.1, p.2, rfl, hk, Int.not_lt.1 hnot, rfl⟩)

theorem stream_notSent (h : r.sends change = false) (ts : Int) :
    r.stream s ⟨source, change, message⟩ ts = { s with source := source } := by
  unfold stream
  rw [h, Bool.not_false, Bool.or_true, if_pos rfl]

theorem stream_sent (hraised : s.raised = false) (h : r.sends change = true)
    (happly : r.applyMessage s.target ts message = .ok target) :
    r.stream s ⟨source, change, message⟩ ts = { s with source := source, target := target } := by
  unfold stream
  rw [hraised, h, happly]
  rfl

theorem synced_insert (hs : r.Synced s) (hnone : s.source (r.keyOf row) = none) :
    r.Synced (r.stream s ⟨update s.source (r.keyOf row) (some (row, ts)), .insert row,
      .insert row⟩ ts) := by
  have htarget : s.target (r.keyOf row) = none := (hnone ▸ hs.rows (r.keyOf row)).target_none
  have hsends : r.sends (.insert row) = r.passes row := r.sends_eq rfl
  cases hpass : r.passes row with
  | false =>
    rw [stream_notSent (hsends.trans hpass)]
    refine ⟨hs.raised, rowOk_update_source hs.rows ?_⟩
    rw [htarget]
    exact rowOk_notSent rfl hpass ts
  | true =>
    have happly : r.applyMessage s.target ts (.insert row) =
        .ok (update s.target (r.keyOf row) (some (row, r.stamp ts))) := by
      show r.applyHeapInsert s.target row ts = _
      rw [applyHeapInsert, htarget]
    rw [stream_sent hs.raised (hsends.trans hpass) happly]
    exact ⟨hs.raised, rowOk_update hs.rows (rowOk_sent rfl hpass ts)⟩

theorem applyHeapUpdate_of_yields (hkey : r.keyOf old = k) (htarget : target k = some (old, entry))
    (hyields : r.Yields t entry) (hle : t ≤ ts)
    (hfree : r.keyOf (detoast old newtuple) = k ∨ target (r.keyOf (detoast old newtuple)) = none) :
    r.applyMessage target ts (.update (r.oldtuple k old newtuple) newtuple) =
      .ok (moveRow target k (r.keyOf (detoast old newtuple)) (detoast old newtuple, r.stamp ts)) := by
  obtain ⟨_, hresolve⟩ := resolve_of_yields hyields hle
  show r.applyHeapUpdate target ((r.oldtuple k old newtuple).getD newtuple) newtuple ts = _
  unfold applyHeapUpdate
  rw [keyOf_oldtuple hkey, htarget]
  dsimp only
  unfold handleConflictAndApply
  rw [hresolve]
  show r.storeRow target k (detoast old newtuple) ts = _
  unfold storeRow
  rw [if_neg]
  rintro ⟨hne, hsome⟩
  rcases hfree with heq | hnone
  · exact hne heq
  · rw [hnone] at hsome
    cases hsome

theorem synced_update (hs : r.Synced s) (hk : s.source k = some (old, t)) (hle : t ≤ ts)
    (hfree : r.keyOf (detoast old newtuple) = k ∨ s.source (r.keyOf (detoast old newtuple)) = none)
    (hsame : r.passes (detoast old newtuple) = r.passes old) :
    r.Synced (r.stream s
      ⟨moveRow s.source k (r.keyOf (detoast old newtuple)) (detoast old newtuple, ts),
        .update (r.oldtuple k old newtuple) (detoast old newtuple),
        .update (r.oldtuple k old newtuple) newtuple⟩ ts) := by
  have hrow : r.RowOk k (some (old, t)) (s.target k) := hk ▸ hs.rows k
  have hkey := hrow.keyed old t rfl
  have hsends : r.sends (.update (r.oldtuple k old newtuple) (detoast old newtuple)) =
      r.passes (detoast old newtuple) := r.sends_eq rfl
  generalize hnew : detoast old newtuple = row at *
  have hfree' : r.keyOf row = k ∨ s.target (r.keyOf row) = none :=
    hfree.imp_right fun hnone => (hnone ▸ hs.rows (r.keyOf row)).target_none
  cases hpass : r.passes row with
  | false =>
    rw [stream_notSent (hsends.trans hpass)]
    have hnone : s.target k = none := hrow.not_passes (hsame ▸ hpass)
    refine ⟨hs.raised, rowOk_update_source (rowOk_update_source hs.rows ?_) ?_⟩
    · rw [hnone]
      exact rowOk_none k
    · rw [hfree'.elim (fun heq => heq ▸ hnone) id]
      exact rowOk_notSent rfl hpass ts
  | true =>
    obtain ⟨_, htarget, hyields⟩ := hrow.of_passes (hsame ▸ hpass)
    subst hnew
    rw [stream_sent hs.raised (hsends.trans hpass)
      (applyHeapUpdate_of_yields hkey htarget hyields hle hfree')]
    exact ⟨hs.raised, rowOk_update (rowOk_update hs.rows (rowOk_none k)) (rowOk_sent rfl hpass ts)⟩

theorem synced_delete (hs : r.Synced s) (hk : s.source k = some (old, t)) (hle : t ≤ ts)
    (hsame : r.passes old = true → r.passes (r.extractReplicaIdentity old) = true) :
    r.Synced (r.stream s ⟨update s.source k none,
      .delete (some (r.extractReplicaIdentity old)), .delete (some (r.extractReplicaIdentity old))⟩
      ts) := by
  have hrow : r.RowOk k (some (old, t)) (s.target k) := hk ▸ hs.rows k
  have hkey : r.keyOf (r.extractReplicaIdentity old) = k :=
    (keyOf_extractReplicaIdentity old).trans (hrow.keyed old t rfl)
  have hsends : r.sends (.delete (some (r.extractReplicaIdentity old))) =
      r.passes (r.extractReplicaIdentity old) := r.sends_eq rfl
  cases hpass : r.passes old with
  | false =>
    have hnone : s.target k = none := hrow.not_passes hpass
    have hsource : ∀ k', r.RowOk k' (update s.source k none k') (s.target k') := by
      refine rowOk_update_source hs.rows ?_
      rw [hnone]
      exact rowOk_none k
    cases hsent : r.passes (r.extractReplicaIdentity old) with
    | false =>
      rw [stream_notSent (hsends.trans hsent)]
      exact ⟨hs.raised, hsource⟩
    | true =>
      have happly : r.applyMessage s.target ts (.delete (some (r.extractReplicaIdentity old))) =
          .ok s.target := by
        show r.applyHeapDelete s.target (r.extractReplicaIdentity old) ts = _
        rw [applyHeapDelete, hkey, hnone]
      rw [stream_sent hs.raised (hsends.trans hsent) happly]
      exact ⟨hs.raised, hsource⟩
  | true =>
    obtain ⟨_, htarget, hyields⟩ := hrow.of_passes hpass
    obtain ⟨_, hresolve⟩ := resolve_of_yields hyields hle
    have happly : r.applyMessage s.target ts (.delete (some (r.extractReplicaIdentity old))) =
        .ok (update s.target k none) := by
      show r.applyHeapDelete s.target (r.extractReplicaIdentity old) ts = _
      unfold applyHeapDelete
      rw [hkey, htarget]
      dsimp only
      rw [hresolve]
      rfl
    rw [stream_sent hs.raised (hsends.trans (hsame hpass)) happly]
    exact ⟨hs.raised, rowOk_update hs.rows (rowOk_none k)⟩

/-- **The condition is sufficient.** -/
theorem synced_step (hs : r.Synced s) (hkeeps : r.KeepsFiltered s e) (hstep : r.step s e = some s') :
    r.Synced s' := by
  obtain ⟨row, ts, rfl, hnone, rfl⟩ | ⟨k, newtuple, ts, old, t, rfl, hk, hle, hfree, rfl⟩ |
    ⟨k, ts, old, t, rfl, hk, hle, rfl⟩ := step_cases hstep
  · exact synced_insert hs hnone
  · exact synced_update hs hk hle hfree (hkeeps old t hk)
  · exact synced_delete hs hk hle (hkeeps old t hk)

/-- **The condition is necessary.** -/
theorem keepsFiltered_of_good (hs : r.Synced s) (hstep : r.step s e = some s') (hgood : r.Good s') :
    r.KeepsFiltered s e := by
  obtain ⟨row, ts, rfl, -⟩ | ⟨k, newtuple, ts, old, t, rfl, hk, -, -, rfl⟩ |
    ⟨k, ts, old, t, rfl, hk, -, rfl⟩ := step_cases hstep
  · trivial
  · rintro old' t' hk'
    cases hk.symm.trans hk'
    have hsends : r.sends (.update (r.oldtuple k old newtuple) (detoast old newtuple)) =
        r.passes (detoast old newtuple) := r.sends_eq rfl
    have hkey := (hk ▸ hs.rows k).keyed old t rfl
    cases hnew : r.passes (detoast old newtuple) with
    | false =>
      cases hold : r.passes old with
      | false => rfl
      | true =>
        -- moved out of the filter: nothing is sent
        rw [stream_notSent (hsends.trans hnew)] at hgood
        refine absurd hgood (not_good_of_left hs hk hold ?_)
        unfold moveRow
        by_cases heq : k = r.keyOf (detoast old newtuple)
        · rw [heq, update_self, map_some]
          exact filter_some_neg hnew
        · rw [update_of_ne heq, update_self]
          rfl
    | true =>
      cases hold : r.passes old with
      | true => rfl
      | false =>
        -- moved into the filter: there is no row to update
        have hnone : s.target k = none := RowOk.not_passes (hk ▸ hs.rows k) hold
        refine absurd hgood.1 ?_
        unfold stream
        rw [hs.raised, hsends, hnew]
        dsimp only [applyMessage]
        unfold applyHeapUpdate
        rw [keyOf_oldtuple hkey, hnone]
        exact Bool.true_eq_false.mp
  · rintro old' t' hk' hold
    cases hk.symm.trans hk'
    have hsends : r.sends (.delete (some (r.extractReplicaIdentity old))) =
        r.passes (r.extractReplicaIdentity old) := r.sends_eq rfl
    cases hpass : r.passes (r.extractReplicaIdentity old) with
    | true => rfl
    | false =>
      rw [stream_notSent (hsends.trans hpass)] at hgood
      refine absurd hgood (not_good_of_left hs hk hold ?_)
      rw [update_self]
      rfl

/-- **Every sequence of statements.** From a filtered table whose rows are stamped before the last
change of the publisher's rows, or by the publisher: it goes through without an error and leaves the
filtered table, with each of its prefixes, if and only if no statement moves a row across the filter
or deletes a row whose key alone does not satisfy it. -/
theorem filtered_iff (r : Replication Node) {s₀ s : Tables Node} {statements : List Statement}
    (hgood : r.Good s₀) (hkeyed : ∀ k row t, s₀.source k = some (row, t) → r.keyOf row = k)
    (hstamps : ∀ k row t row' entry, s₀.source k = some (row, t) → s₀.target k = some (row', entry) →
      r.Yields t entry)
    (hrun : run r.step s₀ statements = some s) :
    (∀ pre s₁, pre <+: statements → run r.step s₀ pre = some s₁ → r.Good s₁) ↔
      Along r.step r.KeepsFiltered s₀ statements := by
  have hstart : r.Synced s₀ := ⟨hgood.1, fun k => ⟨hgood.2 k, hkeyed k, hstamps k⟩⟩
  exact prefixes_iff_along (fun _ => Synced.good) (fun _ _ _ => synced_step)
    (fun _ _ _ => keepsFiltered_of_good) hstart hrun

end Step

end Replication

/-! ### A filter on a column outside the key -/

section Sample

/-- The table with key `a`, published by a set with this filter. -/
def sampleReplication (rowFilter : RowFilter) : Replication (Fin 2) where
  connection := sampleConnection none
  catalog := sampleCatalog [⟨1, none, some rowFilter⟩] fun _ => none
  slotGroup := none
  relid := 7
  repset := fullSet 1
  rowFilter := rowFilter
  cfg := numberedNodes 2
  localNode := nodeA
  origin := nodeB
  nspname := "public"
  relname := "t"
  uniqueViolation := ⟨.uniqueViolation, "duplicate key value violates unique constraint \"t_pkey\""⟩
  all_tables := rfl
  one_set := rfl
  all_actions := ⟨rfl, rfl, rfl⟩
  last_update_wins := numberedNodes_lastUpdateWins 2

/-- `b = 1`. -/
def bIsOne : RowFilter := fun row => (row 2).map (· == .byVal [1])

/-- The row `(a, b)`. -/
def sampleTuple (a b : UInt8) : Deformed
  | 1 => some (.byVal [a])
  | 2 => some (.byVal [b])
  | _ => none

def sampleKey (a : UInt8) : Key := [some (.byVal [a])]

def noRows : Tables (Fin 2) := ⟨fun _ => none, fun _ => none, false⟩

theorem good_noRows (rowFilter : RowFilter) : (sampleReplication rowFilter).Good noRows :=
  ⟨rfl, fun _ => rfl⟩

def sampleRun (statements : List Statement) : Option (Tables (Fin 2)) :=
  run (sampleReplication bIsOne).step noRows statements

/-- Rows stay on their side of the filter, and the deleted one is outside. -/
def sampleStatements : List Statement :=
  [.insert (sampleTuple 5 1) 10, .insert (sampleTuple 6 0) 11,
    .update (sampleKey 6) (sampleTuple 7 0) 12, .update (sampleKey 5) (sampleTuple 8 1) 13,
    .delete (sampleKey 7) 14]

/-- **Satisfiable.** -/
theorem filtered_iff_sample : (sampleRun sampleStatements).isSome = true ∧
    ∀ pre s₁, pre <+: sampleStatements → sampleRun pre = some s₁ →
      (sampleReplication bIsOne).Good s₁ := by
  have hsome : (sampleRun sampleStatements).isSome = true := by decide
  obtain ⟨s, hrun⟩ := isSome_iff_exists.1 hsome
  refine ⟨hsome, (Replication.filtered_iff _ (good_noRows bIsOne) nofun nofun hrun).2 ?_⟩
  refine .cons trivial rfl (.cons trivial rfl (.cons ?_ rfl (.cons ?_ rfl (.cons ?_ rfl
    (along_nil _ _)))))
  · rintro _ _ ⟨⟩
    rfl
  · rintro _ _ ⟨⟩
    rfl
  · rintro _ _ ⟨⟩ hpass
    exact absurd hpass (by decide)

theorem not_filtered {s : Tables (Fin 2)} {r : Replication (Fin 2)} {k : Key}
    (h : ((((s.source k).map Prod.fst).filter r.passes).isSome, (s.target k).isSome) = (false, true)) :
    ¬ r.Filtered s := by
  intro hfiltered
  have hsome := congrArg Option.isSome (hfiltered k)
  rw [isSome_map, (Prod.mk.inj h).1, (Prod.mk.inj h).2] at hsome
  cases hsome

/-- A row of the filter that the publisher last changed at 5 and that was copied at 20. -/
def lateCopy : Tables (Fin 2) where
  source k := if k = sampleKey 5 then some (sampleTuple 5 1, 5) else none
  target k := if k = sampleKey 5 then some (sampleTuple 5 1, ⟨20, some nodeA⟩) else none
  raised := false

theorem good_lateCopy : (sampleReplication bIsOne).Good lateCopy := by
  refine ⟨rfl, fun k => ?_⟩
  by_cases hk : k = sampleKey 5
  · simp only [lateCopy, hk, if_true]
    rfl
  · simp only [lateCopy, hk, if_false]
    rfl

/-- **Rows on the wrong side of the filter.** A row moved out of the filter stays on the subscriber,
one moved into it is not there to be updated, and a deleted row stays, since its key does not say
whether `b = 1`. **And a row with a late stamp**, which wins over a change that stays in the filter. -/
theorem filtered_not : (sampleReplication bIsOne).Good noRows ∧
    (∃ s, sampleRun [.insert (sampleTuple 5 1) 10, .update (sampleKey 5) (sampleTuple 5 0) 11] = some s ∧
      ¬ (sampleReplication bIsOne).Filtered s) ∧
    (∃ s, sampleRun [.insert (sampleTuple 5 0) 10, .update (sampleKey 5) (sampleTuple 5 1) 11] = some s ∧
      s.raised = true) ∧
    (∃ s, sampleRun [.insert (sampleTuple 5 1) 10, .delete (sampleKey 5) 11] = some s ∧
      ¬ (sampleReplication bIsOne).Filtered s) ∧
    (sampleReplication bIsOne).Good lateCopy ∧
    ∃ s, run (sampleReplication bIsOne).step lateCopy [.update (sampleKey 5) (sampleTuple 8 1) 10] =
      some s ∧ ¬ (sampleReplication bIsOne).Filtered s := by
  have hleft : ∀ start statements, (run (sampleReplication bIsOne).step start statements).map (fun s =>
        ((((s.source (sampleKey 5)).map Prod.fst).filter (sampleReplication bIsOne).passes).isSome,
          (s.target (sampleKey 5)).isSome)) = some (false, true) →
      ∃ s, run (sampleReplication bIsOne).step start statements = some s ∧
        ¬ (sampleReplication bIsOne).Filtered s := by
    intro start statements h
    obtain ⟨s, hrun, hs⟩ := map_eq_some_iff.1 h
    exact ⟨s, hrun, not_filtered hs⟩
  refine ⟨good_noRows bIsOne, hleft _ _ (by decide), ?_, hleft _ _ (by decide), good_lateCopy,
    hleft _ _ (by decide)⟩
  exact map_eq_some_iff.1 (by decide : (sampleRun [.insert (sampleTuple 5 0) 10,
    .update (sampleKey 5) (sampleTuple 5 1) 11]).map (·.raised) = some true)

end Sample

end Spock.Output
