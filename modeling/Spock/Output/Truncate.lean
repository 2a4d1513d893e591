import Spock.Output.Sends

/-!
# Spock — which truncates are sent

`pg_decode_truncate` has its own way to the replication sets: it asks for the sets of the *node*
that a relation is in, not for those of the connection, and it does not look at
`replicate_only_table`.

* **`truncate_sends_iff`** — this is what the connection has subscribed to exactly under a condition
  on the sets of the truncated relations.
-/

namespace Spock.Output

open Protocol Repset Outcome List

/-! ## What is to be sent -/

/-- The relation is in a set of the node that has `replicate_truncate`. -/
def nodeTruncates (c : Connection) (cat : Catalog) (relid : UInt32) : Bool :=
  (cat.repsetTables relid).any fun t =>
    (cat.repsets t.setid).any fun r => r.nodeid == c.localNodeId && r.replicateTruncate

def Plugin.publishesTruncate (c : Connection) (s : Plugin) (relid : UInt32) : Bool :=
  (s.catalog.repsetTables relid).any fun t =>
    (s.catalog.repsets t.setid).any (fun r => r.nodeid == c.localNodeId && r.replicateTruncate) &&
      s.replicationSets.any (·.id == t.setid)

def truncatedRelids : Message → List UInt32
  | .truncate relids _ _ => relids
  | _ => []

def sentRelids (s s' : Plugin) : List UInt32 :=
  (s'.sent.drop s.sent.length).flatMap truncatedRelids

/-- The ids sent are those of the published relations, and none but the one of the table if the
connection is for a single table. -/
def TruncatesAsSubscribed (c : Connection) (relids : List UInt32) (s s' : Plugin) : Prop :=
  (∀ relid, relid ∈ sentRelids s s' ↔ relid ∈ relids ∧ s.publishesTruncate c relid = true) ∧
    ∀ table, c.replicateOnlyTable = some table →
      ∀ relid ∈ sentRelids s s', c.isTable table (s.catalog.relation relid) = true

/-! ## What is sent -/

variable {cat : Catalog} {repsets : List RepSet} {c : Connection} {relid : UInt32}

theorem any_of_mapM_getReplicationSet {rows : List RepSetTable} (q : RepSet → Bool)
    (h : (rows.mapM fun t => cat.getReplicationSet t.setid) = .ok repsets) :
    repsets.any q = rows.any fun t => (cat.repsets t.setid).any q := by
  induction rows generalizing repsets with
  | nil =>
    cases h
    rfl
  | cons t rows ih =>
    rw [mapM_cons] at h
    unfold Catalog.getReplicationSet at h
    cases hset : cat.repsets t.setid with
    | none =>
      rw [hset] at h
      cases h
    | some =>
      rw [hset] at h
      cases hrest : rows.mapM fun t => cat.getReplicationSet t.setid with
      | error =>
        unfold Catalog.getReplicationSet at hrest
        rw [hrest] at h
        cases h
      | ok =>
        have htail := ih hrest
        unfold Catalog.getReplicationSet at hrest
        rw [hrest] at h
        cases h
        rw [any_cons, any_cons, htail, hset]
        rfl

theorem canReplicateTruncate_eq (h : cat.getTableReplicationSets c.localNodeId relid = .ok repsets) :
    canReplicateTruncate repsets = nodeTruncates c cat relid := by
  unfold Catalog.getTableReplicationSets at h
  cases hmap : (cat.repsetTables relid).mapM fun t => cat.getReplicationSet t.setid with
  | error =>
    rw [hmap] at h
    cases h
  | ok =>
    rw [hmap] at h
    cases h
    rw [canReplicateTruncate, any_filter, any_of_mapM_getReplicationSet _ hmap, nodeTruncates]

theorem ends_tableReplicationSets (c : Connection) (relid : UInt32) (s : Plugin) :
    Ends (tableReplicationSets c relid) s
      (fun repsets s' => s' = s ∧ canReplicateTruncate repsets = nodeTruncates c s.catalog relid)
      fun _ _ => True := by
  refine (ends_bind _ _).2 (ends_get.2 ?_)
  split
  · rename_i h
    exact ⟨rfl, canReplicateTruncate_eq h⟩
  · trivial

/-- **The loop.** Between the relations only their descriptions are sent. -/
theorem ends_truncateLoop (c : Connection) (relids : List UInt32) (s : Plugin) :
    Ends (truncateLoop c relids) s
      (fun ids s' => ids = relids.filter (nodeTruncates c s.catalog) ∧ Sends isRelation s s')
      fun _ _ => True := by
  induction relids generalizing s with
  | nil => exact ⟨rfl, Std.Refl.refl s⟩
  | cons relid _ ih =>
    refine (ends_tableReplicationSets c relid s).bind ?_
    rintro repsets _ ⟨rfl, hcan⟩
    rename_i s
    refine ends_ite.2 ⟨fun h => ?_, fun h => ?_⟩
    · rw [hcan] at h
      have hschema : Keeps (Sends isRelation) (maybeSendSchema c (s.catalog.relation relid)) :=
        keeps_maybeSendSchema c (fun _ _ => rfl) _
      refine (ends_bind _ _).2 (ends_get.2 ((ends_bind _ _).2 ?_))
      refine (hschema s).mono ?_ fun _ _ _ => trivial
      intro _ s₁ h₁
      refine (ih s₁).bind ?_
      rintro ids s₂ ⟨rfl, h₂⟩
      refine ⟨?_, IsTrans.trans _ _ _ h₁ h₂⟩
      rw [filter_cons_of_pos h, h₁.catalog]
    · rw [hcan] at h
      rw [filter_cons_of_neg h]
      exact ih s

def Plugin.isQuiet (s : Plugin) : Bool := s.slotGroupSkipXact || s.repairMode

theorem sentRelids_of_relations {s s' : Plugin} {out : List Message} (rest : List Message)
    (hsent : s'.sent = s.sent ++ (out ++ rest)) (hout : ∀ m ∈ out, isRelation m = true) :
    sentRelids s s' = rest.flatMap truncatedRelids := by
  have hnone : out.flatMap truncatedRelids = [] := by
    refine flatMap_eq_nil_iff.2 fun m hm => ?_
    have hm := hout m hm
    cases m <;> first | rfl | cases hm
  rw [sentRelids, hsent, drop_left, flatMap_append, hnone, nil_append]

theorem ends_pgDecodeTruncate (c : Connection) (relids : List UInt32) (cascade restartSeqs : Bool)
    (s : Plugin) :
    Ends (pgDecodeTruncate c relids cascade restartSeqs) s
      (fun _ s' => sentRelids s s' =
        if s.isQuiet then [] else relids.filter (nodeTruncates c s.catalog))
      fun _ _ => True := by
  refine (ends_bind _ _).2 (ends_get.2 ?_)
  cases hquiet : s.isQuiet with
  | true =>
    rw [show (s.slotGroupSkipXact || s.repairMode) = true from hquiet]
    show sentRelids s s = []
    rw [sentRelids, drop_length, flatMap_nil]
  | false =>
    rw [show (s.slotGroupSkipXact || s.repairMode) = false from hquiet]
    refine (ends_truncateLoop c relids s).bind ?_
    rintro ids s₁ ⟨rfl, h₁⟩
    obtain ⟨_, hsent, hout⟩ := h₁.sent
    cases hids : relids.filter (nodeTruncates c s.catalog) with
    | nil =>
      show sentRelids s s₁ = []
      exact sentRelids_of_relations [] (by rw [hsent, append_nil]) hout
    | cons relid ids =>
      have hwrite : ∃ bytes,
          c.publisher.write (.truncate (relid :: ids) cascade restartSeqs) = .ok bytes := ⟨_, rfl⟩
      obtain ⟨_, hwrite⟩ := hwrite
      refine (ends_emit c hwrite).2 ?_
      show sentRelids s _ = relid :: ids
      rw [sentRelids_of_relations [.truncate (relid :: ids) cascade restartSeqs]
        (by rw [hsent, append_assoc]) hout]
      exact append_nil (relid :: ids)

theorem nodeTruncates_of_publishes {s : Plugin} (h : s.publishesTruncate c relid = true) :
    nodeTruncates c s.catalog relid = true := by
  obtain ⟨t, ht, hset⟩ := any_eq_true.1 h
  exact any_eq_true.2 ⟨t, ht, (Bool.and_eq_true _ _ ▸ hset).1⟩

/-- What the truncated relations have to be like: while the callback is on, a relation in a set of
the node that publishes truncates is in one that the connection has subscribed to, and is its only
table if it has one; while it is off, no relation is published. -/
def TruncateCondition (c : Connection) (relids : List UInt32) (s : Plugin) : Prop :=
  ∀ relid ∈ relids,
    if s.isQuiet then s.publishesTruncate c relid = false
    else nodeTruncates c s.catalog relid = true → s.publishesTruncate c relid = true ∧
      ∀ table, c.replicateOnlyTable = some table → c.isTable table (s.catalog.relation relid) = true

/-- **Which truncates are sent.** -/
theorem truncate_sends_iff (c : Connection) (relids : List UInt32) (cascade restartSeqs : Bool)
    (s s' : Plugin) (hend : pgDecodeTruncate c relids cascade restartSeqs s = .ok () s') :
    TruncatesAsSubscribed c relids s s' ↔ TruncateCondition c relids s := by
  have hsent := ends_pgDecodeTruncate c relids cascade restartSeqs s
  rw [Ends, hend] at hsent
  unfold TruncatesAsSubscribed TruncateCondition
  rw [hsent]
  cases s.isQuiet with
  | true =>
    simp only [if_true, not_mem_nil, false_iff, not_and, Bool.not_eq_true, false_implies,
      implies_true, and_true]
  | false =>
    simp only [Bool.false_eq_true, if_false, mem_filter]
    constructor
    · rintro ⟨hids, htable⟩ relid hrelid hnode
      exact ⟨((hids relid).1 ⟨hrelid, hnode⟩).2, fun table h => htable table h relid ⟨hrelid, hnode⟩⟩
    · intro h
      refine ⟨fun relid => ⟨fun hr => ⟨hr.1, (h relid hr.1 hr.2).1⟩, fun hr => ?_⟩, ?_⟩
      · exact ⟨hr.1, nodeTruncates_of_publishes hr.2⟩
      · exact fun table htable relid hr => (h relid hr.1 hr.2).2 table htable

section Sample

/-- Table 7 is in sets 1 and 2 of node 1, and both publish truncates. -/
def truncatingSets : Catalog :=
  sampleCatalog [⟨1, none, none⟩, ⟨2, none, none⟩] fun id => some (fullSet id)

/-- **Satisfiable.** A connection that has subscribed to one of the sets. -/
theorem truncate_sends_iff_subscribed : ∃ s', pgDecodeTruncate (sampleConnection none) [7, 8] false false
    (.connect truncatingSets [fullSet 1] none) = .ok () s' ∧
    TruncatesAsSubscribed (sampleConnection none) [7, 8]
      (.connect truncatingSets [fullSet 1] none) s' := by
  refine ⟨_, rfl, (truncate_sends_iff _ [7, 8] false false _ _ rfl).2 ?_⟩
  intro relid hrelid
  rcases mem_cons.1 hrelid with rfl | hrelid
  · exact fun _ => ⟨by decide, nofun⟩
  · rw [mem_singleton.1 hrelid]
    exact fun h => absurd h (by decide)

/-- **Truncates that were not asked for.** The table is in set 1; a connection that has subscribed
to set 3 only is sent its truncation, and so is the connection that a table sync has opened for
another table, without any replication set. -/
theorem truncate_unsubscribed :
    (∃ s', pgDecodeTruncate (sampleConnection none) [7] false false
        (.connect truncatingSets [fullSet 3] none) = .ok () s' ∧
      ¬ TruncatesAsSubscribed (sampleConnection none) [7]
        (.connect truncatingSets [fullSet 3] none) s') ∧
    ∃ s', pgDecodeTruncate (sampleConnection (some (⟨[110], by decide⟩, ⟨[117], by decide⟩))) [7]
        false false (.connect truncatingSets [] none) = .ok () s' ∧
      ∃ relid ∈ sentRelids (.connect truncatingSets [] none) s',
        (sampleConnection none).isTable (⟨[110], by decide⟩, ⟨[117], by decide⟩)
          (truncatingSets.relation relid) = false := by
  refine ⟨⟨_, rfl, fun h => ?_⟩, _, rfl, 7, by decide, by decide⟩
  exact absurd ((h.1 7).1 (by decide)).2 (by decide)

end Sample

end Spock.Output
