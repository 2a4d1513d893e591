import Spock.Output.Sends

/-!
# Spock — tuples and the descriptions of their relations

A tuple is sent with the columns that `spock_change_filter` found in `RepSetTableHash`; the RELATION
message before it has those that `maybe_send_schema` found there, perhaps long ago, when the
relation was not yet marked in `RelMetaCache`. The subscriber reads a tuple by the last description,
so the two have to agree although they come from two caches that are not invalidated alike.

* **`tuples_match`** — along such runs every tuple has the columns of the last description.
-/

namespace Spock.Output

open Protocol Repset Outcome Runs List Function

/-! ## Descriptions -/

def columnNames (rel : Relation) (attList : Option (List Nat)) : List Name :=
  (rel.live attList).map (·.attname)

def describe (relid : UInt32) (columns : Option (List Name)) : Message → Option (List Name)
  | .relation rel attList => if rel.relid = relid then some (columnNames rel attList) else columns
  | _ => columns

def described (sent : List Message) (relid : UInt32) : Option (List Name) :=
  sent.foldl (describe relid) none

/-- **Every tuple has the columns of the last description** of its relation before it. -/
def TuplesMatch (sent : List Message) : Prop :=
  ∀ pre m post, sent = pre ++ m :: post → ∀ rel attList, tupleOf m = some (rel, attList) →
    described pre rel.relid = some (columnNames rel attList)

theorem described_append (sent : List Message) (m : Message) (relid : UInt32) :
    described (sent ++ [m]) relid = describe relid (described sent relid) m := by
  rw [described, foldl_append]
  rfl

theorem describe_of_not_relation {m : Message} (h : isRelation m = false) (relid : UInt32)
    (columns : Option (List Name)) : describe relid columns m = columns := by
  cases m with
  | relation => cases h
  | _ => rfl

theorem tuplesMatch_nil : TuplesMatch [] := by
  intro pre m post h
  exact absurd h.symm (by simp)

theorem TuplesMatch.append {sent : List Message} {m : Message} (h : TuplesMatch sent)
    (hm : ∀ rel attList, tupleOf m = some (rel, attList) →
      described sent rel.relid = some (columnNames rel attList)) : TuplesMatch (sent ++ [m]) := by
  intro pre m' post hsplit rel attList htuple
  -- the message looked at is the new one, or stands before it
  rcases eq_nil_or_concat post with rfl | ⟨post, last, rfl⟩
  · obtain ⟨rfl, hlast⟩ := append_inj' hsplit rfl
    cases hlast
    exact hm rel attList htuple
  · rw [concat_eq_append, ← cons_append, ← append_assoc] at hsplit
    obtain ⟨hinit, -⟩ := append_inj' hsplit rfl
    exact h pre m' post hinit rel attList htuple

/-! ## The columns that the catalogs say -/

def Plugin.attList (s : Plugin) (relid : UInt32) : Except ErrorData (Option (List Nat)) :=
  bitmapset <$> (listedColumns (joined (s.catalog.repsetTables relid) s.replicationSets)).mapM
    (getAttNumByName (s.catalog.relation relid).desc)

variable {s : Plugin} {relid : UInt32}

theorem attList_of_listed_eq_nil
    (h : listedColumns (joined (s.catalog.repsetTables relid) s.replicationSets) = []) :
    s.attList relid = .ok none := by
  rw [Plugin.attList, h]
  rfl

theorem attList_of_combination {info : TableRepInfo}
    (h : combination (s.catalog.relation relid).desc (s.catalog.repsetTables relid) s.replicationSets =
      .ok info) : s.attList relid = .ok info.attList := by
  unfold combination at h
  unfold Plugin.attList
  cases hmap : (listedColumns (joined (s.catalog.repsetTables relid) s.replicationSets)).mapM
      (getAttNumByName (s.catalog.relation relid).desc) with
  | error e =>
    rw [hmap] at h
    cases h
  | ok attnums =>
    rw [hmap] at h
    cases h
    rfl

theorem listedColumns_joined (rows : List RepSetTable) (repsets : List RepSet) :
    listedColumns (joined rows repsets) =
      rows.flatMap fun t => ((repsets.map (·.id)).filter (t.setid = ·)).flatMap fun _ => t.listed := by
  unfold listedColumns joined
  simp only [flatMap_assoc, filter_map, flatMap_map]
  rfl

theorem attList_congr {s' : Plugin}
    (hrows : s'.catalog.repsetTables relid = s.catalog.repsetTables relid)
    (hrelation : s'.catalog.relation relid = s.catalog.relation relid)
    (hids : s'.replicationSets.map (·.id) = s.replicationSets.map (·.id)) :
    s'.attList relid = s.attList relid := by
  rw [Plugin.attList, Plugin.attList, listedColumns_joined, listedColumns_joined, hrows, hrelation, hids]

theorem map_id_updateActions (replicated : RepSet) (repsets : List RepSet) :
    (updateActions replicated repsets).map (·.id) = repsets.map (·.id) := by
  induction repsets with
  | nil => rfl
  | cons _ _ ih =>
    unfold updateActions
    split
    · rfl
    · rw [map_cons, map_cons, ih]

/-! ## The invariant -/

/-- What a valid entry of `RepSetTableHash` has to say. -/
def Plugin.Recorded (s : Plugin) (relid : UInt32) (info : TableRepInfo) : Prop :=
  s.attList relid = .ok info.attList

def RelMetaCacheEntry.isMarked (entry : RelMetaCacheEntry) : Bool := entry.isValid && entry.isCached

def Plugin.UpToDate (s : Plugin) (relid : UInt32) : Prop :=
  ∀ attList, s.attList relid = .ok attList →
    described s.sent relid = some (columnNames (s.catalog.relation relid) attList)

/-- **The two caches agree.** -/
structure Tracked (s : Plugin) : Prop where
  hash : Memo.Sound s.Recorded s.repSetTableHash
  marked : ∀ relid entry, s.relMetaCache relid = some entry → entry.isMarked = true → s.UpToDate relid
  tuples : TuplesMatch s.sent

theorem tracked_connect (catalog : Catalog) (repsets : List RepSet) (slotGroup : Option SlotGroup) :
    Tracked (.connect catalog repsets slotGroup) :=
  ⟨Memo.sound_empty, nofun, tuplesMatch_nil⟩

theorem Tracked.setRelMeta (h : Tracked s) {entry : RelMetaCacheEntry}
    (hentry : entry.isMarked = true → s.UpToDate relid) : Tracked (s.setRelMeta relid entry) := by
  refine ⟨h.hash, fun relid' entry' hget hmarked => ?_, h.tuples⟩
  change update s.relMetaCache relid (some entry) relid' = some entry' at hget
  by_cases hrelid : relid' = relid
  · subst hrelid
    rw [update_self] at hget
    cases hget
    exact hentry hmarked
  · rw [update_of_ne hrelid] at hget
    exact h.marked relid' entry' hget hmarked

theorem Tracked.append (h : Tracked s) {m : Message} (hm : isRelation m = false)
    (htuple : ∀ rel attList, tupleOf m = some (rel, attList) →
      described s.sent rel.relid = some (columnNames rel attList)) :
    Tracked { s with sent := s.sent ++ [m] } := by
  refine ⟨h.hash, fun relid entry hget hmarked attList hok => ?_, h.tuples.append htuple⟩
  rw [described_append, describe_of_not_relation hm]
  exact h.marked relid entry hget hmarked attList hok

theorem Tracked.describe (h : Tracked s) {attList : Option (List Nat)}
    (hok : s.attList relid = .ok attList) :
    Tracked { s with sent := s.sent ++ [.relation (s.catalog.relation relid) attList] } ∧
      Plugin.UpToDate { s with sent := s.sent ++ [.relation (s.catalog.relation relid) attList] }
        relid := by
  have hself : Plugin.UpToDate
      { s with sent := s.sent ++ [.relation (s.catalog.relation relid) attList] } relid := by
    intro attList' hok'
    cases hok.symm.trans hok'
    exact (described_append ..).trans (if_pos (s.catalog.relation_relid relid))
  refine ⟨⟨h.hash, fun relid' entry hget hmarked => ?_, h.tuples.append nofun⟩, hself⟩
  by_cases hrelid : relid' = relid
  · rw [hrelid]
    exact hself
  · intro attList' hok'
    rw [described_append, Output.describe, Catalog.relation_relid, if_neg (Ne.symm hrelid)]
    exact h.marked relid' entry hget hmarked attList' hok'

abbrev Plugin.Matches (s : Plugin) : Prop := TuplesMatch s.sent

theorem upkept_tracked : Upkept Tracked Plugin.Matches where
  raised := fun h => h.tuples
  marks := fun _ _ h => h
  statics := fun _ _ _ _ _ _ h => { h with }
  -- pruning drops entries that were not marked
  prune := fun h => { h with
    marked := fun relid entry hget => h.marked relid entry (Option.filter_eq_some_iff.1 hget).1 }
  emits := fun hm htuple h => h.append hm fun _ _ hsome => nomatch htuple.symm.trans hsome

section Callbacks

variable {c : Connection}

/-! ## Lookups -/

theorem Tracked.lookup (h : Tracked s) {relid : UInt32} {info : TableRepInfo}
    (hok : (s.lookup c (s.catalog.relation relid)).1 = .ok info) :
    s.attList relid = .ok info.attList ∧
      Tracked { s with repSetTableHash := (s.lookup c (s.catalog.relation relid)).2 } := by
  rw [lookup_eq] at hok ⊢
  obtain ⟨hinfo, hsound⟩ := h.hash.lookup_ok (fun v hv => attList_of_combination hv) hok
  exact ⟨hinfo, hsound, h.marked, h.tuples⟩

theorem eq_some_of_isCached {entry : Option RelMetaCacheEntry}
    (h : (relmetacacheGetRelation entry).isCached = true) :
    ∃ e, entry = some e ∧ e.isMarked = true := by
  unfold relmetacacheGetRelation at h
  split at h
  · rename_i e
    split at h
    · rename_i hvalid
      exact ⟨e, rfl, by rw [RelMetaCacheEntry.isMarked, hvalid, h]; rfl⟩
    · cases h
  · cases h

/-- **After `maybe_send_schema` the client knows the relation.** -/
theorem tracked_maybeSendSchema (h : Tracked s) (relid : UInt32) :
    Ends (maybeSendSchema c (s.catalog.relation relid)) s
      (fun _ s' => Tracked s' ∧ s'.UpToDate relid ∧ s'.catalog = s.catalog ∧
        s'.replicationSets = s.replicationSets)
      fun _ s' => s'.Matches := by
  unfold maybeSendSchema
  simp only [Catalog.relation_relid]
  refine (ends_bind _ _).2 (ends_get.2 ((ends_bind _ _).2 ((ends_modify _).2 ?_)))
  have hmarked : (relmetacacheGetRelation (s.relMetaCache relid)).isCached = true → s.UpToDate relid := by
    intro hcached
    obtain ⟨e, hget, he⟩ := eq_some_of_isCached hcached
    exact h.marked relid e hget he
  generalize relmetacacheGetRelation (s.relMetaCache relid) = entry at hmarked
  have hentered : Tracked (s.setRelMeta relid entry) := h.setRelMeta fun hm =>
    hmarked (Bool.and_eq_true_iff.1 hm).2
  cases hcached : entry.isCached with
  | true => exact ⟨hentered, hmarked hcached, rfl, rfl⟩
  | false =>
    refine (ends_bind _ _).2 ((ends_tableReplicationInfo c _).2 ⟨fun info hok => ?_, fun _ _ => h.tuples⟩)
    obtain ⟨hattList, hlooked⟩ := Tracked.lookup hentered hok
    obtain ⟨hsent, huptodate⟩ := Tracked.describe hlooked hattList
    refine (ends_bind _ _).2 (ends_emit_of c ?_ fun _ => h.tuples)
    exact (ends_modify _).2 ⟨hsent.setRelMeta fun _ => huptodate, huptodate, rfl, rfl⟩

/-! ## Changes -/

theorem Tracked.updateActions (h : Tracked s) (replicated : RepSet) :
    Tracked { s with replicationSets := updateActions replicated s.replicationSets } := by
  have hattList : ∀ relid, Plugin.attList
      { s with replicationSets := Output.updateActions replicated s.replicationSets } relid =
      s.attList relid := fun relid => attList_congr rfl rfl (map_id_updateActions _ _)
  refine ⟨?_, ?_, h.tuples⟩
  · intro relid entry hget hvalid
    exact (hattList relid).trans (h.hash relid entry hget hvalid)
  · intro relid entry hget hmarked attList hok
    exact h.marked relid entry hget hmarked attList ((hattList relid).symm.trans hok)

theorem maintains_replicationSetChanged (change : Change) :
    Maintains Tracked Plugin.Matches (replicationSetChanged c change) := by
  unfold replicationSetChanged
  split
  · exact maintains_modify fun _ h => h.updateActions _
  · refine maintains_bind maintains_get fun s => ?_
    split
    · exact maintains_throw (fun _ h => h.tuples) _
    · exact maintains_pure ()
  · exact maintains_pure ()
  · exact maintains_pure ()

def Plugin.AllColumns (c : Connection) (s : Plugin) (relid : UInt32) : Prop :=
  ∀ table, c.replicateOnlyTable = some table → c.isTable table (s.catalog.relation relid) = true →
    listedColumns (joined (s.catalog.repsetTables relid) s.replicationSets) = []

/-- **The columns of a tuple are those that the catalogs say.** -/
theorem tracked_changeFilter (h : Tracked s) {relid : UInt32} (hall : s.AllColumns c relid)
    (change : Change) :
    Ends (changeFilter c (s.catalog.relation relid) change) s
      (fun filtered s' => Tracked s' ∧ s'.catalog = s.catalog ∧
        ∀ attList, filtered = some attList → s'.attList relid = .ok attList)
      fun _ s' => s'.Matches := by
  unfold changeFilter
  refine (ends_bind _ _).2 (ends_get.2 ?_)
  cases honly : c.replicateOnlyTable with
  | some table =>
    refine ⟨h, rfl, fun attList hfiltered => ?_⟩
    split at hfiltered
    · rename_i htable
      cases hfiltered
      exact attList_of_listed_eq_nil (hall table honly htable)
    · cases hfiltered
  | none =>
    simp only [Catalog.relation_relid]
    refine ends_ite.2 ⟨fun hqueue => ⟨h, rfl, fun attList hfiltered => ?_⟩, fun _ => ends_ite.2
      ⟨fun _ => ?_, fun _ => ?_⟩⟩
    · -- the queue table is in no set, so nothing is listed for it
      split at hfiltered
      · cases hfiltered
        refine attList_of_listed_eq_nil ?_
        rw [hqueue, s.catalog.queue_ignored]
        rfl
      · cases hfiltered
    · have hkeeps : Keeps (Sends isRow) (replicationSetChanged c change) :=
        keeps_replicationSetChanged c change
      refine (ends_bind _ _).2 (((maintains_replicationSetChanged change s h).and (hkeeps s)).mono ?_ ?_)
      · intro _ s' hs'
        exact ⟨hs'.1, hs'.2.catalog, nofun⟩
      · exact fun _ _ hs' => hs'.1
    · refine (ends_bind _ _).2 ((ends_tableReplicationInfo c _).2
        ⟨fun info hok => ?_, fun _ _ => h.tuples⟩)
      obtain ⟨hattList, hlooked⟩ := h.lookup hok
      refine ⟨hlooked, rfl, fun attList hfiltered => ?_⟩
      split at hfiltered
      · cases hfiltered
        exact hattList
      · cases hfiltered

theorem tracked_sendChange (h : Tracked s) {rel : Relation} {attList : Option (List Nat)}
    (hdescribed : described s.sent rel.relid = some (columnNames rel attList)) (change : Change) :
    Ends (sendChange c rel attList change) s (fun _ s' => Tracked s') fun _ s' => s'.Matches := by
  have hemit : ∀ m, isRelation m = false → tupleOf m = some (rel, attList) →
      Ends (emit c m) s (fun _ s' => Tracked s') fun _ s' => s'.Matches := by
    intro m hrel hm
    refine ends_emit_of c (h.append hrel fun rel' attList' hm' => ?_) fun _ => h.tuples
    cases hm.symm.trans hm'
    exact hdescribed
  cases change with
  | insert | update => exact hemit _ rfl rfl
  | delete oldtuple =>
    cases oldtuple with
    | none => exact h
    | some => exact hemit _ rfl rfl

theorem tracked_pgDecodeChange (h : Tracked s) {relid : UInt32} (hall : s.AllColumns c relid)
    (change : Change) :
    Ends (pgDecodeChange c relid change) s (fun _ s' => Tracked s') fun _ s' => s'.Matches := by
  unfold pgDecodeChange
  refine (ends_bind _ _).2 (ends_get.2 ?_)
  cases s.slotGroupSkipXact || s.repairMode with
  | true => exact h
  | false =>
    refine (tracked_changeFilter h hall change).bind ?_
    rintro filtered s₁ ⟨h₁, hcatalog₁, hattList⟩
    cases filtered with
    | none => exact h₁
    | some attList =>
      dsimp only
      rw [← hcatalog₁]
      refine (tracked_maybeSendSchema h₁ relid).bind ?_
      rintro _ s₂ ⟨h₂, huptodate, hcatalog₂, hrepsets₂⟩
      refine tracked_sendChange h₂ ?_ change
      rw [Catalog.relation_relid, ← hcatalog₂]
      refine huptodate attList ?_
      rw [Plugin.attList, hcatalog₂, hrepsets₂]
      exact hattList attList rfl

end Callbacks

/-! ## Invalidation -/

/-- **Invalidation.** What the catalogs say may change where the entry of `RelMetaCache` is
invalidated too; elsewhere, and this is everywhere for `InvalidOid`, what is marked has to stay up
to date. -/
theorem Tracked.invalidated (h : Tracked s) {reloid : UInt32} {catalog : Catalog}
    (hattList : ∀ relid, reloid ≠ invalidOid → relid ≠ reloid →
      Plugin.attList { s with catalog := catalog } relid = s.attList relid)
    (hmarked : ∀ relid entry, relid ≠ reloid → s.relMetaCache relid = some entry →
      entry.isMarked = true → Plugin.UpToDate { s with catalog := catalog } relid) :
    Tracked (s.invalidated reloid catalog) := by
  refine ⟨sound_repsetRelcacheInvalidateCallback h.hash fun relid info hall hne hinfo =>
    (hattList relid hall hne).trans hinfo, fun relid entry hget hentry => ?_, h.tuples⟩
  change update s.relMetaCache reloid _ relid = some entry at hget
  by_cases hrelid : relid = reloid
  · subst hrelid
    rw [update_self] at hget
    obtain ⟨_, -, rfl⟩ := Option.map_eq_some_iff.1 hget
    cases hentry
  · rw [update_of_ne hrelid] at hget
    exact hmarked relid entry hrelid hget hentry

theorem Tracked.alter (h : Tracked s) {rel : Relation} {rows : List RepSetTable} {catalog : Catalog}
    (hcatalog : s.catalog.alter rel rows = some catalog) :
    Tracked (s.invalidated rel.relid catalog) := by
  have hattList : ∀ relid, relid ≠ rel.relid →
      Plugin.attList { s with catalog := catalog } relid = s.attList relid := by
    intro relid hrelid
    obtain ⟨hrows, hrelation⟩ := Catalog.alter_other hcatalog hrelid
    exact attList_congr hrows hrelation rfl
  refine h.invalidated (fun relid _ hrelid => hattList relid hrelid) ?_
  intro relid entry hrelid hget hmarked attList hok
  show described s.sent relid = some (columnNames (catalog.relation relid) attList)
  rw [(Catalog.alter_other hcatalog hrelid).2]
  exact h.marked relid entry hget hmarked attList ((hattList relid hrelid).symm.trans hok)

/-! ## Runs -/

/-- **The condition on a step.** A change is not decoded on a connection for that table alone while
a set of the connection lists columns of it; and the invalidation with `InvalidOid`, which leaves
the marks of `RelMetaCache`, comes when the marked relations have the columns last described. -/
def Agreed (c : Connection) (s : Plugin) : Event → Prop
  | .change relid _ => s.AllColumns c relid
  | .invalidateAll catalog => ∀ relid entry, s.relMetaCache relid = some entry →
      entry.isMarked = true → Plugin.UpToDate { s with catalog := catalog } relid
  | _ => True

/-- The tuples match, and so do the caches until something is raised. -/
def Watched (s : Plugin) : Prop := s.Matches ∧ (s.raised = false → Tracked s)

/-- **One step.** -/
theorem step_watched {c : Connection} {e : Event} {s' : Plugin} (h : Watched s)
    (hagreed : Agreed c s e) (hstep : s.step c e = some s') : Watched s' := by
  have h := h.2 (stepped_of_step hstep).1
  refine upkept_tracked.step (fun s relid h => ?_) h hstep (fun relid change he => ?_)
    (fun rel rows catalog _ hcatalog => h.alter hcatalog) (fun catalog he => ?_)
    fun _ => { h with }
  · exact (tracked_maybeSendSchema h relid).imp fun _ _ h => h.1
  · subst he
    exact tracked_pgDecodeChange h hagreed change
  · subst he
    exact h.invalidated (fun _ hne => absurd rfl hne) fun relid entry _ => hagreed relid entry

/-- **Tuples and descriptions.** In every run along which the condition holds, of any connection,
each tuple has the columns of the last description of its relation. -/
theorem tuples_match (c : Connection) (catalog : Catalog) (repsets : List RepSet)
    (slotGroup : Option SlotGroup) (es : List Event) (s : Plugin)
    (hrun : run (Plugin.step c) (.connect catalog repsets slotGroup) es = some s)
    (hagreed : Along (Plugin.step c) (Agreed c) (.connect catalog repsets slotGroup) es) :
    TuplesMatch s.sent :=
  (run_invariant_along (fun _ _ _ => step_watched) ⟨tuplesMatch_nil, fun _ =>
    tracked_connect catalog repsets slotGroup⟩ hagreed hrun).1

section Sample

/-- Table 7 has lost column `b`. -/
def narrowTable (relid : UInt32) : Relation :=
  { sampleTable relid with
    desc := [⟨1, .letter 97, 23, 0, 4, true, false, false⟩]
    attnames_nodup := by decide
    natts_le := by decide }

/-- The sets of `listedSets`, over the narrow table. -/
def narrowSets : Catalog := { listedSets with relcache := fun relid => ⟨narrowTable relid, rfl⟩ }

/-- Table 7 is sent with column `a`, taken out of set 2 and sent as a whole, and sent again after an
invalidation of everything that changes nothing. -/
def sampleChanges (catalog : Catalog) : List Event :=
  [.begin (sampleTxn 9 50), .change 7 (.insert sampleRow), .invalidate (sampleTable 7) [⟨1, none, none⟩],
    .change 7 (.insert sampleRow), .invalidateAll catalog, .change 7 (.insert sampleRow), .commit 40]

/-- **Satisfiable.** -/
theorem tuples_match_sample : ∃ s, run (Plugin.step (sampleConnection none))
    (.connect listedSets [fullSet 1, fullSet 2] none)
    (sampleChanges (sampleCatalog [⟨1, none, none⟩] fun _ => none)) = some s ∧
      s.sent.length = 10 ∧ TuplesMatch s.sent := by
  refine ⟨_, rfl, rfl, tuples_match (sampleConnection none) listedSets [fullSet 1, fullSet 2] none
    (sampleChanges (sampleCatalog [⟨1, none, none⟩] fun _ => none)) _ rfl ?_⟩
  have hall : ∀ s : Plugin, s.AllColumns (sampleConnection none) 7 := fun _ => nofun
  refine .cons trivial rfl (.cons (hall _) rfl (.cons trivial rfl (.cons (hall _) rfl ?_)))
  refine .cons (fun relid entry hget _ attList hok => ?_) rfl
    (.cons (hall _) rfl (.cons trivial rfl trivial))
  -- only table 7 has been described, last with both columns
  by_cases hrelid : relid = 7
  · subst hrelid
    have hok : Except.ok none = Except.ok attList := hok
    cases hok
    rfl
  · have hget : update (update (update (update (update
        (fun _ => none) 7 _) 7 _) 7 _) 7 _) 7 _ relid = some entry := hget
    simp only [update_of_ne hrelid, reduceCtorEq] at hget

/-- **Tuples that were not described.** On a connection for table 7 alone, the description has the
column that set 2 lists and the tuple both. On any other connection, a column that has gone by the
time of an invalidation of everything is still in the last description. -/
theorem tuples_mismatch :
    (∃ s, run (Plugin.step (sampleConnection (some sampleName))) (.connect listedSets [fullSet 2] none)
        [.begin (sampleTxn 9 50), .change 7 (.insert sampleRow)] = some s ∧ ¬ TuplesMatch s.sent) ∧
    ∃ s, run (Plugin.step (sampleConnection none)) (.connect listedSets [fullSet 1] none)
        [.begin (sampleTxn 9 50), .change 7 (.insert sampleRow), .invalidateAll narrowSets,
          .change 7 (.insert sampleRow)] = some s ∧ ¬ TuplesMatch s.sent := by
  refine ⟨⟨_, rfl, fun h => ?_⟩, _, rfl, fun h => ?_⟩
  · exact absurd (h [_, _, _, _, _] _ [] rfl _ _ rfl) (by decide)
  · exact absurd (h [_, _, _, _, _, _] _ [] rfl _ _ rfl) (by decide)

end Sample

end Spock.Output
