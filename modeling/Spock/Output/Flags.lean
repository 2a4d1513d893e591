import Spock.Output.Sends

/-!
# Spock — the action flags of a replication set

Which actions a set publishes is kept three times on a publisher: in `spock.replication_set`, in the
list of sets that a connection has read at its start, and, combined over the sets, in the entries of
`RepSetTableHash`. The decoded UPDATE of the catalog row is what brings the second up to date;
nothing is sent that would invalidate the third.

* **`flags_followed`** — along runs on which an update finds no entry to outdate and is not passed
  over, every later change is sent or not as these flags say.
-/

namespace Spock.Output

open Protocol Repset Outcome Runs List Option

/-! ## What has been decoded -/

/-- The new row of `spock.replication_set`, if that is what the event updates. -/
def flagsUpdate (c : Connection) (s : Plugin) : Event → Option RepSet
  | .change relid (.update _ newtuple) =>
    if relid = s.catalog.replicationSetRelOid ∧ relid ≠ s.catalog.queueTableOid then
      some (c.replicationSetFromTuple newtuple)
    else none
  | _ => none

def setActions (replicated : RepSet) (repsets : List RepSet) : List RepSet :=
  repsets.map fun rs =>
    if rs.id = replicated.id then { rs with toActions := replicated.toActions } else rs

def flagsAfter (c : Connection) (s : Plugin) (e : Event) (repsets : List RepSet) : List RepSet :=
  ((flagsUpdate c s e).map fun replicated => setActions replicated repsets).getD repsets

/-- The output plugin, and the sets of the connection with the flags last decoded. -/
structure Followed where
  plugin : Plugin
  decoded : List RepSet

def Followed.connect (catalog : Catalog) (repsets : List RepSet) (slotGroup : Option SlotGroup) :
    Followed :=
  ⟨.connect catalog repsets slotGroup, repsets⟩

def Followed.step (c : Connection) (f : Followed) (e : Event) : Option Followed :=
  (f.plugin.step c e).map fun s' => ⟨s', flagsAfter c f.plugin e f.decoded⟩

def sentTuple (s s' : Plugin) (relid : UInt32) : Bool :=
  (s'.sent.drop s.sent.length).any fun m => (tupleOf m).any fun p => p.1.relid == relid

/-- **What the flags ask for**: some set that the table is in publishes the action, and the row
passes the filters of the sets. A delete that has no old row cannot be sent. -/
def publishes (rows : List RepSetTable) (repsets : List RepSet) (change : Change) : Bool :=
  (joined rows repsets).any (fun p => allowsAction p.2.toActions change) &&
    passesFilters ((joined rows repsets).filterMap (·.1.rowFilter)) change && change.row.isSome

/-! ## The invariant -/

/-- The connection works with these sets, and so do the valid entries of `RepSetTableHash`. -/
structure Fresh (repsets : List RepSet) (s : Plugin) : Prop where
  repsets_eq : s.replicationSets = repsets
  hash : Memo.Sound (fun relid info => combination (s.catalog.relation relid).desc
    (s.catalog.repsetTables relid) repsets = .ok info) s.repSetTableHash

variable {repsets : List RepSet} {c : Connection}

theorem fresh_connect (catalog : Catalog) (slotGroup : Option SlotGroup) :
    Fresh repsets (.connect catalog repsets slotGroup) := ⟨rfl, Memo.sound_empty⟩

structure SameSets (s s' : Plugin) : Prop where
  catalog : s'.catalog = s.catalog
  replicationSets : s'.replicationSets = s.replicationSets
  hash : s'.repSetTableHash = s.repSetTableHash

variable {s : Plugin} {replicated : RepSet}

theorem Fresh.same {s' : Plugin} (h : Fresh repsets s) (hsame : SameSets s s') :
    Fresh repsets s' := by
  refine ⟨hsame.replicationSets.trans h.repsets_eq, ?_⟩
  rw [hsame.hash, hsame.catalog]
  exact h.hash

theorem upkept_fresh : Upkept (Fresh repsets) fun _ => True where
  raised := fun _ => trivial
  marks := fun _ _ _ => trivial
  statics := fun _ _ _ _ _ _ h => { h with }
  prune := fun h => { h with }
  emits := fun _ _ h => { h with }

/-! ## Lookups -/

/-- **A lookup answers with the combination over the sets.** -/
theorem fresh_tableReplicationInfo (h : Fresh repsets s) (relid : UInt32) :
    Ends (tableReplicationInfo c (s.catalog.relation relid)) s
      (fun info s' => combination (s.catalog.relation relid).desc (s.catalog.repsetTables relid) repsets =
        .ok info ∧ Fresh repsets s' ∧ s'.catalog = s.catalog ∧ s'.sent = s.sent)
      fun _ _ => True := by
  refine (ends_tableReplicationInfo c _).2 ⟨fun info hok => ?_, fun _ _ => trivial⟩
  rw [lookup_eq, h.repsets_eq] at hok ⊢
  obtain ⟨hinfo, hsound⟩ := h.hash.lookup_ok (fun v hv => hv) hok
  exact ⟨hinfo, ⟨rfl, hsound⟩, rfl, rfl⟩

theorem fresh_maybeSendSchema (h : Fresh repsets s) (relid : UInt32) :
    Ends (maybeSendSchema c (s.catalog.relation relid)) s
      (fun _ s' => Fresh repsets s' ∧ Sends isRelation s s') fun _ _ => True := by
  have hsends : Keeps (Sends isRelation) (maybeSendSchema c (s.catalog.relation relid)) :=
    keeps_maybeSendSchema c (fun _ _ => rfl) _
  have hfresh : Ends (maybeSendSchema c (s.catalog.relation relid)) s (fun _ s' => Fresh repsets s')
      fun _ _ => True := by
    unfold maybeSendSchema
    refine (ends_bind _ _).2 (ends_get.2 ((ends_bind _ _).2 ((ends_modify _).2 ?_)))
    generalize relmetacacheGetRelation _ = entry
    have hentered : Fresh repsets (s.setRelMeta (s.catalog.relation relid).relid entry) :=
      h.same ⟨rfl, rfl, rfl⟩
    cases entry.isCached with
    | true => exact hentered
    | false =>
      refine (fresh_tableReplicationInfo hentered relid).bind ?_
      rintro info s₁ ⟨-, h₁, -⟩
      refine (ends_bind _ _).2 (ends_emit_of c ?_ fun _ => trivial)
      exact (ends_modify _).2 (h₁.same ⟨rfl, rfl, rfl⟩)
  exact (hfresh.and (hsends s)).mono (fun _ _ h => h) fun _ _ h => h.1

/-! ## Changes of tables -/

variable {rows : List RepSetTable} {relid : UInt32} {x : Callback Unit}

theorem publishes_of_combination {desc : List Attribute} {info : TableRepInfo}
    (h : combination desc rows repsets = .ok info) (change : Change) :
    publishes rows repsets change =
      (allowsAction info.toActions change && passesFilters info.rowFilter change &&
        change.row.isSome) := by
  obtain ⟨-, rfl⟩ := combination_ok_iff.1 h
  cases change <;> rfl

theorem fresh_changeFilter (h : Fresh repsets s) (honly : c.replicateOnlyTable = none)
    (hqueue : relid ≠ s.catalog.queueTableOid) (hrepset : relid ≠ s.catalog.replicationSetRelOid)
    (change : Change) :
    Ends (changeFilter c (s.catalog.relation relid) change) s
      (fun filtered s' => (filtered.isSome && change.row.isSome) =
          publishes (s.catalog.repsetTables relid) repsets change ∧
        Fresh repsets s' ∧ s'.catalog = s.catalog ∧ s'.sent = s.sent)
      fun _ _ => True := by
  unfold changeFilter
  refine (ends_bind _ _).2 (ends_get.2 ?_)
  rw [honly]
  simp only [Catalog.relation_relid, if_neg hqueue, if_neg hrepset]
  refine (fresh_tableReplicationInfo h relid).bind ?_
  rintro info s₁ ⟨hinfo, h₁, hcatalog, hsent⟩
  refine ⟨?_, h₁, hcatalog, hsent⟩
  rw [publishes_of_combination hinfo]
  cases allowsAction info.toActions change && passesFilters info.rowFilter change <;> rfl

theorem ends_sendChange {rel : Relation} {attList : Option (List Nat)} (change : Change) :
    Ends (sendChange c rel attList change) s
      (fun _ s' => SameSets s s' ∧ ∃ out, s'.sent = s.sent ++ out ∧
        (out.any fun m => (tupleOf m).any fun p => p.1.relid == rel.relid) = change.row.isSome)
      fun _ _ => True := by
  have hemit : ∀ m, tupleOf m = some (rel, attList) → Ends (emit c m) s
      (fun _ s' => SameSets s s' ∧ ∃ out, s'.sent = s.sent ++ out ∧
        (out.any fun m => (tupleOf m).any fun p => p.1.relid == rel.relid) = true) fun _ _ => True := by
    intro m hm
    refine ends_emit_of c ⟨⟨rfl, rfl, rfl⟩, [m], rfl, ?_⟩ fun _ => trivial
    simp [hm]
  cases change with
  | insert | update => exact hemit _ rfl
  | delete oldtuple =>
    cases oldtuple with
    | none => exact ⟨⟨rfl, rfl, rfl⟩, [], (append_nil _).symm, rfl⟩
    | some => exact hemit _ rfl

theorem fresh_afterFilter (h : Fresh repsets s) (relid : UInt32)
    (filtered : Option (Option (List Nat))) (change : Change) :
    Ends (match filtered with
      | none => pure ()
      | some attList => do
        maybeSendSchema c (s.catalog.relation relid)
        sendChange c (s.catalog.relation relid) attList change : Callback Unit) s
      (fun _ s' => Fresh repsets s' ∧ sentTuple s s' relid = (filtered.isSome && change.row.isSome))
      fun _ _ => True := by
  cases filtered with
  | none =>
    refine ⟨h, ?_⟩
    rw [sentTuple, drop_length]
    rfl
  | some =>
    refine (fresh_maybeSendSchema h relid).bind ?_
    rintro _ s₁ ⟨h₁, hsends⟩
    refine (ends_sendChange change).imp ?_
    rintro _ s₂ ⟨hsame, out, hout, hrow⟩
    refine ⟨h₁.same hsame, ?_⟩
    -- a description comes first, and then the tuple
    obtain ⟨out₁, hout₁, hkind⟩ := hsends.sent
    have hdescription : (out₁.any fun m => (tupleOf m).any fun p => p.1.relid == relid) = false := by
      refine any_eq_false.2 fun m hm => ?_
      have hm := hkind m hm
      cases m with
      | relation => exact Bool.false_ne_true
      | _ => cases hm
    rw [Catalog.relation_relid] at hrow
    rw [sentTuple, hout, hout₁, append_assoc, drop_left, any_append, hdescription, hrow]
    rfl

/-- **A change of a table is sent or not as the sets say.** -/
theorem fresh_pgDecodeChange (h : Fresh repsets s) (honly : c.replicateOnlyTable = none)
    (hqueue : relid ≠ s.catalog.queueTableOid) (hrepset : relid ≠ s.catalog.replicationSetRelOid)
    (change : Change) (hactive : (s.slotGroupSkipXact || s.repairMode) = false) :
    Ends (pgDecodeChange c relid change) s
      (fun _ s' => Fresh repsets s' ∧
        sentTuple s s' relid = publishes (s.catalog.repsetTables relid) repsets change)
      fun _ _ => True := by
  unfold pgDecodeChange
  refine (ends_bind _ _).2 (ends_get.2 ?_)
  rw [hactive]
  refine (fresh_changeFilter h honly hqueue hrepset change).bind ?_
  rintro filtered s₁ ⟨hfiltered, h₁, hcatalog₁, hsent₁⟩
  rw [← hfiltered, ← hcatalog₁]
  refine (fresh_afterFilter h₁ relid filtered change).imp fun _ _ h' => ⟨h'.1, ?_⟩
  rw [← h'.2, sentTuple, sentTuple, hsent₁]

/-! ## Changes of the flags -/

theorem setActions_eq_self (h : replicated.id ∉ repsets.map (·.id)) :
    setActions replicated repsets = repsets := by
  unfold setActions
  refine (map_congr_left fun rs hrs => if_neg fun hid => h ?_).trans (map_id _)
  exact mem_map.2 ⟨rs, hrs, hid⟩

theorem updateActions_eq_setActions (h : (repsets.map (·.id)).count replicated.id ≤ 1) :
    updateActions replicated repsets = setActions replicated repsets := by
  induction repsets with
  | nil => rfl
  | cons rs repsets ih =>
    unfold updateActions
    by_cases hid : rs.id = replicated.id
    · -- no other set has the id
      have hrest : (repsets.map (·.id)).count replicated.id = 0 := by
        rw [map_cons, hid, count_cons_self] at h
        omega
      rw [if_pos hid]
      exact (congrArg (_ :: ·) (setActions_eq_self (count_eq_zero.1 hrest)).symm).trans
        (by simp [setActions, hid])
    · rw [map_cons, count_cons_of_ne hid] at h
      rw [if_neg hid, ih h]
      simp [setActions, hid]

theorem joined_setActions (repsets : List RepSet) (h : ∀ t ∈ rows, t.setid ≠ replicated.id) :
    joined rows (setActions replicated repsets) = joined rows repsets := by
  unfold joined
  refine flatMap_congr fun t ht => ?_
  have hfilter : ∀ repsets, (setActions replicated repsets).filter (fun repset => t.setid = repset.id) =
      repsets.filter fun repset => t.setid = repset.id := by
    intro repsets
    induction repsets with
    | nil => rfl
    | cons rs repsets ih =>
      by_cases hid : rs.id = replicated.id
      · have hne : ¬ t.setid = rs.id := fun heq => h t ht (heq.trans hid)
        have hhead : setActions replicated (rs :: repsets) =
            { rs with toActions := replicated.toActions } :: setActions replicated repsets := by
          simp [setActions, hid]
        rw [hhead, filter_cons_of_neg (by simpa using hne), filter_cons_of_neg (by simpa using hne),
          ih]
      · have hhead : setActions replicated (rs :: repsets) = rs :: setActions replicated repsets := by
          simp [setActions, hid]
        rw [hhead, filter_cons, filter_cons, ih]
  rw [hfilter]

/-- **The condition on an update of the flags** of a set of the connection: its transaction is not
skipped and not in repair mode, and no table of the set has a valid entry. -/
def NoneOutdated (s : Plugin) (replicated : RepSet) : Prop :=
  replicated.id ∈ s.replicationSets.map (·.id) →
    (s.slotGroupSkipXact || s.repairMode) = false ∧
    (s.replicationSets.map (·.id)).count replicated.id ≤ 1 ∧
    ∀ relid, Memo.valid s.repSetTableHash relid = true →
      ∀ t ∈ s.catalog.repsetTables relid, t.setid ≠ replicated.id

theorem Fresh.setActions (h : Fresh repsets s) (hnone : NoneOutdated s replicated) :
    Fresh (setActions replicated repsets)
      { s with replicationSets := updateActions replicated s.replicationSets } := by
  obtain ⟨rfl, hhash⟩ := h
  by_cases hmem : replicated.id ∈ s.replicationSets.map (·.id)
  · obtain ⟨-, hcount, hvalid⟩ := hnone hmem
    refine ⟨updateActions_eq_setActions hcount, fun relid entry hget hentry => ?_⟩
    have hjoined := joined_setActions s.replicationSets
      (hvalid relid (Memo.valid_iff.2 ⟨entry, hget, hentry⟩))
    have hcombination : combination (s.catalog.relation relid).desc (s.catalog.repsetTables relid)
        (Output.setActions replicated s.replicationSets) =
        combination (s.catalog.relation relid).desc (s.catalog.repsetTables relid) s.replicationSets := by
      unfold combination
      rw [hjoined]
    exact hcombination.trans (hhash relid entry hget hentry)
  · have hcount : (s.replicationSets.map (·.id)).count replicated.id ≤ 1 := by
      rw [count_eq_zero.2 hmem]
      exact Nat.zero_le 1
    rw [updateActions_eq_setActions hcount, setActions_eq_self hmem]
    exact ⟨rfl, hhash⟩

/-! ## Steps -/

theorem flagsAfter_of_none {e : Event} (h : flagsUpdate c s e = none) :
    flagsAfter c s e repsets = repsets := by
  rw [flagsAfter, h]
  rfl

theorem fresh_replicationSetChanged (h : Fresh repsets s)
    (hrelid : relid = s.catalog.replicationSetRelOid ∧ relid ≠ s.catalog.queueTableOid)
    (change : Change)
    (hnone : ∀ replicated, flagsUpdate c s (.change relid change) = some replicated →
      NoneOutdated s replicated) :
    Ends (replicationSetChanged c change) s
      (fun _ s' => Fresh (flagsAfter c s (.change relid change) repsets) s') fun _ _ => True := by
  cases change with
  | insert => exact h
  | update oldtuple newtuple =>
    have hupdate : flagsUpdate c s (.change relid (.update oldtuple newtuple)) =
        some (c.replicationSetFromTuple newtuple) := if_pos hrelid
    have hafter : flagsAfter c s (.change relid (.update oldtuple newtuple)) repsets =
        setActions (c.replicationSetFromTuple newtuple) repsets := by
      rw [flagsAfter, hupdate]
      rfl
    rw [hafter]
    exact h.setActions (hnone _ hupdate)
  | delete oldtuple =>
    cases oldtuple with
    | none => exact h
    | some =>
      refine (ends_bind _ _).2 (ends_get.2 ?_)
      split
      · exact trivial
      · exact h

/-- **The flags in use are those decoded**, after any change. -/
theorem fresh_anyChange (h : Fresh repsets s) (honly : c.replicateOnlyTable = none) (relid : UInt32)
    (change : Change)
    (hnone : ∀ replicated, flagsUpdate c s (.change relid change) = some replicated →
      NoneOutdated s replicated) :
    Ends (pgDecodeChange c relid change) s
      (fun _ s' => Fresh (flagsAfter c s (.change relid change) repsets) s') fun _ _ => True := by
  cases hactive : s.slotGroupSkipXact || s.repairMode with
  | true =>
    -- nothing is looked at, so the set is none of ours
    unfold pgDecodeChange
    refine (ends_bind _ _).2 (ends_get.2 ?_)
    rw [hactive]
    show Fresh _ s
    cases hupdate : flagsUpdate c s (.change relid change) with
    | none =>
      rw [flagsAfter_of_none hupdate]
      exact h
    | some replicated =>
      have hmem : replicated.id ∉ repsets.map (·.id) := fun hmem => by
        rw [← h.repsets_eq] at hmem
        exact absurd (hnone replicated hupdate hmem).1 (by rw [hactive]; decide)
      rw [flagsAfter, hupdate, map_some, getD_some, setActions_eq_self hmem]
      exact h
  | false =>
    by_cases hrepset : relid = s.catalog.replicationSetRelOid ∧ relid ≠ s.catalog.queueTableOid
    · unfold pgDecodeChange changeFilter
      refine (ends_bind _ _).2 (ends_get.2 ?_)
      rw [hactive, honly]
      refine (ends_bind _ _).2 ((ends_bind _ _).2 (ends_get.2 ?_))
      simp only [Catalog.relation_relid, if_neg hrepset.2, if_pos hrepset.1]
      refine (fresh_replicationSetChanged h hrepset change hnone).bind ?_
      exact fun _ _ h' => h'
    · have hupdate : flagsUpdate c s (.change relid change) = none := by
        cases change with
        | update => exact if_neg hrepset
        | _ => rfl
      rw [flagsAfter_of_none hupdate]
      by_cases hqueue : relid = s.catalog.queueTableOid
      · unfold pgDecodeChange changeFilter
        refine (ends_bind _ _).2 (ends_get.2 ?_)
        rw [hactive, honly]
        refine (ends_bind _ _).2 ((ends_bind _ _).2 (ends_get.2 ?_))
        simp only [Catalog.relation_relid, if_pos hqueue]
        exact (fresh_afterFilter h relid _ change).imp fun _ _ h' => h'.1
      · have hother : relid ≠ s.catalog.replicationSetRelOid := fun heq => hrepset ⟨heq, hqueue⟩
        exact (fresh_pgDecodeChange h honly hqueue hother change hactive).imp fun _ _ h' => h'.1

theorem Fresh.invalidated (h : Fresh repsets s) {reloid : UInt32} {catalog : Catalog}
    (hsame : ∀ relid, reloid ≠ invalidOid → relid ≠ reloid →
      catalog.repsetTables relid = s.catalog.repsetTables relid ∧
        catalog.relation relid = s.catalog.relation relid) :
    Fresh repsets (s.invalidated reloid catalog) := by
  refine ⟨h.repsets_eq, sound_repsetRelcacheInvalidateCallback h.hash fun relid info hall hne hinfo => ?_⟩
  obtain ⟨hrows, hrelation⟩ := hsame relid hall hne
  show combination (catalog.relation relid).desc (catalog.repsetTables relid) repsets = .ok info
  rw [hrows, hrelation]
  exact hinfo

def Followed.Heeded (c : Connection) (f : Followed) (e : Event) : Prop :=
  ∀ replicated, flagsUpdate c f.plugin e = some replicated → NoneOutdated f.plugin replicated

def Followed.Current (f : Followed) : Prop := f.plugin.raised = false → Fresh f.decoded f.plugin

theorem current_ended (h : Ends x s (fun _ s' => Fresh repsets s') fun _ _ => True) :
    Followed.Current ⟨ended (x s), repsets⟩ :=
  ended_of_ends (P := fun s' => Followed.Current ⟨s', repsets⟩)
    (h.mono (fun _ _ h _ => h) fun _ _ _ => nofun)

/-- **One step.** -/
theorem step_current {f f' : Followed} {e : Event} (honly : c.replicateOnlyTable = none)
    (h : f.Current) (hheeded : f.Heeded c e) (hstep : f.step c e = some f') : f'.Current := by
  obtain ⟨_, hs', rfl⟩ := map_eq_some_iff.1 hstep
  obtain ⟨hraised, hstepped⟩ := stepped_of_step hs'
  have h := h hraised
  cases hstepped with
  | change relid change => exact current_ended (fresh_anyChange h honly relid change hheeded)
  | _ =>
    -- no other event sets flags
    refine (upkept_fresh.step (fun s relid h => ?_) h hs' (fun _ _ he => nomatch he)
      (fun _ _ _ _ hcatalog => h.invalidated fun _ _ hne => Catalog.alter_other hcatalog hne)
      (fun _ _ => h.invalidated fun _ hne => absurd rfl hne) fun _ => { h with }).2
    exact (fresh_maybeSendSchema h relid).imp fun _ _ h => h.1

/-- **The flags are followed.** On a connection of a subscription, in every run along which the
condition holds, whatever a later transaction that is neither skipped nor in repair mode changes in
a table is sent or not as the flags say that have been decoded until then. -/
theorem flags_followed (c : Connection) (honly : c.replicateOnlyTable = none) (catalog : Catalog)
    (repsets : List RepSet) (slotGroup : Option SlotGroup) (es : List Event) (f : Followed)
    (hrun : run (Followed.step c) (.connect catalog repsets slotGroup) es = some f)
    (hheeded : Along (Followed.step c) (Followed.Heeded c) (.connect catalog repsets slotGroup) es)
    (relid : UInt32) (change : Change) (htable : f.plugin.catalog.repsetTables relid ≠ [])
    (hactive : (f.plugin.slotGroupSkipXact || f.plugin.repairMode) = false) (f' : Followed)
    (hstep : f.step c (.change relid change) = some f') (hraised : f'.plugin.raised = false) :
    sentTuple f.plugin f'.plugin relid =
      publishes (f.plugin.catalog.repsetTables relid) f.decoded change := by
  have hcurrent : f.Current := run_invariant_along (fun _ _ _ => step_current honly)
    (fun _ => fresh_connect catalog slotGroup) hheeded hrun
  obtain ⟨s', hs', rfl⟩ := map_eq_some_iff.1 hstep
  obtain ⟨hbefore, hstepped⟩ := stepped_of_step hs'
  cases hstepped with
  | change =>
    -- the extension's own tables are in no set
    have hqueue : relid ≠ f.plugin.catalog.queueTableOid := by
      rintro rfl
      exact htable f.plugin.catalog.queue_ignored
    have hrepset : relid ≠ f.plugin.catalog.replicationSetRelOid := by
      rintro rfl
      exact htable f.plugin.catalog.replicationSet_ignored
    have hends := fresh_pgDecodeChange (hcurrent hbefore) honly hqueue hrepset change hactive
    refine ended_of_ends (P := fun s' => s'.raised = false → sentTuple f.plugin s' relid =
      publishes (f.plugin.catalog.repsetTables relid) f.decoded change) ?_ hraised
    exact hends.mono (fun _ _ h _ => h.2) fun _ _ _ => nofun

section Sample

def setZero : Catalog := sampleCatalog [⟨0, none, none⟩] fun _ => none

def switchedOff : List Event := [.begin (sampleTxn 9 50), .change 2 (.update none sampleRow), .commit 45]

/-- **Satisfiable.** The set is switched off before the table is first looked up. -/
theorem flags_followed_switchedOff : ∃ f f', run (Followed.step (sampleConnection none))
    (.connect setZero [fullSet 0] none) (switchedOff ++ [.begin (sampleTxn 10 60)]) = some f ∧
      f.step (sampleConnection none) (.change 7 (.insert sampleRow)) = some f' ∧
      sentTuple f.plugin f'.plugin 7 = false := by
  refine ⟨_, _, rfl, rfl, ?_⟩
  refine (flags_followed (sampleConnection none) rfl setZero [fullSet 0] none
    (switchedOff ++ [.begin (sampleTxn 10 60)]) _ rfl ?_ 7 (.insert sampleRow) (by decide) rfl _ rfl
    rfl).trans rfl
  refine .cons nofun rfl (.cons (fun replicated hupdate _ => ?_) rfl (.cons nofun rfl
    (.cons nofun rfl trivial)))
  cases hupdate
  exact ⟨rfl, by decide, nofun⟩

/-- **Flags that are not followed.** Set 0 is switched off, and the next insert is sent all the
same: the table has been looked up before; or the transaction with the update was another member's;
or it was in repair mode. -/
theorem flags_not_followed :
    (∃ f f', run (Followed.step (sampleConnection none)) (.connect setZero [fullSet 0] none)
        ((([.begin (sampleTxn 8 40), .change 7 (.insert sampleRow), .commit 35] : List Event) ++
          switchedOff) ++ ([.begin (sampleTxn 10 60)] : List Event)) = some f ∧
      f.step (sampleConnection none) (.change 7 (.insert sampleRow)) = some f' ∧
      sentTuple f.plugin f'.plugin 7 = true ∧
      publishes (f.plugin.catalog.repsetTables 7) f.decoded (.insert sampleRow) = false) ∧
    (∃ f f', run (Followed.step (sampleConnection none)) (.connect setZero [fullSet 0] (some ⟨50, 0⟩))
        (switchedOff ++ ([.begin (sampleTxn 10 60)] : List Event)) = some f ∧
      f.step (sampleConnection none) (.change 7 (.insert sampleRow)) = some f' ∧
      sentTuple f.plugin f'.plugin 7 = true ∧
      publishes (f.plugin.catalog.repsetTables 7) f.decoded (.insert sampleRow) = false) ∧
    ∃ f f', run (Followed.step (sampleConnection none)) (.connect setZero [fullSet 0] none)
        [.begin (sampleTxn 9 50), .message 40 spockMessage [1, 0, 0, 0],
          .change 2 (.update none sampleRow), .commit 45, .begin (sampleTxn 10 60)] = some f ∧
      f.step (sampleConnection none) (.change 7 (.insert sampleRow)) = some f' ∧
      sentTuple f.plugin f'.plugin 7 = true ∧
      publishes (f.plugin.catalog.repsetTables 7) f.decoded (.insert sampleRow) = false :=
  ⟨⟨_, _, rfl, rfl, rfl, rfl⟩, ⟨_, _, rfl, rfl, rfl, rfl⟩, _, _, rfl, rfl, rfl, rfl⟩

end Sample

end Spock.Output
