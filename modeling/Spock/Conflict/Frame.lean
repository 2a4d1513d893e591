import Spock.Conflict.Resolve

/-!
# Spock — the columns a change does not carry

A local table may have columns the provider does not send, and a column of an UPDATE may be sent
as unchanged. When the change finds a local row, the row that is stored goes through
`slot_modify_data` and, on a table with delta-apply columns, through `heap_modify_tuple` and
`slot_store_htup` as well. The first two keep what they are not told to replace; `slot_store_htup`
starts from an all-NULL slot and copies the mapped columns only. The generated columns are computed
last.

* **`applyChange_keepsUntouched_iff`** — the columns the change does not carry are kept exactly then,
  or if there is nothing to store.
-/

namespace Spock

variable {Node V : Type} {natts : Nat}

/-- The provider does not send the column, or sent it as unchanged. -/
def Change.Untouched (rel : SpockRelation natts V) (ch : Change natts V) (c : Fin natts) : Prop :=
  c ∉ rel.attmap ∨ ch.newtup.changed c = false

/-- The row version left for the key has the local values in all untouched columns. -/
def KeepsUntouched (rel : SpockRelation natts V) (ch : Change natts V) (localrow : Row natts V)
    (x : Xact Node natts V) : Prop :=
  ∃ tup, x.node.heap = some tup ∧ ∀ c, ch.Untouched rel c → tup.row c = localrow c

/-- The row that the generated columns are computed from: the local one, with the columns that were
sent if the remote row has won, and with the deltas. -/
def Change.slot (rel : SpockRelation natts V) (ch : Change natts V) (localrow : Row natts V)
    (won : Bool) : Row natts V :=
  deltaSlot rel (if won then slotModifyData rel localrow ch.newtup else localrow) (ch.oldtup rel)
    ch.newtup localrow

/-- Nothing that the change does not carry is lost. -/
structure KeepsColumns (rel : SpockRelation natts V) (ch : Change natts V) (localrow : Row natts V)
    (won : Bool) : Prop where
  -- `slot_store_htup` leaves out what is not mapped
  unmapped : rel.hasDeltaColumns = true → ∀ c, c ∉ rel.attmap → rel.attgenerated c = none →
    localrow c = none
  -- `build_delta_tuple` does not look at the changed flag of the new tuple
  sent : ∀ c ∈ rel.attmap, (rel.deltaApplyFunctions c).isSome → rel.attgenerated c = none →
    ch.newtup.changed c = true
  generated : ∀ c eval, rel.attgenerated c = some eval → ch.Untouched rel c →
    eval (ch.slot rel localrow won) = localrow c

/-- What `spock_read_tuple` gives, and a local row that is not NULL in a delta-apply column. -/
structure Change.Received (rel : SpockRelation natts V) (ch : Change natts V)
    (localrow : Row natts V) : Prop where
  unchanged : ∀ c, ch.newtup.changed c = false → ch.newtup.values c = none
  notNull : ∀ c ∈ rel.attmap, (rel.deltaApplyFunctions c).isSome → (localrow c).isSome

/-! ## Through the slot functions -/

variable {ch : Change natts V} {rel : SpockRelation natts V}

theorem slotModifyData_untouched (rel : SpockRelation natts V) (localrow : Row natts V)
    {c : Fin natts} (hc : ch.Untouched rel c) :
    slotModifyData rel localrow ch.newtup c = localrow c := by
  rcases hc with hunmapped | hunchanged
  · simp [slotModifyData, hunmapped]
  · simp [slotModifyData, hunchanged]

/-- `slot_store_htup` at the end of the delta path: an unmapped column comes out NULL, whatever
the row before had there. -/
theorem deltaSlot_unmapped {c : Fin natts} (base : Row natts V)
    (oldtup newtup : SpockTupleData natts V) (localrow : Row natts V)
    (hdelta : rel.hasDeltaColumns = true) (hc : c ∉ rel.attmap) :
    deltaSlot rel base oldtup newtup localrow c = none := by
  simp [deltaSlot, hdelta, slotStoreHtup, hc]

/-- A delta-apply column that was sent as unchanged has no new value to compute with. -/
theorem deltaSlot_unchanged {c : Fin natts} (hc : c ∈ rel.attmap)
    (hdelta : (rel.deltaApplyFunctions c).isSome) {newtup : SpockTupleData natts V}
    (hnone : newtup.values c = none) (base : Row natts V) (oldtup : SpockTupleData natts V)
    (localrow : Row natts V) : deltaSlot rel base oldtup newtup localrow c = none := by
  obtain ⟨f, hf⟩ := Option.isSome_iff_exists.mp hdelta
  have hd : rel.hasDeltaColumns = true := List.any_eq_true.mpr ⟨c, hc, hdelta⟩
  cases hold : oldtup.values c <;>
    simp [deltaSlot, hd, slotStoreHtup, heapModifyTuple, buildDeltaTuple, hc, hf, deltaValue, hnone,
      hold]

/-- **The slot in one column** that the change does not carry. -/
theorem slot_untouched_iff {localrow : Row natts V} (h : ch.Received rel localrow) (won : Bool)
    {c : Fin natts} (hc : ch.Untouched rel c) : ch.slot rel localrow won c = localrow c ↔
      (rel.hasDeltaColumns = true → c ∉ rel.attmap → localrow c = none) ∧
        (c ∈ rel.attmap → ¬ (rel.deltaApplyFunctions c).isSome) := by
  have hbase : (if won then slotModifyData rel localrow ch.newtup else localrow) c = localrow c := by
    cases won
    · rfl
    · exact slotModifyData_untouched rel localrow hc
  unfold Change.slot
  by_cases hmem : c ∈ rel.attmap
  · by_cases hdelta : (rel.deltaApplyFunctions c).isSome
    · have hunchanged := hc.resolve_left (not_not_intro hmem)
      rw [deltaSlot_unchanged hmem hdelta (h.unchanged c hunchanged)]
      have hsome := h.notNull c hmem hdelta
      refine iff_of_false (fun hnone => ?_) fun hnot => hnot.2 hmem hdelta
      rw [← hnone] at hsome
      cases hsome
    · rw [deltaSlot_plain hmem (Option.not_isSome_iff_eq_none.mp hdelta), hbase]
      exact iff_of_true rfl ⟨fun _ hnot => absurd hmem hnot, fun _ => hdelta⟩
  · cases hd : rel.hasDeltaColumns with
    | false =>
      rw [deltaSlot_noDelta hd, hbase]
      exact iff_of_true rfl ⟨nofun, fun hmem' => absurd hmem' hmem⟩
    | true =>
      rw [deltaSlot_unmapped _ _ _ _ hd hmem]
      exact ⟨fun hnone => ⟨fun _ _ => hnone.symm, fun hmem' => absurd hmem' hmem⟩,
        fun hnull => (hnull.1 rfl hmem).symm⟩

theorem computeStoredGenerated_untouched_iff {localrow : Row natts V}
    (h : ch.Received rel localrow) (won : Bool) :
    (∀ c, ch.Untouched rel c →
        computeStoredGenerated rel (ch.slot rel localrow won) c = localrow c) ↔
      KeepsColumns rel ch localrow won := by
  have hplain {c : Fin natts} (hc : rel.attgenerated c = none) :
      computeStoredGenerated rel (ch.slot rel localrow won) c = ch.slot rel localrow won c := by
    rw [computeStoredGenerated, hc]
  have hgenerated {c : Fin natts} {eval : Row natts V → Option V}
      (hc : rel.attgenerated c = some eval) :
      computeStoredGenerated rel (ch.slot rel localrow won) c = eval (ch.slot rel localrow won) := by
    rw [computeStoredGenerated, hc]
  constructor
  · intro hkeeps
    refine ⟨fun hd c hc hgen => ?_, fun c hc hdelta hgen => ?_, fun c eval heval hc => ?_⟩
    · have hslot := (hplain hgen).symm.trans (hkeeps c (.inl hc))
      exact ((slot_untouched_iff h won (.inl hc)).mp hslot).1 hd hc
    · by_contra hunchanged
      have huntouched : ch.Untouched rel c := .inr (by simpa using hunchanged)
      have hslot := (hplain hgen).symm.trans (hkeeps c huntouched)
      exact ((slot_untouched_iff h won huntouched).mp hslot).2 hc hdelta
    · exact (hgenerated heval).symm.trans (hkeeps c hc)
  · intro hkeeps c hc
    cases hgen : rel.attgenerated c with
    | some eval => exact (hgenerated hgen).trans (hkeeps.generated c eval hgen hc)
    | none =>
      refine (hplain hgen).trans ((slot_untouched_iff h won hc).mpr
        ⟨fun hd hmem => hkeeps.unmapped hd c hmem hgen, fun hmem hdelta => ?_⟩)
      have hunchanged := hc.resolve_left (not_not_intro hmem)
      rw [hkeeps.sent c hmem hdelta hgen] at hunchanged
      cases hunchanged

/-! ## The stored row -/

theorem keepsUntouched_iff_of_heap {x' : Xact Node natts V} {row : Row natts V} {xmin : Nat}
    (hheap : x'.node.heap = some ⟨row, xmin⟩) (localrow : Row natts V) :
    KeepsUntouched rel ch localrow x' ↔ ∀ c, ch.Untouched rel c → row c = localrow c := by
  constructor
  · rintro ⟨tup', hheap', hkeeps⟩
    obtain rfl : (⟨row, xmin⟩ : HeapTuple natts V) = tup' :=
      Option.some.inj (hheap.symm.trans hheap')
    exact hkeeps
  · intro hkeeps
    exact ⟨_, hheap, hkeeps⟩

section Stored

variable [DecidableEq Node] {cfg : ConflictConfig Node} {sess : ApplySession Node}
  {x x' : Xact Node natts V} {tup : HeapTuple natts V}

/-- **The row a change leaves.** It is stored if the remote row has won or the table has delta
columns. -/
theorem applyChange_stores (hheap : x.node.heap = some tup)
    (happly : applyChange cfg sess rel x ch = .ok x') :
    ∃ won resolution, tryResolveConflict cfg sess (getTupleOrigin cfg sess x tup).1
        (getTupleOrigin cfg sess x tup).2.1 = .ok (won, resolution) ∧
      if won ∨ rel.hasDeltaColumns = true then
        ∃ xmin, x'.node.heap = some ⟨computeStoredGenerated rel (ch.slot rel tup.row won), xmin⟩
      else x' = x := by
  rw [applyChange_eq_handle _ _ _ _ hheap, spockHandleConflictAndApply] at happly
  cases hres : tryResolveConflict cfg sess (getTupleOrigin cfg sess x tup).1
      (getTupleOrigin cfg sess x tup).2.1 with
  | error e => simp [hres, bind, Except.bind] at happly
  | ok decision =>
    obtain ⟨won, resolution⟩ := decision
    refine ⟨won, resolution, rfl, ?_⟩
    simp only [hres, bind, Except.bind, pure, Except.pure] at happly
    cases won <;> cases hdelta : rel.hasDeltaColumns <;>
      simp only [hdelta, if_true, Bool.false_eq_true, if_false, Except.ok.injEq] at happly <;>
      subst happly
    · simp
    · simp only [Bool.false_eq_true, false_or, if_true]
      exact ⟨x.node.nextXid, rfl⟩
    all_goals
      simp only [true_or, if_true]
      exact ⟨x.topXid, rfl⟩

/-- **What the change does not carry is kept** exactly when nothing is stored, since the remote row
has lost and the table has no delta columns, or nothing that is stored loses or changes it. -/
theorem applyChange_keepsUntouched_iff (hheap : x.node.heap = some tup)
    (hreceived : ch.Received rel tup.row) (happly : applyChange cfg sess rel x ch = .ok x') :
    KeepsUntouched rel ch tup.row x' ↔
      ∀ won resolution, tryResolveConflict cfg sess (getTupleOrigin cfg sess x tup).1
          (getTupleOrigin cfg sess x tup).2.1 = .ok (won, resolution) →
        won ∨ rel.hasDeltaColumns = true → KeepsColumns rel ch tup.row won := by
  obtain ⟨won, resolution, hdecision, hstored⟩ := applyChange_stores hheap happly
  have hthis : (∀ won' resolution', tryResolveConflict cfg sess (getTupleOrigin cfg sess x tup).1
        (getTupleOrigin cfg sess x tup).2.1 = .ok (won', resolution') →
      won' ∨ rel.hasDeltaColumns = true → KeepsColumns rel ch tup.row won') ↔
      (won ∨ rel.hasDeltaColumns = true → KeepsColumns rel ch tup.row won) := by
    refine ⟨fun h => h won resolution hdecision, fun h won' resolution' hdecision' => ?_⟩
    cases hdecision.symm.trans hdecision'
    exact h
  rw [hthis]
  split at hstored
  · next hstores =>
    obtain ⟨xmin, hrow⟩ := hstored
    rw [keepsUntouched_iff_of_heap hrow, computeStoredGenerated_untouched_iff hreceived]
    exact ⟨fun h _ => h, fun h => h hstores⟩
  · next hstores =>
    subst hstored
    exact iff_of_true ⟨tup, hheap, fun _ _ => rfl⟩ fun h => absurd h hstores

end Stored

/-! ## A table with a local column -/

/-- Two columns of the provider, and a third one, perhaps generated, that exists on this node only. -/
def tableWithLocalColumn (delta : Fin 3 → Bool) (generated : Option (Row 3 Int → Option Int)) :
    SpockRelation 3 Int :=
  { intTable 3 delta with
    attmap := [⟨0, by decide⟩, ⟨1, by decide⟩]
    attgenerated := fun c => if c = Fin.last 2 then generated else none }

/-- A row stored at time 3 by the local node, with `extra` in the local column. -/
def storedRow (extra : Option Int) : HeapTuple 3 Int :=
  ⟨fun c => if c.val = 0 then some 1 else if c.val = 1 then some 100 else extra, 10⟩

/-- The apply transaction on the node that holds `storedRow`. -/
def applyingTo (extra : Option Int) : Xact (Fin 2) 3 Int where
  node :=
    { heap := some (storedRow extra)
      commitTsData := fun xid => if xid = 10 then some ⟨3, some nodeA⟩ else none
      nextXid := 21
      logicalClock := 3 }
  topXid := 20
  children := []
  subTransCommitTsData := []

def addFifty : Change 3 Int :=
  .update (some ⟨fun c => if c.val = 0 then some 1 else some 100, fun _ => true⟩)
    ⟨fun c => if c.val = 0 then some 1 else some 150, fun _ => true⟩

/-- `addFifty`, committed at `ts` on the other node, applied to the stored row. -/
def applyAddFifty (delta : Fin 3 → Bool) (generated : Option (Row 3 Int → Option Int))
    (extra : Option Int) (ts : Int) : Except ErrorData (Xact (Fin 2) 3 Int) :=
  applyChange (numberedNodes 2) (remoteSession nodeA nodeB ts) (tableWithLocalColumn delta generated)
    (applyingTo extra) addFifty

def sevenTimesFirst : Row 3 Int → Option Int := fun row => (row ⟨0, by decide⟩).map (7 * ·)

/-- Without delta columns the local column is kept, also if it is generated from a column that does
not change; with delta columns if it was NULL. -/
theorem applyChange_keepsUntouched_wider :
    (∃ x', applyAddFifty (fun _ => false) (some sevenTimesFirst) (some 7) 5 = .ok x' ∧
      KeepsUntouched (tableWithLocalColumn (fun _ => false) (some sevenTimesFirst)) addFifty
        (storedRow (some 7)).row x') ∧
    (∃ x', applyAddFifty (fun c => c.val == 1) none none 2 = .ok x' ∧
      KeepsUntouched (tableWithLocalColumn (fun c => c.val == 1) none) addFifty
        (storedRow none).row x') := by
  constructor
  · obtain ⟨x', happly⟩ : ∃ x', applyAddFifty (fun _ => false) (some sevenTimesFirst) (some 7) 5 =
        .ok x' := ⟨_, rfl⟩
    refine ⟨x', happly, (applyChange_keepsUntouched_iff rfl ⟨by decide, by decide⟩ happly).mpr ?_⟩
    rintro _ _ ⟨⟩ -
    refine ⟨nofun, fun _ _ _ _ => rfl, fun c eval heval _ => ?_⟩
    obtain ⟨rfl, hsome⟩ := Option.ite_none_right_eq_some.mp heval
    cases hsome
    rfl
  · obtain ⟨x', happly⟩ : ∃ x', applyAddFifty (fun c => c.val == 1) none none 2 = .ok x' := ⟨_, rfl⟩
    refine ⟨x', happly, (applyChange_keepsUntouched_iff rfl ⟨by decide, by decide⟩ happly).mpr ?_⟩
    refine fun won _ _ _ => ⟨fun _ => by decide, fun _ _ _ _ => rfl, fun c eval heval => ?_⟩
    obtain ⟨-, hsome⟩ := Option.ite_none_right_eq_some.mp heval
    cases hsome

/-- The local column of the row `applyAddFifty` leaves. -/
def localColumnAfter (delta : Fin 3 → Bool) (extra : Option Int) (ts : Int) :
    Option (Option Int) :=
  ((applyAddFifty delta none extra ts).toOption.bind fun x => x.node.heap).map fun tup =>
    tup.row (Fin.last 2)

/-- On a table with a delta column the value 7 of the local column is gone after the UPDATE, both
when the remote row wins and when only its delta is applied. -/
theorem localColumn_lost :
    (storedRow (some 7)).row 2 = some 7 ∧
    localColumnAfter (fun c => c.val == 1) (some 7) 5 = some none ∧
    localColumnAfter (fun c => c.val == 1) (some 7) 2 = some none := by
  decide

end Spock
