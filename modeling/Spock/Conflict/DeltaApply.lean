import Mathlib.Algebra.BigOperators.Group.List.Basic
import Mathlib.Algebra.Group.Basic
import Spock.Conflict.Convergence

/-!
# Spock — tables with delta-apply columns

A delta column adds the difference between the sent new and old value to the local one. A change
that loses is applied to the delta columns all the same, in a sub-transaction whose commit
timestamp is overridden so that the row keeps its stamp.

* **`deltaApply_converges_iff`** — the other columns and the stamp. A losing transaction with a
  second change of the row does not lose it: the version its first change forced is under a
  sub-transaction id that has no commit timestamp yet, so `get_tuple_origin` reports timestamp 0
  and the second change wins. The row then carries the losing values and the losing stamp. The
  expected row is there exactly when no transaction taken after the newest one has two changes.
-/

namespace Spock

open List Option

variable {Node V : Type} {natts : Nat}

/-- Column `a` is a delta column. -/
def SpockRelation.IsDelta (rel : SpockRelation natts V) (a : Fin natts) : Prop :=
  (rel.deltaApplyFunctions a).isSome
  deriving Decidable

/-- The delta functions are `spock.delta_apply` of a numeric type. -/
def SpockRelation.DeltaAdds [AddCommGroup V] (rel : SpockRelation natts V) : Prop :=
  ∀ a f, rel.deltaApplyFunctions a = some f → f = fun old new loc => loc + (new - old)

/-- Every change carries all columns, and of delta columns both values. -/
def Txn.SendsFull (rel : SpockRelation natts V) (t : Txn Node natts V) : Prop :=
  ∀ ch ∈ t.changes, ch.newtup.Complete ∧
    ∀ a, rel.IsDelta a → (ch.newtup.values a).isSome ∧ ((ch.oldtup rel).values a).isSome
  deriving Decidable

/-- The difference a change sends for column `a`. -/
def Change.delta [AddCommGroup V] (rel : SpockRelation natts V) (a : Fin natts)
    (ch : Change natts V) : V :=
  (ch.newtup.values a).getD 0 - ((ch.oldtup rel).values a).getD 0

/-- The sum of the differences a transaction sends for column `a`. -/
def Txn.deltaSum [AddCommGroup V] (rel : SpockRelation natts V) (a : Fin natts)
    (t : Txn Node natts V) : V :=
  (t.changes.map (Change.delta rel a)).sum

/-! ## Delta columns add up -/

section Sums

variable [AddCommGroup V] {rel : SpockRelation natts V} (hmap : rel.AllMapped)
  (hadds : rel.DeltaAdds)

omit hmap hadds in
theorem SpockRelation.DeltaAdds.exact (hadds : rel.DeltaAdds) : rel.DeltaExact := by
  intro a f hf l new
  rw [hadds a f hf]
  exact add_sub_cancel l new

include hmap hadds

variable {a : Fin natts} {v : Version Node natts V}

theorem deltaSlot_delta {ch : Change natts V} (ha : rel.IsDelta a)
    (hnew : (ch.newtup.values a).isSome) (hold : ((ch.oldtup rel).values a).isSome)
    (base row : Row natts V) {x : V} (hx : row a = some x) :
    deltaSlot rel base (ch.oldtup rel) ch.newtup row a = some (x + ch.delta rel a) := by
  obtain ⟨f, hf⟩ := isSome_iff_exists.mp ha
  obtain ⟨_, hnew⟩ := isSome_iff_exists.mp hnew
  obtain ⟨_, hold⟩ := isSome_iff_exists.mp hold
  rw [deltaSlot_of_some hmap hf, hnew, hold, hx, hadds a f hf, Change.delta, hnew, hold]
  rfl

theorem foldl_appliedRow_delta (ha : rel.IsDelta a) {chs : List (Change natts V)}
    (hchs : ∀ ch ∈ chs, (ch.newtup.values a).isSome ∧ ((ch.oldtup rel).values a).isSome)
    {row : Row natts V} {x : V} (hx : row a = some x) :
    chs.foldl (appliedRow rel) row a = some (x + (chs.map (Change.delta rel a)).sum) := by
  induction chs generalizing row x with
  | nil => simpa using hx
  | cons ch _ ih =>
    obtain ⟨hnew, hold⟩ := hchs ch (by simp)
    have hrow : appliedRow rel row ch a = some (x + ch.delta rel a) := by
      rw [appliedRow_eq hmap]
      exact deltaSlot_delta hmap hadds ha hnew hold _ row hx
    rw [foldl_cons, ih (fun c hc => hchs c (by simp [hc])) hrow, map_cons, sum_cons, add_assoc]

variable [DecidableEq Node] {cfg : ConflictConfig Node}

/-- **A transaction adds its differences, whether it wins or loses.** -/
theorem take_delta (hd : rel.hasDeltaColumns = true) {n : Node} {t : Txn Node natts V}
    (hfull : t.SendsFull rel) (ha : rel.IsDelta a) {x : V} (hx : v.row a = some x) :
    ∃ w, Txn.take cfg rel n (some v) t = some w ∧ w.row a = some (x + t.deltaSum rel a) := by
  have hsent : ∀ ch ∈ t.changes, (ch.newtup.values a).isSome ∧ ((ch.oldtup rel).values a).isSome :=
    fun ch hch => (hfull ch hch).2 a ha
  have haccept : (t.accept rel n (some v)).row a = some (x + t.deltaSum rel a) :=
    foldl_appliedRow_delta hmap hadds ha hsent hx
  have hlose : (t.lose rel n v).row a = some (x + t.deltaSum rel a) := by
    obtain ⟨hnew, hold⟩ := hsent t.first (by simp [Txn.changes])
    have hforced : forcedRow rel v.row t.first a = some (x + t.first.delta rel a) := by
      rw [forcedRow_eq hmap]
      exact deltaSlot_delta hmap hadds ha hnew hold _ v.row hx
    rw [Txn.lose, if_pos hd]
    cases hrest : t.rest with
    | nil => simpa [Txn.deltaSum, Txn.changes, hrest] using hforced
    | cons ch chs =>
      have hsent' : ∀ c ∈ ch :: chs,
          (c.newtup.values a).isSome ∧ ((c.oldtup rel).values a).isSome := fun c hc =>
        hsent c (by simp only [Txn.changes, hrest]; exact mem_cons_of_mem _ hc)
      rw [Txn.deltaSum, Txn.changes, hrest, map_cons, sum_cons, ← add_assoc]
      exact foldl_appliedRow_delta hmap hadds ha hsent' hforced
  rw [Txn.take]
  by_cases hn : t.origin = n
  · exact ⟨_, rfl, by rw [if_pos hn]; exact haccept⟩
  · rw [if_neg hn, Txn.takeRemote]
    by_cases hwins : remoteWins cfg n t.origin t.commitTs v.entry
    · exact ⟨_, rfl, by rw [if_pos hwins]; exact haccept⟩
    · exact ⟨_, rfl, by rw [if_neg hwins]; exact hlose⟩

/-- **Delta columns add up every history.** -/
theorem foldl_take_delta (hd : rel.hasDeltaColumns = true) {n : Node} {l : List (Txn Node natts V)}
    (hfull : ∀ t ∈ l, t.SendsFull rel) {x : Fin natts → V}
    (hx : ∀ a, rel.IsDelta a → v.row a = some (x a)) :
    ∃ w, l.foldl (Txn.take cfg rel n) (some v) = some w ∧
      ∀ a, rel.IsDelta a → w.row a = some (x a + (l.map (Txn.deltaSum rel a)).sum) := by
  induction l generalizing v x with
  | nil => exact ⟨v, rfl, fun a ha => by simpa using hx a ha⟩
  | cons t _ ih =>
    obtain ⟨w, hw⟩ : ∃ w, Txn.take cfg rel n (some v) t = some w := ⟨_, rfl⟩
    have hw' : ∀ a, rel.IsDelta a → w.row a = some (x a + t.deltaSum rel a) := by
      intro a ha
      obtain ⟨w', hw', hrow⟩ : ∃ w, Txn.take cfg rel n (some v) t = some w ∧ _ :=
        take_delta hmap hadds hd (hfull t (by simp)) ha (hx a ha)
      rw [some.inj (hw.symm.trans hw')]
      exact hrow
    obtain ⟨z, hz, hsum⟩ := ih (fun u hu => hfull u (by simp [hu])) hw'
    refine ⟨z, by rw [foldl_cons, hw, hz], fun a ha => ?_⟩
    rw [hsum a ha, map_cons, sum_cons, add_assoc]

end Sums

/-! ## The other columns and the stamp -/

/-- The version has the stamp and the plain columns transaction `t` leaves on node `n`. -/
structure Version.Shows [DecidableEq Node] (rel : SpockRelation natts V) (n : Node)
    (t : Txn Node natts V) (v : Version Node natts V) : Prop where
  entry : v.entry = t.entryAt n
  plain : ∀ a, ¬ rel.IsDelta a → v.row a = t.lastRow a

section Plain

variable [DecidableEq Node] {cfg : ConflictConfig Node} {rel : SpockRelation natts V} {n : Node}
  {ts₀ : Int}

theorem stampOf_take (v : Option (Version Node natts V)) (t : Txn Node natts V) :
    stampOf ts₀ (Txn.take cfg rel n v t) = t.commitTs ∨
      stampOf ts₀ (Txn.take cfg rel n v t) = stampOf ts₀ v := by
  rw [Txn.take]
  by_cases hn : t.origin = n
  · rw [if_pos hn]
    exact .inl rfl
  · rw [if_neg hn]
    cases v with
    | none => exact .inl rfl
    | some v =>
      rw [Txn.takeRemote]
      by_cases hwins : remoteWins cfg n t.origin t.commitTs v.entry
      · rw [if_pos hwins]
        exact .inl rfl
      · rw [if_neg hwins, Txn.lose]
        cases rel.hasDeltaColumns with
        | false => exact .inr rfl
        | true =>
          cases t.rest with
          | nil => exact .inr rfl
          | cons => exact .inl rfl

variable {l : List (Txn Node natts V)} {t m : Txn Node natts V} {v : Version Node natts V}

theorem stampOf_foldl_take {P : Int → Prop} {v : Option (Version Node natts V)}
    (hv : P (stampOf ts₀ v)) (hl : ∀ t ∈ l, P t.commitTs) :
    P (stampOf ts₀ (l.foldl (Txn.take cfg rel n) v)) := by
  induction l generalizing v with
  | nil => exact hv
  | cons t _ ih =>
    refine ih ?_ fun u hu => hl u (by simp [hu])
    have hcases : stampOf ts₀ (Txn.take cfg rel n v t) = t.commitTs ∨ _ := stampOf_take v t
    rcases hcases with h | h
    · rw [h]
      exact hl t (by simp)
    · rw [h]
      exact hv

/-- **A transaction with two changes always leaves its stamp,** losing or not. -/
theorem stampOf_take_of_rest (hd : rel.hasDeltaColumns = true) (hrest : t.rest ≠ [])
    (v : Option (Version Node natts V)) : stampOf ts₀ (Txn.take cfg rel n v t) = t.commitTs := by
  rw [Txn.take]
  by_cases hn : t.origin = n
  · rw [if_pos hn]
    rfl
  · rw [if_neg hn]
    cases v with
    | none => rfl
    | some v =>
      rw [Txn.takeRemote]
      by_cases hwins : remoteWins cfg n t.origin t.commitTs v.entry
      · rw [if_pos hwins]
        rfl
      · rw [if_neg hwins, Txn.lose, if_pos hd]
        cases hr : t.rest with
        | nil => exact absurd hr hrest
        | cons => rfl

theorem IsDelta_eq_none {a : Fin natts} (ha : ¬ rel.IsDelta a) :
    rel.deltaApplyFunctions a = none := by
  simpa [SpockRelation.IsDelta] using ha

theorem accept_shows (hmap : rel.AllMapped) (hfull : t.SendsFull rel) (v : Version Node natts V) :
    (t.accept rel n (some v)).Shows rel n t where
  entry := rfl
  plain a ha := by
    -- the last change decides
    have hlast : ∀ (chs : List (Change natts V)) (ch : Change natts V),
        ch.newtup.Complete → (chs ++ [ch]).foldl (appliedRow rel) v.row a = ch.newtup.values a := by
      intro chs ch hc
      rw [foldl_concat, appliedRow_eq hmap, deltaSlot_of_none hmap (IsDelta_eq_none ha),
        slotModifyData_complete hmap hc]
    show t.changes.foldl (appliedRow rel) v.row a = t.lastRow a
    rw [Txn.lastRow]
    rcases eq_nil_or_concat t.rest with hnil | ⟨chs, ch, hconcat⟩
    · rw [Txn.changes, hnil]
      exact hlast [] t.first (hfull t.first (by simp [Txn.changes])).1
    · rw [concat_eq_append] at hconcat
      have hch := (hfull ch (by simp [Txn.changes, hconcat])).1
      rw [Txn.changes, hconcat, getLastD_concat, ← cons_append]
      exact hlast (t.first :: chs) ch hch

theorem lose_shows (hmap : rel.AllMapped) (hrest : t.rest = []) (hv : v.Shows rel n m) :
    (t.lose rel n v).Shows rel n m := by
  rw [Txn.lose]
  cases rel.hasDeltaColumns with
  | false => exact hv
  | true =>
    rw [hrest]
    refine ⟨hv.entry, fun a ha => ?_⟩
    rw [← hv.plain a ha]
    show forcedRow rel v.row t.first a = v.row a
    rw [forcedRow_eq hmap]
    exact deltaSlot_of_none hmap (IsDelta_eq_none ha) _ _ _ _

theorem foldl_take_shows (hmap : rel.AllMapped) (hlt : ∀ t ∈ l, t.commitTs < m.commitTs)
    (hn : ∀ t ∈ l, t.origin ≠ n) (hrest : ∀ t ∈ l, t.rest = []) (hv : v.Shows rel n m) :
    ∃ w, l.foldl (Txn.take cfg rel n) (some v) = some w ∧ w.Shows rel n m := by
  induction l generalizing v with
  | nil => exact ⟨v, rfl, hv⟩
  | cons t _ ih =>
    have hloses : ¬ remoteWins cfg n t.origin t.commitTs v.entry := by
      have hlt' := hlt t (by simp)
      rw [hv.entry, remoteWins]
      show ¬ (m.commitTs < t.commitTs ∨ (m.commitTs = t.commitTs ∧ _))
      omega
    have htake : Txn.take cfg rel n (some v) t = some (t.lose rel n v) := by
      rw [Txn.take, if_neg (hn t (by simp)), Txn.takeRemote, if_neg hloses]
    rw [foldl_cons, htake]
    exact ih (fun u hu => hlt u (by simp [hu])) (fun u hu => hn u (by simp [hu]))
      (fun u hu => hrest u (by simp [hu])) (lose_shows hmap (hrest t (by simp)) hv)

end Plain

/-! ## The whole row -/

/-- What delta apply is for: on node `n` every delta column is the start value plus all
differences, and the rest is as the newest transaction `m` left it, stamp included. -/
structure Cluster.DeltaConverged [AddCommGroup V] [DecidableEq Node] (rel : SpockRelation natts V)
    (c : Cluster Node natts V) (x₀ : Fin natts → V) (n : Node) (m : Txn Node natts V)
    (v : Version Node natts V) : Prop extends v.Shows rel n m where
  version : (c.nodes n).version = some v
  delta : ∀ a, rel.IsDelta a → v.row a = some (x₀ a + (c.txns.map (Txn.deltaSum rel a)).sum)

section Split

variable [DecidableEq Node] {cfg : ConflictConfig Node} {rel : SpockRelation natts V} {ts₀ : Int}
  {c₀ c : Cluster Node natts V}

theorem Cluster.Inv.applied_perm (hinv : c₀.Inv cfg rel ts₀ c)
    (hdist : DistinctTimestamps c.txns) {n : Node} (hseen : c.SeenAll n) :
    (c.applied n).Perm c.txns := by
  have hnodup : (c.applied n).Nodup :=
    (hinv.distinct_applied hdist n).imp fun h heq => h (congrArg Txn.commitTs heq)
  refine (perm_ext_iff_of_nodup hnodup (List.Nodup.of_map _ hdist)).mpr fun t => ?_
  exact ⟨hinv.applied n t, hinv.mem_of_seenAll hseen⟩

theorem Cluster.Inv.split_newest (hinv : c₀.Inv cfg rel ts₀ c) (hdist : DistinctTimestamps c.txns)
    {m : Txn Node natts V} (hm : Newest m c.txns) {n : Node} {pre post : List (Txn Node natts V)}
    (happ : c.applied n = pre ++ m :: post) :
    (∀ t ∈ pre, t.commitTs < m.commitTs) ∧
      ∀ t ∈ post, t.commitTs < m.commitTs ∧ t.origin ≠ n := by
  have hmem := hinv.applied n
  have hne := hinv.distinct_applied hdist n
  have horder := (hinv.node n).order
  rw [happ] at hmem hne horder
  obtain ⟨-, hne₂, hne₁⟩ := pairwise_append.mp hne
  obtain ⟨-, horder₂, -⟩ := pairwise_append.mp horder
  constructor
  · intro t ht
    have hle := hm.2 t (hmem t (by simp [ht]))
    have := hne₁ t ht m (by simp)
    omega
  · intro t ht
    have hle := hm.2 t (hmem t (by simp [ht]))
    have hts := (pairwise_cons.mp hne₂).1 t ht
    refine ⟨by omega, fun hn => ?_⟩
    have := (pairwise_cons.mp horder₂).1 t ht hn
    omega

theorem take_newest {m : Txn Node natts V} {n : Node} {v : Version Node natts V}
    (hlt : v.entry.time < m.commitTs) :
    Txn.take cfg rel n (some v) m = some (m.accept rel n (some v)) := by
  rw [Txn.take]
  by_cases hn : m.origin = n
  · rw [if_pos hn]
  · rw [if_neg hn, Txn.takeRemote,
      if_pos (show remoteWins cfg n m.origin m.commitTs v.entry from .inl hlt)]

theorem foldl_take_isSome (n : Node) (l : List (Txn Node natts V)) (v : Version Node natts V) :
    ∃ w, l.foldl (Txn.take cfg rel n) (some v) = some w := by
  induction l generalizing v with
  | nil => exact ⟨v, rfl⟩
  | cons _ _ ih => exact ih _

variable (hmap : rel.AllMapped) (hinit : c₀.Initial ts₀) (hinv : c₀.Inv cfg rel ts₀ c)
  (hdist : DistinctTimestamps c.txns) {m : Txn Node natts V} (hm : Newest m c.txns) {n : Node}
  {v₀ : Version Node natts V} (hv₀ : (c₀.nodes n).version = some v₀)
  {pre post : List (Txn Node natts V)} (happ : c.applied n = pre ++ m :: post)
include hmap hinit hinv hdist hm hv₀ happ

theorem Cluster.Inv.shows_newest (hfull : m.SendsFull rel) (hpost : ∀ t ∈ post, t.rest = []) :
    ∃ v, (c.nodes n).version = some v ∧ v.Shows rel n m := by
  obtain ⟨hpre, hafter⟩ := hinv.split_newest hdist hm happ
  obtain ⟨v₁, hv₁⟩ : ∃ w, pre.foldl (Txn.take cfg rel n) (some v₀) = some w :=
    foldl_take_isSome n pre v₀
  have hlt : v₁.entry.time < m.commitTs := by
    have hstart : stampOf ts₀ (some v₀) < m.commitTs :=
      (hinit.older n v₀ hv₀).trans_lt (hinv.above m hm.1)
    have hstamp : stampOf ts₀ (pre.foldl (Txn.take cfg rel n) (some v₀)) < m.commitTs :=
      stampOf_foldl_take (P := fun x => x < m.commitTs) hstart hpre
    rw [hv₁] at hstamp
    exact hstamp
  have hversion := (hinv.node n).version
  rw [hv₀, happ, foldl_append, foldl_cons, hv₁, take_newest hlt] at hversion
  rw [hversion]
  exact foldl_take_shows hmap (fun t ht => (hafter t ht).1) (fun t ht => (hafter t ht).2) hpost
    (accept_shows hmap hfull v₁)

omit hmap hinit in
theorem Cluster.Inv.stamp_ne_newest (hd : rel.hasDeltaColumns = true) {t : Txn Node natts V}
    (ht : t ∈ post) (hrest : t.rest ≠ []) : stampOf ts₀ (c.nodes n).version ≠ m.commitTs := by
  obtain ⟨-, hafter⟩ := hinv.split_newest hdist hm happ
  have hversion := (hinv.node n).version
  obtain ⟨p, q, rfl⟩ := append_of_mem ht
  rw [hv₀, happ, foldl_append, foldl_cons, foldl_append, foldl_cons] at hversion
  rw [hversion]
  refine stampOf_foldl_take (P := fun x => x ≠ m.commitTs) ?_
    fun u hu => (hafter u (by simp [hu])).1.ne
  rw [stampOf_take_of_rest hd hrest]
  exact (hafter t ht).1.ne

end Split

section Whole

variable [AddCommGroup V] [DecidableEq Node] {cfg : ConflictConfig Node}
  (hcfg : cfg.LastUpdateWins) {rel : SpockRelation natts V} (hmap : rel.AllMapped)
  (hadds : rel.DeltaAdds) (hd : rel.hasDeltaColumns = true)
include hcfg hmap hadds hd

/-- **Delta apply converges exactly when no transaction with two changes comes after the newest.**
On a node that has taken every transaction, the delta columns always add up; the plain columns
and the stamp are those of the newest transaction `m` if and only if every transaction the node
took after `m` has a single change of the row. -/
theorem deltaApply_converges_iff {ts₀ : Int} {c₀ c : Cluster Node natts V}
    (hinit : c₀.Initial ts₀) {row₀ : Row natts V} {x₀ : Fin natts → V}
    (hrow₀ : ∀ n, (c₀.nodes n).version.map (·.row) = some row₀)
    (hx₀ : ∀ a, rel.IsDelta a → row₀ a = some (x₀ a)) {es : List (Event Node natts V)}
    (hsends : ∀ e ∈ es, e.SendsDeltas rel) (hrun : Runs.run (Cluster.step cfg rel) c₀ es = some c)
    (hfull : ∀ t ∈ c.txns, t.SendsFull rel) (hdist : DistinctTimestamps c.txns) {n : Node}
    (hseen : c.SeenAll n) {m : Txn Node natts V} (hm : Newest m c.txns) :
    (∃ v, c.DeltaConverged rel x₀ n m v) ↔
      ∀ pre post, c.applied n = pre ++ m :: post → ∀ t ∈ post, t.rest = [] := by
  have hinv := Cluster.inv_run hcfg hmap hadds.exact hinit hsends hrun
  obtain ⟨v₀, hv₀, rfl⟩ := map_eq_some_iff.mp (hrow₀ n)
  constructor
  · rintro ⟨v, hv⟩ pre post happ t ht
    by_contra hrest
    refine hinv.stamp_ne_newest hdist hm hv₀ happ hd ht hrest ?_
    rw [hv.version, stampOf, hv.entry]
    rfl
  · intro hsingle
    obtain ⟨pre, post, happ⟩ := append_of_mem (hinv.mem_of_seenAll hseen hm.1)
    obtain ⟨v, hv, hshows⟩ := hinv.shows_newest hmap hinit hdist hm hv₀ happ (hfull m hm.1)
      (hsingle pre post happ)
    obtain ⟨w, hw, hsum⟩ : ∃ w, (c.applied n).foldl (Txn.take cfg rel n) (some v₀) = some w ∧ _ :=
      foldl_take_delta hmap hadds hd (fun t ht => hfull t (hinv.applied n t ht)) hx₀
    have hvw : v = w := by
      rw [(hinv.node n).version, hv₀, hw] at hv
      exact (some.inj hv).symm
    refine ⟨v, hshows, hv, fun a ha => ?_⟩
    rw [hvw, hsum a ha, ((hinv.applied_perm hdist hseen).map (Txn.deltaSum rel a)).sum_eq]

/-- **No difference is lost or added twice.** In every run a delta column of a node is the start
value plus the differences of the transactions the node has taken; once it has taken all, it is the
same on every node, whichever of them won. -/
theorem delta_columns_add_up {ts₀ : Int} {c₀ c : Cluster Node natts V} (hinit : c₀.Initial ts₀)
    {row₀ : Row natts V} {x₀ : Fin natts → V}
    (hrow₀ : ∀ n, (c₀.nodes n).version.map (·.row) = some row₀)
    (hx₀ : ∀ a, rel.IsDelta a → row₀ a = some (x₀ a)) {es : List (Event Node natts V)}
    (hsends : ∀ e ∈ es, e.SendsDeltas rel) (hrun : Runs.run (Cluster.step cfg rel) c₀ es = some c)
    (hfull : ∀ t ∈ c.txns, t.SendsFull rel) (n : Node) :
    ∃ v, (c.nodes n).version = some v ∧ ∀ a, rel.IsDelta a →
      v.row a = some (x₀ a + ((c.applied n).map (Txn.deltaSum rel a)).sum) ∧
      (DistinctTimestamps c.txns → c.SeenAll n →
        v.row a = some (x₀ a + (c.txns.map (Txn.deltaSum rel a)).sum)) := by
  have hinv := Cluster.inv_run hcfg hmap hadds.exact hinit hsends hrun
  obtain ⟨v₀, hv₀, rfl⟩ := map_eq_some_iff.mp (hrow₀ n)
  obtain ⟨w, hw, hsum⟩ : ∃ w, (c.applied n).foldl (Txn.take cfg rel n) (some v₀) = some w ∧ _ :=
    foldl_take_delta hmap hadds hd (fun t ht => hfull t (hinv.applied n t ht)) hx₀
  refine ⟨w, by rw [(hinv.node n).version, hv₀, hw], fun a ha => ⟨hsum a ha, fun hdist hseen => ?_⟩⟩
  rw [hsum a ha, ((hinv.applied_perm hdist hseen).map (Txn.deltaSum rel a)).sum_eq]

end Whole

/-- A delta column and a plain one, both 0. Node 0 updates them to (5, 7) at time 10; node 1, at
time 5, updates them to (1, 1) and in the same transaction to (2, 2). -/
def losingPair : List (Event (Fin 2) 2 Int) :=
  [.commit nodeA 10 (.update (fun a => if a.val = 0 then some 5 else some 7) (fun _ => false)
      (some fun _ => true)) [],
    .commit nodeB 5 (.update (fun _ => some 1) (fun _ => false) (some fun _ => true))
      [.update (fun _ => some 2) (fun _ => false) (some fun _ => true)],
    .deliver nodeA 30 1, .deliver nodeB 30 0]

theorem losingPair_sendsDeltas (rel : SpockRelation 2 Int) :
    ∀ e ∈ losingPair, e.SendsDeltas rel := by
  simp [losingPair, Event.SendsDeltas, LocalChange.SendsDeltas]

/-- On node 0 the older transaction's second update replaces the plain column and the stamp of the
newer one. -/
theorem losingPair_overwrites :
    (freshCluster (some fun _ => some 0) : Cluster (Fin 2) 2 Int).Initial 1 ∧
    (∀ e ∈ losingPair, e.SendsDeltas (intTable 2 fun a => a == 0)) ∧
    ∃ c, Runs.run (Cluster.step (numberedNodes 2) (intTable 2 fun a => a == 0))
        (freshCluster (some fun _ => some 0)) losingPair = some c ∧
      (∀ t ∈ c.txns, t.SendsFull (intTable 2 fun a => a == 0)) ∧ DistinctTimestamps c.txns ∧
      (∀ n, c.SeenAll n) ∧
      c.txns.map (fun t => (t.commitTs, t.lastRow 1)) = [(10, some 7), (5, some 2)] ∧
      (c.nodes 0).version.map (fun v => (v.row 0, v.row 1, v.entry))
        = some (some 7, some 2, ⟨5, some 1⟩) :=
  ⟨freshCluster_initial _, losingPair_sendsDeltas _, _, rfl, by decide, by decide, by decide,
    by decide, by decide⟩

theorem intTable_deltaAdds (natts : Nat) (delta : Fin natts → Bool) :
    (intTable natts delta).DeltaAdds := by
  intro a f hf
  simp only [intTable] at hf
  split at hf
  · exact (some.inj hf).symm
  · cases hf

theorem deltaApply_converges_iff_losingPair :
    ∃ c m, Runs.run (Cluster.step (numberedNodes 2) (intTable 2 fun a => a == 0))
        (freshCluster (some fun _ => some 0)) losingPair = some c ∧ Newest m c.txns ∧
      ((∃ v, c.DeltaConverged (intTable 2 fun a => a == 0) (fun _ => 0) 1 m v) ↔
        ∀ pre post, c.applied 1 = pre ++ m :: post → ∀ t ∈ post, t.rest = []) := by
  refine ⟨_, _, rfl, ⟨List.Mem.head _, by decide⟩, ?_⟩
  exact deltaApply_converges_iff (numberedNodes_lastUpdateWins 2) (intTable_allMapped 2 _)
    (intTable_deltaAdds 2 _) (by decide) (freshCluster_initial (some fun _ => some 0))
    (fun n => by rw [freshCluster_version]; rfl) (fun _ _ => rfl) (losingPair_sendsDeltas _) rfl
    (by decide) (by decide) (by decide) ⟨List.Mem.head _, by decide⟩

/-- Both nodes have 7 in the delta column, where `losingPair_overwrites` has them differ in the plain
one. -/
theorem delta_columns_add_up_losingPair :
    ∃ c, Runs.run (Cluster.step (numberedNodes 2) (intTable 2 fun a => a == 0))
        (freshCluster (some fun _ => some 0)) losingPair = some c ∧
      ∀ n, ∃ v, (c.nodes n).version = some v ∧ v.row 0 = some 7 := by
  obtain ⟨c, hrun⟩ : ∃ c, Runs.run (Cluster.step (numberedNodes 2) (intTable 2 fun a => a == 0))
    (freshCluster (some fun _ => some 0)) losingPair = some c := ⟨_, rfl⟩
  refine ⟨c, hrun, fun n => ?_⟩
  have hstate := Option.some.inj hrun
  have hseen : c.SeenAll n := by
    subst hstate
    revert n
    decide
  obtain ⟨v, hv, hdelta⟩ := delta_columns_add_up (numberedNodes_lastUpdateWins 2)
    (intTable_allMapped 2 _) (intTable_deltaAdds 2 _) (by decide)
    (freshCluster_initial (some fun _ => some 0)) (fun n => by rw [freshCluster_version]; rfl)
    (fun _ _ => rfl) (losingPair_sendsDeltas _) hrun (by subst hstate; decide) n
  refine ⟨v, hv, ((hdelta 0 (by decide)).2 (by subst hstate; decide) hseen).trans ?_⟩
  subst hstate
  decide

end Spock
