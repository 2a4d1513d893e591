import Spock.Conflict.Convergence

/-!
# Spock — equal timestamps and the tiebreaker

On equal commit timestamps `conflict_resolve_by_timestamp` compares the tiebreaker of the applying
node with that of the remote origin: the smaller one wins. The writer of the row being compared
plays no part. A node therefore keeps the first transaction it takes and then lets every later one
from an origin with a smaller tiebreaker replace it, so that the last of those stays
(**`tiebreak_outcome`**). Two nodes agree; three need not, since the outcome on a node depends on
the order in which the others' transactions arrive (**`threeNodes_diverge`**).
-/

namespace Spock

open List Option

variable {Node V : Type} {natts : Nat}

/-- The transaction node `n` ends with when all it takes have one timestamp. -/
def tiebreakWinner (cfg : ConflictConfig Node) (n : Node) :
    List (Txn Node natts V) → Option (Txn Node natts V)
  | [] => none
  | t :: l => some
      (((t :: l).filter fun u => cfg.tiebreaker u.origin < cfg.tiebreaker n).getLastD t)

section Ties

variable [DecidableEq Node] {cfg : ConflictConfig Node} {rel : SpockRelation natts V}
  (hmap : rel.AllMapped) (hd : rel.hasDeltaColumns = false)
  (htb : Function.Injective cfg.tiebreaker)

variable {n : Node} {t u : Txn Node natts V}

theorem accept_full (hmap : rel.AllMapped) (hd : rel.hasDeltaColumns = false) (hfull : t.Full)
    (v : Option (Version Node natts V)) : t.accept rel n v = ⟨t.lastRow, t.entryAt n⟩ := by
  rw [Txn.accept, Txn.rowFrom_full hmap hd hfull]

include hmap hd htb

/-- One more transaction with the timestamp of the row: it replaces the row exactly when its
origin's tiebreaker is below the node's. -/
theorem take_tie (hts : u.commitTs = t.commitTs) (hn : t.origin ≠ n) (hu : u.origin ≠ t.origin)
    (hfull : t.Full) :
    Txn.take cfg rel n (some ⟨u.lastRow, u.entryAt n⟩) t
      = if cfg.tiebreaker t.origin < cfg.tiebreaker n then some ⟨t.lastRow, t.entryAt n⟩
        else some ⟨u.lastRow, u.entryAt n⟩ := by
  have hnodeid : (u.entryAt n).nodeid ≠ some t.origin := by
    rw [Txn.entryAt]
    by_cases hun : u.origin = n <;> simp [hun, hu]
  have hlt : cfg.tiebreaker t.origin ≤ cfg.tiebreaker n ↔
      cfg.tiebreaker t.origin < cfg.tiebreaker n := by
    have hne : cfg.tiebreaker t.origin ≠ cfg.tiebreaker n := fun h => hn (htb h)
    omega
  have hwins : remoteWins cfg n t.origin t.commitTs (u.entryAt n) ↔
      cfg.tiebreaker t.origin < cfg.tiebreaker n := by
    have htime : (u.entryAt n).time = t.commitTs := hts
    rw [remoteWins, htime, ← hlt]
    simp [hnodeid]
  rw [Txn.take, if_neg hn, Txn.takeRemote]
  by_cases h : cfg.tiebreaker t.origin < cfg.tiebreaker n
  · rw [if_pos (hwins.mpr h), if_pos h, accept_full hmap hd hfull]
  · rw [if_neg (mt hwins.mp h), if_neg h]
    simp [Txn.lose, hd]

/-- Induction on the transactions that follow; the one that holds the row is `u`. -/
theorem foldl_take_ties {l : List (Txn Node natts V)} (hts : ∀ t ∈ l, u.commitTs = t.commitTs)
    (hn : ∀ t ∈ l, t.origin ≠ n) (horigins : (u :: l).Pairwise fun x y => x.origin ≠ y.origin)
    (hfull : ∀ t ∈ l, t.Full) :
    l.foldl (Txn.take cfg rel n) (some ⟨u.lastRow, u.entryAt n⟩)
      = some ⟨((l.filter fun t => cfg.tiebreaker t.origin < cfg.tiebreaker n).getLastD u).lastRow,
          ((l.filter fun t => cfg.tiebreaker t.origin < cfg.tiebreaker n).getLastD u).entryAt n⟩ := by
  induction l generalizing u with
  | nil => rfl
  | cons t _ ih =>
    obtain ⟨hu, horigins'⟩ := pairwise_cons.mp horigins
    have htu := hts t (by simp)
    rw [foldl_cons, take_tie hmap hd htb htu (hn t (by simp)) (hu t (by simp)) (hfull t (by simp))]
    by_cases h : cfg.tiebreaker t.origin < cfg.tiebreaker n
    · rw [if_pos h, ih (fun x hx => htu ▸ hts x (by simp [hx])) (fun x hx => hn x (by simp [hx]))
        horigins' (fun x hx => hfull x (by simp [hx])), filter_cons_of_pos (by simpa using h),
        getLastD_cons]
    · rw [if_neg h, ih (fun x hx => hts x (by simp [hx])) (fun x hx => hn x (by simp [hx]))
        (pairwise_cons.mpr ⟨fun x hx => hu x (by simp [hx]), horigins'.of_cons⟩)
        (fun x hx => hfull x (by simp [hx])), filter_cons_of_neg (by simpa using h)]

end Ties

section Outcome

variable [DecidableEq Node] {cfg : ConflictConfig Node} (hcfg : cfg.LastUpdateWins)
  (htb : Function.Injective cfg.tiebreaker) {rel : SpockRelation natts V} (hmap : rel.AllMapped)
  (hd : rel.hasDeltaColumns = false) {ts₀ τ : Int} {c₀ c : Cluster Node natts V}

variable {n : Node} {first : Txn Node natts V} {l : List (Txn Node natts V)}

theorem Cluster.Inv.own_first (hinv : c₀.Inv cfg rel ts₀ c) (hts : ∀ t ∈ c.txns, t.commitTs = τ)
    (happ : c.applied n = first :: l) : ∀ t ∈ l, t.origin ≠ n := by
  intro t ht hn
  have horder := (hinv.node n).order
  have happlied := hinv.applied n
  rw [happ] at horder happlied
  have hlt := (pairwise_cons.mp horder).1 t ht hn
  rw [hts first (happlied first (by simp)), hts t (happlied t (by simp [ht]))] at hlt
  omega

theorem Cluster.Inv.version_tie (hinv : c₀.Inv cfg rel ts₀ c) (hinit : c₀.Initial ts₀)
    (htb : Function.Injective cfg.tiebreaker) (hmap : rel.AllMapped)
    (hd : rel.hasDeltaColumns = false) (hfull : ∀ t ∈ c.txns, t.Full)
    (hts : ∀ t ∈ c.txns, t.commitTs = τ) {w : Txn Node natts V}
    (hw : tiebreakWinner cfg n (c.applied n) = some w) :
    (c.nodes n).version = some ⟨w.lastRow, w.entryAt n⟩ := by
  cases happ : c.applied n with
  | nil => rw [happ] at hw; cases hw
  | cons first l =>
    have hmem : ∀ t ∈ first :: l, t ∈ c.txns := happ ▸ hinv.applied n
    have hne := hinv.own_first hts happ
    -- no two transactions of the history have one origin
    have hdist : (first :: l).Pairwise fun x y => x.origin ≠ y.origin := by
      have honce := (hinv.node n).once
      rw [happ] at honce
      refine honce.imp_of_mem fun {x y} hx hy hnot heq => hnot ⟨heq, ?_⟩
      rw [hts x (hmem x hx), hts y (hmem y hy)]
    -- the first one is taken: own, or newer than the row the node starts from
    have hfirst : Txn.take cfg rel n (c₀.nodes n).version first
        = some ⟨first.lastRow, first.entryAt n⟩ := by
      have habove := hinv.above first (hmem first (by simp))
      have hstamp := stampOf_le hinit n
      rw [take_eq_offer hd habove (fun _ => hstamp.trans_lt habove) (hstamp.trans_lt habove).ne,
        if_pos (hstamp.trans_lt habove), accept_full hmap hd (hfull first (hmem first (by simp)))]
    have hfold := foldl_take_ties hmap hd htb (n := n)
      (fun t ht => (hts first (hmem first (by simp))).trans (hts t (hmem t (by simp [ht]))).symm)
      hne hdist (fun t ht => hfull t (hmem t (by simp [ht])))
    rw [(hinv.node n).version, happ, foldl_cons, hfirst, hfold]
    -- the first transaction ends up last in the filter only when nothing follows it there
    rw [happ, tiebreakWinner, some.injEq] at hw
    have hlast : (l.filter fun t => cfg.tiebreaker t.origin < cfg.tiebreaker n).getLastD first = w := by
      rw [← hw]
      by_cases h : cfg.tiebreaker first.origin < cfg.tiebreaker n
      · rw [filter_cons_of_pos (by simpa using h), getLastD_cons]
      · rw [filter_cons_of_neg (by simpa using h)]
    rw [hlast]

omit [DecidableEq Node] in
theorem tiebreakWinner_of_none (h : ∀ t ∈ first :: l, ¬ cfg.tiebreaker t.origin < cfg.tiebreaker n) :
    tiebreakWinner cfg n (first :: l) = some first := by
  have hnil : ((first :: l).filter fun t => cfg.tiebreaker t.origin < cfg.tiebreaker n) = [] :=
    filter_eq_nil_iff.mpr fun t ht => by simpa using h t ht
  rw [tiebreakWinner, hnil]
  rfl

omit [DecidableEq Node] in
theorem tiebreakWinner_of_unique {t : Txn Node natts V} (ht : t ∈ l)
    (hlt : cfg.tiebreaker t.origin < cfg.tiebreaker n)
    (hunique : ∀ u ∈ l, cfg.tiebreaker u.origin < cfg.tiebreaker n → u = t) :
    tiebreakWinner cfg n l = some t := by
  have hmem : t ∈ l.filter fun u => cfg.tiebreaker u.origin < cfg.tiebreaker n :=
    mem_filter.mpr ⟨ht, by simpa using hlt⟩
  cases l with
  | nil => exact absurd ht not_mem_nil
  | cons first l =>
    rw [tiebreakWinner, getLastD_eq_getLast?]
    cases hlast : ((first :: l).filter
        fun u => cfg.tiebreaker u.origin < cfg.tiebreaker n).getLast? with
    | none =>
      rw [getLast?_eq_none_iff.mp hlast] at hmem
      exact absurd hmem not_mem_nil
    | some u =>
      obtain ⟨hu, hult⟩ := mem_filter.mp (mem_of_getLast? hlast)
      rw [getD_some, hunique u hu (by simpa using hult)]

/-- **Two nodes agree.** Of two nodes the one with the smaller tiebreaker never lets a remote
transaction replace its row, and the other one lets that node's transaction replace its own. -/
theorem Cluster.Inv.winner_two (hinv : c₀.Inv cfg rel ts₀ c) (hts : ∀ t ∈ c.txns, t.commitTs = τ)
    (htwo : ∀ n m k : Node, n = m ∨ n = k ∨ m = k) (hseen : ∀ n, c.SeenAll n) {m : Node}
    (hlt : cfg.tiebreaker n < cfg.tiebreaker m) :
    tiebreakWinner cfg n (c.applied n) = tiebreakWinner cfg m (c.applied m) := by
  have hnm : n ≠ m := by
    rintro rfl
    exact absurd hlt (lt_irrefl _)
  have hside : ∀ k : Node, k = n ∨ k = m := by
    intro k
    rcases htwo n m k with h | h | h
    · exact absurd h hnm
    · exact .inl h.symm
    · exact .inr h.symm
  -- one origin, one transaction
  have hsame : ∀ u ∈ c.txns, ∀ t ∈ c.txns, u.origin = t.origin → u = t := fun u hu t ht h =>
    hinv.eq_of_same hu ht ⟨h, by rw [hts u hu, hts t ht]⟩
  cases happn : c.applied n with
  | nil =>
    cases happm : c.applied m with
    | nil => rfl
    | cons t =>
      have ht := hinv.applied m t (by simp [happm])
      have := hinv.mem_of_seenAll (hseen n) ht
      rw [happn] at this
      exact absurd this not_mem_nil
  | cons first l =>
    have hfirst := hinv.applied n first (by simp [happn])
    have hfirstm := hinv.mem_of_seenAll (hseen m) hfirst
    -- nobody is below `n`
    have hnone : ∀ t ∈ first :: l, ¬ cfg.tiebreaker t.origin < cfg.tiebreaker n := by
      intro t _ h
      rcases hside t.origin with ht | ht <;> rw [ht] at h <;> omega
    rw [tiebreakWinner_of_none hnone]
    symm
    by_cases hown : first.origin = n
    · -- its own transaction comes first on `n` and is the only one from below on `m`
      refine tiebreakWinner_of_unique hfirstm (by rw [hown]; exact hlt) fun u hu hult => ?_
      refine hsame u (hinv.applied m u hu) first hfirst ?_
      rcases hside u.origin with h | h
      · rw [h, hown]
      · rw [h] at hult
        exact absurd hult (lt_irrefl _)
    · -- `n` has no transaction, so the only one is that of `m`
      have hall : ∀ u ∈ c.txns, u = first := by
        intro u hu
        refine hsame u hu first hfirst ?_
        have hum : u.origin ≠ n := by
          intro h
          have hu' : u ∈ first :: l := happn ▸ hinv.mem_of_seenAll (hseen n) hu
          rcases mem_cons.mp hu' with rfl | hul
          · exact hown h
          · exact hinv.own_first hts happn u hul h
        rw [(hside u.origin).resolve_left hum, (hside first.origin).resolve_left hown]
      cases happm : c.applied m with
      | nil => rw [happm] at hfirstm; exact absurd hfirstm not_mem_nil
      | cons first' l' =>
        have hmem : ∀ t ∈ first' :: l', t = first := fun t ht =>
          hall t (hinv.applied m t (happm ▸ ht))
        rw [tiebreakWinner_of_none, hmem first' (by simp)]
        intro t ht h
        rw [hmem t ht, (hside first.origin).resolve_left hown] at h
        exact absurd h (lt_irrefl _)

include hcfg htb hmap hd

/-- **Equal timestamps.** Every node ends with the last transaction it took from an origin with a
smaller tiebreaker than its own, or with the first it took when there is none. Two nodes thus end
with the same row. -/
theorem tiebreak_outcome (hinit : c₀.Initial ts₀) {es : List (Event Node natts V)}
    (hrun : Runs.run (Cluster.step cfg rel) c₀ es = some c) (hfull : ∀ t ∈ c.txns, t.Full)
    (hts : ∀ t ∈ c.txns, t.commitTs = τ) (hsome : c.txns ≠ []) (hseen : ∀ n, c.SeenAll n) :
    (∀ n, ∃ w, tiebreakWinner cfg n (c.applied n) = some w ∧
      (c.nodes n).version = some ⟨w.lastRow, w.entryAt n⟩) ∧
    ((∀ n m k : Node, n = m ∨ n = k ∨ m = k) →
      ∀ n m, (c.nodes n).version.map (·.row) = (c.nodes m).version.map (·.row)) := by
  have hinv := Cluster.inv_run_noDelta hcfg hmap hd hinit hrun
  have hwinner : ∀ n, ∃ w, tiebreakWinner cfg n (c.applied n) = some w ∧
      (c.nodes n).version = some ⟨w.lastRow, w.entryAt n⟩ := by
    intro n
    obtain ⟨t, ht⟩ := exists_mem_of_ne_nil _ hsome
    have hmem := hinv.mem_of_seenAll (hseen n) ht
    cases happ : c.applied n with
    | nil => rw [happ] at hmem; exact absurd hmem not_mem_nil
    | cons => exact ⟨_, rfl, hinv.version_tie hinit htb hmap hd hfull hts (by rw [happ]; rfl)⟩
  refine ⟨hwinner, fun htwo n m => ?_⟩
  obtain ⟨w, hw, hv⟩ := hwinner n
  obtain ⟨w', hw', hv'⟩ := hwinner m
  have heq : w = w' := by
    rcases lt_trichotomy (cfg.tiebreaker n) (cfg.tiebreaker m) with h | h | h
    · exact some.inj (hw.symm.trans ((hinv.winner_two hts htwo hseen h).trans hw'))
    · obtain rfl := htb h
      exact some.inj (hw.symm.trans hw')
    · exact some.inj (hw.symm.trans ((hinv.winner_two hts htwo hseen h).symm.trans hw'))
  rw [hv, hv', heq]
  rfl

end Outcome

/-- Nodes 0 and 1 insert the key at the same time; everyone takes node 0's row first, except node
1, which has its own. -/
def threeNodes : List (Event (Fin 3) 1 Int) :=
  let a := (Fin.last 0).castSucc.castSucc
  let b := (Fin.last 1).castSucc
  let c := Fin.last 2
  [.commit a 10 (.insert fun _ => some 1) [], .commit b 10 (.insert fun _ => some 2) [],
    .deliver a 30 b, .deliver b 30 a, .deliver c 30 a, .deliver c 30 b]

/-- Node 2, whose tiebreaker is the greatest, lets node 1's row replace node 0's; the two writers
agree on node 0's. -/
theorem threeNodes_diverge :
    Function.Injective (numberedNodes 3).tiebreaker ∧
    (freshCluster none : Cluster (Fin 3) 1 Int).Initial 1 ∧
    ∃ c, Runs.run (Cluster.step (numberedNodes 3) (intTable 1 fun _ => false)) (freshCluster none)
        threeNodes = some c ∧
      (∀ t ∈ c.txns, t.Full ∧ t.commitTs = 10) ∧ (c.txns.map Txn.origin).Nodup ∧
      (∀ n, c.SeenAll n) ∧
      (c.nodes 0).version.map (fun v => v.row 0) = some (some 1) ∧
      (c.nodes 1).version.map (fun v => v.row 0) = some (some 1) ∧
      (c.nodes 2).version.map (fun v => v.row 0) = some (some 2) :=
  ⟨numberedNodes_injective 3, freshCluster_initial none, _, rfl, by decide, by decide, by decide,
    by decide,
    by decide, by decide⟩

theorem tiebreak_outcome_threeNodes :
    ∃ c, Runs.run (Cluster.step (numberedNodes 3) (intTable 1 fun _ => false)) (freshCluster none)
        threeNodes = some c ∧
      ∀ n, ∃ w, tiebreakWinner (numberedNodes 3) n (c.applied n) = some w ∧
        (c.nodes n).version = some ⟨w.lastRow, w.entryAt n⟩ := by
  refine ⟨_, rfl, ?_⟩
  exact (tiebreak_outcome (numberedNodes_lastUpdateWins 3) (numberedNodes_injective 3)
    (intTable_allMapped 1 _) rfl (freshCluster_initial none)
    (rfl : Runs.run (Cluster.step _ (intTable 1 fun _ => false)) _ threeNodes = _)
    (by decide) (τ := 10) (by decide) (cons_ne_nil _ _) (by decide)).1

end Spock
