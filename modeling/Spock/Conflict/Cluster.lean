import Mathlib.Data.List.Pairwise
import Mathlib.Logic.Function.Basic
import Spock.Lib.Runs
import Spock.Conflict.Transaction

/-!
# Spock — a cluster of nodes exchanging transactions on one key

Any number of nodes commit local transactions on the key and deliver each other's transactions to
their apply workers, each at most once per node and in any order. A delivery that raises (an
UPDATE without a row) is not a step of the cluster: the runs considered are those in which the
row exists whenever an UPDATE is applied.

Next to the node states a cluster keeps what has happened: the transactions committed so far, and
for each node the transactions it has taken, in the order it took them. **`Cluster.Inv`** says
what holds along every run, and above all that the version a node shows is the fold of
`Txn.take` over the transactions it has taken; every convergence result is then about that fold.
-/

namespace Spock

open List Option

variable {Node V : Type} {natts : Nat}

structure Cluster (Node : Type) (natts : Nat) (V : Type) where
  nodes : Node → NodeState Node natts V
  txns : List (Txn Node natts V)
  /-- What each node has taken, its own transactions included, oldest first. -/
  applied : Node → List (Txn Node natts V)

inductive Event (Node : Type) (natts : Nat) (V : Type) where
  /-- Node `n` commits a local transaction. -/
  | commit (n : Node) (now : Int) (first : LocalChange natts V) (rest : List (LocalChange natts V))
  /-- Node `n` applies transaction number `i`. -/
  | deliver (n : Node) (now : Int) (i : Nat)

/-- One origin never gives two transactions one commit timestamp. -/
def Txn.Same (u t : Txn Node natts V) : Prop := u.origin = t.origin ∧ u.commitTs = t.commitTs

instance [DecidableEq Node] (u t : Txn Node natts V) : Decidable (u.Same t) :=
  inferInstanceAs (Decidable (_ ∧ _))

instance : Std.Symm fun u t : Txn Node natts V => ¬ u.Same t where
  symm _ _ h hsame := h ⟨hsame.1.symm, hsame.2.symm⟩

/-- The cluster after node `n` took `t` and went to state `s`. -/
def Cluster.took [DecidableEq Node] (c : Cluster Node natts V) (n : Node) (t : Txn Node natts V)
    (s : NodeState Node natts V) : Cluster Node natts V :=
  { c with
    nodes := Function.update c.nodes n s
    applied := Function.update c.applied n (c.applied n ++ [t]) }

def Cluster.step [DecidableEq Node] (cfg : ConflictConfig Node) (rel : SpockRelation natts V)
    (c : Cluster Node natts V) : Event Node natts V → Option (Cluster Node natts V)
  | .commit n now first rest =>
    match commitLocalTransaction n now first rest (c.nodes n) with
    | none => none
    | some (s, t) => some { c.took n t s with txns := c.txns ++ [t] }
  | .deliver n now i =>
    match c.txns[i]? with
    | none => none
    | some t =>
      if t.origin = n ∨ ∃ u ∈ c.applied n, u.Same t then none
      else
        match applyRemoteTransaction cfg rel n now t (c.nodes n) with
        | .error _ => none
        | .ok s => some (c.took n t s)

/-- The effect of a transaction, own or remote, on the version of node `n`. -/
def Txn.take [DecidableEq Node] (cfg : ConflictConfig Node) (rel : SpockRelation natts V)
    (n : Node) (v : Option (Version Node natts V)) (t : Txn Node natts V) :
    Option (Version Node natts V) :=
  some (if t.origin = n then t.accept rel n v else t.takeRemote cfg rel n v)

def Event.SendsDeltas (rel : SpockRelation natts V) : Event Node natts V → Prop
  | .commit _ _ first rest => ∀ stmt ∈ first :: rest, stmt.SendsDeltas rel
  | .deliver _ _ _ => True

/-- Where a run starts: nothing replicated yet, and every row older than `ts₀`, which every clock
has passed. -/
structure Cluster.Initial (ts₀ : Int) (c : Cluster Node natts V) : Prop where
  txns : c.txns = []
  applied : ∀ n, c.applied n = []
  wf : ∀ n, (c.nodes n).Wf
  nonneg : 0 ≤ ts₀
  clock : ∀ n, ts₀ ≤ (c.nodes n).logicalClock
  older : ∀ n v, (c.nodes n).version = some v → v.entry.time ≤ ts₀

/-- Node `n` has taken every transaction. -/
def Cluster.SeenAll (c : Cluster Node natts V) (n : Node) : Prop :=
  ∀ t ∈ c.txns, ∃ u ∈ c.applied n, u.Same t

instance [DecidableEq Node] (c : Cluster Node natts V) (n : Node) : Decidable (c.SeenAll n) :=
  inferInstanceAs (Decidable (∀ x ∈ _, _))

/-- The state `s` of node `n` and the transactions `l` it has taken, from the version `v₀`. -/
structure NodeHistory [DecidableEq Node] (cfg : ConflictConfig Node) (rel : SpockRelation natts V)
    (ts₀ : Int) (n : Node) (v₀ : Option (Version Node natts V)) (s : NodeState Node natts V)
    (l : List (Txn Node natts V)) : Prop where
  wf : s.Wf
  version : s.version = l.foldl (Txn.take cfg rel n) v₀
  clock₀ : ts₀ ≤ s.logicalClock
  clock : ∀ t ∈ l, t.commitTs ≤ s.logicalClock
  /-- The node's own transactions come with a timestamp above all it has taken before. -/
  order : l.Pairwise fun u t => t.origin = n → u.commitTs < t.commitTs
  once : l.Pairwise fun u t => ¬ u.Same t

/-- What holds along every run from `c₀`. -/
structure Cluster.Inv [DecidableEq Node] (cfg : ConflictConfig Node) (rel : SpockRelation natts V)
    (ts₀ : Int) (c₀ c : Cluster Node natts V) : Prop where
  node : ∀ n, NodeHistory cfg rel ts₀ n (c₀.nodes n).version (c.nodes n) (c.applied n)
  above : ∀ t ∈ c.txns, ts₀ < t.commitTs
  applied : ∀ n, ∀ t ∈ c.applied n, t ∈ c.txns
  own : ∀ t ∈ c.txns, t ∈ c.applied t.origin

/-- A cluster whose nodes hold the same row, or none, committed at time 1 by transaction 3. -/
def freshCluster (row : Option (Row natts V)) : Cluster Node natts V where
  nodes _ :=
    { heap := row.map fun r => ⟨r, 3⟩
      commitTsData := fun xid => if xid = 3 then some ⟨1, none⟩ else none
      nextXid := 4
      logicalClock := 1 }
  txns := []
  applied _ := []

theorem freshCluster_version (row : Option (Row natts V)) (n : Node) :
    ((freshCluster row).nodes n).version = row.map fun r => ⟨r, ⟨1, none⟩⟩ := by
  cases row <;> simp [freshCluster, NodeState.version]

theorem freshCluster_initial (row : Option (Row natts V)) :
    (freshCluster row : Cluster Node natts V).Initial 1 where
  txns := rfl
  applied _ := rfl
  wf n :=
    { nextXid_normal := show (3 : Nat) ≤ 4 by decide
      fresh := by
        intro xid hxid
        have hle : 4 ≤ xid := hxid
        have hne : xid ≠ 3 := by omega
        simp [freshCluster, hne]
      clock_nonneg := show (0 : Int) ≤ 1 by decide
      stamped := by
        intro tup htup
        obtain ⟨r, -, rfl⟩ := map_eq_some_iff.mp htup
        exact ⟨le_rfl, ⟨1, none⟩, rfl, le_rfl⟩ }
  nonneg := by decide
  clock _ := le_rfl
  older n v hv := by
    rw [freshCluster_version] at hv
    obtain ⟨r, -, rfl⟩ := map_eq_some_iff.mp hv
    exact le_rfl

/-! ## One step

A step adds one transaction to what one node has taken, and to the committed ones if it is new. -/

section Step

variable [DecidableEq Node] {cfg : ConflictConfig Node} {rel : SpockRelation natts V}
  {c c' : Cluster Node natts V}

@[simp] theorem Cluster.took_nodes_self (c : Cluster Node natts V) (n : Node)
    (t : Txn Node natts V) (s : NodeState Node natts V) : (c.took n t s).nodes n = s := by
  simp [Cluster.took]

@[simp] theorem Cluster.took_applied_self (c : Cluster Node natts V) (n : Node)
    (t : Txn Node natts V) (s : NodeState Node natts V) :
    (c.took n t s).applied n = c.applied n ++ [t] :=
  Function.update_self n _ c.applied

variable {n m : Node} {ts₀ : Int} {s : NodeState Node natts V} {t : Txn Node natts V}

theorem Cluster.took_nodes_of_ne (h : m ≠ n) (t : Txn Node natts V) (s : NodeState Node natts V) :
    (c.took n t s).nodes m = c.nodes m := by
  simp [Cluster.took, h]

theorem Cluster.took_applied_of_ne (h : m ≠ n) (t : Txn Node natts V) (s : NodeState Node natts V) :
    (c.took n t s).applied m = c.applied m :=
  Function.update_of_ne h _ c.applied

/-- **What a step does.** -/
theorem Cluster.step_cases {e : Event Node natts V} (h : c.step cfg rel e = some c') :
    (∃ n now first rest s t, e = .commit n now first rest ∧
      commitLocalTransaction n now first rest (c.nodes n) = some (s, t) ∧
      c' = { c.took n t s with txns := c.txns ++ [t] }) ∨
    (∃ n now i t s, e = .deliver n now i ∧ t ∈ c.txns ∧ t.origin ≠ n ∧
      (∀ u ∈ c.applied n, ¬ u.Same t) ∧
      applyRemoteTransaction cfg rel n now t (c.nodes n) = .ok s ∧ c' = c.took n t s) := by
  cases e with
  | commit n now first rest =>
    left
    cases hs : commitLocalTransaction n now first rest (c.nodes n) with
    | none => simp [Cluster.step, hs] at h
    | some p =>
      obtain ⟨s, t⟩ := p
      refine ⟨n, now, first, rest, s, t, rfl, hs, ?_⟩
      simpa [Cluster.step, hs] using h.symm
  | deliver n now i =>
    right
    cases ht : c.txns[i]? with
    | none => simp [Cluster.step, ht] at h
    | some t =>
      by_cases hskip : t.origin = n ∨ ∃ u ∈ c.applied n, u.Same t
      · simp only [Cluster.step, ht, if_pos hskip] at h
        cases h
      · cases hs : applyRemoteTransaction cfg rel n now t (c.nodes n) with
        | error => simp only [Cluster.step, ht, if_neg hskip, hs] at h; cases h
        | ok s =>
          simp only [Cluster.step, ht, if_neg hskip, hs, some.injEq] at h
          push Not at hskip
          exact ⟨n, now, i, t, s, rfl, mem_of_getElem? ht, hskip.1, hskip.2, hs, h.symm⟩

theorem NodeHistory.snoc {v₀ : Option (Version Node natts V)} {s' : NodeState Node natts V}
    {l : List (Txn Node natts V)} (h : NodeHistory cfg rel ts₀ n v₀ s l) (hwf : s'.Wf)
    (hversion : s'.version = Txn.take cfg rel n s.version t)
    (hclock : s.logicalClock ≤ s'.logicalClock) (ht : t.commitTs ≤ s'.logicalClock)
    (hown : t.origin = n → s.logicalClock < t.commitTs) (hnew : ∀ u ∈ l, ¬ u.Same t) :
    NodeHistory cfg rel ts₀ n v₀ s' (l ++ [t]) where
  wf := hwf
  version := by rw [foldl_append, ← h.version, hversion]; rfl
  clock₀ := h.clock₀.trans hclock
  clock u hu := by
    rcases mem_append.mp hu with hu | hu
    · exact (h.clock u hu).trans hclock
    · obtain rfl := mem_singleton.mp hu
      exact ht
  order := by
    refine pairwise_append.mpr ⟨h.order, pairwise_singleton _ _, fun u hu x hx hx' => ?_⟩
    obtain rfl := mem_singleton.mp hx
    exact (h.clock u hu).trans_lt (hown hx')
  once := by
    refine pairwise_append.mpr ⟨h.once, pairwise_singleton _ _, fun u hu x hx => ?_⟩
    obtain rfl := mem_singleton.mp hx
    exact hnew u hu

theorem Cluster.took_node {c₀ : Cluster Node natts V}
    (h : ∀ m, NodeHistory cfg rel ts₀ m (c₀.nodes m).version (c.nodes m) (c.applied m))
    (hn : NodeHistory cfg rel ts₀ n (c₀.nodes n).version s (c.applied n ++ [t])) (m : Node) :
    NodeHistory cfg rel ts₀ m (c₀.nodes m).version ((c.took n t s).nodes m)
      ((c.took n t s).applied m) := by
  by_cases hm : m = n
  · subst hm
    rw [Cluster.took_nodes_self, Cluster.took_applied_self]
    exact hn
  · rw [Cluster.took_nodes_of_ne hm, Cluster.took_applied_of_ne hm]
    exact h m

theorem Cluster.mem_took_applied {u : Txn Node natts V} (s : NodeState Node natts V) :
    u ∈ (c.took n t s).applied m ↔ u ∈ c.applied m ∨ (m = n ∧ u = t) := by
  by_cases hm : m = n
  · subst hm
    rw [Cluster.took_applied_self, mem_append, mem_singleton]
    simp
  · rw [Cluster.took_applied_of_ne hm]
    simp [hm]

end Step

/-! ## The invariant -/

section Invariant

variable [DecidableEq Node] {cfg : ConflictConfig Node} (hcfg : cfg.LastUpdateWins)
  {rel : SpockRelation natts V} (hmap : rel.AllMapped) (hexact : rel.DeltaExact) {ts₀ : Int}
  {c₀ c c' : Cluster Node natts V}

theorem Cluster.Initial.inv (h : c₀.Initial ts₀) : c₀.Inv cfg rel ts₀ c₀ where
  node n := by
    rw [h.applied n]
    exact ⟨h.wf n, rfl, h.clock n, by simp, .nil, .nil⟩
  above := by simp [h.txns]
  applied n := by simp [h.applied n]
  own := by simp [h.txns]

include hcfg hmap hexact

/-- **Every step keeps the invariant.** -/
theorem Cluster.Inv.step (hnonneg : 0 ≤ ts₀) (h : c₀.Inv cfg rel ts₀ c)
    {e : Event Node natts V} (hsends : e.SendsDeltas rel) (hstep : c.step cfg rel e = some c') :
    c₀.Inv cfg rel ts₀ c' := by
  rcases Cluster.step_cases hstep with
    ⟨n, now, first, rest, s, t, rfl, hs, rfl⟩ | ⟨n, now, i, t, s, rfl, ht, hn, hnew, hs, rfl⟩
  · obtain ⟨hwf, horigin, hversion, hlt, hclock⟩ :=
      commitLocalTransaction_spec hmap hexact hsends (h.node n).wf hs
    have habove : ts₀ < t.commitTs := (h.node n).clock₀.trans_lt hlt
    -- a fresh timestamp cannot be that of a transaction the node has
    have hnew : ∀ u ∈ c.applied n, ¬ u.Same t := by
      intro u hu hsame
      have := (h.node n).clock u hu
      rw [hsame.2] at this
      omega
    have hhist := (h.node n).snoc hwf (by rw [hversion, Txn.take, if_pos horigin])
      (by rw [hclock]; exact hlt.le) hclock.ge (fun _ => hlt) hnew
    refine ⟨Cluster.took_node h.node hhist, ?_, ?_, ?_⟩
    · intro u hu
      rcases mem_append.mp hu with hu | hu
      · exact h.above u hu
      · obtain rfl := mem_singleton.mp hu
        exact habove
    · intro m u hu
      rcases (Cluster.mem_took_applied s).mp hu with hu | ⟨-, rfl⟩
      · exact mem_append_left _ (h.applied m u hu)
      · exact mem_append_right _ (mem_singleton.mpr rfl)
    · intro u hu
      rcases mem_append.mp hu with hu | hu
      · exact (Cluster.mem_took_applied s).mpr (.inl (h.own u hu))
      · obtain rfl := mem_singleton.mp hu
        exact (Cluster.mem_took_applied s).mpr (.inr ⟨horigin, rfl⟩)
  · have hpos : 0 < t.commitTs := by
      have := h.above t ht
      omega
    obtain ⟨hwf, hversion, hclock, hremote⟩ :=
      applyRemoteTransaction_spec hcfg rel now (h.node n).wf hpos hn hs
    have hhist := (h.node n).snoc hwf (by rw [hversion, Txn.take, if_neg hn]) hclock hremote
      (fun hown => absurd hown hn) hnew
    refine ⟨Cluster.took_node h.node hhist, h.above, ?_, ?_⟩
    · intro m u hu
      rcases (Cluster.mem_took_applied s).mp hu with hu | ⟨-, rfl⟩
      · exact h.applied m u hu
      · exact ht
    · intro u hu
      exact (Cluster.mem_took_applied s).mpr (.inl (h.own u hu))

/-- **Every run keeps the invariant.** -/
theorem Cluster.inv_run (hinit : c₀.Initial ts₀) {es : List (Event Node natts V)}
    (hsends : ∀ e ∈ es, e.SendsDeltas rel)
    (hrun : Runs.run (Cluster.step cfg rel) c₀ es = some c) : c₀.Inv cfg rel ts₀ c :=
  Runs.run_invariant_along
    (fun _ _ _ hinv hs hstep => hinv.step hcfg hmap hexact hinit.nonneg hs hstep) hinit.inv
    (Runs.along_of_forall hsends c₀) hrun

end Invariant

section Seen

variable [DecidableEq Node] {cfg : ConflictConfig Node} {rel : SpockRelation natts V} {ts₀ : Int}
  {c₀ c : Cluster Node natts V}

variable {t : Txn Node natts V}

theorem Cluster.Inv.eq_of_same (h : c₀.Inv cfg rel ts₀ c) {u : Txn Node natts V} (hu : u ∈ c.txns)
    (ht : t ∈ c.txns) (hsame : u.Same t) : u = t := by
  have hu' : u ∈ c.applied t.origin := hsame.1 ▸ h.own u hu
  by_contra hne
  exact (h.node t.origin).once.forall hu' (h.own t ht) hne hsame

theorem Cluster.Inv.mem_of_seenAll (h : c₀.Inv cfg rel ts₀ c) {n : Node} (hseen : c.SeenAll n)
    (ht : t ∈ c.txns) : t ∈ c.applied n := by
  obtain ⟨u, hu, hsame⟩ := hseen t ht
  rw [← h.eq_of_same (h.applied n u hu) ht hsame]
  exact hu

end Seen

end Spock
