import Spock.Nodes.Cluster

/-!
# Spock — no echo

A transaction that a node has applied must not be taken for one of its own: its commit record has
the id of the node that wrote it, and a subscription that does not forward origins does not get it.
This rests on the ids. They are hashes of names, and `create_node` compares a new id only with those
that the server knows.

* **`no_echo`** — it holds in every run in which the names give such ids.
-/

namespace Spock.Nodes

open Protocol Output Runs List

variable {N : Type} [DecidableEq N]

/-- The name of a new node gives an id that is not reserved, and that no node of the cluster has. -/
def Cluster.WellNamed (s : Cluster N) : Event N → Prop
  | .createNode _ name => nodeId name ≠ 0 ∧ nodeId name ≠ doNotReplicateId ∧
      ∀ n node, (s.server n).node = some node → node.id ≠ nodeId name
  | _ => True

/-- A record of `n` is local, or has the id of its writer; what came from a provider that does not
forward origins is of that provider. -/
def Cluster.Legit (s : Cluster N) (n : N) (r : Record N) : Prop :=
  match r.provider with
  | none => r.writer = n ∧ r.txn.originId = 0
  | some p => (∃ node, (s.server r.writer).node = some node ∧ r.txn.originId = node.id) ∧
      ∃ sub, s.sub p n = some sub ∧ (sub.forwardOrigins = false → r.writer = p)

/-- Distinct ids, none of them reserved, and records that have the id of the writer. -/
structure Identified (s : Cluster N) : Prop where
  unique : ∀ n n' node node', (s.server n).node = some node → (s.server n').node = some node' →
    node.id = node'.id → n = n'
  unreserved : ∀ n node, (s.server n).node = some node → node.id ≠ 0 ∧ node.id ≠ doNotReplicateId
  records : ∀ n, ∀ r ∈ (s.server n).wal, s.Legit n r

omit [DecidableEq N] in
theorem identified_start (dbname : N → CString) : Identified (Cluster.start dbname) where
  unique _ _ _ _ h := nomatch h
  unreserved _ _ h := nomatch h
  records _ _ hr := absurd hr not_mem_nil

/-! ## One step -/

variable {s s' : Cluster N} {e : Event N}

theorem Identified.unreserved_step (h : Identified s) (hnamed : s.WellNamed e)
    (hstep : Stepped s e s') (n : N) (node : Node) (hnode : (s'.server n).node = some node) :
    node.id ≠ 0 ∧ node.id ≠ doNotReplicateId := by
  rcases node_of_step hstep hnode with hnode | ⟨rfl, hid⟩
  · exact h.unreserved n node hnode
  · rw [hid]
    exact ⟨hnamed.1, hnamed.2.1⟩

theorem Identified.unique_step (h : Identified s) (hnamed : s.WellNamed e) (hstep : Stepped s e s')
    (n n' : N) (node node' : Node) (hnode : (s'.server n).node = some node)
    (hnode' : (s'.server n').node = some node') (hid : node.id = node'.id) : n = n' := by
  rcases node_of_step hstep hnode with hnode | ⟨rfl, hname⟩
  · rcases node_of_step hstep hnode' with hnode' | ⟨rfl, hname'⟩
    · exact h.unique n n' node node' hnode hnode' hid
    · exact absurd (hid.trans hname') (hnamed.2.2 n node hnode)
  · rcases node_of_step hstep hnode' with hnode' | ⟨hevent, -⟩
    · exact absurd (hid.symm.trans hname) (hnamed.2.2 n' node' hnode')
    · exact (Event.createNode.inj hevent).1

theorem legit_step (hstep : Stepped s e s') {n : N} {r : Record N} (h : s.Legit n r) :
    s'.Legit n r := by
  unfold Cluster.Legit at h ⊢
  split
  · rename_i hprovider
    rw [hprovider] at h
    exact h
  · rename_i hprovider
    rw [hprovider] at h
    obtain ⟨⟨node, hnode, hid⟩, _, hsub, hforward⟩ := h
    obtain ⟨sub', hsub', -, hflag⟩ := sub_step hstep hsub
    exact ⟨⟨node, node_step hstep hnode, hid⟩, sub', hsub', fun hfalse => hforward (hflag ▸ hfalse)⟩

omit [DecidableEq N] in
/-- **A transaction is applied with the id of its writer.** That is the id of the provider if the
provider has written it, and otherwise the one that it has been applied with there. -/
theorem Identified.added (h : Identified s) {n : N} {r : Record N} (hadded : Added s n e r) :
    s.Legit n r := by
  cases hadded with
  | write => exact ⟨rfl, rfl⟩
  | apply p _ provider sub r hp hsub _ hr hfilter =>
    have hlegit := h.records p r (mem_of_getElem? hr)
    unfold Cluster.Legit at hlegit
    split at hlegit
    · obtain ⟨hwriter, horigin⟩ := hlegit
      refine ⟨⟨provider, hwriter ▸ hp, ?_⟩, sub, hsub, fun _ => hwriter⟩
      simp only [originOf, horigin, if_true]
    · obtain ⟨⟨node, hnode, horigin⟩, -⟩ := hlegit
      have hne : r.txn.originId ≠ 0 := horigin ▸ (h.unreserved r.writer node hnode).1
      refine ⟨⟨node, hnode, ?_⟩, sub, hsub, fun hforward => ?_⟩
      · simp only [originOf, hne, if_false]
        exact horigin
      · -- without forwarding it would have been filtered out
        simp only [originFilter, hne, if_false, hforward, Bool.not_false, Bool.true_eq_false] at hfilter

theorem Identified.step (h : Identified s) (hnamed : s.WellNamed e) (hstep : Stepped s e s') :
    Identified s' where
  unique := h.unique_step hnamed hstep
  unreserved := h.unreserved_step hnamed hstep
  records n r hr := by
    rcases wal_of_step hstep n with hwal | ⟨r', hadded, hwal⟩
    · rw [hwal] at hr
      exact legit_step hstep (h.records n r hr)
    · rw [hwal] at hr
      rcases mem_append.1 hr with hr | hr
      · exact legit_step hstep (h.records n r hr)
      · rw [mem_singleton.1 hr]
        exact legit_step hstep (h.added hadded)

/-! ## The result -/

/-- **No echo.** Ids tell the nodes apart and are not reserved. The record of a transaction that a
node has applied has the id of the writer, so it is not taken for a local one, and is filtered out
for a subscription that does not forward origins; such a subscription has applied only what its
provider has written. -/
theorem no_echo {dbname : N → CString} {s : Cluster N} {es : List (Event N)}
    (halong : Along Cluster.step Cluster.WellNamed (Cluster.start dbname) es)
    (hrun : run Cluster.step (Cluster.start dbname) es = some s) :
    (∀ n node, (s.server n).node = some node → node.id ≠ 0 ∧ node.id ≠ doNotReplicateId ∧
      ∀ n' node', (s.server n').node = some node' → node'.id = node.id → n' = n) ∧
    ∀ n p, ∀ r ∈ (s.server n).wal, r.provider = some p →
      (∃ node, (s.server r.writer).node = some node ∧ r.txn.originId = node.id) ∧
      originFilter false r.txn.originId = true ∧
      ∃ sub, s.sub p n = some sub ∧ (sub.forwardOrigins = false → r.writer = p) := by
  have h : Identified s :=
    run_invariant_along (fun _ _ _ h hnamed hstep => h.step hnamed (stepped_of_step hstep))
      (identified_start dbname) halong hrun
  refine ⟨fun n node hnode => ?_, fun n p r hr hprovider => ?_⟩
  · obtain ⟨hzero, hreserved⟩ := h.unreserved n node hnode
    exact ⟨hzero, hreserved, fun n' node' hnode' hid => h.unique n' n node' node hnode' hnode hid⟩
  · have hlegit := h.records n r hr
    unfold Cluster.Legit at hlegit
    rw [hprovider] at hlegit
    obtain ⟨⟨node, hnode, horigin⟩, hsub⟩ := hlegit
    have hne : r.txn.originId ≠ 0 := horigin ▸ (h.unreserved r.writer node hnode).1
    exact ⟨⟨node, hnode, horigin⟩, by simp only [originFilter, hne, if_false, Bool.not_false], hsub⟩

/-! ## Names -/

/-- `n1`, `n2`. -/
def nodeN1 : CString := ⟨[110, 49], by decide⟩
def nodeN2 : CString := ⟨[110, 50], by decide⟩

/-- `n115` and `n140` have the id 2860, `n63587` has 65535 and `n41612` has 0. -/
def nodeN115 : CString := ⟨[110, 49, 49, 53], by decide⟩
def nodeN140 : CString := ⟨[110, 49, 52, 48], by decide⟩
def nodeN63587 : CString := ⟨[110, 54, 51, 53, 56, 55], by decide⟩
def nodeN41612 : CString := ⟨[110, 52, 49, 54, 49, 50], by decide⟩

def firstPlace : Place := ⟨7, 100, 110⟩

def serverA : Fin 3 := (Fin.last 0).castSucc.castSucc
def serverB : Fin 3 := (Fin.last 1).castSucc
def serverC : Fin 3 := Fin.last 2

def twoNodes (name₀ name₁ : CString) : List (Event (Fin 3)) :=
  [.createNode serverA name₀, .createNode serverB name₁,
    .createSubscription serverA serverB nodeN1 true true, .write serverA firstPlace 5,
    .apply serverA serverB firstPlace]

theorem no_echo_twoNodes :
    ∃ s, run Cluster.step (Cluster.start fun _ : Fin 3 => nodeN1) (twoNodes nodeN1 nodeN2) = some s ∧
      (s.server 1).wal.length = 1 ∧
      ∀ n p, ∀ r ∈ (s.server n).wal, r.provider = some p →
        (∃ node, (s.server r.writer).node = some node ∧ r.txn.originId = node.id) ∧
        originFilter false r.txn.originId = true ∧
        ∃ sub, s.sub p n = some sub ∧ (sub.forwardOrigins = false → r.writer = p) := by
  have halong : Along Cluster.step Cluster.WellNamed (Cluster.start fun _ : Fin 3 => nodeN1)
      (twoNodes nodeN1 nodeN2) := by
    refine .cons ⟨by decide, by decide, fun _ _ h => nomatch h⟩ rfl <|
      .cons ⟨by decide, by decide, fun n node h => ?_⟩ rfl <| .cons trivial rfl <|
      .cons trivial rfl <| .cons trivial rfl trivial
    have hn : ∀ n : Fin 3, n = 0 ∨ n = 1 ∨ n = 2 := by decide
    rcases hn n with rfl | rfl | rfl
    · cases h
      decide
    · cases h
    · cases h
  exact ⟨_, rfl, rfl, (no_echo halong rfl).2⟩

def threeNodes : List (Event (Fin 3)) :=
  [.createNode serverC nodeN115, .createNode serverA nodeN140, .createNode serverB nodeN2,
    .createSubscription serverA serverB nodeN1 true true,
    .createSubscription serverB serverC nodeN1 true true, .write serverA firstPlace 5,
    .apply serverA serverB firstPlace, .apply serverB serverC firstPlace]

/-- The local node of a server, and of each of its records the writer, the provider and the
origin. -/
def origins (s : Cluster (Fin 3)) (n : Fin 3) :
    Option Node × List (Fin 3 × Option (Fin 3) × UInt16) :=
  ((s.server n).node, (s.server n).wal.map fun r => (r.writer, r.provider, r.txn.originId))

/-- **Names that do not go together.** Server 2 has a name with the same id as server 0, which it
does not know; the transaction of server 0 that it applies has its own id. A name may also give one
of the two ids that are reserved. -/
theorem echo_of_collision :
    (run Cluster.step (Cluster.start fun _ => nodeN1) threeNodes).map (origins · 2) =
        some (some ⟨nodeN115, 2860⟩, [(0, some 1, 2860)]) ∧
      (run Cluster.step (Cluster.start fun _ => nodeN1) (twoNodes nodeN63587 nodeN2)).map
          (origins · 1) = some (some ⟨nodeN2, 26863⟩, [(0, some 0, doNotReplicateId)]) ∧
      (run Cluster.step (Cluster.start fun _ => nodeN1) [.createNode 0 nodeN41612]).map
          (origins · 0) = some (some ⟨nodeN41612, 0⟩, []) := by
  refine ⟨?_, ?_, ?_⟩ <;> rfl

end Spock.Nodes
