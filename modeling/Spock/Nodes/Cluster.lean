import Mathlib.Logic.Function.Basic
import Spock.Lib.Runs
import Spock.Nodes.Catalog
import Spock.Output.Sends

/-!
# Spock — a cluster of nodes

The servers of a cluster with their catalogs, their WAL and the subscriptions between them. A commit
record says where a transaction came from: `handle_origin` makes the id that the ORIGIN message has
the origin of the session, and `handle_commit` its position, so the record has the id of the node
that wrote the transaction and the end of the transaction *on the provider*.
-/

namespace Spock.Nodes

open Protocol Output Runs Option Function

/-! ## Origins -/

/-- `pg_decode_origin_filter`: a local transaction is never filtered out, and any other unless
origins are forwarded. -/
def originFilter (forwardOrigins : Bool) (originId : UInt16) : Bool :=
  if originId = 0 then false else !forwardOrigins

structure Origin where
  id : UInt16
  lsn : UInt64
  name : Option CString

/-- The ORIGIN message for a transaction that `node` sends. -/
def originOf (node : Node) (catalog : List Node) (txn : Output.Txn) : Origin :=
  if txn.originId = 0 then ⟨node.id, txn.originLsn, some node.name⟩
  else ⟨txn.originId, txn.originLsn, (getNode catalog txn.originId).map (·.name)⟩

/-- The ORIGIN message is the one of the output plugin. -/
theorem originMessage_eq {c : Connection} {node : Node} {catalog : List Node}
    (hid : c.myOutputNodeId = node.id) (hname : c.myOutputNodeName = node.name)
    (hget : ∀ id, c.getNode id = (getNode catalog id).map (·.name)) (txn : Output.Txn) :
    originMessage c txn = .origin (originOf node catalog txn).id (originOf node catalog txn).lsn
      (originOf node catalog txn).name := by
  unfold originMessage originOf
  by_cases h : txn.originId = 0
  · rw [if_pos h, if_pos h, hid, hname]
  · rw [if_neg h, if_neg h, hget]

/-! ## State -/

structure Record (N : Type) where
  txn : Output.Txn
  /-- The node that wrote the transaction, and the place of its own record there. -/
  writer : N
  number : Nat
  provider : Option N

structure Server (N : Type) where
  dbname : CString
  /-- `spock.local_node`. -/
  node : Option Node
  /-- `spock.node`. -/
  catalog : List Node
  wal : List (Record N)
  /-- The positions of the replication origins for forwarded transactions, by name. -/
  forwarded : List UInt8 → Option UInt64

structure Sub where
  name : CString
  forwardOrigins : Bool
  enabled : Bool
  /-- How much of the WAL of the provider has been decoded. -/
  next : Nat

structure Cluster (N : Type) where
  server : N → Server N
  sub : N → N → Option Sub

variable {N : Type} [DecidableEq N]

def Cluster.start (dbname : N → CString) : Cluster N where
  server n := ⟨dbname n, none, [], [], fun _ => none⟩
  sub _ _ := none

def Cluster.setServer (s : Cluster N) (n : N) (server : Server N) : Cluster N :=
  { s with server := Function.update s.server n server }

@[simp] theorem setServer_self (s : Cluster N) (n : N) (server : Server N) :
    (s.setServer n server).server n = server := update_self ..

def Cluster.setSub (s : Cluster N) (p n : N) (sub : Sub) : Cluster N :=
  { s with sub := Function.update s.sub p (Function.update (s.sub p) n (some sub)) }

/-! ## Steps -/

/-- `spock_create_node`. -/
def Server.createNode (server : Server N) (name : CString) : Option (Server N) :=
  match Nodes.createNode server.catalog ⟨name, 0⟩ with
  | .ok (catalog, node) => some { server with catalog := catalog, node := some node }
  | .error _ => none

/-- The row for the provider that `spock_create_subscription` creates, unless there is one of that
name. -/
def Server.representProvider (server : Server N) (provider : Node) : Option (Server N) :=
  if (getNodeByName server.catalog provider.name).isSome then some server
  else
    match Nodes.createNode server.catalog provider with
    | .ok (catalog, _) => some { server with catalog := catalog }
    | .error _ => none

structure Place where
  xid : UInt32
  finalLsn : UInt64
  endLsn : UInt64

def Place.After (place : Place) (wal : List (Record N)) : Prop :=
  place.finalLsn < place.endLsn ∧ ∀ r ∈ wal, r.txn.endLsn ≤ place.finalLsn
  deriving Decidable

def Server.write (server : Server N) (n : N) (place : Place) (commitTime : Int64) : Server N :=
  { server with
    wal := server.wal ++
      [⟨⟨place.xid, place.finalLsn, place.endLsn, commitTime, 0, 0⟩, n, server.wal.length, none⟩] }

def advance (old : Option UInt64) (lsn : UInt64) : UInt64 :=
  match old with
  | none => lsn
  | some old => if old < lsn then lsn else old

/-- `maybe_advance_forwarded_origin`. The replication origin of the subscription itself is in use,
and `replorigin_advance` raises for it. -/
def Server.advanceForwarded (server : Server N) (sub : Sub) (provider : Node) (origin : Origin) :
    Server N :=
  if origin.id = provider.id then server
  else
    match origin.name with
    | none => server
    | some name =>
      let slot := genSlotName server.dbname.bytes name.bytes sub.name.bytes
      if slot = genSlotName server.dbname.bytes provider.name.bytes sub.name.bytes then server
      else
        { server with
          forwarded :=
            Function.update server.forwarded slot (some (advance (server.forwarded slot) origin.lsn)) }

def Server.applied (server : Server N) (p : N) (r : Record N) (origin : Origin) (place : Place) :
    Server N :=
  { server with
    wal := server.wal ++
      [⟨⟨place.xid, place.finalLsn, place.endLsn, r.txn.commitTime, origin.id, r.txn.endLsn⟩,
        r.writer, r.number, some p⟩] }

inductive Event (N : Type) where
  | createNode (n : N) (name : CString)
  | createSubscription (p n : N) (name : CString) (forwardOrigins enabled : Bool)
  | write (n : N) (place : Place) (commitTime : Int64)
  /-- The subscriber gets to the next transaction of the provider. -/
  | apply (p n : N) (place : Place)

/-- A server has one local node. A slot starts at the end of the WAL. `handle_commit_order` raises
if ORIGIN has left the session without an origin. -/
def Cluster.step (s : Cluster N) : Event N → Option (Cluster N)
  | .createNode n name =>
    if (s.server n).node = none then ((s.server n).createNode name).map (s.setServer n) else none
  | .createSubscription p n name forwardOrigins enabled =>
    match (s.server p).node, (s.server n).node, s.sub p n with
    | some provider, some _, none =>
      if p = n then none
      else
        ((s.server n).representProvider provider).map fun server =>
          (s.setServer n server).setSub p n
            ⟨name, forwardOrigins, enabled, (s.server p).wal.length⟩
    | _, _, _ => none
  | .write n place commitTime =>
    if place.After (s.server n).wal then
      some (s.setServer n ((s.server n).write n place commitTime))
    else none
  | .apply p n place =>
    match (s.server p).node, s.sub p n with
    | some provider, some sub =>
      if sub.enabled then
        ((s.server p).wal[sub.next]?).bind fun r =>
          let skipped := s.setSub p n { sub with next := sub.next + 1 }
          let origin := originOf provider (s.server p).catalog r.txn
          if originFilter sub.forwardOrigins r.txn.originId then some skipped
          else if origin.id = 0 then none
          else if place.After (s.server n).wal then
            some (skipped.setServer n
              (((s.server n).applied p r origin place).advanceForwarded sub provider origin))
          else none
      else none
    | _, _ => none

inductive Stepped (s : Cluster N) : Event N → Cluster N → Prop where
  | createNode (n : N) (name : CString) (catalog : List Node) (node : Node)
      (hnone : (s.server n).node = none)
      (hcreate : Nodes.createNode (s.server n).catalog ⟨name, 0⟩ = .ok (catalog, node)) :
      Stepped s (.createNode n name)
        (s.setServer n { s.server n with catalog := catalog, node := some node })
  | createSubscription (p n : N) (name : CString) (forwardOrigins enabled : Bool) (provider : Node)
      (server : Server N) (hp : (s.server p).node = some provider) (hsub : s.sub p n = none)
      (hne : p ≠ n) (hserver : (s.server n).representProvider provider = some server) :
      Stepped s (.createSubscription p n name forwardOrigins enabled)
        ((s.setServer n server).setSub p n ⟨name, forwardOrigins, enabled, (s.server p).wal.length⟩)
  | write (n : N) (place : Place) (commitTime : Int64) (hafter : place.After (s.server n).wal) :
      Stepped s (.write n place commitTime)
        (s.setServer n ((s.server n).write n place commitTime))
  | filter (p n : N) (place : Place) (sub : Sub) (r : Record N) (hsub : s.sub p n = some sub)
      (henabled : sub.enabled = true) (hr : (s.server p).wal[sub.next]? = some r)
      (hfilter : originFilter sub.forwardOrigins r.txn.originId = true) :
      Stepped s (.apply p n place) (s.setSub p n { sub with next := sub.next + 1 })
  | apply (p n : N) (place : Place) (provider : Node) (sub : Sub) (r : Record N)
      (hp : (s.server p).node = some provider) (hsub : s.sub p n = some sub)
      (henabled : sub.enabled = true) (hr : (s.server p).wal[sub.next]? = some r)
      (hfilter : originFilter sub.forwardOrigins r.txn.originId = false)
      (hid : (originOf provider (s.server p).catalog r.txn).id ≠ 0)
      (hafter : place.After (s.server n).wal) :
      Stepped s (.apply p n place)
        ((s.setSub p n { sub with next := sub.next + 1 }).setServer n
          (((s.server n).applied p r
              (originOf provider (s.server p).catalog r.txn) place).advanceForwarded
            sub provider (originOf provider (s.server p).catalog r.txn)))

variable {s s' : Cluster N} {e : Event N}

/-- All that a step can do. -/
theorem stepped_of_step (h : s.step e = some s') : Stepped s e s' := by
  cases e with
  | createNode n name =>
    obtain ⟨hnone, h⟩ := ite_none_right_eq_some.1 h
    obtain ⟨_, hserver, rfl⟩ := map_eq_some_iff.1 h
    unfold Server.createNode at hserver
    split at hserver
    · rename_i catalog node hcreate
      cases hserver
      exact .createNode n name catalog node hnone hcreate
    · cases hserver
  | createSubscription p n name forwardOrigins enabled =>
    unfold Cluster.step at h
    dsimp only at h
    split at h
    · rename_i provider local_ hp hn hsub
      obtain ⟨hne, h⟩ := ite_none_left_eq_some.1 h
      obtain ⟨server, hserver, rfl⟩ := map_eq_some_iff.1 h
      exact .createSubscription p n name forwardOrigins enabled provider server hp hsub hne hserver
    · cases h
  | write n place commitTime =>
    obtain ⟨hafter, rfl⟩ := of_guard h
    exact .write n place commitTime hafter
  | apply p n place =>
    unfold Cluster.step at h
    dsimp only at h
    split at h
    · rename_i provider sub hp hsub
      obtain ⟨henabled, h⟩ := ite_none_right_eq_some.1 h
      obtain ⟨r, hr, h⟩ := bind_eq_some_iff.1 h
      by_cases hfilter : originFilter sub.forwardOrigins r.txn.originId = true
      · rw [if_pos hfilter] at h
        cases h
        exact .filter p n place sub r hsub henabled hr hfilter
      · rw [if_neg hfilter] at h
        obtain ⟨hid, h⟩ := ite_none_left_eq_some.1 h
        obtain ⟨hafter, rfl⟩ := of_guard h
        exact .apply p n place provider sub r hp hsub henabled hr (Bool.eq_false_iff.2 hfilter) hid
          hafter
    · cases h

/-! ## One server

What a step makes of one of the servers, with what it takes from the others. -/

omit [DecidableEq N] in
theorem representProvider_eq_some {server server' : Server N} {provider : Node}
    (h : server.representProvider provider = some server') :
    ∃ rows, server' = { server with catalog := server.catalog ++ rows } ∧
      ∀ row ∈ rows, row.name = provider.name ∧ (provider.id ≠ 0 → row.id = provider.id) := by
  unfold Server.representProvider at h
  split at h
  · cases h
    exact ⟨[], by rw [List.append_nil], nofun⟩
  · split at h
    · rename_i node hcreate
      cases h
      obtain ⟨hname, hid, hcatalog, -⟩ := createNode_eq_ok hcreate
      refine ⟨[node], by rw [hcatalog], fun row hrow => ?_⟩
      rw [List.mem_singleton.1 hrow]
      exact ⟨hname, fun hne => by rw [hid, if_neg hne]⟩
    · cases h

section Frame

omit [DecidableEq N]

variable (server : Server N) (sub : Sub) (provider : Node) (origin : Origin)

theorem advanceForwarded_frame :
    ∃ forwarded, server.advanceForwarded sub provider origin =
      { server with forwarded := forwarded } := by
  unfold Server.advanceForwarded
  split
  · exact ⟨server.forwarded, rfl⟩
  · split
    · exact ⟨server.forwarded, rfl⟩
    · dsimp only
      split
      · exact ⟨server.forwarded, rfl⟩
      · exact ⟨_, rfl⟩

@[simp] theorem advanceForwarded_dbname :
    (server.advanceForwarded sub provider origin).dbname = server.dbname := by
  obtain ⟨_, hframe⟩ := advanceForwarded_frame server sub provider origin
  rw [hframe]

@[simp] theorem advanceForwarded_node :
    (server.advanceForwarded sub provider origin).node = server.node := by
  obtain ⟨_, hframe⟩ := advanceForwarded_frame server sub provider origin
  rw [hframe]

@[simp] theorem advanceForwarded_catalog :
    (server.advanceForwarded sub provider origin).catalog = server.catalog := by
  obtain ⟨_, hframe⟩ := advanceForwarded_frame server sub provider origin
  rw [hframe]

@[simp] theorem advanceForwarded_wal :
    (server.advanceForwarded sub provider origin).wal = server.wal := by
  obtain ⟨_, hframe⟩ := advanceForwarded_frame server sub provider origin
  rw [hframe]

end Frame

inductive Changed (s : Cluster N) (n : N) : Event N → Server N → Prop where
  | same (e : Event N) : Changed s n e (s.server n)
  | createNode (name : CString) (catalog : List Node) (node : Node)
      (hnone : (s.server n).node = none)
      (hcreate : Nodes.createNode (s.server n).catalog ⟨name, 0⟩ = .ok (catalog, node)) :
      Changed s n (.createNode n name) { s.server n with catalog := catalog, node := some node }
  | rows (p : N) (name : CString) (forwardOrigins enabled : Bool) (provider : Node)
      (rows : List Node) (hp : (s.server p).node = some provider)
      (hrows : ∀ row ∈ rows, row.name = provider.name ∧ (provider.id ≠ 0 → row.id = provider.id)) :
      Changed s n (.createSubscription p n name forwardOrigins enabled)
        { s.server n with catalog := (s.server n).catalog ++ rows }
  | write (place : Place) (commitTime : Int64) (hafter : place.After (s.server n).wal) :
      Changed s n (.write n place commitTime) ((s.server n).write n place commitTime)
  | apply (p : N) (place : Place) (provider : Node) (sub : Sub) (r : Record N)
      (hp : (s.server p).node = some provider) (hsub : s.sub p n = some sub)
      (henabled : sub.enabled = true) (hr : (s.server p).wal[sub.next]? = some r)
      (hfilter : originFilter sub.forwardOrigins r.txn.originId = false)
      (hid : (originOf provider (s.server p).catalog r.txn).id ≠ 0)
      (hafter : place.After (s.server n).wal) :
      Changed s n (.apply p n place)
        (((s.server n).applied p r (originOf provider (s.server p).catalog r.txn) place).advanceForwarded
          sub provider (originOf provider (s.server p).catalog r.txn))

section

variable (hstep : Stepped s e s')

include hstep

theorem changed_of_step (n : N) : Changed s n e (s'.server n) := by
  have hcases : ∀ {n₀ : N} {server : Server N}, s'.server = update s.server n₀ server →
      (n₀ = n → Changed s n e server) → Changed s n e (s'.server n) := by
    intro n₀ server hserver hchanged
    rcases update_cases hserver n with ⟨heq, hn⟩ | ⟨-, hn⟩
    · rw [hn]
      exact hchanged heq.symm
    · rw [hn]
      exact .same e
  cases hstep with
  | createNode _ name catalog node hnone hcreate =>
    refine hcases rfl ?_
    rintro rfl
    exact .createNode name catalog node hnone hcreate
  | createSubscription p _ name forwardOrigins enabled provider _ hp _ _ hserver =>
    refine hcases rfl ?_
    rintro rfl
    obtain ⟨rows, rfl, hrows⟩ := representProvider_eq_some hserver
    exact .rows p name forwardOrigins enabled provider rows hp hrows
  | write _ place commitTime hafter =>
    refine hcases rfl ?_
    rintro rfl
    exact .write place commitTime hafter
  | filter => exact .same _
  | apply p _ place provider sub r hp hsub henabled hr hfilter hid hafter =>
    refine hcases rfl ?_
    rintro rfl
    exact .apply p place provider sub r hp hsub henabled hr hfilter hid hafter

theorem node_of_step {n : N} {node : Node} (h : (s'.server n).node = some node) :
    (s.server n).node = some node ∨
      e = .createNode n node.name ∧ node.id = nodeId node.name := by
  have hchanged := changed_of_step hstep n
  generalize s'.server n = server at hchanged h
  cases hchanged with
  | createNode _ _ _ _ hcreate =>
    cases h
    obtain ⟨hname, hid, -⟩ := createNode_eq_ok hcreate
    rw [hname]
    exact .inr ⟨rfl, hid⟩
  | same | rows | write => exact .inl h
  | apply =>
    rw [advanceForwarded_node] at h
    exact .inl h

theorem node_step {n : N} {node : Node} (h : (s.server n).node = some node) :
    (s'.server n).node = some node := by
  have hchanged := changed_of_step hstep n
  generalize s'.server n = server at hchanged
  cases hchanged with
  | createNode _ _ _ hnone => exact absurd (hnone.symm.trans h) nofun
  | same | rows | write => exact h
  | apply =>
    rw [advanceForwarded_node]
    exact h

inductive Added (s : Cluster N) (n : N) : Event N → Record N → Prop where
  | write (place : Place) (commitTime : Int64) (hafter : place.After (s.server n).wal) :
      Added s n (.write n place commitTime)
        ⟨⟨place.xid, place.finalLsn, place.endLsn, commitTime, 0, 0⟩, n, (s.server n).wal.length, none⟩
  | apply (p : N) (place : Place) (provider : Node) (sub : Sub) (r : Record N)
      (hp : (s.server p).node = some provider) (hsub : s.sub p n = some sub)
      (henabled : sub.enabled = true) (hr : (s.server p).wal[sub.next]? = some r)
      (hfilter : originFilter sub.forwardOrigins r.txn.originId = false)
      (hid : (originOf provider (s.server p).catalog r.txn).id ≠ 0)
      (hafter : place.After (s.server n).wal) :
      Added s n (.apply p n place)
        ⟨⟨place.xid, place.finalLsn, place.endLsn, r.txn.commitTime,
          (originOf provider (s.server p).catalog r.txn).id, r.txn.endLsn⟩, r.writer, r.number, some p⟩

/-- **The WAL of a server.** It stays as it is or has one more record. -/
theorem wal_of_step (n : N) :
    (s'.server n).wal = (s.server n).wal ∨
      ∃ r, Added s n e r ∧ (s'.server n).wal = (s.server n).wal ++ [r] := by
  have hchanged := changed_of_step hstep n
  generalize s'.server n = server at hchanged
  cases hchanged with
  | same | createNode | rows => exact .inl rfl
  | write place commitTime hafter => exact .inr ⟨_, .write place commitTime hafter, rfl⟩
  | apply p place provider sub r hp hsub henabled hr hfilter hid hafter =>
    rw [advanceForwarded_wal]
    exact .inr ⟨_, .apply p place provider sub r hp hsub henabled hr hfilter hid hafter, rfl⟩

theorem sub_cases (p n : N) :
    s'.sub p n = s.sub p n ∨
      (∃ name forwardOrigins enabled, e = .createSubscription p n name forwardOrigins enabled ∧
        s.sub p n = none ∧
        s'.sub p n = some ⟨name, forwardOrigins, enabled, (s.server p).wal.length⟩) ∨
      ∃ place sub, e = .apply p n place ∧ s.sub p n = some sub ∧
        s'.sub p n = some { sub with next := sub.next + 1 } := by
  have hset : ∀ {p₀ n₀ : N} {sub₀ : Sub},
      s'.sub = update s.sub p₀ (update (s.sub p₀) n₀ (some sub₀)) →
      s'.sub p n = s.sub p n ∨ p = p₀ ∧ n = n₀ ∧ s'.sub p n = some sub₀ := by
    intro p₀ n₀ sub₀ hsub
    rcases update_cases hsub p with ⟨rfl, hp⟩ | ⟨-, hp⟩
    · rcases update_cases hp n with ⟨rfl, hn⟩ | ⟨-, hn⟩
      · exact .inr ⟨rfl, rfl, hn⟩
      · exact .inl hn
    · exact .inl (congrFun hp n)
  cases hstep with
  | createNode | write => exact .inl rfl
  | createSubscription _ _ name forwardOrigins enabled _ _ _ hsub =>
    refine (hset rfl).imp_right ?_
    rintro ⟨rfl, rfl, h⟩
    exact .inl ⟨name, forwardOrigins, enabled, rfl, hsub, h⟩
  | filter _ _ place sub₀ _ hsub | apply _ _ place _ sub₀ _ _ hsub =>
    refine (hset rfl).imp_right ?_
    rintro ⟨rfl, rfl, h⟩
    exact .inr ⟨place, sub₀, rfl, hsub, h⟩

theorem sub_step {p n : N} {sub : Sub} (h : s.sub p n = some sub) :
    ∃ sub', s'.sub p n = some sub' ∧ sub'.name = sub.name ∧
      sub'.forwardOrigins = sub.forwardOrigins := by
  rcases sub_cases hstep p n with hsame | ⟨name, forwardOrigins, enabled, -, hnone, -⟩ |
    ⟨place, sub₀, -, hsub, hnext⟩
  · exact ⟨sub, hsame.trans h, rfl, rfl⟩
  · exact absurd (hnone.symm.trans h) nofun
  · rw [some.inj (hsub.symm.trans h)] at hnext
    exact ⟨_, hnext, rfl, rfl⟩

end

end Spock.Nodes
