import Spock.Nodes.Cluster

/-!
# Spock — positions of forwarded origins

In a chain of nodes that forward all origins, a node stores for the origin of a transaction that its
provider has not written the position that came with ORIGIN, so that a direct subscription to the
origin can start from it. That position is the one in the commit record of the provider, which is
the end of the transaction on the node *before the provider*.

* **`forwarded_sound`** — then a stored position is one of the WAL of node 0.
-/

namespace Spock.Nodes

open Protocol Output Runs List

/-! ## The chain -/

/-- An enabled subscription is to the node before, forwards all origins, and is there before the
first transaction. -/
def Cluster.Linked (s : Cluster ℕ) : Event ℕ → Prop
  | .createSubscription p n _ forwardOrigins enabled =>
    enabled = true → n = p + 1 ∧ forwardOrigins = true ∧ (s.server p).wal = []
  | _ => True

/-- A subscription to node 0, enabled or not, is one of node 1; and slot names tell node 0 from the
others. -/
def Cluster.Direct (s : Cluster ℕ) : Event ℕ → Prop
  | .createSubscription p n _ _ _ => p = 0 → n = 1
  | .createNode n name => ∀ n' node, (s.server n').node = some node → n = 0 ∨ n' = 0 →
      slotPart node.name.bytes ≠ slotPart name.bytes
  | _ => True

def Server.HasApplied (server : Server ℕ) (i : ℕ) : Prop :=
  ∃ r ∈ server.wal, r.writer = 0 ∧ r.number = i

/-- A record of node 1 that came from node 0: it has the end of the transaction there, and those
before it have come before. -/
def Cluster.FromFirst (s : Cluster ℕ) (j : ℕ) (r : Record ℕ) : Prop :=
  r.writer = 0 ∧ (∃ r₀, (s.server 0).wal[r.number]? = some r₀ ∧ r.txn.originLsn = r₀.txn.endLsn) ∧
    ∀ i < r.number, ∃ j' < j, ∃ r', (s.server 1).wal[j']? = some r' ∧ r'.writer = 0 ∧ r'.number = i

/-- The position is the end of a transaction of node 0, and node 2 has applied all up to it. -/
def Cluster.Reached (s : Cluster ℕ) (pos : UInt64) : Prop :=
  ∃ i r₀, (s.server 0).wal[i]? = some r₀ ∧ pos = r₀.txn.endLsn ∧ ∀ i' ≤ i, (s.server 2).HasApplied i'

structure Chained (s : Cluster ℕ) : Prop where
  subs : ∀ p n sub, s.sub p n = some sub → sub.enabled = true → n = p + 1 ∧ sub.forwardOrigins = true
  rows : ∀ n, ∀ row ∈ (s.server n).catalog, ∃ j node, (s.server j).node = some node ∧
    row.name = node.name ∧ (j = 0 → n ≤ 1)
  names : ∀ n node node₀, n ≠ 0 → (s.server n).node = some node → (s.server 0).node = some node₀ →
    slotPart node.name.bytes ≠ slotPart node₀.name.bytes
  first : ∀ (i : ℕ) (r : Record ℕ), (s.server 0).wal[i]? = some r →
    r.txn.originId = 0 ∧ r.writer = 0 ∧ r.number = i ∧ r.txn.finalLsn < r.txn.endLsn
  ordered : (s.server 0).wal.Pairwise fun r r' => r.txn.endLsn ≤ r'.txn.finalLsn
  second : ∀ (j : ℕ) (r : Record ℕ), (s.server 1).wal[j]? = some r → r.txn.originId ≠ 0 → s.FromFirst j r
  toSecond : ∀ sub, s.sub 0 1 = some sub → sub.enabled = true → ∀ i < sub.next,
    (s.server 1).HasApplied i
  toThird : ∀ sub, s.sub 1 2 = some sub → sub.enabled = true → ∀ j < sub.next,
    ∃ r, (s.server 1).wal[j]? = some r ∧
      ∃ r' ∈ (s.server 2).wal, r'.writer = r.writer ∧ r'.number = r.number
  stored : ∀ k key pos, (s.server k).forwarded key = some pos → ∃ p sub j node,
    k = p + 1 ∧ s.sub p k = some sub ∧ (s.server j).node = some node ∧
      key = genSlotName (s.server k).dbname.bytes node.name.bytes sub.name.bytes ∧
      (j = 0 → k = 2 ∧ s.Reached pos)

theorem chained_start (dbname : ℕ → CString) : Chained (Cluster.start dbname) where
  subs _ _ _ h := nomatch h
  rows _ _ h := absurd h not_mem_nil
  names _ _ _ _ h := nomatch h
  first _ _ h := nomatch h
  ordered := List.Pairwise.nil
  second _ _ h := nomatch h
  toSecond _ h := nomatch h
  toThird _ h := nomatch h
  stored _ _ _ h := nomatch h

/-! ## What stays -/

variable {s s' : Cluster ℕ} {e : Event ℕ} {r : Record ℕ}

variable {n i : ℕ}

section

variable (hstep : Stepped s e s')

include hstep

theorem wal_getElem_step (h : (s.server n).wal[i]? = some r) :
    (s'.server n).wal[i]? = some r := by
  rcases wal_of_step hstep n with hwal | ⟨r', -, hwal⟩
  · rwa [hwal]
  · rw [hwal, List.getElem?_append_left (List.getElem?_eq_some_iff.1 h).1]
    exact h

theorem hasApplied_step (h : (s.server n).HasApplied i) :
    (s'.server n).HasApplied i := by
  obtain ⟨r, hr, hi⟩ := h
  obtain ⟨j, hj⟩ := mem_iff_getElem?.1 hr
  exact ⟨r, mem_of_getElem? (wal_getElem_step hstep hj), hi⟩

theorem reached_step {pos : UInt64} (h : s.Reached pos) :
    s'.Reached pos := by
  obtain ⟨i, r₀, hr₀, hpos, happlied⟩ := h
  exact ⟨i, r₀, wal_getElem_step hstep hr₀, hpos, fun i' hi' => hasApplied_step hstep (happlied i' hi')⟩

theorem fromFirst_step {j : ℕ} (h : s.FromFirst j r) :
    s'.FromFirst j r := by
  obtain ⟨hwriter, ⟨r₀, hr₀, hlsn⟩, hbefore⟩ := h
  refine ⟨hwriter, ⟨r₀, wal_getElem_step hstep hr₀, hlsn⟩, fun i hi => ?_⟩
  obtain ⟨j', hj', r', hr', hnumber⟩ := hbefore i hi
  exact ⟨j', hj', r', wal_getElem_step hstep hr', hnumber⟩

theorem wal_getElem_of_step (h : (s'.server n).wal[i]? = some r) :
    (s.server n).wal[i]? = some r ∨ i = (s.server n).wal.length ∧ Added s n e r := by
  rcases wal_of_step hstep n with hwal | ⟨r', hadded, hwal⟩
  · rw [hwal] at h
    exact .inl h
  · rw [hwal] at h
    rcases lt_or_ge i (s.server n).wal.length with hlt | hge
    · rw [getElem?_append_left hlt] at h
      exact .inl h
    · have hlt := (List.getElem?_eq_some_iff.1 h).1
      rw [List.length_append, List.length_singleton] at hlt
      rw [List.getElem?_append_right hge] at h
      rw [mem_singleton.1 (mem_of_getElem? h)]
      exact .inr ⟨by omega, hadded⟩

theorem dbname_step (n : ℕ) :
    (s'.server n).dbname = (s.server n).dbname := by
  have hchanged := changed_of_step hstep n
  generalize s'.server n = server at hchanged
  cases hchanged with
  | apply =>
    rw [advanceForwarded_dbname]
    rfl
  | _ => rfl

end

/-! ## One step -/

section Step

section

variable (h : Chained s)

include h

theorem Chained.subs_step (hlinked : s.Linked e) (hstep : Stepped s e s') (p n : ℕ)
    (sub : Sub) (hsub : s'.sub p n = some sub) (henabled : sub.enabled = true) :
    n = p + 1 ∧ sub.forwardOrigins = true := by
  rcases sub_cases hstep p n with hsame | ⟨name, forwardOrigins, enabled, rfl, -, hnew⟩ |
    ⟨place, sub₀, -, hsub₀, hnext⟩
  · exact h.subs p n sub (hsame.symm.trans hsub) henabled
  · cases hnew.symm.trans hsub
    exact ⟨(hlinked henabled).1, (hlinked henabled).2.1⟩
  · cases hnext.symm.trans hsub
    exact h.subs p n sub₀ hsub₀ henabled

theorem Chained.rows_step (hdirect : s.Direct e) (hstep : Stepped s e s') (n : ℕ)
    (row : Node) (hrow : row ∈ (s'.server n).catalog) :
    ∃ j node, (s'.server j).node = some node ∧ row.name = node.name ∧ (j = 0 → n ≤ 1) := by
  have hold : row ∈ (s.server n).catalog →
      ∃ j node, (s'.server j).node = some node ∧ row.name = node.name ∧ (j = 0 → n ≤ 1) := by
    intro hrow
    obtain ⟨j, node, hnode, hrest⟩ := h.rows n row hrow
    exact ⟨j, node, node_step hstep hnode, hrest⟩
  have hchanged := changed_of_step hstep n
  generalize hserver : s'.server n = server at hchanged hrow
  cases hchanged with
  | same | write => exact hold hrow
  | createNode _ catalog node _ hcreate =>
    obtain ⟨-, -, hcatalog, -⟩ := createNode_eq_ok hcreate
    have hrow : row ∈ (s.server n).catalog ++ [node] := hcatalog ▸ hrow
    rcases mem_append.1 hrow with hrow | hrow
    · exact hold hrow
    · rw [mem_singleton.1 hrow]
      exact ⟨n, node, by rw [hserver], rfl, fun hzero => hzero.trans_le (Nat.zero_le 1)⟩
  | rows p _ _ _ provider _ hp hrows =>
    rcases mem_append.1 hrow with hrow | hrow
    · exact hold hrow
    · exact ⟨p, provider, node_step hstep hp, (hrows row hrow).1, fun hzero => (hdirect hzero).le⟩
  | apply =>
    rw [advanceForwarded_catalog] at hrow
    exact hold hrow

theorem Chained.names_step (hdirect : s.Direct e) (hstep : Stepped s e s') (n : ℕ)
    (node node₀ : Node) (hn : n ≠ 0) (hnode : (s'.server n).node = some node)
    (hnode₀ : (s'.server 0).node = some node₀) :
    slotPart node.name.bytes ≠ slotPart node₀.name.bytes := by
  rcases node_of_step hstep hnode with hnode | ⟨rfl, -⟩
  · rcases node_of_step hstep hnode₀ with hnode₀ | ⟨rfl, -⟩
    · exact h.names n node node₀ hn hnode hnode₀
    · exact hdirect n node hnode (.inl rfl)
  · rcases node_of_step hstep hnode₀ with hnode₀ | ⟨hevent, -⟩
    · exact (hdirect 0 node₀ hnode₀ (.inr rfl)).symm
    · exact absurd (Event.createNode.inj hevent).1 hn

theorem Chained.first_step (hstep : Stepped s e s') (i : ℕ) (r : Record ℕ)
    (hr : (s'.server 0).wal[i]? = some r) :
    r.txn.originId = 0 ∧ r.writer = 0 ∧ r.number = i ∧ r.txn.finalLsn < r.txn.endLsn := by
  rcases wal_getElem_of_step hstep hr with hr | ⟨hi, hadded⟩
  · exact h.first i r hr
  · cases hadded with
    | write _ _ hafter => exact ⟨rfl, rfl, hi.symm, hafter.1⟩
    | apply p _ _ sub _ _ hsub henabled =>
      -- nobody is before node 0
      exact absurd (h.subs p 0 sub hsub henabled).1 (Nat.succ_ne_zero p).symm

theorem Chained.ordered_step (hstep : Stepped s e s') :
    (s'.server 0).wal.Pairwise fun r r' => r.txn.endLsn ≤ r'.txn.finalLsn := by
  rcases wal_of_step hstep 0 with hwal | ⟨r, hadded, hwal⟩
  · rw [hwal]
    exact h.ordered
  · rw [hwal]
    refine pairwise_append.2 ⟨h.ordered, pairwise_singleton _ _, fun r₀ hr₀ r' hr' => ?_⟩
    rw [mem_singleton.1 hr']
    cases hadded with
    | write _ _ hafter | apply _ _ _ _ _ _ _ _ _ _ _ hafter => exact hafter.2 r₀ hr₀

theorem Chained.second_step (hstep : Stepped s e s') (j : ℕ) (r : Record ℕ)
    (hr : (s'.server 1).wal[j]? = some r) (hid : r.txn.originId ≠ 0) : s'.FromFirst j r := by
  rcases wal_getElem_of_step hstep hr with hr | ⟨hj, hadded⟩
  · exact fromFirst_step hstep (h.second j r hr hid)
  · cases hadded with
    | write => exact absurd rfl hid
    | apply p _ _ sub r₀ _ hsub henabled hr₀ =>
      have hzero : p = 0 := by
        have := (h.subs p 1 sub hsub henabled).1
        omega
      subst hzero
      obtain ⟨-, hwriter, hnumber, -⟩ := h.first sub.next r₀ hr₀
      refine ⟨hwriter, ⟨r₀, wal_getElem_step hstep (hnumber.symm ▸ hr₀), rfl⟩, fun i hi => ?_⟩
      -- those before it have been applied before
      have hi : i < sub.next := hnumber ▸ hi
      obtain ⟨r', hr', hr'writer, hr'number⟩ := h.toSecond sub hsub henabled i hi
      obtain ⟨j', hj'⟩ := mem_iff_getElem?.1 hr'
      exact ⟨j', hj ▸ (List.getElem?_eq_some_iff.1 hj').1, r', wal_getElem_step hstep hj', hr'writer,
        hr'number⟩

end

variable {place : Place} {sub : Sub} {provider : Node}

theorem Chained.applied (h : Chained s) {p n : ℕ} (hstep : Stepped s (.apply p n place) s')
    (hsub : s.sub p n = some sub) (henabled : sub.enabled = true) :
    ∃ r, (s.server p).wal[sub.next]? = some r ∧
      ∃ r' ∈ (s'.server n).wal, r'.writer = r.writer ∧ r'.number = r.number := by
  have hforward := (h.subs p n sub hsub henabled).2
  have hwal := wal_of_step hstep n
  cases hstep with
  | filter _ _ _ _ _ hsub₀ _ _ hfilter =>
    -- with all origins forwarded nothing is filtered out
    cases hsub.symm.trans hsub₀
    rw [hforward, originFilter] at hfilter
    split at hfilter <;> exact absurd hfilter Bool.false_ne_true
  | apply _ _ _ _ _ r _ hsub₀ _ hr =>
    cases hsub.symm.trans hsub₀
    refine ⟨r, hr, ?_⟩
    rw [setServer_self]
    rw [advanceForwarded_wal]
    exact ⟨_, mem_append_right _ (mem_singleton_self _), rfl, rfl⟩

theorem Chained.toSecond_step (h : Chained s) (hlinked : s.Linked e) (hstep : Stepped s e s')
    (sub : Sub) (hsub : s'.sub 0 1 = some sub) (henabled : sub.enabled = true) (i : ℕ)
    (hi : i < sub.next) : (s'.server 1).HasApplied i := by
  rcases sub_cases hstep 0 1 with hsame | ⟨name, forwardOrigins, enabled, rfl, -, hnew⟩ |
    ⟨place, sub₀, rfl, hsub₀, hnext⟩
  · exact hasApplied_step hstep (h.toSecond sub (hsame.symm.trans hsub) henabled i hi)
  · cases hnew.symm.trans hsub
    rw [(hlinked henabled).2.2] at hi
    exact absurd hi (Nat.not_lt_zero i)
  · cases hnext.symm.trans hsub
    rcases Nat.lt_succ_iff_lt_or_eq.1 hi with hi | rfl
    · exact hasApplied_step hstep (h.toSecond sub₀ hsub₀ henabled i hi)
    · obtain ⟨r, hr, r', hr', hwriter, hnumber⟩ := h.applied hstep hsub₀ henabled
      obtain ⟨-, hw, hn, -⟩ := h.first sub₀.next r hr
      exact ⟨r', hr', hwriter.trans hw, hnumber.trans hn⟩

theorem Chained.toThird_step (h : Chained s) (hlinked : s.Linked e) (hstep : Stepped s e s')
    (sub : Sub) (hsub : s'.sub 1 2 = some sub) (henabled : sub.enabled = true) (j : ℕ)
    (hj : j < sub.next) :
    ∃ r, (s'.server 1).wal[j]? = some r ∧
      ∃ r' ∈ (s'.server 2).wal, r'.writer = r.writer ∧ r'.number = r.number := by
  have hold : ∀ sub, s.sub 1 2 = some sub → sub.enabled = true → j < sub.next →
      ∃ r, (s'.server 1).wal[j]? = some r ∧
        ∃ r' ∈ (s'.server 2).wal, r'.writer = r.writer ∧ r'.number = r.number := by
    intro sub hsub henabled hj
    obtain ⟨r, hr, r', hr', hsame⟩ := h.toThird sub hsub henabled j hj
    obtain ⟨i, hi⟩ := mem_iff_getElem?.1 hr'
    exact ⟨r, wal_getElem_step hstep hr, r', mem_of_getElem? (wal_getElem_step hstep hi), hsame⟩
  rcases sub_cases hstep 1 2 with hsame | ⟨name, forwardOrigins, enabled, rfl, -, hnew⟩ |
    ⟨place, sub₀, rfl, hsub₀, hnext⟩
  · exact hold sub (hsame.symm.trans hsub) henabled hj
  · cases hnew.symm.trans hsub
    rw [(hlinked henabled).2.2] at hj
    exact absurd hj (Nat.not_lt_zero j)
  · cases hnext.symm.trans hsub
    rcases Nat.lt_succ_iff_lt_or_eq.1 hj with hj | rfl
    · exact hold sub₀ hsub₀ henabled hj
    · obtain ⟨r, hr, hr'⟩ := h.applied hstep hsub₀ henabled
      exact ⟨r, wal_getElem_step hstep hr, hr'⟩

theorem forwarded_advance {server : Server ℕ} {origin : Origin} {key : List UInt8} {pos : UInt64}
    (h : (server.advanceForwarded sub provider origin).forwarded key = some pos) :
    server.forwarded key = some pos ∨ ∃ name, origin.name = some name ∧ origin.id ≠ provider.id ∧
      key = genSlotName server.dbname.bytes name.bytes sub.name.bytes ∧ pos = origin.lsn := by
  unfold Server.advanceForwarded at h
  by_cases hid : origin.id = provider.id
  · rw [if_pos hid] at h
    exact .inl h
  · rw [if_neg hid] at h
    cases hname : origin.name with
    | none =>
      rw [hname] at h
      exact .inl h
    | some name =>
      rw [hname] at h
      dsimp only at h
      split at h
      · exact .inl h
      · rcases update_cases (rfl : Function.update server.forwarded _ _ = _) key with
          ⟨hkey, heq⟩ | ⟨-, heq⟩
        · have hpos := Option.some.inj (h.symm.trans heq)
          unfold advance at hpos
          split at hpos
          · exact .inr ⟨name, rfl, hid, hkey, hpos⟩
          · rename_i hold
            split at hpos
            · exact .inr ⟨name, rfl, hid, hkey, hpos⟩
            · exact .inl (by rw [hkey, hold, hpos])
        · exact .inl (heq.symm.trans h)

/-- **A position that is stored under the name of node 0.** The sender has a row for node 0, so it
is node 1; the record is one that it has applied from node 0, and has the position there. -/
theorem Chained.stored_apply (h : Chained s) {p k : ℕ} {name : CString}
    (hstep : Stepped s (.apply p k place) s') (hp : (s.server p).node = some provider)
    (hsub : s.sub p k = some sub) (henabled : sub.enabled = true)
    (hr : (s.server p).wal[sub.next]? = some r)
    (hname : (originOf provider (s.server p).catalog r.txn).name = some name)
    (hid : (originOf provider (s.server p).catalog r.txn).id ≠ provider.id) :
    k = p + 1 ∧ ∃ j node, (s.server j).node = some node ∧ name = node.name ∧
      (j = 0 → k = 2 ∧ s'.Reached (originOf provider (s.server p).catalog r.txn).lsn) := by
  have hk := (h.subs p k sub hsub henabled).1
  -- a local transaction of the provider has the id of the provider
  have hforwarded : r.txn.originId ≠ 0 := by
    intro hlocal
    rw [originOf, if_pos hlocal] at hid
    exact hid rfl
  rw [originOf, if_neg hforwarded] at hname
  obtain ⟨row, hrow, hrowname⟩ := Option.map_eq_some_iff.1 hname
  obtain ⟨j, node, hnode, hnodename, hzero⟩ := h.rows p row (mem_of_find?_eq_some hrow)
  refine ⟨hk, j, node, hnode, hrowname.symm.trans hnodename, fun hj => ?_⟩
  have hone : p = 1 := by
    have hle := hzero hj
    have hne : p ≠ 0 := by
      rintro rfl
      exact hforwarded (h.first sub.next r hr).1
    omega
  subst hone
  subst hk
  obtain ⟨hwriter, ⟨r₀, hr₀, hlsn⟩, hbefore⟩ := h.second sub.next r hr hforwarded
  refine ⟨rfl, r.number, r₀, wal_getElem_step hstep hr₀, ?_, fun i hi => ?_⟩
  · rw [originOf, if_neg hforwarded]
    exact hlsn
  · rcases hi.lt_or_eq with hi | rfl
    · obtain ⟨j', hj', _, hr', hr'writer, hr'number⟩ := hbefore i hi
      obtain ⟨_, hr'', r₂, hr₂, hwriter₂, hnumber₂⟩ := h.toThird sub hsub henabled j' hj'
      cases hr'.symm.trans hr''
      exact hasApplied_step hstep ⟨r₂, hr₂, hwriter₂.trans hr'writer, hnumber₂.trans hr'number⟩
    · obtain ⟨_, hr', r₂, hr₂, hwriter₂, hnumber₂⟩ := h.applied hstep hsub henabled
      cases hr.symm.trans hr'
      exact ⟨r₂, hr₂, hwriter₂.trans hwriter, hnumber₂⟩

theorem Chained.stored_step (h : Chained s) (hstep : Stepped s e s') (k : ℕ) (key : List UInt8)
    (pos : UInt64) (hpos : (s'.server k).forwarded key = some pos) :
    ∃ p sub j node, k = p + 1 ∧ s'.sub p k = some sub ∧ (s'.server j).node = some node ∧
      key = genSlotName (s'.server k).dbname.bytes node.name.bytes sub.name.bytes ∧
      (j = 0 → k = 2 ∧ s'.Reached pos) := by
  have hold : (s.server k).forwarded key = some pos →
      ∃ p sub j node, k = p + 1 ∧ s'.sub p k = some sub ∧ (s'.server j).node = some node ∧
        key = genSlotName (s'.server k).dbname.bytes node.name.bytes sub.name.bytes ∧
        (j = 0 → k = 2 ∧ s'.Reached pos) := by
    intro hpos
    obtain ⟨p, _, j, node, hk, hsub, hnode, hkey, hzero⟩ := h.stored k key pos hpos
    obtain ⟨sub', hsub', hname, -⟩ := sub_step hstep hsub
    refine ⟨p, sub', j, node, hk, hsub', node_step hstep hnode, ?_, fun hj =>
      ⟨(hzero hj).1, reached_step hstep (hzero hj).2⟩⟩
    rw [dbname_step hstep, hname]
    exact hkey
  have hchanged := changed_of_step hstep k
  generalize hserver : s'.server k = server at hchanged hpos
  cases hchanged with
  | same | createNode | rows | write => exact hserver ▸ hold hpos
  | apply p _ _ _ _ hp hsub henabled hr =>
    rw [← hserver]
    rcases forwarded_advance hpos with hpos | ⟨name, hname, hne, hkey, rfl⟩
    · exact hold hpos
    · obtain ⟨hk, j, node, hnode, rfl, hzero⟩ :=
        h.stored_apply hstep hp hsub henabled hr hname hne
      obtain ⟨sub', hsub', hsubname, -⟩ := sub_step hstep hsub
      refine ⟨p, sub', j, node, hk, hsub', node_step hstep hnode, ?_, hzero⟩
      rw [dbname_step hstep, hsubname]
      exact hkey

theorem Chained.step (h : Chained s) (hlinked : s.Linked e) (hdirect : s.Direct e)
    (hstep : Stepped s e s') : Chained s' where
  subs := h.subs_step hlinked hstep
  rows := h.rows_step hdirect hstep
  names := h.names_step hdirect hstep
  first := h.first_step hstep
  ordered := h.ordered_step hstep
  second := h.second_step hstep
  toSecond := h.toSecond_step hlinked hstep
  toThird := h.toThird_step hlinked hstep
  stored := h.stored_step hstep

end Step

/-! ## The result -/

/-- A position from which a direct subscription of `k` to node 0 can start: it is the end of a
transaction of node 0 that `k` has applied, and `k` has applied all that committed before it. -/
def Cluster.StartsFrom (s : Cluster ℕ) (k : ℕ) (pos : UInt64) : Prop :=
  (∃ (i : ℕ) (r₀ : Record ℕ), (s.server 0).wal[i]? = some r₀ ∧ pos = r₀.txn.endLsn ∧
    (s.server k).HasApplied i) ∧
  ∀ (i : ℕ) (r₀ : Record ℕ), (s.server 0).wal[i]? = some r₀ → r₀.txn.finalLsn < pos →
    (s.server k).HasApplied i

theorem Chained.place_le (h : Chained s) {j : ℕ} {r' : Record ℕ}
    (hr : (s.server 0).wal[i]? = some r) (hr' : (s.server 0).wal[j]? = some r')
    (hlt : r.txn.finalLsn < r'.txn.endLsn) : i ≤ j := by
  by_contra hji
  obtain ⟨hi, rfl⟩ := List.getElem?_eq_some_iff.1 hr
  obtain ⟨hj, rfl⟩ := List.getElem?_eq_some_iff.1 hr'
  have hle := List.pairwise_iff_getElem.1 h.ordered j i hj hi (by omega)
  exact UInt64.not_lt.2 hle hlt

/-- **Stored positions are positions of node 0.** In every run of a chain in which only node 1 knows
node 0 and no node shares its slot name, a direct subscription to node 0 can start from the position
that is stored for it. -/
theorem forwarded_sound {dbname : ℕ → CString} {s : Cluster ℕ} {es : List (Event ℕ)}
    (halong : Along Cluster.step (fun s e => s.Linked e ∧ s.Direct e) (Cluster.start dbname) es)
    (hrun : run Cluster.step (Cluster.start dbname) es = some s) (p : ℕ) (sub : Sub) (node₀ : Node)
    (hsub : s.sub p (p + 1) = some sub) (hnode₀ : (s.server 0).node = some node₀) (pos : UInt64)
    (hpos : (s.server (p + 1)).forwarded
      (genSlotName (s.server (p + 1)).dbname.bytes node₀.name.bytes sub.name.bytes) = some pos) :
    s.StartsFrom (p + 1) pos := by
  have h : Chained s :=
    run_invariant_along
      (fun _ _ _ h hcond hstep => h.step hcond.1 hcond.2 (stepped_of_step hstep))
      (chained_start dbname) halong hrun
  obtain ⟨p', _, j, node, hk, hsub', hnode, hkey, hzero⟩ := h.stored _ _ _ hpos
  obtain rfl : p = p' := Nat.succ.inj hk
  cases hsub.symm.trans hsub'
  -- the slot name is that of node 0 and of no other
  have hj : j = 0 := by
    by_contra hj
    exact h.names j node node₀ hj hnode hnode₀ (slotPart_of_genSlotName hkey.symm)
  obtain ⟨htwo, i, r₀, hr₀, hend, happlied⟩ := hzero hj
  rw [htwo]
  refine ⟨⟨i, r₀, hr₀, hend, happlied i le_rfl⟩, fun i' r' hr' hlt => happlied i' ?_⟩
  exact h.place_le hr' hr₀ (hend ▸ hlt)

/-! ## Two chains -/

/-- `n1` to `n4`. -/
def chainName (i : UInt8) (h : 0 ∉ [110, 49 + i]) : CString := ⟨[110, 49 + i], h⟩

/-- A place in the WAL of server `n`. -/
def chainPlace (n : UInt64) : Place := ⟨7, 100 * n + 100, 100 * n + 110⟩

def chainOfThree : List (Event ℕ) :=
  [.createNode 0 (chainName 0 (by decide)), .createNode 1 (chainName 1 (by decide)),
    .createNode 2 (chainName 2 (by decide)),
    .createSubscription 0 1 (chainName 0 (by decide)) true true,
    .createSubscription 1 2 (chainName 0 (by decide)) true true,
    .write 0 (chainPlace 0) 5, .apply 0 1 (chainPlace 1), .apply 1 2 (chainPlace 2)]

/-- A position of node `n` for the origin `n1`. -/
def storedAt (s : Cluster ℕ) (n : ℕ) : Option UInt64 :=
  (s.server n).forwarded
    (genSlotName (chainName 0 (by decide)).bytes (chainName 0 (by decide)).bytes
      (chainName 0 (by decide)).bytes)

theorem forwarded_sound_three :
    ∃ s, run Cluster.step (Cluster.start fun _ => chainName 0 (by decide)) chainOfThree = some s ∧
      storedAt s 2 = some 110 ∧ s.StartsFrom 2 110 := by
  have halong : Along Cluster.step (fun s e => s.Linked e ∧ s.Direct e)
      (Cluster.start fun _ => chainName 0 (by decide)) chainOfThree := by
    refine .cons ⟨trivial, fun _ _ h => nomatch h⟩ rfl <|
      .cons ⟨trivial, fun n node h _ => ?_⟩ rfl <|
      .cons ⟨trivial, fun n node h hn => ?_⟩ rfl <|
      .cons ⟨fun _ => ⟨rfl, rfl, rfl⟩, fun _ => rfl⟩ rfl <|
      .cons ⟨fun _ => ⟨rfl, rfl, rfl⟩, fun h => absurd h Nat.one_ne_zero⟩ rfl <|
      .cons ⟨trivial, trivial⟩ rfl <| .cons ⟨trivial, trivial⟩ rfl <|
      .cons ⟨trivial, trivial⟩ rfl trivial
    · match n with
      | 0 =>
        cases h
        decide
      | n + 1 => cases h
    · rcases hn with hn | rfl
      · exact absurd hn (by decide)
      · cases h
        decide
  exact ⟨_, rfl, rfl, forwarded_sound halong rfl 1 _ _ rfl rfl 110 rfl⟩

/-- Four nodes. Node 2 has, besides its own, a subscription to node 0 that is not enabled. -/
def chainOfFour : List (Event ℕ) :=
  [.createNode 0 (chainName 0 (by decide)), .createNode 1 (chainName 1 (by decide)),
    .createNode 2 (chainName 2 (by decide)), .createNode 3 (chainName 3 (by decide)),
    .createSubscription 0 1 (chainName 0 (by decide)) true true,
    .createSubscription 1 2 (chainName 0 (by decide)) true true,
    .createSubscription 2 3 (chainName 0 (by decide)) true true,
    .createSubscription 0 2 (chainName 0 (by decide)) true false,
    .write 0 (chainPlace 0) 5, .apply 0 1 (chainPlace 1), .apply 1 2 (chainPlace 2),
    .apply 2 3 (chainPlace 3)]

/-- **A position of another WAL.** The transaction ends at 110 on node 0. Node 3 has stored 210 for
it, its end on node 1. -/
theorem forwarded_of_other_wal :
    Along Cluster.step Cluster.Linked (Cluster.start fun _ => chainName 0 (by decide)) chainOfFour ∧
      (run Cluster.step (Cluster.start fun _ => chainName 0 (by decide)) chainOfFour).map (fun s =>
        (storedAt s 3, (s.server 0).wal.map (·.txn.endLsn), (s.server 1).wal.map (·.txn.endLsn))) =
        some (some 210, [110], [210]) := by
  refine ⟨?_, rfl⟩
  exact .cons trivial rfl <| .cons trivial rfl <| .cons trivial rfl <| .cons trivial rfl <|
    .cons (fun _ => ⟨rfl, rfl, rfl⟩) rfl <| .cons (fun _ => ⟨rfl, rfl, rfl⟩) rfl <|
    .cons (fun _ => ⟨rfl, rfl, rfl⟩) rfl <| .cons (fun h => absurd h Bool.false_ne_true) rfl <|
    .cons trivial rfl <| .cons trivial rfl <| .cons trivial rfl <| .cons trivial rfl trivial

end Spock.Nodes
