import Mathlib.Data.Finset.Card
import Spock.Group.Members

/-!
# Spock — every transaction of a slot group is delivered

`last_lsn` says that somebody has claimed all transactions up to it. It does not say who, and stays
when that member leaves, so the others go on to skip what nobody sends any more.

* **`none_lost`** — in such runs every transaction is sent and confirmed, by one member only while
  none leaves.
-/

namespace Spock.Group

open Output Runs List Function

variable {n : Nat}

/-- Confirmed, or sent by a member that is attached and waits for the confirmation. -/
def Senders.Secured (s : Senders n) (i : Nat) : Prop :=
  i ∈ s.acked ∨ ∃ m, (s.member m).attached = true ∧ i ∈ (s.member m).unconfirmed

/-- A member leaves with transactions unconfirmed only if it is the last, and joins only if none is
open before the position of its slot. -/
def Senders.Careful (s : Senders n) : Event n → Prop
  | .leave m => (s.member m).unconfirmed = [] ∨ s.nattached = 1
  | .join m => ∀ i < (s.member m).confirmed, s.Secured i
  | _ => True

/-! ## In every run -/

def Senders.attachedMembers (s : Senders n) : Finset (Fin n) :=
  Finset.univ.filter fun m => (s.member m).attached = true

variable {s s' : Senders n} {e : Event n} {es : List (Event n)} {new : List (Sent n)}

variable {m : Fin n} {i : Nat} {s₀ : Senders n}

theorem mem_attachedMembers : m ∈ s.attachedMembers ↔ (s.member m).attached = true := by
  simp only [Senders.attachedMembers, Finset.mem_filter, Finset.mem_univ, true_and]

structure Member.Sound (w : Member) : Prop where
  behind : w.attached = true → w.confirmed ≤ w.next
  held : ∀ i ∈ w.unconfirmed, w.attached = true ∧ w.confirmed ≤ i

/-- **What holds in every run.** -/
structure Sound (s : Senders n) : Prop where
  ordered : s.Ordered
  positive : ∀ t ∈ s.wal, 0 < t.endLsn
  count : s.nattached = s.attachedMembers.card
  lastLsn : s.slotGroup.lastLsn = 0 ∨ ∃ t ∈ s.wal, s.slotGroup.lastLsn = t.endLsn
  member : ∀ m, (s.member m).Sound
  sent : ∀ i, s.Secured i → ∃ x ∈ s.sent, x.index = i

theorem sound_start (n : Nat) : Sound (Senders.start n) where
  ordered := List.Pairwise.nil
  positive := nofun
  count := by
    have hnone : (Senders.start n).attachedMembers = ∅ :=
      Finset.filter_eq_empty_iff.2 fun m _ => Bool.false_ne_true
    rw [hnone]
    rfl
  lastLsn := .inl rfl
  member m := ⟨fun hm => absurd hm Bool.false_ne_true, fun i hi => absurd hi not_mem_nil⟩
  sent i hi := by
    rcases hi with hi | ⟨m, -, hi⟩
    · exact absurd hi not_mem_nil
    · exact absurd hi not_mem_nil

theorem attachedMembers_update {w : Member} (hmember : s'.member = update s.member m w)
    (hw : w.attached = (s.member m).attached) : s'.attachedMembers = s.attachedMembers := by
  ext m'
  rw [mem_attachedMembers, mem_attachedMembers, hmember]
  by_cases hm : m' = m
  · subst hm
    rw [update_self, hw]
  · rw [update_of_ne hm]

theorem attachedMembers_join (s : Senders n) (m : Fin n) :
    (s.join m).attachedMembers = insert m s.attachedMembers := by
  ext m'
  rw [mem_attachedMembers, Finset.mem_insert, mem_attachedMembers]
  by_cases hm : m' = m
  · subst hm
    simp only [Senders.join, update_self, true_or]
  · simp only [Senders.join, update_of_ne hm, hm, false_or]

theorem attachedMembers_leave (s : Senders n) (m : Fin n) :
    (s.leave m).attachedMembers = s.attachedMembers.erase m := by
  ext m'
  rw [mem_attachedMembers, Finset.mem_erase, mem_attachedMembers]
  by_cases hm : m' = m
  · subst hm
    simp only [Senders.leave, update_self, Bool.false_eq_true, ne_eq, not_true, false_and]
  · simp only [Senders.leave, update_of_ne hm, ne_eq, hm, not_false_eq_true, true_and]

theorem Sound.count_step (h : Sound s) (hstep : Stepped s e s') :
    s'.nattached = s'.attachedMembers.card := by
  cases hstep with
  | commit => exact h.count
  | join _ hm =>
    rw [attachedMembers_join, Finset.card_insert_of_notMem, ← h.count]
    · show (if s.nattached = 0 then 1 else s.nattached + 1) = s.nattached + 1
      split <;> omega
    · rw [mem_attachedMembers, hm]
      exact Bool.false_ne_true
  | skip m | claim m | finish m | confirm m =>
    rw [attachedMembers_update (s := s) (m := m) rfl ?_]
    exacts [h.count, rfl]
  | leave _ hm =>
    rw [attachedMembers_leave, Finset.card_erase_of_mem (mem_attachedMembers.2 hm), ← h.count]
    rfl

theorem secured_of_step (hstep : Stepped s e s') (hi : s'.Secured i) :
    s.Secured i ∨ ∃ x, s'.sent = s.sent ++ [x] ∧ x.index = i := by
  have hcases : ∀ {m : Fin n} {w : Member}, s'.member = update s.member m w →
      (w.attached = true → i ∈ w.unconfirmed → s.Secured i ∨ ∃ x, s'.sent = s.sent ++ [x] ∧ x.index = i) →
      (i ∈ s'.acked → s.Secured i) → s.Secured i ∨ ∃ x, s'.sent = s.sent ++ [x] ∧ x.index = i := by
    intro m w hmember hw hacked
    rcases hi with hi | ⟨m', hm', hi⟩
    · exact .inl (hacked hi)
    · rw [hmember] at hm' hi
      by_cases hne : m' = m
      · subst hne
        rw [update_self] at hm' hi
        exact hw hm' hi
      · rw [update_of_ne hne] at hm' hi
        exact .inl (.inr ⟨m', hm', hi⟩)
  cases hstep with
  | commit => exact .inl hi
  | join => exact hcases rfl (fun _ hi => absurd hi not_mem_nil) .inl
  | skip m _ hm | finish m hm => exact hcases rfl (fun _ hi => .inl (.inr ⟨m, hm, hi⟩)) .inl
  | claim m _ hm =>
    refine hcases rfl (fun _ hi => ?_) .inl
    rcases mem_append.1 hi with hi | hi
    · exact .inl (.inr ⟨m, hm, hi⟩)
    · exact .inr ⟨_, rfl, (mem_singleton.1 hi).symm⟩
  | confirm m _ hm =>
    refine hcases rfl (fun _ hi => .inl (.inr ⟨m, hm, mem_of_mem_filter hi⟩)) fun hi => ?_
    rcases mem_append.1 hi with hi | hi
    · exact .inl hi
    · exact .inr ⟨m, hm, mem_of_mem_filter hi⟩
  | leave => exact hcases rfl (fun h _ => absurd h Bool.false_ne_true) .inl

theorem sent_subset_of_step (hstep : Stepped s e s') : ∀ x ∈ s.sent, x ∈ s'.sent := by
  intro x hx
  cases hstep with
  | claim => exact mem_append_left _ hx
  | _ => exact hx

theorem Sound.step (h : Sound s) (hstep : Stepped s e s') :
    Sound s' where
  ordered := h.ordered.step hstep
  positive := by
    cases hstep with
    | commit _ _ hpos =>
      intro t ht
      rcases mem_append.1 ht with ht | ht
      · exact h.positive t ht
      · rw [mem_singleton.1 ht]
        exact hpos
    | _ => exact h.positive
  count := h.count_step hstep
  lastLsn := by
    cases hstep with
    | commit => exact h.lastLsn.imp_right fun ⟨t, ht, hlsn⟩ => ⟨t, mem_append_left _ ht, hlsn⟩
    | join =>
      by_cases hzero : s.nattached = 0
      · exact .inl (by simp only [Senders.join, hzero, if_true])
      · simpa only [Senders.join, hzero, if_false] using h.lastLsn
    | claim _ txn _ _ htxn => exact .inr ⟨txn, mem_of_getElem? htxn, rfl⟩
    | _ => exact h.lastLsn
  member := by
    cases hstep with
    | commit => exact h.member
    | join => exact forall_update h.member rfl ⟨fun _ => le_rfl, fun _ hi => absurd hi not_mem_nil⟩
    | skip m => exact forall_update h.member rfl { h.member m with }
    | claim m _ hm =>
      refine forall_update h.member rfl ⟨(h.member m).behind, fun i hi => ?_⟩
      rcases mem_append.1 hi with hi | hi
      · exact (h.member m).held i hi
      · rw [mem_singleton.1 hi]
        exact ⟨hm, (h.member m).behind hm⟩
    | finish m hm =>
      exact forall_update h.member rfl
        ⟨fun hm => Nat.le_succ_of_le ((h.member m).behind hm), (h.member m).held⟩
    | confirm _ _ hm _ hpos =>
      refine forall_update h.member rfl ⟨fun _ => hpos, fun i hi => ⟨hm, ?_⟩⟩
      exact of_decide_eq_true (mem_filter.1 hi).2
    | leave =>
      exact forall_update h.member rfl
        ⟨fun h => absurd h Bool.false_ne_true, fun _ hi => absurd hi not_mem_nil⟩
  sent := by
    intro i hi
    rcases secured_of_step hstep hi with hi | ⟨x, hsent, rfl⟩
    · obtain ⟨x, hx, hindex⟩ := h.sent i hi
      exact ⟨x, sent_subset_of_step hstep x hx, hindex⟩
    · exact ⟨x, by simp only [hsent, mem_append, mem_singleton, or_true], rfl⟩

/-! ## With care -/

theorem Sound.nattached_pos (h : Sound s) (hm : (s.member m).attached = true) :
    0 < s.nattached := by
  rw [h.count]
  exact Finset.card_pos.2 ⟨m, mem_attachedMembers.2 hm⟩

theorem Sound.exists_attached (h : Sound s) (hpos : s.nattached ≠ 0) :
    ∃ m, (s.member m).attached = true := by
  rw [h.count] at hpos
  obtain ⟨m, hm⟩ := Finset.card_pos.1 (Nat.pos_of_ne_zero hpos)
  exact ⟨m, mem_attachedMembers.1 hm⟩

theorem Sound.alone (h : Sound s) (hone : s.nattached = 1) {m' : Fin n}
    (hm : (s.member m).attached = true) (hm' : (s.member m').attached = true) : m' = m := by
  rw [h.count] at hone
  exact Finset.card_le_one.1 hone.le m' (mem_attachedMembers.2 hm') m (mem_attachedMembers.2 hm)

theorem next_le_decoded (w : Member) : w.next ≤ w.decoded := by
  unfold Member.decoded
  split <;> omega

/-- The slot will still come to the transaction, or has it on its connection. -/
def Member.Owes (w : Member) (i : Nat) : Prop :=
  w.confirmed ≤ i ∧ (w.attached = true → w.decoded ≤ i ∨ i ∈ w.unconfirmed)

/-- **What holds with care.** -/
structure Guarded (s : Senders n) : Prop where
  decoded : ∀ m, (s.member m).attached = true → ∀ i < (s.member m).decoded, s.Secured i
  claimed : ∀ m, (s.member m).attached = true → ∀ i t, s.wal[i]? = some t →
    t.endLsn ≤ s.slotGroup.lastLsn → s.Secured i
  owed : n ≠ 0 → ∀ i ∉ s.acked, ∃ m, (s.member m).Owes i

theorem guarded_start (n : Nat) : Guarded (Senders.start n) where
  decoded _ hm := absurd hm Bool.false_ne_true
  claimed _ hm := absurd hm Bool.false_ne_true
  owed hn i _ := ⟨⟨0, Nat.pos_of_ne_zero hn⟩, Nat.zero_le i, fun hm => absurd hm Bool.false_ne_true⟩

theorem Senders.Secured.update (hi : s.Secured i) {w : Member}
    (hmember : s'.member = update s.member m w) (hacked : ∀ i ∈ s.acked, i ∈ s'.acked)
    (hw : i ∈ (s.member m).unconfirmed → (w.attached = true ∧ i ∈ w.unconfirmed) ∨ i ∈ s'.acked) :
    s'.Secured i := by
  rcases hi with hi | ⟨m', hm', hi⟩
  · exact .inl (hacked i hi)
  · by_cases hne : m' = m
    · subst hne
      rcases hw hi with hw | hi
      · exact .inr ⟨m', by rwa [hmember, update_self]⟩
      · exact .inl hi
    · exact .inr ⟨m', by rw [hmember, update_of_ne hne]; exact ⟨hm', hi⟩⟩

theorem Sound.secured_step (h : Sound s) (hstep : Stepped s e s') (hcareful : s.Careful e)
    {m₀ : Fin n} (hm₀ : (s'.member m₀).attached = true) (hi : s.Secured i) : s'.Secured i := by
  cases hstep with
  | commit => exact hi
  | join m hm =>
    refine hi.update (m := m) rfl (fun _ h => h) fun hi => ?_
    exact absurd (((h.member m).held i hi).1.symm.trans hm) Bool.true_eq_false.mp
  | skip m _ hm | finish m hm => exact hi.update (m := m) rfl (fun _ h => h) fun hi => .inl ⟨hm, hi⟩
  | claim m _ hm =>
    exact hi.update (m := m) rfl (fun _ h => h) fun hi => .inl ⟨hm, mem_append_left _ hi⟩
  | confirm m pos hm =>
    refine hi.update (m := m) rfl (fun _ h => mem_append_left _ h) fun hi => ?_
    by_cases hlt : i < pos
    · exact .inr (mem_append_right _ (mem_filter.2 ⟨hi, decide_eq_true hlt⟩))
    · exact .inl ⟨hm, mem_filter.2 ⟨hi, decide_eq_true (Nat.le_of_not_lt hlt)⟩⟩
  | leave m hm =>
    -- somebody is left, so the member that leaves was not the last and had nothing unconfirmed
    rcases update_cases (rfl : (s.leave m).member = _) m₀ with ⟨-, heq⟩ | ⟨hne, heq⟩
    · rw [heq] at hm₀
      exact absurd hm₀ Bool.false_ne_true
    · rw [heq] at hm₀
      rcases hcareful with hnone | hone
      · refine hi.update (m := m) rfl (fun _ h => h) fun hi => ?_
        rw [hnone] at hi
        exact absurd hi not_mem_nil
      · exact absurd (h.alone hone hm hm₀) hne

section

variable (hsound : Sound s) (h : Guarded s) (hstep : Stepped s e s')

include hsound h hstep

theorem Guarded.decoded_step
    (hcareful : s.Careful e) (m' : Fin n) (hm' : (s'.member m').attached = true) (i : Nat)
    (hi : i < (s'.member m').decoded) : s'.Secured i := by
  -- what was secured before stays so; a member that the step moves on is looked at below
  have hold : s.Secured i → s'.Secured i := hsound.secured_step hstep hcareful hm'
  have hmoved : ∀ {m : Fin n} {w : Member}, s'.member = update s.member m w →
      (m' = m → w.attached = true → i < w.decoded → s'.Secured i) → s'.Secured i := by
    intro m w hmember hw
    rcases update_cases hmember m' with ⟨hm, heq⟩ | ⟨-, heq⟩
    · rw [heq] at hm' hi
      exact hw hm hm' hi
    · rw [heq] at hm' hi
      exact hold (h.decoded m' hm' i hi)
  cases hstep with
  | commit => exact h.decoded m' hm' i hi
  | join => exact hmoved rfl fun _ _ hi => hold (hcareful i hi)
  | skip m txn hm _ htxn htaken =>
    refine hmoved rfl fun _ _ hi => hold ?_
    rcases Nat.lt_succ_iff_lt_or_eq.1 hi with hi | rfl
    · exact h.decoded m hm i (hi.trans_le (next_le_decoded (s.member m)))
    · exact h.claimed m hm _ txn htxn htaken
  | claim m _ hm =>
    refine hmoved rfl fun hmm _ hi => ?_
    rcases Nat.lt_succ_iff_lt_or_eq.1 hi with hi | rfl
    · exact hold (h.decoded m hm i (hi.trans_le (next_le_decoded (s.member m))))
    · subst hmm
      refine .inr ⟨m', hm', ?_⟩
      simp only [Senders.claimed, update_self, mem_append, mem_singleton, or_true]
  | finish m hm hin =>
    refine hmoved rfl fun _ _ hi => hold (h.decoded m hm i ?_)
    simpa only [Member.decoded, hin, if_true, Bool.false_eq_true, if_false] using hi
  | confirm m _ hm => exact hmoved rfl fun _ _ hi => hold (h.decoded m hm i hi)
  | leave => exact hmoved rfl fun _ hfalse _ => absurd hfalse Bool.false_ne_true

theorem Guarded.claimed_step
    (hcareful : s.Careful e) (m' : Fin n) (hm' : (s'.member m').attached = true) (i : Nat)
    (t : Output.Txn) (ht : s'.wal[i]? = some t) (hlsn : t.endLsn ≤ s'.slotGroup.lastLsn) :
    s'.Secured i := by
  have hold : s.Secured i → s'.Secured i := hsound.secured_step hstep hcareful hm'
  have hdecoded := Guarded.decoded_step hsound h hstep hcareful
  cases hstep with
  | commit txn hend hpos =>
    -- the new transaction is after everything that has been claimed
    rcases lt_or_ge i s.wal.length with hlt | hge
    · rw [getElem?_append_left hlt] at ht
      exact hold (h.claimed m' hm' i t ht hlsn)
    · have hnew : t = txn := by
        have hmem : t ∈ [txn] := mem_of_getElem? (by rwa [getElem?_append_right hge] at ht)
        exact mem_singleton.1 hmem
      subst hnew
      rcases hsound.lastLsn with hzero | ⟨t', ht', hlast⟩
      · exact absurd (hzero ▸ hlsn) (UInt64.not_le.2 hpos)
      · exact absurd (hlast ▸ hlsn) (UInt64.not_le.2 (hend t' ht'))
  | join m =>
    by_cases hzero : s.nattached = 0
    · -- the group has been set up anew, and nothing is claimed
      have hlast : (s.join m).slotGroup.lastLsn = 0 := by simp only [Senders.join, hzero, if_true]
      exact absurd (hlast ▸ hlsn) (UInt64.not_le.2 (hsound.positive t (mem_of_getElem? ht)))
    · obtain ⟨m₁, hm₁⟩ := hsound.exists_attached hzero
      refine hold (h.claimed m₁ hm₁ i t ht ?_)
      simpa only [Senders.join, hzero, if_false] using hlsn
  | skip m _ hm | finish m hm | confirm m _ hm | leave m hm =>
    exact hold (h.claimed m hm i t ht hlsn)
  | claim m _ hm _ htxn =>
    have hle : i ≤ (s.member m).next := hsound.ordered.place_le ht htxn hlsn
    refine hdecoded m ?_ i ?_
    · simpa only [Senders.claimed, update_self] using hm
    · simpa only [Senders.claimed, update_self, Member.decoded, if_true] using Nat.lt_succ_of_le hle

theorem Guarded.owed_step (hn : n ≠ 0)
    (i : Nat) (hi : i ∉ s'.acked) : ∃ m, (s'.member m).Owes i := by
  have hacked : i ∉ s.acked := by
    cases hstep with
    | confirm => exact fun h => hi (mem_append_left _ h)
    | _ => exact hi
  obtain ⟨m₀, hconf, howes⟩ := h.owed hn i hacked
  -- the slot is the one we look for also after the step, unless the step is its own
  have hmoved : ∀ {m : Fin n} {w : Member}, s'.member = update s.member m w →
      (m₀ = m → w.Owes i) → ∃ m, (s'.member m).Owes i := by
    intro m w hmember hw
    rcases update_cases hmember m₀ with ⟨hm, heq⟩ | ⟨-, heq⟩
    · exact ⟨m₀, by rw [heq]; exact hw hm⟩
    · exact ⟨m₀, by rw [heq]; exact ⟨hconf, howes⟩⟩
  cases hstep with
  | commit => exact ⟨m₀, hconf, howes⟩
  | join =>
    refine hmoved rfl fun hm₀ => ?_
    subst hm₀
    exact ⟨hconf, fun _ => .inl hconf⟩
  | skip m txn hm _ htxn htaken =>
    by_cases hnext : i = (s.member m).next
    · -- the member passes the transaction, and the one that has claimed it has it still
      rcases h.claimed m hm i txn (hnext ▸ htxn) htaken with hacked' | ⟨m₁, hm₁, hheld⟩
      · exact absurd hacked' hacked
      · obtain ⟨-, hconf₁⟩ := (hsound.member m₁).held i hheld
        refine ⟨m₁, ?_⟩
        rcases update_cases (rfl : (s.skipped m txn).member = _) m₁ with ⟨rfl, heq⟩ | ⟨-, heq⟩
        all_goals
          rw [heq]
          exact ⟨hconf₁, fun _ => .inr hheld⟩
    · refine hmoved rfl fun hm₀ => ⟨by rwa [← hm₀], fun _ => ?_⟩
      subst hm₀
      refine (howes hm).imp_left fun hle => ?_
      have := next_le_decoded (s.member m₀)
      show (s.member m₀).next + 1 ≤ i
      omega
  | claim _ _ hm =>
    refine hmoved rfl fun hm₀ => ⟨by rwa [← hm₀], fun _ => ?_⟩
    subst hm₀
    by_cases hnext : i = (s.member m₀).next
    · exact .inr (mem_append_right _ (mem_singleton.2 hnext))
    · refine (howes hm).imp (fun hle => ?_) (mem_append_left _)
      have := next_le_decoded (s.member m₀)
      show (s.member m₀).next + 1 ≤ i
      omega
  | finish _ hm hin =>
    refine hmoved rfl fun hm₀ => ⟨by rwa [← hm₀], fun _ => ?_⟩
    subst hm₀
    refine (howes hm).imp_left fun hle => ?_
    simpa only [Member.decoded, hin, if_true, Bool.false_eq_true, if_false] using hle
  | confirm _ pos hm _ hpos =>
    refine hmoved rfl fun hm₀ => ?_
    subst hm₀
    rcases howes hm with hle | hheld
    · have := next_le_decoded (s.member m₀)
      exact ⟨hpos.trans (this.trans hle), fun _ => .inl hle⟩
    · -- it is not confirmed, so the position stops before it
      have hge : pos ≤ i := by
        by_contra hlt
        exact hi (mem_append_right _ (mem_filter.2 ⟨hheld, decide_eq_true (Nat.lt_of_not_le hlt)⟩))
      exact ⟨hge, fun _ => .inr (mem_filter.2 ⟨hheld, decide_eq_true hge⟩)⟩
  | leave => refine hmoved rfl fun hm₀ => ⟨by rwa [← hm₀], fun h => absurd h Bool.false_ne_true⟩

theorem Guarded.step (hcareful : s.Careful e) : Guarded s' where
  decoded := Guarded.decoded_step hsound h hstep hcareful
  claimed := Guarded.claimed_step hsound h hstep hcareful
  owed := Guarded.owed_step hsound h hstep

end

/-- **A run of members that take care.** -/
theorem guarded_run (hsound : Sound s) (h : Guarded s)
    (halong : Along Senders.step Senders.Careful s es) (hrun : run Senders.step s es = some s') :
    Sound s' ∧ Guarded s' :=
  run_invariant_along (I := fun s => Sound s ∧ Guarded s)
    (fun _ _ _ ⟨hsound, h⟩ hcareful hstep =>
      ⟨hsound.step (stepped_of_step hstep), h.step hsound (stepped_of_step hstep) hcareful⟩)
    ⟨hsound, h⟩ halong hrun

/-! ## Once while nobody leaves -/

/-- What has been claimed since `s₀`, in a run in which nobody has left. -/
structure ClaimedSince (s₀ s : Senders n) (new : List (Sent n)) : Prop where
  sent : s.sent = s₀.sent ++ new
  nodup : (new.map (·.index)).Nodup
  attached : ∀ x ∈ new, s.nattached ≠ 0
  taken : ∀ x ∈ new, ∃ t, s.wal[x.index]? = some t ∧ t.endLsn ≤ s.slotGroup.lastLsn
  secured : ∀ i, s.Secured i → s₀.Secured i ∨ ∃ x ∈ new, x.index = i

theorem claimedSince_self (s : Senders n) : ClaimedSince s s [] where
  sent := (append_nil _).symm
  nodup := nodup_nil
  attached _ hx := absurd hx not_mem_nil
  taken _ hx := absurd hx not_mem_nil
  secured _ hi := .inl hi

theorem ClaimedSince.of_sent (h : ClaimedSince s₀ s new) (hstep : Stepped s e s')
    (hsent : s'.sent = s.sent) (hattached : s.nattached ≠ 0 → s'.nattached ≠ 0)
    (htaken : s.nattached ≠ 0 → ∀ (i : Nat) (t : Output.Txn), s.wal[i]? = some t →
      t.endLsn ≤ s.slotGroup.lastLsn →
      s'.wal[i]? = some t ∧ t.endLsn ≤ s'.slotGroup.lastLsn) : ClaimedSince s₀ s' new where
  sent := hsent.trans h.sent
  nodup := h.nodup
  attached x hx := hattached (h.attached x hx)
  taken x hx := by
    obtain ⟨t, ht, hlsn⟩ := h.taken x hx
    exact ⟨t, htaken (h.attached x hx) x.index t ht hlsn⟩
  secured i hi := by
    rcases secured_of_step hstep hi with hi | ⟨x, hx, -⟩
    · exact h.secured i hi
    · exact absurd (self_eq_append_right.1 (hsent.symm.trans hx)) (cons_ne_nil _ _)

theorem ClaimedSince.step (hsound : Sound s) (h : ClaimedSince s₀ s new) (hstep : Stepped s e s')
    (hstay : ∀ m, e ≠ .leave m) : ∃ new', ClaimedSince s₀ s' new' := by
  have hstep' := hstep
  cases hstep with
  | commit =>
    refine ⟨new, h.of_sent hstep' rfl id fun _ i t ht hlsn => ⟨?_, hlsn⟩⟩
    exact List.getElem?_append_left (List.getElem?_eq_some_iff.1 ht).1 ▸ ht
  | join =>
    refine ⟨new, h.of_sent hstep' rfl (fun _ => ?_) fun hne i t ht hlsn => ⟨ht, ?_⟩⟩
    · show (if s.nattached = 0 then 1 else s.nattached + 1) ≠ 0
      split <;> omega
    · simpa only [Senders.join, hne, if_false] using hlsn
  | skip | finish | confirm => exact ⟨new, h.of_sent hstep' rfl id fun _ i t ht hlsn => ⟨ht, hlsn⟩⟩
  | claim m txn hm _ htxn hfree =>
    refine ⟨new ++ [⟨m, (s.member m).next,
        (begun s.slotGroup (s.member m).lastCommitTs txn).commitOrder⟩],
      ⟨?_, ?_, fun _ _ => (hsound.nattached_pos hm).ne', ?_, ?_⟩⟩
    · rw [← append_assoc, ← h.sent]
      rfl
    · -- what has been claimed is taken, and this is not
      rw [map_append, nodup_append]
      refine ⟨h.nodup, nodup_singleton _, fun i hi j hj => ?_⟩
      obtain ⟨x, hx, rfl⟩ := mem_map.1 hi
      obtain ⟨t, ht, hlsn⟩ := h.taken x hx
      rw [map_singleton, mem_singleton] at hj
      rintro rfl
      rw [hj, htxn] at ht
      exact hfree (Option.some.inj ht ▸ hlsn)
    · intro x hx
      rcases mem_append.1 hx with hx | hx
      · obtain ⟨t, ht, hlsn⟩ := h.taken x hx
        exact ⟨t, ht, UInt64.le_trans hlsn (UInt64.le_of_lt (UInt64.not_le.1 hfree))⟩
      · rw [mem_singleton.1 hx]
        exact ⟨txn, htxn, UInt64.le_refl _⟩
    · intro i hi
      rcases secured_of_step hstep' hi with hi | ⟨x, hx, rfl⟩
      · refine (h.secured i hi).imp_right fun ⟨x, hx, hindex⟩ => ⟨x, mem_append_left _ hx, hindex⟩
      · refine .inr ⟨x, ?_, rfl⟩
        have hnew : [_] = [x] := append_cancel_left hx
        rw [hnew]
        exact mem_append_right _ (mem_singleton_self _)
  | leave m => exact absurd rfl (hstay m)

/-! ## The result -/

/-- Nobody who is attached has passed the transaction, a slot will come to it, and whoever does
sends it. -/
def Senders.Due (s : Senders n) (i : Nat) : Prop :=
  (∀ m, (s.member m).attached = true → (s.member m).decoded ≤ i) ∧
    (n ≠ 0 → ∃ m, (s.member m).Owes i) ∧
    ∀ m s', (s.member m).next = i → s.step (.begin m) = some s' →
      ∃ ts, s'.sent = s.sent ++ [⟨m, i, ts⟩]

/-- Every transaction has been sent, and is confirmed or on the connection of an attached member, or
it is due. Once all members have come to the end and nothing is on a connection, all are
confirmed. -/
def Senders.NoneLost (s : Senders n) : Prop :=
  (∀ i < s.wal.length, ((∃ x ∈ s.sent, x.index = i) ∧ s.Secured i) ∨ s.Due i) ∧
    ∀ m, (s.member m).attached = true →
      (∀ m', (s.member m').attached = true →
        (s.member m').next = s.wal.length ∧ (s.member m').unconfirmed = []) →
      ∀ i < s.wal.length, i ∈ s.acked

/-- From `s` to `s'` no transaction is claimed twice, and one that was open in `s` and that a member
has passed in `s'` is claimed once. -/
def Senders.SentOnce (s s' : Senders n) : Prop :=
  ∃ new, s'.sent = s.sent ++ new ∧ ∀ i,
    (new.map (·.index)).count i ≤ 1 ∧
      (¬ s.Secured i → ∀ m, (s'.member m).attached = true → i < (s'.member m).decoded →
        (new.map (·.index)).count i = 1)

theorem Guarded.noneLost (hsound : Sound s) (h : Guarded s) : s.NoneLost := by
  refine ⟨fun i _ => ?_, fun m hm hquiet i hi => ?_⟩
  · by_cases hsecured : s.Secured i
    · exact .inl ⟨hsound.sent i hsecured, hsecured⟩
    · refine .inr ⟨fun m hm => ?_, fun hn => h.owed hn i fun hi => hsecured (.inl hi),
        fun m s' hnext hstep => ?_⟩
      · by_contra hlt
        exact hsecured (h.decoded m hm i (Nat.lt_of_not_le hlt))
      · cases stepped_of_step hstep with
        | skip _ txn hm _ htxn htaken =>
          exact absurd (h.claimed m hm i txn (hnext ▸ htxn) htaken) hsecured
        | claim =>
          subst hnext
          exact ⟨_, rfl⟩
  · have hpassed : i < (s.member m).decoded :=
      ((hquiet m hm).1.symm ▸ hi : i < (s.member m).next).trans_le (next_le_decoded _)
    rcases h.decoded m hm i hpassed with hi | ⟨m', hm', hi⟩
    · exact hi
    · rw [(hquiet m' hm').2] at hi
      exact absurd hi not_mem_nil

theorem Guarded.sentOnce (h : Guarded s') (hclaimed : ClaimedSince s s' new) : s.SentOnce s' := by
  refine ⟨new, hclaimed.sent, fun i => ⟨nodup_iff_count_le_one.1 hclaimed.nodup i, ?_⟩⟩
  intro hopen m hm hi
  rcases hclaimed.secured i (h.decoded m hm i hi) with hi | ⟨x, hx, rfl⟩
  · exact absurd hi hopen
  · exact count_eq_one_of_mem hclaimed.nodup (mem_map_of_mem hx)

theorem claimedSince_run (hsound : Sound s) (hstay : ∀ m, Event.leave m ∉ es)
    (hrun : run Senders.step s es = some s') : ∃ new, ClaimedSince s s' new := by
  have hinv := run_invariant_along
    (I := fun s' => Sound s' ∧ ∃ new, ClaimedSince s s' new) (P := fun _ e => ∀ m, e ≠ .leave m)
    (fun _ _ _ ⟨hsound, _, hnew⟩ hstay hstep =>
      ⟨hsound.step (stepped_of_step hstep), hnew.step hsound (stepped_of_step hstep) hstay⟩)
    ⟨hsound, [], claimedSince_self s⟩
    (along_of_forall (P := fun e => ∀ m, e ≠ Event.leave m)
      (fun e he m heq => hstay m (heq ▸ he)) s) hrun
  exact hinv.2

/-- **No transaction is lost.** In every run of members that take care, every transaction is sent
and stays on the connection of an attached member until it is confirmed, or is still to be sent; and
from any point on, while nobody leaves, it is sent by one member only. -/
theorem none_lost {s : Senders n} {es : List (Event n)}
    (halong : Along Senders.step Senders.Careful (Senders.start n) es)
    (hrun : run Senders.step (Senders.start n) es = some s) :
    s.NoneLost ∧ ∀ es' s', (∀ m, Event.leave m ∉ es') → Along Senders.step Senders.Careful s es' →
      run Senders.step s es' = some s' → s.SentOnce s' := by
  obtain ⟨hsound, hguarded⟩ := guarded_run (sound_start n) (guarded_start n) halong hrun
  refine ⟨hguarded.noneLost hsound, fun es' s' hstay halong' hrun' => ?_⟩
  obtain ⟨_, hclaimed⟩ := claimedSince_run hsound hstay hrun'
  exact (guarded_run hsound hguarded halong' hrun').2.sentOnce hclaimed

def sampleTxn (endLsn : UInt64) (commitTime : Int64) : Output.Txn where
  xid := 7
  finalLsn := endLsn - 1
  endLsn := endLsn
  commitTime := commitTime
  originId := 0
  originLsn := 0

def memberA : Fin 2 := (Fin.last 0).castSucc
def memberB : Fin 2 := Fin.last 1

/-- Both members leave, the one that has sent the transaction last, and it sends it again. -/
def carefulRun : List (Event 2) :=
  [.commit (sampleTxn 10 5), .join memberA, .join memberB, .begin memberA, .begin memberB,
    .finish memberB, .confirm memberB 1, .leave memberB, .leave memberA, .join memberA,
    .begin memberA, .finish memberA, .confirm memberA 1, .join memberB]

def stayingRun : List (Event 2) :=
  [.commit (sampleTxn 20 6), .begin memberB, .begin memberA, .finish memberA, .finish memberB,
    .confirm memberB 2]

theorem none_lost_sentAgain :
    ∃ s s', run Senders.step (Senders.start 2) carefulRun = some s ∧
      run Senders.step s stayingRun = some s' ∧ s.acked = [0] ∧ s'.acked = [0, 1] ∧ s.NoneLost ∧
      s.SentOnce s' := by
  have halong : Along Senders.step Senders.Careful (Senders.start 2) carefulRun :=
    .cons trivial rfl <| .cons (fun _ hi => absurd hi (Nat.not_lt_zero _)) rfl <|
    .cons (fun _ hi => absurd hi (Nat.not_lt_zero _)) rfl <| .cons trivial rfl <|
    .cons trivial rfl <| .cons trivial rfl <| .cons trivial rfl <| .cons (.inl rfl) rfl <|
    .cons (.inr rfl) rfl <| .cons (fun _ hi => absurd hi (Nat.not_lt_zero _)) rfl <|
    .cons trivial rfl <| .cons trivial rfl <| .cons trivial rfl <|
    .cons (fun _ hi => .inl (Nat.lt_one_iff.1 hi ▸ mem_singleton_self 0)) rfl <| trivial
  obtain ⟨hlost, honce⟩ := none_lost halong rfl
  refine ⟨_, _, rfl, rfl, rfl, rfl, hlost, honce stayingRun _ ?_ ?_ rfl⟩
  · intro m hm
    simp only [stayingRun, mem_cons, reduceCtorEq, not_mem_nil, or_self] at hm
  · exact .cons trivial rfl <| .cons trivial rfl <| .cons trivial rfl <| .cons trivial rfl <|
      .cons trivial rfl <| .cons trivial rfl trivial

/-! ## What care is for -/

structure Member.Past (i : Nat) (w : Member) : Prop where
  confirmed : i < w.confirmed
  next : w.attached = true → i < w.next
  unconfirmed : i ∉ w.unconfirmed

/-- All slots are past a transaction that nobody has confirmed. -/
structure Lost (s : Senders n) (i : Nat) : Prop where
  past : ∀ m, (s.member m).Past i
  acked : i ∉ s.acked

theorem Lost.step (h : Lost s i) (hstep : Stepped s e s') :
    Lost s' i ∧ (s'.sent.map (·.index)).count i = (s.sent.map (·.index)).count i := by
  cases hstep with
  | commit => exact ⟨{ h with }, rfl⟩
  | join m =>
    refine ⟨⟨forall_update h.past rfl ?_, h.acked⟩, rfl⟩
    exact ⟨(h.past m).confirmed, fun _ => (h.past m).confirmed, not_mem_nil⟩
  | skip m =>
    refine ⟨⟨forall_update h.past rfl ?_, h.acked⟩, rfl⟩
    exact { h.past m with }
  | claim m _ hm =>
    have hne : i ≠ (s.member m).next := ((h.past m).next hm).ne
    refine ⟨⟨forall_update h.past rfl { h.past m with unconfirmed := ?_ }, h.acked⟩, ?_⟩
    · rw [mem_append, mem_singleton, not_or]
      exact ⟨(h.past m).unconfirmed, hne⟩
    · show (List.map _ (s.sent ++ [_])).count i = _
      rw [map_append, count_append, map_singleton, count_singleton,
        if_neg (by simpa using hne.symm), Nat.add_zero]
  | finish m hm =>
    refine ⟨⟨forall_update h.past rfl ?_, h.acked⟩, rfl⟩
    exact { h.past m with next := fun hm => Nat.lt_succ_of_lt ((h.past m).next hm) }
  | confirm m _ _ hold =>
    refine ⟨⟨forall_update h.past rfl ?_, ?_⟩, rfl⟩
    · exact ⟨(h.past m).confirmed.trans_le hold, (h.past m).next,
        fun hi => (h.past m).unconfirmed (mem_of_mem_filter hi)⟩
    · show i ∉ s.acked ++ _
      rw [mem_append, not_or]
      exact ⟨h.acked, fun hi => (h.past m).unconfirmed (mem_of_mem_filter hi)⟩
  | leave m =>
    refine ⟨⟨forall_update h.past rfl ?_, h.acked⟩, rfl⟩
    exact ⟨(h.past m).confirmed, fun h => absurd h Bool.false_ne_true, not_mem_nil⟩

/-- **A transaction that all slots are past is lost for good.** It is neither sent nor confirmed in
any run from there. -/
theorem lost_for_good (h : Lost s i) (hrun : run Senders.step s es = some s') :
    i ∉ s'.acked ∧ (s'.sent.map (·.index)).count i = (s.sent.map (·.index)).count i := by
  have hinv := run_invariant
    (I := fun s' => Lost s' i ∧ (s'.sent.map (·.index)).count i = (s.sent.map (·.index)).count i)
    (fun _ _ _ ⟨h, hcount⟩ hstep =>
      ⟨(h.step (stepped_of_step hstep)).1, (h.step (stepped_of_step hstep)).2.trans hcount⟩)
    ⟨h, rfl⟩ hrun
  exact ⟨hinv.1.acked, hinv.2⟩

/-- A member leaves in the middle of the transaction it has claimed, and the other one stays. When
it comes back `last_lsn` is still there, and it skips the transaction as the other has. -/
def lostRun : List (Event 2) :=
  [.commit (sampleTxn 10 5), .join memberA, .join memberB, .begin memberA, .begin memberB,
    .finish memberB, .leave memberA, .join memberA, .begin memberA, .finish memberA,
    .confirm memberA 1, .confirm memberB 1]

/-- The transaction has been begun once, by the member that left, and is not sent in any run from
there. -/
theorem claimed_and_lost :
    ∃ s, run Senders.step (Senders.start 2) lostRun = some s ∧ s.acked = [] ∧
      s.wal.length = 1 ∧ ∀ es s', run Senders.step s es = some s' →
        0 ∉ s'.acked ∧ (s'.sent.map (·.index)).count 0 = 1 := by
  refine ⟨_, rfl, rfl, rfl, fun es s' hrun => lost_for_good ⟨fun m => ?_, not_mem_nil⟩ hrun⟩
  match m with
  | 0 => exact ⟨Nat.one_pos, fun _ => Nat.one_pos, not_mem_nil⟩
  | 1 => exact ⟨Nat.one_pos, fun _ => Nat.one_pos, not_mem_nil⟩

end Spock.Group
