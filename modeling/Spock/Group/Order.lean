import Mathlib.Data.List.Range
import Spock.Group.Delivery

/-!
# Spock — the commit order of a slot group

The transactions of a slot group are applied by several workers, one for each member. COMMIT-ORDER
tells a worker the commit timestamp of the transaction before its own, and
`wait_for_previous_transaction` sleeps until the progress of the apply group has exactly that
timestamp.

* **`commits_in_order`**, **`waits_for_another`** — what follows for whole runs.
-/

namespace Spock.Group

open Output Runs List Option Function

variable {n : Nat}

/-! ## The apply group -/

/-- `SpockApplyProgress`, as far as it has to do with the order of commits. -/
structure Progress where
  remoteCommitTs : Int64
  prevRemoteTs : Int64
  prev_le : prevRemoteTs ≤ remoteCommitTs
  deriving DecidableEq

/-- What `handle_commit` reports. -/
def Progress.of (commitTime : Int64) : Progress := ⟨commitTime, commitTime, Int64.le_refl _⟩

/-- `progress_update_struct`. -/
def Progress.update (dest src : Progress) : Progress :=
  if dest.remoteCommitTs < src.remoteCommitTs then src else dest

/-- `wait_for_previous_transaction` goes on sleeping. -/
def Progress.waits (progress : Progress) (requiredCommitTs : Int64) : Bool :=
  !(progress.prevRemoteTs == requiredCommitTs || requiredCommitTs == 0)

/-- The members of the group, which all stay, and a worker for each of them. -/
structure Workers (n : Nat) where
  senders : Senders n
  progress : Progress
  /-- How many transactions of its stream each worker has committed. -/
  applied : Fin n → Nat
  /-- The transactions that have been committed, in the order of the commits. -/
  committed : List Nat

/-- The slots are at the start of the WAL, and `progress` is that of the transactions before. -/
def Workers.start (n : Nat) (progress : Progress) : Workers n where
  senders := .start n
  progress := progress
  applied _ := 0
  committed := []

def Workers.startAt (position : Fin n → Nat) (progress : Progress) : Workers n :=
  { Workers.start n progress with senders := .startAt position }

def Workers.current (s : Workers n) (m : Fin n) : Option (Sent n) :=
  (s.senders.sent.filter (·.member = m))[s.applied m]?

/-- `handle_commit`, after the wait. -/
def Workers.commit (s : Workers n) (m : Fin n) (index : Nat) (txn : Output.Txn) : Workers n :=
  { s with
    progress := s.progress.update (.of txn.commitTime)
    applied := Function.update s.applied m (s.applied m + 1)
    committed := s.committed ++ [index] }

inductive Action (n : Nat) where
  | publisher (e : Event n)
  | commit (m : Fin n)

/-- The members stay. A worker commits what its walsender has sent to the end. -/
def Workers.step (s : Workers n) : Action n → Option (Workers n)
  | .publisher (.leave _) => none
  | .publisher e => (s.senders.step e).map fun senders => { s with senders := senders }
  | .commit m =>
    (s.current m).bind fun x =>
      if x.index < (s.senders.member m).next ∧ s.progress.waits x.commitOrder = false then
        (s.senders.wal[x.index]?).map (s.commit m x.index)
      else none

/-- A worker sleeps in `wait_for_previous_transaction`. -/
def Workers.Blocked (s : Workers n) (m : Fin n) (x : Sent n) : Prop :=
  s.current m = some x ∧ s.progress.waits x.commitOrder = true

def Workers.Increasing (s : Workers n) : Action n → Prop
  | .publisher (.commit txn) =>
    s.progress.remoteCommitTs < txn.commitTime ∧ ∀ t ∈ s.senders.wal, t.commitTime < txn.commitTime
  | _ => True

instance (s : Workers n) : ∀ a, Decidable (s.Increasing a)
  | .publisher (.commit _) => inferInstanceAs (Decidable (_ ∧ _))
  | .publisher (.join _) | .publisher (.begin _) | .publisher (.finish _)
  | .publisher (.confirm _ _) | .publisher (.leave _) | .commit _ => instDecidableTrue

inductive Worked (s : Workers n) : Action n → Workers n → Prop where
  | publisher (e : Event n) (senders : Senders n) (hstay : ∀ m, e ≠ .leave m)
      (hstep : Stepped s.senders e senders) : Worked s (.publisher e) { s with senders := senders }
  | commit (m : Fin n) (x : Sent n) (txn : Output.Txn) (hx : s.current m = some x)
      (hwait : s.progress.waits x.commitOrder = false) (htxn : s.senders.wal[x.index]? = some txn) :
      Worked s (.commit m) (s.commit m x.index txn)

variable {s' : Workers n} {s : Senders n} {x : Sent n} {m : Fin n} {txn : Output.Txn}

variable {a : Action n} {e : Event n} {t : Output.Txn}

theorem worked_of_step {s : Workers n} (h : s.step a = some s') : Worked s a s' := by
  cases a with
  | publisher e =>
    have hstay : ∀ m, e ≠ .leave m := by
      rintro m rfl
      exact absurd h nofun
    have hmap : (s.senders.step e).map (fun senders => { s with senders := senders }) = some s' := by
      cases e <;> first | exact h | exact absurd h nofun
    obtain ⟨senders, hstep, rfl⟩ := map_eq_some_iff.1 hmap
    exact .publisher e senders hstay (stepped_of_step hstep)
  | commit m =>
    obtain ⟨x, hx, h⟩ := bind_eq_some_iff.1 h
    obtain ⟨⟨-, hwait⟩, h⟩ := ite_none_right_eq_some.1 h
    obtain ⟨txn, htxn, rfl⟩ := map_eq_some_iff.1 h
    exact .commit m x txn hx hwait htxn

/-! ## Claims -/

def lastOf {α : Type} [OfNat α 0] (f : Output.Txn → α) (wal : List Output.Txn) : Nat → α
  | 0 => 0
  | i + 1 => ((wal[i]?).map f).getD 0

def predecessorTs (wal : List Output.Txn) (i : Nat) : Int64 := lastOf Output.Txn.commitTime wal i

section LastOf

variable {α : Type} [OfNat α 0] {f : Output.Txn → α} {wal : List Output.Txn}

variable {i : Nat}

theorem lastOf_succ {t : Output.Txn} (ht : wal[i]? = some t) : lastOf f wal (i + 1) = f t := by
  rw [lastOf, ht, map_some, getD_some]

theorem lastOf_append (hi : i ≤ wal.length) (wal' : List Output.Txn) :
    lastOf f (wal ++ wal') i = lastOf f wal i := by
  cases i with
  | zero => rfl
  | succ => rw [lastOf, lastOf, getElem?_append_left hi]

theorem lastOf_cases (hi : i ≤ wal.length) :
    i = 0 ∧ lastOf f wal i = 0 ∨ ∃ j t, i = j + 1 ∧ wal[j]? = some t ∧ lastOf f wal i = f t := by
  cases i with
  | zero => exact .inl ⟨rfl, rfl⟩
  | succ j =>
    have ht : wal[j]? = some wal[j] := getElem?_eq_getElem hi
    exact .inr ⟨j, wal[j], rfl, ht, lastOf_succ ht⟩

end LastOf

theorem pairwise_of_place_lt {α : Type} {r : α → α → Prop} {l : List α} (h : l.Pairwise r) {i j : Nat}
    {a b : α} (hi : l[i]? = some a) (hj : l[j]? = some b) (hij : i < j) : r a b := by
  obtain ⟨hil, rfl⟩ := List.getElem?_eq_some_iff.1 hi
  obtain ⟨hjl, rfl⟩ := List.getElem?_eq_some_iff.1 hj
  exact List.pairwise_iff_getElem.1 h i j hil hjl hij

/-- **The transactions are claimed one after the other.** The members have decoded no more than what
has been claimed, and the group has the values of the last that has been. -/
structure Sequenced (s : Senders n) : Prop where
  sound : Sound s
  increasing : s.wal.Pairwise fun t t' => t.commitTime < t'.commitTime
  positive : ∀ t ∈ s.wal, 0 < t.commitTime
  indexes : s.sent.map (·.index) = List.range s.sent.length
  bound : s.sent.length ≤ s.wal.length
  attached : s.nattached = 0 → s.sent = []
  lastLsn : s.slotGroup.lastLsn = lastOf Output.Txn.endLsn s.wal s.sent.length
  lastCommitTs : s.slotGroup.lastCommitTs = predecessorTs s.wal s.sent.length
  decoded : ∀ m, (s.member m).confirmed ≤ s.sent.length ∧ (s.member m).decoded ≤ s.sent.length
  commitOrder : ∀ x ∈ s.sent, x.commitOrder = predecessorTs s.wal x.index

theorem sequenced_start (n : Nat) : Sequenced (Senders.start n) where
  sound := sound_start n
  increasing := List.Pairwise.nil
  positive := nofun
  indexes := rfl
  bound := le_rfl
  attached _ := rfl
  lastLsn := rfl
  lastCommitTs := rfl
  decoded _ := ⟨le_rfl, le_rfl⟩
  commitOrder := nofun

section

variable (h : Sequenced s)

include h

theorem Sequenced.index_lt (hx : x ∈ s.sent) : x.index < s.sent.length := by
  have hmem : x.index ∈ s.sent.map (·.index) := mem_map_of_mem hx
  rwa [h.indexes, mem_range] at hmem

theorem Sequenced.index_eq {j : Nat} (hx : s.sent[j]? = some x) :
    x.index = j := by
  have hplace : (s.sent.map (·.index))[j]? = some x.index := by
    rw [getElem?_map, hx]
    rfl
  rw [h.indexes, List.getElem?_range (List.getElem?_eq_some_iff.1 hx).1] at hplace
  exact (Option.some.inj hplace).symm

theorem Sequenced.not_moved (htxn : s.wal[(s.member m).next]? = some txn)
    (htaken : txn.endLsn ≤ s.slotGroup.lastLsn) : ¬ s.slotGroup.lastCommitTs < txn.commitTime := by
  rw [h.lastLsn] at htaken
  rcases lastOf_cases (f := Output.Txn.endLsn) h.bound with ⟨-, hzero⟩ | ⟨j, t, hlength, ht, hlast⟩
  · rw [hzero] at htaken
    exact absurd htaken (UInt64.not_le.2 (h.sound.positive txn (mem_of_getElem? htxn)))
  · rw [hlast] at htaken
    have hle : (s.member m).next ≤ j := h.sound.ordered.place_le htxn ht htaken
    rw [h.lastCommitTs, predecessorTs, hlength, lastOf_succ ht]
    rcases hle.eq_or_lt with heq | hlt
    · rw [heq, ht, some.injEq] at htxn
      rw [htxn]
      exact Int64.lt_irrefl
    · have := pairwise_of_place_lt h.increasing htxn ht hlt
      grind

theorem Sequenced.next_eq (htxn : s.wal[(s.member m).next]? = some txn)
    (hfree : ¬ txn.endLsn ≤ s.slotGroup.lastLsn) : (s.member m).next = s.sent.length := by
  refine le_antisymm ((next_le_decoded _).trans (h.decoded m).2) ?_
  by_contra hlt
  rw [h.lastLsn] at hfree
  rcases lastOf_cases (f := Output.Txn.endLsn) h.bound with ⟨hzero, -⟩ | ⟨j, t, hlength, ht, hlast⟩
  · omega
  · refine hfree ?_
    rw [hlast]
    rcases (show (s.member m).next ≤ j by omega).eq_or_lt with heq | hjlt
    · rw [heq, ht, some.injEq] at htxn
      rw [htxn]
      exact UInt64.le_refl _
    · exact UInt64.le_of_lt (pairwise_of_place_lt h.sound.ordered htxn ht hjlt)

theorem Sequenced.moved (htxn : s.wal[s.sent.length]? = some txn) :
    s.slotGroup.lastCommitTs < txn.commitTime := by
  rw [h.lastCommitTs, predecessorTs]
  rcases lastOf_cases (f := Output.Txn.commitTime) h.bound with ⟨-, hzero⟩ | ⟨j, t, hlength, ht, hlast⟩
  · rw [hzero]
    exact h.positive txn (mem_of_getElem? htxn)
  · rw [hlast]
    exact pairwise_of_place_lt h.increasing ht htxn (by omega)

theorem Sequenced.of_sent {s' : Senders n} (hstep : Stepped s e s')
    (hsent : s'.sent = s.sent) (hwal : s'.wal = s.wal)
    (hattached : s'.nattached = 0 → s.nattached = 0)
    (hlsn : s'.slotGroup.lastLsn = s.slotGroup.lastLsn)
    (hts : s'.slotGroup.lastCommitTs = s.slotGroup.lastCommitTs)
    (hdecoded : ∀ m, (s'.member m).confirmed ≤ s.sent.length ∧ (s'.member m).decoded ≤ s.sent.length) :
    Sequenced s' where
  sound := h.sound.step hstep
  increasing := hwal ▸ h.increasing
  positive := hwal ▸ h.positive
  indexes := hsent ▸ h.indexes
  bound := hwal ▸ hsent ▸ h.bound
  attached hzero := hsent ▸ h.attached (hattached hzero)
  lastLsn := by rw [hlsn, hwal, hsent, h.lastLsn]
  lastCommitTs := by rw [hts, hwal, hsent, h.lastCommitTs]
  decoded := hsent ▸ hdecoded
  commitOrder := hsent ▸ hwal ▸ h.commitOrder

theorem Sequenced.commit
    (hstep : Stepped s (.commit txn) { s with wal := s.wal ++ [txn] }) (hpos : 0 < txn.commitTime)
    (hincreasing : ∀ t ∈ s.wal, t.commitTime < txn.commitTime) :
    Sequenced { s with wal := s.wal ++ [txn] } where
  __ := h
  sound := h.sound.step hstep
  increasing := by
    refine pairwise_append.2 ⟨h.increasing, pairwise_singleton _ _, fun t ht t' ht' => ?_⟩
    rw [mem_singleton.1 ht']
    exact hincreasing t ht
  positive t ht := by
    rcases mem_append.1 ht with ht | ht
    · exact h.positive t ht
    · rwa [mem_singleton.1 ht]
  bound := h.bound.trans (by rw [length_append]; omega)
  lastLsn := h.lastLsn.trans (lastOf_append h.bound _).symm
  lastCommitTs := h.lastCommitTs.trans (lastOf_append h.bound _).symm
  commitOrder x hx :=
    (h.commitOrder x hx).trans (lastOf_append ((h.index_lt hx).le.trans h.bound) _).symm

theorem Sequenced.claim (hstep : Stepped s (.begin m) (s.claimed m txn))
    (hm : (s.member m).attached = true) (htxn : s.wal[(s.member m).next]? = some txn)
    (hfree : ¬ txn.endLsn ≤ s.slotGroup.lastLsn) : Sequenced (s.claimed m txn) := by
  have hnext : (s.member m).next = s.sent.length := h.next_eq htxn hfree
  have hlt : s.slotGroup.lastCommitTs < txn.commitTime := h.moved (hnext ▸ htxn)
  have hlength : (s.claimed m txn).sent.length = s.sent.length + 1 := length_append
  -- the timestamp of the group is that of the predecessor, and moves on to the one of the claim
  have horder : (begun s.slotGroup (s.member m).lastCommitTs txn).commitOrder =
      predecessorTs s.wal s.sent.length := by
    rw [← h.lastCommitTs]
    simp only [begun, hlt, if_true]
  have hsent : (s.claimed m txn).sent =
      s.sent ++ [⟨m, s.sent.length, predecessorTs s.wal s.sent.length⟩] := by
    rw [Senders.claimed, horder, hnext]
  refine ⟨h.sound.step hstep, h.increasing, h.positive, ?_, ?_, ?_, ?_, ?_, ?_, ?_⟩
  · rw [hlength, hsent, map_append, h.indexes, range_succ]
    rfl
  · rw [hlength]
    exact hnext ▸ (List.getElem?_eq_some_iff.1 htxn).1
  · intro hzero
    exact absurd hzero (h.sound.nattached_pos hm).ne'
  · rw [hlength]
    exact (lastOf_succ (f := Output.Txn.endLsn) (hnext ▸ htxn)).symm
  · rw [hlength]
    show _ = lastOf Output.Txn.commitTime s.wal _
    rw [lastOf_succ (hnext ▸ htxn)]
    simp only [Senders.claimed, begun, hlt, if_true]
  · rw [hlength]
    refine forall_update
      (P := fun w : Member => w.confirmed ≤ s.sent.length + 1 ∧ w.decoded ≤ s.sent.length + 1)
      (fun m => ⟨Nat.le_succ_of_le (h.decoded m).1, Nat.le_succ_of_le (h.decoded m).2⟩) rfl ?_
    exact ⟨Nat.le_succ_of_le (h.decoded m).1, hnext ▸ le_rfl⟩
  · intro x hx
    rw [hsent] at hx
    rcases mem_append.1 hx with hx | hx
    · exact h.commitOrder x hx
    · rw [mem_singleton.1 hx]
      rfl

theorem Sequenced.step {s' : Senders n} (hstep : Stepped s e s') (hstay : ∀ m, e ≠ .leave m)
    (hincreasing : ∀ txn, e = .commit txn → ∀ t ∈ s.wal, t.commitTime < txn.commitTime) :
    Sequenced s' := by
  have hstep' := hstep
  have hmember : ∀ {m : Fin n} {w : Member}, s'.member = update s.member m w →
      w.confirmed ≤ s.sent.length → w.decoded ≤ s.sent.length →
      ∀ m, (s'.member m).confirmed ≤ s.sent.length ∧ (s'.member m).decoded ≤ s.sent.length :=
    fun hmember hconf hdecoded => forall_update
      (P := fun w : Member => w.confirmed ≤ s.sent.length ∧ w.decoded ≤ s.sent.length)
      h.decoded hmember ⟨hconf, hdecoded⟩
  cases hstep with
  | commit txn _ _ hts => exact h.commit hstep' hts (hincreasing txn rfl)
  | join m =>
    have hdecoded := hmember rfl (h.decoded m).1 (h.decoded m).1
    by_cases hzero : s.nattached = 0
    · -- nothing has been claimed, so there is nothing to reset
      have hnil := h.attached hzero
      have hlsn := h.lastLsn
      have hts := h.lastCommitTs
      rw [hnil] at hlsn hts
      refine h.of_sent hstep' rfl rfl (fun _ => hzero) ?_ ?_ hdecoded
      · rw [hlsn]
        simp only [Senders.join, hzero, if_true]
        rfl
      · rw [hts]
        simp only [Senders.join, hzero, if_true]
        rfl
    · refine h.of_sent hstep' rfl rfl (fun hjoin => ?_) ?_ ?_ hdecoded
      · simp only [Senders.join, hzero, if_false, Nat.succ_ne_zero] at hjoin
      · simp only [Senders.join, hzero, if_false]
      · simp only [Senders.join, hzero, if_false]
  | skip m _ _ _ htxn htaken =>
    have hmoved := h.not_moved htxn htaken
    refine h.of_sent hstep' rfl rfl id rfl ?_ (hmember rfl (h.decoded m).1 ?_)
    · simp only [Senders.skipped, begun, hmoved, if_false]
    · -- it has been claimed, so the member stays behind
      by_contra hle
      have hnext : (s.member m).next = s.sent.length :=
        le_antisymm ((next_le_decoded _).trans (h.decoded m).2) (Nat.le_of_lt_succ (Nat.lt_of_not_le hle))
      exact hmoved (h.moved (hnext ▸ htxn))
  | claim _ _ hm _ htxn hfree => exact h.claim hstep' hm htxn hfree
  | finish m _ hin =>
    refine h.of_sent hstep' rfl rfl id rfl rfl (hmember rfl (h.decoded m).1 ?_)
    have hdecoded := (h.decoded m).2
    simpa only [Member.decoded, hin, if_true, Bool.false_eq_true, if_false] using hdecoded
  | confirm m _ _ _ hpos =>
    exact h.of_sent hstep' rfl rfl id rfl rfl
      (hmember rfl (hpos.trans ((next_le_decoded _).trans (h.decoded m).2)) (h.decoded m).2)
  | leave m => exact absurd rfl (hstay m)

end

/-! ## Commits -/

/-- **The transactions are committed one after the other.** The progress is that of the last one,
and the others are all after it. -/
structure InOrder (s : Workers n) : Prop where
  sequenced : Sequenced s.senders
  committed : s.committed = List.range s.committed.length
  bound : s.committed.length ≤ s.senders.sent.length
  applied : ∀ m, s.applied m =
    ((s.senders.sent.take s.committed.length).filter (·.member = m)).length
  later : ∀ i t, s.committed.length ≤ i → s.senders.wal[i]? = some t →
    s.progress.remoteCommitTs < t.commitTime
  last : ∀ i t, i + 1 = s.committed.length → s.senders.wal[i]? = some t →
    s.progress.prevRemoteTs = t.commitTime

theorem inOrder_start (n : Nat) (progress : Progress) : InOrder (Workers.start n progress) where
  sequenced := sequenced_start n
  committed := rfl
  bound := le_rfl
  applied _ := rfl
  later _ _ _ h := absurd h nofun
  last _ _ _ h := absurd h nofun

theorem InOrder.current_split {s : Workers n} (h : InOrder s) (hx : s.current m = some x) :
    ∃ before after, s.senders.sent = s.senders.sent.take s.committed.length ++ before ++ x :: after ∧
      x.member = m ∧ (∀ y ∈ before, y.member ≠ m) ∧
      x.index = s.committed.length + before.length := by
  have hfind : (s.senders.sent.drop s.committed.length).find? (·.member = m) = some x := by
    rw [← head?_filter, ← hx, Workers.current, h.applied]
    conv_rhs => rw [← take_append_drop s.committed.length s.senders.sent, filter_append]
    rw [take_append_drop, getElem?_append_right le_rfl, Nat.sub_self, head?_eq_getElem?]
  obtain ⟨hm, before, after, hdrop, hbefore⟩ := find?_eq_some_iff_append.1 hfind
  have hsent : s.senders.sent = s.senders.sent.take s.committed.length ++ before ++ x :: after := by
    rw [append_assoc, ← hdrop, take_append_drop]
  refine ⟨before, after, hsent, of_decide_eq_true hm, fun y hy => by simpa using hbefore y hy, ?_⟩
  refine h.sequenced.index_eq ?_
  rw [hsent, getElem?_append_right] <;>
    simp only [length_append, length_take, Nat.min_eq_left h.bound, Nat.sub_self,
      getElem?_cons_zero, le_rfl]

/-- **A worker that does not wait is at the next transaction to commit.** -/
theorem InOrder.index_eq {s : Workers n} (h : InOrder s) (hx : s.current m = some x)
    (hwait : s.progress.waits x.commitOrder = false) : x.index = s.committed.length := by
  obtain ⟨_, _, hsent, _⟩ := h.current_split hx
  have hmem : x ∈ s.senders.sent := by
    rw [hsent]
    exact mem_append_right _ (mem_cons_self ..)
  have hbound : x.index ≤ s.senders.wal.length :=
    (h.sequenced.index_lt hmem).le.trans h.sequenced.bound
  have horder := h.sequenced.commitOrder x hmem
  rw [predecessorTs] at horder
  rcases lastOf_cases (f := Output.Txn.commitTime) hbound with ⟨hzero, -⟩ | ⟨j, t, hj, ht, hlast⟩
  · omega
  · -- the predecessor has a timestamp, and it is that of the progress
    have hpos := h.sequenced.positive t (mem_of_getElem? ht)
    have hprev : s.progress.prevRemoteTs = t.commitTime := by
      simp only [Progress.waits, horder, hlast, Bool.not_eq_false', Bool.or_eq_true,
        beq_iff_eq] at hwait
      rcases hwait with hwait | hwait
      · exact hwait
      · rw [hwait] at hpos
        exact absurd hpos Int64.lt_irrefl
    -- so it is not among those still to commit
    have hlt : ¬ s.committed.length ≤ j := by
      intro hle
      have hlater := h.later j t hle ht
      have hle := s.progress.prev_le
      rw [hprev] at hle
      grind
    omega

theorem InOrder.commit {s : Workers n} (h : InOrder s) (hx : s.current m = some x)
    (hwait : s.progress.waits x.commitOrder = false) (htxn : s.senders.wal[x.index]? = some txn) :
    InOrder (s.commit m x.index txn) := by
  have hindex := h.index_eq hx hwait
  obtain ⟨before, _, hsent, hm, _⟩ := h.current_split hx
  have hnil : before = [] := eq_nil_of_length_eq_zero (by omega)
  subst hnil
  rw [append_nil] at hsent
  have hlength : (s.commit m x.index txn).committed.length = s.committed.length + 1 :=
    length_append
  have htake : s.senders.sent.take (s.committed.length + 1) =
      s.senders.sent.take s.committed.length ++ [x] := by
    conv_lhs => rw [hsent]
    rw [take_append, length_take, Nat.min_eq_left h.bound, take_take,
      Nat.min_eq_right (Nat.le_succ _), Nat.add_sub_cancel_left]
    rfl
  have hprogress : (s.commit m x.index txn).progress = .of txn.commitTime := by
    show s.progress.update _ = _
    rw [Progress.update, if_pos]
    exact h.later x.index txn hindex.ge htxn
  refine ⟨h.sequenced, ?_, ?_, ?_, ?_, ?_⟩
  · rw [hlength, range_succ, ← h.committed, ← hindex]
    rfl
  · rw [hlength]
    have := congrArg List.length hsent
    rw [length_append, length_take, Nat.min_eq_left h.bound, length_cons] at this
    show _ ≤ s.senders.sent.length
    omega
  · intro m'
    rw [hlength]
    show update s.applied m (s.applied m + 1) m' =
      ((s.senders.sent.take (s.committed.length + 1)).filter (·.member = m')).length
    rw [htake, filter_append, length_append, ← h.applied]
    by_cases hne : m' = m
    · subst hne
      rw [update_self, filter_cons_of_pos (by simpa using hm)]
      rfl
    · rw [update_of_ne hne, filter_cons_of_neg (by simpa [hm] using Ne.symm hne)]
      rfl
  · intro i t hi ht
    rw [hlength] at hi
    rw [hprogress]
    exact pairwise_of_place_lt h.sequenced.increasing htxn ht (by omega)
  · intro i t hi ht
    rw [hlength] at hi
    have heq : i = x.index := by omega
    subst heq
    rw [hprogress, some.inj (ht.symm.trans htxn)]
    rfl

theorem sent_append_of_step {s' : Senders n} (hstep : Stepped s e s') :
    ∃ new, s'.sent = s.sent ++ new := by
  cases hstep with
  | claim => exact ⟨_, rfl⟩
  | _ => exact ⟨[], (append_nil _).symm⟩

theorem InOrder.publisher {s : Workers n} (h : InOrder s) {senders : Senders n}
    (hstay : ∀ m, e ≠ .leave m) (hstep : Stepped s.senders e senders)
    (hincreasing : s.Increasing (.publisher e)) : InOrder { s with senders := senders } := by
  have hsequenced : Sequenced senders := by
    refine h.sequenced.step hstep hstay ?_
    rintro txn rfl
    exact hincreasing.2
  obtain ⟨_, hsent⟩ := sent_append_of_step hstep
  have hwal : ∀ i t, senders.wal[i]? = some t → s.senders.wal[i]? = some t ∨
      i = s.senders.wal.length ∧ s.progress.remoteCommitTs < t.commitTime := by
    intro i t ht
    cases hstep with
    | commit txn =>
      rcases lt_or_ge i s.senders.wal.length with hlt | hge
      · rw [getElem?_append_left hlt] at ht
        exact .inl ht
      · have hlt : i < (s.senders.wal ++ [txn]).length := (List.getElem?_eq_some_iff.1 ht).1
        rw [List.length_append, List.length_singleton] at hlt
        rw [List.getElem?_append_right hge] at ht
        rw [mem_singleton.1 (mem_of_getElem? ht)]
        exact .inr ⟨by omega, hincreasing.1⟩
    | _ => exact .inl ht
  refine ⟨hsequenced, h.committed, ?_, fun m => ?_, fun i t hi ht => ?_, fun i t hi ht => ?_⟩
  · show _ ≤ senders.sent.length
    rw [hsent, length_append]
    exact h.bound.trans (Nat.le_add_right _ _)
  · show s.applied m = ((senders.sent.take s.committed.length).filter (·.member = m)).length
    rw [hsent, take_append_of_le_length h.bound]
    exact h.applied m
  · rcases hwal i t ht with ht | ⟨-, hlt⟩
    · exact h.later i t hi ht
    · exact hlt
  · rcases hwal i t ht with ht | ⟨heq, -⟩
    · exact h.last i t hi ht
    · have hi : i + 1 = s.committed.length := hi
      have := h.bound
      have := h.sequenced.bound
      omega

theorem InOrder.step {s : Workers n} (h : InOrder s) (hincreasing : s.Increasing a)
    (hstep : s.step a = some s') : InOrder s' := by
  cases worked_of_step hstep with
  | publisher _ _ hstay hsender => exact h.publisher hstay hsender hincreasing
  | commit _ _ _ hx hwait htxn => exact h.commit hx hwait htxn

theorem inOrder_run {s : Workers n} {as : List (Action n)} (h : InOrder s)
    (halong : Along Workers.step Workers.Increasing s as) (hrun : run Workers.step s as = some s') :
    InOrder s' :=
  run_invariant_along (fun _ _ _ h hincreasing hstep => h.step hincreasing hstep) h halong hrun

/-- **Transactions are committed in the order of the publisher.** With slots at one position and
timestamps that go up, each is sent with the timestamp of the one before it, and the workers commit
them one after the other. -/
theorem commits_in_order {position : Fin n → Nat} {progress : Progress} {s : Workers n}
    {as : List (Action n)} (hposition : ∀ m, position m = 0)
    (halong : Along Workers.step Workers.Increasing (Workers.startAt position progress) as)
    (hrun : run Workers.step (Workers.startAt position progress) as = some s) :
    (∀ x ∈ s.senders.sent, x.commitOrder = predecessorTs s.senders.wal x.index) ∧
      s.senders.sent.map (·.index) = List.range s.senders.sent.length ∧
      s.committed = List.range s.committed.length := by
  obtain rfl : position = fun _ => 0 := funext hposition
  have h := inOrder_run (inOrder_start n progress) halong hrun
  exact ⟨h.sequenced.commitOrder, h.sequenced.indexes, h.committed⟩

/-- Two transactions, the second of which is sent by the other member. -/
def twoSent : List (Action 2) :=
  [.join memberA, .join memberB, .commit (sampleTxn 10 10), .commit (sampleTxn 20 20),
    .begin memberA, .begin memberB, .finish memberB, .begin memberB, .finish memberB,
    .finish memberA].map .publisher

theorem commits_in_order_twoSent :
    ∃ s, run Workers.step (Workers.startAt (fun _ : Fin 2 => 0) (.of 0))
        (twoSent ++ [.commit 0, .commit 1]) = some s ∧
      s.committed = [0, 1] ∧ s.senders.sent.map (·.commitOrder) = [0, 10] ∧
      s.committed = List.range s.committed.length := by
  have halong : Along Workers.step Workers.Increasing (Workers.startAt (fun _ : Fin 2 => 0) (.of 0))
      (twoSent ++ [.commit 0, .commit 1]) := by decide
  exact ⟨_, rfl, rfl, rfl, (commits_in_order (fun _ => rfl) halong rfl).2.2⟩

/-- The slot of the second member is past two transactions that the first one has yet to decode, and
the second member is at the third before the first member is at the second. -/
def slotAhead : Fin 2 → Nat := fun m => if m = memberA then 0 else 2

def overtaken : List (Action 2) := flatten
  [map .publisher [.join memberA, .join memberB, .commit (sampleTxn 10 10),
      .commit (sampleTxn 20 20), .commit (sampleTxn 30 30), .begin memberA, .finish memberA,
      .begin memberB, .finish memberB, .begin memberA, .finish memberA],
    [.commit memberA, .commit memberB]]

/-- **A transaction that is passed over.** The third one is sent with the timestamp of the first, and
committed after it; the second one is taken for one that another member works on. -/
theorem commits_out_of_order :
    Along Workers.step Workers.Increasing (Workers.startAt slotAhead (.of 0)) overtaken ∧
      ∃ s, run Workers.step (Workers.startAt slotAhead (.of 0)) overtaken = some s ∧
        s.senders.sent = [⟨memberA, 0, 0⟩, ⟨memberB, 2, 10⟩] ∧
        predecessorTs s.senders.wal 2 = 20 ∧ (s.senders.member memberA).next = 2 ∧
        s.committed = [0, 2] :=
  ⟨by decide, _, rfl, rfl, rfl, rfl, rfl⟩

/-! ## What a worker waits for -/

/-- The transaction of `y` will have the progress that `x` waits for: whenever it is committed, the
timestamp of the progress is the one required. -/
def Workers.Releases (s : Workers n) (y x : Sent n) : Prop :=
  ∀ as s₁ s₂, Along Workers.step Workers.Increasing s as → run Workers.step s as = some s₁ →
    s₁.step (.commit y.member) = some s₂ → s₂.committed = s₁.committed ++ [y.index] →
    s₂.progress.prevRemoteTs = x.commitOrder

theorem wal_getElem_of_step {s : Workers n} (hstep : s.step a = some s') {i : Nat}
    (ht : s.senders.wal[i]? = some t) : s'.senders.wal[i]? = some t := by
  cases worked_of_step hstep with
  | publisher _ _ _ hsender =>
    cases hsender with
    | commit => exact (List.getElem?_append_left (List.getElem?_eq_some_iff.1 ht).1).trans ht
    | _ => exact ht
  | commit => exact ht

theorem InOrder.releases {s : Workers n} (h : InOrder s) {y : Sent n}
    (ht : s.senders.wal[y.index]? = some t) (hx : x.commitOrder = t.commitTime) :
    s.Releases y x := by
  intro as s₁ s₂ halong hrun hstep hcommitted
  have h₁ := inOrder_run h halong hrun
  have h₂ : InOrder s₂ := h₁.step (a := .commit y.member) trivial hstep
  have ht₁ : s₁.senders.wal[y.index]? = some t :=
    run_invariant (I := fun s => s.senders.wal[y.index]? = some t)
      (fun _ _ _ ht hstep => wal_getElem_of_step hstep ht) ht hrun
  -- it is the last that has been committed
  have hlast : y.index + 1 = s₂.committed.length := by
    have hplace : s₂.committed[s₁.committed.length]? = some y.index := by
      rw [hcommitted, getElem?_append_right le_rfl, Nat.sub_self]
      rfl
    have hlength : s₂.committed.length = s₁.committed.length + 1 := by
      rw [hcommitted, length_append]
      rfl
    rw [h₂.committed, getElem?_range (by omega)] at hplace
    rw [hlength, some.inj hplace]
  rw [hx]
  exact h₂.last y.index t hlast (wal_getElem_of_step hstep ht₁)

/-- **A worker waits for another.** With timestamps that go up, a worker that is blocked waits for
an earlier transaction that another worker has still to commit, and that releases it. -/
theorem waits_for_another {progress : Progress} {s : Workers n} {as : List (Action n)}
    (halong : Along Workers.step Workers.Increasing (Workers.start n progress) as)
    (hrun : run Workers.step (Workers.start n progress) as = some s) (m : Fin n) (x : Sent n)
    (hblocked : s.Blocked m x) :
    ∃ y ∈ s.senders.sent, y.index < x.index ∧ y.member ≠ m ∧ y.index ∉ s.committed ∧
      s.Releases y x := by
  have h := inOrder_run (inOrder_start n progress) halong hrun
  obtain ⟨hx, hwait⟩ := hblocked
  obtain ⟨before, _, hsent, -, hbefore, _⟩ := h.current_split hx
  have hmem : x ∈ s.senders.sent := by
    rw [hsent]
    exact mem_append_right _ (mem_cons_self ..)
  have hbound : x.index ≤ s.senders.wal.length :=
    (h.sequenced.index_lt hmem).le.trans h.sequenced.bound
  have horder := h.sequenced.commitOrder x hmem
  rw [predecessorTs] at horder
  simp only [Progress.waits, Bool.not_eq_true', Bool.or_eq_false_iff, beq_eq_false_iff_ne] at hwait
  obtain ⟨hprev, hzero⟩ := hwait
  -- a timestamp is required, so there is a predecessor
  rcases lastOf_cases (f := Output.Txn.commitTime) hbound with ⟨-, hnone⟩ | ⟨j, t, hj, ht, hlast⟩
  · exact absurd (horder.trans hnone) hzero
  · have hopen : s.committed.length ≤ j := by
      by_contra hlt
      exact hprev ((h.last j t (by omega) ht).trans (horder.trans hlast).symm)
    -- and the claim before that of `x` is not one of its own worker
    have hjlt : j < s.senders.sent.length := by
      have := h.sequenced.index_lt hmem
      omega
    obtain ⟨y, hy⟩ : ∃ y, s.senders.sent[j]? = some y := ⟨_, getElem?_eq_getElem hjlt⟩
    have hyindex : y.index = j := h.sequenced.index_eq hy
    have hybefore : y ∈ before := by
      have hplace := hy
      rw [hsent, append_assoc, getElem?_append_right, getElem?_append_left] at hplace
      · exact mem_of_getElem? hplace
      · rw [length_take, Nat.min_eq_left h.bound]
        omega
      · rw [length_take, Nat.min_eq_left h.bound]
        exact hopen
    refine ⟨y, mem_of_getElem? hy, by omega, hbefore y hybefore, ?_, ?_⟩
    · rw [hyindex, h.committed, mem_range]
      omega
    · exact h.releases (t := t) (hyindex.symm ▸ ht) (horder.trans hlast)

theorem waits_for_another_twoSent :
    ∃ s x, run Workers.step (Workers.start 2 (.of 0)) twoSent = some s ∧ s.Blocked 1 x ∧
      ∃ y ∈ s.senders.sent, y.index < x.index ∧ y.member ≠ 1 ∧ y.index ∉ s.committed ∧
        s.Releases y x := by
  have halong : Along Workers.step Workers.Increasing (Workers.start 2 (.of 0)) twoSent := by decide
  exact ⟨_, ⟨1, 1, 10⟩, rfl, ⟨rfl, rfl⟩, waits_for_another halong rfl 1 _ ⟨rfl, rfl⟩⟩

/-- The third transaction has an earlier timestamp than the second, and goes with a commit order of
0, the last value that its member has had. -/
def backwards : List (Action 2) := flatten
  [map .publisher [.join memberA, .join memberB, .commit (sampleTxn 10 10),
      .commit (sampleTxn 20 20), .commit (sampleTxn 30 15), .begin memberA, .finish memberA,
      .begin memberB, .finish memberB, .begin memberB, .finish memberB, .begin memberA,
      .finish memberA, .begin memberA, .finish memberA],
    [.commit memberA, .commit memberA]]

/-- **A wait that does not end.** All earlier transactions have been committed. -/
theorem waits_for_none :
    ∃ s x, run Workers.step (Workers.start 2 (.of 0)) backwards = some s ∧ s.Blocked 1 x ∧
      s.committed = [0, 2] ∧ x.index = 1 ∧ ∀ y ∈ s.senders.sent, y.index < x.index →
        y.index ∈ s.committed :=
  ⟨_, ⟨1, 1, 10⟩, rfl, ⟨rfl, rfl⟩, rfl, rfl, by decide⟩

end Spock.Group
