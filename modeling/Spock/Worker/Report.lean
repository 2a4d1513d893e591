import Mathlib.Data.List.Pairwise
import Spock.Worker.Origin

/-!
# Spock — what a status message may report

The publisher removes WAL before the flush position of a status message, so a report must not
reach the end of a transaction that a crash of the subscriber could still undo. `lsn_mapping`
keeps the commits that the local WAL has not flushed, and a report stays below them. When nothing
is outstanding the report is the position last received.

Two reports escape this. The first message of a process takes the origin's position, which a
commit moves before it is flushed. And the position last received includes the COMMIT of a
transaction whose local commit failed; the feedback after the inner loop sends it when the loop
was left in the middle of the replay (`spock.readonly`, SIGTERM).

* **`reportInv_step`**, **`reports_flushed`** — every report of every run that avoids the two.
-/

namespace Spock

open Outcome List Option

variable {pub : Publisher} {sub : Subscription} {n n' : Node}

def Flushed (n : Node) (t : RemoteTxn) : Prop :=
  t.isEmpty = true ∨ ∃ c ∈ n.commits, c.settles t.commitLsn = true ∧ c.localEnd ≤ n.walFlush
  deriving Decidable

/-- A report of `lsn` reaches flushed transactions only. -/
def Reportable (pub : Publisher) (n : Node) (lsn : Nat) : Prop :=
  ∀ t ∈ pub.history, t.endLsn ≤ lsn → Flushed n t

/-- Every transaction that ends at or before `lsn` is settled. -/
def SettledUpTo (pub : Publisher) (commits : List LocalCommit) (lsn : Nat) : Prop :=
  ∀ t ∈ pub.history, t.endLsn ≤ lsn → Settled commits t

variable {l : List LocalCommit} {t : RemoteTxn} {pre done : List WalMessage} {m : WalMessage}
  {o : EntryOutcome}

variable {lsn recvpos : Nat} {l' : List LocalCommit} {c : LocalCommit} {u : RemoteTxn} {x : Handler}

theorem Covered.settledUpTo (h : Covered pub l lsn) :
    SettledUpTo pub l lsn := fun t ht hle => h t ht (by have := t.commitLsn_lt; omega)

/-- An entry of the mapping belongs to a transaction of the history that is settled like all
before it, and stands for the local commit that settled it. -/
def Mapped (pub : Publisher) (commits : List LocalCommit) (p : SPKFlushPosition) : Prop :=
  ∃ u ∈ pub.history, p.remoteEnd = u.endLsn ∧ SettledUpTo pub commits u.endLsn ∧
    ∃ c ∈ commits, c.settles u.commitLsn = true ∧ c.localEnd = p.localEnd

/-- What the mapping and the positions say about the local log. -/
structure ReportInv (pub : Publisher) (n : Node) : Prop where
  reported : Reportable pub n n.fb.lastFlushpos
  received : SettledUpTo pub n.commits n.fb.lastRecvpos
  tracked : ∀ c ∈ n.commits, ∀ t ∈ pub.history, c.settles t.commitLsn = true →
    c.localEnd ≤ n.walFlush ∨
      ∃ p ∈ n.fb.lsnMapping, p.localEnd = c.localEnd ∧ p.remoteEnd = t.endLsn
  mapped : ∀ p ∈ n.fb.lsnMapping, Mapped pub n.commits p
  sorted : n.fb.lsnMapping.Pairwise fun p q => p.remoteEnd ≤ q.remoteEnd
  behindCur : ∀ p ∈ n.fb.lsnMapping, ∀ t, n.cur = some t → p.remoteEnd ≤ t.endLsn
  behindLater : ∀ p ∈ n.fb.lsnMapping, ∀ t ∈ n.later, p.remoteEnd ≤ t.commitLsn
  unsent : ∀ t ∈ n.unsent, n.lastReceived ≤ t.commitLsn
  queued : ∀ m ∈ n.queue, m.startLsn ≤ n.lastReceived ∧ m.endLsn ≤ n.lastReceived

/-! ## Growing logs -/

theorem Flushed.mono (h : Flushed n t) (hcommits : n.commits <+: n'.commits)
    (hflush : n.walFlush ≤ n'.walFlush) : Flushed n' t :=
  h.imp_right fun ⟨c, hc, hs, hle⟩ => ⟨c, hcommits.subset hc, hs, hle.trans hflush⟩

theorem SettledUpTo.mono (h : SettledUpTo pub l lsn) (hl : l <+: l') :
    SettledUpTo pub l' lsn := fun t ht hle => (h t ht hle).mono hl

theorem Mapped.mono {p : SPKFlushPosition} (h : Mapped pub l p) (hl : l <+: l') :
    Mapped pub l' p := by
  obtain ⟨u, hu, hend, hsettled, c, hc, hs, hlocal⟩ := h
  exact ⟨u, hu, hend, hsettled.mono hl, c, hl.subset hc, hs, hlocal⟩

/-- The log has grown by commits that end no remote transaction, and the rest is the same, up to
a reset of the queue. -/
structure ReportKept (n n' : Node) : Prop where
  walFlush : n.walFlush ≤ n'.walFlush
  commits : ∃ l, n'.commits = n.commits ++ l ∧ ∀ c ∈ l, c.ended = none
  fb : n'.fb = n.fb
  cur : n'.cur = n.cur
  todo : n'.todo = n.todo
  later : n'.later = n.later
  lastReceived : n'.lastReceived = n.lastReceived
  queue : n'.queue = n.queue ∨ n'.queue = []

theorem ReportKept.refl (n : Node) : ReportKept n n :=
  ⟨Nat.le_refl _, ⟨[], by simp⟩, rfl, rfl, rfl, rfl, rfl, .inl rfl⟩

theorem ReportKept.trans {n₁ n₂ n₃ : Node} (h : ReportKept n₁ n₂) (h' : ReportKept n₂ n₃) :
    ReportKept n₁ n₃ := by
  obtain ⟨l, hl, hnone⟩ := h.commits
  obtain ⟨l', hl', hnone'⟩ := h'.commits
  refine ⟨h.walFlush.trans h'.walFlush, ⟨l ++ l', by rw [hl', hl, append_assoc], ?_⟩,
    h'.fb.trans h.fb, h'.cur.trans h.cur, h'.todo.trans h.todo, h'.later.trans h.later,
    h'.lastReceived.trans h.lastReceived, h'.queue.elim (fun e => e ▸ h.queue) .inr⟩
  intro c hc
  rcases mem_append.mp hc with hc | hc
  · exact hnone c hc
  · exact hnone' c hc

theorem ReportKept.quiet (hflush : n'.walFlush = n.walFlush := by rfl)
    (hcommits : n'.commits = n.commits := by rfl)
    (hfb : n'.fb = n.fb := by rfl) (hcur : n'.cur = n.cur := by rfl) (htodo : n'.todo = n.todo := by rfl)
    (hlater : n'.later = n.later := by rfl) (hlast : n'.lastReceived = n.lastReceived := by rfl)
    (hqueue : n'.queue = n.queue := by rfl) : ReportKept n n' :=
  ⟨hflush.ge, ⟨[], by simp [hcommits]⟩, hfb, hcur, htodo, hlater, hlast, .inl hqueue⟩

instance : IsPreorder Node ReportKept where
  refl := ReportKept.refl
  trans _ _ _ := ReportKept.trans

theorem settles_of_ended_none (h : c.ended = none) (lsn : Nat) :
    c.settles lsn = false := by rw [LocalCommit.settles, h]; rfl

theorem ReportInv.kept (h : ReportInv pub n) (hk : ReportKept n n') : ReportInv pub n' := by
  obtain ⟨l, hl, hnone⟩ := hk.commits
  have hpre : n.commits <+: n'.commits := hl ▸ prefix_append _ _
  refine ⟨?_, ?_, ?_, ?_, ?_, ?_, ?_, ?_, ?_⟩
  · rw [hk.fb]
    exact fun t ht hle => (h.reported t ht hle).mono hpre hk.walFlush
  · rw [hk.fb]
    exact h.received.mono hpre
  · intro c hc t ht hs
    rw [hk.fb]
    rw [hl] at hc
    rcases mem_append.mp hc with hc | hc
    · exact (h.tracked c hc t ht hs).imp_left fun hle => hle.trans hk.walFlush
    · rw [settles_of_ended_none (hnone c hc)] at hs
      cases hs
  · rw [hk.fb]
    exact fun p hp => (h.mapped p hp).mono hpre
  · rw [hk.fb]
    exact h.sorted
  · rw [hk.fb, hk.cur]
    exact h.behindCur
  · rw [hk.fb, hk.later]
    exact h.behindLater
  · rw [Node.unsent, hk.todo, hk.cur, hk.later, hk.lastReceived]
    exact h.unsent
  · rw [hk.lastReceived]
    rcases hk.queue with hq | hq
    · rw [hq]
      exact h.queued
    · rw [hq]
      exact fun m hm => by cases hm

theorem Frame.reportKept (h : Frame n n') : ReportKept n n' :=
  .quiet h.walFlush h.commits h.fb h.cur h.todo h.later h.lastReceived h.queue

theorem reportKept_catchError (n : Node) (f : Fault) : ReportKept n (n.catchError f) := by
  unfold Node.catchError
  repeat' split
  all_goals exact .quiet

/-! ## Sending a report -/

section

variable (pub : Publisher) (ht : t ∈ pub.history) (hu : u ∈ pub.history)

include ht hu

theorem Publisher.eq_or_ordered :
    t = u ∨ t.endLsn ≤ u.commitLsn ∨ u.endLsn ≤ t.commitLsn := by
  have hsymm : Std.Symm fun t u : RemoteTxn => t.endLsn ≤ u.commitLsn ∨ u.endLsn ≤ t.commitLsn :=
    ⟨fun _ _ h => h.symm⟩
  have hordered : pub.history.Pairwise fun t u =>
      t.endLsn ≤ u.commitLsn ∨ u.endLsn ≤ t.commitLsn := pub.ordered.imp .inl
  by_cases heq : t = u
  · exact .inl heq
  · exact .inr (hordered.forall ht hu heq)

theorem Publisher.eq_of_endLsn (h : t.endLsn = u.endLsn) : t = u := by
  have := t.commitLsn_lt
  have := u.commitLsn_lt
  exact (pub.eq_or_ordered ht hu).resolve_right (by omega)

theorem Publisher.eq_of_commitLsn (h : t.commitLsn = u.commitLsn) : t = u := by
  have := t.commitLsn_lt
  have := u.commitLsn_lt
  exact (pub.eq_or_ordered ht hu).resolve_right (by omega)

end

section

variable (h : ReportInv pub n)

include h

theorem ReportInv.flushed_or (ht : t ∈ pub.history) (hsettled : Settled n.commits t) :
    Flushed n t ∨ ∃ p ∈ n.fb.lsnMapping, n.walFlush < p.localEnd ∧ p.remoteEnd = t.endLsn := by
  rcases hsettled with hempty | ⟨c, hc, hs⟩
  · exact .inl (.inl hempty)
  · rcases h.tracked c hc t ht hs with hle | ⟨p, hp, hlocal, hremote⟩
    · exact .inl (.inr ⟨c, hc, hs, hle⟩)
    · by_cases hle : p.localEnd ≤ n.walFlush
      · exact .inl (.inr ⟨c, hc, hs, hlocal ▸ hle⟩)
      · exact .inr ⟨p, hp, by omega, hremote⟩

/-- **A report reaches flushed transactions only**, if the position last received reaches settled
ones only. -/
theorem ReportInv.reportable (hrecv : SettledUpTo pub n.commits recvpos) :
    Reportable pub n (reportedFlush n.walFlush recvpos n.fb) := by
  intro t ht hle
  unfold reportedFlush at hle
  dsimp only at hle
  by_cases hlast : t.endLsn ≤ n.fb.lastFlushpos
  · exact h.reported t ht hlast
  split at hle
  · -- nothing is outstanding
    rename_i hnothing
    have hall := (getFlushPosition_nothingOutstanding _ _).mp hnothing
    have hsettled : Settled n.commits t := by
      rcases (by omega : t.endLsn ≤ recvpos ∨ t.endLsn ≤ n.fb.lastRecvpos) with hle | hle
      · exact hrecv t ht hle
      · exact h.received t ht hle
    rcases h.flushed_or ht hsettled with hflushed | ⟨p, hp, hlt, -⟩
    · exact hflushed
    · have := hall p hp
      omega
  · have hle : t.endLsn ≤ (getFlushPosition n.walFlush n.fb.lsnMapping).flush := by omega
    rcases getFlushPositionFrom_flush h.sorted with heq | ⟨q, hq, hqflush, heq, hafter⟩
    · rw [getFlushPosition, heq] at hle
      have := t.commitLsn_lt
      omega
    · rw [getFlushPosition, heq] at hle
      obtain ⟨u, hu, hend, hsettled, c, hc, hs, _⟩ := h.mapped q hq
      rcases h.flushed_or ht (hsettled t ht (hend ▸ hle)) with hflushed | ⟨p, hp, hlt, hremote⟩
      · exact hflushed
      · -- the entry that is not flushed is of the same transaction
        have hqp := hafter p hp hlt
        have htu : t = u := pub.eq_of_endLsn ht hu (by omega)
        exact .inr ⟨c, hc, htu ▸ hs, by omega⟩

/-- A report reaches flushed transactions only. -/
theorem ReportInv.sendFeedback (hrecv : SettledUpTo pub n.commits recvpos)
    (force : Bool) : ReportInv pub (n.sendFeedback recvpos force) := by
  obtain ⟨hmapping, hsent⟩ := sendFeedback_none n.walFlush recvpos force n.fb
  have hdrop : (n.sendFeedback recvpos force).fb.lsnMapping
      = n.fb.lsnMapping.dropWhile fun pos => pos.localEnd ≤ n.walFlush :=
    hmapping.trans (getFlushPositionFrom_lsnMapping _ _ _ _)
  have hmem : ∀ p ∈ (n.sendFeedback recvpos force).fb.lsnMapping, p ∈ n.fb.lsnMapping := by
    intro p hp
    rw [hdrop] at hp
    exact (dropWhile_suffix _).subset hp
  refine ⟨?_, ?_, fun c hc t ht hs => ?_, fun p hp => h.mapped p (hmem p hp), ?_,
    fun p hp => h.behindCur p (hmem p hp), fun p hp => h.behindLater p (hmem p hp), h.unsent,
    h.queued⟩
  · show Reportable pub n (Spock.sendFeedback none n.walFlush recvpos force n.fb).1.lastFlushpos
    rcases hsent with ⟨-, -, hflush⟩ | ⟨-, -, hflush⟩
    · rw [hflush]
      exact h.reported
    · rw [hflush]
      exact h.reportable hrecv
  · show SettledUpTo pub n.commits (Spock.sendFeedback none n.walFlush recvpos force n.fb).1.lastRecvpos
    rcases hsent with ⟨-, hlast, -⟩ | ⟨-, hlast, -⟩
    · rw [hlast]
      exact h.received
    · rw [hlast]
      intro t ht hle
      rcases (by omega : t.endLsn ≤ recvpos ∨ t.endLsn ≤ n.fb.lastRecvpos) with hle | hle
      · exact hrecv t ht hle
      · exact h.received t ht hle
  · -- what leaves the mapping is flushed
    rcases h.tracked c hc t ht hs with hle | ⟨p, hp, hlocal, hremote⟩
    · exact .inl hle
    · by_cases hle : p.localEnd ≤ n.walFlush
      · exact .inl (hlocal ▸ hle)
      · refine .inr ⟨p, ?_, hlocal, hremote⟩
        rw [hdrop]
        rw [← takeWhile_append_dropWhile
          (p := fun pos : SPKFlushPosition => decide (pos.localEnd ≤ n.walFlush))
          (l := n.fb.lsnMapping)] at hp
        rcases mem_append.mp hp with hp | hp
        · exact absurd (by simpa using mem_takeWhile_imp hp) hle
        · exact hp
  · rw [hdrop]
    exact h.sorted.sublist (dropWhile_suffix _).sublist

theorem ReportInv.sendFeedback_reports (hrecv : SettledUpTo pub n.commits recvpos) (force : Bool) :
    ∃ l, (n.sendFeedback recvpos force).reports = n.reports ++ l ∧ ∀ f ∈ l, Reportable pub n f := by
  refine ⟨_, rfl, fun f hf => ?_⟩
  obtain ⟨-, ⟨hnone, -⟩ | ⟨hsome, -⟩⟩ := sendFeedback_none n.walFlush recvpos force n.fb
  · rw [hnone] at hf
    cases hf
  · rw [hsome] at hf
    cases hf with
    | head => exact h.reportable hrecv
    | tail _ hf => cases hf

end

/-! ## COMMIT -/

theorem ReportKept.concat (hflush : n'.walFlush = n.walFlush := by rfl)
    (hcommits : n'.commits = n.commits ++ [c] := by rfl) (hc : c.ended = none := by rfl)
    (hfb : n'.fb = n.fb := by rfl)
    (hcur : n'.cur = n.cur := by rfl) (htodo : n'.todo = n.todo := by rfl)
    (hlater : n'.later = n.later := by rfl)
    (hlast : n'.lastReceived = n.lastReceived := by rfl) (hqueue : n'.queue = n.queue := by rfl) :
    ReportKept n n' :=
  ⟨hflush.ge, ⟨[c], hcommits, fun c' hc' => by rw [mem_singleton.mp hc', hc]⟩, hfb, hcur, htodo,
    hlater, hlast, .inl hqueue⟩

theorem reportKept_finishStages : FinishStages ReportKept where
  commitOwn := fun _ => .concat
  leave := fun _ => .quiet
  flushWal := fun _ =>
    ⟨Nat.le_max_left _ _, ⟨[], (append_nil _).symm, by simp⟩, rfl, rfl, rfl, rfl, rfl, .inl rfl⟩
  reset := fun _ =>
    ⟨Nat.le_refl _, ⟨[], (append_nil _).symm, by simp⟩, rfl, rfl, rfl, rfl, rfl, .inr rfl⟩

theorem reportKept_advance (n : Node) (lsn : Nat) : ReportKept n (n.reploriginSessionAdvance lsn) :=
  .concat

theorem commitRemote_commits (n : Node) (commitLsn endLsn : Nat) (skipped : Bool) :
    ∃ c, (n.commitRemote commitLsn endLsn skipped).commits = n.commits ++ [c] ∧
      c.ended = some (n.ended commitLsn endLsn skipped) ∧
      c.localEnd = (n.commitRemote commitLsn endLsn skipped).xactLastCommitEnd :=
  ⟨_, rfl, rfl, rfl⟩

theorem ReportInv.track (h : ReportInv pub n) (ht : t ∈ pub.history) (hcur : n.cur = some t)
    (hlater : ∀ u ∈ n.later, t.endLsn ≤ u.commitLsn) (skipped : Bool)
    (hsettles : (n.ended t.commitLsn t.endLsn skipped).settles = true)
    (hsettled : SettledUpTo pub (n.commitRemote t.commitLsn t.endLsn skipped).commits t.endLsn) :
    ReportInv pub
      ((n.commitRemote t.commitLsn t.endLsn skipped).clearSavedMessage.trackCommit t.endLsn) := by
  obtain ⟨c, hcommits, hended, hlocal⟩ := commitRemote_commits n t.commitLsn t.endLsn skipped
  let p : SPKFlushPosition :=
    ⟨(n.commitRemote t.commitLsn t.endLsn skipped).xactLastCommitEnd, t.endLsn⟩
  have hpre : n.commits <+: (n.commitRemote t.commitLsn t.endLsn skipped).commits :=
    hcommits ▸ prefix_append _ _
  have hc : c ∈ (n.commitRemote t.commitLsn t.endLsn skipped).commits := by simp [hcommits]
  have hcs : c.settles t.commitLsn = true := by
    rw [LocalCommit.settles, hended, any_some, hsettles]
    simp [Node.ended]
  -- an entry is an old one or the new one
  have hentry : ∀ q ∈ n.fb.lsnMapping ++ [p], q ∈ n.fb.lsnMapping ∨ q = p := by
    intro q hq
    rcases mem_append.mp hq with hq | hq
    · exact .inl hq
    · exact .inr (mem_singleton.mp hq)
  refine ⟨fun u hu hle => (h.reported u hu hle).mono hpre (Nat.le_refl _), h.received.mono hpre,
    ?_, ?_, ?_, ?_, ?_, h.unsent, h.queued⟩
  · intro c' hc' u hu hs
    have hc' : c' ∈ (n.commitRemote t.commitLsn t.endLsn skipped).commits := hc'
    rw [hcommits] at hc'
    rcases mem_append.mp hc' with hc' | hc'
    · rcases h.tracked c' hc' u hu hs with hflushed | ⟨q, hq, hq'⟩
      · exact .inl hflushed
      · exact .inr ⟨q, mem_append_left _ hq, hq'⟩
    · rw [mem_singleton.mp hc'] at hs ⊢
      rw [LocalCommit.settles, hended] at hs
      have hlsn : t.commitLsn = u.commitLsn := by
        simpa [Node.ended] using (Bool.and_eq_true_iff.mp hs).1
      rw [← pub.eq_of_commitLsn ht hu hlsn]
      exact .inr ⟨p, mem_append_right _ (mem_singleton.mpr rfl), hlocal.symm, rfl⟩
  · intro q hq
    rcases hentry q hq with hq | rfl
    · exact (h.mapped q hq).mono hpre
    · exact ⟨t, ht, rfl, hsettled, c, hc, hcs, hlocal⟩
  · refine pairwise_append.mpr ⟨h.sorted, pairwise_singleton _ _, fun q hq r hr => ?_⟩
    rw [mem_singleton.mp hr]
    exact h.behindCur q hq t hcur
  · intro q hq u hu
    rcases hentry q hq with hq | rfl
    · exact h.behindCur q hq u hu
    · rw [show n.cur = some u from hu] at hcur
      cases hcur
      exact Nat.le_refl _
  · intro q hq u hu
    rcases hentry q hq with hq | rfl
    · exact h.behindLater q hq u hu
    · exact hlater u hu

theorem commitRemote_settled (h : n.mustDisable = false) (t : RemoteTxn) (skipped : Bool) :
    Settled (n.commitRemote t.commitLsn t.endLsn skipped).commits t := by
  obtain ⟨c, hcommits, hended, -⟩ := commitRemote_commits n t.commitLsn t.endLsn skipped
  refine .inr ⟨c, by simp [hcommits], ?_⟩
  rw [LocalCommit.settles, hended, any_some, Node.ended_settles h]
  simp [Node.ended]

theorem settle_reportInv (h : ReportInv pub n) (hconn : ConnWf pub n) (hsent : Sent pub n)
    (hcur : n.cur = some t) (skipped : Bool) (env : CommitEnv) :
    Ends (settle sub t.commitLsn t.endLsn skipped env) n (fun _ n' => ReportInv pub n')
      (fun _ n' => n'.mustDisable = true ∨ ReportInv pub n') := by
  refine settle_ends (fun _ => ?_) fun _ => h.kept (reportKept_advance n _)
  refine commitLocally_ends
    (fun _ _ => .inr (h.kept .quiet)) ?_
  have hstaged : ReportInv pub (n.clearSubscriptionSkipLsn.stageOriginLsn t.endLsn).clearDiscarded :=
    h.kept .quiet
  refine commitStaged_ends
    (fun _ _ => .inr (hstaged.kept .quiet))
    (fun hdis _ => .inl hdis) fun hdis => ?_
  refine hstaged.track (hconn.suffix.subset (by simp [hcur])) hcur (fun u hu => hconn.ordered hcur hu)
    skipped (Node.ended_settles hdis _ _ skipped) (Covered.settledUpTo ?_)
  exact hsent.covered_endLsn hconn hcur (prefix_append _ _) (commitRemote_settled hdis t skipped)

theorem Taken.handleCommit_reportInv (ht : Taken pub n t pre done m) (hsent : Sent pub n)
    (h : ReportInv pub n) {c e : Nat} (hm : m.entry = .commit c e) (env : CommitEnv) :
    Ends (handleCommit sub c e env) n (fun _ n' => ReportInv pub n')
      (fun _ n' => n'.mustDisable = true ∨ ReportInv pub n') := by
  obtain ⟨-, rfl, rfl, -⟩ := ht.commit_eq hm
  have hfinish : ∀ n' : Node, ReportInv pub n' →
      Ends (finishCommit sub t.endLsn env) n' (fun _ n' => ReportInv pub n')
        (fun _ n' => n'.mustDisable = true ∨ ReportInv pub n') := fun n' hn' =>
    (keeps_finishCommit_of reportKept_finishStages n').mono
      (fun _ _ hk => hn'.kept hk) fun _ _ hk => .inr (hn'.kept hk)
  have hload : ReportInv pub (n.actionCommit.reload env.reload) :=
    h.kept .quiet
  have hskip : ReportInv pub (n.actionCommit.reload env.reload).finishSkipping :=
    h.kept .quiet
  have hconn : ConnWf pub n := ht.conn
  refine handleCommit_ends (fun _ _ => .inr hload) (fun _ => ?_) fun _ => ?_
  · exact (settle_reportInv hload { hconn with } hsent ht.cur false env).mono
      (fun _ n' hn' => hfinish n' hn') fun _ _ hn' => hn'
  · exact (settle_reportInv hskip { hconn with } hsent ht.cur true env).mono
      (fun _ n' hn' => hfinish n' hn') fun _ _ hn' => hn'

/-! ## Messages -/

def ReportsSame (n n' : Node) : Prop := n'.reports = n.reports

instance : IsPreorder Node ReportsSame where
  refl _ := rfl
  trans _ _ _ h h' := Eq.trans h' h

theorem keeps_reports_handleCommit (sub : Subscription) (c e : Nat) (env : CommitEnv) :
    Keeps ReportsSame (handleCommit sub c e env) :=
  keeps_handleCommit_of (by constructor <;> intros <;> rfl) (by constructor <;> intros <;> rfl)
    (by constructor <;> intros <;> rfl)

theorem reports_catchError (n : Node) (f : Fault) : (n.catchError f).reports = n.reports := by
  unfold Node.catchError
  repeat' split
  all_goals rfl

theorem handle_reports (hstep : n.handle sub m o = some n') : n'.reports = n.reports := by
  refine handle_of_ends (P := ReportsSame n) (R := fun _ => ReportsSame n) hstep rfl
    (fun x hx => ?_) fun e n' hn' => ?_
  · exact dispatch_ends_of_frame hx (fun _ hf => hf.reports) (fun _ _ hf => hf.reports) (fun _ => rfl)
      fun c e env _ _ => keeps_reports_handleCommit sub c e env n.resetAction
  · cases e with
    | error f => exact (reports_catchError n' f).trans hn'
    | procExit => exact hn'

theorem dispatch_aside_reportInv (h : ReportInv pub n) (haside : m.entry.isAside = true)
    (hx : dispatch sub m.entry o = some x) :
    Ends x n (fun _ n' => ReportInv pub n')
      (fun _ n' => n'.mustDisable = true ∨ ReportInv pub n') :=
  dispatch_aside_of_frame haside hx (fun _ hf => h.kept hf.reportKept)
    (fun _ _ hf => .inr (h.kept hf.reportKept)) fun lsn => h.kept (reportKept_advance n lsn)

/-- **One message** of the current transaction, or one sent before it. -/
theorem Taken.dispatch_reportInv (ht : Taken pub n t pre done m) (hsent : Sent pub n)
    (h : ReportInv pub n) (hx : dispatch sub m.entry o = some x) :
    Ends x n (fun _ n' => ReportInv pub n')
      (fun _ n' => n'.mustDisable = true ∨ ReportInv pub n') :=
  dispatch_ends_of_frame hx (fun _ hf => h.kept hf.reportKept)
    (fun _ _ hf => .inr (h.kept hf.reportKept)) (fun lsn => h.kept (reportKept_advance n lsn))
    fun _ _ env hm _ => ht.handleCommit_reportInv hsent h hm env

theorem reportInv_handle (hstep : n.handle sub m o = some n')
    (hx : ∀ x, dispatch sub m.entry o = some x → Ends x n.resetAction
      (fun _ n' => ReportInv pub n') (fun _ n' => n'.mustDisable = true ∨ ReportInv pub n'))
    (h : ReportInv pub n) : n'.looping → ReportInv pub n' := by
  refine Node.handle_looping hstep (.inr h) hx fun f n' hn' hloop => ?_
  rcases hn' with hdis | hinv
  · -- a worker that is to disable its subscription leaves its loops
    rw [(Node.catchError_looping hloop).2.1] at hdis
    cases hdis
  · exact hinv.kept (reportKept_catchError n' f)

/-! ## The positions received -/

theorem Taken.position_le (h : Taken pub n t pre done m) (hbegun : attemptOf done ≠ none) :
    (m = t.commitMessage ∧ n.todo = []) ∨ (m.startLsn ≤ t.commitLsn ∧ m.endLsn ≤ t.commitLsn) := by
  rcases split_messages h.asides h.split with ⟨-, hdone, -⟩ | ⟨-, hdone, -⟩ | ⟨b₁, b₂, hbody, -⟩ |
    ⟨heq, -, htail⟩
  · exact absurd (attemptOf_asides hdone) hbegun
  · exact absurd (attemptOf_asides hdone) hbegun
  · exact .inr (t.body_le m (by simp [hbody]))
  · exact .inl ⟨heq, (append_eq_nil_iff.mp htail).2⟩

theorem Node.mem_unsent : t ∈ n.unsent ↔ (n.todo ≠ [] ∧ n.cur = some t) ∨ t ∈ n.later := by
  cases htodo : n.todo <;> simp [Node.unsent, htodo]

theorem reportInv_next {p : Node} (hwf : Wf pub n) (h : ReportInv pub n) (hnext : Next pub n m p) :
    ReportInv pub p := by
  have hreplayed : ∀ rest, n.replay = some (m :: rest) →
      (n.replayNext m rest).lastReceived = n.lastReceived := by
    intro rest hreplay
    have hmem : m ∈ n.queue := hwf.rest.subset (by rw [Node.rest, hreplay]; exact mem_cons_self)
    obtain ⟨_, _⟩ := h.queued m hmem
    show max n.lastReceived (max m.startLsn m.endLsn) = n.lastReceived
    omega
  have hqueued : ∀ m' ∈ n.queue ++ [m], m'.startLsn ≤ max n.lastReceived (max m.startLsn m.endLsn) ∧
        m'.endLsn ≤ max n.lastReceived (max m.startLsn m.endLsn) := by
    intro m' hm'
    rcases mem_append.mp hm' with hm' | hm'
    · have := h.queued m' hm'
      omega
    · rw [mem_singleton.mp hm']
      omega
  cases hnext with
  | aside _ rest _ hreplay | replayed _ rest _ hreplay =>
    exact h.kept (.quiet rfl rfl rfl rfl rfl rfl (hreplayed rest hreplay) rfl)
  | @received _ rest _ t _ hattempt _ htodo _ htaken =>
    refine { h with unsent := fun u hu => ?_, queued := hqueued }
    have hbegun : attemptOf n.queue ≠ none := by
      rw [show attemptOf n.queue = some _ from hattempt]
      simp
    have hcur : n.cur = some t := htaken.cur
    have hold : n.lastReceived ≤ u.commitLsn := by
      refine h.unsent u (Node.mem_unsent.mpr ?_)
      rcases Node.mem_unsent.mp hu with ⟨-, hu⟩ | hu
      · exact .inl ⟨by simp [htodo], hu⟩
      · exact .inr hu
    show max n.lastReceived (max m.startLsn m.endLsn) ≤ u.commitLsn
    have hlt := t.commitLsn_lt
    rcases htaken.position_le hbegun with ⟨rfl, hrest⟩ | ⟨hstart, hend⟩
    · -- the COMMIT: only later transactions are left
      rcases Node.mem_unsent.mp hu with ⟨hne, -⟩ | hu
      · exact absurd hrest hne
      · have := hwf.ordered hcur hu
        show max n.lastReceived (max t.endLsn t.endLsn) ≤ u.commitLsn
        omega
    · rcases Node.mem_unsent.mp hu with ⟨-, hu⟩ | hu
      · have : t = u := some.inj (hcur.symm.trans hu)
        subst this
        omega
      · have := hwf.ordered hcur hu
        omega
  | begun t later _ _ hlater _ htaken =>
    refine { h with
      behindCur := fun p hp u hu => ?_, unsent := fun u hu => ?_, queued := hqueued
      behindLater := fun p hp u hu => h.behindLater p hp u (by rw [hlater]; exact mem_cons_of_mem _ hu) }
    · cases hu
      have hle := h.behindLater p hp t (by rw [hlater]; exact mem_cons_self)
      have := t.commitLsn_lt
      omega
    · have hu' : u = t ∨ u ∈ later := by
        rcases Node.mem_unsent.mp hu with ⟨-, hu⟩ | hu
        · exact .inl (some.inj hu).symm
        · exact .inr hu
      have hold : n.lastReceived ≤ u.commitLsn :=
        h.unsent u (Node.mem_unsent.mpr (.inr (by rw [hlater]; exact mem_cons.mpr hu')))
      show max n.lastReceived (max t.firstLsn t.firstLsn) ≤ u.commitLsn
      have hfirst := t.firstLsn_le
      rcases hu' with rfl | hu'
      · omega
      · have hle := htaken.conn.ordered rfl hu'
        have := t.commitLsn_lt
        omega

theorem Sent.settledUpTo (h : Sent pub n) (hlsn : ∀ t ∈ n.unsent, lsn ≤ t.commitLsn)
    (hcommit : ∀ t, n.cur = some t → n.attempt ≠ none → n.todo = [] → Settled n.commits t) :
    SettledUpTo pub n.commits lsn := by
  intro t ht hle
  have hlt := t.commitLsn_lt
  rcases h t ht with hlater | ⟨ha, hcur⟩ | hdone
  · have := hlsn t (Node.mem_unsent.mpr (.inr hlater))
    omega
  · by_cases htodo : n.todo = []
    · exact hcommit t hcur ha htodo
    · have := hlsn t (Node.mem_unsent.mpr (.inl ⟨htodo, hcur⟩))
      omega
  · exact hdone

/-! ## Steps -/

namespace Node

def commitsFlushed (n : Node) : Bool :=
  n.commits.all fun c => c.ended.isNone || decide (c.localEnd ≤ n.walFlush)

def queueSettled (n : Node) : Bool :=
  n.queue.all fun m =>
    match m.entry with
    | .commit commitLsn _ => n.commits.any (·.settles commitLsn)
    | _ => true

/-- A worker starts with its predecessors' commits flushed, and sends no feedback after the inner
loop while the COMMIT of a transaction that is not settled waits in the replay queue. -/
def reportSafe (n : Node) : WorkerEvent → Bool
  | .start _ => n.commitsFlushed
  | .afterInner _ _ =>
    n.xactHadException || (n.useTryBlock && n.config.exceptionBehaviour != .discard) || n.queueSettled
  | _ => true

end Node

theorem flushed_of_commitsFlushed (h : n.commitsFlushed = true) (hc : c ∈ n.commits)
    (hs : c.settles lsn = true) : c.localEnd ≤ n.walFlush := by
  have hor := all_eq_true.mp h c hc
  cases hended : c.ended with
  | none =>
    rw [settles_of_ended_none hended] at hs
    cases hs
  | some => simpa [hended] using hor

theorem RemoteTxn.endLsn_pos (t : RemoteTxn) : ¬ t.endLsn ≤ 0 := by
  have := t.commitLsn_lt
  omega

theorem reportInv_start (h : n.commitsFlushed = true) (config : WorkerConfig) :
    ReportInv pub (n.start pub config) where
  reported := fun t _ hle => absurd hle t.endLsn_pos
  received := fun t _ hle => absurd hle t.endLsn_pos
  tracked := fun _ hc _ _ hs => .inl (flushed_of_commitsFlushed h hc hs)
  mapped := fun _ hp => nomatch hp
  sorted := List.Pairwise.nil
  behindCur := fun _ hp => nomatch hp
  behindLater := fun _ hp => nomatch hp
  unsent := fun _ _ => Nat.zero_le _
  queued := fun _ hm => nomatch hm

theorem reportInv_leaveInner (hwf : Wf pub n) (hsent : Sent pub n) (h : ReportInv pub n)
    {wrote : Bool} {fault : Option Fault} (hsafe : n.reportSafe (.afterInner wrote fault) = true) :
    ReportInv pub n.leaveInner ∧
      ∃ l, n.leaveInner.reports = n.reports ++ l ∧ ∀ f ∈ l, Reportable pub n f := by
  rcases n.leaveInner_cases with heq | ⟨hhad, htry, heq⟩
  · rw [heq]
    exact ⟨h.kept .quiet, [], (append_nil _).symm, by simp⟩
  · have hqueue : n.queueSettled = true := by
      rcases htry with htry | hdiscard
      · simpa [Node.reportSafe, hhad, htry] using hsafe
      · simpa [Node.reportSafe, hhad, hdiscard] using hsafe
    have hrecv : SettledUpTo pub n.commits n.lastReceived := by
      refine hsent.settledUpTo h.unsent fun t hcur ha htodo => ?_
      obtain ⟨lsn, hlsn⟩ := ne_none_iff_exists'.mp ha
      obtain ⟨_, _, hcur', -, -, hmsgs⟩ := hwf.active lsn hlsn
      cases hcur.symm.trans hcur'
      -- its COMMIT is in the queue
      rw [htodo, append_nil] at hmsgs
      have hmem : t.commitMessage ∈ n.queue := by simp [hmsgs, RemoteTxn.messages]
      have hany := all_eq_true.mp hqueue _ hmem
      obtain ⟨c, hc, hs⟩ := any_eq_true.mp hany
      exact .inr ⟨c, hc, hs⟩
    rw [heq]
    exact ⟨(h.sendFeedback hrecv false).kept .quiet,
      h.sendFeedback_reports hrecv false⟩

theorem reports_nil (h : n'.reports = n.reports) :
    ∃ l, n'.reports = n.reports ++ l ∧ ∀ f ∈ l, Reportable pub n f :=
  ⟨[], by simp [h], by simp⟩

theorem handleNext_reports (hstep : n.handleNext sub o = some n') : n'.reports = n.reports := by
  rcases Node.handleNext_cases hstep with ⟨m, rest, -, hhandle⟩ | ⟨-, rfl⟩ |
    ⟨m, rest, -, -, hhandle⟩ | ⟨t, later, -, -, -, hhandle⟩
  · exact (handle_reports hhandle).trans rfl
  · rfl
  · exact (handle_reports hhandle).trans rfl
  · exact (handle_reports hhandle).trans rfl

theorem reportInv_handleNext (hstep : n.handleNext sub o = some n') (hwf : Wf pub n)
    (ho : OriginInv pub n) (h : ReportInv pub n) : n'.looping → ReportInv pub n' := by
  rcases Node.handleNext_next hwf hstep with ⟨-, rfl⟩ | ⟨m, p, hnext, hhandle⟩
  · exact fun _ => h.kept .quiet
  have hp := reportInv_next hwf h hnext
  have hreset : ReportInv pub p.resetAction := hp.kept .quiet
  have hsent : Sent pub p.resetAction := (originInv_next ho hnext).sent
  refine reportInv_handle hhandle (fun x hx => ?_) hp
  cases hnext with
  | aside _ _ _ _ haside => exact dispatch_aside_reportInv hreset haside hx
  | replayed _ _ _ _ htaken | received _ _ _ _ _ _ htaken | begun _ _ _ _ _ _ htaken =>
    exact htaken.dispatch_reportInv hsent hreset hx

theorem ReportInv.receive (h : ReportInv pub n) (hstart : n.positionSent m.startLsn = true)
    (hend : n.positionSent m.endLsn = true) : ReportInv pub (n.receive m) := by
  refine { h with unsent := fun t ht => ?_, queued := fun m' hm' => ?_ }
  · have := h.unsent t ht
    have hs : m.startLsn ≤ t.commitLsn := by simpa using all_eq_true.mp hstart t ht
    have he : m.endLsn ≤ t.commitLsn := by simpa using all_eq_true.mp hend t ht
    show max n.lastReceived (max m.startLsn m.endLsn) ≤ t.commitLsn
    omega
  · show m'.startLsn ≤ max n.lastReceived (max m.startLsn m.endLsn) ∧
      m'.endLsn ≤ max n.lastReceived (max m.startLsn m.endLsn)
    rcases mem_append.mp hm' with hm' | hm'
    · have := h.queued m' hm'
      omega
    · rw [mem_singleton.mp hm']
      omega

theorem ReportInv.keepalive (hwf : Wf pub n) (hsent : Sent pub n) (h : ReportInv pub n) {endpos : Nat}
    (hreplay : n.replay = none) (hpos : n.positionSent endpos = true) (replyRequested : Bool) :
    ReportInv pub (n.keepalive endpos replyRequested) ∧
      ∃ l, (n.keepalive endpos replyRequested).reports = n.reports ++ l ∧
        ∀ f ∈ l, Reportable pub n f := by
  have hunsent : ∀ t ∈ n.unsent, endpos ≤ t.commitLsn := fun t ht => by
    simpa using all_eq_true.mp hpos t ht
  have hrecv : SettledUpTo pub n.commits endpos := by
    refine hsent.settledUpTo hunsent fun t _ ha htodo => ?_
    exact absurd (Node.attempt_none hwf (by rw [Node.rest, hreplay]; rfl) htodo) ha
  have hinv := h.sendFeedback hrecv replyRequested
  refine ⟨{ hinv with unsent := fun t ht => ?_, queued := fun m hm => ?_ },
    h.sendFeedback_reports hrecv replyRequested⟩
  · show max n.lastReceived endpos ≤ t.commitLsn
    have := h.unsent t ht
    have := hunsent t ht
    omega
  · show m.startLsn ≤ max n.lastReceived endpos ∧ m.endLsn ≤ max n.lastReceived endpos
    have := h.queued m hm
    omega

theorem ReportInv.commitOwn (h : ReportInv pub n) (wrote : Bool) : ReportInv pub (n.commitOwn wrote) :=
  h.kept (reportKept_finishStages.commitOwn_of n wrote)

theorem commitOwn_reports (n : Node) (wrote : Bool) : (n.commitOwn wrote).reports = n.reports := by
  cases wrote <;> rfl

/-- **One step**: the invariant is kept, and the reports it sends reach flushed transactions
only. -/
theorem reportInv_step {e : WorkerEvent} (ho : OriginRun pub n) (h : n.looping → ReportInv pub n)
    (hsafe : n.reportSafe e = true) (hstep : n.step sub pub e = some n') :
    (n'.looping → ReportInv pub n') ∧
      ∃ l, n'.reports = n.reports ++ l ∧ ∀ f ∈ l, Reportable pub n f := by
  have hsame : ReportKept n n' → n'.pc = n.pc → n'.looping → ReportInv pub n' := by
    intro hk hpc hloop
    exact (h (by rwa [Node.looping, hpc] at hloop)).kept hk
  have houter : n.pc = .outer → ReportInv pub n := fun hpc => h (.inl hpc)
  have hinner : n.pc = .inner → ReportInv pub n := fun hpc => h (.inr (.inl hpc))
  have hleave {wrote fault} (hpc : n.pc = .afterInner) :=
    have hlooping := ho.looping (.inr (.inr hpc))
    @reportInv_leaveInner _ _ hlooping.1 hlooping.2.sent (h (.inr (.inr hpc))) wrote fault
  cases Node.step_cases hstep with
  | start config =>
    refine ⟨fun _ => reportInv_start hsafe config, [n.origin], rfl, fun f hf t ht hle => ?_⟩
    rw [mem_singleton.mp hf] at hle
    have := t.commitLsn_lt
    rcases ho.sound.covered t ht (by omega) with hbefore | ⟨c, hc, hs⟩
    · exact .inl hbefore
    · exact .inr ⟨c, hc, hs, flushed_of_commitsFlushed hsafe hc hs⟩
  | exit | outerExit | crash | disable | disableOpen =>
    exact ⟨by simp [Node.looping, Node.exit, Node.recover], reports_nil rfl⟩
  | afterDisabling => exact ⟨by simp [Node.looping, Node.moveTo], reports_nil rfl⟩
  | sigterm | reload => exact ⟨hsame .quiet rfl, reports_nil rfl⟩
  | flush _ hle =>
    exact ⟨hsame ⟨hle, ⟨[], (append_nil _).symm, by simp⟩, rfl, rfl, rfl, rfl, rfl, .inl rfl⟩ rfl,
      reports_nil rfl⟩
  | enable | setSkipLsn => exact ⟨hsame .concat rfl, reports_nil rfl⟩
  | readonly => exact ⟨h, reports_nil rfl⟩
  | cleanup wrote hpc =>
    exact ⟨fun _ => (houter hpc).commitOwn wrote, reports_nil (commitOwn_reports n wrote)⟩
  | outerError f hpc =>
    exact ⟨fun _ => (houter hpc).kept (reportKept_catchError n f), reports_nil (reports_catchError n f)⟩
  | enterInner hpc => exact ⟨fun _ => (houter hpc).kept .quiet, reports_nil rfl⟩
  | stopInner _ hpc => exact ⟨fun _ => (hinner hpc).kept .quiet, reports_nil rfl⟩
  | next _ hpc _ hnext =>
    obtain ⟨hwf, hinv⟩ := ho.looping (.inr (.inl hpc))
    exact ⟨reportInv_handleNext hnext hwf hinv (hinner hpc), reports_nil (handleNext_reports hnext)⟩
  | keepalive _ replyRequested hpc hreplay hpos =>
    obtain ⟨hwf, hinv⟩ := ho.looping (.inr (.inl hpc))
    obtain ⟨hk, hreports⟩ := (hinner hpc).keepalive hwf hinv.sent hreplay hpos replyRequested
    exact ⟨fun _ => hk, hreports⟩
  | aside m _ hpc _ _ haside hstart hend _ hhandle =>
    have hreceive := (hinner hpc).receive hstart hend
    have hreset : ReportInv pub (n.receive m).resetAction :=
      hreceive.kept .quiet
    refine ⟨reportInv_handle hhandle (fun x hx => ?_) hreceive,
      reports_nil ((handle_reports hhandle).trans rfl)⟩
    exact dispatch_aside_reportInv hreset haside hx
  | interrupt f hpc =>
    exact ⟨fun _ => (hinner hpc).kept (reportKept_catchError n f), reports_nil (reports_catchError n f)⟩
  | afterRemote _ _ hpc =>
    obtain ⟨hk, hreports⟩ := hleave hpc hsafe
    exact ⟨fun _ => hk, hreports⟩
  | afterOwn wrote hpc =>
    obtain ⟨hk, hreports⟩ := hleave hpc hsafe
    rw [commitOwn_reports]
    exact ⟨fun _ => hk.commitOwn wrote, hreports⟩
  | afterError wrote f hpc =>
    obtain ⟨hk, hreports⟩ := hleave hpc hsafe
    rw [reports_catchError, commitOwn_reports]
    exact ⟨fun _ => (hk.commitOwn wrote).kept (reportKept_catchError _ f), hreports⟩

/-- **Every run** that keeps both conditions, and the one on failed commits. -/
theorem reportInv_run {n₀ : Node} {events : List WorkerEvent} (hinit : n₀.Initial pub)
    (halong : Runs.Along (Node.step sub pub)
      (fun n e => n.ownCommitSafe e = true ∧ n.reportSafe e = true) n₀ events)
    (hrun : Runs.run (Node.step sub pub) n₀ events = some n) :
    OriginRun pub n ∧ (n.looping → ReportInv pub n) := by
  refine Runs.run_invariant_along (I := fun n => OriginRun pub n ∧ (n.looping → ReportInv pub n))
    (fun s e s' h hsafe hstep => ?_) ⟨originRun_initial hinit, ?_⟩ halong hrun
  · exact ⟨originRun_step h.1 hsafe.1 hstep, (reportInv_step h.1 h.2 hsafe.2 hstep).1⟩
  · simp [Node.looping, hinit.stopped]

/-- A transaction is applied and flushed, and there is nothing more to read. -/
def flushedRun : List WorkerEvent :=
  [.start ⟨.discard, .all, false⟩, .outer none, .nextPlain, .nextWritten, .nextWritten,
    .nextCommit none, .flush 1, .inner .noData]

/-- A transaction is applied, and the worker goes away before the commit is flushed. -/
def restartRun : List WorkerEvent :=
  [.start ⟨.discard, .all, false⟩, .outer none, .nextPlain, .nextWritten, .nextWritten,
    .nextCommit none, .exit]

/-- The local commit fails, and before the replay the cluster becomes read-only. -/
def readonlyRun : List WorkerEvent :=
  [.start ⟨.discard, .all, false⟩, .outer none, .nextPlain, .nextWritten, .nextWritten,
    .nextCommit (some (.commit, sampleFault)), .reload ⟨.discard, .all, true⟩, .outer none,
    .inner .noData]

end Spock
