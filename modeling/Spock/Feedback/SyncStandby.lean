import Spock.Feedback.Position
import Spock.Lib.Runs

/-!
# Spock — feedback with a synchronous standby

A node with a synchronous standby must not tell the publisher that a transaction is flushed
before the standby has flushed its local commit: after a failover to the standby the publisher
would no longer have the WAL to send it again. `append_feedback_position` queues a hold for every
commit for this. The model is the worker's commits and reports over a local flush position and a
standby flush position that only grow; `commits` remembers every commit for the statements.

* **`sendFeedback_respects_standby_iff`** — when no report gets ahead of the standby;
* **`reports_never_go_back`** — no position that `send_feedback` reports is before an earlier one.
-/

namespace Spock

open List

/-- The worker's feedback state, the two flush positions, and all commits so far. -/
structure SyncRun where
  fb : FeedbackState
  localFlush : Nat
  syncFlush : Nat
  commits : List SPKFlushPosition
  deriving DecidableEq

namespace SyncRun

inductive Event where
  | commit (localEnd remoteEnd : Nat)
  | flushLocal (lsn : Nat)
  | flushStandby (lsn : Nat)
  | feedback (recvpos : Nat) (force : Bool)
  deriving DecidableEq

def init (localFlush syncFlush : Nat) : SyncRun := ⟨FeedbackState.init, localFlush, syncFlush, []⟩

def lastCommit (s : SyncRun) : SPKFlushPosition := s.commits.getLastD ⟨0, 0⟩

/-- The tail of `handle_commit` that concerns feedback. -/
def commit (s : SyncRun) (localEnd remoteEnd : Nat) : SyncRun :=
  { s with
    fb := (appendFeedbackPosition s.localFlush localEnd remoteEnd s.fb).track localEnd remoteEnd
    commits := s.commits ++ [⟨localEnd, remoteEnd⟩] }

/-- `send_feedback` with the standby defined. -/
def feedback (s : SyncRun) (recvpos : Nat) (force : Bool) :
    FeedbackState × Option StatusMessage :=
  sendFeedback (some s.syncFlush) s.localFlush recvpos force s.fb

def step (s : SyncRun) : Event → Option SyncRun
  | .commit localEnd remoteEnd =>
    if s.lastCommit.localEnd < localEnd ∧ s.lastCommit.remoteEnd < remoteEnd then
      some (s.commit localEnd remoteEnd)
    else none
  | .flushLocal lsn => if s.localFlush ≤ lsn then some { s with localFlush := lsn } else none
  | .flushStandby lsn => if s.syncFlush ≤ lsn then some { s with syncFlush := lsn } else none
  | .feedback recvpos force => some { s with fb := (s.feedback recvpos force).1 }

/-- Both queues hold commits of this run, and `lsn_mapping` its last ones. -/
structure Inv (s : SyncRun) : Prop where
  increasing : Increasing s.commits
  positive : ∀ c ∈ s.commits, 0 < c.remoteEnd
  mapping : s.fb.lsnMapping <:+ s.commits
  holds : ∀ hold ∈ s.fb.syncReplicaLsn,
    (⟨hold.localCommitLsn, hold.remoteRecvpos⟩ : SPKFlushPosition) ∈ s.commits

/-! ## The queues along a run -/

variable {s : SyncRun} {c : SPKFlushPosition}

theorem le_lastCommit (h : Increasing s.commits) (hc : c ∈ s.commits) :
    c.localEnd ≤ s.lastCommit.localEnd ∧ c.remoteEnd ≤ s.lastCommit.remoteEnd := by
  unfold lastCommit
  rcases eq_nil_or_concat s.commits with hnil | ⟨l, last, hl⟩
  · rw [hnil] at hc
    exact absurd hc not_mem_nil
  · rw [hl, concat_eq_append] at hc h ⊢
    rw [getLastD_concat]
    rcases mem_append.mp hc with hc | hc
    · have hlt := (pairwise_append.mp h).2.2 c hc last (by simp)
      exact ⟨hlt.1.le, hlt.2.le⟩
    · rw [mem_singleton.mp hc]
      exact ⟨le_rfl, le_rfl⟩

variable {localEnd remoteEnd recvpos : Nat}

theorem increasing_concat (h : Increasing s.commits) (hlocal : s.lastCommit.localEnd < localEnd)
    (hremote : s.lastCommit.remoteEnd < remoteEnd) :
    Increasing (s.commits ++ [⟨localEnd, remoteEnd⟩]) := by
  refine pairwise_append.mpr ⟨h, pairwise_singleton _ _, ?_⟩
  intro c hc d hd
  rw [mem_singleton.mp hd]
  have hle := le_lastCommit h hc
  exact ⟨hle.1.trans_lt hlocal, hle.2.trans_lt hremote⟩

theorem getFlushPosition_lsnMapping_suffix (localFlush : Nat) (l : List SPKFlushPosition) :
    (getFlushPosition localFlush l).lsnMapping <:+ l := by
  rw [getFlushPosition, getFlushPositionFrom_lsnMapping]
  exact dropWhile_suffix _

theorem Inv.commit (hinv : s.Inv) (hlocal : s.lastCommit.localEnd < localEnd)
    (hremote : s.lastCommit.remoteEnd < remoteEnd) :
    (s.commit localEnd remoteEnd).Inv where
  increasing := increasing_concat hinv.increasing hlocal hremote
  positive := by
    intro c hc
    rcases mem_append.mp hc with hc | hc
    · exact hinv.positive c hc
    · rw [mem_singleton.mp hc]
      exact (Nat.zero_le _).trans_lt hremote
  mapping := by
    have hsuffix := (getFlushPosition_lsnMapping_suffix s.localFlush _).trans hinv.mapping
    obtain ⟨front, hfront⟩ := hsuffix
    refine ⟨front, ?_⟩
    show front ++ ((getFlushPosition s.localFlush s.fb.lsnMapping).lsnMapping ++ _) = _
    rw [← append_assoc, hfront]
    rfl
  holds := by
    intro hold hhold
    rcases mem_append.mp hhold with hhold | hhold
    · exact mem_append_left _ (hinv.holds hold hhold)
    · rw [mem_singleton.mp hhold]
      exact mem_append_right _ (by simp)

theorem feedback_queues (s : SyncRun) (recvpos : Nat) (force : Bool) :
    (s.feedback recvpos force).1.lsnMapping
        = (getFlushPosition s.localFlush s.fb.lsnMapping).lsnMapping ∧
      (s.feedback recvpos force).1.syncReplicaLsn
        = (getFeedbackPosition s.syncFlush recvpos 0 0 s.fb.maxRecvpos
            s.fb.syncReplicaLsn).syncReplicaLsn :=
  ⟨sendStatus_lsnMapping _ _ _ _ _, sendStatus_syncReplicaLsn _ _ _ _ _⟩

theorem Inv.feedback (hinv : s.Inv) (recvpos : Nat) (force : Bool) :
    Inv { s with fb := (s.feedback recvpos force).1 } where
  __ := hinv
  mapping := by
    rw [(feedback_queues s recvpos force).1]
    exact (getFlushPosition_lsnMapping_suffix s.localFlush _).trans hinv.mapping
  holds := by
    rw [(feedback_queues s recvpos force).2]
    intro hold hhold
    exact hinv.holds hold (mem_getFeedbackPosition_syncReplicaLsn hhold)

theorem Inv.step {s' : SyncRun} {e : Event} (hinv : s.Inv) (h : s.step e = some s') : s'.Inv := by
  cases e with
  | commit =>
    obtain ⟨⟨hlocal, hremote⟩, rfl⟩ := Runs.of_guard h
    exact hinv.commit hlocal hremote
  | flushLocal | flushStandby =>
    obtain ⟨-, rfl⟩ := Runs.of_guard h
    exact { hinv with }
  | feedback recvpos force =>
    cases h
    exact hinv.feedback recvpos force

theorem inv_init (localFlush syncFlush : Nat) : (init localFlush syncFlush).Inv :=
  ⟨List.Pairwise.nil, by simp [init], nil_suffix, by simp [init, FeedbackState.init]⟩

/-- Both queues hold commits of the run, in order. -/
theorem inv_run {localFlush syncFlush : Nat} {events : List Event}
    (hrun : Runs.run step (init localFlush syncFlush) events = some s) : s.Inv :=
  Runs.run_invariant (fun _ _ _ hinv hstep => hinv.step hstep) (inv_init _ _) hrun

/-! ## What a report says -/

/-- No report made now with this receive position, forced or not, claims a commit that the
standby has not flushed. -/
def Respects (s : SyncRun) (recvpos : Nat) : Prop :=
  ∀ force msg, (s.feedback recvpos force).2 = some msg →
    ∀ c ∈ s.commits, s.syncFlush < c.localEnd → msg.flush < c.remoteEnd

/-- Every commit the standby has not flushed lies beyond the last reported flush position, and
beyond what the two queues let through: with `lsn_mapping` all flushed locally, the last reported
receive position and (no hold being released) the caller's; otherwise, the entries flushed
locally. -/
def Behind (s : SyncRun) (recvpos : Nat) : Prop :=
  ∀ c ∈ s.commits, s.syncFlush < c.localEnd →
    s.fb.lastFlushpos < c.remoteEnd ∧
    if ∀ pos ∈ s.fb.lsnMapping, pos.localEnd ≤ s.localFlush then
      s.fb.lastRecvpos < c.remoteEnd ∧
        (anyReleased s.syncFlush s.fb.syncReplicaLsn = true ∨ recvpos < c.remoteEnd)
    else ∀ pos ∈ s.fb.lsnMapping, pos.localEnd ≤ s.localFlush → pos.remoteEnd < c.remoteEnd
  deriving Decidable

/-- The receive position of a report, before it is clamped by the last one. -/
def recvposOf (s : SyncRun) (recvpos : Nat) : Nat :=
  (getFeedbackPosition s.syncFlush recvpos 0 0 s.fb.maxRecvpos s.fb.syncReplicaLsn).recvpos

def flushposOf (s : SyncRun) (recvpos : Nat) : Nat :=
  max (if (getFlushPosition s.localFlush s.fb.lsnMapping).nothingOutstanding then
      max (s.recvposOf recvpos) s.fb.lastRecvpos
    else (getFlushPosition s.localFlush s.fb.lsnMapping).flush) s.fb.lastFlushpos

theorem feedback_flush {force : Bool} {msg : StatusMessage}
    (h : (s.feedback recvpos force).2 = some msg) : msg.flush = s.flushposOf recvpos :=
  sendStatus_flush h

theorem feedback_forced (s : SyncRun) (recvpos : Nat) :
    ∃ msg, (s.feedback recvpos true).2 = some msg ∧ msg.flush = s.flushposOf recvpos :=
  ⟨_, rfl, rfl⟩

theorem recvposOf_lt_iff (hinv : s.Inv) (hc : c ∈ s.commits) (hunsynced : s.syncFlush < c.localEnd) :
    s.recvposOf recvpos < c.remoteEnd ↔
      (anyReleased s.syncFlush s.fb.syncReplicaLsn = true ∨ recvpos < c.remoteEnd) := by
  rcases getFeedbackPosition_recvpos s.syncFlush recvpos 0 0 s.fb.maxRecvpos s.fb.syncReplicaLsn
    with ⟨hany, hold, hmem, hle, heq⟩ | ⟨hany, heq⟩
  · have hlt : hold.localCommitLsn < c.localEnd := hle.trans_lt hunsynced
    have hremote : hold.remoteRecvpos < c.remoteEnd :=
      hinv.increasing.remoteEnd_lt (hinv.holds hold hmem) hc hlt
    unfold recvposOf
    simp only [heq, hany, hremote, true_or]
  · unfold recvposOf
    simp [heq, hany]

theorem flushposOf_lt_iff (hinv : s.Inv) (hc : c ∈ s.commits) (hunsynced : s.syncFlush < c.localEnd) :
    s.flushposOf recvpos < c.remoteEnd ↔
      s.fb.lastFlushpos < c.remoteEnd ∧
      if ∀ pos ∈ s.fb.lsnMapping, pos.localEnd ≤ s.localFlush then
        s.fb.lastRecvpos < c.remoteEnd ∧
          (anyReleased s.syncFlush s.fb.syncReplicaLsn = true ∨ recvpos < c.remoteEnd)
      else ∀ pos ∈ s.fb.lsnMapping, pos.localEnd ≤ s.localFlush → pos.remoteEnd < c.remoteEnd := by
  have hmapping : Increasing s.fb.lsnMapping := hinv.increasing.sublist hinv.mapping.sublist
  rw [flushposOf, Nat.max_lt, and_comm]
  refine and_congr_right fun _ => ?_
  by_cases hall : ∀ pos ∈ s.fb.lsnMapping, pos.localEnd ≤ s.localFlush
  · rw [if_pos ((getFlushPosition_nothingOutstanding _ _).mpr hall), if_pos hall, Nat.max_lt,
      recvposOf_lt_iff hinv hc hunsynced, and_comm]
  · rw [if_neg fun h => hall ((getFlushPosition_nothingOutstanding _ _).mp h), if_neg hall]
    exact getFlushPosition_flush_lt_iff hmapping (hinv.positive c hc)

/-- **When no report gets ahead of the standby.** In every state a run reaches, a report with
receive position `recvpos` keeps behind every commit the standby has not flushed exactly when
those commits lie beyond what the queues let through. -/
theorem sendFeedback_respects_standby_iff {localFlush syncFlush : Nat} {events : List Event}
    {s : SyncRun} (hrun : Runs.run step (init localFlush syncFlush) events = some s)
    (recvpos : Nat) : s.Respects recvpos ↔ s.Behind recvpos := by
  have hinv := inv_run hrun
  constructor
  · intro hsafe c hc hunsynced
    obtain ⟨msg, hmsg, hflush⟩ := feedback_forced s recvpos
    have hlt := hsafe true msg hmsg c hc hunsynced
    rw [hflush] at hlt
    exact (flushposOf_lt_iff hinv hc hunsynced).mp hlt
  · intro hbehind force msg hmsg c hc hunsynced
    rw [feedback_flush hmsg]
    exact (flushposOf_lt_iff hinv hc hunsynced).mpr (hbehind c hc hunsynced)

/-- Two commits, the first flushed here and on the standby, the second on neither. -/
def heldBack : List Event :=
  [.commit 100 50, .flushLocal 100, .flushStandby 100, .feedback 50 true, .commit 200 80]

theorem sendFeedback_respects_standby_heldBack :
    ∃ s, Runs.run step (init 0 0) heldBack = some s ∧ s.Respects 80 :=
  ⟨_, rfl, (sendFeedback_respects_standby_iff (rfl : Runs.run step (init 0 0) heldBack = _) 80).mpr
    (by decide)⟩

/-- **A report ahead of the standby.** A commit is flushed locally and not on the standby. Its
hold is kept, but its entry leaves `lsn_mapping`, and the next keepalive's position goes out as
the flush position. -/
theorem keepalive_ahead_of_standby :
    ∃ s, Runs.run step (init 0 0) [.commit 100 50, .flushLocal 100] = some s ∧
      (s.feedback 50 true).2 = some ⟨50, 50, 50⟩ ∧
      (⟨100, 50⟩ : SPKFlushPosition) ∈ s.commits ∧ s.syncFlush < 100 :=
  ⟨_, rfl, by decide, by decide, by decide⟩

/-! ## One report after another -/

/-- The last reported positions are not before those of the message. -/
def Reported (m : StatusMessage) (s : SyncRun) : Prop :=
  m.write ≤ s.fb.lastRecvpos ∧ m.flush ≤ s.fb.lastFlushpos ∧ m.apply ≤ s.fb.lastWritepos

variable {s' : SyncRun}

theorem feedback_cases (s : SyncRun) (recvpos : Nat) (force : Bool)
    (hs' : s' = { s with fb := (s.feedback recvpos force).1 }) :
    ((s.feedback recvpos force).2 = none ∧ ∀ m, Reported m s → Reported m s') ∨
      ∃ m, (s.feedback recvpos force).2 = some m ∧ Reported m s' ∧
        ∀ m', Reported m' s → m'.write ≤ m.write ∧ m'.flush ≤ m.flush ∧ m'.apply ≤ m.apply := by
  subst hs'
  unfold feedback sendFeedback Reported
  dsimp only
  rcases sendStatus_cases _ _ _ force _ with heq | heq
  · rw [heq]
    exact .inl ⟨rfl, fun _ hm => hm⟩
  · rw [heq]
    refine .inr ⟨_, rfl, ?_, fun m' hm' => ?_⟩ <;> dsimp only <;> omega

theorem Reported.step {m : StatusMessage} {e : Event} (hm : Reported m s)
    (h : s.step e = some s') : Reported m s' := by
  cases e with
  | commit | flushLocal | flushStandby =>
    obtain ⟨-, rfl⟩ := Runs.of_guard h
    exact hm
  | feedback recvpos force =>
    rcases feedback_cases s recvpos force (Option.some.inj h).symm with
      ⟨-, hkept⟩ | ⟨m', -, hm', hle⟩
    · exact hkept m hm
    · have := hle m hm
      unfold Reported at hm' ⊢
      omega

/-- **Reports never go back.** Whatever happens between two messages of `send_feedback`, no position of
the later one is before that of the earlier one. The message of `request_initial_status_update`, which
goes out before the loop of the worker and names its start position, is not one of them. -/
theorem reports_never_go_back {events : List Event} {r : Nat} {force f : Bool}
    {m m' : StatusMessage} (hsent : (s.feedback recvpos force).2 = some m)
    (hrun : Runs.run step s (.feedback recvpos force :: events) = some s')
    (hsent' : (s'.feedback r f).2 = some m') :
    m.write ≤ m'.write ∧ m.flush ≤ m'.flush ∧ m.apply ≤ m'.apply := by
  obtain ⟨s₁, hstep, hrun⟩ := Runs.run_cons_eq_some.mp hrun
  rcases feedback_cases s recvpos force (Option.some.inj hstep).symm with
    ⟨hnone, -⟩ | ⟨_, hfirst, hm, -⟩
  · rw [hnone] at hsent
    cases hsent
  cases hsent.symm.trans hfirst
  have hm' : Reported m s' :=
    Runs.run_invariant (fun _ _ _ hm hstep => Reported.step hm hstep) hm hrun
  rcases feedback_cases s' r f rfl with ⟨hnone, -⟩ | ⟨_, hlast, -, hle⟩
  · rw [hnone] at hsent'
    cases hsent'
  cases hsent'.symm.trans hlast
  exact hle m hm'

/-- The second report has the entry of a commit that is not flushed before it. -/
theorem reports_never_go_back_unflushed :
    ∃ s', Runs.run step (init 100 0) [.feedback 80 true, .commit 200 90] = some s' ∧
      (s'.feedback 90 true).2 = some ⟨90, 80, 90⟩ ∧ 80 ≤ 90 := by
  have hrun : Runs.run step (init 100 0) [.feedback 80 true, .commit 200 90] = some _ := rfl
  have hsent : ((init 100 0).feedback 80 true).2 = some ⟨80, 80, 80⟩ := rfl
  exact ⟨_, hrun, rfl, (reports_never_go_back hsent hrun (r := 90) (f := true) rfl).1⟩

end SyncRun

end Spock
