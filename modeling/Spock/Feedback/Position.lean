import Mathlib.Data.List.TakeWhile
import Mathlib.Order.Basic
import Spock.Basic

/-!
# Spock — the positions an apply worker reports

`send_feedback` tells the publisher how far the worker has written, flushed and applied the
publisher's WAL; the publisher keeps no WAL before the flush position. It is computed from two
queues. `lsn_mapping` pairs the local end of every commit with its remote end, and
`get_flush_position` takes off it what the local WAL flush has passed. With a synchronous standby
`sync_replica_lsn` holds back positions until the standby has flushed the commit
(`append_feedback_position`, `get_feedback_position`). Both are lists here, head first.
-/

namespace Spock

open List

/-- `SPKFlushPosition`. -/
structure SPKFlushPosition where
  localEnd : Nat
  remoteEnd : Nat
  deriving DecidableEq

/-- `RemoteSyncPosition`. -/
structure RemoteSyncPosition where
  localCommitLsn : Nat
  remoteRecvpos : Nat
  remoteFlushpos : Nat
  remoteWritepos : Nat
  deriving DecidableEq

/-- What `get_flush_position` returns and leaves in `lsn_mapping`. -/
structure FlushPosition where
  write : Nat
  flush : Nat
  nothingOutstanding : Bool
  lsnMapping : List SPKFlushPosition
  deriving DecidableEq

/-- The loop of `get_flush_position`. -/
def getFlushPositionFrom (localFlush : Nat) : Nat → Nat → List SPKFlushPosition → FlushPosition
  | write, flush, [] => ⟨write, flush, true, []⟩
  | _, flush, pos :: rest =>
    if pos.localEnd ≤ localFlush then
      getFlushPositionFrom localFlush pos.remoteEnd pos.remoteEnd rest
    else
      -- the write position comes from the tail of the list
      ⟨(rest.getLastD pos).remoteEnd, flush, false, pos :: rest⟩

def getFlushPosition (localFlush : Nat) (lsnMapping : List SPKFlushPosition) : FlushPosition :=
  getFlushPositionFrom localFlush 0 0 lsnMapping

/-- The output variables of `get_feedback_position`. -/
structure FeedbackPosition where
  recvpos : Nat
  writepos : Nat
  flushpos : Nat
  maxRecvpos : Nat
  syncReplicaLsn : List RemoteSyncPosition
  deriving DecidableEq

/-- The loop of `get_feedback_position`: every hold the standby has flushed is released, the
others stay. -/
def getFeedbackPosition (syncFlush recvpos writepos flushpos maxRecvpos : Nat) :
    List RemoteSyncPosition → FeedbackPosition
  | [] => ⟨recvpos, writepos, flushpos, maxRecvpos, []⟩
  | hold :: rest =>
    if hold.localCommitLsn ≤ syncFlush then
      getFeedbackPosition syncFlush hold.remoteRecvpos hold.remoteWritepos hold.remoteFlushpos
        maxRecvpos rest
    else
      let r := getFeedbackPosition syncFlush recvpos writepos flushpos hold.remoteRecvpos rest
      { r with syncReplicaLsn := hold :: r.syncReplicaLsn }

/-- The two queues and the statics of `send_feedback`. -/
structure FeedbackState where
  lsnMapping : List SPKFlushPosition
  syncReplicaLsn : List RemoteSyncPosition
  maxRecvpos : Nat
  lastRecvpos : Nat
  lastWritepos : Nat
  lastFlushpos : Nat
  deriving DecidableEq

def FeedbackState.init : FeedbackState := ⟨[], [], 0, 0, 0, 0⟩

structure StatusMessage where
  write : Nat
  flush : Nat
  apply : Nat
  deriving DecidableEq

/-- `append_feedback_position`. It takes flushed entries off `lsn_mapping` like a report does. -/
def appendFeedbackPosition (localFlush localCommitLsn remoteCommitLsn : Nat)
    (fb : FeedbackState) : FeedbackState :=
  let p := getFlushPosition localFlush fb.lsnMapping
  let write := if p.nothingOutstanding then remoteCommitLsn else p.write
  let flush := if p.nothingOutstanding then remoteCommitLsn else p.flush
  { fb with
    lsnMapping := p.lsnMapping
    syncReplicaLsn := fb.syncReplicaLsn ++ [⟨localCommitLsn, remoteCommitLsn, flush, write⟩] }

/-- Add a commit to `lsn_mapping`. -/
def FeedbackState.track (fb : FeedbackState) (localEnd remoteEnd : Nat) : FeedbackState :=
  { fb with lsnMapping := fb.lsnMapping ++ [⟨localEnd, remoteEnd⟩] }

/-- The end of `send_feedback`: no message when nothing changed and none is forced. -/
def sendStatus (recvpos writepos flushpos : Nat) (force : Bool) (fb : FeedbackState) :
    FeedbackState × Option StatusMessage :=
  if !force && writepos == fb.lastWritepos && flushpos == fb.lastFlushpos then (fb, none)
  else
    ({ fb with
        lastRecvpos := max recvpos fb.lastRecvpos
        lastWritepos := max writepos fb.lastWritepos
        lastFlushpos := max flushpos fb.lastFlushpos },
      some ⟨recvpos, flushpos, writepos⟩)

/-- `send_feedback`. `syncFlush` is the standby's flush position when one is defined. -/
def sendFeedback (syncFlush : Option Nat) (localFlush recvpos : Nat) (force : Bool)
    (fb : FeedbackState) : FeedbackState × Option StatusMessage :=
  let q : FeedbackPosition :=
    match syncFlush with
    | some f => getFeedbackPosition f recvpos 0 0 fb.maxRecvpos fb.syncReplicaLsn
    | none => ⟨recvpos, 0, 0, fb.maxRecvpos, fb.syncReplicaLsn⟩
  let recvpos := max q.recvpos fb.lastRecvpos
  let p := getFlushPosition localFlush fb.lsnMapping
  let writepos := max (if p.nothingOutstanding then recvpos else p.write) fb.lastWritepos
  let flushpos := max (if p.nothingOutstanding then recvpos else p.flush) fb.lastFlushpos
  sendStatus recvpos writepos flushpos force { fb with
    lsnMapping := p.lsnMapping
    syncReplicaLsn := q.syncReplicaLsn
    maxRecvpos := q.maxRecvpos }

/-! ## `get_flush_position` -/

theorem getFlushPositionFrom_lsnMapping (localFlush write flush : Nat) (l : List SPKFlushPosition) :
    (getFlushPositionFrom localFlush write flush l).lsnMapping
      = l.dropWhile fun pos => pos.localEnd ≤ localFlush := by
  induction l generalizing write flush with
  | nil => rfl
  | cons pos _ ih =>
    by_cases h : pos.localEnd ≤ localFlush
    · rw [getFlushPositionFrom, if_pos h, ih, dropWhile_cons_of_pos (by simpa using h)]
    · rw [getFlushPositionFrom, if_neg h, dropWhile_cons_of_neg (by simpa using h)]

theorem getFlushPositionFrom_nothingOutstanding (localFlush write flush : Nat)
    (l : List SPKFlushPosition) :
    (getFlushPositionFrom localFlush write flush l).nothingOutstanding = true ↔
      ∀ pos ∈ l, pos.localEnd ≤ localFlush := by
  induction l generalizing write flush with
  | nil => simp [getFlushPositionFrom]
  | cons pos _ ih =>
    by_cases h : pos.localEnd ≤ localFlush
    · rw [getFlushPositionFrom, if_pos h, ih]
      simp [h]
    · rw [getFlushPositionFrom, if_neg h]
      simp [h]

/-- When there is nothing left to flush. -/
theorem getFlushPosition_nothingOutstanding (localFlush : Nat) (l : List SPKFlushPosition) :
    (getFlushPosition localFlush l).nothingOutstanding = true ↔
      ∀ pos ∈ l, pos.localEnd ≤ localFlush :=
  getFlushPositionFrom_nothingOutstanding localFlush 0 0 l

def Increasing (l : List SPKFlushPosition) : Prop :=
  l.Pairwise fun p q => p.localEnd < q.localEnd ∧ p.remoteEnd < q.remoteEnd

variable {l : List SPKFlushPosition} {localFlush write flush recvpos writepos flushpos : Nat}

theorem Increasing.remoteEnd_lt (hl : Increasing l) {p q : SPKFlushPosition} (hp : p ∈ l)
    (hq : q ∈ l) (hlt : p.localEnd < q.localEnd) : p.remoteEnd < q.remoteEnd := by
  induction l with
  | nil => exact absurd hp not_mem_nil
  | cons _ _ ih =>
    obtain ⟨ha, hl'⟩ := pairwise_cons.mp hl
    rcases mem_cons.mp hp with rfl | hp' <;> rcases mem_cons.mp hq with rfl | hq'
    · exact absurd hlt (Nat.lt_irrefl _)
    · exact (ha q hq').2
    · exact absurd hlt (Nat.lt_asymm (ha p hp').1)
    · exact ih hl' hp' hq'

/-- **Which positions the flush position stays below.** -/
theorem getFlushPositionFrom_flush_lt_iff {r : Nat} (hl : Increasing l)
    (hflush : ∀ pos ∈ l, flush ≤ pos.remoteEnd) :
    (getFlushPositionFrom localFlush write flush l).flush < r ↔
      flush < r ∧ ∀ pos ∈ l, pos.localEnd ≤ localFlush → pos.remoteEnd < r := by
  induction l generalizing write flush with
  | nil => simp [getFlushPositionFrom]
  | cons pos l ih =>
    obtain ⟨hpos, hl'⟩ := pairwise_cons.mp hl
    by_cases h : pos.localEnd ≤ localFlush
    · rw [getFlushPositionFrom, if_pos h, ih hl' fun q hq => (hpos q hq).2.le]
      have hle := hflush pos (by simp)
      simp only [mem_cons, forall_eq_or_imp, h, true_imp_iff]
      constructor
      · rintro ⟨hr, hrest⟩
        exact ⟨by omega, hr, hrest⟩
      · rintro ⟨-, hr, hrest⟩
        exact ⟨hr, hrest⟩
    · -- entries after one that is not flushed are not flushed either
      rw [getFlushPositionFrom, if_neg h]
      have hnone : ∀ q ∈ pos :: l, ¬ q.localEnd ≤ localFlush := by
        intro q hq
        rcases mem_cons.mp hq with rfl | hq
        · exact h
        · have := (hpos q hq).1
          omega
      exact ⟨fun hr => ⟨hr, fun q hq hle => absurd hle (hnone q hq)⟩, fun hr => hr.1⟩

/-- Which positions the flush position stays below. -/
theorem getFlushPosition_flush_lt_iff {r : Nat} (hl : Increasing l) (hr : 0 < r) :
    (getFlushPosition localFlush l).flush < r ↔
      ∀ pos ∈ l, pos.localEnd ≤ localFlush → pos.remoteEnd < r := by
  rw [getFlushPosition, getFlushPositionFrom_flush_lt_iff hl fun _ _ => Nat.zero_le _]
  simp [hr]

/-- With remote ends that never decrease, the flush position is that of an entry which is flushed
and not behind any entry that is not. -/
theorem getFlushPositionFrom_flush (hl : l.Pairwise fun p q => p.remoteEnd ≤ q.remoteEnd) :
    (getFlushPositionFrom localFlush write flush l).flush = flush ∨
    ∃ q ∈ l, q.localEnd ≤ localFlush ∧
      (getFlushPositionFrom localFlush write flush l).flush = q.remoteEnd ∧
      ∀ p ∈ l, localFlush < p.localEnd → q.remoteEnd ≤ p.remoteEnd := by
  induction l generalizing write flush with
  | nil => exact .inl rfl
  | cons pos _ ih =>
    obtain ⟨hpos, hl'⟩ := pairwise_cons.mp hl
    by_cases h : pos.localEnd ≤ localFlush
    · rw [getFlushPositionFrom, if_pos h]
      right
      rcases @ih pos.remoteEnd pos.remoteEnd hl' with heq | ⟨q, hq, hle, heq, hafter⟩
      · refine ⟨pos, by simp, h, heq, fun p hp hlt => ?_⟩
        rcases mem_cons.mp hp with rfl | hp
        · omega
        · exact hpos p hp
      · refine ⟨q, by simp [hq], hle, heq, fun p hp hlt => ?_⟩
        rcases mem_cons.mp hp with rfl | hp
        · omega
        · exact hafter p hp hlt
    · rw [getFlushPositionFrom, if_neg h]
      exact .inl rfl

/-! ## `get_feedback_position` -/

def anyReleased (syncFlush : Nat) (holds : List RemoteSyncPosition) : Bool :=
  holds.any fun hold => hold.localCommitLsn ≤ syncFlush

/-- The receive position after the holds were looked through. -/
theorem getFeedbackPosition_recvpos (syncFlush recvpos writepos flushpos maxRecvpos : Nat)
    (holds : List RemoteSyncPosition) :
    (anyReleased syncFlush holds = true ∧ ∃ hold ∈ holds, hold.localCommitLsn ≤ syncFlush ∧
      (getFeedbackPosition syncFlush recvpos writepos flushpos maxRecvpos holds).recvpos
        = hold.remoteRecvpos) ∨
    (anyReleased syncFlush holds = false ∧
      (getFeedbackPosition syncFlush recvpos writepos flushpos maxRecvpos holds).recvpos
        = recvpos) := by
  induction holds generalizing recvpos writepos flushpos maxRecvpos with
  | nil => exact .inr ⟨rfl, rfl⟩
  | cons hold _ ih =>
    by_cases h : hold.localCommitLsn ≤ syncFlush
    · rw [getFeedbackPosition, if_pos h]
      left
      refine ⟨by simp [anyReleased, h], ?_⟩
      rcases ih hold.remoteRecvpos hold.remoteWritepos hold.remoteFlushpos maxRecvpos with
        ⟨-, q, hq, hle, heq⟩ | ⟨-, heq⟩
      · exact ⟨q, by simp [hq], hle, heq⟩
      · exact ⟨hold, by simp, h, heq⟩
    · rw [getFeedbackPosition, if_neg h]
      rcases ih recvpos writepos flushpos hold.remoteRecvpos with ⟨hany, q, hq, hle, heq⟩ | ⟨hany, heq⟩
      · exact .inl ⟨by simpa [anyReleased, h] using hany, q, by simp [hq], hle, heq⟩
      · exact .inr ⟨by simpa [anyReleased, h] using hany, heq⟩

theorem mem_getFeedbackPosition_syncReplicaLsn {syncFlush maxRecvpos : Nat}
    {holds : List RemoteSyncPosition} {hold : RemoteSyncPosition}
    (h : hold ∈ (getFeedbackPosition syncFlush recvpos writepos flushpos maxRecvpos
      holds).syncReplicaLsn) : hold ∈ holds := by
  induction holds generalizing recvpos writepos flushpos maxRecvpos with
  | nil => exact absurd h not_mem_nil
  | cons q _ ih =>
    by_cases hq : q.localCommitLsn ≤ syncFlush
    · rw [getFeedbackPosition, if_pos hq] at h
      exact mem_cons_of_mem _ (ih h)
    · rw [getFeedbackPosition, if_neg hq] at h
      rcases mem_cons.mp h with rfl | h
      · exact mem_cons_self
      · exact mem_cons_of_mem _ (ih h)

/-! ## The message -/

@[simp] theorem sendStatus_lsnMapping (recvpos writepos flushpos : Nat) (force : Bool)
    (fb : FeedbackState) :
    (sendStatus recvpos writepos flushpos force fb).1.lsnMapping = fb.lsnMapping := by
  unfold sendStatus
  split <;> rfl

@[simp] theorem sendStatus_syncReplicaLsn (recvpos writepos flushpos : Nat) (force : Bool)
    (fb : FeedbackState) :
    (sendStatus recvpos writepos flushpos force fb).1.syncReplicaLsn = fb.syncReplicaLsn := by
  unfold sendStatus
  split <;> rfl

theorem sendStatus_flush {force : Bool} {fb : FeedbackState} {msg : StatusMessage}
    (h : (sendStatus recvpos writepos flushpos force fb).2 = some msg) : msg.flush = flushpos := by
  unfold sendStatus at h
  split at h
  · cases h
  · cases h
    rfl

theorem sendStatus_cases (recvpos writepos flushpos : Nat) (force : Bool) (fb : FeedbackState) :
    sendStatus recvpos writepos flushpos force fb = (fb, none) ∨
    sendStatus recvpos writepos flushpos force fb = ({ fb with
        lastRecvpos := max recvpos fb.lastRecvpos
        lastWritepos := max writepos fb.lastWritepos
        lastFlushpos := max flushpos fb.lastFlushpos },
      some ⟨recvpos, flushpos, writepos⟩) := by
  unfold sendStatus
  split
  · exact .inl rfl
  · exact .inr rfl

def reportedFlush (localFlush recvpos : Nat) (fb : FeedbackState) : Nat :=
  let p := getFlushPosition localFlush fb.lsnMapping
  max (if p.nothingOutstanding then max recvpos fb.lastRecvpos else p.flush) fb.lastFlushpos

theorem sendFeedback_none (localFlush recvpos : Nat) (force : Bool) (fb : FeedbackState) :
    (sendFeedback none localFlush recvpos force fb).1.lsnMapping
      = (getFlushPosition localFlush fb.lsnMapping).lsnMapping ∧
    (((sendFeedback none localFlush recvpos force fb).2 = none ∧
      (sendFeedback none localFlush recvpos force fb).1.lastRecvpos = fb.lastRecvpos ∧
      (sendFeedback none localFlush recvpos force fb).1.lastFlushpos = fb.lastFlushpos) ∨
    ((sendFeedback none localFlush recvpos force fb).2.map StatusMessage.flush
        = some (reportedFlush localFlush recvpos fb) ∧
      (sendFeedback none localFlush recvpos force fb).1.lastRecvpos = max recvpos fb.lastRecvpos ∧
      (sendFeedback none localFlush recvpos force fb).1.lastFlushpos
        = reportedFlush localFlush recvpos fb)) := by
  unfold sendFeedback
  dsimp only
  rcases sendStatus_cases _ _ _ force _ with heq | heq
  · rw [heq]
    exact ⟨rfl, .inl ⟨rfl, rfl, rfl⟩⟩
  · rw [heq]
    refine ⟨rfl, .inr ⟨rfl, ?_, Nat.max_eq_left (Nat.le_max_right _ _)⟩⟩
    show max (max recvpos fb.lastRecvpos) fb.lastRecvpos = max recvpos fb.lastRecvpos
    omega

end Spock
