import Spock.Worker.Frames

/-!
# Spock — the local log

`commits` is the local log of a node: every commit of the session and every advance of its origin,
with the durable state each one left. After a crash a prefix of the log is left, and the durable
state is the one its last record left. A property of logs and the states they recover to therefore
has to hold of every prefix; `LogInv` says so, and its rules are one for each way the log changes.
-/

namespace Spock

variable {n n' : Node}

def recovered (base : Durable) (commits : List LocalCommit) : Durable :=
  (commits.getLast?.map LocalCommit.after).getD base

@[simp] theorem recovered_concat (base : Durable) (l : List LocalCommit) (c : LocalCommit) :
    recovered base (l ++ [c]) = c.after := by simp [recovered]

/-- The durable state is that of the log, and each prefix of the log is in `P` with the state that
it recovers to. -/
structure LogInv (P : List LocalCommit → Durable → Prop) (n : Node) : Prop where
  durable : n.durable = recovered n.base n.commits
  prefixes : ∀ l, l <+: n.commits → P l (recovered n.base l)

structure LogSame (n n' : Node) : Prop where
  durable : n'.durable = n.durable
  base : n'.base = n.base
  commits : n'.commits = n.commits

theorem LogSame.of_eq (hdurable : n'.durable = n.durable := by rfl)
    (hbase : n'.base = n.base := by rfl) (hcommits : n'.commits = n.commits := by rfl) :
    LogSame n n' :=
  ⟨hdurable, hbase, hcommits⟩

theorem Frame.logSame (h : Frame n n') : LogSame n n' := { h with }

section LogInv

variable {P : List LocalCommit → Durable → Prop}

theorem LogInv.current (h : LogInv P n) : P n.commits n.durable := by
  rw [h.durable]
  exact h.prefixes _ (List.prefix_refl _)

theorem LogInv.same (h : LogInv P n) (hs : LogSame n n') : LogInv P n' :=
  ⟨by rw [hs.durable, hs.base, hs.commits, h.durable],
    by rw [hs.base, hs.commits]; exact h.prefixes⟩

/-- A record is added. -/
theorem LogInv.concat (h : LogInv P n) {c : LocalCommit} (hbase : n'.base = n.base)
    (hcommits : n'.commits = n.commits ++ [c]) (hdurable : n'.durable = c.after)
    (hP : P (n.commits ++ [c]) c.after) : LogInv P n' := by
  refine ⟨by rw [hcommits, recovered_concat, hdurable], fun l hl => ?_⟩
  rw [hcommits, List.prefix_concat_iff] at hl
  rcases hl with rfl | hl
  · rw [recovered_concat]
    exact hP
  · rw [hbase]
    exact h.prefixes l hl

/-- A crash. -/
theorem LogInv.recover (h : LogInv P n) (kept : Nat) : LogInv P (n.recover (n.commits.take kept)) :=
  ⟨rfl, fun _ hl => h.prefixes _ (hl.trans (List.take_prefix kept n.commits))⟩

theorem logInv_nil (hcommits : n.commits = []) (hdurable : n.durable = n.base) (hP : P [] n.base) :
    LogInv P n := by
  refine ⟨by rw [hcommits, hdurable]; rfl, fun l hl => ?_⟩
  rw [hcommits, List.prefix_nil] at hl
  rw [hl]
  exact hP

end LogInv

structure SessionSame (n n' : Node) : Prop extends LogSame n n' where
  session : n'.sessionOriginLsn = n.sessionOriginLsn
  commitFailed : n'.commitFailed = n.commitFailed
  queue : n'.queue = n.queue
  cur : n'.cur = n.cur
  later : n'.later = n.later

theorem SessionSame.of_eq (hlog : LogSame n n' := by exact .of_eq)
    (hsession : n'.sessionOriginLsn = n.sessionOriginLsn := by rfl)
    (hfailed : n'.commitFailed = n.commitFailed := by rfl) (hqueue : n'.queue = n.queue := by rfl)
    (hcur : n'.cur = n.cur := by rfl) (hlater : n'.later = n.later := by rfl) : SessionSame n n' :=
  ⟨hlog, hsession, hfailed, hqueue, hcur, hlater⟩

theorem FrameSession.sessionSame (h : FrameSession n n') : SessionSame n n' :=
  ⟨h.logSame, h.session, h.commitFailed, h.queue, h.cur, h.later⟩

theorem sessionSame_catchError (n : Node) (f : Fault) : SessionSame n (n.catchError f) := by
  unfold Node.catchError
  repeat' split
  all_goals exact .of_eq

theorem sessionSame_finish (n : Node) (e : Raise) : SessionSame n (n.finish e) := by
  cases e with
  | error f => exact sessionSame_catchError n f
  | procExit => exact .of_eq

/-! ## The end of a remote transaction -/

def Ended.disables (e : Ended) : Bool :=
  e.behaviour == .subDisable && (e.hadException || e.tried)

/-- The commit ended the remote transaction for good: it was skipped, or applied without an error,
or discarded in a mode that discards. -/
def Ended.settles (e : Ended) : Bool := e.skipped || !e.disables

theorem Node.ended_disables (n : Node) (commitLsn endLsn : Nat) (skipped : Bool) :
    (n.ended commitLsn endLsn skipped).disables = n.mustDisable := rfl

theorem Node.ended_settles (h : n.mustDisable = false) (commitLsn endLsn : Nat) (skipped : Bool) :
    (n.ended commitLsn endLsn skipped).settles = true := by
  rw [Ended.settles, n.ended_disables, h]
  simp

theorem Node.advancesOrigin_eq (n : Node) : n.advancesOrigin = !n.mustDisable := by
  unfold Node.advancesOrigin Node.mustDisable
  cases n.config.exceptionBehaviour <;> cases n.xactHadException <;> cases n.useTryBlock <;> rfl

theorem Node.resetSkipLsn_origin (clears : Bool) (d : Durable) :
    (Node.resetSkipLsn clears d).origin = d.origin := rfl

theorem Node.stageOriginLsn_session {commitLsn : Nat} (h : n.sessionOriginLsn = commitLsn)
    (endLsn : Nat) :
    (n.clearSubscriptionSkipLsn.stageOriginLsn endLsn).clearDiscarded.sessionOriginLsn
      = if n.mustDisable then commitLsn else endLsn := by
  show (if n.advancesOrigin then endLsn else n.sessionOriginLsn) = _
  rw [n.advancesOrigin_eq, h]
  cases n.mustDisable <;> rfl

end Spock
