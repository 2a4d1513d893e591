import Spock.Worker.Log
import Spock.Worker.Stream

/-!
# Spock — what the replication origin has passed

The origin position says where the stream starts again. It is moved by every commit of the session
that writes WAL, to `replorigin_session_origin_lsn`, which `handle_begin` sets to the start of the
remote commit record and `handle_commit` to its end just before the local commit. A position is
*covered* when every transaction whose commit record starts before it has been settled: applied,
deliberately discarded, skipped, or empty.

The staged position is not taken back when the local commit fails. From then until the next BEGIN
any commit of the worker's own moves the origin past a transaction that is still to be replayed.

* **`settle_sound`**, **`handleCommit_sound`** — how COMMIT moves the position;
* **`origin_passes_settled`** — every run of such steps.
-/

namespace Spock

open Outcome List Option

/-! ## Settled transactions -/

def LocalCommit.settles (c : LocalCommit) (commitLsn : Nat) : Bool :=
  c.ended.any fun e => e.commitLsn == commitLsn && e.settles

def Settled (commits : List LocalCommit) (t : RemoteTxn) : Prop :=
  t.isEmpty = true ∨ ∃ c ∈ commits, c.settles t.commitLsn = true
  deriving Decidable

/-- Every transaction whose commit record starts before `lsn` is settled. -/
def Covered (pub : Publisher) (commits : List LocalCommit) (lsn : Nat) : Prop :=
  ∀ t ∈ pub.history, t.commitLsn < lsn → Settled commits t

variable {pub : Publisher} {sub : Subscription} {n n' : Node}

variable {l : List LocalCommit} {t : RemoteTxn} {f : Durable → Durable} {m : WalMessage}

variable {l' : List LocalCommit} {lsn : Nat} {o : EntryOutcome} {e : WorkerEvent} {n₀ : Node}
  {events : List WorkerEvent}

theorem Settled.mono (h : Settled l t) (hl : l <+: l') :
    Settled l' t := h.imp_right fun ⟨c, hc, hs⟩ => ⟨c, hl.subset hc, hs⟩

theorem Covered.mono (h : Covered pub l lsn) (hl : l <+: l') :
    Covered pub l' lsn := fun t ht hlt => (h t ht hlt).mono hl

theorem Covered.max {a b : Nat} (ha : Covered pub l a) (hb : Covered pub l b) :
    Covered pub l (Max.max a b) := by
  intro t ht hlt
  rcases (by omega : t.commitLsn < a ∨ t.commitLsn < b) with hlt | hlt
  · exact ha t ht hlt
  · exact hb t ht hlt

/-! ## The log -/

/-- Each prefix of the log covers the position that it recovers to. -/
abbrev Sound (pub : Publisher) : Node → Prop := LogInv fun l d => Covered pub l d.origin

theorem Sound.covered (h : Sound pub n) : Covered pub n.commits n.origin := h.current

theorem Sound.commitTransaction (h : Sound pub n) (wal : Bool) (hf : ∀ d, (f d).origin = d.origin)
    (effects : List Effect) (ended : Option Ended) (hsession : ∀ c : LocalCommit, c.ended = ended →
      Covered pub (n.commits ++ [c]) n.sessionOriginLsn) :
    Sound pub (n.commitTransaction wal f effects ended) := by
  refine h.concat rfl rfl rfl ?_
  have horigin : ∀ c, Covered pub (n.commits ++ [c]) n.origin :=
    fun c => h.covered.mono (prefix_append n.commits [c])
  cases wal with
  | false => exact horigin _
  | true =>
    show Covered pub _ (f _).origin
    rw [hf]
    exact (horigin _).max (hsession _ rfl)

theorem Sound.advance (h : Sound pub n) (hlsn : Covered pub n.commits lsn) :
    Sound pub (n.reploriginSessionAdvance lsn) := by
  refine h.concat rfl rfl rfl ?_
  exact (h.covered.max hlsn).mono (prefix_append n.commits _)

theorem Sound.commitOther (h : Sound pub n) (hf : ∀ d, (f d).origin = d.origin) :
    Sound pub (n.commitOther f) := by
  refine h.concat rfl rfl rfl ?_
  show Covered pub _ (f n.durable).origin
  rw [hf]
  exact h.covered.mono (prefix_append n.commits _)

/-! ## The stream -/

/-- A transaction is still to come, or it is the one being attempted, or it is settled. -/
def Sent (pub : Publisher) (n : Node) : Prop :=
  ∀ t ∈ pub.history, t ∈ n.later ∨ (n.attempt ≠ none ∧ n.cur = some t) ∨ Settled n.commits t

def AsidesCovered (pub : Publisher) (n : Node) : Prop :=
  ∀ m ∈ n.queue, ∀ lsn, m.entry = .message lsn false → Covered pub n.commits lsn

structure Grown (n n' : Node) : Prop extends ConnKept n n' where
  commits : n.commits <+: n'.commits

theorem Grown.trans {n₁ n₂ n₃ : Node} (h : Grown n₁ n₂) (h' : Grown n₂ n₃) : Grown n₁ n₃ :=
  ⟨h.toConnKept.trans h'.toConnKept, h.commits.trans h'.commits⟩

instance : IsPreorder Node Grown where
  refl n := ⟨ConnKept.refl n, List.prefix_refl _⟩
  trans _ _ _ := Grown.trans

theorem Frame.grown (h : Frame n n') : Grown n n' :=
  ⟨h.connKept, by rw [h.commits]⟩

theorem AsidesCovered.grown (h : AsidesCovered pub n) (hg : Grown n n') : AsidesCovered pub n' := by
  intro m hm lsn hlsn
  rcases hg.queue with hq | hq
  · rw [hq] at hm
    exact (h m hm lsn hlsn).mono hg.commits
  · rw [hq] at hm
    cases hm

theorem Sent.grown (h : Sent pub n) (hg : Grown n n')
    (hattempt : n'.queue = n.queue ∨ ∀ t, n.cur = some t → Settled n'.commits t) : Sent pub n' := by
  intro t ht
  rw [hg.later, hg.cur]
  rcases h t ht with hlater | ⟨ha, hcur⟩ | hdone
  · exact .inl hlater
  · rcases hattempt with hq | hdone
    · exact .inr (.inl ⟨by rwa [Node.attempt, hq], hcur⟩)
    · exact .inr (.inr (hdone t hcur))
  · exact .inr (.inr (hdone.mono hg.commits))

theorem Sent.covered_commitLsn (h : Sent pub n) (hconn : ConnWf pub n) (hcur : n.cur = some t) :
    Covered pub n.commits t.commitLsn := by
  intro u hu hlt
  rcases h u hu with hlater | ⟨-, hcur'⟩ | hdone
  · have := hconn.ordered hcur hlater
    have := t.commitLsn_lt
    omega
  · cases hcur.symm.trans hcur'
    omega
  · exact hdone

theorem Sent.covered_endLsn (h : Sent pub n) (hconn : ConnWf pub n) (hcur : n.cur = some t)
    {commits : List LocalCommit} (hcommits : n.commits <+: commits) (hdone : Settled commits t) :
    Covered pub commits t.endLsn := by
  intro u hu hlt
  rcases h u hu with hlater | ⟨-, hcur'⟩ | hdone'
  · have := hconn.ordered hcur hlater
    omega
  · cases hcur.symm.trans hcur'
    exact hdone
  · exact hdone'.mono hcommits

theorem Sent.covered_positionSent (h : Sent pub n) (hattempt : n.attempt = none)
    (hsent : n.positionSent lsn = true) : Covered pub n.commits lsn := by
  intro u hu hlt
  rcases h u hu with hlater | ⟨ha, -⟩ | hdone
  · have hle := all_eq_true.mp hsent u (mem_append_right _ hlater)
    simp only [decide_eq_true_eq] at hle
    omega
  · exact absurd hattempt ha
  · exact hdone

/-! ## COMMIT -/

/-- The session's position is covered, unless a failed commit left it staged. -/
def SessionOk (pub : Publisher) (n : Node) : Prop :=
  n.commitFailed = true ∨ Covered pub n.commits n.sessionOriginLsn

theorem commitRemote_sound (hsound : Sound pub n) (hsent : Sent pub n) (hconn : ConnWf pub n)
    (hcur : n.cur = some t)
    (hsession : n.sessionOriginLsn = if n.mustDisable then t.commitLsn else t.endLsn)
    (skipped : Bool) :
    Sound pub (n.commitRemote t.commitLsn t.endLsn skipped) ∧
    Covered pub (n.commitRemote t.commitLsn t.endLsn skipped).commits n.sessionOriginLsn ∧
    (n.mustDisable = false → Settled (n.commitRemote t.commitLsn t.endLsn skipped).commits t) := by
  have hdone : ∀ c : LocalCommit, c.ended = some (n.ended t.commitLsn t.endLsn skipped) →
      n.mustDisable = false → Settled (n.commits ++ [c]) t := by
    intro c hc hdis
    refine .inr ⟨c, by simp, ?_⟩
    rw [LocalCommit.settles, hc, any_some, Node.ended_settles hdis]
    simp [Node.ended]
  have hcovered : ∀ c : LocalCommit, c.ended = some (n.ended t.commitLsn t.endLsn skipped) →
      Covered pub (n.commits ++ [c]) n.sessionOriginLsn := by
    intro c hc
    have hpre : n.commits <+: n.commits ++ [c] := prefix_append _ _
    rw [hsession]
    split
    · exact (hsent.covered_commitLsn hconn hcur).mono hpre
    · rename_i hdis
      exact hsent.covered_endLsn hconn hcur hpre (hdone c hc (Bool.eq_false_iff.mpr hdis))
  exact ⟨hsound.commitTransaction _ (Node.resetSkipLsn_origin _) _ _ hcovered, hcovered _ rfl,
    hdone _ rfl⟩

/-- What COMMIT needs: the stream is known, and the session stands at the transaction. -/
structure AtCommit (pub : Publisher) (t : RemoteTxn) (n : Node) : Prop where
  sound : Sound pub n
  sent : Sent pub n
  conn : ConnWf pub n
  cur : n.cur = some t
  session : n.sessionOriginLsn = t.commitLsn

section

variable (h : AtCommit pub t n)

include h

theorem AtCommit.sessionOk : SessionOk pub n :=
  .inr (h.session ▸ h.sent.covered_commitLsn h.conn h.cur)

theorem AtCommit.same (hs : StreamFrame n n') (hl : LogSame n n')
    (hsession : n'.sessionOriginLsn = n.sessionOriginLsn) :
    AtCommit pub t n' where
  sound := h.sound.same hl
  sent := h.sent.grown ⟨hs.connKept, by rw [hl.commits]⟩ (.inl hs.queue)
  conn := h.conn.kept hs.connKept (.inl hs.queue)
  cur := hs.cur.trans h.cur
  session := hsession.trans h.session

theorem commitLocally_sound (skipped : Bool) (env : CommitEnv) :
    Ends (commitLocally sub t.commitLsn t.endLsn skipped env) n
      (fun _ n' => (Sound pub n' ∧ Covered pub n'.commits n'.sessionOriginLsn) ∧
        Settled n'.commits t)
      (fun _ n' => Sound pub n' ∧ SessionOk pub n') := by
  have hclear : AtCommit pub t n.clearSubscriptionSkipLsn :=
    h.same ⟨rfl, rfl, rfl, rfl, rfl⟩ .of_eq rfl
  refine commitLocally_ends (fun _ _ => ⟨hclear.sound, hclear.sessionOk⟩) ?_
  have hsession := Node.stageOriginLsn_session h.session t.endLsn
  have hsound : Sound pub (n.clearSubscriptionSkipLsn.stageOriginLsn t.endLsn).clearDiscarded :=
    { h.sound with }
  obtain ⟨hsound', hcovered, hdone⟩ := commitRemote_sound hsound hclear.sent
    { h.conn with } h.cur hsession skipped
  refine commitStaged_ends (fun _ _ => ?_) (fun _ _ => ?_) fun hdis => ?_
  · exact ⟨{ hsound with }, .inl rfl⟩
  · exact ⟨{ hsound' with }, .inr hcovered⟩
  · exact ⟨⟨{ hsound' with }, hcovered⟩, hdone hdis⟩

theorem settle_sound (hempty : n.xact = none → t.isEmpty = true)
    (skipped : Bool) (env : CommitEnv) :
    Ends (settle sub t.commitLsn t.endLsn skipped env) n
      (fun _ n' => (Sound pub n' ∧ Covered pub n'.commits n'.sessionOriginLsn) ∧
        Settled n'.commits t)
      (fun _ n' => Sound pub n' ∧ SessionOk pub n') := by
  refine settle_ends (fun _ => commitLocally_sound h skipped env) fun hnone => ?_
  have hdone : Settled n.commits t := .inl (hempty hnone)
  have hpre : n.commits <+: (n.reploriginSessionAdvance t.endLsn).commits :=
    prefix_append _ _
  refine ⟨⟨?_, ?_⟩, hdone.mono hpre⟩
  · exact h.sound.advance (h.sent.covered_endLsn h.conn h.cur (prefix_refl _) hdone)
  · show Covered pub _ n.sessionOriginLsn
    rw [h.session]
    exact (h.sent.covered_commitLsn h.conn h.cur).mono hpre

end

def SoundSession (pub : Publisher) (n : Node) : Prop :=
  Sound pub n ∧ Covered pub n.commits n.sessionOriginLsn

theorem SoundSession.commitTransaction (h : SoundSession pub n) (hf : ∀ d, (f d).origin = d.origin) :
    SoundSession pub (n.commitTransaction true f [] none) :=
  ⟨h.1.commitTransaction true hf [] none fun c _ => h.2.mono (prefix_append _ [c]),
    h.2.mono (prefix_append _ _)⟩

theorem SoundSession.commitOwn (h : SoundSession pub n) (wrote : Bool) :
    SoundSession pub (n.commitOwn wrote) := by
  cases wrote
  · exact h
  · exact h.commitTransaction fun _ => rfl

def KeepsSession (pub : Publisher) (n n' : Node) : Prop := SoundSession pub n → SoundSession pub n'

instance : IsPreorder Node (KeepsSession pub) where
  refl := fun _ h => h
  trans _ _ _ h h' hs := h' (h hs)

theorem keepsSession_finishStages (pub : Publisher) : FinishStages (KeepsSession pub) where
  commitOwn := fun _ h => h.commitTransaction fun _ => rfl
  leave := fun _ h => ⟨{ h.1 with }, h.2⟩
  flushWal := fun _ h => ⟨{ h.1 with }, h.2⟩
  reset := fun _ h => ⟨{ h.1 with }, h.2⟩

theorem grown_enterStages : EnterStages Grown := by
  constructor <;> intros <;> exact ⟨⟨.inl rfl, rfl, rfl, rfl⟩, prefix_refl _⟩

theorem grown_settleStages : SettleStages Grown := by
  constructor <;> intros <;> refine ⟨⟨.inl rfl, rfl, rfl, rfl⟩, ?_⟩ <;>
    first | exact prefix_append _ _ | exact prefix_refl _

theorem grown_finishStages : FinishStages Grown where
  commitOwn := fun _ => ⟨⟨.inl rfl, rfl, rfl, rfl⟩, prefix_append _ _⟩
  leave := fun _ => ⟨⟨.inl rfl, rfl, rfl, rfl⟩, prefix_refl _⟩
  flushWal := fun _ => ⟨⟨.inl rfl, rfl, rfl, rfl⟩, prefix_refl _⟩
  reset := fun _ => ⟨⟨.inr rfl, rfl, rfl, rfl⟩, prefix_refl _⟩

/-! ## The invariant of a running worker -/

/-- The log is sound, the session's position is covered, and every transaction is still to come,
under way or settled. -/
structure OriginInv (pub : Publisher) (n : Node) : Prop where
  sound : Sound pub n
  session : SessionOk pub n
  sent : Sent pub n
  asides : AsidesCovered pub n

theorem SessionSame.sessionOk (hs : SessionSame n n') (h : SessionOk pub n) : SessionOk pub n' := by
  rw [SessionOk, hs.commitFailed, hs.commits, hs.session]
  exact h

theorem OriginInv.same (h : OriginInv pub n) (hs : SessionSame n n') : OriginInv pub n' where
  sound := h.sound.same hs.toLogSame
  session := hs.sessionOk h.session
  sent := by
    unfold Sent Node.attempt
    rw [hs.later, hs.queue, hs.cur, hs.commits]
    exact h.sent
  asides := by
    unfold AsidesCovered
    rw [hs.queue, hs.commits]
    exact h.asides

/-! ## Each message -/

section Messages

variable {pre done : List WalMessage}

theorem Taken.handleBegin_originInv (ht : Taken pub n t pre done m) (h : OriginInv pub n)
    (hm : m.entry = .begin lsn) (fault : Option Fault) :
    Ends (handleBegin sub lsn fault) n (fun _ n' => OriginInv pub n') (fun _ n' => OriginInv pub n') := by
  obtain ⟨-, rfl, -⟩ := ht.begin_eq hm
  have hcovered := h.sent.covered_commitLsn ht.conn ht.cur
  have hinv : ∀ n', Frame n n' → SessionOk pub n' → OriginInv pub n' := fun n' hf hs =>
    ⟨h.sound.same hf.logSame, hs, h.sent.grown hf.grown (.inl hf.queue), h.asides.grown hf.grown⟩
  refine ((keeps_handleBegin n).and (handleBegin_ends)).mono ?_ ?_
  · rintro _ n' ⟨hf, -, hsession, -⟩
    exact hinv n' hf (.inr (by rw [hsession, hf.commits]; exact hcovered))
  · rintro _ n' ⟨hf, ⟨hsession, hfailed⟩ | ⟨hsession, -⟩⟩
    · refine hinv n' hf ?_
      rw [SessionOk, hsession, hfailed, hf.commits]
      exact h.session
    · exact hinv n' hf (.inr (by rw [hsession, hf.commits]; exact hcovered))

theorem handleCommit_sound (h : AtCommit pub t n)
    (hempty : n.xact = none → n.isSkippingChanges = false → t.isEmpty = true) (env : CommitEnv) :
    Ends (handleCommit sub t.commitLsn t.endLsn env) n
      (fun _ n' => SoundSession pub n' ∧ Settled n'.commits t)
      (fun _ n' => (Sound pub n' ∧ SessionOk pub n') ∧
        (n'.queue = n.queue ∨ Settled n'.commits t)) := by
  have hfinish : ∀ m : Node, SoundSession pub m → Settled m.commits t →
      Ends (finishCommit sub t.endLsn env) m
        (fun _ n' => SoundSession pub n' ∧ Settled n'.commits t)
        (fun _ n' => (Sound pub n' ∧ SessionOk pub n') ∧
          (n'.queue = n.queue ∨ Settled n'.commits t)) := by
    intro m hm hdone
    refine ((keeps_finishCommit_of (keepsSession_finishStages pub) m).and
      (keeps_finishCommit_of grown_finishStages m)).mono ?_ ?_
    · exact fun _ n' hn' => ⟨hn'.1 hm, hdone.mono hn'.2.commits⟩
    · exact fun _ n' hn' => ⟨⟨(hn'.1 hm).1, .inr (hn'.1 hm).2⟩, .inr (hdone.mono hn'.2.commits)⟩
  have hsettle : ∀ (skipped : Bool) (m : Node), AtCommit pub t m → m.queue = n.queue →
      (m.xact = none → t.isEmpty = true) →
      Ends (settle sub t.commitLsn t.endLsn skipped env) m
        (fun _ n' => Ends (finishCommit sub t.endLsn env) n'
          (fun _ n' => SoundSession pub n' ∧ Settled n'.commits t)
          (fun _ n' => (Sound pub n' ∧ SessionOk pub n') ∧
            (n'.queue = n.queue ∨ Settled n'.commits t)))
        (fun _ n' => (Sound pub n' ∧ SessionOk pub n') ∧
          (n'.queue = n.queue ∨ Settled n'.commits t)) := by
    intro skipped m hm hqueue hnone
    refine ((settle_sound hm hnone skipped env).and
      (keeps_settle_of queueSame_settleStages m)).mono ?_ ?_
    · exact fun _ n' hn' => hfinish n' hn'.1.1 hn'.1.2
    · exact fun _ n' hn' => ⟨hn'.1, .inl (Eq.trans hn'.2 hqueue)⟩
  have hload : AtCommit pub t (n.actionCommit.reload env.reload) :=
    h.same ⟨rfl, rfl, rfl, rfl, rfl⟩ .of_eq rfl
  refine handleCommit_ends (fun _ _ => ⟨⟨hload.sound, hload.sessionOk⟩, .inl rfl⟩)
    (fun hskip => ?_) fun _ => ?_
  · exact hsettle false _ hload rfl fun hnone => hempty hnone hskip
  · refine hsettle true _ (hload.same ⟨rfl, rfl, rfl, rfl, rfl⟩ .of_eq rfl) rfl fun hnone => ?_
    exact (some_ne_none _ hnone).elim

theorem Taken.handleCommit_originInv (ht : Taken pub n t pre done m) (h : OriginInv pub n)
    {c e : Nat} (hm : m.entry = .commit c e) (env : CommitEnv) :
    Ends (handleCommit sub c e env) n (fun _ n' => OriginInv pub n')
      (fun _ n' => OriginInv pub n') := by
  obtain ⟨-, rfl, rfl, -⟩ := ht.commit_eq hm
  have hat : AtCommit pub t n :=
    ⟨h.sound, h.sent, ht.conn, ht.cur, ht.session (ht.inRemote_of_commit hm)⟩
  have hinv : ∀ n', Grown n n' → Sound pub n' → SessionOk pub n' →
      (n'.queue = n.queue ∨ Settled n'.commits t) → OriginInv pub n' := by
    intro n' hg hsound hsession hor
    refine ⟨hsound, hsession, h.sent.grown hg (hor.imp_right fun hdone u hu => ?_), h.asides.grown hg⟩
    cases ht.cur.symm.trans hu
    exact hdone
  refine ((keeps_handleCommit_of grown_enterStages grown_settleStages grown_finishStages n).and (handleCommit_sound hat (ht.isEmpty_of_commit hm) env)).mono ?_ ?_
  · exact fun _ n' hn' => hinv n' hn'.1 hn'.2.1.1 (.inr hn'.2.1.2) (.inr hn'.2.2)
  · exact fun _ n' hn' => hinv n' hn'.1 hn'.2.1.1 hn'.2.1.2 hn'.2.2

theorem OriginInv.advance (h : OriginInv pub n) (hlsn : Covered pub n.commits lsn) :
    OriginInv pub (n.reploriginSessionAdvance lsn) := by
  have hg : Grown n (n.reploriginSessionAdvance lsn) :=
    ⟨⟨.inl rfl, rfl, rfl, rfl⟩, prefix_append _ _⟩
  exact ⟨h.sound.advance hlsn, h.session.imp_right fun hs => hs.mono hg.commits,
    h.sent.grown hg (.inl rfl), h.asides.grown hg⟩

theorem handleMessage_originInv (h : OriginInv pub n) (hm : m ∈ n.queue) {transactional : Bool}
    (hentry : m.entry = .message lsn transactional) (fault : Option Fault) :
    Ends (handleMessage lsn transactional fault) n (fun _ n' => OriginInv pub n')
      (fun _ n' => OriginInv pub n') := by
  refine (handleMessage_ends).mono ?_ fun _ _ heq => heq ▸ h
  rintro _ n' (rfl | ⟨rfl, rfl⟩)
  · exact h
  · exact h.advance (h.asides m hm lsn hentry)

theorem raiseIf_originInv (h : OriginInv pub n) (fault : Option Fault) :
    Ends (raiseIf fault) n (fun _ n' => OriginInv pub n') (fun _ n' => OriginInv pub n') := by
  cases fault <;> exact h

/-- **One message** of the current transaction, or one sent before it. -/
theorem Taken.dispatch_originInv (ht : Taken pub n t pre done m) (h : OriginInv pub n)
    {o : EntryOutcome} {x : Handler} (hx : dispatch sub m.entry o = some x) :
    Ends x n (fun _ n' => OriginInv pub n') (fun _ n' => OriginInv pub n') := by
  have hmem : m ∈ n.queue := by simp [ht.queue]
  have hsame : ∀ {y : Handler}, Keeps FrameSession y →
      Ends y n (fun _ n' => OriginInv pub n') (fun _ n' => OriginInv pub n') := fun hy =>
    (hy n).mono (fun _ _ hf => h.same hf.sessionSame) fun _ _ hf => h.same hf.sessionSame
  refine dispatch_ends hx (fun lsn fault hm _ => ht.handleBegin_originInv h hm fault)
    (fun id result _ _ => hsame (keeps_handleChange))
    (fun c e env hm _ => ht.handleCommit_originInv h hm env) (fun fault _ _ => ?_)
    (fun lsn transactional fault hm _ => handleMessage_originInv h hmem hm fault)
    fun fault _ _ => raiseIf_originInv h fault
  exact (keeps_handleOrigin n).mono (fun _ _ hf => h.same hf.sessionSame)
    fun _ _ hf => h.same hf.sessionSame

end Messages

/-! ## Steps -/

theorem originInv_handle (hstep : n.handle sub m o = some n') (h : OriginInv pub n)
    (hx : ∀ x, dispatch sub m.entry o = some x → Ends x n.resetAction
      (fun _ n' => OriginInv pub n') (fun _ n' => OriginInv pub n')) : OriginInv pub n' :=
  handle_of_ends hstep h hx fun e n' hn' => hn'.same (sessionSame_finish n' e)

theorem AsidesCovered.receive (h : AsidesCovered pub n)
    (hm : ∀ lsn, m.entry = .message lsn false → Covered pub n.commits lsn) :
    ∀ m' ∈ n.queue ++ [m], ∀ lsn, m'.entry = .message lsn false → Covered pub n.commits lsn := by
  intro m' hm' lsn hlsn
  rcases mem_append.mp hm' with hm' | hm'
  · exact h m' hm' lsn hlsn
  · rw [mem_singleton.mp hm'] at hlsn
    exact hm lsn hlsn

theorem Taken.not_aside {pre done : List WalMessage} (h : Taken pub n t pre done m)
    (hbegun : attemptOf done ≠ none) : m.entry ≠ .message lsn false := by
  intro hm
  rcases split_messages h.asides h.split with ⟨-, hdone, -⟩ | ⟨-, hdone, -⟩ | ⟨b₁, b₂, hbody, -⟩ |
    ⟨heq, -⟩
  · exact hbegun (attemptOf_asides hdone)
  · exact hbegun (attemptOf_asides hdone)
  · have hinner := t.body_inner m (by simp [hbody])
    rw [hm] at hinner
    cases hinner
  · rw [heq] at hm
    cases hm

theorem originInv_next {p : Node} (h : OriginInv pub n) (hnext : Next pub n m p) :
    OriginInv pub p := by
  cases hnext with
  | aside | replayed => exact h.same .of_eq
  | received _ _ hattempt _ _ hnew htaken =>
    refine ⟨{ h.sound with }, h.session, fun t ht => ?_, ?_⟩
    · rcases h.sent t ht with hlater | ⟨-, hcur⟩ | hdone
      · exact .inl hlater
      · exact .inr (.inl ⟨by simp [hnew], hcur⟩)
      · exact .inr (.inr hdone)
    · have hbegun : attemptOf n.queue ≠ none := by
        rw [show attemptOf n.queue = some _ from hattempt]
        simp
      exact h.asides.receive fun _ hlsn => absurd hlsn (htaken.not_aside hbegun)
  | begun _ _ hattempt _ hlater hnew =>
    refine ⟨{ h.sound with }, h.session, fun u hu => ?_, ?_⟩
    · rcases h.sent u hu with hlater' | ⟨ha, -⟩ | hdone
      · rw [hlater] at hlater'
        rcases mem_cons.mp hlater' with rfl | hlater'
        · exact .inr (.inl ⟨by simp [hnew], rfl⟩)
        · exact .inl hlater'
      · exact absurd hattempt ha
      · exact .inr (.inr hdone)
    · exact h.asides.receive fun _ hlsn => by cases hlsn

theorem originInv_handleNext (hstep : n.handleNext sub o = some n') (hwf : Wf pub n)
    (h : OriginInv pub n) : OriginInv pub n' := by
  rcases Node.handleNext_next hwf hstep with ⟨-, rfl⟩ | ⟨m, p, hnext, hhandle⟩
  · exact h.same .of_eq
  have hp := originInv_next h hnext
  have hreset : OriginInv pub p.resetAction := hp.same .of_eq
  refine originInv_handle hhandle hp fun x hx => ?_
  cases hnext with
  | aside _ rest _ hreplay haside =>
    have hmem : m ∈ n.queue := hwf.rest.subset (by rw [Node.rest, hreplay]; exact mem_cons_self)
    exact dispatch_aside_ends haside hx
      (fun lsn transactional fault hm _ => handleMessage_originInv hreset hmem hm fault)
      fun fault _ _ => raiseIf_originInv hreset fault
  | replayed _ _ _ _ htaken | received _ _ _ _ _ _ htaken | begun _ _ _ _ _ _ htaken =>
    exact htaken.dispatch_originInv hreset hx

theorem OriginInv.commitOwn (h : OriginInv pub n) {wrote : Bool}
    (hsafe : wrote = true → n.commitFailed = false) : OriginInv pub (n.commitOwn wrote) := by
  cases wrote with
  | false => exact h
  | true =>
    have hcovered : Covered pub n.commits n.sessionOriginLsn :=
      h.session.resolve_left (by rw [hsafe rfl]; decide)
    obtain ⟨hsound, hsession⟩ := SoundSession.commitOwn ⟨h.sound, hcovered⟩ true
    have hg := grown_finishStages.commitOwn n
    exact ⟨hsound, .inr hsession, h.sent.grown hg (.inl rfl), h.asides.grown hg⟩

theorem OriginInv.commitOther (h : OriginInv pub n) (hf : ∀ d, (f d).origin = d.origin) :
    OriginInv pub (n.commitOther f) := by
  have hg : Grown n (n.commitOther f) := ⟨⟨.inl rfl, rfl, rfl, rfl⟩, prefix_append _ _⟩
  exact ⟨h.sound.commitOther hf, h.session.imp_right fun hs => hs.mono hg.commits,
    h.sent.grown hg (.inl rfl), h.asides.grown hg⟩

theorem originInv_start (h : Sound pub n) (config : WorkerConfig) :
    OriginInv pub (n.start pub config) := by
  refine ⟨{ h with }, .inr fun t _ hlt => absurd hlt (Nat.not_lt_zero _),
    fun t ht => ?_, fun m hm => by cases hm⟩
  by_cases hle : n.origin ≤ t.commitLsn
  · exact .inl (mem_filter.mpr ⟨ht, by simpa using hle⟩)
  · exact .inr (.inr (h.covered t ht (by omega)))

theorem Node.leaveInner_commitFailed (n : Node) : n.leaveInner.commitFailed = n.commitFailed :=
  leaveInner_of (P := fun m => m.commitFailed = n.commitFailed) rfl rfl

theorem originInv_leaveInner (h : OriginInv pub n) : OriginInv pub n.leaveInner :=
  Node.leaveInner_of (h.same .of_eq)
    (h.same .of_eq)

namespace Node

/-- While the position of a failed commit is staged, no commit of the worker's own writes WAL. -/
def ownCommitSafe (n : Node) : WorkerEvent → Bool
  | .cleanup wrote => !(n.commitFailed && wrote)
  | .afterInner wrote _ => !(n.commitFailed && !n.inRemoteTransaction && wrote)
  | .disable => !(n.commitFailed && n.xact.isNone)
  | _ => true

end Node

/-- The whole invariant: of the log always, of the session while the process lives, of the stream
while it is in its loops. -/
structure OriginRun (pub : Publisher) (n : Node) : Prop where
  sound : Sound pub n
  disabling : n.pc = .disabling → SessionOk pub n
  looping : n.looping → Wf pub n ∧ OriginInv pub n

theorem OriginRun.of_inv (hwf : n.looping → Wf pub n) (h : OriginInv pub n) : OriginRun pub n :=
  ⟨h.sound, fun _ => h.session, fun hloop => ⟨hwf hloop, h⟩⟩

theorem OriginRun.same (h : OriginRun pub n) (hs : SessionSame n n') (hpc : n'.pc = n.pc)
    (hwf : n'.looping → Wf pub n') : OriginRun pub n' := by
  refine ⟨h.sound.same hs.toLogSame, fun hd => ?_, fun hloop => ⟨hwf hloop, ?_⟩⟩
  · exact hs.sessionOk (h.disabling (hpc ▸ hd))
  · exact (h.looping (by rwa [Node.looping, hpc] at hloop)).2.same hs

theorem OriginRun.commitOther (h : OriginRun pub n) (hf : ∀ d, (f d).origin = d.origin)
    (hwf : (n.commitOther f).looping → Wf pub (n.commitOther f)) :
    OriginRun pub (n.commitOther f) :=
  ⟨h.sound.commitOther hf,
    fun hd => (h.disabling hd).imp_right fun hs => hs.mono (prefix_append _ _),
    fun hloop => ⟨hwf hloop, (h.looping hloop).2.commitOther hf⟩⟩

theorem Sound.stopped (h : Sound pub n) (hpc : n.pc = .stopped) : OriginRun pub n := by
  refine ⟨h, fun hd => ?_, fun hloop => ?_⟩
  · cases hpc.symm.trans hd
  · simp [Node.looping, hpc] at hloop

theorem Sound.exit (h : Sound pub n) : OriginRun pub n.exit :=
  Sound.stopped { h with } rfl

/-- **One step.** -/
theorem originRun_step (h : OriginRun pub n) (hsafe : n.ownCommitSafe e = true)
    (hstep : n.step sub pub e = some n') : OriginRun pub n' := by
  have hwf : n'.looping → Wf pub n' := Node.wf_step (fun hl => (h.looping hl).1) hstep
  have houter : n.pc = .outer → OriginInv pub n := fun hpc => (h.looping (.inl hpc)).2
  have hinner : n.pc = .inner → Wf pub n ∧ OriginInv pub n :=
    fun hpc => h.looping (.inr (.inl hpc))
  have hafter : n.pc = .afterInner → OriginInv pub n := fun hpc => (h.looping (.inr (.inr hpc))).2
  cases Node.step_cases hstep with
  | start config => exact .of_inv hwf (originInv_start h.sound config)
  | crash kept => exact Sound.stopped (h.sound.recover kept) rfl
  | exit | outerExit | disableOpen => exact h.sound.exit
  | sigterm | flush | reload | keepalive =>
    exact h.same .of_eq rfl hwf
  | enable | setSkipLsn => exact h.commitOther (fun _ => rfl) hwf
  | readonly => exact h
  | cleanup _ hpc =>
    refine .of_inv hwf ((houter hpc).commitOwn fun hw => ?_)
    simpa [Node.ownCommitSafe, hw] using hsafe
  | outerError f hpc => exact .of_inv hwf ((houter hpc).same (sessionSame_catchError n f))
  | enterInner hpc =>
    exact .of_inv hwf ((houter hpc).same .of_eq)
  | stopInner _ hpc =>
    exact .of_inv hwf ((hinner hpc).2.same .of_eq)
  | next _ hpc _ hnext =>
    exact .of_inv hwf (originInv_handleNext hnext (hinner hpc).1 (hinner hpc).2)
  | aside m fault hpc hreplay htodo haside _ _ hlsn hhandle =>
    obtain ⟨hwf₀, hinv⟩ := hinner hpc
    have hattempt := Node.attempt_none hwf₀ (by rw [Node.rest, hreplay]; rfl) htodo
    have hreceive : OriginInv pub (n.receive m) := by
      refine ⟨{ hinv.sound with }, hinv.session, fun t ht => ?_, ?_⟩
      · exact (hinv.sent t ht).imp_right fun hor => hor.imp_left fun ha => absurd hattempt ha.1
      · exact hinv.asides.receive fun lsn hm =>
          hinv.sent.covered_positionSent hattempt (hlsn lsn false hm)
    have hreset : OriginInv pub (n.receive m).resetAction :=
      hreceive.same .of_eq
    have hmem : m ∈ (n.receive m).queue := mem_append_right _ (mem_singleton.mpr rfl)
    refine .of_inv hwf (originInv_handle hhandle hreceive fun x hx => ?_)
    exact dispatch_aside_ends haside hx
      (fun lsn transactional fault hm _ => handleMessage_originInv hreset hmem hm fault)
      fun fault _ _ => raiseIf_originInv hreset fault
  | interrupt f hpc => exact .of_inv hwf ((hinner hpc).2.same (sessionSame_catchError n f))
  | afterDisabling _ _ hpc =>
    exact .of_inv hwf ((hafter hpc).same .of_eq)
  | afterRemote _ _ hpc => exact .of_inv hwf (originInv_leaveInner (hafter hpc))
  | afterOwn _ hpc hremote =>
    refine .of_inv hwf ((originInv_leaveInner (hafter hpc)).commitOwn fun hw => ?_)
    rw [n.leaveInner_commitFailed]
    simpa [Node.ownCommitSafe, hremote, hw] using hsafe
  | afterError _ f hpc hremote =>
    refine .of_inv hwf (.same (.commitOwn (originInv_leaveInner (hafter hpc)) fun hw => ?_)
      (sessionSame_catchError _ f))
    rw [n.leaveInner_commitFailed]
    simpa [Node.ownCommitSafe, hremote, hw] using hsafe
  | disable hpc hxact =>
    have hsession : Covered pub n.commits n.sessionOriginLsn := by
      refine (h.disabling hpc).resolve_left ?_
      simpa [Node.ownCommitSafe, hxact] using hsafe
    have hcommit : SoundSession pub n.commitDisabled :=
      SoundSession.commitTransaction
        (f := fun d => { d with enabled := false, subSkipLsn := n.skiplsn })
        ⟨h.sound, hsession⟩ fun _ => rfl
    exact hcommit.1.exit

theorem originRun_initial (hinit : n₀.Initial pub) : OriginRun pub n₀ := by
  have horigin : Covered pub [] n₀.base.origin := by
    intro t ht hlt
    have hle := hinit.origin t ht
    rw [Node.origin, hinit.durable] at hle
    omega
  exact Sound.stopped (logInv_nil hinit.commits hinit.durable horigin) hinit.stopped

/-- **Every run** in which no failed commit is followed by a commit of the worker's own. -/
theorem originRun_run (hinit : n₀.Initial pub)
    (halong : Runs.Along (Node.step sub pub) (fun n e => n.ownCommitSafe e = true) n₀ events)
    (hrun : Runs.run (Node.step sub pub) n₀ events = some n) : OriginRun pub n :=
  Runs.run_invariant_along (fun _ _ _ h hsafe hstep => originRun_step h hsafe hstep)
    (originRun_initial hinit) halong hrun

/-! ## Failures in SUB_DISABLE mode -/

namespace Node

/-- A reload does not leave SUB_DISABLE while a transaction that failed under it is replayed. -/
def keepsDisabling (n : Node) : WorkerEvent → Bool
  | .reload config =>
    n.failedBehaviour != some .subDisable || config.exceptionBehaviour == .subDisable
  | .inner (.next (.commit env)) =>
    n.failedBehaviour != some .subDisable ||
      env.reload.all fun config => config.exceptionBehaviour == .subDisable
  | _ => true

end Node

/-- A transaction that failed in SUB_DISABLE mode is not settled by a replay. -/
structure DisableInv (n : Node) : Prop where
  records : ∀ c ∈ n.commits, ∀ e, c.ended = some e → e.settles = true →
    e.skipped = true ∨ e.failedBehaviour ≠ some .subDisable
  live : n.failedBehaviour = some .subDisable → n.config.exceptionBehaviour = .subDisable

theorem DisableInv.same (h : DisableInv n) (hcommits : n'.commits = n.commits)
    (hfailed : n'.failedBehaviour = n.failedBehaviour) (hconfig : n'.config = n.config) :
    DisableInv n' :=
  ⟨by rw [hcommits]; exact h.records, by rw [hfailed, hconfig]; exact h.live⟩

theorem Frame.disableInv (hf : Frame n n') (h : DisableInv n) : DisableInv n' :=
  h.same hf.commits hf.failedBehaviour hf.config

theorem DisableInv.concat (h : DisableInv n) {c : LocalCommit}
    (hcommits : n'.commits = n.commits ++ [c]) (hc : ∀ e, c.ended = some e → e.settles = true →
      e.skipped = true ∨ e.failedBehaviour ≠ some .subDisable)
    (hfailed : n'.failedBehaviour = n.failedBehaviour) (hconfig : n'.config = n.config) :
    DisableInv n' := by
  refine ⟨fun c' hc' e he hs => ?_, by rw [hfailed, hconfig]; exact h.live⟩
  rw [hcommits] at hc'
  rcases mem_append.mp hc' with hc' | hc'
  · exact h.records c' hc' e he hs
  · rw [mem_singleton.mp hc'] at he
    exact hc e he hs

theorem DisableInv.commitRemote (h : DisableInv n) (commitLsn endLsn : Nat) (skipped : Bool) :
    DisableInv (n.commitRemote commitLsn endLsn skipped) := by
  refine h.concat rfl (fun e he hs => ?_) rfl rfl
  cases he
  by_contra hcon
  obtain ⟨hskip, hfailed⟩ := not_or.mp hcon
  have hfailed : (if n.useTryBlock then n.failedBehaviour else none) = some .subDisable :=
    not_not.mp hfailed
  obtain ⟨htry, hfailed⟩ := ite_none_right_eq_some.mp hfailed
  have hskip : skipped = false := Bool.eq_false_iff.mpr hskip
  simp [Ended.settles, Ended.disables, Node.ended, hskip, htry, h.live hfailed] at hs

def KeepsDisable (n n' : Node) : Prop := DisableInv n → DisableInv n'

instance : IsPreorder Node KeepsDisable where
  refl := fun _ h => h
  trans _ _ _ h h' hs := h' (h hs)

theorem keepsDisable_settleStages : SettleStages KeepsDisable where
  clearSkip := fun _ h => { h with }
  stage := fun _ _ h => { h with }
  failCommit := fun _ h => { h with }
  commitRemote := fun _ c e skipped h => h.commitRemote c e skipped
  clearLog := fun _ h => { h with }
  track := fun _ _ h => { h with }
  advance := fun _ _ h => h.concat rfl (fun _ he => by cases he) rfl rfl

theorem keepsDisable_finishStages : FinishStages KeepsDisable where
  commitOwn := fun _ h => h.concat rfl (fun _ he => by cases he) rfl rfl
  leave := fun _ h => { h with }
  flushWal := fun _ h => { h with }
  reset := fun _ h => ⟨h.records, nofun⟩

theorem handleCommit_disableInv (h : DisableInv n) {env : CommitEnv}
    (hreload : n.failedBehaviour = some .subDisable → ∀ config, env.reload = some config →
      config.exceptionBehaviour = .subDisable) (commitLsn endLsn : Nat) :
    Ends (handleCommit sub commitLsn endLsn env) n (fun _ n' => DisableInv n')
      (fun _ n' => DisableInv n') := by
  have hload : DisableInv (n.actionCommit.reload env.reload) := by
    refine ⟨h.records, fun hf => ?_⟩
    show (env.reload.getD n.config).exceptionBehaviour = .subDisable
    cases hr : env.reload with
    | none => exact h.live hf
    | some config => exact hreload hf config hr
  have hsettle : ∀ (skipped : Bool) (m : Node), DisableInv m →
      Ends (settle sub commitLsn endLsn skipped env) m
        (fun _ n' => Ends (finishCommit sub endLsn env) n' (fun _ n' => DisableInv n')
          (fun _ n' => DisableInv n')) (fun _ n' => DisableInv n') := by
    intro skipped m hm
    refine (keeps_settle_of keepsDisable_settleStages m).mono
      (fun _ n' hn' => ?_) fun _ _ hn' => hn' hm
    exact (keeps_finishCommit_of keepsDisable_finishStages n').mono
      (fun _ _ hn'' => hn'' (hn' hm)) fun _ _ hn'' => hn'' (hn' hm)
  exact handleCommit_ends (fun _ _ => hload) (fun _ => hsettle _ _ hload)
    fun _ => hsettle _ _ { hload with }

theorem disableInv_catchError (h : DisableInv n) (f : Fault) : DisableInv (n.catchError f) := by
  unfold Node.catchError
  repeat' split
  -- the last is the replay
  on_goal 4 => exact ⟨h.records, some.inj⟩
  all_goals exact { h with }

theorem disableInv_handle (hstep : n.handle sub m o = some n') (h : DisableInv n)
    (hreload : ∀ env, o = .commit env → n.failedBehaviour = some .subDisable →
      ∀ config, env.reload = some config → config.exceptionBehaviour = .subDisable) :
    DisableInv n' := by
  have hreset : DisableInv n.resetAction := { h with }
  refine handle_of_ends (R := fun _ n' => DisableInv n') hstep h (fun x hx => ?_) fun e n' hn' => ?_
  · exact dispatch_ends_of_frame hx (fun _ hf => hf.disableInv hreset)
      (fun _ _ hf => hf.disableInv hreset)
      (fun lsn => keepsDisable_settleStages.advance _ lsn hreset)
      fun c e env _ ho => handleCommit_disableInv hreset (hreload env ho) c e
  · cases e with
    | error f => exact disableInv_catchError hn' f
    | procExit => exact { hn' with }

theorem disableInv_commitOwn (h : DisableInv n) (wrote : Bool) : DisableInv (n.commitOwn wrote) :=
  keepsDisable_finishStages.commitOwn_of n wrote h

theorem disableInv_leaveInner (h : DisableInv n) : DisableInv n.leaveInner :=
  Node.leaveInner_of { h with } { h with }

theorem disableInv_step (h : DisableInv n) (hkeeps : n.keepsDisabling e = true)
    (hstep : n.step sub pub e = some n') : DisableInv n' := by
  cases Node.step_cases hstep with
  | start => exact ⟨h.records, nofun⟩
  | exit | outerExit | disableOpen | sigterm | flush | keepalive | enterInner | stopInner |
    afterDisabling => exact { h with }
  | crash => exact ⟨fun c hc => h.records c (mem_of_mem_take hc), h.live⟩
  | enable | setSkipLsn | disable => exact h.concat rfl (fun _ he => by cases he) rfl rfl
  | reload config =>
    refine ⟨h.records, fun hf => ?_⟩
    have hf : n.failedBehaviour = some .subDisable := hf
    show config.exceptionBehaviour = .subDisable
    simpa [Node.keepsDisabling, hf] using hkeeps
  | readonly => exact h
  | cleanup wrote => exact disableInv_commitOwn h wrote
  | outerError f | interrupt f => exact disableInv_catchError h f
  | next o _ _ hnext =>
    have hreload : ∀ env, o = .commit env → n.failedBehaviour = some .subDisable →
        ∀ config, env.reload = some config → config.exceptionBehaviour = .subDisable := by
      intro env ho hf config hr
      subst ho
      simpa [Node.keepsDisabling, hf, hr] using hkeeps
    rcases Node.handleNext_cases hnext with ⟨m, rest, -, hhandle⟩ | ⟨-, rfl⟩ |
      ⟨m, rest, -, -, hhandle⟩ | ⟨t, later, -, -, -, hhandle⟩
    · exact disableInv_handle hhandle { h with } hreload
    · exact { h with }
    · exact disableInv_handle hhandle { h with } hreload
    · exact disableInv_handle hhandle { h with } hreload
  | aside _ _ _ _ _ _ _ _ _ hhandle =>
    exact disableInv_handle hhandle { h with } fun env ho => by cases ho
  | afterRemote => exact disableInv_leaveInner h
  | afterOwn wrote => exact disableInv_commitOwn (disableInv_leaveInner h) wrote
  | afterError wrote f =>
    exact disableInv_catchError (disableInv_commitOwn (disableInv_leaveInner h) wrote) f

theorem disableInv_run (hinit : n₀.Initial pub)
    (halong : Runs.Along (Node.step sub pub) (fun n e => n.keepsDisabling e = true) n₀ events)
    (hrun : Runs.run (Node.step sub pub) n₀ events = some n) : DisableInv n := by
  refine Runs.run_invariant_along (fun _ _ _ h hkeeps hstep => disableInv_step h hkeeps hstep) ?_
    halong hrun
  refine ⟨fun c hc => ?_, fun hf => ?_⟩
  · rw [hinit.commits] at hc
    cases hc
  · cases hinit.failedBehaviour.symm.trans hf

/-- **The origin passes settled transactions only.** In every run in which no commit of the
worker's own follows a failed commit of a remote transaction before the next BEGIN. If moreover no
reload leaves SUB_DISABLE during the replay of a transaction that failed under it, such a
transaction is passed only when it is skipped, or applied by a later attempt. -/
theorem origin_passes_settled {n₀ : Node} {events : List WorkerEvent} (hinit : n₀.Initial pub)
    (halong : Runs.Along (Node.step sub pub) (fun n e => n.ownCommitSafe e = true) n₀ events)
    (hrun : Runs.run (Node.step sub pub) n₀ events = some n) :
    (∀ t ∈ pub.history, t.commitLsn < n.origin → Settled n.commits t) ∧
    (Runs.Along (Node.step sub pub) (fun n e => n.keepsDisabling e = true) n₀ events →
      ∀ t ∈ pub.history, t.commitLsn < n.origin → t.isEmpty = true ∨
        ∃ c ∈ n.commits, ∃ e, c.ended = some e ∧ e.commitLsn = t.commitLsn ∧ e.settles = true ∧
          (e.skipped = true ∨ e.failedBehaviour ≠ some .subDisable)) := by
  have hsettled := (originRun_run hinit halong hrun).sound.covered
  refine ⟨hsettled, fun hkeeps t ht hlt => (hsettled t ht hlt).imp_right ?_⟩
  rintro ⟨c, hc, hs⟩
  obtain ⟨e, he, hs⟩ := (any_eq_true _ _).mp hs
  obtain ⟨hlsn, hs⟩ := Bool.and_eq_true_iff.mp hs
  exact ⟨c, hc, e, he, by simpa using hlsn, hs, (disableInv_run hinit hkeeps hrun).records c hc e he hs⟩

def appliedRun : List WorkerEvent :=
  [.start ⟨.subDisable, .all, false⟩, .outer none, .nextPlain, .nextWritten, .nextWritten,
    .nextCommit none]

theorem origin_passes_settled_appliedRun :
    ∃ n, Runs.run (Node.step sampleSubscription samplePublisher) sampleNode appliedRun = some n ∧
      n.origin = sampleTxn.endLsn ∧ Settled n.commits sampleTxn := by
  have halong : Runs.Along (Node.step sampleSubscription samplePublisher)
      (fun n e => n.ownCommitSafe e = true) sampleNode appliedRun := by decide
  exact ⟨_, rfl, rfl, (origin_passes_settled sampleNode_initial halong rfl).1 sampleTxn
    mem_cons_self (by decide)⟩

/-- The local commit fails, and the daily cleanup of `spock.resolutions` commits before the
replay. -/
def cleanupRun : List WorkerEvent :=
  [.start ⟨.transdiscard, .all, false⟩, .outer none, .nextPlain, .nextWritten, .nextWritten,
    .nextCommit (some (.commit, sampleFault)), .cleanup true]

/-- A change fails in SUB_DISABLE mode, and the mode is changed before the replay. -/
def reloadRun : List WorkerEvent :=
  [.start ⟨.subDisable, .all, false⟩, .outer none, .nextPlain, .nextWritten,
    .inner (.next (.change (.failed sampleFault))), .reload ⟨.transdiscard, .all, false⟩,
    .outer none, .nextPlain, .nextWritten, .nextWritten, .nextPlain, .nextCommit none]

/-- **A transaction that is passed and lost**, and one that failed in SUB_DISABLE mode and is
discarded. -/
theorem origin_passes_unsettled : sampleNode.Initial samplePublisher ∧
    (∃ n, Runs.run (Node.step sampleSubscription samplePublisher) sampleNode cleanupRun = some n ∧
      sampleTxn.commitLsn < n.origin ∧ ¬ Settled n.commits sampleTxn) ∧
    ∃ n, Runs.run (Node.step sampleSubscription samplePublisher) sampleNode reloadRun = some n ∧
      sampleTxn.commitLsn < n.origin ∧ ∀ c ∈ n.commits,
        c.ended.all (fun e => !e.skipped && e.failedBehaviour == some .subDisable) = true :=
  ⟨sampleNode_initial, ⟨_, rfl, by decide, by decide⟩, ⟨_, rfl, by decide, by decide⟩⟩

end Spock
