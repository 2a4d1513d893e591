import Mathlib.Data.List.Infix
import Spock.Worker.Frames

/-!
# Spock — the replay queue and the stream

Between the BEGIN and the successful COMMIT of a transaction the replay queue holds what the
worker has received of it, and what it has not received is still to come on the connection. An
error does not change that: it only sets the worker back to the head of the queue. This module
proves it of every run, together with what the statics of the worker say about the part of the
transaction that has been handled.
-/

namespace Spock

open Outcome List Option

/-! ## Messages of a transaction in the queue -/

/-- Only messages sent between transactions. -/
def Asides (l : List WalMessage) : Prop := ∀ m ∈ l, m.entry.isAside = true

variable {l : List WalMessage} {pub : Publisher} {n n' : Node}

theorem Asides.append {l' : List WalMessage} (h : Asides l) (h' : Asides l') :
    Asides (l ++ l') := by
  intro m hm
  rcases mem_append.mp hm with hm | hm
  · exact h m hm
  · exact h' m hm

theorem beginLsn_of_isAside {e : Entry} (h : e.isAside = true) : e.beginLsn = none := by
  cases e <;> first | rfl | cases h

theorem isChange_of_isAside {e : Entry} (h : e.isAside = true) : e.isChange = false := by
  cases e <;> first | rfl | cases h

theorem attemptOf_append (l l' : List WalMessage) :
    attemptOf (l ++ l') = (attemptOf l).or (attemptOf l') := findSome?_append

/-- They start no attempt, -/
theorem attemptOf_asides (h : Asides l) : attemptOf l = none := by
  rw [attemptOf, findSome?_eq_none_iff]
  exact fun m hm => beginLsn_of_isAside (h m hm)

/-- and the BEGIN behind them does. -/
theorem attemptOf_begin (pre l : List WalMessage) (t : RemoteTxn) (h : Asides pre) :
    attemptOf (pre ++ t.beginMessage :: l) = some t.commitLsn := by
  rw [attemptOf_append, attemptOf_asides h]
  rfl

variable {m : WalMessage} {t : RemoteTxn}

/-- Adding a message that is no BEGIN does not start an attempt. -/
theorem attemptOf_concat (h : m.entry.beginLsn = none) : attemptOf (l ++ [m]) = attemptOf l := by
  rw [attemptOf_append]
  cases attemptOf l with
  | some => rfl
  | none => simp [attemptOf, h]

theorem RemoteTxn.messages_ne_nil (t : RemoteTxn) : t.messages ≠ [] := cons_ne_nil _ _

/-- **Where a message stands.** It comes before the transaction, or it is its BEGIN, one of its
body, or its COMMIT. -/
theorem split_messages {pre done tail : List WalMessage} (hpre : Asides pre)
    (h : done ++ m :: tail = pre ++ t.messages) :
    (m.entry.isAside = true ∧ Asides done ∧ tail ≠ []) ∨
    (m = t.beginMessage ∧ Asides done ∧ tail = t.body ++ [t.commitMessage]) ∨
    (∃ b₁ b₂, t.body = b₁ ++ m :: b₂ ∧ done = pre ++ t.beginMessage :: b₁ ∧
      tail = b₂ ++ [t.commitMessage]) ∨
    (m = t.commitMessage ∧ done = pre ++ t.beginMessage :: t.body ∧ tail = []) := by
  rcases append_eq_append_iff.mp h with ⟨as, hpre', htail⟩ | ⟨as, hdone, hmsgs⟩
  · cases as with
    | nil =>
      rw [append_nil] at hpre'
      obtain ⟨rfl, rfl⟩ := cons_eq_cons.mp htail
      exact .inr (.inl ⟨rfl, hpre' ▸ hpre, rfl⟩)
    | cons =>
      obtain ⟨rfl, rfl⟩ := cons_eq_cons.mp htail
      refine .inl ⟨hpre m (by simp [hpre']), fun x hx => hpre x (by simp [hpre', hx]), ?_⟩
      exact fun hnil => t.messages_ne_nil (append_eq_nil_iff.mp hnil).2
  · cases as with
    | nil =>
      rw [append_nil] at hdone
      obtain ⟨rfl, rfl⟩ := cons_eq_cons.mp hmsgs
      exact .inr (.inl ⟨rfl, hdone ▸ hpre, rfl⟩)
    | cons _ as =>
      obtain ⟨rfl, hbody⟩ := cons_eq_cons.mp hmsgs
      -- after BEGIN: in the body, or the COMMIT
      rcases append_eq_append_iff.mp hbody with ⟨bs, has, hcommit⟩ | ⟨bs, has, hrest⟩
      · cases bs with
        | nil =>
          obtain ⟨rfl, rfl⟩ := cons_eq_cons.mp hcommit
          rw [append_nil] at has
          exact .inr (.inr (.inr ⟨rfl, by rw [hdone, has], rfl⟩))
        | cons =>
          have hlen := congrArg List.length hcommit
          simp at hlen
      · cases bs with
        | nil =>
          obtain ⟨rfl, rfl⟩ := cons_eq_cons.mp hrest
          rw [append_nil] at has
          exact .inr (.inr (.inr ⟨rfl, by rw [hdone, has], rfl⟩))
        | cons _ bs =>
          obtain ⟨rfl, rfl⟩ := cons_eq_cons.mp hrest
          exact .inr (.inr (.inl ⟨as, bs, has, hdone, rfl⟩))

/-! ## The queue and the connection -/

/-- What is on the connection is the end of the publisher's history, and the queue holds, after
messages sent between transactions, what has been received of the current one. -/
structure ConnWf (pub : Publisher) (n : Node) : Prop where
  suffix : n.cur.toList ++ n.later <:+ pub.history
  idle : n.attempt = none → n.todo = [] ∧ Asides n.queue
  active : ∀ lsn, n.attempt = some lsn → ∃ t pre, n.cur = some t ∧ t.commitLsn = lsn ∧
    Asides pre ∧ n.queue ++ n.todo = pre ++ t.messages

/-- What comes on the connection is in commit order. -/
theorem ConnWf.ordered (h : ConnWf pub n) {u : RemoteTxn} (hcur : n.cur = some t) (hu : u ∈ n.later) :
    t.endLsn ≤ u.commitLsn := by
  have hpairs := pub.ordered.sublist h.suffix.sublist
  rw [hcur] at hpairs
  exact rel_of_pairwise_cons hpairs hu

/-- The connection is the same, and the queue too unless it was reset. -/
structure ConnKept (n n' : Node) : Prop where
  queue : n'.queue = n.queue ∨ n'.queue = []
  cur : n'.cur = n.cur
  todo : n'.todo = n.todo
  later : n'.later = n.later

theorem ConnKept.refl (n : Node) : ConnKept n n := ⟨.inl rfl, rfl, rfl, rfl⟩

theorem ConnKept.trans {n₁ n₂ n₃ : Node} (h : ConnKept n₁ n₂) (h' : ConnKept n₂ n₃) :
    ConnKept n₁ n₃ where
  queue := h'.queue.elim (fun e => e ▸ h.queue) .inr
  cur := h'.cur.trans h.cur
  todo := h'.todo.trans h.todo
  later := h'.later.trans h.later

instance : IsPreorder Node ConnKept where
  refl := ConnKept.refl
  trans _ _ _ := ConnKept.trans

/-- The queue, the replay and the connection are the same. -/
structure StreamFrame (n n' : Node) : Prop where
  queue : n'.queue = n.queue
  replay : n'.replay = n.replay
  cur : n'.cur = n.cur
  todo : n'.todo = n.todo
  later : n'.later = n.later

/-- And what the statics say about the current transaction. -/
structure SameXact (n n' : Node) : Prop extends StreamFrame n n' where
  inRemote : n'.inRemoteTransaction = n.inRemoteTransaction
  session : n'.sessionOriginLsn = n.sessionOriginLsn
  skip : n'.skipXactFinishLsn = n.skipXactFinishLsn
  xact : n'.xact = n.xact

theorem StreamFrame.refl (n : Node) : StreamFrame n n := ⟨rfl, rfl, rfl, rfl, rfl⟩

theorem SameXact.of_eq (hframe : StreamFrame n n' := by exact ⟨rfl, rfl, rfl, rfl, rfl⟩)
    (hinRemote : n'.inRemoteTransaction = n.inRemoteTransaction := by rfl)
    (hsession : n'.sessionOriginLsn = n.sessionOriginLsn := by rfl)
    (hskip : n'.skipXactFinishLsn = n.skipXactFinishLsn := by rfl)
    (hxact : n'.xact = n.xact := by rfl) : SameXact n n' :=
  ⟨hframe, hinRemote, hsession, hskip, hxact⟩

theorem SameXact.refl (n : Node) : SameXact n n := .of_eq

theorem Frame.streamFrame (h : Frame n n') : StreamFrame n n' :=
  { h with }

theorem FrameXact.sameXact (h : FrameXact n n') : SameXact n n' :=
  ⟨h.streamFrame, h.inRemote, h.session, h.skip, h.xact⟩

theorem StreamFrame.connKept (h : StreamFrame n n') : ConnKept n n' :=
  { h with queue := .inl h.queue }

theorem Frame.connKept (h : Frame n n') : ConnKept n n' := h.streamFrame.connKept

/-- A reset of the queue is harmless once the transaction has been received. -/
theorem ConnWf.kept (h : ConnWf pub n) (hk : ConnKept n n')
    (hreset : n'.queue = n.queue ∨ n.todo = []) : ConnWf pub n' := by
  have hsuffix : n'.cur.toList ++ n'.later <:+ pub.history := by
    rw [hk.cur, hk.later]
    exact h.suffix
  have hsame : n'.queue = n.queue → ConnWf pub n' := by
    intro hq
    have hattempt : n'.attempt = n.attempt := by rw [Node.attempt, hq, Node.attempt]
    refine ⟨hsuffix, fun ha => ?_, fun lsn ha => ?_⟩
    · rw [hk.todo, hq]
      exact h.idle (hattempt ▸ ha)
    · rw [hk.todo, hk.cur, hq]
      exact h.active lsn (hattempt ▸ ha)
  rcases hk.queue with hq | hq
  · exact hsame hq
  rcases hreset with hq' | htodo
  · exact hsame hq'
  · refine ⟨hsuffix, fun _ => ⟨hk.todo.trans htodo, by simp [hq, Asides]⟩, fun lsn ha => ?_⟩
    rw [Node.attempt, hq] at ha
    cases ha

/-! ## Between handlers -/

namespace Node

/-- What is left to replay. -/
def rest (n : Node) : List WalMessage := n.replay.getD []

/-- The worker is in the loops of `apply_work`. -/
def looping (n : Node) : Prop := n.pc = .outer ∨ n.pc = .inner ∨ n.pc = .afterInner

/-- An error that leaves the worker in its loops starts a replay. -/
theorem catchError_looping {f : Fault} (h : (n.catchError f).looping) :
    f.isConnection = false ∧ n.mustDisable = false ∧
      n.catchError f = n.noteError.startReplay f := by
  unfold catchError at h ⊢
  split at h
  · simp [looping, exit] at h
  split at h
  · simp [looping] at h
  split at h
  · simp [looping, exit] at h
  · rename_i hconn hdis hagain
    rw [if_neg hconn, if_neg hdis, if_neg hagain]
    exact ⟨Bool.eq_false_iff.mpr hconn, Bool.eq_false_iff.mpr hdis, rfl⟩

/-- A message is handled: its handler ends in `P`, and the errors that leave the worker in its loops
lead there. -/
theorem handle_looping {sub : Subscription} {m : WalMessage} {o : EntryOutcome} {P : Node → Prop}
    {R : Raise → Node → Prop} (hstep : n.handle sub m o = some n') (hexit : R .procExit n)
    (h : ∀ x, dispatch sub m.entry o = some x → Ends x n.resetAction (fun _ n' => P n') R)
    (hcatch : ∀ f n', R (.error f) n' → (n'.catchError f).looping → P (n'.catchError f)) :
    n'.looping → P n' := by
  refine handle_of_ends (P := fun n' => n'.looping → P n') hstep hexit
    (fun x hx => (h x hx).mono (fun _ _ hn' _ => hn') fun _ _ hn' => hn') ?_
  intro e n' hn' hloop
  cases e with
  | error f => exact hcatch f n' hn' hloop
  | procExit => simp [finish, exit, looping] at hloop

end Node

/-- A transaction is being attempted: `done` has been handled, the rest of the queue and of the
stream has not, and its COMMIT is still to be handled. -/
structure Attempting (n : Node) (t : RemoteTxn) (done : List WalMessage) : Prop where
  cur : n.cur = some t
  queue : n.queue = done ++ n.rest
  unfinished : n.rest ++ n.todo ≠ []
  begun : n.inRemoteTransaction = (attemptOf done).isSome
  session : n.inRemoteTransaction = true → n.sessionOriginLsn = t.commitLsn
  closed : n.inRemoteTransaction = false → n.xact = none
  untouched : n.xact = none → n.isSkippingChanges = false → ∀ m ∈ done, m.entry.isChange = false
  effects : ∀ x, n.xact = some x → ∀ e ∈ x.effects, e.commitLsn = t.commitLsn

/-- Between handlers, what has been handled and what remains. -/
structure Wf (pub : Publisher) (n : Node) : Prop extends ConnWf pub n where
  rest : n.rest <:+ n.queue
  resting : n.attempt = none → n.inRemoteTransaction = false ∧ n.xact = none
  attempting : ∀ lsn, n.attempt = some lsn → ∃ t done, Attempting n t done

/-- The invariant does not read the rest of the state. -/
theorem Wf.same (h : Wf pub n) (hs : SameXact n n') : Wf pub n' := by
  have hrest : n'.rest = n.rest := by rw [Node.rest, hs.replay, Node.rest]
  have hattempt : n'.attempt = n.attempt := by rw [Node.attempt, hs.queue, Node.attempt]
  refine ⟨h.toConnWf.kept hs.connKept (.inl hs.queue), ?_, ?_, ?_⟩
  · rw [hrest, hs.queue]
    exact h.rest
  · rw [hattempt, hs.inRemote, hs.xact]
    exact h.resting
  · rw [hattempt]
    intro lsn ha
    obtain ⟨t, done, ht⟩ := h.attempting lsn ha
    refine ⟨t, done, hs.cur.trans ht.cur, ?_, ?_, ?_, ?_, ?_, ?_, ?_⟩
    · rw [hs.queue, hrest]
      exact ht.queue
    · rw [hrest, hs.todo]
      exact ht.unfinished
    · rw [hs.inRemote]
      exact ht.begun
    · rw [hs.inRemote, hs.session]
      exact ht.session
    · rw [hs.inRemote, hs.xact]
      exact ht.closed
    · rw [hs.xact, Node.isSkippingChanges, hs.skip]
      exact ht.untouched
    · rw [hs.xact]
      exact ht.effects

/-- Outside of a remote transaction no local one is open. -/
theorem Wf.xact_none (h : Wf pub n) (hremote : n.inRemoteTransaction = false) : n.xact = none := by
  cases ha : n.attempt with
  | none => exact (h.resting ha).2
  | some lsn =>
    obtain ⟨_, _, ht⟩ := h.attempting lsn ha
    exact ht.closed hremote

/-- **A replay** begins with nothing handled: the whole queue is left, and the local transaction is
gone. -/
theorem wf_startReplay (h : ConnWf pub n) (f : Fault) :
    Wf pub (n.startReplay f) where
  __ := h
  rest := suffix_refl _
  resting := fun _ => ⟨rfl, rfl⟩
  attempting := by
    intro lsn ha
    obtain ⟨t, _, hcur, -, -, hqueue⟩ := h.active lsn ha
    refine ⟨t, [], hcur, rfl, ?_, rfl, fun h => (Bool.false_ne_true h).elim, fun _ => rfl,
      fun _ _ => by simp, fun x hx => (some_ne_none x hx.symm).elim⟩
    show n.queue ++ n.todo ≠ []
    rw [hqueue]
    exact fun hnil => t.messages_ne_nil (append_eq_nil_iff.mp hnil).2

/-- An error anywhere is answered by a replay, if the worker goes on. -/
theorem wf_catchError (h : ConnWf pub n) (f : Fault) (hloop : (n.catchError f).looping) :
    Wf pub (n.catchError f) := by
  rw [(Node.catchError_looping hloop).2.2]
  exact wf_startReplay ({ h with } : ConnWf pub n.noteError) f

/-! ## COMMIT -/

theorem connKept_enterStages : EnterStages ConnKept := by
  constructor <;> intros <;> exact ⟨.inl rfl, rfl, rfl, rfl⟩

theorem connKept_settleStages : SettleStages ConnKept := by
  constructor <;> intros <;> exact ⟨.inl rfl, rfl, rfl, rfl⟩

theorem connKept_finishStages : FinishStages ConnKept where
  commitOwn := fun _ => ⟨.inl rfl, rfl, rfl, rfl⟩
  leave := fun _ => ⟨.inl rfl, rfl, rfl, rfl⟩
  flushWal := fun _ => ⟨.inl rfl, rfl, rfl, rfl⟩
  reset := fun _ => ⟨.inr rfl, rfl, rfl, rfl⟩

/-- The same queue. -/
def QueueSame (n n' : Node) : Prop := n'.queue = n.queue

instance : IsPreorder Node QueueSame where
  refl _ := rfl
  trans _ _ _ h h' := Eq.trans h' h

theorem queueSame_settleStages : SettleStages QueueSame := by
  constructor <;> intros <;> rfl

theorem queueSame_commitOwn (n : Node) (wrote : Bool) : (n.commitOwn wrote).queue = n.queue := by
  cases wrote <;> rfl

/-- Once the transaction is settled, no local one is open. -/
theorem settle_xact (sub : Subscription) (commitLsn endLsn : Nat) (skipped : Bool)
    (env : CommitEnv) (n : Node) :
    Ends (settle sub commitLsn endLsn skipped env) n (fun _ n' => n'.xact = none)
      (fun _ _ => True) := by
  refine settle_ends (fun _ => ?_) fun hnone => hnone
  refine commitLocally_ends (fun _ _ => trivial) ?_
  exact commitStaged_ends (fun _ _ => trivial) (fun _ _ => trivial)
    fun _ => rfl

theorem commitOwn_xact (wrote : Bool) (h : n.xact = none) : (n.commitOwn wrote).xact = none := by
  cases wrote
  · exact h
  · rfl

/-- The worker is at rest. -/
structure AtRest (n : Node) : Prop where
  queue : n.queue = []
  replay : n.replay = none
  inRemote : n.inRemoteTransaction = false
  xact : n.xact = none
  useTry : n.useTryBlock = false

theorem atRest_resetTransaction (h : n.xact = none) (wrote : Bool) :
    AtRest (n.leaveRemoteTransaction.resetTransaction.commitOwn wrote) := by
  cases wrote
  · exact ⟨rfl, rfl, rfl, h, rfl⟩
  · exact ⟨rfl, rfl, rfl, rfl, rfl⟩

/-- A COMMIT that goes through leaves the worker at rest. -/
theorem finishCommit_ok (sub : Subscription) (endLsn : Nat) (env : CommitEnv)
    (hxact : n.xact = none) :
    Ends (finishCommit sub endLsn env) n (fun _ n' => AtRest n') (fun _ _ => True) := by
  refine finishCommit_ends (fun _ _ => trivial) fun m hm => ?_
  have hm : m.xact = none := by
    rcases hm with rfl | rfl
    · exact hxact
    · exact commitOwn_xact _ hxact
  exact endRemoteTransaction_ends (fun _ _ => trivial) (fun _ _ => trivial) trivial
    (fun _ _ => trivial) (atRest_resetTransaction hm _)

/-- The same of the whole of `handle_commit`, skipped or not. -/
theorem handleCommit_ok (sub : Subscription) (commitLsn endLsn : Nat) (env : CommitEnv) (n : Node) :
    Ends (handleCommit sub commitLsn endLsn env) n (fun _ n' => AtRest n') (fun _ _ => True) := by
  have hsettle : ∀ (skipped : Bool) (m : Node), Ends (settle sub commitLsn endLsn skipped env) m
      (fun _ n' => Ends (finishCommit sub endLsn env) n' (fun _ n' => AtRest n') (fun _ _ => True))
      (fun _ _ => True) := fun skipped m =>
    (settle_xact sub commitLsn endLsn skipped env m).mono
      (fun _ n' hn' => finishCommit_ok sub endLsn env hn') fun _ _ h => h
  exact handleCommit_ends (fun _ _ => trivial) (fun _ => hsettle _ _)
    fun _ => hsettle _ _

/-! ## Handling the next message -/

/-- A message of the current transaction, or one sent before it, has been taken and is about to be
handled: `done` was handled before it. -/
structure Taken (pub : Publisher) (n : Node) (t : RemoteTxn) (pre done : List WalMessage)
    (m : WalMessage) : Prop where
  conn : ConnWf pub n
  cur : n.cur = some t
  queue : n.queue = (done ++ [m]) ++ n.rest
  asides : Asides pre
  split : done ++ m :: (n.rest ++ n.todo) = pre ++ t.messages
  begun : n.inRemoteTransaction = (attemptOf done).isSome
  session : n.inRemoteTransaction = true → n.sessionOriginLsn = t.commitLsn
  closed : n.inRemoteTransaction = false → n.xact = none
  untouched : n.xact = none → n.isSkippingChanges = false → ∀ m ∈ done, m.entry.isChange = false
  effects : ∀ x, n.xact = some x → ∀ e ∈ x.effects, e.commitLsn = t.commitLsn

namespace Taken

variable {pre done : List WalMessage} (h : Taken pub n t pre done m)

include h

theorem rest_suffix : n.rest <:+ n.queue := by
  rw [h.queue]
  exact suffix_append _ _

variable {lsn c e : Nat}

/-- The attempt is for the current transaction. -/
theorem attempt_eq (ha : n.attempt = some lsn) : lsn = t.commitLsn := by
  obtain ⟨u, -, hcur, hlsn, -⟩ := h.conn.active lsn ha
  cases h.cur.symm.trans hcur
  exact hlsn.symm

theorem resting (ha : n.attempt = none) : n.inRemoteTransaction = false ∧ n.xact = none := by
  have hnone : attemptOf done = none := by
    rw [Node.attempt, h.queue, attemptOf_append, attemptOf_append] at ha
    simp only [or_eq_none_iff] at ha
    exact ha.1.1
  have hremote : n.inRemoteTransaction = false := by rw [h.begun, hnone]; rfl
  exact ⟨hremote, h.closed hremote⟩

/-- The message has been handled, and joins what was done. -/
theorem wf (hf : StreamFrame n n')
    (hbegun : n'.inRemoteTransaction = (attemptOf (done ++ [m])).isSome)
    (htail : n.rest ++ n.todo ≠ [])
    (hsession : n'.inRemoteTransaction = true → n'.sessionOriginLsn = t.commitLsn)
    (hclosed : n'.inRemoteTransaction = false → n'.xact = none)
    (huntouched : n'.xact = none → n'.isSkippingChanges = false →
      ∀ x ∈ done ++ [m], x.entry.isChange = false)
    (heffects : ∀ x, n'.xact = some x → ∀ e ∈ x.effects, e.commitLsn = t.commitLsn) :
    Wf pub n' := by
  have hrest : n'.rest = n.rest := by rw [Node.rest, hf.replay, Node.rest]
  have hattempt : n'.attempt = n.attempt := by rw [Node.attempt, hf.queue, Node.attempt]
  refine ⟨h.conn.kept hf.connKept (.inl hf.queue), ?_, ?_, ?_⟩
  · rw [hrest, hf.queue]
    exact h.rest_suffix
  · intro ha
    have hnone : attemptOf (done ++ [m]) = none := by
      rw [hattempt, Node.attempt, h.queue, attemptOf_append] at ha
      exact (or_eq_none_iff.mp ha).1
    have hremote : n'.inRemoteTransaction = false := by rw [hbegun, hnone]; rfl
    exact ⟨hremote, hclosed hremote⟩
  · intro lsn ha
    exact ⟨t, done ++ [m], hf.cur.trans h.cur, by rw [hf.queue, hrest, h.queue],
      by rw [hrest, hf.todo]; exact htail, hbegun, hsession, hclosed, huntouched, heffects⟩

/-- An entry that touches nothing of the transaction. -/
theorem wf_of_sameXact (hf : SameXact n n')
    (hbegin : m.entry.beginLsn = none) (hchange : m.entry.isChange = false)
    (htail : n.rest ++ n.todo ≠ []) : Wf pub n' := by
  refine h.wf hf.toStreamFrame ?_ htail ?_ ?_ ?_ ?_
  · rw [hf.inRemote, h.begun, attemptOf_concat hbegin]
  · rw [hf.inRemote, hf.session]
    exact h.session
  · rw [hf.inRemote, hf.xact]
    exact h.closed
  · intro hx hskip x hmem
    rw [hf.xact] at hx
    rw [Node.isSkippingChanges, hf.skip] at hskip
    rcases mem_append.mp hmem with hmem | hmem
    · exact h.untouched hx hskip x hmem
    · rw [mem_singleton.mp hmem]
      exact hchange
  · rw [hf.xact]
    exact h.effects

/-- Only the COMMIT is the last message. -/
theorem tail_ne_nil (hm : m ≠ t.commitMessage) : n.rest ++ n.todo ≠ [] := by
  rcases split_messages h.asides h.split with ⟨-, -, htail⟩ | ⟨-, -, htail⟩ | ⟨b₁, b₂, -, -, htail⟩ |
    ⟨heq, -⟩
  · exact htail
  · rw [htail]
    simp
  · rw [htail]
    simp
  · exact absurd heq hm

/-- A BEGIN is that of the current transaction, and nothing of it was handled before. -/
theorem begin_eq (hm : m.entry = .begin lsn) :
    m = t.beginMessage ∧ lsn = t.commitLsn ∧ Asides done := by
  rcases split_messages h.asides h.split with ⟨haside, -⟩ | ⟨heq, hdone, -⟩ | ⟨b₁, b₂, hb, -⟩ |
    ⟨heq, -⟩
  · rw [hm] at haside
    cases haside
  · rw [heq] at hm
    cases hm
    exact ⟨heq, rfl, hdone⟩
  · have hinner := t.body_inner m (by simp [hb])
    rw [hm] at hinner
    cases hinner
  · rw [heq] at hm
    cases hm

/-- A COMMIT is that of the current transaction, all of which was handled before. -/
theorem commit_eq (hm : m.entry = .commit c e) :
    m = t.commitMessage ∧ c = t.commitLsn ∧ e = t.endLsn ∧
      done = pre ++ t.beginMessage :: t.body ∧ n.rest = [] ∧ n.todo = [] := by
  rcases split_messages h.asides h.split with ⟨haside, -⟩ | ⟨heq, -⟩ | ⟨b₁, b₂, hb, -⟩ |
    ⟨heq, hdone, htail⟩
  · rw [hm] at haside
    cases haside
  · rw [heq] at hm
    cases hm
  · have hinner := t.body_inner m (by simp [hb])
    rw [hm] at hinner
    cases hinner
  · rw [heq] at hm
    cases hm
    obtain ⟨hrest, htodo⟩ := append_eq_nil_iff.mp htail
    exact ⟨heq, rfl, rfl, hdone, hrest, htodo⟩

/-- What is not sent between transactions comes after the BEGIN. -/
theorem inRemote_of_body (haside : m.entry.isAside = false)
    (hbegin : m.entry.beginLsn = none) : n.inRemoteTransaction = true := by
  have hbegun : attemptOf done = some t.commitLsn := by
    rcases split_messages h.asides h.split with ⟨haside', -⟩ | ⟨heq, -⟩ |
      ⟨b₁, b₂, -, hdone, -⟩ | ⟨-, hdone, -⟩
    · cases haside'.symm.trans haside
    · rw [heq] at hbegin
      cases hbegin
    · rw [hdone, attemptOf_begin _ _ _ h.asides]
    · rw [hdone, attemptOf_begin _ _ _ h.asides]
  rw [h.begun, hbegun]
  rfl

/-- The transaction that is being attempted is the current one. -/
theorem attempt_some (hremote : n.inRemoteTransaction = true) : n.attempt = some t.commitLsn := by
  obtain ⟨lsn, hlsn⟩ := isSome_iff_exists.mp (h.begun.symm.trans hremote)
  have hattempt : n.attempt = some lsn := by
    rw [Node.attempt, h.queue, attemptOf_append, attemptOf_append, hlsn]
    rfl
  rw [hattempt, h.attempt_eq hattempt]

theorem attempt_begin (hm : m.entry = .begin lsn) : n.attempt = some lsn := by
  obtain ⟨heq, rfl, hdone⟩ := h.begin_eq hm
  rw [Node.attempt, h.queue, attemptOf_append, heq, attemptOf_begin _ _ _ hdone]
  rfl

theorem inRemote_of_change (hm : m.entry.isChange = true) : n.inRemoteTransaction = true := by
  cases hentry : m.entry with
  | change => exact h.inRemote_of_body (by rw [hentry]; rfl) (by rw [hentry]; rfl)
  | _ =>
    rw [hentry] at hm
    cases hm

theorem inRemote_of_commit (hm : m.entry = .commit c e) : n.inRemoteTransaction = true :=
  h.inRemote_of_body (by rw [hm]; rfl) (by rw [hm]; rfl)

/-- At a COMMIT without a local transaction, the remote one changed nothing or is skipped. -/
theorem isEmpty_of_commit (hm : m.entry = .commit c e)
    (hx : n.xact = none) (hskip : n.isSkippingChanges = false) : t.isEmpty = true := by
  obtain ⟨-, -, -, hdone, -⟩ := h.commit_eq hm
  refine all_eq_true.mpr fun x hmem => ?_
  rw [h.untouched hx hskip x (by simp [hdone, hmem])]
  rfl

/-! ### Each handler -/

/-- The BEGIN opens the transaction for what follows. -/
theorem handleBegin_wf (hm : m.entry = .begin lsn) (sub : Subscription) (fault : Option Fault) :
    Ends (handleBegin sub lsn fault) n (fun _ n' => Wf pub n') (fun _ n' => ConnWf pub n') := by
  obtain ⟨hbegin, hlsn, hdone⟩ := h.begin_eq hm
  have hxact : n.xact = none := h.closed (by rw [h.begun, attemptOf_asides hdone]; rfl)
  refine ((keeps_handleBegin n).and (handleBegin_ends)).mono ?_
    fun _ _ hf => h.conn.kept hf.1.connKept (.inl hf.1.queue)
  rintro _ n' ⟨hf, hremote, hsession, -, hx, -⟩
  refine h.wf hf.streamFrame ?_ (h.tail_ne_nil ?_) ?_ ?_ ?_ ?_
  · rw [hremote, hbegin, attemptOf_begin _ _ _ hdone]
    rfl
  · rw [hbegin]
    intro heq
    cases congrArg WalMessage.entry heq
  · exact fun _ => hsession.trans hlsn
  · exact fun hfalse => absurd (hremote.symm.trans hfalse) (by decide)
  · intro _ _ x hmem
    rcases mem_append.mp hmem with hmem | hmem
    · exact isChange_of_isAside (hdone x hmem)
    · rw [mem_singleton.mp hmem, hm]
      rfl
  · intro x hx'
    rw [hx, hxact] at hx'
    cases hx'

/-- A change is skipped, or its effects are those of the current transaction. -/
theorem handleChange_wf {id : Nat} (hm : m.entry = .change id) (result : ChangeResult) :
    Ends (handleChange id result) n (fun _ n' => Wf pub n') (fun _ n' => ConnWf pub n') := by
  have hremote := h.inRemote_of_change (by rw [hm]; rfl)
  have hne : m ≠ t.commitMessage := by
    intro heq
    rw [heq] at hm
    cases hm
  have hbegin : m.entry.beginLsn = none := by rw [hm]; rfl
  refine ((keeps_handleChange n).and (handleChange_ends)).mono ?_
    fun _ _ hf => h.conn.kept hf.1.connKept (.inl hf.1.queue)
  rintro _ n' ⟨hf, ⟨hskip, rfl⟩ | ⟨hremote', -, l, hl, hxact⟩⟩
  · refine h.wf (StreamFrame.refl _) ?_ (h.tail_ne_nil hne) h.session h.closed ?_ h.effects
    · rw [h.begun, attemptOf_concat hbegin]
    · intro _ hfalse
      cases hskip.symm.trans hfalse
  · refine h.wf hf.streamFrame ?_ (h.tail_ne_nil hne) ?_ ?_ ?_ ?_
    · rw [hremote', h.begun, attemptOf_concat hbegin]
    · intro _
      rw [hf.session]
      exact h.session hremote
    · intro hfalse
      rw [hremote', hremote] at hfalse
      cases hfalse
    · intro hnone
      cases hxact.symm.trans hnone
    · intro x hx e he
      cases hxact.symm.trans hx
      rcases mem_append.mp he with he | he
      · cases hxn : n.xact with
        | none =>
          rw [hxn] at he
          cases he
        | some y =>
          rw [hxn] at he
          exact h.effects y hxn e he
      · rw [hl e he, h.session hremote]

/-- After the COMMIT the queue is empty. If it raises, all of the transaction is still in the queue
or the transaction is done. -/
theorem handleCommit_wf (hm : m.entry = .commit c e) (sub : Subscription) (env : CommitEnv) :
    Ends (handleCommit sub c e env) n (fun _ n' => Wf pub n') (fun _ n' => ConnWf pub n') := by
  obtain ⟨-, -, -, -, -, htodo⟩ := h.commit_eq hm
  refine ((keeps_handleCommit_of connKept_enterStages connKept_settleStages
    connKept_finishStages n).and
    (handleCommit_ok sub c e env n)).mono ?_
    fun _ _ hf => h.conn.kept hf.1 (.inr htodo)
  rintro _ n' ⟨hk, hqueue, hreplay, hremote, hxact, -⟩
  have hrest : n'.rest = [] := by rw [Node.rest, hreplay]; rfl
  refine ⟨h.conn.kept hk (.inr htodo), ?_, fun _ => ⟨hremote, hxact⟩, fun lsn ha => ?_⟩
  · rw [hrest]
    exact nil_suffix
  · rw [Node.attempt, hqueue] at ha
    cases ha

/-- **One message.** Whatever message of the current transaction is handled, and however its
handler ends, the queue and the connection stay in step. -/
theorem dispatch_wf (sub : Subscription) {o : EntryOutcome}
    {x : Handler} (hx : dispatch sub m.entry o = some x) :
    Ends x n (fun _ n' => Wf pub n') (fun _ n' => ConnWf pub n') := by
  have hplain : m.entry.beginLsn = none → m.entry.isChange = false →
      (∀ c e, m.entry ≠ .commit c e) → ∀ n', SameXact n n' → Wf pub n' := by
    intro hbegin hchange hcommit n' hs
    exact h.wf_of_sameXact hs hbegin hchange (h.tail_ne_nil fun heq =>
      hcommit t.commitLsn t.endLsn (by rw [heq]; rfl))
  refine dispatch_ends hx (fun lsn fault hm _ => h.handleBegin_wf hm sub fault)
    (fun id result hm _ => h.handleChange_wf hm result)
    (fun c e env hm _ => h.handleCommit_wf hm sub env) (fun fault hm _ => ?_)
    (fun lsn transactional fault hm _ => ?_) fun fault hm _ => ?_
  · refine (keeps_handleOrigin n).mono ?_
      fun _ _ hf => h.conn.kept hf.connKept (.inl hf.queue)
    exact fun _ n' hf => hplain (by rw [hm]; rfl) (by rw [hm]; rfl) (by simp [hm]) n' hf.sameXact
  · have hwf := hplain (by rw [hm]; rfl) (by rw [hm]; rfl) (by simp [hm])
    refine (handleMessage_ends).mono ?_ fun _ _ heq => heq ▸ h.conn
    rintro _ n' (rfl | ⟨-, rfl⟩)
    · exact hwf _ (SameXact.refl _)
    · exact hwf _ .of_eq
  · have hwf := hplain (by rw [hm]; rfl) (by rw [hm]; rfl) (by simp [hm])
    cases fault with
    | none => exact hwf n (SameXact.refl n)
    | some => exact h.conn

end Taken

/-! ## A message sent between transactions -/

/-- At rest, handling a message sent between transactions changes nothing here. -/
theorem dispatch_aside_wf (h : Wf pub n) (sub : Subscription) (hm : m.entry.isAside = true)
    {o : EntryOutcome} {x : Handler} (hx : dispatch sub m.entry o = some x) :
    Ends x n (fun _ n' => Wf pub n') (fun _ n' => ConnWf pub n') := by
  refine dispatch_aside_ends hm hx (fun lsn transactional fault _ _ => ?_) fun fault _ _ => ?_
  · refine (handleMessage_ends).mono ?_ fun _ _ heq => heq ▸ h.toConnWf
    rintro _ n' (rfl | ⟨-, rfl⟩)
    · exact h
    · exact h.same .of_eq
  · cases fault with
    | none => exact h
    | some => exact h.toConnWf

/-! ## Steps -/

namespace Node

variable {sub : Subscription}

variable {rest : List WalMessage}

variable {o : EntryOutcome} {done : List WalMessage}

/-- What a handler left goes on as a state between handlers. -/
theorem wf_handle (hstep : n.handle sub m o = some n') (hconn : ConnWf pub n)
    (h : ∀ x, dispatch sub m.entry o = some x →
      Ends x n.resetAction (fun _ n' => Wf pub n') (fun _ n' => ConnWf pub n')) :
    n'.looping → Wf pub n' :=
  handle_looping hstep hconn h fun f _ hc hloop => wf_catchError hc f hloop

/-- The next message of the replay queue, when a transaction is being attempted. -/
theorem taken_replay (h : Wf pub n) (ht : Attempting n t done)
    (hattempt : ∃ lsn, n.attempt = some lsn) (hreplay : n.replay = some (m :: rest)) :
    ∃ pre, Taken pub (n.replayNext m rest).resetAction t pre done m := by
  obtain ⟨lsn, hlsn⟩ := hattempt
  obtain ⟨u, pre, hcur, -, hpre, hqueue⟩ := h.active lsn hlsn
  have hu : u = t := some.inj (hcur.symm.trans ht.cur)
  subst hu
  have hrest : n.rest = m :: rest := by rw [Node.rest, hreplay]; rfl
  have hq : n.queue = done ++ m :: rest := by rw [ht.queue, hrest]
  refine ⟨pre, { ht with conn := ⟨h.suffix, h.idle, h.active⟩, queue := ?_, asides := hpre, split := ?_ }⟩
  · show n.queue = done ++ [m] ++ rest
    rw [hq, append_assoc, singleton_append]
  · show done ++ m :: (rest ++ n.todo) = pre ++ u.messages
    rw [← hqueue, hq, append_assoc, cons_append]

/-- The next message of the stream, when a transaction is being attempted. -/
theorem taken_stream (h : Wf pub n) (ht : Attempting n t done)
    (hattempt : ∃ lsn, n.attempt = some lsn) (hreplay : n.replay = none)
    (htodo : n.todo = m :: rest) :
    ∃ pre, Taken pub (n.takeNext m rest).resetAction t pre n.queue m := by
  obtain ⟨lsn, hlsn⟩ := hattempt
  obtain ⟨u, pre, hcur, hulsn, hpre, hqueue⟩ := h.active lsn hlsn
  have hu : u = t := some.inj (hcur.symm.trans ht.cur)
  subst hu
  have hq : n.queue = done := by rw [ht.queue, Node.rest, hreplay]; simp
  have hconn : (n.queue ++ [m]) ++ rest = pre ++ u.messages := by
    rw [← hqueue, htodo, append_assoc, singleton_append]
  have hfound : attemptOf (n.queue ++ [m]) = some lsn := by
    rw [attemptOf_append, show attemptOf n.queue = some lsn from hlsn]
    rfl
  have hrest : (n.takeNext m rest).resetAction.rest = [] := by
    show n.replay.getD [] = []
    rw [hreplay]
    rfl
  have hbegun : n.inRemoteTransaction = (attemptOf n.queue).isSome := by
    rw [hq]
    exact ht.begun
  have huntouched : n.xact = none → n.isSkippingChanges = false →
      ∀ m ∈ n.queue, m.entry.isChange = false := by
    rw [hq]
    exact ht.untouched
  refine ⟨pre, ⟨⟨h.suffix, fun ha => ?_, fun l ha => ?_⟩, ht.cur, ?_, hpre, ?_, hbegun,
    ht.session, ht.closed, huntouched, ht.effects⟩⟩
  · exact absurd (hfound.symm.trans ha) (by simp)
  · have hl : lsn = l := some.inj (hfound.symm.trans ha)
    exact ⟨u, pre, ht.cur, hulsn.trans hl, hpre, hconn⟩
  · rw [hrest, append_nil]
    rfl
  · rw [hrest, ← hconn, append_assoc]
    rfl

/-- The BEGIN of the next transaction, when none is being attempted. -/
theorem taken_begin (h : Wf pub n) {later : List RemoteTxn} (hattempt : n.attempt = none)
    (hreplay : n.replay = none) (hlater : n.later = t :: later) :
    Taken pub (n.takeBegin t later).resetAction t n.queue n.queue t.beginMessage := by
  obtain ⟨-, hasides⟩ := h.idle hattempt
  obtain ⟨hremote, hxact⟩ := h.resting hattempt
  have hfound : attemptOf (n.queue ++ [t.beginMessage]) = some t.commitLsn :=
    attemptOf_begin _ [] t hasides
  have hmsgs : (n.queue ++ [t.beginMessage]) ++ (t.body ++ [t.commitMessage])
      = n.queue ++ t.messages := by
    rw [append_assoc]
    rfl
  refine ⟨⟨?_, fun ha => ?_, fun l ha => ?_⟩, rfl, ?_, hasides, ?_, ?_, ?_, fun _ => hxact, ?_, ?_⟩
  · refine List.IsSuffix.trans ?_ h.suffix
    show [t] ++ later <:+ _
    rw [hlater]
    exact suffix_append _ _
  · exact absurd (hfound.symm.trans ha) (by simp)
  · exact ⟨t, n.queue, rfl, some.inj (hfound.symm.trans ha), hasides, hmsgs⟩
  · show n.queue ++ [t.beginMessage] = n.queue ++ [t.beginMessage] ++ (n.replay.getD [])
    rw [hreplay]
    simp
  · show n.queue ++ t.beginMessage :: (n.replay.getD [] ++ (t.body ++ [t.commitMessage])) = _
    rw [hreplay]
    rfl
  · show n.inRemoteTransaction = (attemptOf n.queue).isSome
    rw [hremote, attemptOf_asides hasides]
    rfl
  · intro hr
    exact absurd (hremote.symm.trans hr) (by decide)
  · exact fun _ _ m hm => isChange_of_isAside (hasides m hm)
  · intro x hx
    exact absurd (hxact.symm.trans hx) (by simp)

/-- Where the next message comes from: the replay, the current transaction, the one after it. -/
theorem handleNext_cases (hstep : n.handleNext sub o = some n') :
    (∃ m rest, n.replay = some (m :: rest) ∧ (n.replayNext m rest).handle sub m o = some n') ∨
    (n.replay = some [] ∧ n' = { n with replay := none }) ∨
    (∃ m rest, n.replay = none ∧ n.todo = m :: rest ∧
      (n.takeNext m rest).handle sub m o = some n') ∨
    (∃ t later, n.replay = none ∧ n.todo = [] ∧ n.later = t :: later ∧
      (n.takeBegin t later).handle sub t.beginMessage o = some n') := by
  unfold handleNext at hstep
  rcases hreplay : n.replay with _ | _ | ⟨m, rest⟩
  · rw [hreplay] at hstep
    cases htodo : n.todo with
    | cons m rest =>
      simp only [streamNext, htodo] at hstep
      exact .inr (.inr (.inl ⟨m, rest, rfl, rfl, hstep⟩))
    | nil =>
      cases hlater : n.later with
      | nil => simp [streamNext, htodo, hlater] at hstep
      | cons t later =>
        simp only [streamNext, htodo, hlater] at hstep
        exact .inr (.inr (.inr ⟨t, later, rfl, rfl, rfl, hstep⟩))
  · rw [hreplay] at hstep
    cases hstep
    exact .inr (.inl ⟨rfl, rfl⟩)
  · rw [hreplay] at hstep
    exact .inl ⟨m, rest, rfl, hstep⟩

/-- Nothing is left to do for a transaction only at rest. -/
theorem attempt_none (h : Wf pub n) (hrest : n.rest = []) (htodo : n.todo = []) :
    n.attempt = none := by
  cases hattempt : n.attempt with
  | none => rfl
  | some lsn =>
    obtain ⟨_, _, ht⟩ := h.attempting lsn hattempt
    exact absurd (by rw [hrest, htodo]; rfl) ht.unfinished

/-- A message replayed at rest was sent between transactions. -/
theorem wf_replayNext (h : Wf pub n) (hattempt : n.attempt = none)
    (hreplay : n.replay = some (m :: rest)) :
    m.entry.isAside = true ∧ Wf pub (n.replayNext m rest).resetAction := by
  have hrest : n.rest = m :: rest := by rw [Node.rest, hreplay]; rfl
  have hsuffix : m :: rest <:+ n.queue := hrest ▸ h.rest
  refine ⟨(h.idle hattempt).2 m (hsuffix.subset mem_cons_self),
    { h with }, (suffix_cons m rest).trans hsuffix, h.resting, fun lsn ha => ?_⟩
  exact absurd (hattempt.symm.trans ha) (by simp)

end Node

/-- The next message `m` is taken, which leads to the node `p`: a message replayed at rest, one of
the transaction being attempted that is replayed or received, or the BEGIN of the next one. -/
inductive Next (pub : Publisher) (n : Node) : WalMessage → Node → Prop
  | aside (m : WalMessage) (rest : List WalMessage) (hattempt : n.attempt = none)
    (hreplay : n.replay = some (m :: rest)) (haside : m.entry.isAside = true) :
    Next pub n m (n.replayNext m rest)
  | replayed (m : WalMessage) (rest : List WalMessage) {lsn : Nat} {t : RemoteTxn}
    {pre done : List WalMessage} (hattempt : n.attempt = some lsn)
    (hreplay : n.replay = some (m :: rest))
    (htaken : Taken pub (n.replayNext m rest).resetAction t pre done m) :
    Next pub n m (n.replayNext m rest)
  | received (m : WalMessage) (rest : List WalMessage) {lsn : Nat} {t : RemoteTxn}
    {pre : List WalMessage} (hattempt : n.attempt = some lsn) (hreplay : n.replay = none)
    (htodo : n.todo = m :: rest) (hnew : (n.takeNext m rest).attempt = some lsn)
    (htaken : Taken pub (n.takeNext m rest).resetAction t pre n.queue m) :
    Next pub n m (n.takeNext m rest)
  | begun (t : RemoteTxn) (later : List RemoteTxn) (hattempt : n.attempt = none)
    (hreplay : n.replay = none) (hlater : n.later = t :: later)
    (hnew : (n.takeBegin t later).attempt = some t.commitLsn)
    (htaken : Taken pub (n.takeBegin t later).resetAction t n.queue n.queue t.beginMessage) :
    Next pub n t.beginMessage (n.takeBegin t later)

namespace Node

variable {sub : Subscription}

variable {o : EntryOutcome}

/-- **The next message.** The replay queue is exhausted, or a message is taken and handled. -/
theorem handleNext_next (h : Wf pub n) (hstep : n.handleNext sub o = some n') :
    (n.replay = some [] ∧ n' = { n with replay := none }) ∨
    ∃ m p, Next pub n m p ∧ p.handle sub m o = some n' := by
  rcases handleNext_cases hstep with ⟨m, rest, hreplay, hstep⟩ | ⟨hreplay, rfl⟩ |
    ⟨m, rest, hreplay, htodo, hstep⟩ | ⟨t, later, hreplay, htodo, hlater, hstep⟩
  · refine .inr ⟨m, _, ?_, hstep⟩
    cases hattempt : n.attempt with
    | none => exact .aside m rest hattempt hreplay (wf_replayNext h hattempt hreplay).1
    | some lsn =>
      obtain ⟨_, _, ht⟩ := h.attempting lsn hattempt
      obtain ⟨_, htaken⟩ := taken_replay h ht ⟨lsn, hattempt⟩ hreplay
      exact .replayed m rest hattempt hreplay htaken
  · exact .inl ⟨hreplay, rfl⟩
  · refine .inr ⟨m, _, ?_, hstep⟩
    cases hattempt : n.attempt with
    | none =>
      rw [(h.idle hattempt).1] at htodo
      cases htodo
    | some lsn =>
      obtain ⟨_, _, ht⟩ := h.attempting lsn hattempt
      obtain ⟨_, htaken⟩ := taken_stream h ht ⟨lsn, hattempt⟩ hreplay htodo
      refine .received m rest hattempt hreplay htodo ?_ htaken
      show attemptOf (n.queue ++ [m]) = some lsn
      rw [attemptOf_append, show attemptOf n.queue = some lsn from hattempt]
      rfl
  · have hattempt := attempt_none h (by rw [Node.rest, hreplay]; rfl) htodo
    exact .inr ⟨_, _, .begun t later hattempt hreplay hlater
      (attemptOf_begin _ [] t (h.idle hattempt).2) (taken_begin h hattempt hreplay hlater), hstep⟩

/-- The invariant holds after the next message, wherever it comes from. -/
theorem wf_handleNext (h : Wf pub n) (hstep : n.handleNext sub o = some n') :
    n'.looping → Wf pub n' := by
  rcases handleNext_next h hstep with ⟨hreplay, rfl⟩ | ⟨m, p, hnext, hhandle⟩
  · -- the queue is exhausted
    intro _
    have hrest : n.rest = [] := by rw [Node.rest, hreplay]; rfl
    refine ⟨{ h with }, nil_suffix, h.resting, fun lsn ha => ?_⟩
    obtain ⟨t, done, ht⟩ := h.attempting lsn ha
    have hqueue := ht.queue
    have hunfinished := ht.unfinished
    rw [hrest] at hqueue hunfinished
    exact ⟨t, done, ht.cur, hqueue, hunfinished, ht.begun, ht.session, ht.closed, ht.untouched,
      ht.effects⟩
  have htake : ∀ {t pre done}, Taken pub p.resetAction t pre done m → n'.looping → Wf pub n' :=
    fun htaken => wf_handle hhandle { htaken.conn with }
      fun x hx => htaken.dispatch_wf sub hx
  cases hnext with
  | aside _ _ hattempt hreplay haside =>
    exact wf_handle hhandle { h with }
      fun x hx => dispatch_aside_wf (wf_replayNext h hattempt hreplay).2 sub haside hx
  | replayed _ _ _ _ htaken | received _ _ _ _ _ _ htaken | begun _ _ _ _ _ _ htaken =>
    exact htake htaken

/-- A message sent between transactions is received at rest. -/
theorem wf_receive_aside {m : WalMessage} (h : Wf pub n) (hreplay : n.replay = none)
    (htodo : n.todo = []) (hm : m.entry.isAside = true) : Wf pub (n.receive m) := by
  have hattempt := attempt_none h (by rw [Node.rest, hreplay]; rfl) htodo
  have hnone : (n.receive m).attempt = none := by
    show attemptOf (n.queue ++ [m]) = none
    rw [attemptOf_concat (beginLsn_of_isAside hm)]
    exact hattempt
  refine ⟨⟨h.suffix, fun _ => ⟨htodo, ?_⟩, fun lsn ha => ?_⟩, ?_, fun _ => h.resting hattempt,
    fun lsn ha => ?_⟩
  · exact (h.idle hattempt).2.append fun x hx => by rw [mem_singleton.mp hx]; exact hm
  · exact absurd (hnone.symm.trans ha) (by simp)
  · show n.rest <:+ _
    rw [Node.rest, hreplay]
    exact nil_suffix
  · exact absurd (hnone.symm.trans ha) (by simp)

/-- What is sent after a restart is the end of the history. -/
theorem filter_suffix {α : Type} {p : α → Bool} {l : List α}
    (h : l.Pairwise fun a b => p a = true → p b = true) : l.filter p <:+ l := by
  induction l with
  | nil => exact suffix_refl _
  | cons a l ih =>
    obtain ⟨ha, hl⟩ := pairwise_cons.mp h
    by_cases hp : p a = true
    · rw [filter_cons_of_pos hp, filter_eq_self.mpr fun b hb => ha b hb hp]
    · rw [filter_cons_of_neg hp]
      exact (ih hl).trans (suffix_cons a l)

/-- A worker starts with what the publisher has left for it, and nothing in the queue. -/
theorem wf_start (pub : Publisher) (config : WorkerConfig) (n : Node) :
    Wf pub (n.start pub config) where
  suffix := by
    refine filter_suffix (pub.ordered.imp fun {t u} htu hle => ?_)
    have hlt := t.commitLsn_lt
    simp only [decide_eq_true_eq] at hle ⊢
    omega
  idle := fun _ => ⟨rfl, by simp [Asides, start]⟩
  active := fun _ ha => by simp [attempt, attemptOf, start] at ha
  rest := nil_suffix
  resting := fun _ => ⟨rfl, rfl⟩
  attempting := fun _ ha => by simp [attempt, attemptOf, start] at ha

theorem sameXact_commitOwn (h : n.xact = none) (wrote : Bool) : SameXact n (n.commitOwn wrote) := by
  cases wrote
  · exact SameXact.refl n
  · exact ⟨⟨rfl, rfl, rfl, rfl, rfl⟩, rfl, rfl, rfl, h.symm⟩

theorem sameXact_leaveInner (n : Node) : SameXact n n.leaveInner :=
  leaveInner_of .of_eq
    .of_eq

/-- Leaving the inner loop between transactions. -/
theorem wf_leaveInner (h : Wf pub n) (hremote : n.inRemoteTransaction = false) (wrote : Bool) :
    Wf pub (n.leaveInner.commitOwn wrote) :=
  (h.same (sameXact_leaveInner n)).same
    (sameXact_commitOwn ((sameXact_leaveInner n).xact.trans (h.xact_none hremote)) wrote)

/-- **One step.** While a worker is in its loops, the queue and the stream are in step. -/
theorem wf_step {e : WorkerEvent} (h : n.looping → Wf pub n) (hstep : n.step sub pub e = some n') :
    n'.looping → Wf pub n' := by
  have hsame : SameXact n n' → n'.pc = n.pc → n'.looping → Wf pub n' := by
    intro hs hpc hloop
    exact (h (by rwa [looping, hpc] at hloop)).same hs
  cases step_cases hstep with
  | start config => exact fun _ => wf_start pub config n
  | exit | crash | outerExit | afterDisabling | disable | disableOpen =>
    simp [looping, exit, recover, moveTo]
  | sigterm | flush | enable | setSkipLsn | reload | keepalive =>
    exact hsame .of_eq rfl
  | cleanup wrote _ hxact => exact hsame (sameXact_commitOwn hxact wrote) (by cases wrote <;> rfl)
  | outerError f hpc => exact wf_catchError (h (.inl hpc)).toConnWf f
  | enterInner hpc =>
    exact fun _ => (h (.inl hpc)).same .of_eq
  | stopInner _ hpc =>
    exact fun _ => (h (.inr (.inl hpc))).same .of_eq
  | readonly => exact h
  | next _ hpc _ hnext => exact wf_handleNext (h (.inr (.inl hpc))) hnext
  | aside m _ hpc hreplay htodo haside _ _ _ hhandle =>
    have hwf := wf_receive_aside (h (.inr (.inl hpc))) hreplay htodo haside
    have hreset : Wf pub (n.receive m).resetAction :=
      hwf.same .of_eq
    exact wf_handle hhandle hwf.toConnWf fun x hx => dispatch_aside_wf hreset sub haside hx
  | interrupt f hpc => exact wf_catchError (h (.inr (.inl hpc))).toConnWf f
  | afterRemote _ _ hpc => exact fun _ => (h (.inr (.inr hpc))).same (sameXact_leaveInner n)
  | afterOwn wrote hpc hremote => exact fun _ => wf_leaveInner (h (.inr (.inr hpc))) hremote wrote
  | afterError wrote f hpc hremote =>
    exact wf_catchError (wf_leaveInner (h (.inr (.inr hpc))) hremote wrote).toConnWf f

end Node

end Spock
