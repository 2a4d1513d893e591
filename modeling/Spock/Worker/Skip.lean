import Spock.Worker.Stream

/-!
# Spock — skipping a transaction

A user stores the commit LSN of a transaction in the subscription's row. The worker loads it when it
starts; `handle_begin` starts to skip when a BEGIN carries it, the row handlers return at once while
a transaction is skipped, and `handle_commit` clears the stored value, if it is still the one that
was loaded, in the first local transaction it commits.

* **`SkipRules`**, **`skip_rules`** — every step of every run, as long as a subscription that is
  disabled has the skip LSN that its worker loaded.
-/

namespace Spock

open Outcome List Option

/-! ## The rules -/

def EntryOutcome.raises : EntryOutcome → Bool
  | .plain fault => fault.isSome
  | .change (.failed _) => true
  | .change (.raised _) => true
  | .change _ => false
  | .commit env => env.fault.isSome

def Input.raises : Input → Bool
  | .aside _ fault => fault.isSome
  | .next o => o.raises
  | _ => false

def WorkerEvent.raises : WorkerEvent → Bool
  | .outer fault => fault.isSome
  | .inner input => input.raises
  | .interrupt _ => true
  | .afterInner _ fault => fault.isSome
  | _ => false

/-- A remote transaction whose COMMIT was handled in `n` has been committed as `c`. It was skipped
if and only if its commit LSN is the one that was loaded; then nothing of it took effect. The stored
skip LSN is cleared unless it is not the one that was loaded; if a skipped transaction clears it,
the origin is past that transaction. -/
structure EndsWell (n : Node) (c : LocalCommit) (r : Ended) : Prop where
  skipped : r.skipped = true ↔ r.commitLsn = n.skiplsn
  effects : r.skipped = true → c.effects = []
  stored : c.after.subSkipLsn =
    if n.durable.subSkipLsn = n.skiplsn then 0 else n.durable.subSkipLsn
  origin : r.skipped = true → n.durable.subSkipLsn = n.skiplsn → r.endLsn ≤ c.after.origin

def Accounted (n : Node) (c : LocalCommit) : Prop :=
  match c.ended with
  | none => c.effects = []
  | some r => EndsWell n c r

def newCommits (n n' : Node) : List LocalCommit := n'.commits.drop n.commits.length

structure SkipRules (n : Node) (e : WorkerEvent) (n' : Node) : Prop where
  /-- The skip LSN is loaded when a worker starts. -/
  loaded : n'.skiplsn = n.skiplsn ∨
    ∃ config, e = .start config ∧ n'.skiplsn = n.durable.subSkipLsn
  /-- After the BEGIN, a transaction is being skipped if and only if it has that LSN. -/
  skipping : n'.looping → n'.inRemoteTransaction = true →
    (n'.isSkippingChanges = true ↔ n'.attempt = some n'.skiplsn)
  commits : ∀ c ∈ newCommits n n', Accounted n c
  /-- The stored value is changed by users, by a crash, and by the commits above. -/
  stored : n'.durable.subSkipLsn = n.durable.subSkipLsn ∨
    (∃ lsn, e = .setSkipLsn lsn ∧ n'.durable.subSkipLsn = lsn) ∨ (∃ kept, e = .crash kept) ∨
    ∃ c ∈ newCommits n n', c.ended.isSome = true ∧ n'.durable.subSkipLsn = c.after.subSkipLsn
  /-- Without an error, the subscription is not disabled for a transaction that is skipped. -/
  enabled : n'.pc = .disabling → n.pc ≠ .disabling → n'.attempt = some n'.skiplsn →
    e.raises = true

/-! ## The log -/

structure LogKept (n n' : Node) : Prop where
  loaded : n'.skiplsn = n.skiplsn
  stored : n'.durable.subSkipLsn = n.durable.subSkipLsn
  log : ∃ own, n'.commits = n.commits ++ own ∧ ∀ c ∈ own, c.ended = none ∧ c.effects = []

structure Logged (n n' : Node) : Prop where
  loaded : n'.skiplsn = n.skiplsn
  log : ∃ new, n'.commits = n.commits ++ new ∧ (∀ c ∈ new, Accounted n c) ∧
    (n'.durable.subSkipLsn = n.durable.subSkipLsn ∨
      ∃ c ∈ new, c.ended.isSome = true ∧ n'.durable.subSkipLsn = c.after.subSkipLsn)

variable {n n' n₁ n₂ : Node}

theorem logKept_of_eq (hloaded : n'.skiplsn = n.skiplsn := by rfl)
    (hdurable : n'.durable.subSkipLsn = n.durable.subSkipLsn := by rfl)
    (hcommits : n'.commits = n.commits := by rfl) : LogKept n n' :=
  ⟨hloaded, hdurable, [], by rw [hcommits, append_nil], fun c hc => nomatch hc⟩

variable {c : LocalCommit} {n₃ : Node} {raises : Bool} {lsn : Nat}

theorem logKept_concat (hloaded : n'.skiplsn = n.skiplsn := by rfl)
    (hdurable : n'.durable.subSkipLsn = n.durable.subSkipLsn := by rfl)
    (hcommits : n'.commits = n.commits ++ [c] := by rfl) (hended : c.ended = none := by rfl)
    (heffects : c.effects = [] := by rfl) : LogKept n n' := by
  refine ⟨hloaded, hdurable, [c], hcommits, fun c' hc' => ?_⟩
  rw [mem_singleton.mp hc']
  exact ⟨hended, heffects⟩

theorem LogKept.refl (n : Node) : LogKept n n := logKept_of_eq

theorem LogKept.trans (h : LogKept n₁ n₂) (h' : LogKept n₂ n₃) : LogKept n₁ n₃ := by
  obtain ⟨own, hcommits, hown⟩ := h.log
  obtain ⟨own', hcommits', hown'⟩ := h'.log
  refine ⟨h'.loaded.trans h.loaded, h'.stored.trans h.stored, own ++ own', ?_, fun c hc => ?_⟩
  · rw [hcommits', hcommits, append_assoc]
  · exact (mem_append.mp hc).elim (hown c) (hown' c)

instance : IsPreorder Node LogKept where
  refl := LogKept.refl
  trans _ _ _ := LogKept.trans

theorem accounted_of_own (h : c.ended = none ∧ c.effects = []) : Accounted n c := by
  unfold Accounted
  rw [h.1]
  exact h.2

theorem LogKept.logged (h : LogKept n n') : Logged n n' := by
  obtain ⟨own, hcommits, hown⟩ := h.log
  exact ⟨h.loaded, own, hcommits, fun c hc => accounted_of_own (hown c hc), .inl h.stored⟩

theorem LogKept.logged_eq (h : LogKept n n₁) (hloaded : n₂.skiplsn = n₁.skiplsn := by rfl)
    (hdurable : n₂.durable.subSkipLsn = n₁.durable.subSkipLsn := by rfl)
    (hcommits : n₂.commits = n₁.commits := by rfl) : Logged n n₂ :=
  (h.trans (logKept_of_eq hloaded hdurable hcommits)).logged

theorem Logged.kept (h : Logged n n₁) (h' : LogKept n₁ n₂) : Logged n n₂ := by
  obtain ⟨new, hcommits, hnew, hstored⟩ := h.log
  obtain ⟨own, hcommits', hown⟩ := h'.log
  refine ⟨h'.loaded.trans h.loaded, new ++ own, ?_, fun c hc => ?_, ?_⟩
  · rw [hcommits', hcommits, append_assoc]
  · rcases mem_append.mp hc with hc | hc
    · exact hnew c hc
    · exact accounted_of_own (hown c hc)
  · rw [h'.stored]
    refine hstored.imp_right ?_
    rintro ⟨c, hc, hended, heq⟩
    exact ⟨c, mem_append_left own hc, hended, heq⟩

theorem newCommits_of_append {new : List LocalCommit} (h : n'.commits = n.commits ++ new) :
    newCommits n n' = new := by
  rw [newCommits, h, drop_left]

theorem Logged.newCommits (h : Logged n n') :
    (∀ c ∈ newCommits n n', Accounted n c) ∧
      (n'.durable.subSkipLsn = n.durable.subSkipLsn ∨
        ∃ c ∈ newCommits n n', c.ended.isSome = true ∧
          n'.durable.subSkipLsn = c.after.subSkipLsn) := by
  obtain ⟨_, hcommits, hrest⟩ := h.log
  rw [newCommits_of_append hcommits]
  exact hrest

/-! ## The statics -/

/-- Between two handlers. A transaction is skipped from its BEGIN on, if it is to be skipped at all;
then nothing has been done for it, and no change of it has failed. -/
structure SkipInv (n : Node) : Prop where
  attempt : n.isSkippingChanges = true → n.attempt = some n.skiplsn
  begun : n.inRemoteTransaction = true → n.attempt = some n.skiplsn → n.isSkippingChanges = true
  closed : n.isSkippingChanges = true → n.xact = none
  unset : ∀ x, n.xact = some x → x.clearsSkip = false
  had : n.xactHadException = true → ∃ lsn, n.attempt = some lsn ∧ lsn ≠ n.skiplsn

structure SkipLeft (n : Node) : Prop where
  attempt : n.isSkippingChanges = true → n.attempt = some n.skiplsn
  had : n.xactHadException = true → ∃ lsn, n.attempt = some lsn ∧ lsn ≠ n.skiplsn

theorem SkipInv.left (h : SkipInv n) : SkipLeft n := { h with }

structure SkipSame (n n' : Node) : Prop where
  attempt : n'.attempt = n.attempt
  skip : n'.skipXactFinishLsn = n.skipXactFinishLsn
  loaded : n'.skiplsn = n.skiplsn
  inRemote : n'.inRemoteTransaction = n.inRemoteTransaction
  xact : n'.xact = n.xact
  had : n'.xactHadException = n.xactHadException

theorem SkipSame.of_eq (hattempt : n'.attempt = n.attempt := by rfl)
    (hskip : n'.skipXactFinishLsn = n.skipXactFinishLsn := by rfl)
    (hloaded : n'.skiplsn = n.skiplsn := by rfl)
    (hinRemote : n'.inRemoteTransaction = n.inRemoteTransaction := by rfl)
    (hxact : n'.xact = n.xact := by rfl)
    (hhad : n'.xactHadException = n.xactHadException := by rfl) : SkipSame n n' :=
  ⟨hattempt, hskip, hloaded, hinRemote, hxact, hhad⟩

theorem SkipSame.refl (n : Node) : SkipSame n n := .of_eq

theorem SkipSame.trans (h : SkipSame n₁ n₂) (h' : SkipSame n₂ n₃) : SkipSame n₁ n₃ :=
  ⟨h'.attempt.trans h.attempt, h'.skip.trans h.skip, h'.loaded.trans h.loaded,
    h'.inRemote.trans h.inRemote, h'.xact.trans h.xact, h'.had.trans h.had⟩

instance : IsPreorder Node SkipSame where
  refl := SkipSame.refl
  trans _ _ _ := SkipSame.trans

theorem SkipSame.isSkippingChanges (h : SkipSame n n') :
    n'.isSkippingChanges = n.isSkippingChanges := by
  rw [Node.isSkippingChanges, h.skip, Node.isSkippingChanges]

theorem SkipLeft.same (h : SkipLeft n) (hs : SkipSame n n') : SkipLeft n' where
  attempt := by
    rw [hs.isSkippingChanges, hs.attempt, hs.loaded]
    exact h.attempt
  had := by
    rw [hs.had, hs.attempt, hs.loaded]
    exact h.had

theorem SkipInv.same (h : SkipInv n) (hs : SkipSame n n') : SkipInv n' where
  attempt := (h.left.same hs).attempt
  begun := by
    rw [hs.inRemote, hs.attempt, hs.loaded, hs.isSkippingChanges]
    exact h.begun
  closed := by
    rw [hs.isSkippingChanges, hs.xact]
    exact h.closed
  unset := by
    rw [hs.xact]
    exact h.unset
  had := (h.left.same hs).had

theorem SkipInv.not_skipping (h : SkipInv n) (hremote : n.inRemoteTransaction = true)
    (hskip : n.isSkippingChanges = false) : n.attempt ≠ some n.skiplsn := by
  intro hattempt
  rw [h.begun hremote hattempt] at hskip
  cases hskip

theorem SkipLeft.had_false (h : SkipLeft n) (hattempt : n.attempt = some n.skiplsn) :
    n.xactHadException = false := by
  refine Bool.eq_false_iff.mpr fun hhad => ?_
  obtain ⟨_, hlsn, hne⟩ := h.had hhad
  exact hne (some.inj (hlsn.symm.trans hattempt))

/-! ## Errors -/

theorem skipInv_catchError (h : SkipLeft n) (f : Fault) (hloop : (n.catchError f).looping) :
    SkipInv (n.catchError f) := by
  rw [(Node.catchError_looping hloop).2.2]
  -- the replay starts outside a remote transaction and with no local one
  exact ⟨h.attempt, fun hremote => (Bool.false_ne_true hremote).elim, fun _ => rfl,
    fun x hx => (some_ne_none x hx.symm).elim, h.had⟩

theorem logKept_catchError (n : Node) (f : Fault) : LogKept n (n.catchError f) := by
  unfold Node.catchError
  repeat' split
  all_goals exact logKept_of_eq

theorem mustDisable_of_catchError {f : Fault} (h : (n.catchError f).pc = .disabling) :
    n.mustDisable = true ∧ (n.catchError f).attempt = n.attempt ∧
      (n.catchError f).skiplsn = n.skiplsn := by
  unfold Node.catchError at h ⊢
  split at h
  · cases h
  split at h
  · rename_i h1 h2
    rw [if_neg h1, if_pos h2]
    exact ⟨h2, rfl, rfl⟩
  split at h
  · cases h
  · cases h

/-! ## What a handler leaves -/

structure Handled (n n' : Node) : Prop where
  inv : SkipInv n'
  logged : Logged n n'

/-- A handler that has raised: the error comes from the environment, or does not disable the
subscription for a transaction that is to be skipped. -/
structure Raised (o : EntryOutcome) (n : Node) (e : Raise) (n' : Node) : Prop where
  left : SkipLeft n'
  logged : Logged n n'
  cause : ∀ f, e = .error f → o.raises = true ∨
    (n'.mustDisable = true → n'.attempt ≠ some n'.skiplsn)

structure SkipStep (raises : Bool) (n n' : Node) : Prop where
  inv : n'.looping → SkipInv n'
  logged : Logged n n'
  cause : n'.pc = .disabling → n.pc ≠ .disabling → n'.attempt = some n'.skiplsn → raises = true

theorem skipStep_catchError {f : Fault} (hleft : SkipLeft n₁) (hlogged : Logged n n₁)
    (hcause : raises = true ∨ (n₁.mustDisable = true → n₁.attempt ≠ some n₁.skiplsn)) :
    SkipStep raises n (n₁.catchError f) := by
  refine ⟨skipInv_catchError hleft f, hlogged.kept (logKept_catchError n₁ f),
    fun hpc _ hattempt => ?_⟩
  obtain ⟨hmust, ha, hl⟩ := mustDisable_of_catchError hpc
  rw [ha, hl] at hattempt
  exact hcause.resolve_right fun h => h hmust hattempt

theorem skipStep_exit (hlogged : Logged n n₁) : SkipStep raises n n₁.exit := by
  refine ⟨fun hloop => ?_, hlogged.kept logKept_of_eq, fun hpc => ?_⟩
  · simp [Node.looping, Node.exit] at hloop
  · cases hpc

theorem skipStep_handle {sub : Subscription} {p : Node} {m : WalMessage} {o : EntryOutcome}
    (hstep : p.handle sub m o = some n') (hlogged : Logged n p) (hpc : p.pc ≠ .disabling)
    (h : ∀ x, dispatch sub m.entry o = some x →
      Ends x p.resetAction (fun _ n' => Handled n n' ∧ n'.pc = p.pc) (Raised o n)) :
    SkipStep o.raises n n' := by
  refine handle_of_ends (P := SkipStep o.raises n)
    (R := fun e n' => (e = .procExit ∧ Logged n n') ∨ Raised o n e n') hstep
    (.inl ⟨rfl, hlogged⟩) (fun x hx => (h x hx).mono ?_ fun _ _ hr => .inr hr) ?_
  · rintro _ n' ⟨hhandled, hpc'⟩
    refine ⟨fun _ => hhandled.inv, hhandled.logged, fun hdis => ?_⟩
    rw [hpc'] at hdis
    exact absurd hdis hpc
  · intro e n' hr
    cases e with
    | procExit =>
      refine skipStep_exit ?_
      rcases hr with ⟨-, hlogged⟩ | hraised
      · exact hlogged
      · exact hraised.logged
    | error f =>
      rcases hr with ⟨hne, -⟩ | hraised
      · cases hne
      · exact skipStep_catchError hraised.left hraised.logged (hraised.cause f rfl)

/-! ## BEGIN -/

theorem findExceptionLogSlot_skip (sub : Subscription) (lsn : Nat) (n : Node) :
    Ends (findExceptionLogSlot sub lsn) n
      (fun _ n' => SkipSame n n' ∧ LogKept n n' ∧ n'.pc = n.pc)
      (fun _ n' => SkipSame n n' ∧ LogKept n n' ∧ n'.useTryBlock = false) := by
  unfold findExceptionLogSlot
  rw [ends_bind, ends_get]
  rcases n.slotIndex sub with _ | i
  · rcases n.freeSlotIndex with _ | i
    · exact ⟨.of_eq, logKept_of_eq, rfl⟩
    · exact ⟨.of_eq, logKept_of_eq, rfl⟩
  · exact ⟨.of_eq, logKept_of_eq, rfl⟩

theorem maybeStartSkippingChanges_isSkipping (n : Node) (lsn : Nat) :
    (n.maybeStartSkippingChanges lsn).isSkippingChanges = true ↔
      n.isSkippingChanges = true ∨ (n.skiplsn = lsn ∧ lsn ≠ 0) := by
  unfold Node.isSkippingChanges Node.maybeStartSkippingChanges
  by_cases hload : n.skiplsn = 0 ∨ n.skiplsn ≠ lsn
  · rw [if_pos hload]
    refine (or_iff_left ?_).symm
    rintro ⟨rfl, hne⟩
    exact hload.elim hne fun h => h rfl
  · rw [if_neg hload]
    obtain ⟨hne, heq⟩ := not_or.mp hload
    have heq := not_not.mp heq
    simp only [bne_iff_ne, ne_eq]
    exact iff_of_true (heq ▸ hne) (.inr ⟨heq, heq ▸ hne⟩)

/-- The state `handle_begin` is in when it looks for its slot: a new transaction, which is skipped
if it is to be. -/
structure SkipBegun (lsn : Nat) (n n' : Node) : Prop where
  attempt : n'.attempt = some lsn
  loaded : n'.skiplsn = n.skiplsn
  had : n'.xactHadException = false
  xact : n'.xact = none
  skipping : n'.isSkippingChanges = true ↔ lsn = n'.skiplsn

theorem SkipBegun.left (h : SkipBegun lsn n n') : SkipLeft n' where
  attempt := by
    intro hskip
    rw [h.attempt, h.skipping.mp hskip]
  had := by
    rw [h.had]
    nofun

theorem SkipBegun.same (h : SkipBegun lsn n n₁) (hs : SkipSame n₁ n₂) :
    SkipBegun lsn n n₂ where
  attempt := hs.attempt.trans h.attempt
  loaded := hs.loaded.trans h.loaded
  had := hs.had.trans h.had
  xact := hs.xact.trans h.xact
  skipping := by
    rw [hs.isSkippingChanges, hs.loaded]
    exact h.skipping

theorem SkipBegun.inv (h : SkipBegun lsn n n₁) (hattempt : n₂.attempt = n₁.attempt)
    (hskip : n₂.skipXactFinishLsn = n₁.skipXactFinishLsn) (hloaded : n₂.skiplsn = n₁.skiplsn)
    (hxact : n₂.xact = n₁.xact) (hhad : n₂.xactHadException = n₁.xactHadException) :
    SkipInv n₂ := by
  have hskip' : n₂.isSkippingChanges = true ↔ lsn = n₂.skiplsn := by
    rw [Node.isSkippingChanges, hskip, hloaded]
    exact h.skipping
  have hnone : n₂.xact = none := hxact.trans h.xact
  have hat : n₂.attempt = some lsn := hattempt.trans h.attempt
  refine ⟨fun hs => ?_, fun _ ha => ?_, fun _ => hnone, fun x hx => ?_, fun hh => ?_⟩
  · rw [hat, hskip'.mp hs]
  · exact hskip'.mpr (some.inj (hat.symm.trans ha))
  · cases hnone.symm.trans hx
  · rw [hhad, h.had] at hh
    cases hh

section Handlers

variable {pub : Publisher} {sub : Subscription} {p : Node} {t : RemoteTxn}
  {pre done : List WalMessage} {m : WalMessage}

theorem handleBegin_skip (ht : Taken pub p t pre done m) (h : SkipLeft p) (hlog : LogKept n p)
    {lsn : Nat} (hm : m.entry = .begin lsn) (fault : Option Fault) :
    Ends (handleBegin sub lsn fault) p (fun _ n' => Handled n n' ∧ n'.pc = p.pc)
      (Raised (.plain fault) n) := by
  have hattempt := ht.attempt_begin hm
  obtain ⟨-, _, hdone⟩ := ht.begin_eq hm
  have hxact : p.xact = none := ht.closed (by rw [ht.begun, attemptOf_asides hdone]; rfl)
  unfold handleBegin
  rw [ends_bind, ends_modify, ends_bind]
  cases fault with
  | some => exact ⟨⟨h.attempt, nofun⟩, hlog.logged_eq, fun _ _ => .inl rfl⟩
  | none =>
    simp only [raiseIf, ends_pure, ends_bind, ends_modify, ends_get]
    set q : Node := { ({ p with xactActionCounter := 1, xactHadException := false } : Node
      ).maybeStartSkippingChanges lsn with
      sessionOriginLsn := lsn, forwarded := false, commitFailed := false } with hq
    have hbegun : SkipBegun lsn p q := by
      refine ⟨hattempt, rfl, rfl, hxact, ?_⟩
      refine (maybeStartSkippingChanges_isSkipping _ lsn).trans ⟨?_, fun heq => ?_⟩
      · rintro (hold | ⟨heq, -⟩)
        · exact some.inj (hattempt.symm.trans (h.attempt hold))
        · exact heq.symm
      · have hpos := t.commitLsn_pos
        exact .inr ⟨heq.symm, by omega⟩
    have hkept : LogKept n q := hlog.trans logKept_of_eq
    refine onlyIf_ends.mpr ⟨fun _ => ?_, fun _ => ?_⟩
    · refine (findExceptionLogSlot_skip sub lsn q).mono ?_ ?_
      · rintro _ r ⟨hs, hr, hpc⟩
        exact ⟨⟨(hbegun.same hs).inv rfl rfl rfl rfl rfl,
          (hkept.trans hr).logged_eq⟩, hpc⟩
      · rintro _ r ⟨hs, hr, htry⟩
        refine ⟨(hbegun.same hs).left, (hkept.trans hr).logged, fun _ _ => .inr fun hmust => ?_⟩
        simp [Node.mustDisable, htry, (hbegun.same hs).had] at hmust
    · exact ⟨⟨hbegun.inv rfl rfl rfl rfl rfl, hkept.logged_eq⟩, rfl⟩

/-! ## Row changes and the other messages -/

structure ChangeKept (n n' : Node) : Prop where
  attempt : n'.attempt = n.attempt
  skip : n'.skipXactFinishLsn = n.skipXactFinishLsn
  inRemote : n'.inRemoteTransaction = n.inRemoteTransaction
  pc : n'.pc = n.pc
  log : LogKept n n'

theorem ChangeKept.trans {n₃ : Node} (h : ChangeKept n₁ n₂) (h' : ChangeKept n₂ n₃) :
    ChangeKept n₁ n₃ :=
  ⟨h'.attempt.trans h.attempt, h'.skip.trans h.skip, h'.inRemote.trans h.inRemote,
    h'.pc.trans h.pc, h.log.trans h'.log⟩

instance : IsPreorder Node ChangeKept where
  refl n := ⟨rfl, rfl, rfl, rfl, .refl n⟩
  trans _ _ _ := ChangeKept.trans

theorem keeps_changeKept (id : Nat) (result : ChangeResult) :
    Keeps ChangeKept (handleChange id result) :=
  keeps_handleChange_of (fun _ => ⟨rfl, rfl, rfl, rfl, logKept_of_eq⟩)
    (fun _ _ => ⟨rfl, rfl, rfl, rfl, logKept_of_eq⟩)
    (fun _ => ⟨rfl, rfl, rfl, rfl, logKept_of_eq⟩)

theorem handleChange_skip (ht : Taken pub p t pre done m) (h : SkipInv p) (hlog : LogKept n p)
    {id : Nat} (hm : m.entry = .change id) (result : ChangeResult) :
    Ends (handleChange id result) p (fun _ n' => Handled n n' ∧ n'.pc = p.pc)
      (Raised (.change result) n) := by
  have hremote := ht.inRemote_of_change (by rw [hm]; rfl)
  cases hskip : p.isSkippingChanges with
  | true =>
    -- the handler returns at once
    unfold handleChange
    rw [ends_bind, ends_get, ends_ite]
    exact ⟨fun _ => ⟨⟨h, hlog.logged⟩, rfl⟩, absurd hskip⟩
  | false =>
    have hne := h.not_skipping hremote hskip
    have hattempt := ht.attempt_some hremote
    have hleft : ∀ n', ChangeKept p n' → SkipLeft n' := by
      intro n' hk
      refine ⟨fun hs => ?_, fun _ => ⟨t.commitLsn, hk.attempt.trans hattempt, fun heq => ?_⟩⟩
      · rw [Node.isSkippingChanges, hk.skip] at hs
        cases hskip.symm.trans hs
      · rw [hk.log.loaded] at heq
        exact hne (heq ▸ hattempt)
    refine ((keeps_changeKept id result p).and (handleChange_ends)).mono ?_ ?_
    · rintro _ n' ⟨hk, ⟨hs, -⟩ | ⟨-, -, l, -, hxact⟩⟩
      · cases hskip.symm.trans hs
      have hskip' : n'.isSkippingChanges = false := by
        rw [Node.isSkippingChanges, hk.skip]
        exact hskip
      refine ⟨⟨{ hleft n' hk with
        begun := fun _ ha => ?_, closed := fun hs => ?_, unset := fun x hx => ?_ },
        (hlog.trans hk.log).logged⟩, hk.pc⟩
      · rw [hk.attempt, hk.log.loaded] at ha
        exact absurd ha hne
      · cases hskip'.symm.trans hs
      · cases hxact.symm.trans hx
        cases hopen : p.xact with
        | none => rfl
        | some y => exact h.unset y hopen
    · rintro _ n' ⟨hk, -⟩
      refine ⟨hleft n' hk, (hlog.trans hk.log).logged, fun _ _ => .inr fun _ ha => ?_⟩
      rw [hk.attempt, hk.log.loaded] at ha
      exact hne ha

theorem handleOrigin_skip (ht : Taken pub p t pre done m) (h : SkipInv p) (hlog : LogKept n p)
    (hm : m.entry = .origin) (fault : Option Fault) :
    Ends (handleOrigin sub fault) p (fun _ n' => Handled n n' ∧ n'.pc = p.pc)
      (Raised (.plain fault) n) := by
  have hremote := ht.inRemote_of_body (by rw [hm]; rfl) (by rw [hm]; rfl)
  unfold handleOrigin
  rw [ends_bind, ends_get, ends_ite]
  refine ⟨fun hopen => ?_, fun _ => ?_⟩
  · -- out of order: a local transaction is open, so the remote one is not skipped
    refine ⟨h.left, hlog.logged, fun _ _ => .inr fun _ ha => ?_⟩
    rw [h.closed (h.begun hremote ha)] at hopen
    simp [hremote] at hopen
  · rw [ends_bind]
    cases fault with
    | some => exact ⟨h.left, hlog.logged, fun _ _ => .inl rfl⟩
    | none => exact ⟨⟨h.same .of_eq, hlog.logged_eq⟩, rfl⟩

theorem logKept_advance (n : Node) (lsn : Nat) : LogKept n (n.reploriginSessionAdvance lsn) :=
  logKept_concat

theorem handleMessage_skip (h : SkipInv p) (hlog : LogKept n p) (lsn : Nat) (transactional : Bool)
    (fault : Option Fault) :
    Ends (handleMessage lsn transactional fault) p (fun _ n' => Handled n n' ∧ n'.pc = p.pc)
      (Raised (.plain fault) n) := by
  unfold handleMessage
  rw [ends_bind]
  cases fault with
  | some => exact ⟨h.left, hlog.logged, fun _ _ => .inl rfl⟩
  | none =>
    cases transactional with
    | true => exact ⟨⟨h, hlog.logged⟩, rfl⟩
    | false =>
      exact ⟨⟨h.same .of_eq,
        (hlog.trans (logKept_advance p lsn)).logged⟩, rfl⟩

theorem raiseIf_skip (h : SkipInv p) (hlog : LogKept n p) (fault : Option Fault) :
    Ends (raiseIf fault) p (fun _ n' => Handled n n' ∧ n'.pc = p.pc) (Raised (.plain fault) n) := by
  cases fault with
  | some => exact ⟨h.left, hlog.logged, fun _ _ => .inl rfl⟩
  | none => exact ⟨⟨h, hlog.logged⟩, rfl⟩

end Handlers

/-! ## COMMIT -/

structure HadKept (n n' : Node) : Prop where
  skip : n'.skipXactFinishLsn = n.skipXactFinishLsn
  loaded : n'.skiplsn = n.skiplsn
  pc : n'.pc = n.pc
  had : (n'.xactHadException = n.xactHadException ∧ n'.queue = n.queue) ∨ n'.xactHadException = false

theorem HadKept.trans (h : HadKept n₁ n₂) (h' : HadKept n₂ n₃) :
    HadKept n₁ n₃ where
  skip := h'.skip.trans h.skip
  loaded := h'.loaded.trans h.loaded
  pc := h'.pc.trans h.pc
  had := by
    rcases h'.had with ⟨hhad, hqueue⟩ | hhad
    · rw [hhad, hqueue]
      exact h.had
    · exact .inr hhad

instance : IsPreorder Node HadKept where
  refl _ := ⟨rfl, rfl, rfl, Or.inl ⟨rfl, rfl⟩⟩
  trans _ _ _ := HadKept.trans

theorem SkipLeft.hadKept (h : SkipLeft n) (hskip : n.isSkippingChanges = false) (hk : HadKept n n') :
    SkipLeft n' where
  attempt := by
    intro hs
    rw [Node.isSkippingChanges, hk.skip] at hs
    cases hskip.symm.trans hs
  had := by
    intro hhad
    rcases hk.had with ⟨heq, hqueue⟩ | hfalse
    · rw [Node.attempt, hqueue, hk.loaded]
      exact h.had (heq.symm.trans hhad)
    · cases hfalse.symm.trans hhad

theorem hadKept_settleStages : SettleStages HadKept := by
  constructor <;> intros <;> exact ⟨rfl, rfl, rfl, .inl ⟨rfl, rfl⟩⟩

theorem hadKept_finishStages : FinishStages HadKept where
  commitOwn := fun _ => ⟨rfl, rfl, rfl, .inl ⟨rfl, rfl⟩⟩
  leave := fun _ => ⟨rfl, rfl, rfl, .inl ⟨rfl, rfl⟩⟩
  flushWal := fun _ => ⟨rfl, rfl, rfl, .inl ⟨rfl, rfl⟩⟩
  reset := fun _ => ⟨rfl, rfl, rfl, .inr rfl⟩

theorem logKept_finishStages : FinishStages LogKept where
  commitOwn := fun _ => logKept_concat
  leave := fun _ => logKept_of_eq
  flushWal := fun _ => logKept_of_eq
  reset := fun _ => logKept_of_eq

/-- The node `q` is about to settle the remote transaction that committed at `commitLsn`, for the
node `n` that has read its COMMIT; skipping is over. -/
structure SkipSettling (n q : Node) (commitLsn : Nat) (skipped : Bool) : Prop where
  loaded : q.skiplsn = n.skiplsn
  durable : q.durable = n.durable
  commits : q.commits = n.commits
  left : SkipLeft q
  finished : q.isSkippingChanges = false
  unset : ∀ x, q.xact = some x → x.clearsSkip = false
  pos : 0 < commitLsn
  skips : skipped = true ↔ commitLsn = n.skiplsn
  nothing : skipped = true → q.xact = some ⟨[], false⟩ ∧ q.useTryBlock = false ∧
    q.xactHadException = false
  attempt : skipped = false → q.attempt ≠ some q.skiplsn

section SkipSettling

variable {sub : Subscription} {q : Node} {commitLsn : Nat} {skipped : Bool} (endLsn : Nat)

theorem SkipSettling.advances (h : SkipSettling n q commitLsn skipped) (hs : skipped = true) :
    q.clearSubscriptionSkipLsn.advancesOrigin = true := by
  obtain ⟨-, htry, hhad⟩ := h.nothing hs
  show ((!q.xactHadException && !(q.useTryBlock && _)) || _ || _) = true
  rw [htry, hhad]
  rfl

theorem SkipSettling.not_mustDisable (h : SkipSettling n q commitLsn skipped) (hs : skipped = true) :
    (q.clearSubscriptionSkipLsn.stageOriginLsn endLsn).clearDiscarded.mustDisable = false := by
  obtain ⟨-, htry, hhad⟩ := h.nothing hs
  show (_ && (q.xactHadException || q.useTryBlock)) = false
  rw [htry, hhad]
  simp

def Node.clearsStored (q : Node) : Bool := q.skiplsn != 0 && q.durable.subSkipLsn == q.skiplsn

section

variable (h : SkipSettling n q commitLsn skipped)

include h

theorem SkipSettling.clearsStored_iff :
    q.clearsStored = true ↔ n.skiplsn ≠ 0 ∧ n.durable.subSkipLsn = n.skiplsn := by
  rw [Node.clearsStored, h.loaded, h.durable]
  simp

variable {x : OpenXact}

theorem SkipSettling.commitRemote_eq (hopen : q.xact = some x) :
    let r := (q.clearSubscriptionSkipLsn.stageOriginLsn endLsn).clearDiscarded
    let y : OpenXact := { x with clearsSkip := q.clearsStored }
    r.commitRemote commitLsn endLsn skipped =
      r.commitTransaction y.writesWal (Node.resetSkipLsn q.clearsStored) x.effects
        (some (r.ended commitLsn endLsn skipped)) := by
  intro r y
  have hxact : r.xact = some y := by
    show q.xact.map (fun x => { x with clearsSkip := x.clearsSkip || q.clearsStored }) = _
    rw [hopen, map_some, h.unset x hopen]
    rfl
  unfold Node.commitRemote
  rw [hxact]
  rfl

theorem SkipSettling.stored_eq {wal : Bool} {origin : Nat}
    (hwal : q.clearsStored = true → wal = true) :
    (if wal then Node.resetSkipLsn q.clearsStored { q.durable with origin := origin }
      else q.durable).subSkipLsn =
      if n.durable.subSkipLsn = n.skiplsn then 0 else n.durable.subSkipLsn := by
  cases hc : q.clearsStored with
  | true =>
    rw [hwal hc, if_pos rfl, if_pos (h.clearsStored_iff.mp hc).2]
    rfl
  | false =>
    have hkept : (if wal then Node.resetSkipLsn false { q.durable with origin := origin }
        else q.durable).subSkipLsn = n.durable.subSkipLsn := by
      rw [← h.durable]
      split <;> rfl
    rw [hkept]
    split
    · next heq =>
      -- nothing was loaded, and nothing is stored
      have hzero : n.skiplsn = 0 := by
        by_contra hne
        rw [h.clearsStored_iff.mpr ⟨hne, heq⟩] at hc
        cases hc
      rw [heq, hzero]
    · rfl

/-- **The local commit of a remote transaction.** -/
theorem SkipSettling.endsWell (hopen : q.xact = some x) :
    ∃ c, ((q.clearSubscriptionSkipLsn.stageOriginLsn endLsn).clearDiscarded.commitRemote
        commitLsn endLsn skipped).commits = n.commits ++ [c] ∧
      ((q.clearSubscriptionSkipLsn.stageOriginLsn endLsn).clearDiscarded.commitRemote
        commitLsn endLsn skipped).durable = c.after ∧
      ∃ r, c.ended = some r ∧ EndsWell n c r := by
  have hwal : q.clearsStored = true →
      OpenXact.writesWal { x with clearsSkip := q.clearsStored } = true := by
    intro hc
    simp [OpenXact.writesWal, hc]
  rw [h.commitRemote_eq endLsn hopen, ← h.commits]
  refine ⟨_, rfl, rfl, _, rfl, h.skips, fun hs => ?_, h.stored_eq hwal, fun hs heq => ?_⟩
  · -- nothing was done for a skipped transaction
    cases hopen.symm.trans (h.nothing hs).1
    rfl
  · -- a skip that clears the stored value writes, and takes the origin with it
    have hne : n.skiplsn ≠ 0 := by
      rw [← h.skips.mp hs]
      exact Nat.ne_of_gt h.pos
    have hsession : (q.clearSubscriptionSkipLsn.stageOriginLsn endLsn).sessionOriginLsn = endLsn :=
      if_pos (h.advances hs)
    show endLsn ≤ (if _ then _ else _ : Durable).origin
    rw [if_pos (hwal (h.clearsStored_iff.mpr ⟨hne, heq⟩))]
    exact Nat.le_trans (Nat.le_of_eq hsession.symm) (Nat.le_max_right _ _)

theorem SkipSettling.logged (hopen : q.xact.isSome = true) :
    Logged n ((q.clearSubscriptionSkipLsn.stageOriginLsn endLsn).clearDiscarded.commitRemote
      commitLsn endLsn skipped) := by
  obtain ⟨x, hx⟩ := isSome_iff_exists.mp hopen
  obtain ⟨c, hcommits, hdurable, r, hended, hwell⟩ := h.endsWell endLsn hx
  refine ⟨h.loaded, [c], hcommits, fun c' hc' => ?_, .inr ⟨c, mem_singleton_self c, ?_, ?_⟩⟩
  · rw [mem_singleton.mp hc', Accounted, hended]
    exact hwell
  · rw [hended]
    rfl
  · rw [hdurable]

theorem settle_skip (env : CommitEnv) :
    Ends (settle sub commitLsn endLsn skipped env) q (fun _ n' => Logged n n' ∧ HadKept q n')
      (Raised (.commit env) n) := by
  have hkept : LogKept n q := logKept_of_eq h.loaded (by rw [h.durable]) h.commits
  have hfault : ∀ {point f}, env.fault = some (point, f) → (EntryOutcome.commit env).raises = true :=
    fun hf => by simp [EntryOutcome.raises, hf]
  -- every state on the way has the queue and the flags of `q`
  have hleft : ∀ {n'}, HadKept q n' → SkipLeft n' := h.left.hadKept h.finished
  refine settle_ends (fun hopen => ?_) fun _ => ?_
  · refine commitLocally_ends (fun f hf => ?_) ?_
    · exact ⟨hleft (hadKept_settleStages.clearSkip q), hkept.logged_eq,
        fun _ _ => .inl (hfault hf)⟩
    have hlogged := h.logged endLsn hopen
    refine commitStaged_ends (fun f hf => ?_) (fun hdis e => ?_)
      fun _ => ?_
    · exact ⟨hleft ⟨rfl, rfl, rfl, .inl ⟨rfl, rfl⟩⟩, hkept.logged_eq,
        fun _ _ => .inl (hfault hf)⟩
    · refine ⟨hleft ⟨rfl, rfl, rfl, .inl ⟨rfl, rfl⟩⟩,
        hlogged.kept logKept_of_eq, fun _ _ => .inr fun _ => ?_⟩
      -- only a transaction that is not skipped comes here
      refine h.attempt (Bool.eq_false_iff.mpr fun hs => ?_)
      rw [h.not_mustDisable endLsn hs] at hdis
      cases hdis
    · exact ⟨hlogged.kept logKept_of_eq, rfl, rfl, rfl, .inl ⟨rfl, rfl⟩⟩
  · exact ⟨(hkept.trans (logKept_advance q endLsn)).logged, rfl, rfl, rfl, .inl ⟨rfl, rfl⟩⟩

end

theorem finishCommit_skip (env : CommitEnv) (hleft : SkipLeft q)
    (hover : q.isSkippingChanges = false) (hlogged : Logged n q) :
    Ends (finishCommit sub endLsn env) q (fun _ n' => Logged n n' ∧ HadKept q n')
      (Raised (.commit env) n) := by
  have hcause : Ends (finishCommit sub endLsn env) q (fun _ _ => True)
      (fun e _ => ∀ f, e = .error f → (EntryOutcome.commit env).raises = true) := by
    have hfault : ∀ {point f}, env.fault = some (point, f) →
        ∀ f', Raise.error f = .error f' → (EntryOutcome.commit env).raises = true :=
      fun hf _ _ => by simp [EntryOutcome.raises, hf]
    refine finishCommit_ends (fun f hf => hfault hf) fun m _ => ?_
    exact endRemoteTransaction_ends (fun f hf => hfault hf) (fun f hf => hfault hf)
      (fun f hf => nomatch hf) (fun f hf => hfault hf) trivial
  refine (((keeps_finishCommit_of logKept_finishStages q).and
    (keeps_finishCommit_of hadKept_finishStages q)).and hcause).mono ?_ ?_
  · rintro _ n' ⟨⟨hlog, hhad⟩, -⟩
    exact ⟨hlogged.kept hlog, hhad⟩
  · rintro e n' ⟨⟨hlog, hhad⟩, hc⟩
    exact ⟨hleft.hadKept hover hhad, hlogged.kept hlog, fun f hf => .inl (hc f hf)⟩

end SkipSettling

section Steps

variable {pub : Publisher} {sub : Subscription} {p : Node} {t : RemoteTxn}
  {pre done : List WalMessage} {m : WalMessage}

section

variable (ht : Taken pub p t pre done m) (h : SkipInv p) (hloaded : p.skiplsn = n.skiplsn)
  (hdurable : p.durable = n.durable) (hcommits : p.commits = n.commits)

include ht h hloaded hdurable hcommits

theorem settling_of_commit {c e : Nat} (hm : m.entry = .commit c e) (reload : Option WorkerConfig) :
    (p.isSkippingChanges = false → SkipSettling n (p.actionCommit.reload reload) c false) ∧
      (p.isSkippingChanges = true →
        SkipSettling n (p.actionCommit.reload reload).finishSkipping c true) := by
  have hremote := ht.inRemote_of_commit hm
  have hattempt := ht.attempt_some hremote
  obtain ⟨-, rfl, -⟩ := ht.commit_eq hm
  refine ⟨fun hskip => ?_, fun hskip => ?_⟩
  · have hne := h.not_skipping hremote hskip
    have hlsn : t.commitLsn ≠ n.skiplsn := fun heq => hne (by rw [hattempt, heq, hloaded])
    exact ⟨hloaded, hdurable, hcommits, { h with }, hskip, h.unset, t.commitLsn_pos,
      ⟨fun hf => (Bool.false_ne_true hf).elim, fun heq => absurd heq hlsn⟩,
      fun hf => (Bool.false_ne_true hf).elim, fun _ => hne⟩
  · have hat := h.attempt hskip
    have hlsn : t.commitLsn = n.skiplsn := by
      rw [← hloaded]
      exact some.inj (hattempt.symm.trans hat)
    have hhad := h.left.had_false hat
    have hxact : (p.actionCommit.reload reload).finishSkipping.xact = some ⟨[], false⟩ := by
      show some (p.xact.getD ⟨[], false⟩) = _
      rw [h.closed hskip]
      rfl
    refine ⟨hloaded, hdurable, hcommits, ⟨fun hs => ?_, h.had⟩, rfl, fun x hx => ?_, t.commitLsn_pos,
      ⟨fun _ => hlsn, fun _ => rfl⟩, fun _ => ⟨hxact, rfl, hhad⟩, nofun⟩
    · cases hs
    · cases hxact.symm.trans hx
      rfl

theorem handleCommit_skip {c e : Nat} (hm : m.entry = .commit c e) (env : CommitEnv) :
    Ends (handleCommit sub c e env) p (fun _ n' => Handled n n' ∧ n'.pc = p.pc)
      (Raised (.commit env) n) := by
  obtain ⟨hplain, hskipped⟩ := settling_of_commit ht h hloaded hdurable hcommits hm env.reload
  have hkept : LogKept n p := logKept_of_eq hloaded (by rw [hdurable]) hcommits
  -- the queue was not empty, so the flag of an exception has been reset with it
  have hsettled : ∀ {q skipped}, SkipSettling n q c skipped → q.pc = p.pc → q.queue = p.queue →
      Ends (settle sub c e skipped env) q (fun _ n₁ => Ends (finishCommit sub e env) n₁
        (fun _ n' => AtRest n' → Handled n n' ∧ n'.pc = p.pc) (Raised (.commit env) n))
        (Raised (.commit env) n) := by
    intro q skipped hq hpc hqueue
    refine (settle_skip e hq env).mono ?_ fun _ _ hr => hr
    rintro _ n₁ ⟨hlogged, hhad⟩
    have hover : n₁.isSkippingChanges = false := by
      rw [Node.isSkippingChanges, hhad.skip]
      exact hq.finished
    refine (finishCommit_skip e env (hq.left.hadKept hq.finished hhad) hover hlogged).mono ?_
      fun _ _ hr => hr
    rintro _ n' ⟨hlogged', hhad'⟩ hrest
    have hk := hhad.trans hhad'
    have hfalse : n'.xactHadException = false := by
      rcases hk.had with ⟨-, hq'⟩ | hfalse
      · have hnil : p.queue = [] := by rw [← hqueue, ← hq', hrest.queue]
        have hne := ht.queue
        rw [hnil] at hne
        simp at hne
      · exact hfalse
    have hskip : n'.isSkippingChanges = false := by
      rw [Node.isSkippingChanges, hk.skip]
      exact hq.finished
    refine ⟨⟨⟨fun hs => ?_, fun hr => ?_, fun _ => hrest.xact, fun x hx => ?_, fun hh => ?_⟩,
      hlogged'⟩, hk.pc.trans hpc⟩
    · cases hskip.symm.trans hs
    · cases hrest.inRemote.symm.trans hr
    · cases hrest.xact.symm.trans hx
    · cases hfalse.symm.trans hh
  have hends : Ends (handleCommit sub c e env) p
      (fun _ n' => AtRest n' → Handled n n' ∧ n'.pc = p.pc) (Raised (.commit env) n) := by
    refine handleCommit_ends (fun f hf => ?_) (fun hskip => hsettled (hplain hskip) rfl rfl)
      fun hskip => hsettled (hskipped hskip) rfl rfl
    exact ⟨{ h with }, hkept.logged_eq,
      fun _ _ => .inl (by simp [EntryOutcome.raises, hf])⟩
  exact (hends.and (handleCommit_ok sub c e env p)).mono (fun _ _ hn => hn.1 hn.2) fun _ _ hr => hr.1

variable {o : EntryOutcome} {x : Handler} {fault : Option Fault} {e : WorkerEvent}

theorem dispatch_skip (hx : dispatch sub m.entry o = some x) :
    Ends x p (fun _ n' => Handled n n' ∧ n'.pc = p.pc) (Raised o n) := by
  have hlog : LogKept n p := logKept_of_eq hloaded (by rw [hdurable]) hcommits
  refine dispatch_ends hx (fun lsn fault hm ho => ?_) (fun id result hm ho => ?_)
    (fun c e env hm ho => ?_) (fun fault hm ho => ?_) (fun lsn transactional fault hm ho => ?_)
    fun fault hm ho => ?_
  · rw [ho]
    exact handleBegin_skip ht h.left hlog hm fault
  · rw [ho]
    exact handleChange_skip ht h hlog hm result
  · rw [ho]
    exact handleCommit_skip ht h hloaded hdurable hcommits hm env
  · rw [ho]
    exact handleOrigin_skip ht h hlog hm fault
  · rw [ho]
    exact handleMessage_skip h hlog lsn transactional fault
  · rw [ho]
    exact raiseIf_skip h hlog fault

end

theorem dispatch_aside_skip (h : SkipInv p) (hlog : LogKept n p) (hm : m.entry.isAside = true)
    (hx : dispatch sub m.entry o = some x) :
    Ends x p (fun _ n' => Handled n n' ∧ n'.pc = p.pc) (Raised o n) := by
  refine dispatch_aside_ends hm hx (fun lsn transactional fault _ ho => ?_) fun fault _ ho => ?_
  · rw [ho]
    exact handleMessage_skip h hlog lsn transactional fault
  · rw [ho]
    exact raiseIf_skip h hlog fault

theorem skipInv_receive {q : Node} (h : SkipInv n) (hattempt : n.attempt = none)
    (hremote : n.inRemoteTransaction = false) (hskip : q.skipXactFinishLsn = n.skipXactFinishLsn)
    (hinRemote : q.inRemoteTransaction = n.inRemoteTransaction) (hxact : q.xact = n.xact)
    (hhad : q.xactHadException = n.xactHadException) : SkipInv q := by
  have hidle : n.isSkippingChanges = false := by
    refine Bool.eq_false_iff.mpr fun hs => ?_
    rw [h.attempt hs] at hattempt
    cases hattempt
  have hidle' : q.isSkippingChanges = false := by
    rw [Node.isSkippingChanges, hskip]
    exact hidle
  refine ⟨fun hs => ?_, fun hr => ?_, fun hs => ?_, fun x hx => h.unset x (hxact.symm.trans hx),
    fun hh => ?_⟩
  · cases hidle'.symm.trans hs
  · rw [hinRemote, hremote] at hr
    cases hr
  · cases hidle'.symm.trans hs
  · obtain ⟨_, hlsn, -⟩ := h.had (hhad.symm.trans hh)
    cases hattempt.symm.trans hlsn

theorem skipStep_handleNext (hstep : n.handleNext sub o = some n') (hpc : n.pc = .inner)
    (hwf : Wf pub n) (h : SkipInv n) : SkipStep o.raises n n' := by
  have hdis : n.pc ≠ .disabling := by
    rw [hpc]
    nofun
  rcases Node.handleNext_next hwf hstep with ⟨-, rfl⟩ | ⟨m, p, hnext, hhandle⟩
  · refine ⟨fun _ => h.same .of_eq, (LogKept.refl n).logged_eq,
      fun hpc' => absurd hpc' hdis⟩
  cases hnext with
  | aside _ rest _ _ haside =>
    refine skipStep_handle hhandle ((LogKept.refl n).logged_eq) hdis fun x hx => ?_
    exact dispatch_aside_skip (n := n) (p := (n.replayNext m rest).resetAction)
      (h.same .of_eq) logKept_of_eq haside hx
  | replayed _ _ _ _ htaken =>
    refine skipStep_handle hhandle ((LogKept.refl n).logged_eq) hdis fun x hx => ?_
    exact dispatch_skip (n := n) htaken (h.same .of_eq) rfl rfl rfl hx
  | received _ _ hattempt _ _ hnew htaken =>
    refine skipStep_handle hhandle ((LogKept.refl n).logged_eq) hdis fun x hx => ?_
    exact dispatch_skip (n := n) htaken
      (h.same ⟨hnew.trans hattempt.symm, rfl, rfl, rfl, rfl, rfl⟩) rfl rfl rfl hx
  | begun _ _ hattempt _ _ _ htaken =>
    refine skipStep_handle hhandle ((LogKept.refl n).logged_eq) hdis fun x hx => ?_
    exact dispatch_skip (n := n) htaken
      (skipInv_receive h hattempt (hwf.resting hattempt).1 rfl rfl rfl rfl) rfl rfl rfl hx

theorem skipStep_aside (hpc : n.pc = .inner) (hwf : Wf pub n) (h : SkipInv n)
    (hreplay : n.replay = none) (htodo : n.todo = []) (haside : m.entry.isAside = true)
    (hhandle : (n.receive m).handle sub m (.plain fault) = some n') :
    SkipStep fault.isSome n n' := by
  have hdis : n.pc ≠ .disabling := by
    rw [hpc]
    nofun
  have hattempt := Node.attempt_none hwf (by rw [Node.rest, hreplay]; rfl) htodo
  refine skipStep_handle hhandle ((LogKept.refl n).logged_eq) hdis fun x hx => ?_
  exact dispatch_aside_skip (n := n) (p := (n.receive m).resetAction)
    (skipInv_receive h hattempt (hwf.resting hattempt).1 rfl rfl rfl rfl)
    logKept_of_eq haside hx

/-! ## Steps and runs -/

theorem skipInv_start (n : Node) (pub : Publisher) (config : WorkerConfig) :
    SkipInv (n.start pub config) :=
  ⟨nofun, nofun, nofun, nofun, nofun⟩

theorem logKept_commitOwn (n : Node) (wrote : Bool) : LogKept n (n.commitOwn wrote) :=
  logKept_finishStages.commitOwn_of n wrote

theorem skipSame_commitOwn (hxact : n.xact = none) (wrote : Bool) : SkipSame n (n.commitOwn wrote) := by
  cases wrote
  · exact SkipSame.refl n
  · exact ⟨rfl, rfl, rfl, rfl, hxact.symm, rfl⟩

theorem leaveInner_skip (n : Node) :
    SkipSame n n.leaveInner ∧ LogKept n n.leaveInner ∧ n.leaveInner.pc = .outer :=
  Node.leaveInner_of (P := fun m => SkipSame n m ∧ LogKept n m ∧ m.pc = .outer)
    ⟨.of_eq, logKept_of_eq, rfl⟩
    ⟨.of_eq, logKept_of_eq, rfl⟩

theorem afterInnerStep_disabling {wrote : Bool} (h : (n.afterInnerStep wrote fault).pc = .disabling) :
    n.xactHadException = true ∨ fault.isSome = true := by
  have houter := (leaveInner_skip n).2.2
  unfold Node.afterInnerStep at h
  split at h
  · next hguard => exact .inl (Bool.and_eq_true_iff.mp hguard).1
  simp only at h
  split at h
  · cases houter.symm.trans h
  cases fault with
  | some => exact .inr rfl
  | none =>
    have hpc : (n.leaveInner.commitOwn wrote).pc = n.leaveInner.pc := by cases wrote <;> rfl
    rw [show (n.leaveInner.commitOwn wrote).pc = .disabling from h, houter] at hpc
    cases hpc

theorem skipStep_same {raises : Bool} (h : n'.looping → SkipInv n) (hs : SkipSame n n')
    (hlog : LogKept n n') (hpc : n'.pc = .disabling → n.pc = .disabling) : SkipStep raises n n' :=
  ⟨fun hloop => (h hloop).same hs, hlog.logged, fun hdis hnot => absurd (hpc hdis) hnot⟩

theorem skipStep_step (hinv : n.looping → Wf pub n ∧ SkipInv n) (hstep : n.step sub pub e = some n')
    (hstart : ∀ config, e ≠ .start config) (hset : ∀ lsn, e ≠ .setSkipLsn lsn)
    (hcrash : ∀ kept, e ≠ .crash kept) (hdisable : e = .disable → n.durable.subSkipLsn = n.skiplsn) :
    SkipStep e.raises n n' := by
  have hwf : n.looping → Wf pub n := fun hloop => (hinv hloop).1
  have hskip : n.looping → SkipInv n := fun hloop => (hinv hloop).2
  have hloops : n'.pc = n.pc → n'.looping → SkipInv n := by
    intro hpc hloop
    exact hskip (by rwa [Node.looping, hpc] at hloop)
  obtain ⟨hleave, hlog, houter⟩ := leaveInner_skip n
  cases Node.step_cases hstep with
  | start config => exact absurd rfl (hstart config)
  | setSkipLsn lsn => exact absurd rfl (hset lsn)
  | crash kept => exact absurd rfl (hcrash kept)
  | exit | outerExit | disableOpen => exact skipStep_exit (LogKept.refl n).logged
  | sigterm | flush | reload | keepalive =>
    exact skipStep_same (hloops rfl) .of_eq logKept_of_eq id
  | enable =>
    exact skipStep_same (hloops rfl) .of_eq
      logKept_concat id
  | cleanup wrote _ hxact =>
    have hpc' : (n.commitOwn wrote).pc = n.pc := by cases wrote <;> rfl
    exact skipStep_same (hloops hpc') (skipSame_commitOwn hxact wrote) (logKept_commitOwn n wrote)
      hpc'.symm.trans
  | outerError _ hpc =>
    exact skipStep_catchError (hskip (.inl hpc)).left (LogKept.refl n).logged (.inl rfl)
  | enterInner hpc =>
    refine skipStep_same (fun _ => hskip (.inl hpc)) .of_eq logKept_of_eq fun hdis => ?_
    cases hdis
  | stopInner _ hpc =>
    refine skipStep_same (fun _ => hskip (.inr (.inl hpc))) .of_eq logKept_of_eq fun hdis => ?_
    cases hdis
  | readonly => exact skipStep_same hskip (SkipSame.refl n) (LogKept.refl n) id
  | next _ hpc _ hnext =>
    have hloop : n.looping := .inr (.inl hpc)
    exact skipStep_handleNext hnext hpc (hwf hloop) (hskip hloop)
  | aside _ _ hpc hreplay htodo haside _ _ _ hhandle =>
    have hloop : n.looping := .inr (.inl hpc)
    exact skipStep_aside hpc (hwf hloop) (hskip hloop) hreplay htodo haside hhandle
  | interrupt _ hpc =>
    exact skipStep_catchError (hskip (.inr (.inl hpc))).left (LogKept.refl n).logged (.inl rfl)
  | afterDisabling wrote fault hpc =>
    have hinv' := hskip (.inr (.inr hpc))
    refine ⟨fun hloop => ?_, (LogKept.refl n).logged_eq, fun _ _ hattempt => ?_⟩
    · simp [Node.looping, Node.moveTo] at hloop
    · obtain ⟨-, heq⟩ := ite_none_right_eq_some.mp hstep
      have hdis : (n.afterInnerStep wrote fault).pc = .disabling := by
        rw [some.inj heq]
        rfl
      refine (afterInnerStep_disabling hdis).resolve_left fun hhad => ?_
      -- no change of a transaction that is skipped has failed
      rw [hinv'.left.had_false hattempt] at hhad
      cases hhad
  | afterRemote _ _ hpc =>
    refine skipStep_same (fun _ => hskip (.inr (.inr hpc))) hleave hlog fun hdis => ?_
    cases houter.symm.trans hdis
  | afterOwn wrote hpc hremote =>
    have hxact := hleave.xact.trans ((hwf (.inr (.inr hpc))).xact_none hremote)
    refine skipStep_same (fun _ => hskip (.inr (.inr hpc)))
      (hleave.trans (skipSame_commitOwn hxact wrote)) (hlog.trans (logKept_commitOwn _ wrote))
      fun hdis => ?_
    have hpc' : (n.leaveInner.commitOwn wrote).pc = n.leaveInner.pc := by cases wrote <;> rfl
    rw [hpc', houter] at hdis
    cases hdis
  | afterError wrote _ hpc hremote =>
    have hxact := hleave.xact.trans ((hwf (.inr (.inr hpc))).xact_none hremote)
    have hinv' := (hskip (.inr (.inr hpc))).same (hleave.trans (skipSame_commitOwn hxact wrote))
    exact skipStep_catchError hinv'.left (hlog.trans (logKept_commitOwn _ wrote)).logged (.inl rfl)
  | disable =>
    -- `alter_subscription` writes what the worker has loaded
    have hstored : n.skiplsn = n.durable.subSkipLsn := (hdisable rfl).symm
    refine skipStep_exit (LogKept.logged ?_)
    exact logKept_concat rfl hstored rfl rfl rfl

theorem SkipStep.rules (h : SkipStep e.raises n n') : SkipRules n e n' where
  loaded := .inl h.logged.loaded
  skipping := fun hloop hremote => ⟨(h.inv hloop).attempt, (h.inv hloop).begun hremote⟩
  commits := h.logged.newCommits.1
  stored := by
    rcases h.logged.newCommits.2 with hsame | hcommit
    · exact .inl hsame
    · exact .inr (.inr (.inr hcommit))
  enabled := h.cause

/-- **One step.** -/
theorem skip_step (hinv : n.looping → Wf pub n ∧ SkipInv n) (hstep : n.step sub pub e = some n')
    (hdisable : e = .disable → n.durable.subSkipLsn = n.skiplsn) :
    (n'.looping → SkipInv n') ∧ SkipRules n e n' := by
  have hnil : ∀ {m : Node}, m.commits <+: n.commits → ∀ c ∈ newCommits n m, Accounted n c := by
    intro m hprefix c hc
    rw [newCommits, drop_eq_nil_of_le hprefix.length_le] at hc
    cases hc
  by_cases hstart : ∃ config, e = .start config
  · obtain ⟨config, rfl⟩ := hstart
    obtain ⟨-, rfl⟩ := Runs.of_guard hstep
    exact ⟨fun _ => skipInv_start n pub config, .inr ⟨config, rfl, rfl⟩, (fun _ hr => by cases hr),
      hnil (prefix_refl n.commits), .inl rfl, fun hdis => by cases hdis⟩
  by_cases hset : ∃ lsn, e = .setSkipLsn lsn
  · obtain ⟨lsn, rfl⟩ := hset
    cases hstep
    have hinv' : n.looping → SkipInv n := fun hloop => (hinv hloop).2
    refine ⟨fun hloop => (hinv' hloop).same .of_eq, .inl rfl,
      fun hloop hremote => ⟨(hinv' hloop).attempt, (hinv' hloop).begun hremote⟩, fun c hc => ?_,
      .inr (.inl ⟨lsn, rfl, rfl⟩), absurd⟩
    rw [newCommits_of_append rfl] at hc
    rw [mem_singleton.mp hc]
    exact accounted_of_own ⟨rfl, rfl⟩
  by_cases hcrash : ∃ kept, e = .crash kept
  · obtain ⟨kept, rfl⟩ := hcrash
    obtain ⟨-, rfl⟩ := Runs.of_guard hstep
    have hstopped : ¬ (n.recover (n.commits.take kept)).looping := by
      simp [Node.looping, Node.recover, Node.exit]
    exact ⟨fun hloop => absurd hloop hstopped, .inl rfl, fun hloop => absurd hloop hstopped,
      hnil (List.take_prefix kept n.commits), .inr (.inr (.inl ⟨kept, rfl⟩)),
      fun hdis => by cases hdis⟩
  have hskip := skipStep_step hinv hstep (fun c h => hstart ⟨c, h⟩) (fun l h => hset ⟨l, h⟩)
    (fun k h => hcrash ⟨k, h⟩) hdisable
  exact ⟨hskip.inv, hskip.rules⟩

/-- **Every run.** A worker that disables its subscription is gone, whatever it has written. -/
theorem skipInv_run {n₀ : Node} {events : List WorkerEvent} (hinit : n₀.Initial pub)
    (hrun : Runs.run (Node.step sub pub) n₀ events = some n) :
    n.looping → Wf pub n ∧ SkipInv n := by
  refine Runs.run_invariant (I := fun n => n.looping → Wf pub n ∧ SkipInv n) ?_ ?_ hrun
  · intro s e s' hinv hstep hloop
    refine ⟨Node.wf_step (fun hl => (hinv hl).1) hstep hloop, ?_⟩
    by_cases hdisable : e = .disable
    · subst hdisable
      obtain ⟨-, rfl⟩ := Runs.of_guard hstep
      have hpc : s.disableSubscription.pc = .stopped := by
        unfold Node.disableSubscription
        split <;> rfl
      simp [Node.looping, hpc] at hloop
    · exact (skip_step hinv hstep fun h => absurd h hdisable).1 hloop
  · simp [Node.looping, hinit.stopped]

/-- **Skipping.** In every run and at every step, in every exception mode, with restarts and with
users that set the skip LSN at any time: as long as a worker that disables its subscription finds
the skip LSN stored that it has loaded, the step keeps the rules. -/
theorem skip_rules {n₀ : Node} {events : List WorkerEvent} {e : WorkerEvent} (hinit : n₀.Initial pub)
    (hrun : Runs.run (Node.step sub pub) n₀ events = some n) (hstep : n.step sub pub e = some n')
    (hdisable : e = .disable → n.durable.subSkipLsn = n.skiplsn) : SkipRules n e n' :=
  (skip_step (skipInv_run hinit hrun) hstep hdisable).2

end Steps

/-! ## A transaction that is skipped, and one that is not -/

/-- The first transaction fails and the subscription is disabled; then it is to be skipped. -/
def skippedRun : List WorkerEvent :=
  [.start ⟨.subDisable, .all, false⟩, .outer none, .nextPlain,
    .inner (.next (.change (.failed sampleFault))), .outer none, .nextPlain, .nextWritten,
    .nextPlain, .nextWritten, .nextCommit none, .disable, .setSkipLsn 20, .enable,
    .start ⟨.subDisable, .all, false⟩, .outer none, .nextPlain, .nextWritten, .nextWritten]

theorem skip_rules_skippedRun :
    ∃ n n' c r, Runs.run (Node.step sampleSubscription samplePublisher) sampleNode skippedRun = some n ∧
      n.step sampleSubscription samplePublisher (.nextCommit none) = some n' ∧
      newCommits n n' = [c] ∧ c.ended = some r ∧ r.skipped = true ∧ c.after.subSkipLsn = 0 ∧
      c.after.origin = 25 ∧ SkipRules n (.nextCommit none) n' := by
  have hrun : Runs.run (Node.step sampleSubscription samplePublisher) sampleNode skippedRun = some _ :=
    rfl
  exact ⟨_, _, _, _, hrun, rfl, rfl, rfl, rfl, rfl, rfl, skip_rules sampleNode_initial hrun rfl nofun⟩

/-- A transaction fails in SUB_DISABLE mode under a skip LSN that is not its own, up to the point
where the subscription is disabled. -/
def disablingRun (loaded : Nat) : List WorkerEvent :=
  [.setSkipLsn loaded, .start ⟨.subDisable, .all, false⟩, .outer none, .nextPlain,
    .inner (.next (.change (.failed sampleFault))), .outer none, .nextPlain, .nextWritten,
    .nextPlain, .nextWritten, .nextCommit none]

/-- The stored skip LSN before and after a run is continued with `.disable`. -/
def storedSkipLsn (events : List WorkerEvent) : Option (Nat × Nat) :=
  (Runs.run (Node.step sampleSubscription samplePublisher) sampleNode events).bind fun n =>
    (n.step sampleSubscription samplePublisher .disable).map fun n' =>
      (n.durable.subSkipLsn, n'.durable.subSkipLsn)

/-- **The stored value is overwritten with the one that was loaded.** The skip LSN 99 has been
cleared by the commit of the failed transaction, and is back when the subscription is disabled; and
a skip LSN that the user sets before that is lost. -/
theorem skip_lsn_overwritten :
    storedSkipLsn (disablingRun 99) = some (0, 99) ∧
      storedSkipLsn (disablingRun 0 ++ [.setSkipLsn 20]) = some (20, 0) := by
  decide +kernel

end Spock
