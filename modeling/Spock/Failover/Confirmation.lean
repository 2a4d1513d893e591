import Spock.Failover.Standby
import Spock.Lib.Runs

/-!
# Spock — a message passes when the standbys have confirmed it

The position that the walsender keeps stands for a number of slots, under the settings with which it
was found. It is right as long as the settings do not change behind its back, and the variable for
the number is what it was set to, or 0 because the own slot is named.

* **`Core`**, **`Inv`** — the cached position is confirmed, and the variable agrees with the
  setting;
* **`passes_justified`** — in careful runs every message that passes may pass.
-/

namespace Spock.Failover

open Runs List Option Function

section Invariant

variable {maxSlots : Nat} {s s' : State}

structure Core (maxSlots : Nat) (s : State) : Prop where
  unique : ∀ i < maxSlots, ∀ j < maxSlots, ∀ a ∈ s.slots i, ∀ b ∈ s.slots j, a.name = b.name → i = j
  best : ∀ i, ∀ slot ∈ s.slots i, slot.flushPos ≤ s.best slot.name
  cache : Confirmed s.names s.setting s.best s.oldest
  /-- The variable is what has been set, or the own slot is named. -/
  overwritten : s.minConfirmed = s.setting ∨ s.minConfirmed = 0 ∧ s.named = true

/-- And no message is held back when none has to be. -/
structure Inv (maxSlots : Nat) (s : State) : Prop extends Core maxSlots s where
  held : s.waiting ≠ none → s.minConfirmed ≠ 0

theorem inv_start (mySlot : Option Nat) : Inv maxSlots (.start mySlot) :=
  ⟨⟨nofun, nofun, confirmed_zero _ _ _, .inl rfl⟩, absurd rfl⟩

/-! ## The slots -/

section

variable (h : Core maxSlots s)

include h

theorem Core.namedSlots :
    ((s.namedSlots maxSlots).map (·.name)).Nodup ∧
      ∀ slot ∈ s.namedSlots maxSlots, slot.name ∈ s.names ∧ slot.flushPos ≤ s.best slot.name := by
  constructor
  · have hall : (((List.range maxSlots).filterMap s.slots).map (·.name)).Nodup := by
      rw [map_filterMap, nodup_iff_pairwise_ne, pairwise_filterMap]
      refine nodup_range.pairwise_of_forall_ne fun i hi j hj hij a ha b hb => ?_
      obtain ⟨x, hx, rfl⟩ := map_eq_some_iff.mp ha
      obtain ⟨y, hy, rfl⟩ := map_eq_some_iff.mp hb
      exact fun heq =>
        hij (h.unique i (mem_range.mp hi) j (mem_range.mp hj) x hx y hy heq)
    exact hall.sublist (filter_sublist.map _)
  · intro slot hslot
    obtain ⟨hmem, hnamed⟩ := mem_filter.mp hslot
    obtain ⟨i, -, hi⟩ := mem_filterMap.mp hmem
    exact ⟨by simpa using hnamed, h.best i slot hi⟩

theorem core_confirm {i : Nat} {slot : Slot}
    (hunique : ∀ j < maxSlots, ∀ other ∈ s.slots j, other.name = slot.name → j = i) :
    Core maxSlots ({ s with slots := update s.slots i (some slot) }.confirm slot) := by
  have hbest : ∀ n, s.best n ≤
      update s.best slot.name (max (s.best slot.name) slot.flushPos) n := by
    intro n
    rcases update_cases (f := s.best) (a := slot.name)
      (b := max (s.best slot.name) slot.flushPos) rfl n with ⟨rfl, heq⟩ | ⟨-, heq⟩
    · rw [heq]
      exact Nat.le_max_left _ _
    · exact Nat.le_of_eq heq.symm
  refine ⟨fun j hj k hk a ha b hb hname => ?_, fun j a ha => ?_,
    h.cache.mono fun n hn => Nat.le_trans hn (hbest n), h.overwritten⟩
  · change a ∈ update s.slots i (some slot) j at ha
    change b ∈ update s.slots i (some slot) k at hb
    -- of two slots with one name, at most one is the slot that is written
    rcases update_cases (f := s.slots) (a := i) (b := some slot) rfl j with ⟨hji, hj'⟩ | ⟨-, hj'⟩ <;>
      rcases update_cases (f := s.slots) (a := i) (b := some slot) rfl k with ⟨hki, hk'⟩ | ⟨-, hk'⟩
    · exact hji.trans hki.symm
    · rw [hj'] at ha
      rw [hk'] at hb
      cases ha
      exact hji.trans (hunique k hk b hb hname.symm).symm
    · rw [hj'] at ha
      cases hk'.symm.trans hb
      exact (hunique j hj a ha hname).trans hki.symm
    · rw [hj'] at ha
      rw [hk'] at hb
      exact h.unique j hj k hk a ha b hb hname
  · change a ∈ update s.slots i (some slot) j at ha
    show a.flushPos ≤ update s.best slot.name _ a.name
    rcases update_cases (f := s.slots) (a := i) (b := some slot) rfl j with ⟨rfl, hj'⟩ | ⟨-, hj'⟩
    · cases hj'.symm.trans ha
      rw [update_self]
      exact Nat.le_max_right _ _
    · rw [hj'] at ha
      exact Nat.le_trans (h.best j a ha) (hbest a.name)

theorem core_drop (i : Nat) :
    Core maxSlots { s with slots := update s.slots i none } := by
  have hmem : ∀ j, ∀ a ∈ update s.slots i none j, a ∈ s.slots j := by
    intro j a ha
    rcases update_cases (f := s.slots) (a := i) (b := none) rfl j with ⟨rfl, hj⟩ | ⟨-, hj⟩
    · cases hj.symm.trans ha
    · rw [hj] at ha
      exact ha
  exact { h with
    unique := fun j hj k hk a ha b hb => h.unique j hj k hk a (hmem j a ha) b (hmem k b hb),
    best := fun j a ha => h.best j a (hmem j a ha) }

/-! ## Messages -/

theorem core_recheck : Core maxSlots s.recheck := by
  unfold State.recheck
  split
  · refine { h with overwritten := ?_ }
    show (if s.named then 0 else s.minConfirmed) = s.setting ∨
      (if s.named then 0 else s.minConfirmed) = 0 ∧ s.named = true
    split
    · next hnamed => exact .inr ⟨rfl, hnamed⟩
    · exact h.overwritten
  · exact h

end

theorem sent_recheck (s : State) : s.recheck.sent = s.sent := by
  unfold State.recheck
  split <;> rfl

/-- **At once.** A message passes without a scan if nothing has to be confirmed, or the position
that is kept covers it. -/
theorem offer_spec (h : Core maxSlots s) (commitLsn : Nat) : Inv maxSlots (s.offer commitLsn) ∧
    ∀ lsn, (s.offer commitLsn).sent = lsn :: s.sent → Justified (s.offer commitLsn) lsn := by
  have hcore := core_recheck h
  unfold State.offer
  split
  · next hskips =>
    refine ⟨⟨{ hcore with }, absurd rfl⟩,
      fun lsn hsent => ?_⟩
    change commitLsn :: s.recheck.sent = lsn :: s.sent at hsent
    obtain rfl : commitLsn = lsn := head_eq_of_cons_eq hsent
    unfold State.skips at hskips
    simp only [Bool.or_eq_true, decide_eq_true_eq, beq_iff_eq, length_eq_zero_iff] at hskips
    -- a variable that is 0 was set so, or is so because the own slot is named
    rcases hskips with (hcache | hzero) | hempty
    · exact .inr (.inr (.inr (hcore.cache.mono fun n hn => Nat.le_trans hcache hn)))
    · rcases hcore.overwritten with hset | ⟨-, hnamed⟩
      · exact .inr (.inl (hset.symm.trans hzero))
      · exact .inr (.inr (.inl hnamed))
    · exact .inl hempty
  · next hskips =>
    refine ⟨⟨{ hcore with }, fun _ hzero => ?_⟩,
      fun lsn hsent => ?_⟩
    · change s.recheck.minConfirmed = 0 at hzero
      simp [State.skips, hzero] at hskips
    · change s.recheck.sent = lsn :: s.sent at hsent
      rw [sent_recheck] at hsent
      exact absurd hsent.symm (cons_ne_self lsn s.sent)

/-- **After a scan.** As many slots as are waited for have reached the LSN, and all of them the
least position. -/
theorem poll_spec (h : Inv maxSlots s) {commitLsn : Nat} {readings : List Nat}
    (hwaiting : s.waiting = some commitLsn) (hpos : ∀ r ∈ readings, r ≠ 0)
    (hreadings : List.Forall₂ (· ≤ ·) readings ((s.namedSlots maxSlots).map (·.flushPos))) :
    Inv maxSlots (s.poll commitLsn readings) ∧ ∀ lsn,
      (s.poll commitLsn readings).sent = lsn :: s.sent → Justified (s.poll commitLsn readings) lsn := by
  unfold State.poll
  dsimp only
  split
  · next hdone =>
    -- while a message is held back the variable is what has been set
    have hset : s.minConfirmed = s.setting := by
      rcases h.overwritten with hset | ⟨hzero, -⟩
      · exact hset
      · exact absurd hzero (h.held (by rw [hwaiting]; nofun))
    have hcount := count_of_scan hdone
    rw [hset] at hcount
    obtain ⟨hnodup, hslots⟩ := h.namedSlots
    -- a slot can only have moved on since it was read
    have hconfirmed : ∀ {lsn}, waitSlots s.setting s.names.length ≤ readings.countP (lsn ≤ ·) →
        Confirmed s.names s.setting s.best lsn :=
      confirmed_of_slots hnodup (fun slot hslot => (hslots slot hslot).1)
        (fun slot hslot => (hslots slot hslot).2) hreadings
    have hleast : ∀ r ∈ readings,
        (scan commitLsn (waitSlots s.minConfirmed s.names.length) readings).2 ≤ r :=
      (scan_le hpos _).1
    refine ⟨⟨{ h with cache := ?_ }, absurd rfl⟩, fun lsn hsent => ?_⟩
    · show Confirmed s.names s.setting s.best (max s.oldest _)
      rcases Nat.le_total (scan commitLsn (waitSlots s.minConfirmed s.names.length) readings).2
        s.oldest with hle | hle
      · rw [Nat.max_eq_left hle]
        exact h.cache
      · rw [Nat.max_eq_right hle]
        -- the slots that were counted have reached the least of the readings as well
        refine hconfirmed (Nat.le_trans hcount ?_)
        exact countP_mono_left fun r hr _ => decide_eq_true (hleast r hr)
    · change commitLsn :: s.sent = lsn :: s.sent at hsent
      obtain rfl : commitLsn = lsn := head_eq_of_cons_eq hsent
      exact .inr (.inr (.inr (hconfirmed hcount)))
  · exact ⟨h, fun lsn hsent => absurd hsent.symm (cons_ne_self lsn s.sent)⟩

/-! ## Reloads -/

/-- No named slot is read without a position; a reload that changes the number also assigns the
names; one that takes the own slot out of them also assigns the number. -/
def Careful (s : State) : Event → Prop
  | .poll readings => ∀ r ∈ readings, r ≠ 0
  | .reload names minConfirmed => (∀ m ∈ minConfirmed, names = none → m = s.setting) ∧
    (s.named = true → minConfirmed = none → ∀ a ∈ names, s.mySlot.any (· ∈ a.1) = true)
  | .createSlot _ _ | .dropSlot _ | .advance _ _ _ | .putMessage _ => True

instance (s : State) (e : Event) : Decidable (Careful s e) := by
  cases e <;> unfold Careful <;> infer_instance

theorem core_assign (h : Core maxSlots s) {names : Option (List Nat × Nat)}
    {minConfirmed : Option Int} (hcareful : Careful s (.reload names minConfirmed)) :
    Core maxSlots (s.assign names minConfirmed) := by
  obtain ⟨hnumber, hnamed⟩ := hcareful
  refine ⟨h.unique, h.best, ?_, ?_⟩
  · cases names with
    -- the assign hook of the names forgets the position
    | some a => exact confirmed_zero _ _ _
    | none =>
      cases minConfirmed with
      | none => exact h.cache
      | some m =>
        show Confirmed s.names m s.best s.oldest
        rw [hnumber m rfl rfl]
        exact h.cache
  · cases minConfirmed with
    | some => exact .inl rfl
    | none =>
      rcases h.overwritten with hset | ⟨hzero, hmine⟩
      · exact .inl hset
      · refine .inr ⟨hzero, ?_⟩
        cases names with
        | none => exact hmine
        | some a => exact hnamed hmine rfl a rfl

/-! ## The runs -/

/-- **One step**, and the message that passes with it. -/
theorem inv_step {e : Event} (h : Inv maxSlots s) (hcareful : Careful s e)
    (hstep : step maxSlots s e = some s') :
    Inv maxSlots s' ∧ ∀ lsn, s'.sent = lsn :: s.sent → Justified s' lsn := by
  -- most steps send nothing
  have hsilent : ∀ {t : State}, t.sent = s.sent → ∀ lsn, t.sent = lsn :: s.sent → Justified t lsn :=
    fun heq lsn hsent => absurd (hsent.symm.trans heq) (cons_ne_self lsn s.sent)
  cases e with
  | createSlot =>
    obtain ⟨⟨-, -, hfresh⟩, rfl⟩ := of_guard hstep
    refine ⟨⟨core_confirm h.toCore fun j hj other hother heq => ?_, h.held⟩, hsilent rfl⟩
    exact absurd heq (hfresh j hj other hother)
  | dropSlot i =>
    cases hstep
    exact ⟨⟨core_drop h.toCore i, h.held⟩, hsilent rfl⟩
  | advance i =>
    obtain ⟨slot, hslot, hstep⟩ := bind_eq_some_iff.mp hstep
    obtain ⟨⟨hi, -⟩, rfl⟩ := of_guard hstep
    refine ⟨⟨core_confirm h.toCore fun j hj other hother heq => ?_, h.held⟩, hsilent rfl⟩
    exact h.unique j hj i hi other hother slot hslot heq
  | putMessage commitLsn =>
    obtain ⟨-, rfl⟩ := of_guard hstep
    exact offer_spec h.toCore commitLsn
  | poll =>
    obtain ⟨_, hwaiting, hstep⟩ := bind_eq_some_iff.mp hstep
    obtain ⟨hreadings, rfl⟩ := of_guard hstep
    exact poll_spec h hwaiting hcareful hreadings
  | reload =>
    obtain ⟨-, rfl⟩ := of_guard hstep
    -- a message that is held back is offered again with the new settings
    have hcore := core_assign h.toCore hcareful
    cases hwaiting : s.waiting with
    | none => exact ⟨⟨hcore, absurd hwaiting⟩, hsilent rfl⟩
    | some commitLsn => exact offer_spec hcore commitLsn

/-- **Messages pass rightly.** In every run all of whose steps are `Careful`, a step with which a
message passes leaves a state in which, with the settings of that state, nothing has to be confirmed
or enough of the named slots have confirmed its start LSN. -/
theorem passes_justified {mySlot : Option Nat} {es : List Event} {e : Event} {lsn : Nat}
    (hcareful : Along (step maxSlots) Careful (.start mySlot) (es ++ [e]))
    (hes : run (step maxSlots) (.start mySlot) es = some s) (hstep : step maxSlots s e = some s')
    (hsent : s'.sent = lsn :: s.sent) : Justified s' lsn := by
  have hinv : Inv maxSlots s :=
    run_invariant_along (fun _ _ _ h hc hs => (inv_step h hc hs).1) (inv_start mySlot)
      hcareful.of_append hes
  exact (inv_step hinv (hcareful.after hes).1 hstep).2 lsn hsent

/-- Two of three named slots have to confirm; the third is missing. The first message waits for the
logical slot. -/
def carefulRun : List Event :=
  [.reload (some ([1, 2, 3], 7)) (some 2), .createSlot 0 ⟨1, false, 60, 0⟩,
    .createSlot 1 ⟨2, true, 10, 40⟩, .putMessage 50, .poll [60, 40], .advance 1 20 70, .poll [60, 70]]

theorem passes_justified_carefulRun :
    ∃ s s', run (step 3) (.start (some 9)) carefulRun = some s ∧
      step 3 s (.putMessage 55) = some s' ∧ s.sent = [50] ∧ s'.sent = [55, 50] ∧ Justified s' 55 := by
  have hcareful : Along (step 3) Careful (.start (some 9)) (carefulRun ++ [.putMessage 55]) := by
    decide +kernel
  exact ⟨_, _, rfl, rfl, rfl, rfl, passes_justified hcareful rfl rfl rfl⟩

end Invariant

/-! ## What goes wrong otherwise -/

/-- The messages that have passed in a run, and whether the last one may, by the settings in
force. -/
def outcome (es : List Event) : Option (List Nat × Bool) :=
  (run (step 3) (.start (some 9)) es).map fun s => (s.sent, decide (Justified s (s.sent.headD 0)))

/-- **Messages that pass too early.** A slot without a position makes the scan forget the least
position before it, so that the greater one after it is kept. The number that has to confirm is
raised, and the position that was kept for the lower number still counts. The own slot is named, the
variable is set to 0, and stays so when the name is taken out. -/
theorem passes_not_justified :
    outcome [.reload (some ([1, 2, 3], 7)) (some 2), .createSlot 0 ⟨1, false, 60, 0⟩,
        .createSlot 1 ⟨2, false, 0, 0⟩, .createSlot 2 ⟨3, false, 100, 0⟩, .putMessage 50,
        .poll [60, 0, 100], .putMessage 90] = some ([90, 50], false) ∧
      outcome [.reload (some ([1, 2], 7)) (some 1), .createSlot 0 ⟨1, false, 100, 0⟩, .putMessage 50,
        .poll [100], .reload none (some 2), .putMessage 90] = some ([90, 50], false) ∧
      outcome [.reload (some ([9, 1], 7)) none, .putMessage 50, .reload (some ([1], 8)) none,
        .putMessage 60] = some ([60, 50], false) := by
  decide +kernel

end Spock.Failover
