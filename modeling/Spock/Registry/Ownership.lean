import Spock.Lib.Runs
import Spock.Registry.Slots

/-!
# Spock — who owns a worker slot

A slot belongs to the registration that was given it last. The three fields that the processes go by
(the type, the process, the time of termination) have to agree with that for as long as the worker
is starting or running; the counter is what tells the process that waits.

* **`inv_act`**, **`inv_register`**, **`inv_clean`** — the steps on a slot of one's own, and the
  others;
* **`slots_exclusive`** — then a slot in use is not given out, a process attaches to its own
  registration, and only that is marked as terminated.
-/

namespace Spock.Registry

open Runs Option Function

/-- The slot shows the registration `r`. -/
structure Slot.Shows (slot : Slot) (r : Nat) (reg : Registration) : Prop where
  workerType : slot.workerType = reg.worker.workerType
  used : reg.worker.workerType ≠ .none
  running : slot.terminatedAt = 0
  dboid : slot.dboid = reg.worker.dboid
  subid : slot.subid = reg.worker.subid
  proc : slot.proc = if reg.process = .attached then some r else none

/-- The slot of `r` is its own, and shows it. -/
structure State.Held (s : State) (r : Nat) : Prop where
  owner : s.owner (s.regs r).slot = some r
  shows : (s.slotOf r).Shows r (s.regs r)

def Registration.Knows (reg : Registration) (owned : Prop) : Prop :=
  match reg.registrant with
  | .registered => reg.process = .unlaunched
  | .launched => True
  | .waiting => reg.generation = reg.number % (uint16Max + 1)
  | .stopped | .typed => reg.generation = reg.number % (uint16Max + 1) ∧ reg.process = .stopped
  | .same | .premature => owned ∧ reg.process = .stopped
  | .over => True

/-- Every registration whose worker has not stopped holds its slot. -/
structure Inv (s : State) : Prop where
  generation : ∀ i, (s.slots i).generation = s.registered i % (uint16Max + 1)
  absent : ∀ r, s.next ≤ r → s.regs r = .absent
  number_le : ∀ r < s.next, (s.regs r).number ≤ s.registered (s.regs r).slot
  latest : ∀ r < s.next, (s.regs r).number = s.registered (s.regs r).slot →
    s.owner (s.regs r).slot = some r
  owner : ∀ i r, s.owner i = some r →
    r < s.next ∧ (s.regs r).slot = i ∧ (s.regs r).number = s.registered i
  held : ∀ r, (s.regs r).process ≠ .stopped → s.Held r
  proc : ∀ i r, (s.slots i).proc = some r → (s.regs r).process = .attached ∧ (s.regs r).slot = i
  knows : ∀ r, (s.regs r).Knows (s.owner (s.regs r).slot = some r)

theorem inv_start : Inv .start where
  generation _ := rfl
  absent _ _ := rfl
  number_le _ hr := absurd hr (Nat.not_lt_zero _)
  latest _ hr := absurd hr (Nat.not_lt_zero _)
  owner _ _ h := nomatch h
  held _ h := absurd rfl h
  proc _ _ h := nomatch h
  knows _ := trivial

namespace Inv

variable {s : State} (h : Inv s) {r : Nat}

include h

theorem lt_next_of_registrant (hr : (s.regs r).registrant ≠ .over) : r < s.next := by
  by_contra hge
  exact hr (by rw [h.absent r (Nat.le_of_not_lt hge)]; rfl)

theorem lt_next_of_process (hr : (s.regs r).process ≠ .stopped) : r < s.next :=
  (h.owner _ _ (h.held r hr).owner).1

theorem knows_at {a : Registrant} (hphase : (s.regs r).registrant = a) :
    { s.regs r with registrant := a }.Knows (s.owner (s.regs r).slot = some r) := by
  subst hphase
  exact h.knows r

/-- **A slot that is held is not empty.** -/
theorem isEmpty_eq_false (hr : (s.regs r).process ≠ .stopped) (dboid : Nat) :
    (s.slotOf r).isEmpty dboid = false := by
  have hshows := (h.held r hr).shows
  simp [Slot.isEmpty, hshows.workerType, hshows.used, hshows.running]

end Inv

/-! ## Steps on a slot of one's own -/

section Steps

variable {s : State} {r : Nat}

theorem setReg_eq_act (s : State) (r : Nat) (reg : Registration) :
    s.setReg r reg = s.act r (s.slotOf r) reg := by
  show { s with regs := _ } = _
  rw [State.act, State.setSlot, State.slotOf, update_eq_self]
  rfl

theorem setSlot_eq_act (s : State) (r : Nat) (slot : Slot) :
    s.setSlot (s.regs r).slot slot = s.act r slot (s.regs r) := by
  rw [State.act, State.setReg]
  show s.setSlot (s.regs r).slot slot =
    { s.setSlot (s.regs r).slot slot with regs := update s.regs r (s.regs r) }
  rw [update_eq_self]
  rfl

variable {slot : Slot} {reg : Registration} {p : Process} {a : Registrant}
  {i totalWorkers delay : Nat} {worker : Worker}

/-- **The frame of a step on a slot.** A registration changes its own record, and the slot if that
is its own: the others, which hold other slots, are not touched. -/
theorem inv_act (h : Inv s) (hr : r < s.next) (hslot : reg.slot = (s.regs r).slot)
    (hnumber : reg.number = (s.regs r).number)
    (hgeneration : slot.generation = (s.slotOf r).generation)
    (hown : s.owner (s.regs r).slot = some r ∨ slot = s.slotOf r)
    (hheld : reg.process ≠ .stopped → s.owner (s.regs r).slot = some r ∧ slot.Shows r reg)
    (hproc : ∀ q, slot.proc = some q →
      q = r ∧ reg.process = .attached ∨ q ≠ r ∧ (s.slotOf r).proc = some q)
    (hknows : reg.Knows (s.owner (s.regs r).slot = some r)) : Inv (s.act r slot reg) := by
  have hreg := s.act_regs r slot reg
  have hslots := s.act_slots r slot reg
  -- where a registration sits, and which one it is, stays
  have hplace : ∀ q, ((s.act r slot reg).regs q).slot = (s.regs q).slot ∧
      ((s.act r slot reg).regs q).number = (s.regs q).number := by
    intro q
    rcases update_cases hreg q with ⟨rfl, heq⟩ | ⟨-, heq⟩
    · rw [heq]
      exact ⟨hslot, hnumber⟩
    · rw [heq]
      exact ⟨rfl, rfl⟩
  refine ⟨fun i => ?_, fun q hq => ?_, fun q hq => ?_, fun q hq heq => ?_, fun i q hq => ?_,
    fun q hq => ?_, fun i q hq => ?_, fun q => ?_⟩
  -- the generation, and what is known of the registrations by their number
  · rcases update_cases hslots i with ⟨rfl, heq⟩ | ⟨-, heq⟩
    · rw [heq, hgeneration]
      exact h.generation _
    · rw [heq]
      exact h.generation i
  · rcases update_cases hreg q with ⟨rfl, -⟩ | ⟨-, heq⟩
    · exact absurd hr (Nat.not_lt_of_le hq)
    · rw [heq]
      exact h.absent q hq
  · rw [(hplace q).1, (hplace q).2]
    exact h.number_le q hq
  · rw [(hplace q).1, (hplace q).2] at heq
    rw [(hplace q).1]
    exact h.latest q hq heq
  · rw [(hplace q).1, (hplace q).2]
    exact h.owner i q hq
  · rcases update_cases hreg q with ⟨rfl, heq⟩ | ⟨hne, heq⟩
    · rw [heq] at hq
      obtain ⟨howner, hshows⟩ := hheld hq
      refine ⟨?_, ?_⟩
      · rw [(hplace q).1]
        exact howner
      · rw [State.slotOf, (hplace q).1, hslots, update_self, heq]
        exact hshows
    · rw [heq] at hq
      obtain ⟨howner, hshows⟩ := h.held q hq
      refine ⟨?_, ?_⟩
      · rw [heq]
        exact howner
      · rw [State.slotOf, heq, hslots]
        -- another registration can hold this slot only if the slot is left as it is
        by_cases hsame : (s.regs q).slot = (s.regs r).slot
        · rw [hsame, update_self]
          rcases hown with hmine | hkept
          · rw [hsame, hmine] at howner
            exact absurd (some.inj howner).symm hne
          · rw [hkept, State.slotOf, ← hsame]
            exact hshows
        · rw [update_of_ne hsame]
          exact hshows
  · rcases update_cases hslots i with ⟨rfl, heq⟩ | ⟨hne, heq⟩
    · rw [heq] at hq
      rcases hproc q hq with ⟨rfl, hattached⟩ | ⟨hqr, hold⟩
      · rw [hreg, update_self]
        exact ⟨hattached, hslot⟩
      · rw [hreg, update_of_ne hqr]
        exact h.proc _ q hold
    · rw [heq] at hq
      obtain ⟨hattached, hi⟩ := h.proc i q hq
      have hqr : q ≠ r := by
        rintro rfl
        exact hne hi.symm
      rw [hreg, update_of_ne hqr]
      exact ⟨hattached, hi⟩
  · show ((s.act r slot reg).regs q).Knows (s.owner ((s.act r slot reg).regs q).slot = some q)
    rw [(hplace q).1]
    rcases update_cases hreg q with ⟨rfl, heq⟩ | ⟨-, heq⟩
    · rw [heq]
      exact hknows
    · rw [heq]
      exact h.knows q

/-- What a step that does not touch the slot may make of a process: it either goes on as it was, or
had not attached. -/
def Process.Moves (p p' : Process) : Prop :=
  p' = p ∨ p ≠ .attached ∧ (p' = .stopped ∨ p' = .pending ∧ p ≠ .stopped)

theorem Process.Moves.launch (h : p = .unlaunched) : p.Moves .pending := by
  subst h
  exact .inr ⟨nofun, .inr ⟨rfl, nofun⟩⟩

theorem Process.Moves.stopEarly (h : p = .pending) : p.Moves .stopped := by
  subst h
  exact .inr ⟨nofun, .inl rfl⟩

theorem Process.Moves.leave (p : Process) : p.Moves (if p = .unlaunched then .stopped else p) := by
  by_cases h : p = .unlaunched
  · rw [if_pos h, h]
    exact .inr ⟨nofun, .inl rfl⟩
  · rw [if_neg h]
    exact .inl rfl

theorem inv_setReg (h : Inv s) (hr : r < s.next) {g : Nat} (hprocess : (s.regs r).process.Moves p)
    (hknows : { s.regs r with registrant := a, generation := g, process := p }.Knows
      (s.owner (s.regs r).slot = some r)) :
    Inv (s.setReg r { s.regs r with registrant := a, generation := g, process := p }) := by
  rw [setReg_eq_act]
  refine inv_act h hr rfl rfl rfl (.inr rfl) (fun hp => ?_) (fun q hq => ?_) hknows
  · rcases hprocess with rfl | ⟨hnot, rfl | ⟨rfl, hactive⟩⟩
    · obtain ⟨howner, hshows⟩ := h.held r hp
      exact ⟨howner, { hshows with }⟩
    · exact absurd rfl hp
    · obtain ⟨howner, hshows⟩ := h.held r hactive
      have hproc := hshows.proc
      rw [if_neg hnot] at hproc
      exact ⟨howner, { hshows with proc := hproc }⟩
  · by_cases hqr : q = r
    · subst hqr
      have hattached := (h.proc _ q hq).1
      rcases hprocess with rfl | ⟨hnot, -⟩
      · exact .inl ⟨rfl, hattached⟩
      · exact absurd hattached hnot
    · exact .inr ⟨hqr, hq⟩

theorem inv_check (h : Inv s) (hphase : (s.regs r).registrant ≠ .over) (c : Prop) [Decidable c]
    (hknows : c → { s.regs r with registrant := a }.Knows
      (s.owner (s.regs r).slot = some r)) :
    Inv (s.setReg r { s.regs r with registrant := if c then a else .over }) := by
  refine inv_setReg h (h.lt_next_of_registrant hphase) (.inl rfl) ?_
  by_cases hc : c
  · rw [if_pos hc]
    exact hknows hc
  · rw [if_neg hc]
    exact trivial

theorem knows_of_active {owned : Prop} (hknows : reg.Knows owned)
    (hlaunched : reg.process ≠ .unlaunched) (hactive : reg.process ≠ .stopped) (p : Process) :
    { reg with process := p }.Knows owned := by
  unfold Registration.Knows at hknows ⊢
  cases hphase : reg.registrant with
  | registered =>
    rw [hphase] at hknows
    exact absurd hknows hlaunched
  | waiting =>
    rw [hphase] at hknows
    exact hknows
  | stopped | typed | same | premature =>
    rw [hphase] at hknows
    exact absurd hknows.2 hactive
  | _ => exact trivial

theorem inv_terminated (h : Inv s) (howner : s.owner (s.regs r).slot = some r)
    (hnot : (s.regs r).process ≠ .attached) (now : Nat) :
    Inv (s.act r { s.slotOf r with terminatedAt := now }
      { s.regs r with registrant := .over, process := .stopped }) := by
  refine inv_act h (h.owner _ _ howner).1 rfl rfl rfl (.inl howner) (absurd rfl) (fun q hq => ?_)
    trivial
  by_cases hqr : q = r
  · subst hqr
    exact absurd (h.proc _ q hq).1 hnot
  · exact .inr ⟨hqr, hq⟩

theorem inv_attach (h : Inv s) (hpending : (s.regs r).process = .pending) :
    Inv (s.act r { s.slotOf r with proc := some r } { s.regs r with process := .attached }) := by
  have hactive : (s.regs r).process ≠ .stopped := by rw [hpending]; nofun
  obtain ⟨howner, hshows⟩ := h.held r hactive
  refine inv_act h (h.lt_next_of_process hactive) rfl rfl rfl (.inl howner) (fun _ => ?_)
    (fun q hq => .inl ⟨(some.inj hq).symm, rfl⟩) ?_
  · exact ⟨howner, { hshows with proc := rfl }⟩
  · exact knows_of_active (h.knows r) (by rw [hpending]; nofun) hactive .attached

theorem inv_detach (h : Inv s) (hattached : (s.regs r).process = .attached) (crash : Bool) (now : Nat) :
    Inv (s.act r ((s.slotOf r).detach crash now) { s.regs r with process := .stopped }) := by
  have hactive : (s.regs r).process ≠ .stopped := by rw [hattached]; nofun
  have hproc : ((s.slotOf r).detach crash now).proc = none := by cases crash <;> rfl
  refine inv_act h (h.lt_next_of_process hactive) rfl rfl (by cases crash <;> rfl)
    (.inl (h.held r hactive).owner) (absurd rfl) (fun q hq => ?_) ?_
  · cases hproc.symm.trans hq
  · exact knows_of_active (h.knows r) (by rw [hattached]; nofun) hactive .stopped

theorem inv_setRestartDelay (h : Inv s) (hattached : (s.regs r).process = .attached) (delay : Nat) :
    Inv (s.setSlot (s.regs r).slot { s.slotOf r with restartDelay := delay }) := by
  have hactive : (s.regs r).process ≠ .stopped := by rw [hattached]; nofun
  obtain ⟨howner, hshows⟩ := h.held r hactive
  have hproc := hshows.proc
  rw [if_pos hattached] at hproc
  rw [setSlot_eq_act]
  refine inv_act h (h.lt_next_of_process hactive) rfl rfl rfl (.inl howner) (fun _ => ?_)
    (fun q hq => .inl ⟨some.inj (hq.symm.trans hproc), hattached⟩) (h.knows r)
  exact ⟨howner, { hshows with }⟩

/-! ## Steps on the slots of others -/

theorem inv_clean (h : Inv s) (hterminated : (s.slots i).terminatedAt ≠ 0) :
    Inv (s.setSlot i { s.slots i with workerType := .none, terminatedAt := 0 }) := by
  have hslots := s.setSlot_slots i { s.slots i with workerType := .none, terminatedAt := 0 }
  refine { h with generation := fun j => ?_, held := fun q hq => ?_, proc := fun j q hq => ?_ }
  · rcases update_cases hslots j with ⟨rfl, heq⟩ | ⟨-, heq⟩
    all_goals
      rw [heq]
      exact h.generation j
  · obtain ⟨howner, hshows⟩ := h.held q hq
    have hne : (s.regs q).slot ≠ i := by
      rintro rfl
      exact hterminated hshows.running
    refine ⟨howner, ?_⟩
    show (update s.slots i _ (s.regs q).slot).Shows q (s.regs q)
    rw [update_of_ne hne]
    exact hshows
  · rcases update_cases hslots j with ⟨rfl, heq⟩ | ⟨-, heq⟩
    all_goals
      rw [heq] at hq
      exact h.proc j q hq

theorem nextGeneration_eq {n : Nat} (hslot : slot.generation = n % (uint16Max + 1)) :
    slot.nextGeneration = (n + 1) % (uint16Max + 1) := by
  have hmax : uint16Max = 65535 := rfl
  unfold Slot.nextGeneration
  rw [hmax] at hslot ⊢
  by_cases hlast : slot.generation = 65535
  · rw [if_pos hlast]
    omega
  · rw [if_neg hlast]
    omega

theorem step_register {s' : State} (h : step totalWorkers s (.register worker delay) = some s') :
    worker.workerType ≠ .none ∧ ∃ i, findEmptyWorkerSlot totalWorkers s.slots worker.dboid = some i ∧
      s' = s.register worker delay i := by
  obtain ⟨hused, h⟩ := ite_none_right_eq_some.mp h
  obtain ⟨i, hi, rfl⟩ := map_eq_some_iff.mp h
  exact ⟨hused, i, hi, rfl⟩

theorem isEmpty_of_find {slots : Nat → Slot} {dboid : Nat}
    (h : findEmptyWorkerSlot totalWorkers slots dboid = some i) : (slots i).isEmpty dboid = true :=
  List.find?_some (p := fun i => (slots i).isEmpty dboid) h

/-- **A new registration.** It takes a slot that nobody holds and whose last owner is not in the
middle of the check. -/
theorem inv_register (h : Inv s) (hused : worker.workerType ≠ .none)
    (hempty : (s.slots i).isEmpty worker.dboid = true) (hcheck : ∀ q < s.next, (s.regs q).slot = i →
      (s.regs q).registrant ≠ .same ∧ (s.regs q).registrant ≠ .premature) :
    Inv (s.register worker delay i) := by
  have hregs := s.register_regs worker delay i
  have hslots := s.register_slots worker delay i
  have howner : (s.register worker delay i).owner = update s.owner i (some s.next) := rfl
  have hcount : (s.register worker delay i).registered =
      update s.registered i (s.registered i + 1) := rfl
  -- nobody who is starting or running holds the slot
  have hfree : ∀ q, (s.regs q).process ≠ .stopped → (s.regs q).slot ≠ i := by
    rintro q hq rfl
    have hfull := h.isEmpty_eq_false hq worker.dboid
    rw [State.slotOf, hempty] at hfull
    cases hfull
  refine ⟨fun j => ?_, fun q hq => ?_, fun q hq => ?_, fun q hq hlast => ?_, fun j q hq => ?_,
    fun q hq => ?_, fun j q hq => ?_, fun q => ?_⟩
  · rcases update_cases hslots j with ⟨rfl, heq⟩ | ⟨hne, heq⟩
    · rw [heq, hcount, update_self]
      exact nextGeneration_eq (h.generation j)
    · rw [heq, hcount, update_of_ne hne]
      exact h.generation j
  · have hlt : s.next < q := hq
    rw [hregs, update_of_ne (Nat.ne_of_gt hlt)]
    exact h.absent q (Nat.le_of_lt hlt)
  · rcases update_cases hregs q with ⟨rfl, heq⟩ | ⟨hne, heq⟩
    · exact Nat.le_of_eq (by rw [heq, hcount, update_self])
    · have hlt : q < s.next := Nat.lt_of_le_of_ne (Nat.le_of_lt_succ hq) hne
      rw [heq]
      rcases update_cases hcount (s.regs q).slot with ⟨hi, heq'⟩ | ⟨-, heq'⟩
      · rw [heq', ← hi]
        exact Nat.le_succ_of_le (h.number_le q hlt)
      · rw [heq']
        exact h.number_le q hlt
  · rcases update_cases hregs q with ⟨rfl, heq⟩ | ⟨hne, heq⟩
    · rw [heq, howner, update_self]
    · have hlt : q < s.next := Nat.lt_of_le_of_ne (Nat.le_of_lt_succ hq) hne
      rw [heq] at hlast ⊢
      rcases update_cases hcount (s.regs q).slot with ⟨hi, heq'⟩ | ⟨hi, heq'⟩
      -- the number of an earlier registration of the slot is below the new one
      · have hle := h.number_le q hlt
        rw [heq', ← hi] at hlast
        omega
      · rw [heq'] at hlast
        rw [howner, update_of_ne hi]
        exact h.latest q hlt hlast
  · rcases update_cases howner j with ⟨rfl, heq⟩ | ⟨hne, heq⟩
    · cases heq.symm.trans hq
      rw [hregs, update_self, hcount, update_self]
      exact ⟨Nat.lt_succ_self _, rfl, rfl⟩
    · rw [heq] at hq
      obtain ⟨hlt, hj, hnumber⟩ := h.owner j q hq
      rw [hregs, update_of_ne (Nat.ne_of_lt hlt), hcount, update_of_ne hne]
      exact ⟨Nat.lt_succ_of_lt hlt, hj, hnumber⟩
  · rcases update_cases hregs q with ⟨rfl, heq⟩ | ⟨-, heq⟩
    · refine ⟨by rw [heq, howner, update_self], ?_⟩
      rw [State.slotOf, heq, hslots, update_self]
      exact ⟨rfl, hused, rfl, rfl, rfl, rfl⟩
    · rw [heq] at hq
      obtain ⟨hmine, hshows⟩ := h.held q hq
      refine ⟨by rw [heq, howner, update_of_ne (hfree q hq)]; exact hmine, ?_⟩
      rw [State.slotOf, heq, hslots, update_of_ne (hfree q hq)]
      exact hshows
  · rcases update_cases hslots j with ⟨rfl, heq⟩ | ⟨-, heq⟩
    · rw [heq] at hq
      cases hq
    · rw [heq] at hq
      obtain ⟨hattached, hj⟩ := h.proc j q hq
      have hlt := h.lt_next_of_process (by rw [hattached]; nofun)
      rw [hregs, update_of_ne (Nat.ne_of_lt hlt)]
      exact ⟨hattached, hj⟩
  · rcases update_cases hregs q with ⟨rfl, heq⟩ | ⟨-, heq⟩
    · rw [heq]
      exact rfl
    · have hknows := h.knows q
      rw [heq, howner]
      rcases update_cases howner (s.regs q).slot with ⟨hi, -⟩ | ⟨hi, -⟩
      · -- the slot has gone to another, so the last owner is not in the check
        by_cases hlt : q < s.next
        · obtain ⟨_, _⟩ := hcheck q hlt hi
          unfold Registration.Knows at hknows ⊢
          cases hphase : (s.regs q).registrant <;> simp_all
        · rw [h.absent q (Nat.le_of_not_lt hlt)]
          exact trivial
      · rw [update_of_ne hi]
        exact hknows

end Steps

/-! ## What a step can do -/

/-- What a step does to a registration and to its slot, whether the slot is its own or not. A worker
neither comes back nor leaves the slot that it is attached to as if it were running. -/
structure Acts (s : State) (r : Nat) (slot : Slot) (reg : Registration) : Prop where
  place : reg.slot = (s.regs r).slot
  worker : reg.worker = (s.regs r).worker
  subid : slot.subid = (s.slotOf r).subid
  process : reg.process ≠ .stopped → (s.regs r).process ≠ .stopped ∧
    ((s.regs r).process = .attached → reg.process = .attached)
  shows : slot.workerType ≠ .none → slot.workerType = (s.slotOf r).workerType ∧
    slot.dboid = (s.slotOf r).dboid ∧ ((s.slotOf r).terminatedAt ≠ 0 → slot.terminatedAt ≠ 0)
  stops : (s.regs r).process = .attached → reg.process = .stopped →
    slot.workerType = .none ∨ slot.terminatedAt ≠ 0

theorem acts_setReg {s : State} {r : Nat} {a : Registrant} {g : Nat} {p : Process}
    (hprocess : (s.regs r).process.Moves p) :
    ∃ r' slot reg, s.setReg r { s.regs r with registrant := a, generation := g, process := p } =
      s.act r' slot reg ∧ Acts s r' slot reg := by
  refine ⟨r, s.slotOf r, _, setReg_eq_act s r _, rfl, rfl, rfl, fun hp => ?_, fun _ => ⟨rfl, rfl, id⟩,
    fun hattached hp => ?_⟩
  · rcases hprocess with rfl | ⟨hnot, rfl | ⟨rfl, hactive⟩⟩
    · exact ⟨hp, id⟩
    · exact absurd rfl hp
    · exact ⟨hactive, fun h => absurd h hnot⟩
  · rcases hprocess with rfl | ⟨hnot, -⟩
    · exact nomatch hattached.symm.trans hp
    · exact absurd hattached hnot

/-- **The steps.** A registration is made, a registration or its worker acts, or a slot is
cleaned. -/
theorem step_cases {totalWorkers : Nat} {s s' : State} {e : Event} (h : Inv s)
    (hstep : step totalWorkers s e = some s') :
    (∃ worker delay i, e = .register worker delay ∧ worker.workerType ≠ .none ∧
      findEmptyWorkerSlot totalWorkers s.slots worker.dboid = some i ∧
      s' = s.register worker delay i) ∨
    (∃ r slot reg, s' = s.act r slot reg ∧ Acts s r slot reg) ∨
    (∃ i, s' = s.setSlot i { s.slots i with workerType := .none, terminatedAt := 0 }) := by
  cases e with
  | register worker delay =>
    obtain ⟨hused, i, hi, rfl⟩ := step_register hstep
    exact .inl ⟨worker, delay, i, rfl, hused, hi, rfl⟩
  | clean i =>
    obtain ⟨-, rfl⟩ := of_guard hstep
    exact .inr (.inr ⟨i, rfl⟩)
  | launch =>
    obtain ⟨hphase, rfl⟩ := of_guard hstep
    exact .inr (.inl (acts_setReg (.launch (h.knows_at hphase))))
  | beginWait | seeRunning | seeStopped | readType | readGeneration | readTerminated =>
    obtain ⟨-, rfl⟩ := of_guard hstep
    exact .inr (.inl (acts_setReg (.inl rfl)))
  | leave =>
    obtain ⟨-, rfl⟩ := of_guard hstep
    exact .inr (.inl (acts_setReg (.leave _)))
  | stopEarly =>
    obtain ⟨hpending, rfl⟩ := of_guard hstep
    exact .inr (.inl (acts_setReg (.stopEarly hpending)))
  | launchFails r =>
    obtain ⟨⟨-, hnow⟩, rfl⟩ := of_guard hstep
    exact .inr (.inl ⟨r, _, _, rfl, rfl, rfl, rfl, absurd rfl, fun _ => ⟨rfl, rfl, fun _ => hnow⟩,
      fun _ _ => .inr hnow⟩)
  | mark r =>
    obtain ⟨⟨-, hnow⟩, rfl⟩ := of_guard hstep
    exact .inr (.inl ⟨r, _, _, rfl, rfl, rfl, rfl, fun hp => ⟨hp, id⟩,
      fun _ => ⟨rfl, rfl, fun _ => hnow⟩, fun _ _ => .inr hnow⟩)
  | attach r =>
    obtain ⟨hpending, rfl⟩ := of_guard hstep
    refine .inr (.inl ⟨r, _, _, rfl, rfl, rfl, rfl, fun _ => ⟨?_, fun _ => rfl⟩,
      fun _ => ⟨rfl, rfl, id⟩, nofun⟩)
    rw [hpending]
    exact nofun
  | detach r crash =>
    obtain ⟨⟨-, hnow⟩, rfl⟩ := of_guard hstep
    refine .inr (.inl ⟨r, _, _, rfl, rfl, rfl, by cases crash <;> rfl, absurd rfl, ?_, ?_⟩)
    · intro hused
      cases crash with
      | true => exact ⟨rfl, rfl, fun _ => hnow⟩
      | false => exact absurd rfl hused
    · intro _ _
      cases crash with
      | true => exact .inr hnow
      | false => exact .inl rfl
  | setRestartDelay r =>
    obtain ⟨hattached, rfl⟩ := of_guard hstep
    exact .inr (.inl ⟨r, _, _, setSlot_eq_act s r _, rfl, rfl, rfl, fun hp => ⟨hp, id⟩,
      fun _ => ⟨rfl, rfl, id⟩, fun _ hp => nomatch hattached.symm.trans hp⟩)

/-! ## The runs -/

section Runs

variable {totalWorkers : Nat} {s s' : State}

/-- A wait begins while the slot is still that of the registration, and the slot goes to no other
between the last two reads of the check and the store that may follow. The counter does not come
round during a wait. -/
def Careful (totalWorkers : Nat) (s : State) : Event → Prop
  | .register worker _ => ∀ i ∈ findEmptyWorkerSlot totalWorkers s.slots worker.dboid,
    ∀ r < s.next, (s.regs r).slot = i →
      (s.regs r).registrant ≠ .same ∧ (s.regs r).registrant ≠ .premature
  | .beginWait r => s.owner (s.regs r).slot = some r
  | .readGeneration r => s.registered (s.regs r).slot < (s.regs r).number + (uint16Max + 1)
  | .launch _ | .launchFails _ _ | .seeRunning _ | .seeStopped _ | .readType _ | .readTerminated _
  | .mark _ _ | .leave _ | .attach _ | .stopEarly _ | .detach _ _ _ | .setRestartDelay _ _
  | .clean _ => True

instance (totalWorkers : Nat) (s : State) (e : Event) : Decidable (Careful totalWorkers s e) := by
  cases e <;> unfold Careful <;> infer_instance

theorem Inv.owner_of_generation (h : Inv s) {r : Nat} (htyped : (s.regs r).registrant = .typed)
    (hbound : s.registered (s.regs r).slot < (s.regs r).number + (uint16Max + 1))
    (hgeneration : (s.slotOf r).generation = (s.regs r).generation) :
    s.owner (s.regs r).slot = some r := by
  have hlt : r < s.next := h.lt_next_of_registrant (by rw [htyped]; nofun)
  have hle := h.number_le r hlt
  refine h.latest r hlt ?_
  have hwait : (s.regs r).generation = (s.regs r).number % (uint16Max + 1) :=
    (h.knows_at htyped).1
  rw [State.slotOf, h.generation, hwait] at hgeneration
  -- fewer than 2¹⁶ registrations later, an equal counter means that there was none
  generalize s.registered (s.regs r).slot = n at *
  have hmax : uint16Max = 65535 := rfl
  rw [hmax] at hbound hgeneration
  omega

/-- **One step.** -/
theorem inv_step {e : Event} (h : Inv s) (hcareful : Careful totalWorkers s e)
    (hstep : step totalWorkers s e = some s') : Inv s' := by
  cases e with
  | register =>
    obtain ⟨hused, i, hi, rfl⟩ := step_register hstep
    exact inv_register h hused (isEmpty_of_find hi) (hcareful i hi)
  | launch =>
    obtain ⟨hphase, rfl⟩ := of_guard hstep
    exact inv_setReg h (h.lt_next_of_registrant (by rw [hphase]; nofun))
      (.launch (h.knows_at hphase)) trivial
  | launchFails r now =>
    obtain ⟨⟨hphase, -⟩, rfl⟩ := of_guard hstep
    have hprocess : (s.regs r).process = .unlaunched := h.knows_at hphase
    exact inv_terminated h (h.held r (by rw [hprocess]; nofun)).owner (by rw [hprocess]; nofun) now
  | beginWait r =>
    obtain ⟨hphase, rfl⟩ := of_guard hstep
    refine inv_setReg h (h.lt_next_of_registrant (by rw [hphase]; nofun)) (.inl rfl) ?_
    show (s.slotOf r).generation = (s.regs r).number % (uint16Max + 1)
    rw [State.slotOf, h.generation, (h.owner _ _ hcareful).2.2]
  | seeRunning =>
    obtain ⟨⟨hphase, -⟩, rfl⟩ := of_guard hstep
    exact inv_setReg h (h.lt_next_of_registrant (by rw [hphase]; nofun)) (.inl rfl) trivial
  | seeStopped =>
    obtain ⟨⟨hphase, hstopped⟩, rfl⟩ := of_guard hstep
    exact inv_setReg h (h.lt_next_of_registrant (by rw [hphase]; nofun)) (.inl rfl)
      ⟨h.knows_at hphase, hstopped⟩
  | readType | readTerminated =>
    obtain ⟨hphase, rfl⟩ := of_guard hstep
    have hknows := h.knows_at hphase
    exact inv_check h (by rw [hphase]; nofun) _ fun _ => hknows
  | readGeneration =>
    obtain ⟨hphase, rfl⟩ := of_guard hstep
    exact inv_check h (by rw [hphase]; nofun) _ fun hgeneration =>
      ⟨h.owner_of_generation hphase hcareful hgeneration, (h.knows_at hphase).2⟩
  | mark r now =>
    obtain ⟨⟨hphase, -⟩, rfl⟩ := of_guard hstep
    obtain ⟨howner, hstopped⟩ : _ ∧ (s.regs r).process = .stopped := h.knows_at hphase
    have hterminated := inv_terminated h howner (by rw [hstopped]; nofun) now
    rw [← hstopped] at hterminated
    exact hterminated
  | leave =>
    obtain ⟨hphase, rfl⟩ := of_guard hstep
    exact inv_setReg h (h.lt_next_of_registrant hphase) (.leave _) trivial
  | attach =>
    obtain ⟨hpending, rfl⟩ := of_guard hstep
    exact inv_attach h hpending
  | stopEarly r =>
    obtain ⟨hpending, rfl⟩ := of_guard hstep
    have hactive : (s.regs r).process ≠ .stopped := by rw [hpending]; nofun
    exact inv_setReg h (h.lt_next_of_process hactive) (.stopEarly hpending)
      (knows_of_active (h.knows r) (by rw [hpending]; nofun) hactive .stopped)
  | detach _ crash now =>
    obtain ⟨⟨hattached, -⟩, rfl⟩ := of_guard hstep
    exact inv_detach h hattached crash now
  | setRestartDelay _ delay =>
    obtain ⟨hattached, rfl⟩ := of_guard hstep
    exact inv_setRestartDelay h hattached delay
  | clean =>
    obtain ⟨hterminated, rfl⟩ := of_guard hstep
    exact inv_clean h hterminated

/-- What the slots are for: one in use is not given out, a process attaches to the registration that
it was started for, and no other is marked as terminated by the process that waits. -/
structure Exclusive (totalWorkers : Nat) (s : State) : Prop where
  kept : ∀ r, (s.regs r).process = .attached →
    ∀ dboid, findEmptyWorkerSlot totalWorkers s.slots dboid ≠ some (s.regs r).slot
  attach : ∀ r s', step totalWorkers s (.attach r) = some s' → s.owner (s.regs r).slot = some r
  mark : ∀ r now s', step totalWorkers s (.mark r now) = some s' → s.owner (s.regs r).slot = some r

theorem Inv.exclusive (h : Inv s) : Exclusive totalWorkers s where
  kept r hattached dboid hfind := by
    have hfull := h.isEmpty_eq_false (r := r) (by rw [hattached]; nofun) dboid
    rw [State.slotOf, isEmpty_of_find hfind] at hfull
    cases hfull
  attach r s' hstep := by
    obtain ⟨hpending, -⟩ := ite_none_right_eq_some.mp hstep
    exact (h.held r (by rw [hpending]; nofun)).owner
  mark r now s' hstep := by
    obtain ⟨⟨hphase, -⟩, -⟩ := ite_none_right_eq_some.mp hstep
    exact (h.knows_at hphase).1

/-- **Slots are exclusive.** Whatever the processes do and in whatever order, as long as each step
is `Careful`. -/
theorem slots_exclusive {es : List Event} (hcareful : Along (step totalWorkers) (Careful totalWorkers)
    .start es) (hrun : run (step totalWorkers) .start es = some s) : Exclusive totalWorkers s :=
  (run_invariant_along (fun _ _ _ => inv_step) inv_start hcareful hrun).exclusive

/-- Two workers start in two slots; the first crashes, and is registered again in the same slot
while the process that started it is still waiting. -/
def carefulRegistrations : List Event :=
  [.register ⟨.apply, 1, 5⟩ 10, .launch 0, .beginWait 0, .register ⟨.apply, 1, 6⟩ 10, .launch 1,
    .beginWait 1, .attach 0, .attach 1, .seeRunning 1, .detach 0 true 100,
    .register ⟨.apply, 1, 5⟩ 10, .launch 2, .seeStopped 0, .readType 0, .readGeneration 0,
    .beginWait 2, .stopEarly 2, .seeStopped 2, .readType 2, .readGeneration 2, .readTerminated 2]

theorem slots_exclusive_carefulRegistrations :
    ∃ s, run (step 3) .start carefulRegistrations = some s ∧ (s.regs 2).slot = 0 ∧
      (s.regs 0).registrant = .over ∧ (s.regs 2).registrant = .premature ∧ Exclusive 3 s := by
  have hcareful : Along (step 3) (Careful 3) .start carefulRegistrations := by decide +kernel
  exact ⟨_, rfl, rfl, rfl, rfl, slots_exclusive hcareful rfl⟩

end Runs

/-! ## What goes wrong otherwise -/

/-- What is seen of a slot: its owner, the process attached to it, whether it is marked as
terminated, and which slot would be given out next to its database. -/
def outcome (es : List Event) (i dboid : Nat) : Option (Option Nat × Option Nat × Bool × Option Nat) :=
  (run (step 2) .start es).map fun s =>
    (s.owner i, (s.slots i).proc, (s.slots i).terminatedAt != 0, findEmptyWorkerSlot 2 s.slots dboid)

/-- A registration whose worker comes and goes, and whose slot is given to another, before the wait
begins. -/
def lateWait : List Event :=
  [.register ⟨.sync, 1, 5⟩ 10, .launch 0, .attach 0, .detach 0 false 100,
    .register ⟨.apply, 1, 6⟩ 10, .launch 1, .beginWait 0, .seeStopped 0, .readType 0,
    .readGeneration 0, .readTerminated 0]

/-- **The other registration is marked.** The generation that a late wait reads is that of the other
registration: it is marked as terminated, its slot is given out with the worker attached, and a
worker that comes late attaches to the next registration. The same happens if the slot changes hands
between the reads of the generation and of the time of termination. -/
theorem slots_not_exclusive :
    outcome (lateWait ++ ([.attach 1, .mark 0 200] : List Event)) 0 1 =
        some (some 1, some 1, true, some 0) ∧
      outcome (lateWait ++ ([.mark 0 200, .register ⟨.apply, 1, 7⟩ 10, .attach 1] : List Event)) 0 1 =
        some (some 2, some 1, false, some 1) ∧
      outcome [.register ⟨.sync, 1, 5⟩ 10, .launch 0, .beginWait 0, .attach 0, .detach 0 true 100,
        .seeStopped 0, .readType 0, .readGeneration 0, .register ⟨.apply, 1, 6⟩ 10, .launch 1,
        .attach 1, .readTerminated 0, .mark 0 200] 0 1 = some (some 1, some 1, true, some 0) := by
  decide +kernel

end Spock.Registry
