import Mathlib.Data.List.Nodup
import Mathlib.Data.Nat.Basic
import Mathlib.Order.Basic
import Spock.Failover.SlotSync

/-!
# Spock — what a synchronized slot promises

After a failover a consumer goes on from the standby's slot. The slot must not promise more than the
standby has: not older WAL or catalog rows than it reserved, not a confirmed position beyond the WAL
it received. And it must not promise less than the consumer needs: what is decoded from the
confirmed position on has to be readable from where the primary's slot, at that position, would have
started.

* **`slots_promised`** — as long as the positions read from the primary are within the WAL received,
  which does not go back, and no promotion interrupts a wait, every slot keeps its promise and never
  moves backward.
-/

namespace Spock.SlotSync

open Runs List Option Function

/-! ## The property and its condition -/

/-- What the slot `name` of the standby has to satisfy: it is not older than the reservation, not
newer than what the primary's slot needed when its consumer had confirmed no more, and not ahead of
the WAL received. -/
structure Promised (s : State) (name : Nat) (l : LocalSlot) : Prop where
  reserved : l.reservedLsn ≤ l.restartLsn ∧ l.reservedXmin ≤ l.catalogXmin
  required : ∃ p ∈ s.history name, p.confirmedLsn ≤ l.confirmedLsn ∧ l.restartLsn ≤ p.restartLsn ∧
    (p.catalogXmin = 0 ∨ l.catalogXmin ≤ p.catalogXmin)
  received : l.confirmedLsn ≤ s.received

def Forward (s s' : State) : Prop :=
  ∀ name l l', s.slots name = some l → s'.slots name = some l' → l.toPosition.Upto l'.toPosition

/-- The WAL received does not go back; it covers the positions that the primary's slots have
confirmed when they are compared with it; and a wait is not given up for a promotion. -/
def Careful (s : State) : Event → Prop
  | .receive lsn => s.received ≤ lsn
  | .cap _ | .compare => ∀ r ∈ s.phase.readings, r.confirmedLsn ≤ s.received
  | .giveUp => s.inRecovery
  | _ => True

instance (s : State) (e : Event) : Decidable (Careful s e) := by
  cases e <;> unfold Careful <;> infer_instance

/-! ## The invariant -/

/-- `r` is a position that the primary's slot has had, but for a smaller `restart_lsn`. -/
def Backed (s : State) (r : RemoteSlot) : Prop :=
  ∃ p ∈ s.history r.name, p.confirmedLsn = r.confirmedLsn ∧ r.restartLsn ≤ p.restartLsn ∧
    r.catalogXmin = p.catalogXmin

/-- The standby's slot is not past `r`. -/
def Fresh (s : State) (r : RemoteSlot) : Prop :=
  ∀ l, s.slots r.name = some l → l.confirmedLsn ≤ r.confirmedLsn

structure Told (s : State) (slots : List RemoteSlot) : Prop where
  nodup : (slots.map (·.name)).Nodup
  backed : ∀ r ∈ slots, Backed s r
  fresh : ∀ r ∈ slots, Fresh s r

structure Todo (s : State) (todo : List RemoteSlot) : Prop extends Told s todo where
  within : ∀ r ∈ todo, r.confirmedLsn ≤ s.received

/-- A new slot that is not yet persistent, for `r`. -/
structure Pending (s : State) (r : RemoteSlot) (l : LocalSlot) (todo : List RemoteSlot) : Prop where
  todo : Todo s (r :: todo)
  absent : s.slots r.name = none
  restart : l.restartLsn = l.reservedLsn
  xmin : l.catalogXmin = l.reservedXmin

def Known (s : State) : Phase → Prop
  | .idle => True
  | .listed slots => Told s slots
  | .syncing todo => Todo s todo
  | .created r l todo | .waiting r l todo | .interrupted r l todo => Pending s r l todo
  | .polled r l new todo => Pending s r l todo ∧ new.name = r.name ∧ Backed s new
  | .ready r l todo => Pending s r l todo ∧ l.isAhead r = false

structure Kept (s : State) (name : Nat) (l : LocalSlot) : Prop where
  reserved : l.reservedLsn ≤ l.restartLsn ∧ l.reservedXmin ≤ l.catalogXmin
  required : ∃ p ∈ s.history name, p.confirmedLsn = l.confirmedLsn ∧ l.restartLsn ≤ p.restartLsn ∧
    (p.catalogXmin = 0 ∨ l.catalogXmin ≤ p.catalogXmin)
  received : l.confirmedLsn ≤ s.received

variable {s : State} {name : Nat} {l : LocalSlot} {r : RemoteSlot} {slots todo : List RemoteSlot}

theorem Kept.promised (h : Kept s name l) : Promised s name l := by
  obtain ⟨p, hp, hconfirmed, hneeds⟩ := h.required
  exact { h with required := ⟨p, hp, hconfirmed.le, hneeds⟩ }

structure Inv (s : State) : Prop where
  sorted : ∀ name, (s.history name).Pairwise fun p q => q.Upto p
  kept : ∀ name l, s.slots name = some l → Kept s name l
  known : Known s s.phase

theorem inv_init : Inv State.init where
  sorted _ := .nil
  kept _ _ h := nomatch h
  known := trivial

/-! ## Steps of the primary and of recovery -/

/-- Nothing changes for the worker, but that more is known and received. -/
structure Grows (s s' : State) : Prop where
  slots : s'.slots = s.slots
  history : ∀ name, ∀ p ∈ s.history name, p ∈ s'.history name
  received : s.received ≤ s'.received

section grows

variable {s' : State} (h : Grows s s')

include h

theorem Backed.grows (hr : Backed s r) : Backed s' r := by
  obtain ⟨p, hp, hpos⟩ := hr
  exact ⟨p, h.history r.name p hp, hpos⟩

theorem Fresh.grows (hr : Fresh s r) : Fresh s' r := by
  intro l hl
  rw [h.slots] at hl
  exact hr l hl

theorem Told.grows (ht : Told s slots) : Told s' slots where
  nodup := ht.nodup
  backed r hr := (ht.backed r hr).grows h
  fresh r hr := (ht.fresh r hr).grows h

theorem Todo.grows (ht : Todo s todo) : Todo s' todo where
  toTold := ht.toTold.grows h
  within r hr := (ht.within r hr).trans h.received

theorem Pending.grows (hp : Pending s r l todo) : Pending s' r l todo where
  __ := hp
  todo := hp.todo.grows h
  absent := h.slots ▸ hp.absent

theorem Known.grows {phase : Phase} (hk : Known s phase) : Known s' phase := by
  cases phase with
  | idle => trivial
  | listed => exact Told.grows h hk
  | syncing => exact Todo.grows h hk
  | created | waiting | interrupted => exact Pending.grows h hk
  | polled => exact ⟨hk.1.grows h, hk.2.1, hk.2.2.grows h⟩
  | ready => exact ⟨hk.1.grows h, hk.2⟩

theorem Kept.grows (hk : Kept s name l) : Kept s' name l := by
  obtain ⟨p, hp, hpos⟩ := hk.required
  exact ⟨hk.reserved, ⟨p, h.history name p hp, hpos⟩, hk.received.trans h.received⟩

theorem Inv.grows (hinv : Inv s) (hphase : s'.phase = s.phase)
    (hsorted : ∀ name, (s'.history name).Pairwise fun p q => q.Upto p) : Inv s' where
  sorted := hsorted
  kept name l hl := (hinv.kept name l (h.slots ▸ hl)).grows h
  known := hphase ▸ hinv.known.grows h

end grows

variable {p : Position} {names : List Nat} {confirmedLsn : Nat}

theorem Inv.advance (h : Inv s) (hupto : ∀ old ∈ s.history name, old.Upto p) :
    Inv { s with
      history := update s.history name (p :: s.history name)
      present := update s.present name true } := by
  refine Inv.grows (s := s) ⟨rfl, fun n q hq => ?_, le_rfl⟩ h rfl fun n => ?_
  · by_cases hn : n = name
    · subst hn
      simpa using .inr hq
    · simpa [update_of_ne hn] using hq
  · by_cases hn : n = name
    · subst hn
      simpa using ⟨hupto, h.sorted n⟩
    · simpa [update_of_ne hn] using h.sorted n

/-! ## Steps of the worker -/

theorem Position.Upto.refl (p : Position) : p.Upto p := ⟨le_rfl, le_rfl, le_rfl⟩

theorem Forward.of_eq {s' : State} (h : s'.slots = s.slots) : Forward s s' := by
  intro name l l' hl hl'
  rw [h, hl] at hl'
  cases hl'
  exact Position.Upto.refl _

theorem Told.tail (h : Told s (r :: slots)) :
    Told s slots where
  nodup := (nodup_cons.mp h.nodup).2
  backed r' hr' := h.backed r' (mem_cons_of_mem r hr')
  fresh r' hr' := h.fresh r' (mem_cons_of_mem r hr')

theorem Todo.tail (h : Todo s (r :: todo)) :
    Todo s todo where
  toTold := h.toTold.tail
  within r' hr' := h.within r' (mem_cons_of_mem r hr')

theorem remote_eq_some (h : s.remote name = some r) :
    r.name = name ∧ (s.history name).head? = some r.toPosition := by
  obtain ⟨-, hmap⟩ := ite_none_right_eq_some.mp h
  obtain ⟨p, hp, rfl⟩ := map_eq_some_iff.mp hmap
  exact ⟨rfl, hp⟩

theorem backed_remote (h : s.remote name = some r) : Backed s r := by
  obtain ⟨rfl, hhead⟩ := remote_eq_some h
  exact ⟨r.toPosition, mem_of_mem_head? hhead, rfl, le_rfl, rfl⟩

theorem Inv.upto_head (h : Inv s) {q : Position} (hp : (s.history name).head? = some p)
    (hq : q ∈ s.history name) : q.Upto p := by
  have hsorted := h.sorted name
  cases hist : s.history name with
  | nil =>
    rw [hist] at hq
    cases hq
  | cons =>
    rw [hist] at hp hq hsorted
    cases hp
    rcases mem_cons.mp hq with rfl | hq
    · exact Position.Upto.refl q
    · exact (pairwise_cons.mp hsorted).1 q hq

theorem Inv.fresh_remote (h : Inv s) (hr : s.remote name = some r) : Fresh s r := by
  obtain ⟨rfl, hhead⟩ := remote_eq_some hr
  intro l hl
  obtain ⟨p, hp, hconfirmed, -⟩ := (h.kept r.name l hl).required
  rw [← hconfirmed]
  exact (h.upto_head hhead hp).2.2

theorem Inv.told_remote (h : Inv s) (hnodup : names.Nodup) : Told s (names.filterMap s.remote) := by
  have hmem : ∀ r ∈ names.filterMap s.remote, ∃ name, s.remote name = some r := by
    intro r hr
    obtain ⟨name, -, hname⟩ := mem_filterMap.mp hr
    exact ⟨name, hname⟩
  refine ⟨?_, fun r hr => ?_, fun r hr => ?_⟩
  · rw [map_filterMap]
    refine hnodup.filterMap fun n n' m hm hm' => ?_
    obtain ⟨r, hr, rfl⟩ := map_eq_some_iff.mp hm
    obtain ⟨_, hr', hname⟩ := map_eq_some_iff.mp hm'
    rw [← (remote_eq_some hr).1, ← hname, (remote_eq_some hr').1]
  · obtain ⟨_, hname⟩ := hmem r hr
    exact backed_remote hname
  · obtain ⟨_, hname⟩ := hmem r hr
    exact h.fresh_remote hname

theorem Backed.limit (h : Backed s r) (restartLsn : Nat) (hle : r.confirmedLsn ≤ confirmedLsn) :
    Backed s (r.limit restartLsn confirmedLsn) := by
  obtain ⟨p, hp, hconfirmed, hrestart, hxmin⟩ := h
  refine ⟨p, hp, ?_, (Nat.min_le_left _ _).trans hrestart, hxmin⟩
  show p.confirmedLsn = min r.confirmedLsn confirmedLsn
  rw [hconfirmed, Nat.min_eq_left hle]

theorem Told.limit (h : Told s slots) (restartLsn : Nat)
    (hle : ∀ r ∈ slots, r.confirmedLsn ≤ confirmedLsn) :
    Told s (slots.map (·.limit restartLsn confirmedLsn)) := by
  refine ⟨?_, fun r hr => ?_, fun r hr => ?_⟩
  · rw [List.map_map]
    exact h.nodup
  · obtain ⟨r₀, hr₀, rfl⟩ := List.mem_map.mp hr
    exact (h.backed r₀ hr₀).limit restartLsn (hle r₀ hr₀)
  · obtain ⟨r₀, hr₀, rfl⟩ := mem_map.mp hr
    intro l hl
    show l.confirmedLsn ≤ min r₀.confirmedLsn confirmedLsn
    rw [Nat.min_eq_left (hle r₀ hr₀)]
    exact h.fresh r₀ hr₀ l hl

theorem Told.filter (h : Told s slots) (keep : RemoteSlot → Bool) : Told s (slots.filter keep) where
  nodup := h.nodup.sublist (filter_sublist.map _)
  backed r hr := h.backed r (mem_of_mem_filter hr)
  fresh r hr := h.fresh r (mem_of_mem_filter hr)

theorem Told.capSlots (h : Told s slots) (hle : ∀ r ∈ slots, r.confirmedLsn ≤ s.received)
    (safeLsn : Nat) : Known s (s.capSlots slots safeLsn) := by
  unfold State.capSlots
  split
  · trivial
  · refine ⟨(h.limit _ hle).filter _, fun r hr => ?_⟩
    obtain ⟨_, -, rfl⟩ := mem_map.mp (mem_of_mem_filter hr)
    exact Nat.min_le_right _ _

/-- **A slot that is moved** to a position that it can satisfy keeps its promise. -/
theorem Kept.moveTo (hreserved : l.reservedLsn ≤ l.restartLsn ∧ l.reservedXmin ≤ l.catalogXmin)
    (hbehind : l.isAhead r = false) (hr : Backed s r) (hwithin : r.confirmedLsn ≤ s.received) :
    Kept s r.name (l.moveTo r) := by
  obtain ⟨p, hp, hconfirmed, hrestart, hxmin⟩ := hr
  obtain ⟨hle, hle'⟩ := LocalSlot.isAhead_eq_false.mp hbehind
  rw [LocalSlot.moveTo_eq]
  refine ⟨⟨hreserved.1.trans (Nat.le_max_left _ _), hreserved.2.trans (Nat.le_max_left _ _)⟩,
    ⟨p, hp, hconfirmed, ?_, ?_⟩, hwithin⟩
  · show max l.restartLsn r.restartLsn ≤ p.restartLsn
    rw [Nat.max_eq_right hle]
    exact hrestart
  · rcases hle' with hnone | hle'
    · exact .inl (hxmin ▸ hnone)
    · right
      show max l.catalogXmin r.catalogXmin ≤ p.catalogXmin
      rw [Nat.max_eq_right hle', hxmin]

theorem Inv.move (h : Inv s) (htodo : Todo s (r :: todo))
    (hreserved : l.reservedLsn ≤ l.restartLsn ∧ l.reservedXmin ≤ l.catalogXmin)
    (hbehind : l.isAhead r = false) :
    Inv { s with
      slots := update s.slots r.name (some (l.moveTo r)), phase := .syncing todo } where
  sorted := h.sorted
  kept := by
    intro name l' hl'
    change update s.slots r.name (some (l.moveTo r)) name = some l' at hl'
    by_cases hname : name = r.name
    · subst hname
      rw [update_self] at hl'
      cases hl'
      have hmoved := Kept.moveTo hreserved hbehind (htodo.backed r mem_cons_self)
        (htodo.within r mem_cons_self)
      exact { hmoved with }
    · rw [update_of_ne hname] at hl'
      have hkept := h.kept name l' hl'
      exact { hkept with }
  known := by
    obtain ⟨hnew, hnodup⟩ := nodup_cons.mp htodo.nodup
    have htail := htodo.tail
    refine ⟨⟨hnodup, htail.backed, fun r' hr' l' hl' => ?_⟩, htail.within⟩
    -- the rest of the list has other names
    have hne : r'.name ≠ r.name := fun heq => hnew (mem_map.mpr ⟨r', hr', heq⟩)
    exact htail.fresh r' hr' l' (by simpa [update_of_ne hne] using hl')

theorem Inv.goOn (h : Inv s) {phase : Phase} (hknown : Known s phase) :
    Inv { s with phase := phase } ∧ Forward s { s with phase := phase } := by
  have hgrows : Grows s { s with phase := phase } := ⟨rfl, fun _ _ hp => hp, le_rfl⟩
  exact ⟨⟨h.sorted, fun name l hl => (h.kept name l hl).grows hgrows, hknown.grows hgrows⟩,
    .of_eq rfl⟩

theorem Inv.fetch (h : Inv s) (hnodup : names.Nodup) (drop : Bool) :
    let s' := { s with
      slots := fun n =>
        if drop ∧ ∀ r ∈ names.filterMap s.remote, r.name ≠ n then none else s.slots n
      phase := .listed (names.filterMap s.remote) }
    Inv s' ∧ Forward s s' := by
  intro s'
  have hslots : ∀ name l, s'.slots name = some l → s.slots name = some l := fun name l hl =>
    (ite_none_left_eq_some.mp hl).2
  have htold := h.told_remote hnodup
  refine ⟨⟨h.sorted, fun name l hl => ?_, htold.nodup, htold.backed, fun r hr l hl => ?_⟩,
    fun name l l' hl hl' => ?_⟩
  · have hkept := h.kept name l (hslots name l hl)
    exact { hkept with }
  · exact htold.fresh r hr l (hslots r.name l hl)
  · cases hl.symm.trans (hslots name l' hl')
    exact Position.Upto.refl _

theorem Inv.syncOne (h : Inv s) (htodo : Todo s (r :: todo)) (restartLsn xmin : Nat) :
    Inv (s.syncOne r todo restartLsn xmin) ∧ Forward s (s.syncOne r todo restartLsn xmin) := by
  unfold State.syncOne
  split
  · split
    · rename_i l hl
      split
      · exact h.goOn htodo.tail
      · rename_i hahead
        refine ⟨h.move htodo (h.kept r.name l hl).reserved (by simpa using hahead), ?_⟩
        intro name l₁ l₂ hl₁ hl₂
        change update s.slots r.name (some (l.moveTo r)) name = some l₂ at hl₂
        by_cases hname : name = r.name
        · subst hname
          cases hl.symm.trans hl₁
          rw [update_self] at hl₂
          cases hl₂
          rw [LocalSlot.moveTo_eq]
          exact ⟨Nat.le_max_left _ _, Nat.le_max_left _ _, htodo.fresh r mem_cons_self l hl⟩
        · rw [update_of_ne hname, hl₁] at hl₂
          cases hl₂
          exact Position.Upto.refl _
    · rename_i hnone
      exact h.goOn ⟨htodo, hnone, rfl, rfl⟩
  · exact h.goOn htodo.tail

theorem Inv.persist (h : Inv s) (hpending : Pending s r l todo) (hbehind : l.isAhead r = false) :
    let s' := { s with
      slots := update s.slots r.name (some (l.moveTo r)), phase := .syncing todo }
    Inv s' ∧ Forward s s' := by
  intro s'
  refine ⟨h.move hpending.todo ⟨hpending.restart.ge, hpending.xmin.ge⟩ hbehind, ?_⟩
  intro name l₁ l₂ hl₁ hl₂
  change update s.slots r.name (some (l.moveTo r)) name = some l₂ at hl₂
  have hname : name ≠ r.name := by
    rintro rfl
    cases hpending.absent.symm.trans hl₁
  rw [update_of_ne hname, hl₁] at hl₂
  cases hl₂
  exact Position.Upto.refl _

theorem Pending.compareOne {new : RemoteSlot} (h : Pending s r l todo) (hname : new.name = r.name)
    (hnew : Backed s new) (hwithin : new.confirmedLsn ≤ s.received) :
    Known s (s.compareOne r l new todo) := by
  simp only [State.compareOne]
  split
  · exact h
  · rename_i hahead
    have htail := h.todo.tail
    have habsent : s.slots new.name = none := hname ▸ h.absent
    refine ⟨⟨⟨⟨?_, ?_, ?_⟩, ?_⟩, habsent, h.restart, h.xmin⟩, by simpa using hahead⟩
    · show (new.name :: todo.map (·.name)).Nodup
      rw [hname]
      exact h.todo.nodup
    · exact forall_mem_cons.mpr ⟨hnew.limit s.received hwithin, htail.backed⟩
    · refine forall_mem_cons.mpr ⟨fun l' hl' => ?_, htail.fresh⟩
      cases habsent.symm.trans hl'
    · exact forall_mem_cons.mpr ⟨Nat.min_le_right _ _, htail.within⟩

theorem Pending.pollOne (h : Pending s r l todo) : Known s (s.pollOne r l todo) := by
  unfold State.pollOne
  split
  · split
    · rename_i hnew
      exact ⟨h, (remote_eq_some hnew).1, backed_remote hnew⟩
    · exact h
  · exact h

theorem inv_forward_step {s' : State} {e : Event} (h : Inv s) (hcareful : Careful s e)
    (hstep : step s e = some s') : Inv s' ∧ Forward s s' := by
  have hknown := h.known
  cases e
  case advance =>
    obtain ⟨hupto, rfl⟩ := of_guard hstep
    exact ⟨h.advance hupto, .of_eq rfl⟩
  case dropRemote | walEnd | redo | promote =>
    cases hstep
    exact ⟨Inv.grows (s := s) ⟨rfl, fun _ _ hq => hq, le_rfl⟩ h rfl h.sorted, .of_eq rfl⟩
  case receive =>
    cases hstep
    exact ⟨Inv.grows (s := s) ⟨rfl, fun _ _ hq => hq, hcareful⟩ h rfl h.sorted, .of_eq rfl⟩
  case fetch drop =>
    obtain ⟨⟨-, hnodup⟩, rfl⟩ := of_guard hstep
    exact h.fetch hnodup drop
  case abort =>
    cases hstep
    exact h.goOn trivial
  -- every other event is the worker's, in one phase
  all_goals
    simp only [step] at hstep
    split at hstep <;> cases hstep
    rename_i hphase
    rw [hphase] at hknown
  · -- cap
    have hle : ∀ r ∈ s.phase.readings, r.confirmedLsn ≤ s.received := hcareful
    rw [hphase] at hle
    exact h.goOn (Told.capSlots hknown hle _)
  · exact h.syncOne hknown _ _
  · -- check
    refine h.goOn ?_
    split
    · exact hknown
    · rename_i hahead
      exact ⟨hknown, by simpa using hahead⟩
  · exact h.goOn (Pending.pollOne hknown)
  · exact ⟨h, .of_eq rfl⟩
  · -- compare
    have hle : ∀ r ∈ s.phase.readings, r.confirmedLsn ≤ s.received := hcareful
    rw [hphase] at hle
    exact h.goOn (hknown.1.compareOne hknown.2.1 hknown.2.2 (hle _ mem_cons_self))
  · -- giveUp
    have hrecovery : s.inRecovery := hcareful
    refine h.goOn ?_
    rw [if_pos hrecovery]
    exact hknown.todo.tail
  · exact h.persist hknown.1 hknown.2
  · exact h.goOn trivial

/-! ## Runs -/

/-- **Slots keep their promises.** However the primary's slots move, whatever the standby receives
and replays, and whenever the connection is lost or the standby is promoted, as long as the WAL
received covers the positions read and does not go back, and no wait is given up for a promotion:
every slot that has been persisted keeps its promise, and no step moves it backward. -/
theorem slots_promised {events : List Event} {s : State}
    (hcareful : Along step Careful State.init events) (hrun : run step State.init events = some s) :
    (∀ name l, s.slots name = some l → Promised s name l) ∧
      ∀ e s', Careful s e → step s e = some s' → Forward s s' := by
  have hinv : Inv s := run_invariant_along
    (fun _ _ _ hs hc hstep => (inv_forward_step hs hc hstep).1) inv_init hcareful hrun
  exact ⟨fun name l hl => (hinv.kept name l hl).promised,
    fun e s' hc hstep => (inv_forward_step hinv hc hstep).2⟩

def passEvents (restartLsn xmin : Nat) : List Event :=
  [.fetch [1] false, .cap 100, .sync restartLsn xmin]

/-- A new slot waits for the primary's, is persisted, and follows in the next pass. -/
def carefulEvents : List Event := flatten
  [[.receive 100, .walEnd 100, .redo 70, .advance 1 ⟨50, 10, 60⟩], passEvents 80 12, [.check,
      .pollFails, .advance 1 ⟨90, 15, 95⟩, .poll, .compare, .persist, .finish,
      .advance 1 ⟨95, 16, 100⟩], passEvents 0 0, [.promote, .finish]]

theorem slots_promised_carefulEvents :
    ∃ s, run step State.init carefulEvents = some s ∧
      (s.slots 1).map (·.toPosition) = some ⟨95, 16, 100⟩ ∧
      (∀ name l, s.slots name = some l → Promised s name l) ∧
      ∀ e s', Careful s e → step s e = some s' → Forward s s' := by
  have hcareful : Along step Careful State.init carefulEvents := by decide +kernel
  have hrun : run step State.init carefulEvents = some _ := rfl
  exact ⟨_, hrun, rfl, slots_promised hcareful hrun⟩

/-- The standby is promoted while the worker waits for the primary's slot. -/
def interruptedEvents : List Event := flatten
  [[.receive 100, .walEnd 100, .redo 70, .advance 1 ⟨50, 10, 60⟩], passEvents 80 12, [.check,
      .promote, .poll, .giveUp, .persist]]

def cappedEvents : List Event := flatten
  [[.receive 80, .walEnd 100, .redo 30, .advance 1 ⟨50, 10, 60⟩, .advance 1 ⟨90, 20, 100⟩],
    passEvents 40 5, [.check, .persist]]

/-- The WAL receiver starts anew, at the beginning of a segment, before a second pass. -/
def restartedEvents : List Event := flatten
  [[.receive 100, .walEnd 100, .redo 30, .advance 1 ⟨50, 10, 60⟩], passEvents 40 5, [.check,
      .persist, .finish, .receive 40, .fetch [1] false, .cap 100]]

/-- **False promises.** After an interrupted wait the slot starts at 80, while the primary's slot,
with the same position confirmed, needed the WAL from 50 on, and older catalog rows. With a
confirmed position limited to 80 the slot starts at 90, where the primary's slot was when 100 had
been confirmed. And when the WAL received goes back, so does the confirmed position. -/
theorem slots_not_promised :
    (∃ s l, run step State.init interruptedEvents = some s ∧ s.slots 1 = some l ∧
      l.toPosition = ⟨80, 12, 60⟩ ∧ ¬Promised s 1 l) ∧
    (∃ s l, run step State.init cappedEvents = some s ∧ s.slots 1 = some l ∧
      l.toPosition = ⟨90, 20, 80⟩ ∧ ¬Promised s 1 l) ∧
    ∃ s s', run step State.init restartedEvents = some s ∧ step s (.sync 0 0) = some s' ∧
      (s.slots 1).map (·.confirmedLsn) = some 60 ∧ (s'.slots 1).map (·.confirmedLsn) = some 40 ∧
      ¬Forward s s' := by
  refine ⟨⟨_, _, rfl, rfl, rfl, fun h => ?_⟩, ⟨_, _, rfl, rfl, rfl, fun h => ?_⟩,
    ⟨_, _, rfl, rfl, rfl, rfl, fun h => ?_⟩⟩
  · exact absurd h.required (by decide)
  · exact absurd h.required (by decide)
  · exact absurd (h 1 _ _ rfl rfl) (by decide)

end Spock.SlotSync
