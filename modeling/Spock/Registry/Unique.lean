import Mathlib.Data.List.Nodup
import Spock.Registry.Manager

/-!
# Spock — one apply worker for a subscription

The manager starts a worker for a subscription when the first slot it has listed for it shows no
process. That is the right slot, because a worker is registered in the first slot that is empty and
what its predecessors have left behind is empty; and what it shows is right, unless a worker is
still starting.

* **`Settled`**, **`Lists`**, **`Ended`** — what the manager relies on, and **`Knows`**, when;
* **`Careful`**, **`apply_unique`**, **`apply_not_unique`** — the runs.
-/

namespace Spock.ApplyManager

open Runs List Option Function
open Registry (Slot Registration)

/-! ## Steps that register no apply worker -/

section Quiet

variable (totalWorkers dboid : Nat)

def Active (s : Registry.State) (subid r : Nat) : Prop :=
  (s.regs r).process ≠ .stopped ∧ (s.regs r).worker = ⟨.apply, dboid, subid⟩

/-- A slot that shows an apply worker for the subscription, be it what is left of one. -/
structure SlotFor (s : Registry.State) (subid i : Nat) : Prop where
  lt : i < totalWorkers
  workerType : (s.slots i).workerType = .apply
  dboid : (s.slots i).dboid = dboid
  subid : (s.slots i).subid = subid

/-- The apply workers of the database get fewer. A worker that was attached leaves its slot marked,
if it leaves it at all. -/
structure Quiet (s s' : Registry.State) : Prop where
  active : ∀ subid r, Active dboid s' subid r → Active dboid s subid r ∧
    (s'.regs r).slot = (s.regs r).slot ∧
    ((s.regs r).process = .attached → (s'.regs r).process = .attached)
  slotFor : ∀ subid i, SlotFor totalWorkers dboid s' subid i → SlotFor totalWorkers dboid s subid i ∧
    ((s.slots i).terminatedAt ≠ 0 → (s'.slots i).terminatedAt ≠ 0)
  stops : ∀ subid r, Active dboid s subid r → (s.regs r).process = .attached →
    SlotFor totalWorkers dboid s' subid (s.regs r).slot →
    Active dboid s' subid r ∧ (s'.regs r).slot = (s.regs r).slot ∨
      (s'.slots (s.regs r).slot).terminatedAt ≠ 0

variable {totalWorkers dboid} {s s' : Registry.State}

theorem quiet_act {r : Nat} {slot : Slot} {reg : Registration} (h : Registry.Acts s r slot reg) :
    Quiet totalWorkers dboid s (s.act r slot reg) := by
  have hregs := s.act_regs r slot reg
  have hslots := s.act_slots r slot reg
  refine ⟨fun subid q hq => ?_, fun subid i hi => ?_, fun subid q hq hattached hslot => ?_⟩
  · unfold Active at hq
    rcases update_cases hregs q with ⟨rfl, heq⟩ | ⟨-, heq⟩
    · rw [heq, h.worker] at hq
      obtain ⟨hactive, hkept⟩ := h.process hq.1
      rw [heq]
      exact ⟨⟨hactive, hq.2⟩, h.place, hkept⟩
    · rw [heq] at hq ⊢
      exact ⟨hq, rfl, id⟩
  · obtain ⟨hlt, htype, hdboid, hsubid⟩ := hi
    rcases update_cases hslots i with ⟨rfl, heq⟩ | ⟨-, heq⟩
    · rw [heq] at htype hdboid hsubid ⊢
      obtain ⟨htype', hdboid', hterminated⟩ := h.shows (by rw [htype]; nofun)
      exact ⟨⟨hlt, htype'.symm.trans htype, hdboid'.symm.trans hdboid, h.subid.symm.trans hsubid⟩,
        hterminated⟩
    · rw [heq] at htype hdboid hsubid ⊢
      exact ⟨⟨hlt, htype, hdboid, hsubid⟩, id⟩
  · unfold Active
    rcases update_cases hregs q with ⟨rfl, heq⟩ | ⟨-, heq⟩
    · have htype := hslot.workerType
      rw [hslots, update_self] at htype
      rw [hslots, update_self, heq, h.worker]
      by_cases hstopped : reg.process = .stopped
      · rcases h.stops hattached hstopped with hnone | hterminated
        · cases htype.symm.trans hnone
        · exact .inr hterminated
      · exact .inl ⟨⟨hstopped, hq.2⟩, h.place⟩
    · rw [heq]
      exact .inl ⟨hq, rfl⟩

theorem quiet_clean (s : Registry.State) (i : Nat) : Quiet totalWorkers dboid s
    (s.setSlot i { s.slots i with workerType := .none, terminatedAt := 0 }) := by
  refine ⟨fun _ _ hq => ⟨hq, rfl, id⟩, fun subid j hj => ?_, fun _ _ hq _ _ => .inl ⟨hq, rfl⟩⟩
  obtain ⟨hlt, htype, hdboid, hsubid⟩ := hj
  have hslots := s.setSlot_slots i { s.slots i with workerType := .none, terminatedAt := 0 }
  rcases update_cases hslots j with ⟨rfl, heq⟩ | ⟨-, heq⟩
  · rw [heq] at htype
    cases htype
  · rw [heq] at htype hdboid hsubid ⊢
    exact ⟨⟨hlt, htype, hdboid, hsubid⟩, id⟩

theorem quiet_register (h : Registry.Inv s) {worker : Registry.Worker} {delay i : Nat}
    (hother : ¬ (worker.workerType = .apply ∧ worker.dboid = dboid))
    (hempty : (s.slots i).isEmpty worker.dboid = true) :
    Quiet totalWorkers dboid s (s.register worker delay i) := by
  have hregs := s.register_regs worker delay i
  have hslots := s.register_slots worker delay i
  refine ⟨fun subid q hq => ?_, fun subid j hj => ?_, fun subid q hq hattached _ => ?_⟩
  · unfold Active at hq
    rcases update_cases hregs q with ⟨rfl, heq⟩ | ⟨-, heq⟩
    · rw [heq] at hq
      -- the new registration is for another kind of worker, or for another database
      have hworker : worker = ⟨.apply, dboid, subid⟩ := hq.2
      rw [hworker] at hother
      exact absurd ⟨rfl, rfl⟩ hother
    · rw [heq] at hq ⊢
      exact ⟨hq, rfl, id⟩
  · obtain ⟨hlt, htype, hdboid, hsubid⟩ := hj
    rcases update_cases hslots j with ⟨rfl, heq⟩ | ⟨-, heq⟩
    · rw [heq] at htype hdboid
      exact absurd ⟨htype, hdboid⟩ hother
    · rw [heq] at htype hdboid hsubid ⊢
      exact ⟨⟨hlt, htype, hdboid, hsubid⟩, id⟩
  · have hlt : q < s.next := h.lt_next_of_process hq.1
    unfold Active
    rw [hregs, update_of_ne (Nat.ne_of_lt hlt)]
    exact .inl ⟨hq, rfl⟩

/-- **Every other step is quiet.** -/
theorem quiet_step (h : Registry.Inv s) {e : Registry.Event} (he : registersApply dboid e = false)
    (hstep : Registry.step totalWorkers s e = some s') : Quiet totalWorkers dboid s s' := by
  rcases Registry.step_cases h hstep with
    ⟨worker, delay, i, rfl, -, hi, rfl⟩ | ⟨r, slot, reg, rfl, hacts⟩ | ⟨i, rfl⟩
  · refine quiet_register h (fun hworker => ?_) (Registry.isEmpty_of_find hi)
    simp [registersApply, hworker] at he
  · exact quiet_act hacts
  · exact quiet_clean s i

end Quiet

/-! ## What the manager relies on -/

section Invariant

variable (totalWorkers dboid : Nat)

/-- One worker for each subscription, in the first slot that shows it. -/
structure Single (s : Registry.State) : Prop where
  lt : ∀ subid r, Active dboid s subid r → (s.regs r).slot < totalWorkers
  unique : ∀ subid r r', Active dboid s subid r → Active dboid s subid r' → r = r'
  first : ∀ subid r i, Active dboid s subid r → SlotFor totalWorkers dboid s subid i →
    (s.regs r).slot ≤ i

structure Settled (s : Registry.State) : Prop where
  attached : ∀ subid r, Active dboid s subid r → (s.regs r).process = .attached
  marked : ∀ subid i, SlotFor totalWorkers dboid s subid i → (s.slots i).terminatedAt ≠ 0 ∨
    ∃ r, Active dboid s subid r ∧ (s.regs r).slot = i

structure Ended (s : Registry.State) (subid : Nat) : Prop where
  inactive : ∀ r, ¬ Active dboid s subid r
  marked : ∀ i, SlotFor totalWorkers dboid s subid i → (s.slots i).terminatedAt ≠ 0

def Lists (s : Registry.State) (workers : List Nat) (subid : Nat) : Prop :=
  ∀ r, Active dboid s subid r →
    (workers.find? fun i => (s.slots i).subid == subid) = some (s.regs r).slot

structure Deciding (s : Registry.State) (workers : List Nat) (todo : List Subscription)
    (found : Option (Subscription × Option Nat)) (start : List Nat) : Prop where
  nodup : (start ++ ((found.map (·.1.id)).toList ++ todo.map (·.id))).Nodup
  settled : Settled totalWorkers dboid s
  lists : ∀ sub ∈ todo, Lists dboid s workers sub.id
  found : ∀ f ∈ found, ∀ r, Active dboid s f.1.id r → f.2 = some (s.regs r).slot
  inactive : ∀ subid ∈ start, ∀ r, ¬ Active dboid s subid r

def Knows (s : Registry.State) : Manager → Prop
  | .absent => True
  | .idle => True
  | .listed workers => Settled totalWorkers dboid s ∧ ∀ subid, Lists dboid s workers subid
  | .deciding workers todo found start => Deciding totalWorkers dboid s workers todo found start
  | .starting _ start _ => start.Nodup ∧ ∀ subid ∈ start, Ended totalWorkers dboid s subid

def Manager.searched : Manager → List Nat
  | .listed workers => workers
  | .deciding workers _ _ _ => workers
  | _ => []

variable {totalWorkers dboid} {s s' : Registry.State}

namespace Quiet

variable (h : Quiet totalWorkers dboid s s')

include h

theorem single (hs : Single totalWorkers dboid s) : Single totalWorkers dboid s' where
  lt subid r hr := by
    obtain ⟨hold, hslot, -⟩ := h.active subid r hr
    rw [hslot]
    exact hs.lt subid r hold
  unique subid r r' hr hr' := hs.unique subid r r' (h.active _ _ hr).1 (h.active _ _ hr').1
  first subid r i hr hi := by
    obtain ⟨hold, hslot, -⟩ := h.active subid r hr
    rw [hslot]
    exact hs.first subid r i hold (h.slotFor _ _ hi).1

theorem settled (hs : Settled totalWorkers dboid s) : Settled totalWorkers dboid s' where
  attached subid r hr := by
    obtain ⟨hold, -, hkept⟩ := h.active subid r hr
    exact hkept (hs.attached subid r hold)
  marked subid i hi := by
    obtain ⟨hold, hmark⟩ := h.slotFor subid i hi
    rcases hs.marked subid i hold with hmarked | ⟨r, hr, rfl⟩
    · exact .inl (hmark hmarked)
    · rcases h.stops subid r hr (hs.attached subid r hr) hi with hactive | hmarked
      · exact .inr ⟨r, hactive⟩
      · exact .inl hmarked

variable {subid : Nat}

theorem inactive (hs : ∀ r, ¬ Active dboid s subid r) :
    ∀ r, ¬ Active dboid s' subid r := fun r hr => hs r (h.active _ _ hr).1

theorem ended (hs : Ended totalWorkers dboid s subid) :
    Ended totalWorkers dboid s' subid where
  inactive := h.inactive hs.inactive
  marked i hi := by
    obtain ⟨hold, hmark⟩ := h.slotFor subid i hi
    exact hmark (hs.marked i hold)

theorem lists {workers : List Nat} (hsubid : ∀ i ∈ workers, (s'.slots i).subid = (s.slots i).subid)
    (hs : Lists dboid s workers subid) : Lists dboid s' workers subid := by
  intro r hr
  obtain ⟨hold, hslot, -⟩ := h.active subid r hr
  rw [hslot, ← hs r hold]
  -- slot by slot, the two searches compare the same subscriptions
  clear hs hr hold hslot
  induction workers with
  | nil => rfl
  | cons i _ ih =>
    rw [find?_cons, find?_cons, hsubid i mem_cons_self,
      ih fun j hj => hsubid j (mem_cons_of_mem i hj)]

/-- **What the manager has found out stays so**, if the slots it has yet to search stay with their
subscriptions. -/
theorem knows {m : Manager} (hsubid : ∀ i ∈ m.searched, (s'.slots i).subid = (s.slots i).subid)
    (hm : Knows totalWorkers dboid s m) : Knows totalWorkers dboid s' m := by
  cases m with
  | absent | idle => exact trivial
  | listed => exact ⟨h.settled hm.1, fun subid => h.lists hsubid (hm.2 subid)⟩
  | deciding _ _ found =>
    refine ⟨hm.nodup, h.settled hm.settled, fun sub hsub => h.lists hsubid (hm.lists sub hsub),
      fun f hf r hr => ?_, fun subid hsub => h.inactive (hm.inactive subid hsub)⟩
    obtain ⟨hold, hslot, -⟩ := h.active _ r hr
    rw [hslot]
    exact hm.found f hf r hold
  | starting => exact ⟨hm.1, fun subid hsub => h.ended (hm.2 subid hsub)⟩

end Quiet

/-! ## The steps of the manager -/

variable {subid : Nat} {m m' : Manager}

theorem slotFor_of_active (h : Registry.Inv s) (hs : Single totalWorkers dboid s) {r : Nat}
    (hr : Active dboid s subid r) : SlotFor totalWorkers dboid s subid (s.regs r).slot := by
  have hshows := (h.held r hr.1).shows
  refine ⟨hs.lt subid r hr, ?_, ?_, ?_⟩
  · exact hshows.workerType.trans (by rw [hr.2])
  · exact hshows.dboid.trans (by rw [hr.2])
  · exact hshows.subid.trans (by rw [hr.2])

theorem active_of_proc (h : Registry.Inv s) {i q : Nat} (hi : SlotFor totalWorkers dboid s subid i)
    (hq : (s.slots i).proc = some q) : Active dboid s subid q ∧ (s.regs q).slot = i := by
  obtain ⟨hattached, rfl⟩ := h.proc i q hq
  have hactive : (s.regs q).process ≠ .stopped := by rw [hattached]; nofun
  have hshows := (h.held q hactive).shows
  refine ⟨⟨hactive, ?_⟩, rfl⟩
  have htype := hshows.workerType.symm.trans hi.workerType
  have hdboid := hshows.dboid.symm.trans hi.dboid
  have hsubid := hshows.subid.symm.trans hi.subid
  cases hworker : (s.regs q).worker
  rw [hworker] at htype hdboid hsubid
  cases htype
  cases hdboid
  cases hsubid
  rfl

theorem proc_of_attached (h : Registry.Inv s) {r : Nat} (hr : (s.regs r).process = .attached) :
    (s.slots (s.regs r).slot).proc = some r := by
  have hproc := (h.held r (by rw [hr]; nofun)).shows.proc
  rw [if_pos hr] at hproc
  exact hproc

/-- **The list.** A manager that sees no worker that is starting sees all of them. -/
theorem knows_scan (h : Registry.Inv s) (hs : Single totalWorkers dboid s)
    (hscan : ∀ i < totalWorkers, (s.slots i).workerType = .apply → (s.slots i).dboid = dboid →
      (s.slots i).proc ≠ none ∨ (s.slots i).terminatedAt ≠ 0) :
    Knows totalWorkers dboid s (.listed (applyFindAll totalWorkers dboid s.slots)) := by
  refine ⟨⟨fun subid r hr => ?_, fun subid i hi => ?_⟩, fun subid r hr => ?_⟩
  · have hslot := slotFor_of_active h hs hr
    have hshows := (h.held r hr.1).shows
    rcases hscan _ hslot.lt hslot.workerType hslot.dboid with hproc | hterminated
    -- a worker that holds its slot and is not attached shows no process there
    · by_contra hnot
      exact hproc (hshows.proc.trans (if_neg hnot))
    · exact absurd hshows.running hterminated
  · rcases hscan i hi.lt hi.workerType hi.dboid with hproc | hterminated
    · obtain ⟨q, hq⟩ := ne_none_iff_exists'.mp hproc
      exact .inr ⟨q, active_of_proc h hi hq⟩
    · exact .inl hterminated
  · have hslot := slotFor_of_active h hs hr
    rw [applyFindAll, find?_filter, find?_range_eq_some]
    refine ⟨by simp [hslot.workerType, hslot.dboid, hslot.subid], mem_range.mpr hslot.lt,
      fun j hj => ?_⟩
    -- an earlier slot that shows the subscription would be the first
    by_contra hmatch
    simp only [Bool.and_eq_true, beq_iff_eq, Bool.not_eq_true', decide_eq_false_iff_not,
      not_not] at hmatch
    obtain ⟨⟨htype, hdboid⟩, hsubid⟩ := hmatch
    have hle := hs.first subid r j hr ⟨Nat.lt_trans hj hslot.lt, htype, hdboid, hsubid⟩
    omega

theorem knows_readSubscriptions {workers : List Nat} {subs : List Subscription}
    (hsubs : (subs.map (·.id)).Nodup) (hm : Knows totalWorkers dboid s (.listed workers)) :
    Knows totalWorkers dboid s (.deciding workers subs none []) :=
  ⟨hsubs, hm.1, fun sub _ => hm.2 sub.id, nofun, nofun⟩

theorem find?_eraseP {α : Type*} {p q : α → Bool} (hpq : ∀ a, p a = true → q a = false)
    (l : List α) : (l.eraseP p).find? q = l.find? q := by
  induction l with
  | nil => rfl
  | cons a _ ih =>
    cases hp : p a with
    | true => rw [eraseP_cons_of_pos hp, find?_cons, hpq a hp]
    | false => rw [eraseP_cons_of_neg (by simp [hp]), find?_cons, find?_cons, ih]

theorem knows_findWorker (hm : Knows totalWorkers dboid s m) (h : findWorker s.slots m = some m') :
    Knows totalWorkers dboid s m' := by
  unfold findWorker at h
  split at h
  · next sub todo start =>
    have hnodup := hm.nodup
    have hnext : sub.id ∉ todo.map (·.id) := by
      have htodo := (nodup_append.mp hnodup).2.1
      exact (nodup_cons.mp htodo).1
    split at h
    · cases h
      refine ⟨hnodup, hm.settled, fun sub' hsub' r hr => ?_, fun f hf r hr => ?_, hm.inactive⟩
      · rw [find?_eraseP]
        · exact hm.lists sub' (mem_cons_of_mem sub hsub') r hr
        · -- the two searches are for different subscriptions
          intro i hi
          have hne : sub.id ≠ sub'.id := fun heq => hnext (heq ▸ mem_map_of_mem hsub')
          rw [beq_iff_eq] at hi
          rw [beq_eq_false_iff_ne, hi]
          exact hne
      · cases hf
        exact hm.lists sub mem_cons_self r hr
    · cases h
      refine ⟨?_, hm.settled, fun sub' hsub' => hm.lists sub' (mem_cons_of_mem sub hsub'), nofun,
        hm.inactive⟩
      exact hnodup.sublist ((List.Sublist.refl start).append (sublist_cons_self _ _))
  · cases h

/-- **The decision.** A worker that is running is attached to the slot that was found. -/
theorem knows_judge (hinv : Registry.Inv s) {now : Nat} (hm : Knows totalWorkers dboid s m)
    (h : judge s.slots now m = some m') : Knows totalWorkers dboid s m' := by
  unfold judge at h
  split at h
  · next apply start =>
    cases h
    by_cases hskip : (running s.slots apply || delayed s.slots apply now) = true
    · rw [if_pos hskip]
      refine { hm with nodup := ?_, found := nofun }
      exact hm.nodup.sublist ((List.Sublist.refl start).append (sublist_cons_self _ _))
    · rw [if_neg hskip]
      refine ⟨?_, hm.settled, hm.lists, nofun, fun subid hsub r hr => ?_⟩
      · rw [append_assoc]
        exact hm.nodup
      · rcases mem_append.mp hsub with hold | hnew
        · exact hm.inactive subid hold r hr
        · rw [mem_singleton.mp hnew] at hr
          -- a worker of the subscription would be running in the slot that was found
          have hproc := proc_of_attached hinv (hm.settled.attached _ r hr)
          have hfound : apply = some (s.regs r).slot := hm.found _ rfl r hr
          simp [running, hfound, hproc] at hskip
  · cases h

theorem knows_decided (hm : Knows totalWorkers dboid s m) (h : decided m = some m') :
    Knows totalWorkers dboid s m' := by
  unfold decided at h
  split at h
  · next start =>
    cases h
    refine ⟨(nodup_append.mp hm.nodup).1, fun subid hsub => ⟨hm.inactive subid hsub, ?_⟩⟩
    intro i hi
    rcases hm.settled.marked subid i hi with hmarked | ⟨r, hr, -⟩
    · exact hmarked
    · exact absurd hr (hm.inactive subid hsub r)
  · cases h

theorem knows_made {regs : Nat → Registration} (hm : Knows totalWorkers dboid s m)
    (h : made regs m = some m') : Knows totalWorkers dboid s m' := by
  unfold made at h
  split at h
  · obtain ⟨-, rfl⟩ := of_guard h
    exact hm
  · cases h

theorem find_spec {slots : Nat → Slot} {i : Nat}
    (h : Registry.findEmptyWorkerSlot totalWorkers slots dboid = some i) :
    i < totalWorkers ∧ ∀ j, (slots j).isEmpty dboid = true → i ≤ j := by
  obtain ⟨-, hmem, hfirst⟩ := find?_range_eq_some.mp h
  refine ⟨mem_range.mp hmem, fun j hj => ?_⟩
  by_contra hlt
  have hnot := hfirst j (Nat.lt_of_not_le hlt)
  rw [hj] at hnot
  cases hnot

section Register

variable {delay i : Nat}

variable {subid' : Nat}

theorem active_register {r : Nat}
    (hr : Active dboid (s.register ⟨.apply, dboid, subid⟩ delay i) subid' r) :
    (r = s.next ∧ subid' = subid ∧
        ((s.register ⟨.apply, dboid, subid⟩ delay i).regs r).slot = i) ∨
      (Active dboid s subid' r ∧
        ((s.register ⟨.apply, dboid, subid⟩ delay i).regs r).slot = (s.regs r).slot) := by
  unfold Active at hr
  rcases update_cases (s.register_regs ⟨.apply, dboid, subid⟩ delay i) r with ⟨rfl, heq⟩ | ⟨-, heq⟩
  · rw [heq] at hr ⊢
    cases hr.2
    exact .inl ⟨rfl, rfl, rfl⟩
  · rw [heq] at hr ⊢
    exact .inr ⟨hr, rfl⟩

theorem slotFor_register {j : Nat}
    (hj : SlotFor totalWorkers dboid (s.register ⟨.apply, dboid, subid⟩ delay i) subid' j) :
    (j = i ∧ subid' = subid) ∨ (j ≠ i ∧ SlotFor totalWorkers dboid s subid' j) := by
  obtain ⟨hlt, htype, hdboid, hsubid⟩ := hj
  rcases update_cases (s.register_slots ⟨.apply, dboid, subid⟩ delay i) j with ⟨rfl, heq⟩ | ⟨hne, heq⟩
  · rw [heq] at hsubid
    exact .inl ⟨rfl, hsubid.symm⟩
  · rw [heq] at htype hdboid hsubid
    exact .inr ⟨hne, hlt, htype, hdboid, hsubid⟩

/-- **A new worker is the only one.** It is put before everything that is left of others. -/
theorem single_register (hs : Single totalWorkers dboid s) (hended : Ended totalWorkers dboid s subid)
    (hfind : Registry.findEmptyWorkerSlot totalWorkers s.slots dboid = some i) :
    Single totalWorkers dboid (s.register ⟨.apply, dboid, subid⟩ delay i) := by
  obtain ⟨hlt, hfirst⟩ := find_spec hfind
  refine ⟨fun subid' r hr => ?_, fun subid' r r' hr hr' => ?_, fun subid' r j hr hj => ?_⟩
  · rcases active_register hr with ⟨-, -, hslot⟩ | ⟨hold, hslot⟩
    · rw [hslot]
      exact hlt
    · rw [hslot]
      exact hs.lt subid' r hold
  -- the subscription had no worker, so a second one is never the new one
  · rcases active_register hr with ⟨rfl, rfl, -⟩ | ⟨hold, -⟩ <;>
      rcases active_register hr' with ⟨rfl, heq, -⟩ | ⟨hold', -⟩
    · rfl
    · exact absurd hold' (hended.inactive r')
    · exact absurd (heq ▸ hold) (hended.inactive r)
    · exact hs.unique subid' r r' hold hold'
  · rcases active_register hr with ⟨-, rfl, hslot⟩ | ⟨hold, hslot⟩ <;>
      rcases slotFor_register hj with ⟨rfl, heq⟩ | ⟨-, hj⟩
    · exact Nat.le_of_eq hslot
    · -- what is left of another worker for the subscription is empty
      rw [hslot]
      refine hfirst j ?_
      simp [Slot.isEmpty, hended.marked j hj, hj.dboid]
    · exact absurd (heq ▸ hold) (hended.inactive r)
    · rw [hslot]
      exact hs.first subid' r j hold hj

theorem ended_register (hne : subid' ≠ subid) (h : Ended totalWorkers dboid s subid') :
    Ended totalWorkers dboid (s.register ⟨.apply, dboid, subid⟩ delay i) subid' where
  inactive r hr := by
    rcases active_register hr with ⟨-, heq, -⟩ | ⟨hold, -⟩
    · exact hne heq
    · exact h.inactive r hold
  marked j hj := by
    rcases slotFor_register hj with ⟨-, heq⟩ | ⟨hji, hold⟩
    · exact absurd heq hne
    · rw [s.register_slots, update_of_ne hji]
      exact h.marked j hold

end Register

theorem inv_cleanSlots (h : Registry.Inv s) (hs : Single totalWorkers dboid s) (workers : List Nat) :
    Registry.Inv (workers.foldl cleanSlot s) ∧
      Single totalWorkers dboid (workers.foldl cleanSlot s) := by
  induction workers generalizing s with
  | nil => exact ⟨h, hs⟩
  | cons i _ ih =>
    rw [foldl_cons, cleanSlot]
    split
    · next hterminated => exact ih (Registry.inv_clean h hterminated) ((quiet_clean s i).single hs)
    · exact ih h hs

end Invariant

/-! ## The runs -/

section Runs

variable (totalWorkers dboid : Nat)

structure Inv (s : State) : Prop where
  registry : Registry.Inv s.reg
  single : Single totalWorkers dboid s.reg
  subscriptions : (s.subscriptions.map (·.id)).Nodup
  knows : Knows totalWorkers dboid s.reg s.manager

/-- The conditions of the slots, and two of the manager: when it lists the workers, each slot with
an apply worker of the database has a process or is marked as terminated; and no slot that it has
listed and not yet found is given out. -/
def Careful (s : State) : Event → Prop
  | .registry e => Registry.Careful totalWorkers s.reg e ∧
    ∀ i ∈ taken totalWorkers s.reg e, i ∉ s.manager.searched
  | .scan => ∀ i < totalWorkers, (s.reg.slots i).workerType = .apply →
    (s.reg.slots i).dboid = dboid → (s.reg.slots i).proc ≠ none ∨ (s.reg.slots i).terminatedAt ≠ 0
  | .registerNext delay => ∀ next ∈ nextToStart s.manager,
    Registry.Careful totalWorkers s.reg (.register ⟨.apply, dboid, next.subid⟩ delay)
  | .createSubscription _ _ | .setEnabled _ _ | .dropSubscription _ | .startManager | .exitManager
  | .readSubscriptions | .findWorker | .judge _ | .decided | .made | .cleanUp => True

instance (s : State) (e : Event) : Decidable (Careful totalWorkers dboid s e) := by
  cases e <;> unfold Careful <;> infer_instance

variable {totalWorkers dboid} {s s' : State}

theorem inv_start : Inv totalWorkers dboid .start :=
  ⟨Registry.inv_start, ⟨fun _ _ hr => absurd rfl hr.1, fun _ _ _ hr => absurd rfl hr.1,
    fun _ _ _ hr => absurd rfl hr.1⟩, nodup_nil, trivial⟩

theorem inv_manager (h : Inv totalWorkers dboid s) {m : Manager}
    (hm : Knows totalWorkers dboid s.reg m) : Inv totalWorkers dboid { s with manager := m } :=
  { h with knows := hm }

theorem inv_registry (h : Inv totalWorkers dboid s) {e : Registry.Event}
    (hcareful : Careful totalWorkers dboid s (.registry e))
    (hstep : step totalWorkers dboid s (.registry e) = some s') : Inv totalWorkers dboid s' := by
  obtain ⟨hother, hstep⟩ := ite_none_right_eq_some.mp hstep
  obtain ⟨reg, hreg, rfl⟩ := map_eq_some_iff.mp hstep
  have hquiet := quiet_step h.registry hother hreg
  refine ⟨Registry.inv_step h.registry hcareful.1 hreg, hquiet.single h.single, h.subscriptions, ?_⟩
  have hknows : Knows totalWorkers dboid reg s.manager :=
    hquiet.knows (fun i hi => subid_step hreg fun htaken => hcareful.2 i htaken hi) h.knows
  -- a manager whose registration fails exits, and the next one knows nothing
  show Knows totalWorkers dboid reg (if _ then _ else _)
  split
  · exact trivial
  · exact hknows

theorem inv_registerNext (h : Inv totalWorkers dboid s) {delay : Nat}
    (hcareful : Careful totalWorkers dboid s (.registerNext delay))
    (hstep : step totalWorkers dboid s (.registerNext delay) = some s') :
    Inv totalWorkers dboid s' := by
  obtain ⟨next, hnext, hstep⟩ := bind_eq_some_iff.mp hstep
  obtain ⟨_, hreg, rfl⟩ := map_eq_some_iff.mp hstep
  have hinv := Registry.inv_step h.registry (hcareful next hnext) hreg
  obtain ⟨-, i, hfind, rfl⟩ := Registry.step_register hreg
  have hknows := h.knows
  unfold nextToStart at hnext
  split at hnext
  · next subid start heq =>
    cases hnext
    rw [heq] at hknows
    obtain ⟨hnodup, hended⟩ := hknows
    obtain ⟨hnotin, hnodup⟩ := nodup_cons.mp hnodup
    refine ⟨hinv, single_register h.single (hended subid mem_cons_self) hfind, h.subscriptions,
      hnodup, fun subid' hsubid' => ?_⟩
    have hne : subid' ≠ subid := fun heq => hnotin (heq ▸ hsubid')
    exact ended_register hne (hended subid' (mem_cons_of_mem subid hsubid'))
  · cases hnext

/-- **One step.** -/
theorem inv_step {e : Event} (h : Inv totalWorkers dboid s)
    (hcareful : Careful totalWorkers dboid s e) (hstep : step totalWorkers dboid s e = some s') :
    Inv totalWorkers dboid s' := by
  cases e with
  | registry => exact inv_registry h hcareful hstep
  | registerNext => exact inv_registerNext h hcareful hstep
  | createSubscription id =>
    obtain ⟨hfresh, rfl⟩ := of_guard hstep
    refine { h with subscriptions := ?_ }
    rw [map_append]
    refine nodup_append.mpr ⟨h.subscriptions, nodup_singleton id, fun a ha b hb heq => ?_⟩
    rw [heq, mem_singleton.mp hb] at ha
    exact hfresh ha
  | setEnabled =>
    cases hstep
    refine { h with subscriptions := ?_ }
    show ((s.subscriptions.map _).map _).Nodup
    -- the ids are not touched
    rw [List.map_map]
    exact h.subscriptions
  | dropSubscription =>
    cases hstep
    exact { h with subscriptions := h.subscriptions.sublist (filter_sublist.map _) }
  | startManager | exitManager =>
    obtain ⟨-, rfl⟩ := of_guard hstep
    exact inv_manager h trivial
  | scan =>
    obtain ⟨-, rfl⟩ := of_guard hstep
    exact inv_manager h (knows_scan h.registry h.single hcareful)
  | readSubscriptions =>
    simp only [step] at hstep
    split at hstep
    · next heq =>
      cases hstep
      exact inv_manager h (knows_readSubscriptions h.subscriptions (heq ▸ h.knows))
    · cases hstep
  | findWorker =>
    obtain ⟨m, hm, rfl⟩ := map_eq_some_iff.mp hstep
    exact inv_manager h (knows_findWorker h.knows hm)
  | judge =>
    obtain ⟨m, hm, rfl⟩ := map_eq_some_iff.mp hstep
    exact inv_manager h (knows_judge h.registry h.knows hm)
  | decided =>
    obtain ⟨m, hm, rfl⟩ := map_eq_some_iff.mp hstep
    exact inv_manager h (knows_decided h.knows hm)
  | made =>
    obtain ⟨m, hm, rfl⟩ := map_eq_some_iff.mp hstep
    exact inv_manager h (knows_made h.knows hm)
  | cleanUp =>
    obtain ⟨workers, -, rfl⟩ := map_eq_some_iff.mp hstep
    obtain ⟨hinv, hsingle⟩ := inv_cleanSlots h.registry h.single workers
    exact ⟨hinv, hsingle, h.subscriptions, trivial⟩

/-- **One apply worker for a subscription.** Whatever the manager, its successors, the workers and
all other processes do and in whatever order, as long as each step is `Careful`: no two apply
workers of the database are attached for the same subscription. -/
theorem apply_unique {es : List Event}
    (hcareful : Along (step totalWorkers dboid) (Careful totalWorkers dboid) .start es)
    (hrun : run (step totalWorkers dboid) .start es = some s) :
    ∀ subid r r', (s.reg.regs r).process = .attached → (s.reg.regs r').process = .attached →
      (s.reg.regs r).worker = ⟨.apply, dboid, subid⟩ →
      (s.reg.regs r').worker = ⟨.apply, dboid, subid⟩ → r = r' := by
  have hinv := run_invariant_along (fun _ _ _ => inv_step) inv_start hcareful hrun
  intro subid r r' hr hr' hworker hworker'
  exact hinv.single.unique subid r r' ⟨by rw [hr]; nofun, hworker⟩ ⟨by rw [hr']; nofun, hworker'⟩

/-- One call of `manage_apply_workers` up to the registrations, for `n` subscriptions. -/
def deciding (n : Nat) : List Event := flatten
  [[.scan, .readSubscriptions], (List.replicate n [.findWorker, .judge 500]).flatten, [.decided]]

/-- A registration whose worker starts while the manager waits for it. -/
def starting (r : Nat) : List Event :=
  [.registerNext 10, .registry (.launch r), .registry (.beginWait r), .registry (.attach r),
    .registry (.seeRunning r), .made]

/-- The manager is replaced while its worker is starting; the worker attaches before the next
manager lists the workers, crashes, and is started again after the delay. -/
def carefulRun : List Event := flatten
  [[.createSubscription 5 true, .startManager], deciding 1, [.registerNext 10,
      .registry (.launch 0), .registry (.leave 0), .startManager, .registry (.attach 0)],
    deciding 1, [.cleanUp, .registry (.setRestartDelay 0 0), .registry (.detach 0 true 100)],
    deciding 1, starting 1]

theorem apply_unique_carefulRun :
    ∃ s, run (step 2 1) .start carefulRun = some s ∧ (s.reg.regs 1).process = .attached ∧
      (s.reg.regs 1).worker = ⟨.apply, 1, 5⟩ ∧
      ∀ subid r r', (s.reg.regs r).process = .attached → (s.reg.regs r').process = .attached →
        (s.reg.regs r).worker = ⟨.apply, 1, subid⟩ →
        (s.reg.regs r').worker = ⟨.apply, 1, subid⟩ → r = r' := by
  have hcareful : Along (step 2 1) (Careful 2 1) .start carefulRun := by decide +kernel
  exact ⟨_, rfl, rfl, rfl, apply_unique hcareful rfl⟩

end Runs

/-! ## What goes wrong otherwise -/

/-- The apply workers of database 1 that are attached for subscription 5. -/
def attachedFor5 (es : List Event) : Option (List Nat) :=
  (run (step 4 1) .start es).map fun s => (List.range s.reg.next).filter fun r =>
    (s.reg.regs r).process == .attached && (s.reg.regs r).worker == ⟨.apply, 1, 5⟩

/-- The manager exits while it waits for worker 0, and another takes its place. -/
def replaced : List Event := flatten
  [[.createSubscription 5 true, .startManager], deciding 1, [.registerNext 10,
      .registry (.launch 0), .registry (.beginWait 0), .registry (.leave 0), .startManager]]

/-- Workers 0 and 1 run for subscriptions 6 and 5; worker 0 crashes. The manager has listed both
slots when worker 1 registers a sync worker, which is given the slot of worker 0. -/
def slotReused : List Event := flatten
  [[.createSubscription 6 true, .createSubscription 5 true, .startManager], deciding 2, starting 0,
    starting 1, [.cleanUp, .registry (.detach 0 true 100), .scan, .readSubscriptions,
      .registry (.register ⟨.sync, 1, 5⟩ 10), .findWorker, .judge 500, .findWorker, .judge 500,
      .decided]]

/-- **Two apply workers.** The worker that the first manager has registered attaches after the
second has found its slot without a process, and registered another. If the worker never attaches,
nobody marks its slot, which then hides the worker that does run from every later manager. And a
sync worker in a slot that was listed before hides it as well. -/
theorem apply_not_unique :
    attachedFor5 (replaced ++ deciding 1 ++ starting 1 ++ ([.registry (.attach 0)] : List Event)) =
        some [0, 1] ∧
      attachedFor5 (replaced ++ ([.registry (.stopEarly 0)] : List Event) ++ deciding 1 ++
        starting 1 ++ ([.cleanUp] : List Event) ++ deciding 1 ++ starting 2) = some [1, 2] ∧
      attachedFor5 (slotReused ++ starting 3 ++ starting 4) = some [1, 4] := by
  decide +kernel

end Spock.ApplyManager
