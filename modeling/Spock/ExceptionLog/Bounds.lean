import Mathlib.Data.List.Nodup
import Mathlib.Data.List.Perm.Subperm
import Spock.ExceptionLog.Entries

/-!
# Spock — the bounds of the exception log array

`my_exception_log_index` is `-1` until the first BEGIN has found or taken an entry. Entries are not
given back when a subscription is dropped, so what counts is how many names there have ever been,
and not how many subscriptions there are.

* **`index_in_range`** — with room for every name there has been, no error before the first BEGIN,
  and nothing in the memory behind the array that looks like an entry, every first BEGIN ends at an
  entry of the array, and so does every access.
-/

namespace Spock.ExceptionLog

open Runs List Option

/-! ## The condition -/

/-- A new name fits in the array; what the second search finds, the first one having missed it, comes
after a free entry; and an error comes to a worker that has an entry. -/
def Fits (s : State) : Event → Prop
  | .createSub name => name ∈ s.names ∨ s.names.length < s.total
  | .act w .lock => ∀ p ∈ s.workers[w]?, (s.search p.name).1 = none ∨ (s.search p.name).2 ≠ none
  | .act w (.fail _ _) => ∀ p ∈ s.workers[w]?, p.index ≠ none
  | _ => True

instance (s : State) (e : Event) : Decidable (Fits s e) := by
  unfold Fits
  split <;> infer_instance

/-- And the memory behind the array does not look like the entry of a subscription. -/
def Roomy (s : State) (e : Event) : Prop :=
  (∀ n ∈ s.names, ¬(s.entries s.total).isFor n) ∧ Fits s e
  deriving Decidable

/-! ## The invariant -/

/-- There is room for every name, and every index that has been used is one of the array. -/
structure Within (total : Nat) (s : State) : Prop where
  size : s.total = total
  filled : Filled s
  room : s.names.length ≤ s.total
  inArray : s.InArray
  placed : ∀ p ∈ s.workers, p.Placed s.total
  calm : s.exhausted = false
  inRange : ∀ a ∈ s.accesses, ∃ i < s.total, a = some i

theorem within_init (total : Nat) (behind : Entry) : Within total (State.init total behind) where
  size := rfl
  filled := filled_init total behind
  room := Nat.zero_le total
  inArray := nofun
  placed := nofun
  calm := rfl
  inRange := nofun

/-- **A free entry.** A name that is in no entry leaves one of them free: the others have different
names. -/
theorem Within.exists_free {total : Nat} {s : State} (h : Within total s) {name : String}
    (hname : name ∈ s.names) {r : Option Nat} (hsearch : s.search name = (none, r)) :
    ∃ i < s.total, (s.entries i).slotName = "" := by
  by_contra! hfull
  let slotNames := (List.range s.total).map fun i => (s.entries i).slotName
  have hapart : slotNames.Nodup :=
    List.Nodup.map_on (fun i hi j hj => h.filled.apart i (mem_range.mp hi) j
      (mem_range.mp hj) (hfull i (mem_range.mp hi))) nodup_range
  have hother : slotNames ⊆ s.names.erase name := by
    intro n hn
    obtain ⟨i, hi, rfl⟩ := mem_map.mp hn
    have hi := mem_range.mp hi
    refine (mem_erase_of_ne ?_).mpr (h.filled.named i hi (hfull i hi))
    rintro rfl
    have hfor := State.not_isFor_of_search hsearch hi.le
    rw [isFor_self] at hfor
    cases hfor
  have hle := (subperm_of_subset hapart hother).length_le
  rw [length_map, length_range, length_erase_of_mem hname] at hle
  have hpos := length_pos_of_mem hname
  have hroom := h.room
  omega

section effect

variable {total : Nat} {s t : State} {w : Nat} {p q : Worker} {a : Action}

theorem Effect.exhausted_eq (he : Effect s w p a t q) (h : Within total s) (hp : p ∈ s.workers)
    (hlock : a = .lock → (s.search p.name).1 = none ∨ (s.search p.name).2 ≠ none) :
    t.exhausted = s.exhausted := by
  cases he with
  | raises ha hfree =>
    have hnone := (hlock ha).resolve_right (not_not.mpr hfree)
    have hsearch : s.search p.name = (none, none) := Prod.ext hnone hfree
    obtain ⟨_, _, heq⟩ :=
      State.lt_total_of_search hsearch (h.exists_free (h.filled.known p hp) hsearch)
    cases heq
  | @uses _ f => exact (s.access_frame w p f).2.2.2.2
  | _ => rfl

theorem Effect.accesses_eq (he : Effect s w p a t q) (hp : p.Placed s.total)
    (hfail : ∀ error action, a = .fail error action → p.index ≠ none) :
    t.accesses = s.accesses ∨ ∃ i, q.index = some i ∧ t.accesses = s.accesses ++ [some i] := by
  cases he with
  | fills _ _ hindex => exact .inr ⟨_, hindex, rfl⟩
  | uses hbegun _ hsame =>
    have hne : p.index ≠ none := by
      rcases hbegun with hbegun | ⟨error, action, rfl⟩
      · exact hp.indexed hbegun
      · exact hfail error action rfl
    obtain ⟨i, hi⟩ := ne_none_iff_exists'.mp hne
    exact .inr ⟨i, hsame.trans hi, by simp only [State.access, hi, State.write]⟩
  | _ => exact .inl rfl

end effect

theorem within_act {total : Nat} {s s' : State} {w : Nat} {a : Action} (h : Within total s)
    (hroomy : Roomy s (.act w a)) (hstep : step s (.act w a) = some s') : Within total s' := by
  have hfilled := filled_step h.filled hstep
  obtain ⟨p, hp, -, hact⟩ := act_of_step hstep
  obtain ⟨t, q, rfl, he, -, hplaced⟩ := act_effect hact
  have hmem := mem_of_getElem? hp
  obtain ⟨hnames, hworkers, htotal⟩ := he.frame
  have hlock : a = .lock → (s.search p.name).1 = none ∨ (s.search p.name).2 ≠ none := by
    rintro rfl
    exact hroomy.2 p hp
  have hfail : ∀ error action, a = .fail error action → p.index ≠ none := by
    rintro error action rfl
    exact hroomy.2 p hp
  have hname := h.filled.known p hmem
  have hindex : ∀ i, q.index = some i → i < s.total := fun i =>
    he.index_lt (h.inArray p hmem) (h.placed p hmem) (fun _ => hroomy.1 p.name hname) fun _ hsearch => by
      obtain ⟨_, hlt, heq⟩ := State.lt_total_of_search hsearch (h.exists_free hname hsearch)
      exact hlt.ne (Option.some.inj heq).symm
  refine ⟨htotal.trans h.size, hfilled, ?_, fun r hr i hi => ?_, fun r hr => ?_, ?_, fun b hb => ?_⟩
  · show t.names.length ≤ t.total
    rw [hnames, htotal]
    exact h.room
  · show i < t.total
    rw [htotal]
    rcases mem_or_eq_of_mem_set hr with hr | rfl
    · exact h.inArray r (hworkers ▸ hr) i hi
    · exact hindex i hi
  · show r.Placed t.total
    rw [htotal]
    rcases mem_or_eq_of_mem_set hr with hr | rfl
    · exact h.placed r (hworkers ▸ hr)
    · exact hplaced (h.placed p hmem)
  · exact (he.exhausted_eq h hmem hlock).trans h.calm
  · show ∃ i < t.total, b = some i
    rw [htotal]
    rcases he.accesses_eq (h.placed p hmem) hfail with hsame | ⟨i, hi, hadd⟩
    · exact h.inRange b (hsame ▸ hb)
    · rcases mem_append.mp (hadd ▸ hb : b ∈ s.accesses ++ [some i]) with hb | hb
      · exact h.inRange b hb
      · exact ⟨i, hindex i hi, mem_singleton.mp hb⟩

theorem within_step {total : Nat} {s s' : State} {e : Event} (h : Within total s)
    (hroomy : Roomy s e) (hstep : step s e = some s') : Within total s' := by
  have hfilled := filled_step h.filled hstep
  cases e with
  | createSub name =>
    obtain ⟨-, heq⟩ := ite_none_left_eq_some.mp hstep
    cases heq
    refine { h with filled := hfilled, room := ?_ }
    show (if name ∈ s.names then s.names else name :: s.names).length ≤ s.total
    split
    · exact h.room
    · rename_i hnew
      exact hroomy.2.resolve_left hnew
  | dropSub | behind =>
    cases hstep
    exact { h with filled := hfilled }
  | start =>
    obtain ⟨-, rfl⟩ := of_guard hstep
    refine ⟨h.size, hfilled, h.room, fun p hp i hi => ?_, fun p hp => ?_, h.calm, h.inRange⟩
    · rcases mem_append.mp hp with hp | hp
      · exact h.inArray p hp i hi
      · rw [mem_singleton.mp hp] at hi
        cases hi
    · rcases mem_append.mp hp with hp | hp
      · exact h.placed p hp
      · rw [mem_singleton.mp hp]
        exact .idle rfl nofun
  | act => exact within_act h hroomy hstep

/-! ## Runs -/

/-- **Indexes in range.** Whatever subscriptions come and go, and however their workers take turns,
as long as there is room: no first BEGIN raises an error for want of an entry, every worker that has
begun has an entry of the array, and every access is to one. -/
theorem index_in_range {total : Nat} {behind : Entry} {events : List Event} {s : State}
    (hroomy : Along step Roomy (State.init total behind) events)
    (hrun : run step (State.init total behind) events = some s) :
    s.exhausted = false ∧ (∀ p ∈ s.workers, p.begun → ∃ i < total, p.index = some i) ∧
      ∀ a ∈ s.accesses, ∃ i < total, a = some i := by
  have hwithin : Within total s :=
    run_invariant_along (fun _ _ _ => within_step) (within_init total behind) hroomy hrun
  refine ⟨hwithin.calm, fun p hp hbegun => ?_, hwithin.size ▸ hwithin.inRange⟩
  obtain ⟨i, hi⟩ := ne_none_iff_exists'.mp ((hwithin.placed p hp).indexed hbegun)
  exact ⟨i, hwithin.size ▸ hwithin.inArray p hp i hi, hi⟩

def otherStruct : Entry := ⟨⟨"spock channel stats hash", 1, none, 0⟩, none, none⟩

def startupError : ErrorData :=
  elogError "SPOCK sub: Expected startup message version 1, but got 2"

def missingRelation : ErrorData := elogError "Spock can't find relation with oid 16384"

/-- The first BEGIN of a worker that has no entry yet, in an array of one. -/
def onlyBegin (w commitLsn : Nat) : List Event :=
  [.act w (.begin commitLsn), .act w .look, .act w .look, .act w .lock]

def roomyEvents : List Event := flatten
  [[.createSub "sub", .start "sub"], onlyBegin 0 70, [.act 0 .enter,
      .act 0 (.fail missingRelation 2), .act 0 .exit, .dropSub "sub", .createSub "sub",
      .start "sub", .act 1 (.begin 70), .act 1 .look, .act 1 .enter]]

theorem index_in_range_roomyEvents :
    ∃ s, run step (State.init 1 otherStruct) roomyEvents = some s ∧ s.exhausted = false ∧
      (∀ p ∈ s.workers, p.begun → ∃ i < 1, p.index = some i) ∧
      ∀ a ∈ s.accesses, ∃ i < 1, a = some i := by
  have hroomy : Along step Roomy (State.init 1 otherStruct) roomyEvents := by decide +kernel
  have hends : (run step (State.init 1 otherStruct) roomyEvents).isSome := by decide +kernel
  obtain ⟨s, hrun⟩ := Option.isSome_iff_exists.mp hends
  exact ⟨s, hrun, index_in_range hroomy hrun⟩

def replacedEvents : List Event := flatten
  [[.createSub "old", .start "old"], onlyBegin 0 70, [.act 0 .enter, .act 0 .exit, .dropSub "old",
      .createSub "new", .start "new"], onlyBegin 1 80]

def earlyErrorEvents : List Event :=
  [.createSub "sub", .start "sub", .act 0 (.fail startupError 0)]

def racingEvents : List Event :=
  [.createSub "sub", .start "sub", .start "sub", .act 0 (.begin 70), .act 0 .look, .act 0 .look,
    .act 1 (.begin 90), .act 1 .look, .act 1 .look, .act 0 .lock, .act 1 .lock]

/-- As many subscriptions as the array has entries, at most, at every moment. -/
def FewSubs (s : State) (_ : Event) : Prop := s.subs.length ≤ s.total

instance (s : State) (e : Event) : Decidable (FewSubs s e) := by unfold FewSubs; infer_instance

/-- **Indexes out of range**, with one subscription at a time and an array of one entry. The entry
of the dropped subscription is not free: the new one finds none, or the memory behind the array. An
error before the first BEGIN is written to the entry `-1`. And a worker whose entry has just been
made is told that there is no free one. -/
theorem index_out_of_range :
    (Along step FewSubs (State.init 1 otherStruct) replacedEvents ∧
      (run step (State.init 1 otherStruct) replacedEvents).map (·.exhausted) = some true) ∧
    (Along step FewSubs (State.init 1 Entry.empty) replacedEvents ∧
      (run step (State.init 1 Entry.empty) replacedEvents).map (·.accesses) =
        some [some 0, some 0, some 1]) ∧
    (Along step FewSubs (State.init 1 otherStruct) earlyErrorEvents ∧
      (run step (State.init 1 otherStruct) earlyErrorEvents).map (·.accesses) = some [none]) ∧
    (Along step FewSubs (State.init 1 otherStruct) racingEvents ∧
      (run step (State.init 1 otherStruct) racingEvents).map (·.exhausted) = some true) := by
  decide +kernel

end Spock.ExceptionLog
