import Spock.ExceptionLog.Entries

/-!
# Spock — whose entry of the exception log it is

An entry is found by a comparison of as many characters as the worker's own subscription name has. A
worker therefore takes any entry whose name begins with its own, and every worker of a subscription,
apply or sync, takes the same one. It then enters exception handling if that entry has the LSN of
its first transaction, and writes over what the entry says.

* **`entries_exclusive`** — as long as no name begins with another one and a subscription has one
  worker at a time, each worker that runs is alone at its entry, and none comes upon what another
  one has recorded.
-/

namespace Spock.ExceptionLog

open Runs List Option Function

/-! ## The condition -/

def overlaps (m n : String) : Prop :=
  m.toList.isPrefixOf n.toList ∨ n.toList.isPrefixOf m.toList

instance (m n : String) : Decidable (overlaps m n) := by unfold overlaps; infer_instance

/-- The memory behind the array is no entry for the worker: it does not begin with the worker's name,
and if it is taken for a free entry, one of the array is free or the worker's. -/
def State.Guarded (s : State) (p : Worker) : Prop :=
  ¬ (s.entries s.total).isFor p.name ∧ ((s.entries s.total).slotName = "" →
    ∃ i ∈ List.range s.total, (s.entries i).slotName = "" ∨ (s.entries i).isFor p.name)
  deriving Decidable

/-- A new name does not begin with one there has been, nor the other way; a worker starts when its
subscription has no other one; and a worker that searches is guarded. -/
def Separate (s : State) : Event → Prop
  | .createSub name => name ≠ "" ∧ ∀ n ∈ s.names, overlaps n name → n = name
  | .start name => ∀ p ∈ s.workers, p.live → p.name ≠ name
  | .act w .look | .act w .lock => ∀ p ∈ s.workers[w]?, s.Guarded p
  | _ => True

instance (s : State) : ∀ e, Decidable (Separate s e)
  | .createSub _ | .start _ | .act _ .look | .act _ .lock => by unfold Separate; infer_instance
  | .dropSub _ | .behind _ | .act _ (.begin _) | .act _ .enter | .act _ (.storeTuple _)
  | .act _ .clear | .act _ (.fail _ _) | .act _ .exit => .isTrue trivial

/-! ## The invariant -/

/-- Worker `w` runs, and is `p`. -/
def State.Running (s : State) (w : Nat) (p : Worker) : Prop :=
  s.workers[w]? = some p ∧ p.live

def State.Exclusive (s : State) : Prop :=
  ∀ w w' p p', s.Running w p → s.Running w' p' → ∀ i, p.index = some i → p'.index = some i → w = w'

/-- Every worker's entry has its name, and the workers that run have different names. What one of
them has written is in its own entry. -/
structure Owned (s : State) : Prop where
  filled : Filled s
  inArray : s.InArray
  placed : ∀ p ∈ s.workers, p.Placed s.total
  nonempty : ∀ n ∈ s.names, n ≠ ""
  free : ∀ m ∈ s.names, ∀ n ∈ s.names, overlaps m n → m = n
  alone : ∀ w w' p p', s.Running w p → s.Running w' p' → p.name = p'.name → w = w'
  owner : ∀ p ∈ s.workers, ∀ i, p.index = some i → (s.entries i).slotName = p.name
  started : ∀ i < s.total, ∀ a, (s.entries i).author = some a → a < s.workers.length
  author : ∀ i < s.total, ∀ a, (s.entries i).author = some a → ∀ p, s.Running a p → p.index = some i
  quiet : s.intrusions = []

theorem owned_init (total : Nat) (behind : Entry) : Owned (State.init total behind) where
  filled := filled_init total behind
  inArray := nofun
  placed := nofun
  nonempty := nofun
  free := nofun
  alone _ _ _ _ hp := nomatch hp.1
  owner := nofun
  started _ hi _ ha := nomatch (congrArg (·.author) (init_entries behind hi)).symm.trans ha
  author _ _ _ _ _ hp := nomatch hp.1
  quiet := rfl

variable {s s' : State} {w : Nat} {name : String}

theorem State.Running.mem {p : Worker} (h : s.Running w p) : p ∈ s.workers :=
  mem_of_getElem? h.1

theorem running_setWorker {t : State} {v : Nat} {q r : Worker} (hworkers : t.workers = s.workers)
    (h : (t.setWorker w q).Running v r) :
    v = w ∧ r = q ∨ v ≠ w ∧ s.Running v r := by
  obtain ⟨hget, hlive⟩ := h
  rw [State.setWorker, hworkers] at hget
  by_cases hv : v = w
  · subst hv
    rw [getElem?_set_self'] at hget
    obtain ⟨_, _, heq⟩ := map_eq_some_iff.mp hget
    exact .inl ⟨rfl, heq.symm⟩
  · rw [getElem?_set_ne (Ne.symm hv)] at hget
    exact .inr ⟨hv, hget, hlive⟩

namespace Owned

variable (h : Owned s)

include h

theorem exclusive : s.Exclusive := by
  intro w w' p p' hp hp' i hi hi'
  have hname := h.owner p hp.mem i hi
  have hname' := h.owner p' hp'.mem i hi'
  exact h.alone w w' p p' hp hp' (hname.symm.trans hname')

variable {p : Worker}

theorem name_ne (hp : p ∈ s.workers) : p.name ≠ "" :=
  h.nonempty p.name (h.filled.known p hp)

theorem slotName_of_isFor (hp : p ∈ s.workers) {i : Nat} (hi : i < s.total)
    (hfor : (s.entries i).isFor p.name) : (s.entries i).slotName = p.name := by
  have hne : (s.entries i).slotName ≠ "" := by
    intro hempty
    rw [SpockExceptionLog.isFor, hempty] at hfor
    exact h.name_ne hp (by simpa using hfor)
  exact (h.free p.name (h.filled.known p hp) _ (h.filled.named i hi hne) (.inl hfor)).symm

theorem intrusion_eq_nil {w : Nat} (hp : s.Running w p) {i : Nat} (hi : i < s.total)
    (hat : (s.entries i).slotName = "" ∨ (s.entries i).slotName = p.name) :
    s.intrusion w i = [] := by
  unfold State.intrusion
  rw [map_eq_nil_iff, toList_eq_nil_iff, filter_eq_none_iff]
  intro a hauthor hother
  obtain ⟨hne, hlive⟩ := (Bool.and_eq_true _ _).mp hother
  obtain ⟨r, hr, hrlive⟩ := (any_eq_true _ _).mp hlive
  have hrun : s.Running a r := ⟨hr, hrlive⟩
  have hname := h.owner r hrun.mem i (h.author i hi a hauthor r hrun)
  rcases hat with hempty | hown
  · exact h.name_ne hrun.mem (hname.symm.trans hempty)
  · exact bne_iff_ne.mp hne (h.alone a w r p hrun hp (hname.symm.trans hown))

end Owned

/-! ## Steps -/

section effect

variable {t : State} {p q : Worker} {a : Action}

variable {i : Nat}

section

variable (he : Effect s w p a t q)

include he

theorem Effect.slotName_eq (hne : (s.entries i).slotName ≠ "") :
    (t.entries i).slotName = (s.entries i).slotName := by
  cases he with
  | fills _ hsearch =>
    rw [State.fill_slotName, if_neg]
    rintro rfl
    exact hne (State.free_of_search hsearch).2
  | uses _ hname => exact s.access_slotName w p hname i
  | _ => rfl

theorem Effect.slotName_index (h : Owned s) (hp : p ∈ s.workers)
    (hi : i < s.total) (hindex : q.index = some i) : (t.entries i).slotName = p.name := by
  cases he with
  | stays hsame => exact h.owner p hp i (hsame ▸ hindex)
  | finds _ hfor hfound =>
    cases hindex.symm.trans hfound
    exact h.slotName_of_isFor hp hi hfor
  | fills _ _ hfound =>
    cases hindex.symm.trans hfound
    rw [State.fill_slotName, if_pos rfl]
  | uses _ hname hsame =>
    rw [s.access_slotName w p hname i]
    exact h.owner p hp i (hsame ▸ hindex)
  | raises _ _ hsame =>
    rcases or_eq_some_iff.mp (hsame.symm.trans hindex) with hfound | ⟨-, hindex⟩
    · exact h.slotName_of_isFor hp hi (State.search_found hfound).2
    · exact h.owner p hp i hindex

theorem Effect.index_ne_none (hne : p.index ≠ none) : q.index ≠ none := by
  cases he with
  | stays hsame | uses _ _ hsame => rwa [hsame]
  | finds _ _ hfound | fills _ _ hfound => simp [hfound]
  | raises _ _ hsame =>
    rw [hsame]
    simp [hne]

theorem Effect.author_cases (i : Nat) :
    (t.entries i).author = (s.entries i).author ∨
      (t.entries i).author = some w ∧ q.index = some i := by
  cases he with
  | @fills _ j commitLsn _ hfound =>
    by_cases hij : i = j
    · subst hij
      exact .inr ⟨by simp [State.fill, State.write], hfound⟩
    · exact .inl (by simp [State.fill, State.write, hij])
  | uses _ _ hsame =>
    unfold State.access
    split
    · rename_i j hj
      by_cases hij : i = j
      · subst hij
        exact .inr ⟨by simp [State.write], hsame.trans hj⟩
      · exact .inl (by simp [State.write, hij])
    · exact .inl rfl
  | _ => exact .inl rfl

theorem Effect.intrusions_eq (h : Owned s) (hp : s.Running w p)
    (hin : ∀ i ∈ q.index, i < s.total) : t.intrusions = s.intrusions := by
  cases he with
  | fills _ hsearch hfound =>
    show s.intrusions ++ _ = _
    rw [h.intrusion_eq_nil hp (hin _ hfound) (.inl (State.free_of_search hsearch).2), append_nil]
  | uses =>
    unfold State.access
    split
    · rename_i i hi
      show s.intrusions ++ _ = _
      rw [h.intrusion_eq_nil hp (h.inArray p hp.mem i hi) (.inr (h.owner p hp.mem i hi)),
        append_nil]
    · rfl
  | _ => rfl

theorem Effect.ran_before (hp : s.Running w p) (hname : q.name = p.name)
    {v : Nat} {r : Worker} (hr : (t.setWorker w q).Running v r) :
    ∃ r₀, s.Running v r₀ ∧ r₀.name = r.name := by
  rcases running_setWorker he.frame.2.1 hr with ⟨rfl, rfl⟩ | ⟨-, hr⟩
  · exact ⟨p, hp, hname.symm⟩
  · exact ⟨r, hr, rfl⟩

theorem Effect.index_eq (h : Owned s) (hp : p ∈ s.workers)
    (hlt : ∀ i, q.index = some i → i < s.total) (hi : p.index = some i) :
    q.index = some i := by
  obtain ⟨k, hk⟩ := ne_none_iff_exists'.mp (he.index_ne_none (by simp [hi]))
  have htotal := he.frame.2.2
  have howner := h.owner p hp i hi
  have hne : (s.entries i).slotName ≠ "" := howner ▸ h.name_ne hp
  have hslot := (he.slotName_eq hne).trans howner
  have hslot' := he.slotName_index h hp (hlt k hk) hk
  have hik : i = k := (he.filled h.filled hp).apart i (htotal ▸ h.inArray p hp i hi) k
    (htotal ▸ hlt k hk) (hslot ▸ h.name_ne hp) (hslot.trans hslot'.symm)
  rw [hk, hik]

end

end effect

theorem Effect.index_lt_of_guarded {t : State} {p q : Worker} {a : Action} {i : Nat}
    (he : Effect s w p a t q) (h : Owned s) (hp : p ∈ s.workers)
    (hguarded : a = .look ∨ a = .lock → s.Guarded p) (hi : q.index = some i) : i < s.total := by
  refine he.index_lt (h.inArray p hp) (h.placed p hp) (fun ha => (hguarded ha).1)
    (fun ha hsearch => ?_) hi
  obtain ⟨j, hj, hfree | hfor⟩ := (hguarded (.inr ha)).2 (State.free_of_search hsearch).2
  · obtain ⟨_, hlt, heq⟩ := State.lt_total_of_search hsearch ⟨j, mem_range.mp hj, hfree⟩
    exact hlt.ne (Option.some.inj heq).symm
  · rw [State.not_isFor_of_search hsearch (mem_range.mp hj).le] at hfor
    cases hfor

theorem owned_setWorker {t : State} {p q : Worker} {a : Action} (h : Owned s) (hp : s.Running w p)
    (he : Effect s w p a t q) (hname : q.name = p.name)
    (hplaced : p.Placed s.total → q.Placed s.total)
    (hguarded : a = .look ∨ a = .lock → s.Guarded p) : Owned (t.setWorker w q) := by
  obtain ⟨hnames, hworkers, htotal⟩ := he.frame
  have hlt : ∀ i, q.index = some i → i < s.total := fun i =>
    he.index_lt_of_guarded h hp.mem hguarded
  have hfilled := he.filled h.filled hp.mem
  exact
    { filled := hfilled.setWorker (hname ▸ hnames ▸ h.filled.known p hp.mem)
      inArray := by
        intro r hr i hi
        show i < t.total
        rcases mem_or_eq_of_mem_set hr with hr | rfl
        · exact htotal ▸ h.inArray r (hworkers ▸ hr) i hi
        · exact htotal ▸ hlt i hi
      placed := by
        intro r hr
        show r.Placed t.total
        rcases mem_or_eq_of_mem_set hr with hr | rfl
        · exact htotal ▸ h.placed r (hworkers ▸ hr)
        · exact htotal ▸ hplaced (h.placed p hp.mem)
      nonempty := fun n hn => h.nonempty n (hnames ▸ hn)
      free := fun m hm n hn => h.free m (hnames ▸ hm) n (hnames ▸ hn)
      alone := by
        intro v v' r r' hr hr' heq
        obtain ⟨r₀, hr₀, hname₀⟩ := he.ran_before hp hname hr
        obtain ⟨r₀', hr₀', hname₀'⟩ := he.ran_before hp hname hr'
        exact h.alone v v' r₀ r₀' hr₀ hr₀' (hname₀.trans (heq.trans hname₀'.symm))
      owner := by
        intro r hr i hi
        rcases mem_or_eq_of_mem_set hr with hr | rfl
        · have howner := h.owner r (hworkers ▸ hr) i hi
          exact (he.slotName_eq (howner ▸ h.name_ne (hworkers ▸ hr))).trans howner
        · exact (he.slotName_index h hp.mem (hlt i hi) hi).trans hname.symm
      started := by
        intro i hi b hb
        rw [State.setWorker, length_set, hworkers]
        rcases he.author_cases i with hsame | ⟨hw, -⟩
        · exact h.started i (htotal ▸ hi) b (hsame ▸ hb)
        · cases hb.symm.trans hw
          exact (List.getElem?_eq_some_iff.mp hp.1).1
      author := by
        intro i hi b hb r hr
        rcases he.author_cases i with hsame | ⟨hw, hindex⟩
        · have hauthor := h.author i (htotal ▸ hi) b (hsame ▸ hb)
          rcases running_setWorker hworkers hr with ⟨rfl, rfl⟩ | ⟨-, hr⟩
          · exact he.index_eq h hp.mem hlt (hauthor p hp)
          · exact hauthor r hr
        · cases hb.symm.trans hw
          rcases running_setWorker hworkers hr with ⟨-, rfl⟩ | ⟨hne, -⟩
          · exact hindex
          · exact absurd rfl hne
      quiet := (he.intrusions_eq h hp hlt).trans h.quiet }

theorem running_start {v : Nat} {r : Worker}
    (h : { s with workers := s.workers ++ [Worker.new name] }.Running v r) :
    v = s.workers.length ∧ r = Worker.new name ∨ s.Running v r := by
  obtain ⟨hget, hlive⟩ := h
  rcases Nat.lt_trichotomy v s.workers.length with hlt | heq | hgt
  · exact .inr ⟨by simpa [getElem?_append_left hlt] using hget, hlive⟩
  · subst heq
    exact .inl ⟨rfl, by simpa using hget.symm⟩
  · have hnone : (s.workers ++ [Worker.new name])[v]? = none := by
      rw [getElem?_eq_none]
      simpa using Nat.succ_le_of_lt hgt
    cases hget.symm.trans hnone

theorem overlaps_comm {m n : String} : overlaps m n ↔ overlaps n m := or_comm

theorem owned_createSub (h : Owned s) (hne : name ≠ "")
    (hfree : ∀ n ∈ s.names, overlaps n name → n = name)
    (hstep : step s (.createSub name) = some s') : Owned s' := by
  have hfilled := filled_step h.filled hstep
  obtain ⟨-, heq⟩ := ite_none_left_eq_some.mp hstep
  cases heq
  have hnames : ∀ n ∈ (if name ∈ s.names then s.names else name :: s.names),
      n = name ∨ n ∈ s.names := by
    intro n hn
    split at hn
    · exact .inr hn
    · exact mem_cons.mp hn
  refine { h with
    filled := hfilled, nonempty := fun n hn => ?_, free := fun m hm n hn hover => ?_ }
  · rcases hnames n hn with rfl | hn
    · exact hne
    · exact h.nonempty n hn
  · rcases hnames m hm with rfl | hm' <;> rcases hnames n hn with rfl | hn'
    · rfl
    · exact (hfree n hn' (overlaps_comm.mp hover)).symm
    · exact hfree m hm' hover
    · exact h.free m hm' n hn' hover

theorem owned_start (h : Owned s) (hnew : ∀ p ∈ s.workers, p.live → p.name ≠ name)
    (hstep : step s (.start name) = some s') : Owned s' := by
  have hfilled := filled_step h.filled hstep
  obtain ⟨-, rfl⟩ := of_guard hstep
  refine ⟨hfilled, fun r hr i hi => ?_, fun r hr => ?_, h.nonempty, h.free,
    fun v v' r r' hr hr' heq => ?_, fun r hr i hi => ?_, fun i hi a ha => ?_,
    fun i hi a ha r hr => ?_, h.quiet⟩
  · rcases mem_append.mp hr with hr | hr
    · exact h.inArray r hr i hi
    · rw [mem_singleton.mp hr] at hi
      cases hi
  · rcases mem_append.mp hr with hr | hr
    · exact h.placed r hr
    · rw [mem_singleton.mp hr]
      exact .idle rfl nofun
  · rcases running_start hr with ⟨rfl, rfl⟩ | hr <;>
      rcases running_start hr' with ⟨rfl, rfl⟩ | hr'
    · rfl
    · exact absurd heq.symm (hnew r' hr'.mem hr'.2)
    · exact absurd heq (hnew r hr.mem hr.2)
    · exact h.alone v v' r r' hr hr' heq
  · rcases mem_append.mp hr with hr | hr
    · exact h.owner r hr i hi
    · rw [mem_singleton.mp hr] at hi
      cases hi
  · have hlt := h.started i hi a ha
    simpa using Nat.lt_succ_of_lt hlt
  · rcases running_start hr with ⟨rfl, rfl⟩ | hr
    · exact absurd (h.started i hi _ ha) (Nat.lt_irrefl _)
    · exact h.author i hi a ha r hr

theorem owned_step {e : Event} (h : Owned s) (hsep : Separate s e) (hstep : step s e = some s') :
    Owned s' := by
  cases e with
  | createSub => exact owned_createSub h hsep.1 hsep.2 hstep
  | dropSub =>
    have hfilled := filled_step h.filled hstep
    cases hstep
    exact { h with filled := hfilled }
  | start => exact owned_start h hsep hstep
  | act =>
    obtain ⟨p, hp, hlive, hact⟩ := act_of_step hstep
    obtain ⟨t, q, rfl, he, hname, hplaced⟩ := act_effect hact
    refine owned_setWorker h ⟨hp, hlive⟩ he hname hplaced ?_
    rintro (rfl | rfl) <;> exact hsep p hp
  | behind e =>
    have hfilled := filled_step h.filled hstep
    cases hstep
    -- nothing in the array has changed
    have hsame : ∀ i < s.total, update s.entries s.total e i = s.entries i :=
      fun i hi => update_of_ne hi.ne e s.entries
    refine ⟨hfilled, h.inArray, h.placed, h.nonempty, h.free, h.alone, fun p hp i hi => ?_,
      fun i hi a ha => ?_, fun i hi a ha => ?_, h.quiet⟩
    · show (update s.entries s.total e i).slotName = p.name
      rw [hsame i (h.inArray p hp i hi)]
      exact h.owner p hp i hi
    · exact h.started i hi a (hsame i hi ▸ ha)
    · exact h.author i hi a (hsame i hi ▸ ha)

/-! ## Runs -/

/-- **Each worker's entry is its own.** Whatever subscriptions come and go, and however their
workers take turns, as long as no name begins with another, no subscription has two workers at a
time and the memory behind the array is not taken for an entry: workers that run have different
entries, and no worker has met, entering exception handling or writing, what another one that runs
had recorded. -/
theorem entries_exclusive {total : Nat} {behind : Entry} {events : List Event} {s : State}
    (hsep : Along step Separate (State.init total behind) events)
    (hrun : run step (State.init total behind) events = some s) :
    s.Exclusive ∧ s.intrusions = [] := by
  have howned : Owned s :=
    run_invariant_along (fun _ _ _ => owned_step) (owned_init total behind) hsep hrun
  exact ⟨howned.exclusive, howned.quiet⟩

/-- The first BEGIN of a worker that has no entry yet, in an array of two. -/
def firstBegin (w commitLsn : Nat) : List Event :=
  [.act w (.begin commitLsn), .act w .look, .act w .look, .act w .look, .act w .lock, .act w .enter]

def beginAgain (w commitLsn : Nat) : List Event :=
  [.act w (.begin commitLsn), .act w .look, .act w .enter]

def duplicateKey : ErrorData := ⟨.uniqueViolation, "duplicate key value"⟩

/-- Two subscriptions; the worker of the first one fails, replays and commits. -/
def separateEvents : List Event := flatten
  [[.createSub "east", .createSub "west", .start "east", .start "west"], firstBegin 0 70,
    firstBegin 1 70, [.act 0 (.fail duplicateKey 2)], beginAgain 0 70, [.act 0 (.storeTuple 4096),
      .act 0 .clear]]

theorem entries_exclusive_separateEvents :
    ∃ s, run step (State.init 2 Entry.empty) separateEvents = some s ∧
      s.Exclusive ∧ s.intrusions = [] := by
  have hsep : Along step Separate (State.init 2 Entry.empty) separateEvents := by decide +kernel
  have hrun : run step (State.init 2 Entry.empty) separateEvents = some _ := rfl
  exact ⟨_, hrun, entries_exclusive hsep hrun⟩

/-- `sub` and `sub2` replicate from two providers, at one LSN. -/
def beginningEvents : List Event := flatten
  [[.createSub "sub2", .createSub "sub", .start "sub2", .start "sub"], firstBegin 0 70,
    beginAgain 1 70]

/-- The apply worker has failed on a transaction; a sync worker of the same subscription has its first
one, and then the apply worker is started anew and gets its transaction again. -/
def syncEvents : List Event := flatten
  [[.createSub "sub", .start "sub", .start "sub"], firstBegin 0 70, [.act 0 (.fail duplicateKey 2)],
    beginAgain 1 90, [.act 0 .exit, .start "sub"], beginAgain 2 70]

/-- Where the workers' entries are, whether they handle an exception, and whom they have met. -/
def State.summary (s : State) : List (Option Nat × Bool) × List (Nat × Nat) :=
  (s.workers.map fun p => (p.index, p.useTryBlock), s.intrusions)

/-- **Entries are shared.** The worker of `sub` takes the entry of `sub2` and handles an exception
it has not had. A sync worker takes the entry of the apply worker and writes over the LSN of its
failure; the next apply worker does not find it and applies the transaction outside of exception
handling. -/
theorem entries_shared :
    (run step (State.init 2 Entry.empty) beginningEvents).map State.summary =
        some ([(some 0, false), (some 0, true)], [(1, 0)]) ∧
      (run step (State.init 2 Entry.empty) syncEvents).map State.summary =
        some ([(some 0, true), (some 0, false), (some 0, false)], [(1, 0), (2, 1)]) := by
  decide +kernel

end Spock.ExceptionLog
