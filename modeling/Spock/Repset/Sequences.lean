import Spock.Lib.Runs
import Spock.Worker.ApplyDelay

/-!
# Spock — the sequences of a replication set

The provider publishes for each tracked sequence a value ahead of its own, so that the subscribers
can go on from there. How far ahead is the cache size of the sequence, which doubles while the
sequence is consumed faster than it is published. Neither the increment of the sequence nor its
bounds are looked at.

* **`sequences_ahead`** — every run of a provider.
-/

namespace Spock.Sequences

open ApplyDelay Runs

/-- `SEQUENCE_REPLICATION_MIN_CACHE`. -/
def minCache : Int := 1000

/-- `SEQUENCE_REPLICATION_MAX_CACHE`. -/
def maxCache : Int := 1000000

/-- A sequence as it is defined, on the provider and on the subscribers. -/
structure SequenceDef where
  increment : Int
  minValue : Int
  maxValue : Int
  cycle : Bool
  increment_ne : increment ≠ 0
  min_lt : minValue < maxValue
  le_min : -2 ^ 63 ≤ minValue
  max_lt : maxValue < 2 ^ 63

namespace SequenceDef

/-- What `setval` accepts. -/
def InBounds (d : SequenceDef) (value : Int) : Prop := d.minValue ≤ value ∧ value ≤ d.maxValue

instance (d : SequenceDef) (value : Int) : Decidable (d.InBounds value) :=
  inferInstanceAs (Decidable (_ ∧ _))

/-- `value` is ahead of `last` by half of the least cache, or as far as the sequence goes. -/
def Ahead (d : SequenceDef) (last value : Int) : Prop :=
  if 0 < d.increment then last + minCache / 2 * d.increment ≤ value ∨ value = d.maxValue
  else value ≤ last + minCache / 2 * d.increment ∨ value = d.minValue

end SequenceDef

/-- `SeqStateTuple`, a row of `spock.sequence_state`: `lastValue` is the value published last. -/
structure SeqState where
  seqoid : Nat
  cacheSize : Int
  lastValue : Int

namespace SeqState

def ample (r : SeqState) (last : Int) : Bool := int64 (last + minCache / 2) ≤ r.lastValue

def grown (r : SeqState) (last : Int) : Int :=
  if int64 (r.lastValue + r.cacheSize) ≤ last then min maxCache (r.cacheSize * 2) else r.cacheSize

def publish (r : SeqState) (last cacheSize : Int) : SeqState :=
  { r with cacheSize := cacheSize, lastValue := int64 (last + cacheSize) }

/-- One turn of the loop of `synchronize_sequences`. -/
def synchronize (r : SeqState) (last : Int) : SeqState :=
  if r.ample last then r else r.publish last (r.grown last)

end SeqState

/-- A provider: the last value of each sequence, the rows of `spock.sequence_state`, and the values
that were queued. -/
structure Provider where
  lastValue : Nat → Int
  rows : List SeqState
  published : List (Nat × Int)

namespace Provider

def message (r : SeqState) : Nat × Int := (r.seqoid, r.lastValue)

/-- `synchronize_sequences`. It returns whether no sequence has used more than half of its cache. -/
def synchronizeSequences (s : Provider) : Bool × Provider :=
  let due := s.rows.filter fun r => !r.ample (s.lastValue r.seqoid)
  (due.all fun r => s.lastValue r.seqoid ≤ int64 (r.lastValue + r.cacheSize / 2),
    { s with
      rows := s.rows.map fun r => r.synchronize (s.lastValue r.seqoid)
      published := s.published ++ due.map fun r => message (r.synchronize (s.lastValue r.seqoid)) })

/-- `synchronize_sequence`, of one sequence and without a look at what was published. -/
def synchronizeSequence (s : Provider) (seqoid : Nat) : Option Provider :=
  match s.rows.find? (·.seqoid == seqoid) with
  | none => none
  | some r =>
    let r' := r.publish (s.lastValue seqoid) r.cacheSize
    some { s with
      rows := s.rows.map fun r => if r.seqoid = seqoid then r' else r
      published := s.published ++ [message r'] }

/-- `spock_create_sequence_state_record`. -/
def createStateRecord (s : Provider) (seqoid : Nat) : Provider :=
  if s.rows.any (·.seqoid == seqoid) then s
  else { s with rows := s.rows ++ [⟨seqoid, minCache, s.lastValue seqoid⟩] }

end Provider

inductive Event where
  -- `nextval` and `setval` on the provider
  | consume (seqoid : Nat) (value : Int)
  | createStateRecord (seqoid : Nat)
  | synchronizeSequences
  | synchronizeSequence (seqoid : Nat)
  deriving DecidableEq

section System

variable (defs : Nat → SequenceDef)

/-- Consumption on the provider and the two functions that publish. -/
def Provider.step (s : Provider) : Event → Option Provider
  | .consume seqoid value =>
    if (defs seqoid).InBounds value then
      some { s with lastValue := Function.update s.lastValue seqoid value }
    else none
  | .createStateRecord seqoid => some (s.createStateRecord seqoid)
  | .synchronizeSequences => some s.synchronizeSequences.2
  | .synchronizeSequence seqoid => s.synchronizeSequence seqoid

structure Provider.Initial (s : Provider) : Prop where
  inBounds : ∀ seqoid, (defs seqoid).InBounds (s.lastValue seqoid)
  rows : s.rows = []
  published : s.published = []

/-- The sequences a call publishes go up by one, and there is room for the cache below the
maximum. -/
def Careful (s : Provider) : Event → Prop
  | .synchronizeSequences => ∀ r ∈ s.rows, (defs r.seqoid).increment = 1 ∧
      (s.lastValue r.seqoid + minCache / 2 ≤ r.lastValue ∨
        s.lastValue r.seqoid + r.grown (s.lastValue r.seqoid) ≤ (defs r.seqoid).maxValue)
  | .synchronizeSequence seqoid => ∀ r ∈ s.rows, r.seqoid = seqoid →
      (defs seqoid).increment = 1 ∧ s.lastValue seqoid + r.cacheSize ≤ (defs seqoid).maxValue
  | _ => True

def Synchronized (s : Provider) (e : Event) : Prop :=
  ∀ r ∈ s.rows, e = .synchronizeSequences ∨ e = .synchronizeSequence r.seqoid →
    (defs r.seqoid).Ahead (s.lastValue r.seqoid) r.lastValue

/-! ## Rows -/

structure RowOk (r : SeqState) : Prop where
  min_le : minCache ≤ r.cacheSize
  le_max : r.cacheSize ≤ maxCache
  inBounds : (defs r.seqoid).InBounds r.lastValue

structure Inv (s : Provider) : Prop where
  inBounds : ∀ seqoid, (defs seqoid).InBounds (s.lastValue seqoid)
  rows : ∀ r ∈ s.rows, RowOk defs r
  published : ∀ m ∈ s.published, (defs m.1).InBounds m.2

variable {defs} {s s' : Provider} {r : SeqState} {last c : Int} {e : Event}

theorem publish_ok (hinc : (defs r.seqoid).increment = 1) (hlast : (defs r.seqoid).InBounds last)
    (hmin : minCache ≤ c) (hmax : c ≤ maxCache) (hroom : last + c ≤ (defs r.seqoid).maxValue) :
    RowOk defs (r.publish last c) ∧ (defs r.seqoid).Ahead last (r.publish last c).lastValue := by
  have hle := (defs r.seqoid).le_min
  have hlt := (defs r.seqoid).max_lt
  have hlast' := hlast.1
  have hc : (1000 : Int) ≤ c := hmin
  have heq : (r.publish last c).lastValue = last + c := int64_eq (by omega) (by omega)
  refine ⟨⟨hmin, hmax, ?_⟩, ?_⟩
  · rw [heq]
    exact ⟨by show (defs r.seqoid).minValue ≤ _; omega, hroom⟩
  · rw [heq, SequenceDef.Ahead, hinc, if_pos Int.one_pos, minCache]
    omega

theorem grown_bounds (h : RowOk defs r) : minCache ≤ r.grown last ∧ r.grown last ≤ maxCache := by
  have := h.min_le
  have := h.le_max
  unfold SeqState.grown minCache maxCache at *
  split <;> omega

theorem synchronize_ok (hinc : (defs r.seqoid).increment = 1)
    (hlast : (defs r.seqoid).InBounds last) (hr : RowOk defs r)
    (hroom : last + minCache / 2 ≤ r.lastValue ∨ last + r.grown last ≤ (defs r.seqoid).maxValue) :
    RowOk defs (r.synchronize last) ∧ (defs r.seqoid).Ahead last (r.synchronize last).lastValue := by
  have hgrown : minCache ≤ r.grown last ∧ r.grown last ≤ maxCache := grown_bounds hr
  have hbounds : -2 ^ 63 ≤ last + minCache / 2 ∧ last + minCache / 2 < 2 ^ 63 := by
    have := (defs r.seqoid).le_min
    have := (defs r.seqoid).max_lt
    have := hlast.1
    have := hr.inBounds.2
    unfold minCache at *
    omega
  unfold SeqState.synchronize
  split
  · next hample =>
    rw [SeqState.ample, int64_eq hbounds.1 hbounds.2, decide_eq_true_eq] at hample
    refine ⟨hr, ?_⟩
    rw [SequenceDef.Ahead, hinc, if_pos Int.one_pos, mul_one]
    exact .inl hample
  · next hample =>
    rw [SeqState.ample, int64_eq hbounds.1 hbounds.2, decide_eq_true_eq] at hample
    exact publish_ok hinc hlast hgrown.1 hgrown.2 (hroom.resolve_left hample)

/-! ## Runs -/

theorem inv_synchronizeSequences (h : Inv defs s) (hcareful : Careful defs s .synchronizeSequences) :
    Inv defs s.synchronizeSequences.2 ∧
      Synchronized defs s.synchronizeSequences.2 .synchronizeSequences := by
  have hseqoid (r : SeqState) last : (r.synchronize last).seqoid = r.seqoid := by
    unfold SeqState.synchronize
    split <;> rfl
  have hrow r (hr : r ∈ s.rows) :=
    synchronize_ok (hcareful r hr).1 (h.inBounds _) (h.rows r hr) (hcareful r hr).2
  refine ⟨⟨h.inBounds, ?_, ?_⟩, ?_⟩
  · simpa [Provider.synchronizeSequences] using fun r hr => (hrow r hr).1
  · intro m hm
    rcases List.mem_append.mp hm with hm | hm
    · exact h.published m hm
    · obtain ⟨r, hr, rfl⟩ := List.mem_map.mp hm
      exact (hrow r (List.mem_of_mem_filter hr)).1.inBounds
  · intro r' hr' _
    obtain ⟨r, hr, rfl⟩ := List.mem_map.mp hr'
    rw [hseqoid]
    exact (hrow r hr).2

theorem inv_synchronizeSequence {seqoid : Nat} (h : Inv defs s)
    (hcareful : Careful defs s (.synchronizeSequence seqoid))
    (hstep : s.synchronizeSequence seqoid = some s') :
    Inv defs s' ∧ Synchronized defs s' (.synchronizeSequence seqoid) := by
  unfold Provider.synchronizeSequence at hstep
  split at hstep
  · cases hstep
  next r hfind =>
  have hr := List.mem_of_find?_eq_some hfind
  obtain rfl : r.seqoid = seqoid := by simpa using List.find?_some hfind
  cases hstep
  have hrow := publish_ok (hcareful r hr rfl).1 (h.inBounds _) (h.rows r hr).min_le
    (h.rows r hr).le_max (hcareful r hr rfl).2
  refine ⟨⟨h.inBounds, ?_, ?_⟩, ?_⟩
  · intro r' hr'
    obtain ⟨r₀, hr₀, rfl⟩ := List.mem_map.mp hr'
    split
    · exact hrow.1
    · exact h.rows r₀ hr₀
  · intro m hm
    rcases List.mem_append.mp hm with hm | hm
    · exact h.published m hm
    · rw [List.mem_singleton.mp hm]
      exact hrow.1.inBounds
  · intro r' hr' he
    obtain ⟨r₀, _, rfl⟩ := List.mem_map.mp hr'
    by_cases heq : r₀.seqoid = r.seqoid
    · rw [if_pos heq]
      exact hrow.2
    · rw [if_neg heq] at he
      simp [Ne.symm heq] at he

/-- **One step.** -/
theorem inv_step (h : Inv defs s) (hcareful : Careful defs s e) (hstep : s.step defs e = some s') :
    Inv defs s' ∧ Synchronized defs s' e := by
  cases e with
  | consume seqoid =>
    obtain ⟨hvalue, rfl⟩ := of_guard hstep
    refine ⟨⟨fun a => ?_, h.rows, h.published⟩, fun _ _ he => by simp at he⟩
    by_cases ha : a = seqoid
    · subst ha
      simpa using hvalue
    · simpa [ha] using h.inBounds a
  | createStateRecord seqoid =>
    cases hstep
    refine ⟨?_, fun _ _ he => by simp at he⟩
    unfold Provider.createStateRecord
    split
    · exact h
    · refine { h with rows := fun r hr => ?_ }
      rcases List.mem_append.mp hr with hr | hr
      · exact h.rows r hr
      · rw [List.mem_singleton.mp hr]
        exact ⟨le_refl minCache, show minCache ≤ maxCache by decide, h.inBounds seqoid⟩
  | synchronizeSequences =>
    cases hstep
    exact inv_synchronizeSequences h hcareful
  | synchronizeSequence => exact inv_synchronizeSequence h hcareful hstep

/-- **Every run of a provider.** What was published lies within the bounds, and what the last call
published is ahead. -/
theorem sequences_ahead {events : List Event} (hinit : s.Initial defs)
    (halong : Along (Provider.step defs) (Careful defs) s events)
    (hrun : run (Provider.step defs) s events = some s') :
    (∀ m ∈ s'.published, (defs m.1).InBounds m.2) ∧
      ∀ e ∈ events.getLast?, Synchronized defs s' e := by
  have hinv₀ : Inv defs s := ⟨hinit.inBounds, by simp [hinit.rows], by simp [hinit.published]⟩
  refine ⟨(run_invariant_along (fun _ _ _ h hc hs => (inv_step h hc hs).1) hinv₀ halong
    hrun).published, fun e he => ?_⟩
  obtain ⟨before, rfl⟩ := List.getLast?_eq_some_iff.mp he
  obtain ⟨_, hbefore, hstep⟩ := Option.bind_eq_some_iff.mp ((run_append s before [e]).symm.trans hrun)
  obtain ⟨_, hstep, hnil⟩ := run_cons_eq_some.mp hstep
  cases hnil
  have hinv := run_invariant_along (fun _ _ _ h hc hs => (inv_step h hc hs).1) hinv₀
    halong.of_append hbefore
  exact (inv_step hinv (halong.after hbefore).1 hstep).2

end System

/-- `CREATE SEQUENCE ... MAXVALUE 100`, or more. -/
def upTo (room : Nat) (h : room < 2 ^ 62) : SequenceDef :=
  ⟨1, 1, 100 + room, false, by decide, by omega, by decide, by omega⟩

def trackAndPublish : List Event := [.createStateRecord 7, .synchronizeSequence 7]

theorem sequences_ahead_roomy :
    ∃ s', run (Provider.step fun _ => upTo 5000 (by decide)) ⟨fun _ => 1, [], []⟩
        trackAndPublish = some s' ∧
      Synchronized (fun _ => upTo 5000 (by decide)) s' (.synchronizeSequence 7) := by
  have hrun : run (Provider.step fun _ => upTo 5000 (by decide)) ⟨fun _ => 1, [], []⟩
    trackAndPublish = some _ := rfl
  refine ⟨_, hrun, (sequences_ahead ⟨fun _ => by simp [upTo, SequenceDef.InBounds], rfl, rfl⟩ ?_
    hrun).2 _ rfl⟩
  refine .cons trivial rfl (.cons ?_ rfl trivial)
  simp [Careful, Provider.createStateRecord, upTo, minCache]

/-- The cache goes beyond the maximum of the sequence. -/
theorem published_out_of_bounds :
    ∃ s', run (Provider.step fun _ => upTo 0 (by decide)) ⟨fun _ => 1, [], []⟩
        trackAndPublish = some s' ∧
      ∃ m ∈ s'.published, ¬ (upTo 0 (by decide)).InBounds m.2 :=
  ⟨_, rfl, (7, 1001), by decide, by decide⟩

end Spock.Sequences
