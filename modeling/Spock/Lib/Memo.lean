import Mathlib.Logic.Function.Basic

/-!
# Memo tables with validity flags

A table remembers the result of a computation that may raise, one entry a key, and a flag in the
entry says whether the result may be used. Invalidation resets the flag and keeps the entry. An
entry that was created for a computation that then raised has never had its flag set: what the flag
reads is a parameter, `uninit`.

* **`Sound.invalidate`** — what the valid entries have to satisfy may change for the keys hit;
* **`Sound.of_not_valid`** — and for a key without a valid entry;
* **`Sound.lookup`** — a lookup answers with a value that satisfies it, and keeps the table sound;
  `Sound.lookup_ok` does without a word on new entries where it has answered.
-/

namespace Memo

open Function

variable {κ ν ε : Type}

structure Entry (ν : Type) where
  isvalid : Bool
  value : ν

abbrev Table (κ ν : Type) := κ → Option (Entry ν)

def Table.empty : Table κ ν := fun _ => none

/-- The entry after the computation that was to fill it. -/
def Entry.filled (old : Entry ν) : Except ε ν → Entry ν
  | .ok v => ⟨true, v⟩
  | .error _ => old

/-- The valid entry of the key, or the computation. -/
def lookup [DecidableEq κ] (uninit : Entry ν) (t : Table κ ν) (k : κ) (x : Except ε ν) :
    Except ε ν × Table κ ν :=
  match t k with
  | some e => if e.isvalid then (.ok e.value, t) else (x, Function.update t k (some (e.filled x)))
  | none => (x, Function.update t k (some (uninit.filled x)))

/-- The key has a valid entry. -/
def valid (t : Table κ ν) (k : κ) : Bool := (t k).any (·.isvalid)

/-- Reset the flags of the keys hit, and clear what their entries hold. -/
def invalidate (hit : κ → Bool) (clear : ν → ν) (t : Table κ ν) : Table κ ν := fun k =>
  if hit k then (t k).map fun e => ⟨false, clear e.value⟩ else t k

/-- Every valid entry holds a value that is right for its key. -/
def Sound (P : κ → ν → Prop) (t : Table κ ν) : Prop :=
  ∀ k e, t k = some e → e.isvalid = true → P k e.value

variable {P P' : κ → ν → Prop} {t : Table κ ν}

theorem sound_empty : Sound P (Table.empty : Table κ ν) := nofun

/-- What is right may change for the keys that are hit. -/
theorem Sound.invalidate {hit : κ → Bool} {clear : ν → ν} (h : Sound P t)
    (hP : ∀ k v, hit k = false → P k v → P' k v) : Sound P' (invalidate hit clear t) := by
  intro k e he hv
  unfold Memo.invalidate at he
  cases hk : hit k with
  | false =>
    rw [hk] at he
    exact hP k _ hk (h k e he hv)
  | true =>
    rw [hk] at he
    obtain ⟨_, -, rfl⟩ := Option.map_eq_some_iff.1 he
    cases hv

variable [DecidableEq κ] {uninit : Entry ν} {k : κ} {x : Except ε ν}

theorem Sound.update (h : Sound P t) {e : Entry ν} (he : e.isvalid = true → P k e.value) :
    Sound P (update t k (some e)) := by
  intro k' e' he' hv
  by_cases hk : k' = k
  · subst hk
    rw [update_self] at he'
    cases he'
    exact he hv
  · rw [update_of_ne hk] at he'
    exact h k' e' he' hv

/-- **Lookups.** The last hypothesis keeps an entry that was never filled from being taken for a
result. -/
theorem Sound.lookup (h : Sound P t) (hx : ∀ v, x = .ok v → P k v)
    (hnew : ∀ e, t k = none → x = .error e → uninit.isvalid = false) :
    (∀ v, (lookup uninit t k x).1 = .ok v → P k v) ∧ Sound P (lookup uninit t k x).2 := by
  have hfilled : ∀ old : Entry ν, (∀ e, x = .error e → old.isvalid = false) →
      (old.filled x).isvalid = true → P k (old.filled x).value := by
    intro old hold hv
    cases x with
    | ok v => exact hx v rfl
    | error e => exact absurd (hold e rfl) (by rw [show old.isvalid = true from hv]; decide)
  unfold Memo.lookup
  cases hk : t k with
  | none => exact ⟨hx, h.update (hfilled uninit fun e he => hnew e hk he)⟩
  | some e =>
    dsimp only
    split
    · rename_i hv
      exact ⟨fun v heq => Except.ok.inj heq ▸ h k e hk hv, h⟩
    · rename_i hv
      exact ⟨hx, h.update (hfilled e fun _ _ => Bool.eq_false_iff.2 hv)⟩

omit [DecidableEq κ] in
theorem valid_iff : valid t k = true ↔ ∃ e, t k = some e ∧ e.isvalid = true := by
  unfold valid
  cases t k <;> simp

theorem lookup_of_not_valid (h : valid t k = false) : (lookup uninit t k x).1 = x := by
  unfold Memo.lookup
  unfold valid at h
  cases hk : t k with
  | none => rfl
  | some =>
    rw [hk] at h
    exact congrArg Prod.fst (if_neg (Bool.eq_false_iff.1 h))

/-- A lookup that answers leaves no entry behind that was never filled. -/
theorem Sound.lookup_ok (h : Sound P t) (hx : ∀ v, x = .ok v → P k v) {v : ν}
    (hok : (Memo.lookup uninit t k x).1 = .ok v) : P k v ∧ Sound P (Memo.lookup uninit t k x).2 := by
  obtain ⟨hv, hsound⟩ := Sound.lookup h hx fun e hnone herror => by
    -- the computation raised, and without an entry its error is the answer
    have hvalid : valid t k = false := by rw [valid, hnone]; rfl
    rw [lookup_of_not_valid hvalid, herror] at hok
    cases hok
  exact ⟨hv v hok, hsound⟩

theorem lookup_of_valid {e : Entry ν} (hk : t k = some e) (hv : e.isvalid = true) :
    lookup uninit t k x = (.ok e.value, t) := by
  unfold Memo.lookup
  rw [hk]
  exact if_pos hv

omit [DecidableEq κ] in
/-- What is right may change for a key without a valid entry. -/
theorem Sound.of_not_valid (h : Sound P t) (hv : valid t k = false)
    (hP : ∀ k' v, k' ≠ k → P k' v → P' k' v) : Sound P' t := by
  intro k' e he hv'
  have hne : k' ≠ k := by
    rintro rfl
    exact absurd (valid_iff.2 ⟨e, he, hv'⟩) (by rw [hv]; decide)
  exact hP k' _ hne (h k' e he hv')

end Memo
