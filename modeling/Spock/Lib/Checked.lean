import Mathlib.Data.List.Basic

/-!
# Computations that succeed exactly when a condition holds

`Checks x c Q` says that an `Except` computation succeeds if and only if `c` holds, and that its
result is then in `Q`. The rules follow the program, so that the condition of a whole check is
built from those of its parts.

* **`checks_bind`**, **`checks_bind_eq`**, **`checks_ite`** — sequencing and tests;
* **`checks_forM`**, **`checks_mapM`** — loops over a list.
-/

namespace Checked

open List

variable {ε α β : Type} {c c' : Prop} {Q Q' : α → Prop}

/-- `x` succeeds exactly when `c` holds, with a result in `Q`. -/
def Checks (x : Except ε α) (c : Prop) (Q : α → Prop) : Prop :=
  match x with
  | .ok a => c ∧ Q a
  | .error _ => ¬ c

theorem checks_pure (a : α) : Checks (pure a : Except ε α) True (· = a) := ⟨trivial, rfl⟩

variable {x : Except ε α} {f : α → Except ε β}

theorem Checks.mono (h : Checks x c Q) (hc : c ↔ c') (hQ : ∀ a, Q a → Q' a) : Checks x c' Q' := by
  cases x with
  | ok a => exact ⟨hc.mp h.1, hQ a h.2⟩
  | error => exact fun h' => h (hc.mpr h')

theorem Checks.iff (h : Checks x c Q) (hc : c ↔ c') : Checks x c' Q :=
  h.mono hc fun _ hq => hq

variable {R : β → Prop} {a : α} {l : List α} {p : α → Prop}

/-- The second condition may use what the first part returned. -/
theorem checks_bind (hx : Checks x c Q) (hf : ∀ a, c → Q a → Checks (f a) c' R) :
    Checks (x >>= f) (c ∧ c') R := by
  cases x with
  | error => exact fun h => hx h.1
  | ok a =>
    have h := hf a hx.1 hx.2
    show Checks (f a) (c ∧ c') R
    exact h.iff (and_iff_right hx.1).symm

/-- When the first part returns one value only. -/
theorem checks_bind_eq (hx : Checks x c (· = a)) (hf : Checks (f a) c' R) :
    Checks (x >>= f) (c ∧ c') R :=
  checks_bind hx fun _ _ hb => hb ▸ hf

theorem checks_bind_pure (f : α → β) (hx : Checks x c (· = a)) :
    Checks (x >>= fun b => pure (f b)) c (· = f a) :=
  (checks_bind_eq hx (checks_pure (f a))).iff (iff_of_eq (and_true c))

theorem checks_map (f : α → β) (hx : Checks x c (· = a)) : Checks (x.map f) c (· = f a) := by
  cases x with
  | ok => exact ⟨hx.1, congrArg f hx.2⟩
  | error => exact hx

theorem checks_ite {p : Prop} [Decidable p] {e : ε} (hx : ¬ p → Checks x c Q) :
    Checks (if p then throw e else x) (¬ p ∧ c) Q := by
  by_cases hp : p
  · rw [if_pos hp]
    exact fun h => h.1 hp
  · rw [if_neg hp]
    exact (hx hp).iff (and_iff_right hp).symm

theorem checks_forM {f : α → Except ε PUnit} (hf : ∀ a ∈ l, Checks (f a) (p a) fun _ => True) :
    Checks (l.forM f) (∀ a ∈ l, p a) fun _ => True := by
  induction l with
  | nil => exact ⟨by simp, trivial⟩
  | cons a _ ih =>
    rw [forM_eq_forM, forM_cons, forall_mem_cons]
    exact checks_bind (hf a mem_cons_self) fun _ _ _ =>
      ih fun b hb => hf b (mem_cons_of_mem a hb)

theorem checks_mapM {g : α → β} (hf : ∀ a ∈ l, Checks (f a) (p a) (· = g a)) :
    Checks (l.mapM f) (∀ a ∈ l, p a) (· = l.map g) := by
  induction l with
  | nil => exact ⟨by simp, rfl⟩
  | cons a _ ih =>
    rw [mapM_cons, forall_mem_cons]
    have htail := ih fun b hb => hf b (mem_cons_of_mem a hb)
    exact checks_bind_eq (hf a mem_cons_self) (checks_bind_pure (g a :: ·) htail)

end Checked
