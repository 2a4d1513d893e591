import Mathlib.Data.List.Basic
import Mathlib.Logic.Function.Basic

/-!
# Runs of a partial transition function

A system is a step function `σ → ε → Option σ`: `none` means that the event is not enabled
in the state. A run folds the step over a list of events. The rules below are the ones a
development needs to go from one step to every run:

* **`of_guard`** — a step with a guard;
* **`run_append`** — runs compose;
* **`run_invariant`** — what every step preserves, every run preserves;
* **`Along`** — a run whose every step meets a condition, with its own invariant rule
  (`run_invariant_along`), for systems that are safe only while a condition holds;
* **`good_iff_along`** — the case where a run is safe if and only if the condition held along it;
* **`prefixes_iff_along`** — the case where a step that breaks the condition is seen at once;
* **`forall_update`** — what holds of all parties of a system is kept by a step that changes one.
-/

namespace Runs

open Option Function

variable {σ ε : Type*} {step : σ → ε → Option σ}

/-- Fold the step function over a list of events; `none` as soon as one is not enabled. -/
def run (step : σ → ε → Option σ) : σ → List ε → Option σ
  | s, [] => some s
  | s, e :: es => (step s e).bind (fun s' => run step s' es)

@[simp] theorem run_nil (s : σ) : run step s [] = some s := rfl

@[simp] theorem run_cons (s : σ) (e : ε) (es : List ε) :
    run step s (e :: es) = (step s e).bind (fun s' => run step s' es) := rfl

variable {s s' : σ} {es : List ε} {I : σ → Prop} {P : σ → ε → Prop}

/-- A non-empty run is a first step and a run of the rest. -/
theorem run_cons_eq_some {e : ε} :
    run step s (e :: es) = some s' ↔ ∃ s₁, step s e = some s₁ ∧ run step s₁ es = some s' := by
  rw [run_cons, bind_eq_some_iff]

theorem run_append (s : σ) (es fs : List ε) :
    run step s (es ++ fs) = (run step s es).bind (fun s' => run step s' fs) := by
  induction es generalizing s with
  | nil => rfl
  | cons e _ ih =>
    rw [List.cons_append, run_cons, run_cons, bind_assoc]
    cases step s e with
    | none => rfl
    | some s₁ => exact ih s₁

/-- A run over the pieces of the events is a run whose steps are the runs over a piece. -/
theorem run_flatMap {β : Type*} (f : β → List ε) (s : σ) (bs : List β) :
    run step s (bs.flatMap f) = run (fun s b => run step s (f b)) s bs := by
  induction bs generalizing s with
  | nil => rfl
  | cons b bs ih =>
    rw [List.flatMap_cons, run_append, run_cons]
    exact congrArg _ (funext ih)

theorem run_collect {φ : List ε → σ} {P : ε → Prop}
    (hstep : ∀ acc e, P e → step (φ acc) e = some (φ (acc ++ [e]))) (acc : List ε) (h : ∀ e ∈ es, P e) :
    run step (φ acc) es = some (φ (acc ++ es)) := by
  induction es generalizing acc with
  | nil => rw [List.append_nil, run_nil]
  | cons e es ih =>
    rw [run_cons, hstep acc e (h e (by simp)), bind_some, ih _ fun e' he' => h e' (by simp [he']),
      List.append_assoc, List.singleton_append]

/-- A step with a guard is enabled if the guard holds. -/
theorem of_guard {c : Prop} [Decidable c] {s s' : σ} (h : (if c then some s else none) = some s') :
    c ∧ s' = s := by
  obtain ⟨hc, heq⟩ := ite_none_right_eq_some.mp h
  exact ⟨hc, (some.inj heq).symm⟩

/-- **The invariant rule.** What every enabled step preserves, every run preserves. -/
theorem run_invariant (hstep : ∀ s e s', I s → step s e = some s' → I s') (hinv : I s)
    (hrun : run step s es = some s') : I s' := by
  induction es generalizing s with
  | nil =>
    cases hrun
    exact hinv
  | cons e _ ih =>
    obtain ⟨s₁, hs₁, hrest⟩ := run_cons_eq_some.mp hrun
    exact ih (hstep s e s₁ hinv hs₁) hrest

/-- `P` holds at every step the run takes, of the state before it and the event. -/
def Along (step : σ → ε → Option σ) (P : σ → ε → Prop) : σ → List ε → Prop
  | _, [] => True
  | s, e :: es => P s e ∧ ∀ s', step s e = some s' → Along step P s' es

@[simp] theorem along_nil (P : σ → ε → Prop) (s : σ) : Along step P s [] := trivial

theorem Along.cons {e : ε} (hP : P s e) (hstep : step s e = some s') (h : Along step P s' es) :
    Along step P s (e :: es) := by
  refine ⟨hP, fun s₁ hs₁ => ?_⟩
  rw [some.inj (hs₁.symm.trans hstep)]
  exact h

/-- A condition that can be decided at every step can be decided along a run. -/
instance decidableAlong {P : σ → ε → Prop} [∀ s e, Decidable (P s e)] :
    ∀ (s : σ) (es : List ε), Decidable (Along step P s es)
  | _, [] => isTrue trivial
  | s, e :: es =>
    match hs : step s e with
    | none => decidable_of_iff (P s e)
        ⟨fun h => ⟨h, fun _ hs' => nomatch hs.symm.trans hs'⟩, And.left⟩
    | some s₁ =>
      have := decidableAlong (P := P) s₁ es
      decidable_of_iff (P s e ∧ Along step P s₁ es)
        ⟨fun h => ⟨h.1, fun _ hs' => Option.some.inj (hs.symm.trans hs') ▸ h.2⟩,
          fun h => ⟨h.1, h.2 s₁ hs⟩⟩

/-- A condition on events alone that every event meets holds along every run. -/
theorem along_of_forall {P : ε → Prop} (h : ∀ e ∈ es, P e) (s : σ) :
    Along step (fun _ e => P e) s es := by
  induction es generalizing s with
  | nil => exact along_nil _ s
  | cons e _ ih => exact ⟨h e (by simp), fun s' _ => ih (fun e' he' => h e' (by simp [he'])) s'⟩

theorem Along.mono {Q : σ → ε → Prop} (h : ∀ s e, P s e → Q s e) (halong : Along step P s es) :
    Along step Q s es := by
  induction es generalizing s with
  | nil => exact along_nil Q s
  | cons e _ ih => exact ⟨h s e halong.1, fun s' hs' => ih (halong.2 s' hs')⟩

theorem Along.and {Q : σ → ε → Prop} (hP : Along step P s es) (hQ : Along step Q s es) :
    Along step (fun s e => P s e ∧ Q s e) s es := by
  induction es generalizing s with
  | nil => exact along_nil _ s
  | cons e _ ih => exact ⟨⟨hP.1, hQ.1⟩, fun s' hs' => ih (hP.2 s' hs') (hQ.2 s' hs')⟩

/-- A condition along a composed run holds along its first part. -/
theorem Along.of_append {fs : List ε} (h : Along step P s (es ++ fs)) : Along step P s es := by
  induction es generalizing s with
  | nil => exact along_nil P s
  | cons _ _ ih => exact ⟨h.1, fun s' hs' => ih (h.2 s' hs')⟩

/-- And from where the first part leads, along the second. -/
theorem Along.after {fs : List ε} (h : Along step P s (es ++ fs)) (hes : run step s es = some s') :
    Along step P s' fs := by
  induction es generalizing s with
  | nil =>
    cases hes
    exact h
  | cons _ _ ih =>
    obtain ⟨s₁, hs₁, hrest⟩ := run_cons_eq_some.mp hes
    exact ih (h.2 s₁ hs₁) hrest

/-- **The conditional invariant rule.** An invariant that a step preserves whenever the
condition holds before it is preserved by every run along which the condition holds. -/
theorem run_invariant_along (hstep : ∀ s e s', I s → P s e → step s e = some s' → I s') (hinv : I s)
    (halong : Along step P s es) (hrun : run step s es = some s') : I s' := by
  induction es generalizing s with
  | nil =>
    cases hrun
    exact hinv
  | cons e _ ih =>
    obtain ⟨s₁, hs₁, hrest⟩ := run_cons_eq_some.mp hrun
    exact ih (hstep s e s₁ hinv halong.1 hs₁) (halong.2 s₁ hs₁) hrest

/-- **A condition that cannot be done without.** Where a step that breaks the condition leads to a
state that no later step repairs, the runs along which the condition holds are told from the others
by where they end. -/
theorem good_iff_along {G B : σ → Prop} (hG : ∀ s, I s → G s) (hB : ∀ s, B s → ¬ G s)
    (hgood : ∀ s e s', I s → P s e → step s e = some s' → I s')
    (hbad : ∀ s e s', I s → ¬ P s e → step s e = some s' → B s')
    (hstay : ∀ s e s', B s → step s e = some s' → B s') (hinv : I s)
    (hrun : run step s es = some s') : G s' ↔ Along step P s es := by
  induction es generalizing s with
  | nil =>
    cases hrun
    exact iff_of_true (hG _ hinv) (along_nil P _)
  | cons e _ ih =>
    obtain ⟨s₁, hs₁, hrest⟩ := run_cons_eq_some.mp hrun
    by_cases hP : P s e
    · rw [ih (hgood s e s₁ hinv hP hs₁) hrest]
      exact ⟨fun h => .cons hP hs₁ h, fun h => h.2 s₁ hs₁⟩
    · exact iff_of_false (hB _ (run_invariant hstay (hbad s e s₁ hinv hP hs₁) hrest)) fun h => hP h.1

/-- **A condition that is necessary at every step.** If a step from a good state keeps the invariant
when the condition holds and does not lead to a good state when it does not, all prefixes of a run
are good if and only if the condition holds along it. -/
theorem prefixes_iff_along {G : σ → Prop} (hgood : ∀ s, I s → G s)
    (hkeep : ∀ s e s', I s → P s e → step s e = some s' → I s')
    (hneed : ∀ s e s', I s → step s e = some s' → G s' → P s e) (hinv : I s)
    (hrun : run step s es = some s') :
    (∀ pre s₁, pre <+: es → run step s pre = some s₁ → G s₁) ↔ Along step P s es := by
  constructor
  · intro hall
    induction es generalizing s with
    | nil => exact along_nil P s
    | cons e es ih =>
      obtain ⟨s₁, hs₁, hrest⟩ := run_cons_eq_some.mp hrun
      have hG : G s₁ := by
        refine hall [e] s₁ (List.prefix_append [e] es) ?_
        rw [run_cons, hs₁, bind_some, run_nil]
      have hP := hneed s e s₁ hinv hs₁ hG
      refine .cons hP hs₁ (ih (hkeep s e s₁ hinv hP hs₁) hrest fun pre s₂ hpre hs₂ => ?_)
      refine hall (e :: pre) s₂ ((List.prefix_cons_inj e).2 hpre) ?_
      exact run_cons_eq_some.2 ⟨s₁, hs₁, hs₂⟩
  · rintro halong pre s₁ ⟨suf, rfl⟩ hs₁
    exact hgood s₁ (run_invariant_along hkeep hinv halong.of_append hs₁)

/-! ## Systems of parties -/

section Parties

variable {α β : Type*} [DecidableEq α] {f f' : α → β} {a : α} {b : β}

/-- A party is the one that has changed, or is as before. -/
theorem update_cases (h : f' = update f a b) (a' : α) :
    a' = a ∧ f' a' = b ∨ a' ≠ a ∧ f' a' = f a' := by
  by_cases ha : a' = a
  · exact .inl ⟨ha, by rw [h, ha, update_self]⟩
  · exact .inr ⟨ha, by rw [h, update_of_ne ha]⟩

theorem forall_update {P : β → Prop} (hP : ∀ a, P (f a)) (h : f' = update f a b)
    (hb : P b) : ∀ a, P (f' a) := by
  intro a'
  rcases update_cases h a' with ⟨-, heq⟩ | ⟨-, heq⟩
  · rwa [heq]
  · rw [heq]
    exact hP a'

end Parties

end Runs
