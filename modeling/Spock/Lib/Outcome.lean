import Mathlib.Order.Defs.Unbundled

/-!
# Postconditions of programs that raise

An `EStateM` program ends normally or raises, and keeps the state it had reached either way. A
specification is a pair of postconditions, one for each end. The rules follow the program:

* **`ends_bind`** — a sequence ends as its second part does after the first, or as the first
  raises;
* **`Ends.mono`** — the rule of consequence;
* **`Keeps`** — a preorder between the states before and after that holds however the program
  ends, with a rule for each construct;
* **`Maintains`** — an invariant, of which less may be left if the program raises.
-/

namespace Outcome

variable {ε σ α β : Type}

/-- Run from `s`, the program ends normally in `Q` or raises in `R`. -/
def Ends (x : EStateM ε σ α) (s : σ) (Q : α → σ → Prop) (R : ε → σ → Prop) : Prop :=
  match x s with
  | .ok a s' => Q a s'
  | .error e s' => R e s'

variable {Q : α → σ → Prop} {R : ε → σ → Prop} {s : σ}

@[simp] theorem ends_pure (a : α) : Ends (pure a : EStateM ε σ α) s Q R ↔ Q a s := Iff.rfl

@[simp] theorem ends_modify {Q : PUnit → σ → Prop} (f : σ → σ) :
    Ends (modify f : EStateM ε σ PUnit) s Q R ↔ Q ⟨⟩ (f s) := Iff.rfl

@[simp] theorem ends_get {Q : σ → σ → Prop} : Ends (get : EStateM ε σ σ) s Q R ↔ Q s s := Iff.rfl

@[simp] theorem ends_throw (e : ε) : Ends (throw e : EStateM ε σ α) s Q R ↔ R e s := Iff.rfl

@[simp] theorem ends_bind {Q : β → σ → Prop} (x : EStateM ε σ α) (f : α → EStateM ε σ β) :
    Ends (x >>= f) s Q R ↔ Ends x s (fun a s' => Ends (f a) s' Q R) R := by
  show (match EStateM.bind x f s with | .ok a s' => Q a s' | .error e s' => R e s') ↔ _
  unfold Ends EStateM.bind
  cases x s <;> rfl

theorem ends_ite {c : Prop} [Decidable c] {x y : EStateM ε σ α} :
    Ends (if c then x else y) s Q R ↔ (c → Ends x s Q R) ∧ (¬ c → Ends y s Q R) := by
  by_cases h : c <;> simp [h]

theorem ends_of_ok {x : EStateM ε σ α} {a : α} {s' : σ} (h : x s = .ok a s') :
    Ends x s Q R ↔ Q a s' := by
  unfold Ends
  rw [h]

/-- The rule of consequence. -/
theorem Ends.mono {x : EStateM ε σ α} {Q' : α → σ → Prop} {R' : ε → σ → Prop}
    (h : Ends x s Q R) (hQ : ∀ a s', Q a s' → Q' a s') (hR : ∀ e s', R e s' → R' e s') :
    Ends x s Q' R' := by
  unfold Ends at h ⊢
  cases hx : x s with
  | ok a s' =>
    rw [hx] at h
    exact hQ a s' h
  | error e s' =>
    rw [hx] at h
    exact hR e s' h

theorem Ends.imp {x : EStateM ε σ α} {Q' : α → σ → Prop} (h : Ends x s Q R)
    (hQ : ∀ a s', Q a s' → Q' a s') : Ends x s Q' R := h.mono hQ fun _ _ h => h

/-- The rule of a sequence. -/
theorem Ends.bind {x : EStateM ε σ α} {f : α → EStateM ε σ β} {Q' : β → σ → Prop}
    (h : Ends x s Q R) (hf : ∀ a s', Q a s' → Ends (f a) s' Q' R) : Ends (x >>= f) s Q' R :=
  (ends_bind x f).2 (h.imp hf)

/-- Two specifications of one run hold together. -/
theorem Ends.and {x : EStateM ε σ α} {Q' : α → σ → Prop} {R' : ε → σ → Prop}
    (h : Ends x s Q R) (h' : Ends x s Q' R') :
    Ends x s (fun a s' => Q a s' ∧ Q' a s') (fun e s' => R e s' ∧ R' e s') := by
  unfold Ends at h h' ⊢
  cases hx : x s with
  | ok | error =>
    rw [hx] at h h'
    exact ⟨h, h'⟩

/-! ## Relations a program keeps -/

/-- However the program ends, the state it ends in is related to the one it started in. -/
def Keeps (r : σ → σ → Prop) (x : EStateM ε σ α) : Prop :=
  ∀ s, Ends x s (fun _ s' => r s s') (fun _ s' => r s s')

/-- The two states agree in what `f` reads. -/
def Same {γ : Type} (f : σ → γ) (s s' : σ) : Prop := f s' = f s

instance {γ : Type} (f : σ → γ) : IsPreorder σ (Same f) where
  refl _ := rfl
  trans _ _ _ h h' := Eq.trans h' h

section Keeps

variable {r : σ → σ → Prop} [Std.Refl r]

theorem keeps_pure (a : α) : Keeps r (pure a : EStateM ε σ α) := Std.Refl.refl

theorem keeps_get : Keeps r (get : EStateM ε σ σ) := Std.Refl.refl

theorem keeps_throw (e : ε) : Keeps r (throw e : EStateM ε σ α) := Std.Refl.refl

omit [Std.Refl r] in
theorem keeps_modify {f : σ → σ} (h : ∀ s, r s (f s)) :
    Keeps r (modify f : EStateM ε σ PUnit) := h

omit [Std.Refl r] in
theorem keeps_ite {c : Prop} [Decidable c] {x y : EStateM ε σ α} (hx : Keeps r x)
    (hy : Keeps r y) : Keeps r (if c then x else y) := by
  by_cases h : c
  · rw [if_pos h]
    exact hx
  · rw [if_neg h]
    exact hy

omit [Std.Refl r] in
theorem keeps_bind [IsTrans σ r] {x : EStateM ε σ α} {f : α → EStateM ε σ β} (hx : Keeps r x)
    (hf : ∀ a, Keeps r (f a)) : Keeps r (x >>= f) := by
  intro s
  rw [ends_bind]
  refine (hx s).mono ?_ fun _ _ h => h
  intro a s' hs'
  exact (hf a s').mono (fun _ _ h => IsTrans.trans _ _ _ hs' h) (fun _ _ h => IsTrans.trans _ _ _ hs' h)

end Keeps

/-! ## Invariants -/

/-- From `I` the program ends in `I`, or raises in `J`. -/
def Maintains (I J : σ → Prop) (x : EStateM ε σ α) : Prop :=
  ∀ s, I s → Ends x s (fun _ s' => I s') (fun _ s' => J s')

section Maintains

variable {I J : σ → Prop}

theorem maintains_pure (a : α) : Maintains I J (pure a : EStateM ε σ α) := fun _ h => h

theorem maintains_get : Maintains I J (get : EStateM ε σ σ) := fun _ h => h

theorem maintains_throw (h : ∀ s, I s → J s) (e : ε) : Maintains I J (throw e : EStateM ε σ α) := h

theorem maintains_modify {f : σ → σ} (h : ∀ s, I s → I (f s)) :
    Maintains I J (modify f : EStateM ε σ PUnit) := h

theorem maintains_ite {c : Prop} [Decidable c] {x y : EStateM ε σ α} (hx : Maintains I J x)
    (hy : Maintains I J y) : Maintains I J (if c then x else y) :=
  fun s h => ends_ite.2 ⟨fun _ => hx s h, fun _ => hy s h⟩

theorem maintains_bind {x : EStateM ε σ α} {f : α → EStateM ε σ β} (hx : Maintains I J x)
    (hf : ∀ a, Maintains I J (f a)) : Maintains I J (x >>= f) :=
  fun s h => (ends_bind x f).2 ((hx s h).mono (hf) fun _ _ h => h)

end Maintains

end Outcome
