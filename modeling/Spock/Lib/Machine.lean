import Spock.Lib.Runs

/-!
# Machines with output, and simulation

A machine reads an event and answers with a new state and a list of outputs; `none` means that the
event is not enabled. Two machines over the same events can be compared by a relation between their
states:

* **`trace_append`** — traces compose;
* **`trace_invariant_along`** — what every step preserves, and what it then gives for its outputs;
* **`simulation`** — if related states answer each event alike, so do they answer each list of
  events; a condition on the first machine's steps may be needed, and then holds along its run.
-/

namespace Machine

open Runs List Option

variable {σ τ ε ω : Type*}

/-- The outputs of a list of events, and the state after them. -/
def trace (step : σ → ε → Option (List ω × σ)) : σ → List ε → Option (List ω × σ)
  | s, [] => some ([], s)
  | s, e :: es => (step s e).bind fun (o, s') => (trace step s' es).map fun r => (o ++ r.1, r.2)

/-- The step without its outputs. -/
def next (step : σ → ε → Option (List ω × σ)) (s : σ) (e : ε) : Option σ := (step s e).map Prod.snd

variable {step : σ → ε → Option (List ω × σ)} {step' : τ → ε → Option (List ω × τ)}

variable {s : σ} {es : List ε} {P : σ → ε → Prop} {R : σ → τ → Prop} {x : Option (List ω × σ)}
  {y : Option (List ω × τ)}

theorem trace_cons_some {s' : σ} {e : ε} {o : List ω} (h : step s e = some (o, s')) :
    trace step s (e :: es) = (trace step s' es).map fun r => (o ++ r.1, r.2) := by
  rw [trace, h]
  rfl

theorem trace_append (s : σ) (es fs : List ε) :
    trace step s (es ++ fs) = (trace step s es).bind fun r =>
      (trace step r.2 fs).map fun r' => (r.1 ++ r'.1, r'.2) := by
  induction es generalizing s with
  | nil =>
    rw [nil_append, trace, bind_some]
    simp
  | cons e es ih =>
    rw [cons_append, trace, trace]
    cases hstep : step s e with
    | none => rfl
    | some r =>
      simp only [bind_some]
      rw [ih]
      cases htrace : trace step r.2 es with
      | none => rfl
      | some => simp [Function.comp_def, append_assoc]

/-- **Invariants and outputs.** -/
theorem trace_invariant_along {I : σ → Prop} {Q : ω → Prop}
    (hstep : ∀ s e o s', I s → P s e → step s e = some (o, s') → I s' ∧ ∀ x ∈ o, Q x) {s' : σ}
    {out : List ω} (hinv : I s) (halong : Along (next step) P s es)
    (htrace : trace step s es = some (out, s')) : I s' ∧ ∀ x ∈ out, Q x := by
  induction es generalizing s out with
  | nil =>
    cases htrace
    exact ⟨hinv, fun x hx => absurd hx not_mem_nil⟩
  | cons e _ ih =>
    rw [trace] at htrace
    obtain ⟨⟨o, s₁⟩, hs₁, hrest⟩ := bind_eq_some_iff.1 htrace
    obtain ⟨⟨_, _⟩, hout, heq⟩ := map_eq_some_iff.1 hrest
    cases heq
    obtain ⟨hinv₁, hfirst⟩ := hstep s e o s₁ hinv halong.1 hs₁
    obtain ⟨hinv', hothers⟩ := ih hinv₁ (halong.2 s₁ (by rw [next, hs₁]; rfl)) hout
    refine ⟨hinv', fun x hx => ?_⟩
    rcases mem_append.1 hx with hx | hx
    · exact hfirst x hx
    · exact hothers x hx

/-- The answers of two machines to the same events: both refuse, or the outputs are the same and the
states after them are related. -/
def Alike (R : σ → τ → Prop) : Option (List ω × σ) → Option (List ω × τ) → Prop :=
  Option.Rel fun r r' => r.1 = r'.1 ∧ R r.2 r'.2

theorem Alike.bind {f : List ω × σ → Option (List ω × σ)} {g : List ω × τ → Option (List ω × τ)}
    (h : Alike R x y) (hfg : ∀ o s t, x = some (o, s) → R s t → Alike R (f (o, s)) (g (o, t))) :
    Alike R (x.bind f) (y.bind g) := by
  cases h with
  | none => exact .none
  | @some r r' h =>
    obtain ⟨o, s⟩ := r
    obtain ⟨o', t⟩ := r'
    obtain ⟨rfl, hrel⟩ : o = o' ∧ R s t := h
    exact hfg o s t rfl hrel

theorem Alike.prepend (h : Alike R x y) (o : List ω) :
    Alike R (x.map fun r => (o ++ r.1, r.2)) (y.map fun r => (o ++ r.1, r.2)) := by
  cases h with
  | none => exact .none
  | some h => exact .some ⟨congrArg (o ++ ·) h.1, h.2⟩

/-- **Simulation.** -/
theorem simulation (hstep : ∀ s t e, R s t → P s e → Alike R (step s e) (step' t e)) {t : τ}
    (es : List ε) (hrel : R s t) (halong : Along (next step) P s es) :
    Alike R (trace step s es) (trace step' t es) := by
  induction es generalizing s t with
  | nil => exact .some ⟨rfl, hrel⟩
  | cons e _ ih =>
    refine (hstep s t e hrel halong.1).bind fun o s₁ t₁ hs hrel₁ => ?_
    exact (ih hrel₁ (halong.2 s₁ (by rw [next, hs]; rfl))).prepend o

end Machine
