import Mathlib.Logic.Function.Basic

/-!
# Settings with nest levels

A table of settings that are assigned inside of nested levels. Each level remembers, for the
settings assigned in it, what leaving it has to do: a plain assignment is kept when the level ends
well, a local one and one made on entering the level are undone. A level that is given up is undone
altogether.

* **`Settings.assign`**, **`Settings.enter`**, **`Settings.commit`**, **`Settings.abort`** — an
  assignment, and the ends of a level;
* **`Effect.run`** — a program of assignments and nested levels;
* **`abort_of_undoes`** — a level that is given up leaves nothing;
* **`Settings.IsSound`** — whichever way the levels end, all settings come back to base values;
* **`isSound_run`** — a program whose plain assignments are of the base values keeps this;
* **`Settled.run_level`** — so that a level run on top of settled levels leaves the settings alone.
-/

namespace NestLevels

open List Function

variable {Name Value : Type}

/-! ## Levels -/

/-- What a level remembers of a setting: the value before, and for a plain assignment hidden by a
local one, the value that it assigned. -/
inductive Entry (Value : Type) where
  | save (prior : Value)
  | set (prior : Value)
  | setLocal (prior : Value)
  | setThenLocal (prior masked : Value)
  deriving DecidableEq

namespace Entry

def prior : Entry Value → Value
  | .save prior | .set prior | .setLocal prior | .setThenLocal prior _ => prior

/-- The value after a level that ended well. -/
def kept (current : Value) : Entry Value → Value
  | .save prior | .setLocal prior => prior
  | .set _ => current
  | .setThenLocal _ masked => masked

/-- There was a plain assignment. -/
def isSet : Entry Value → Bool
  | .set _ | .setThenLocal _ _ => true
  | .save _ | .setLocal _ => false

/-- The value before, if the setting was assigned in the level at all. -/
def original (current : Value) (e : Option (Entry Value)) : Value := (e.map prior).getD current

/-- The entry of a setting that is assigned, from the one it had and its value so far. -/
def push (isLocal : Bool) (current : Value) (e : Option (Entry Value)) : Entry Value :=
  if isLocal then
    match e with
    | none => .setLocal current
    | some (.set prior) => .setThenLocal prior current
    | some e => e
  else .set (original current e)

/-- What the level outside remembers once the level inside has ended well. -/
def merge (inner outer : Option (Entry Value)) : Option (Entry Value) :=
  match inner with
  | some e => if e.isSet then some (.set (original e.prior outer)) else outer
  | none => outer

end Entry

/-- What one level remembers. -/
abbrev Level (Name Value : Type) := Name → Option (Entry Value)

/-- The settings in force, and the levels from the innermost out. -/
structure Settings (Name Value : Type) where
  value : Name → Value
  levels : List (Level Name Value)

/-- What a level leaves to the next one out. -/
def mergeInto (l : Level Name Value) : List (Level Name Value) → List (Level Name Value)
  | [] => []
  | l' :: levels => (fun n => Entry.merge (l n) (l' n)) :: levels

namespace Settings

/-- The innermost level ends well. -/
def commit (s : Settings Name Value) : Settings Name Value :=
  match s.levels with
  | [] => s
  | l :: levels => ⟨fun n => ((l n).map (·.kept (s.value n))).getD (s.value n), mergeInto l levels⟩

/-- The innermost level is given up. -/
def abort (s : Settings Name Value) : Settings Name Value :=
  match s.levels with
  | [] => s
  | l :: levels => ⟨fun n => Entry.original (s.value n) (l n), levels⟩

variable [DecidableEq Name]

/-- A new level, with assignments that last as long as it does. -/
def enter (saves : List (Name × Value)) (s : Settings Name Value) : Settings Name Value where
  value n := (saves.lookup n).getD (s.value n)
  levels := (fun n => (saves.lookup n).map fun _ => .save (s.value n)) :: s.levels

/-- An assignment. Without a level nothing is remembered. -/
def assign (isLocal : Bool) (n : Name) (v : Value) (s : Settings Name Value) :
    Settings Name Value where
  value := Function.update s.value n v
  levels :=
    match s.levels with
    | [] => []
    | l :: levels => Function.update l n (some (.push isLocal (s.value n) (l n))) :: levels

end Settings

/-- A program of assignments and levels. -/
inductive Effect (Name Value : Type) where
  | nothing
  | assign (isLocal : Bool) (n : Name) (v : Value)
  | seq (first second : Effect Name Value)
  | level (isCommit : Bool) (saves : List (Name × Value)) (body : Effect Name Value)

namespace Effect

def run [DecidableEq Name] : Effect Name Value → Settings Name Value → Settings Name Value
  | .nothing, s => s
  | .assign isLocal n v, s => s.assign isLocal n v
  | .seq first second, s => second.run (first.run s)
  | .level true saves body, s => (body.run (s.enter saves)).commit
  | .level false saves body, s => (body.run (s.enter saves)).abort

/-- Plain assignments, except in levels that are given up, are of the base values. -/
def Keeps (base : Name → Value) : Effect Name Value → Prop
  | .nothing => True
  | .assign isLocal n v => isLocal = false → v = base n
  | .seq first second => first.Keeps base ∧ second.Keeps base
  | .level isCommit _ body => isCommit = true → body.Keeps base

instance decidableKeeps [DecidableEq Value] (base : Name → Value) :
    (e : Effect Name Value) → Decidable (e.Keeps base)
  | .nothing => isTrue trivial
  | .assign _ _ _ => inferInstanceAs (Decidable (_ → _))
  | .seq first second =>
    have := decidableKeeps base first
    have := decidableKeeps base second
    inferInstanceAs (Decidable (_ ∧ _))
  | .level isCommit _ body =>
    have := decidableKeeps base body
    inferInstanceAs (Decidable (isCommit = true → body.Keeps base))

end Effect

section Ends

variable {s : Settings Name Value}

theorem commit_nil (h : s.levels = []) : s.commit = s := by
  rw [Settings.commit, h]

theorem abort_nil (h : s.levels = []) : s.abort = s := by
  rw [Settings.abort, h]

variable {l : Level Name Value} {levels : List (Level Name Value)}

theorem commit_cons (h : s.levels = l :: levels) : s.commit =
      ⟨fun n => ((l n).map (·.kept (s.value n))).getD (s.value n), mergeInto l levels⟩ := by
  rw [Settings.commit, h]

theorem abort_cons (h : s.levels = l :: levels) :
    s.abort = ⟨fun n => Entry.original (s.value n) (l n), levels⟩ := by
  rw [Settings.abort, h]

end Ends

/-! ## A level that is given up -/

section Undoes

variable {s₀ s : Settings Name Value}

/-- The levels of `s` are those of `s₀` and one more, which leads back to the settings of `s₀`. -/
def Undoes (s₀ s : Settings Name Value) : Prop :=
  ∃ l, s.levels = l :: s₀.levels ∧ ∀ n, Entry.original (s.value n) (l n) = s₀.value n

/-- **A level that is given up leaves nothing.** -/
theorem abort_of_undoes (h : Undoes s₀ s) : s.abort = s₀ := by
  obtain ⟨l, hlevels, hvalue⟩ := h
  rw [abort_cons hlevels, funext hvalue]

theorem original_push (isLocal : Bool) (current v : Value) (e : Option (Entry Value)) :
    Entry.original v (some (.push isLocal current e)) = Entry.original current e := by
  cases isLocal with
  | false => rfl
  | true => rcases e with _ | _ | _ | _ | _ <;> rfl

/-- A level that ended well: what the next one remembers is still the value before. -/
theorem original_merge {current outside : Value} {inner outer : Option (Entry Value)}
    (h : Entry.original current inner = outside) :
    Entry.original ((inner.map (·.kept current)).getD current) (Entry.merge inner outer) =
      Entry.original outside outer := by
  subst h
  rcases inner with _ | _ | _ | _ | _ <;> cases outer <;> rfl

theorem undoes_commit {s₁ : Settings Name Value} (h : Undoes s₀ s) (h₁ : Undoes s s₁) :
    Undoes s₀ s₁.commit := by
  obtain ⟨l, hlevels, hvalue⟩ := h
  obtain ⟨_, hlevels₁, hvalue₁⟩ := h₁
  rw [hlevels] at hlevels₁
  rw [commit_cons hlevels₁]
  refine ⟨_, rfl, fun n => ?_⟩
  rw [← hvalue n]
  exact original_merge (hvalue₁ n)

variable [DecidableEq Name]

theorem undoes_enter (saves : List (Name × Value)) (s : Settings Name Value) :
    Undoes s (s.enter saves) := by
  refine ⟨_, rfl, fun n => ?_⟩
  unfold Settings.enter
  dsimp only
  cases saves.lookup n <;> rfl

theorem undoes_assign (h : Undoes s₀ s) (isLocal : Bool) (n : Name) (v : Value) :
    Undoes s₀ (s.assign isLocal n v) := by
  obtain ⟨l, hlevels, hvalue⟩ := h
  unfold Settings.assign
  rw [hlevels]
  refine ⟨_, rfl, fun m => ?_⟩
  rw [← hvalue m]
  dsimp only
  by_cases hm : m = n
  · subst hm
    rw [update_self, update_self, original_push]
  · rw [update_of_ne hm, update_of_ne hm]

/-- Whatever a program does inside of a level can be undone. -/
theorem undoes_run (body : Effect Name Value) (h : Undoes s₀ s) : Undoes s₀ (body.run s) := by
  induction body generalizing s₀ s with
  | nothing => exact h
  | assign isLocal n v => exact undoes_assign h isLocal n v
  | seq _ _ ih₁ ih₂ => exact ih₂ (ih₁ h)
  | level isCommit saves body ih =>
    have hbody : Undoes s (body.run (s.enter saves)) := ih (undoes_enter saves s)
    cases isCommit with
    | true => exact undoes_commit h hbody
    | false =>
      unfold Effect.run
      rw [abort_of_undoes hbody]
      exact h

end Undoes

/-! ## Back to the base values -/

/-- Whichever way the levels end, a setting with this value and these entries is the base value
then. -/
def Sound (base : Value) : Value → List (Option (Entry Value)) → Prop
  | v, [] => v = base
  | v, none :: es => Sound base v es
  | v, some (.set prior) :: es => v = base ∧ Sound base prior es
  | _, some (.save prior) :: es => Sound base prior es
  | _, some (.setLocal prior) :: es => Sound base prior es
  | _, some (.setThenLocal prior masked) :: es => masked = base ∧ Sound base prior es

section Sound

variable {base v : Value} {es : List (Option (Entry Value))} {e : Option (Entry Value)}

/-- What a level remembers leads back as well. -/
theorem Sound.original (h : Sound base v (e :: es)) : Sound base (Entry.original v e) es := by
  rcases e with _ | _ | _ | _ | _
  · exact h
  · exact h
  · exact h.2
  · exact h
  · exact h.2

theorem Sound.push (h : Sound base v (e :: es)) {isLocal : Bool} {v' : Value}
    (hset : isLocal = false → v' = base) : Sound base v' (some (.push isLocal v e) :: es) := by
  cases isLocal with
  | false => exact ⟨hset rfl, h.original⟩
  | true => rcases e with _ | _ | _ | _ | _ <;> exact h

/-- The end of the outermost level. -/
theorem Sound.kept_nil (h : Sound base v [e]) : (e.map (·.kept v)).getD v = base := by
  rcases e with _ | _ | _ | _ | _
  · exact h
  · exact h
  · exact h.1
  · exact h
  · exact h.1

/-- The end of another level. The next one out remembers a plain assignment, of the base value. -/
theorem Sound.kept_cons {outer : Option (Entry Value)} (h : Sound base v (e :: outer :: es)) :
    Sound base ((e.map (·.kept v)).getD v) (Entry.merge e outer :: es) := by
  rcases e with _ | _ | _ | _ | _
  · exact h
  · exact h
  · exact ⟨h.1, h.2.original⟩
  · exact h
  · exact ⟨h.1, h.2.original⟩

end Sound

/-- All settings come back to their base values. -/
def Settings.IsSound (base : Name → Value) (s : Settings Name Value) : Prop :=
  ∀ n, Sound (base n) (s.value n) (s.levels.map (· n))

section IsSound

variable {base : Name → Value} {s : Settings Name Value}

theorem isSound_commit (h : s.IsSound base) : s.commit.IsSound base := by
  intro n
  have hn := h n
  cases hlevels : s.levels with
  | nil =>
    rw [commit_nil hlevels]
    exact hn
  | cons _ levels =>
    rw [hlevels] at hn
    rw [commit_cons hlevels]
    cases levels with
    | nil => exact hn.kept_nil
    | cons => exact hn.kept_cons

variable [DecidableEq Name]

theorem isSound_enter (h : s.IsSound base) (saves : List (Name × Value)) :
    (s.enter saves).IsSound base := by
  intro n
  have hn := h n
  unfold Settings.enter
  rw [map_cons]
  dsimp only
  cases saves.lookup n <;> exact hn

theorem isSound_assign (h : s.IsSound base) {isLocal : Bool} {n : Name} {v : Value}
    (hset : isLocal = false → v = base n) (hlevels : s.levels ≠ []) :
    (s.assign isLocal n v).IsSound base := by
  intro m
  have hm := h m
  unfold Settings.assign
  cases hl : s.levels with
  | nil => exact absurd hl hlevels
  | cons =>
    rw [hl] at hm
    dsimp only
    rw [map_cons]
    by_cases hmn : m = n
    · subst hmn
      rw [update_self, update_self]
      exact Sound.push hm hset
    · rw [update_of_ne hmn, update_of_ne hmn]
      exact hm

/-- **A program whose plain assignments are of the base values.** A level that is given up may
assign what it likes. -/
theorem isSound_run {body : Effect Name Value} (hbody : body.Keeps base) (h : s.IsSound base)
    {s₀ : Settings Name Value} (hlevels : Undoes s₀ s) : (body.run s).IsSound base := by
  induction body generalizing s₀ s with
  | nothing => exact h
  | assign =>
    obtain ⟨l, hl, -⟩ := hlevels
    exact isSound_assign h hbody (by rw [hl]; exact cons_ne_nil _ _)
  | seq first _ ih₁ ih₂ => exact ih₂ hbody.2 (ih₁ hbody.1 h hlevels) (undoes_run first hlevels)
  | level isCommit saves body ih =>
    cases isCommit with
    | true => exact isSound_commit (ih (hbody rfl) (isSound_enter h saves) (undoes_enter saves s))
    | false =>
      unfold Effect.run
      rw [abort_of_undoes (undoes_run body (undoes_enter saves s))]
      exact h

end IsSound

/-! ## Settled levels -/

/-- The settings have the base values, and the levels remember plain assignments of these. -/
structure Settled (base : Name → Value) (s : Settings Name Value) : Prop where
  value : s.value = base
  levels : ∀ l ∈ s.levels, ∀ n e, l n = some e → e = .set (base n)

section Settled

variable {base : Name → Value} {s : Settings Name Value}

variable {levels : List (Level Name Value)}

/-- With such levels, a sound value is the base value; and the other way around. -/
theorem sound_iff_of_settled (h : ∀ l ∈ levels, ∀ n e, l n = some e → e = .set (base n)) (n : Name)
    (v : Value) : Sound (base n) v (levels.map (· n)) ↔ v = base n := by
  induction levels generalizing v with
  | nil => exact Iff.rfl
  | cons l _ ih =>
    have hrest := ih fun l' hl' => h l' (mem_cons_of_mem _ hl')
    rw [map_cons]
    cases hl : l n with
    | none => exact hrest v
    | some e =>
      rw [h l mem_cons_self n e hl]
      exact ⟨fun hv => hv.1, fun hv => ⟨hv, (hrest _).mpr rfl⟩⟩

theorem Settled.isSound (h : Settled base s) : s.IsSound base := fun n =>
  (sound_iff_of_settled h.levels n _).mpr (congrFun h.value n)

theorem Settled.abort (h : Settled base s) : Settled base s.abort := by
  cases hlevels : s.levels with
  | nil =>
    rw [abort_nil hlevels]
    exact h
  | cons l levels =>
    have hl := h.levels
    rw [hlevels] at hl
    rw [abort_cons hlevels]
    refine ⟨funext fun n => ?_, fun l' hl' => hl l' (mem_cons_of_mem _ hl')⟩
    dsimp only
    cases hn : l n with
    | none => exact congrFun h.value n
    | some e =>
      rw [hl l mem_cons_self n e hn]
      rfl

/-- The innermost level ends well. What it remembers as the values before are the base values, so
that the next one out remembers plain assignments of these. -/
theorem settled_commit {l : Level Name Value} (hsound : s.IsSound base)
    (hlevels : s.levels = l :: levels) (hl : ∀ n e, l n = some e → e.prior = base n)
    (hrest : ∀ l ∈ levels, ∀ n e, l n = some e → e = .set (base n)) : Settled base s.commit := by
  have hmerged : ∀ l' ∈ mergeInto l levels, ∀ n e, l' n = some e → e = .set (base n) := by
    cases levels with
    | nil => exact fun l' hl' => nomatch hl'
    | cons outer =>
      intro l' hl' n e hn
      rcases mem_cons.mp hl' with rfl | hl'
      · have houter := hrest outer mem_cons_self n
        dsimp only [Entry.merge] at hn
        split at hn
        · rename_i inner hinner
          split at hn
          · cases hn
            cases ho : outer n with
            | none => exact congrArg Entry.set (hl n inner hinner)
            | some e' =>
              rw [houter e' ho]
              rfl
          · exact houter e hn
        · exact houter e hn
      · exact hrest l' (mem_cons_of_mem _ hl') n e hn
  have hcommit := isSound_commit hsound
  rw [commit_cons hlevels] at hcommit ⊢
  exact ⟨funext fun n => (sound_iff_of_settled hmerged n _).mp (hcommit n), hmerged⟩

theorem Settled.commit (h : Settled base s) : Settled base s.commit := by
  cases hlevels : s.levels with
  | nil =>
    rw [commit_nil hlevels]
    exact h
  | cons l levels =>
    have hl := h.levels
    rw [hlevels] at hl
    refine settled_commit h.isSound hlevels (fun n e hn => ?_) fun l' hl' =>
      hl l' (mem_cons_of_mem _ hl')
    rw [hl l mem_cons_self n e hn]
    rfl

variable [DecidableEq Name]

/-- **A level on top of settled levels**, whose plain assignments are of the base values, leaves
them settled. -/
theorem Settled.run_level (h : Settled base s) {body : Effect Name Value} (hbody : body.Keeps base)
    (saves : List (Name × Value)) : Settled base ((Effect.level true saves body).run s) := by
  have hsound : (body.run (s.enter saves)).IsSound base :=
    isSound_run hbody (isSound_enter h.isSound saves) (undoes_enter saves s)
  obtain ⟨l, hlevels, hvalue⟩ := undoes_run body (undoes_enter saves s)
  refine settled_commit hsound hlevels (fun n e hn => ?_) h.levels
  have hprior := hvalue n
  rw [hn, congrFun h.value n] at hprior
  exact hprior

end Settled

end NestLevels
