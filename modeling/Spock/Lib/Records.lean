import Mathlib.Order.Basic
import Mathlib.Order.Lattice
import Mathlib.Data.List.Basic

/-!
# Records of a list: the elements above everything before them

A register that takes a new value only when the value's key exceeds the key it holds takes,
of a list of offers, exactly the *records*: the offers whose key exceeds the starting key and
every key offered before. This module has the records of a list and the two facts a
last-writer-wins argument needs:

* **`mem_records_iff`** — which offers are records, as a property of the order of delivery;
* **`foldl_offer_eq`** — folding the conditional update over the offers is folding the
  unconditional one over the records;
* **`foldl_offer_cases`** — which offer a register ends with: the first of those with the greatest
  key;
* **`foldl_field_eq`** — one field of a fold of partial updates is what the last update that
  carries the field gave it.
-/

namespace Records

open List

variable {α β κ : Type*} [LinearOrder κ]

/-- The elements whose key exceeds `b` and the key of every element before them. -/
def records (key : α → κ) : κ → List α → List α
  | _, [] => []
  | b, a :: l => if b < key a then a :: records key (key a) l else records key b l

@[simp] theorem records_nil (key : α → κ) (b : κ) : records key b [] = [] := rfl

variable {key : α → κ} {l : List α}

variable {b : κ} {a : α} {φ : Type*}

theorem records_cons_pos (h : b < key a) (l : List α) :
    records key b (a :: l) = a :: records key (key a) l := if_pos h

theorem records_cons_neg (h : ¬ b < key a) (l : List α) :
    records key b (a :: l) = records key b l := if_neg h

/-- A starting key below all keys does not matter. -/
theorem records_eq_of_lt {b' : κ} (h : ∀ a ∈ l, b < key a) (h' : ∀ a ∈ l, b' < key a) :
    records key b l = records key b' l := by
  cases l with
  | nil => rfl
  | cons a => rw [records_cons_pos (h a (by simp)), records_cons_pos (h' a (by simp))]

/-- **Which elements are records.** An element is a record at the place it stands when its key
exceeds the starting key and every key before that place. -/
theorem mem_records_iff :
    a ∈ records key b l ↔
      ∃ pre post, l = pre ++ a :: post ∧ b < key a ∧ ∀ x ∈ pre, key x < key a := by
  induction l generalizing b with
  | nil => simp
  | cons x l ih =>
    by_cases hx : b < key x
    · rw [records_cons_pos hx, mem_cons, ih]
      constructor
      · rintro (rfl | ⟨pre, post, rfl, hxa, hpre⟩)
        · exact ⟨[], l, rfl, hx, by simp⟩
        · refine ⟨x :: pre, post, rfl, hx.trans hxa, ?_⟩
          simpa [hxa] using hpre
      · rintro ⟨pre, post, hl, hba, hpre⟩
        cases pre with
        | nil => exact .inl (List.cons.inj hl).1.symm
        | cons _ pre =>
          obtain ⟨rfl, rfl⟩ := List.cons.inj hl
          exact .inr ⟨pre, post, rfl, hpre x (by simp), fun z hz => hpre z (by simp [hz])⟩
    · rw [records_cons_neg hx, ih]
      constructor
      · rintro ⟨pre, post, rfl, hba, hpre⟩
        refine ⟨x :: pre, post, rfl, hba, ?_⟩
        simpa [(not_lt.mp hx).trans_lt hba] using hpre
      · rintro ⟨pre, post, hl, hba, hpre⟩
        cases pre with
        | nil =>
          obtain ⟨rfl, rfl⟩ := List.cons.inj hl
          exact absurd hba hx
        | cons _ pre =>
          obtain ⟨rfl, rfl⟩ := List.cons.inj hl
          exact ⟨pre, post, rfl, hba, fun z hz => hpre z (by simp [hz])⟩

theorem mem_of_mem_records (h : a ∈ records key b l) : a ∈ l := by
  obtain ⟨_, _, rfl, -⟩ := mem_records_iff.mp h
  simp

/-- Records appear in strictly increasing order of key. -/
theorem records_sorted (key : α → κ) (b : κ) (l : List α) :
    (records key b l).Pairwise (fun x y => key x < key y) := by
  induction l generalizing b with
  | nil => exact List.Pairwise.nil
  | cons x _ ih =>
    by_cases hx : b < key x
    · rw [records_cons_pos hx]
      refine pairwise_cons.mpr ⟨fun y hy => ?_, ih (key x)⟩
      obtain ⟨-, -, -, hlt, -⟩ := mem_records_iff.mp hy
      exact hlt
    · rw [records_cons_neg hx]
      exact ih b

/-- **The conditional fold is the fold over the records.** `st` reads the key a state holds;
`upd` takes an offer. If an update leaves the offer's key in the state, then offering a list
one by one, each only when its key exceeds the key held, ends where the plain fold over the
records does. -/
theorem foldl_offer_eq (key : α → κ) (st : β → κ) (upd : β → α → β)
    (hst : ∀ s a, st (upd s a) = key a) (s : β) (l : List α) :
    l.foldl (fun s a => if st s < key a then upd s a else s) s
      = (records key (st s) l).foldl upd s := by
  induction l generalizing s with
  | nil => rfl
  | cons a _ ih =>
    by_cases ha : st s < key a
    · rw [foldl_cons, if_pos ha, ih, hst, records_cons_pos ha, foldl_cons]
    · rw [foldl_cons, if_neg ha, ih, records_cons_neg ha]

/-- **The offer that a register ends with.** If nothing exceeds the key the register starts with, it
keeps its value; otherwise it has the value of the first offer with the greatest key. -/
theorem foldl_offer_cases (key : α → κ) (st : β → κ) (out : β → φ) (val : α → φ) (upd : β → α → β)
    (hst : ∀ s a, st (upd s a) = max (st s) (key a))
    (hout : ∀ s a, out (upd s a) = if st s < key a then val a else out s) (s : β) (l : List α) :
    (out (l.foldl upd s) = out s ∧ ∀ a ∈ l, key a ≤ st s) ∨
      ∃ pre a post, l = pre ++ a :: post ∧ out (l.foldl upd s) = val a ∧ st s < key a ∧
        (∀ x ∈ pre, key x < key a) ∧ ∀ x ∈ post, key x ≤ key a := by
  induction l generalizing s with
  | nil => exact .inl ⟨rfl, nofun⟩
  | cons a l ih =>
    rw [foldl_cons]
    by_cases ha : st s < key a
    · have hkey : st (upd s a) = key a := (hst s a).trans (max_eq_right ha.le)
      have hval : out (upd s a) = val a := (hout s a).trans (if_pos ha)
      rcases ih (upd s a) with ⟨heq, hle⟩ | ⟨pre, b, post, rfl, heq, hlt, hpre, hpost⟩
      · refine .inr ⟨[], a, l, rfl, heq.trans hval, ha, nofun, fun x hx => ?_⟩
        exact (hle x hx).trans hkey.le
      · rw [hkey] at hlt
        exact .inr ⟨a :: pre, b, post, rfl, heq, ha.trans hlt, by simpa [hlt] using hpre, hpost⟩
    · have hkey : st (upd s a) = st s := (hst s a).trans (max_eq_left (not_lt.mp ha))
      have hval : out (upd s a) = out s := (hout s a).trans (if_neg ha)
      rcases ih (upd s a) with ⟨heq, hle⟩ | ⟨pre, b, post, rfl, heq, hlt, hpre, hpost⟩
      · refine .inl ⟨heq.trans hval, ?_⟩
        rw [hkey] at hle
        simpa [not_lt.mp ha] using hle
      · rw [hkey] at hlt
        have hab : key a < key b := lt_of_le_of_lt (not_lt.mp ha) hlt
        exact .inr ⟨a :: pre, b, post, rfl, heq, hlt, by simpa [hab] using hpre, hpost⟩

/-- An element whose key is the greatest, and exceeds the starting key, is the last record. -/
theorem getLast?_records {m : α} (hm : m ∈ l) (hb : b < key m)
    (hmax : ∀ x ∈ l, x ≠ m → key x < key m) : (records key b l).getLast? = some m := by
  induction l generalizing b with
  | nil => exact absurd hm not_mem_nil
  | cons x l ih =>
    have hrest : ∀ y ∈ l, y ≠ m → key y < key m := fun y hy => hmax y (mem_cons_of_mem x hy)
    by_cases hxm : x = m
    · subst hxm
      rw [records_cons_pos hb]
      -- nothing after the greatest element is above it
      have hnil : records key (key x) l = [] := by
        refine eq_nil_iff_forall_not_mem.mpr fun y hy => ?_
        obtain ⟨-, -, -, hlt, -⟩ := mem_records_iff.mp hy
        by_cases hyx : y = x
        · exact absurd hlt (by rw [hyx]; exact lt_irrefl _)
        · exact absurd hlt (hrest y (mem_of_mem_records hy) hyx).asymm
      rw [hnil]
      rfl
    · have hml : m ∈ l := (mem_cons.mp hm).resolve_left fun h => hxm h.symm
      by_cases hx : b < key x
      · rw [records_cons_pos hx]
        have hlast := ih hml (hmax x (by simp) hxm) hrest
        rw [getLast?_cons, hlast]
        rfl
      · rw [records_cons_neg hx]
        exact ih hml hb hrest

/-- **One field of a fold of partial updates.** If an update either sets the field to what it
carries or leaves it alone, the fold leaves what the last carrying update carries. -/
theorem foldl_field_eq (field : β → φ) (carries : α → Option φ) (upd : β → α → β)
    (h : ∀ s a, field (upd s a) = (carries a).getD (field s)) (s : β) (l : List α) :
    field (l.foldl upd s) = (l.reverse.findSome? carries).getD (field s) := by
  induction l generalizing s with
  | nil => rfl
  | cons a l ih =>
    rw [foldl_cons, ih, h, reverse_cons, findSome?_append]
    cases l.reverse.findSome? carries with
    | none => cases ha : carries a <;> simp [ha]
    | some => rfl

/-- The last element of a sorted list that carries a field is the greatest that does. -/
theorem findSome?_reverse_eq_of_sorted {carries : α → Option φ}
    (hsorted : l.Pairwise fun x y => key x < key y) {m : α} (hm : m ∈ l) {x : φ}
    (hx : carries m = some x) (hmax : ∀ a ∈ l, (carries a).isSome → key a ≤ key m) :
    l.reverse.findSome? carries = some x := by
  obtain ⟨_, post, rfl⟩ := append_of_mem hm
  -- after `m` only greater keys come, and those carry nothing
  have hpost : post.reverse.findSome? carries = none := by
    refine findSome?_eq_none_iff.mpr fun a ha => ?_
    rw [mem_reverse] at ha
    have hlt : key m < key a :=
      (pairwise_cons.mp (pairwise_append.mp hsorted).2.1).1 a ha
    by_contra hne
    exact absurd (hmax a (by simp [ha]) (Option.isSome_iff_ne_none.mpr hne)) hlt.not_ge
  rw [reverse_append, reverse_cons, findSome?_append, findSome?_append, hpost]
  simp [hx]

end Records
