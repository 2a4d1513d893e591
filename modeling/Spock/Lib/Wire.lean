import Mathlib.Data.List.Basic

/-!
# Reading what was written

A reader consumes bytes from the front of a message and returns a value, or fails. A value that was
written as `bytes` is read back if the reader, given these bytes and any rest, returns the value and
leaves the rest. In this form the rules follow the reader's own structure:

* **`Reads.bind`** — a sequence of readers reads the bytes of both, one after the other;
* **`reads_repeat`** — a loop with a count.
-/

namespace Wire

variable {ε α β γ : Type}

/-- Bytes still to be read in, and the value and the rest out. -/
abbrev Reader (ε : Type) := StateT (List UInt8) (Except ε)

/-- The reader takes exactly `bytes` and returns `a`. -/
def Reads (r : Reader ε α) (bytes : List UInt8) (a : α) : Prop :=
  ∀ rest, r (bytes ++ rest) = .ok (a, rest)

variable {r : Reader ε α} {bytes : List UInt8} {f : α → Reader ε β}

variable {a : α} {bytes' : List UInt8}

theorem Reads.run (h : Reads r bytes a) : r bytes = .ok (a, []) := by
  have hrun := h []
  rwa [List.append_nil] at hrun

theorem reads_pure (a : α) : Reads (pure a : Reader ε α) [] a := fun _ => rfl

theorem Reads.bind {b : β} (h : Reads r bytes a) (h' : Reads (f a) bytes' b) :
    Reads (r >>= f) (bytes ++ bytes') b := by
  intro rest
  show (r (bytes ++ bytes' ++ rest) >>= fun p => f p.1 p.2) = _
  rw [List.append_assoc, h]
  exact h' rest

theorem Reads.bind_pure (h : Reads r bytes a) (g : α → β) :
    Reads (do let x ← r; pure (g x)) bytes (g a) := by
  intro rest
  show (r (bytes ++ rest) >>= fun p => (Except.ok (g p.1, p.2) : Except ε _)) = _
  rw [h]
  rfl

theorem Reads.of_eq (h : Reads r bytes a) (heq : bytes' = bytes) :
    Reads r bytes' a := heq ▸ h

/-- `n` values one after the other. -/
def repeatRead (r : Reader ε α) : Nat → Reader ε (List α)
  | 0 => pure []
  | n + 1 => do
    let a ← r
    let l ← repeatRead r n
    pure (a :: l)

theorem reads_repeat {r : Reader ε β} {l : List α} {write : α → List UInt8} {value : α → β}
    (h : ∀ a ∈ l, Reads r (write a) (value a)) :
    Reads (repeatRead r l.length) (l.flatMap write) (l.map value) := by
  induction l with
  | nil => exact reads_pure []
  | cons a _ ih =>
    have hhead := h a List.mem_cons_self
    have htail := ih fun b hb => h b (List.mem_cons_of_mem a hb)
    exact hhead.bind (htail.bind_pure (value a :: ·))

theorem bind_ok_iff {rest : List UInt8} {b : β} :
    (r >>= f) bytes = .ok (b, rest) ↔
      ∃ a mid, r bytes = .ok (a, mid) ∧ f a mid = .ok (b, rest) := by
  show (r bytes >>= fun p => f p.1 p.2) = _ ↔ _
  cases hr : r bytes with
  | error => simp [bind, Except.bind]
  | ok p =>
    obtain ⟨_, _⟩ := p
    simp [bind, Except.bind]

end Wire
