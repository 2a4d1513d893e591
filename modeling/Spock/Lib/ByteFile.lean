import Mathlib.Data.List.Basic

/-!
# A byte file with a position

A file is a list of bytes and a position. Writing replaces what is at the position and beyond the
end extends the file; reading stops at the end; both move the position. The rules cover a file that
is written at its end and read back from the start:

* **`write_atEnd`** — a write at the end appends;
* **`read_of_drop`** — what is at the position is read.
-/

structure ByteFile where
  bytes : List UInt8
  pos : Nat
  deriving DecidableEq

namespace ByteFile

def empty : ByteFile := ⟨[], 0⟩

def write (f : ByteFile) (data : List UInt8) : ByteFile where
  bytes := f.bytes.take f.pos ++ data ++ f.bytes.drop (f.pos + data.length)
  pos := f.pos + data.length

/-- At most `n` bytes, and the file after them. -/
def read (f : ByteFile) (n : Nat) : List UInt8 × ByteFile :=
  ((f.bytes.drop f.pos).take n, { f with pos := f.pos + ((f.bytes.drop f.pos).take n).length })

def rewind (f : ByteFile) : ByteFile := { f with pos := 0 }

def AtEnd (f : ByteFile) : Prop := f.pos = f.bytes.length

theorem atEnd_empty : empty.AtEnd := rfl

theorem write_atEnd {f : ByteFile} (h : f.AtEnd) (data : List UInt8) :
    f.write data = ⟨f.bytes ++ data, (f.bytes ++ data).length⟩ := by
  unfold AtEnd at h
  simp [write, h]

theorem atEnd_write {f : ByteFile} (h : f.AtEnd) (data : List UInt8) : (f.write data).AtEnd := by
  rw [write_atEnd h]
  rfl

/-- What is at the position is read, and the position is behind it. -/
theorem read_of_drop {f : ByteFile} {data rest : List UInt8} (h : f.bytes.drop f.pos = data ++ rest) :
    f.read data.length = (data, { f with pos := f.pos + data.length }) ∧
      f.bytes.drop (f.pos + data.length) = rest := by
  constructor
  · rw [read, h, List.take_left]
  · rw [← List.drop_drop, h, List.drop_left]

end ByteFile
