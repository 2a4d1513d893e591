import Mathlib.Data.List.TakeWhile
import Spock.Basic
import Spock.Lib.Bytes
import Spock.Lib.Wire

/-!
# Spock — the message primitives of PostgreSQL

`pqformat.c` as far as the native protocol uses it: integers in network byte order, bytes, and
null-terminated strings, with the errors of the readers. The client encoding is that of the database
(`handle_startup_param` insists on it), so strings are not converted. After each reader comes what
it reads back.
-/

namespace Spock.Protocol

open Wire List

/-- What ends the reading of a message: an error, or `elog(FATAL)`. -/
inductive ReadError where
  | error (e : ErrorData)
  | fatal (message : String)
  deriving DecidableEq

abbrev MsgReader := Reader ReadError

/-- A C string: no byte of it is zero. -/
structure CString where
  bytes : List UInt8
  noNul : 0 ∉ bytes
  deriving DecidableEq

def raise {α : Type} (e : ErrorData) : MsgReader α := throw (.error e)

/-- `ereport(ERROR, (errcode(ERRCODE_PROTOCOL_VIOLATION), ...))`. -/
def protocolViolation (message : String) : ErrorData := ⟨.protocolViolation, message⟩

/-! ## Writing -/

def pqSendByte (b : UInt8) : List UInt8 := [b]

def pqSendInt16 (n : UInt16) : List UInt8 := Bytes.be 2 n.toNat

def pqSendInt32 (n : UInt32) : List UInt8 := Bytes.be 4 n.toNat

def pqSendInt64 (n : UInt64) : List UInt8 := Bytes.be 8 n.toNat

/-- `pq_sendstring`. -/
def pqSendString (s : CString) : List UInt8 := s.bytes ++ [0]

/-! ## Reading -/

/-- `pq_copymsgbytes`. -/
def pqCopyMsgBytes (n : Nat) : MsgReader (List UInt8) := do
  let bytes ← get
  if bytes.length < n then raise (protocolViolation "insufficient data left in message")
  else
    set (bytes.drop n)
    pure (bytes.take n)

/-- `pq_getmsgbyte`. -/
def pqGetMsgByte : MsgReader UInt8 := do
  match ← get with
  | [] => raise (protocolViolation "no data left in message")
  | b :: rest =>
    set rest
    pure b

/-- `pq_getmsgint(msg, 2)`. -/
def pqGetMsgInt16 : MsgReader UInt16 := do
  let bytes ← pqCopyMsgBytes 2
  pure (UInt16.ofNat (Bytes.ofBe bytes))

/-- `pq_getmsgint(msg, 4)`. -/
def pqGetMsgInt32 : MsgReader UInt32 := do
  let bytes ← pqCopyMsgBytes 4
  pure (UInt32.ofNat (Bytes.ofBe bytes))

/-- `pq_getmsgint64`. -/
def pqGetMsgInt64 : MsgReader UInt64 := do
  let bytes ← pqCopyMsgBytes 8
  pure (UInt64.ofNat (Bytes.ofBe bytes))

/-- `pq_getmsgbytes`, with a length that was read into an `int`. -/
def pqGetMsgBytes (len : UInt32) : MsgReader (List UInt8) :=
  if len.toNat < 2 ^ 31 then pqCopyMsgBytes len.toNat
  else raise (protocolViolation "insufficient data left in message")

/-- A null-terminated string as C sees it. -/
def cString (bytes : List UInt8) : CString where
  bytes := bytes.takeWhile (· != 0)
  noNul h := by simpa using (List.mem_takeWhile_imp h)

/-- `pq_getmsgrawstring` and, without conversion, `pq_getmsgstring`. -/
def pqGetMsgString : MsgReader CString := do
  let bytes ← get
  if 0 ∈ bytes then
    set (bytes.drop ((cString bytes).bytes.length + 1))
    pure (cString bytes)
  else raise (protocolViolation "invalid string in message")

/-! ## Reading back -/

theorem reads_copyMsgBytes (bytes : List UInt8) : Reads (pqCopyMsgBytes bytes.length) bytes bytes := by
  intro rest
  have henough : ¬ (bytes ++ rest).length < bytes.length := by
    rw [length_append]
    omega
  show (if (bytes ++ rest).length < bytes.length then _ else _ : MsgReader _) (bytes ++ rest) = _
  rw [if_neg henough]
  show Except.ok ((bytes ++ rest).take bytes.length, (bytes ++ rest).drop bytes.length) = _
  rw [take_left, drop_left]

theorem reads_byte (b : UInt8) : Reads pqGetMsgByte (pqSendByte b) b := fun _ => rfl

theorem reads_int16 (n : UInt16) : Reads pqGetMsgInt16 (pqSendInt16 n) n := by
  have hbytes := reads_copyMsgBytes (pqSendInt16 n)
  rw [pqSendInt16, Bytes.length_be] at hbytes
  have h := hbytes.bind_pure fun bytes => UInt16.ofNat (Bytes.ofBe bytes)
  rwa [Bytes.ofBe_be_of_lt n.toNat_lt, UInt16.ofNat_toNat] at h

theorem reads_int32 (n : UInt32) : Reads pqGetMsgInt32 (pqSendInt32 n) n := by
  have hbytes := reads_copyMsgBytes (pqSendInt32 n)
  rw [pqSendInt32, Bytes.length_be] at hbytes
  have h := hbytes.bind_pure fun bytes => UInt32.ofNat (Bytes.ofBe bytes)
  rwa [Bytes.ofBe_be_of_lt n.toNat_lt, UInt32.ofNat_toNat] at h

theorem reads_int64 (n : UInt64) : Reads pqGetMsgInt64 (pqSendInt64 n) n := by
  have hbytes := reads_copyMsgBytes (pqSendInt64 n)
  rw [pqSendInt64, Bytes.length_be] at hbytes
  have h := hbytes.bind_pure fun bytes => UInt64.ofNat (Bytes.ofBe bytes)
  rwa [Bytes.ofBe_be_of_lt n.toNat_lt, UInt64.ofNat_toNat] at h

theorem reads_bytes {bytes : List UInt8} (h : bytes.length < 2 ^ 31) :
    Reads (pqGetMsgBytes (UInt32.ofNat bytes.length)) bytes bytes := by
  have hlen : (UInt32.ofNat bytes.length).toNat = bytes.length := by
    rw [UInt32.toNat_ofNat']
    omega
  rw [pqGetMsgBytes, hlen, if_pos h]
  exact reads_copyMsgBytes bytes

theorem cString_append (s : CString) (rest : List UInt8) : cString (s.bytes ++ 0 :: rest) = s := by
  have htake : (s.bytes ++ 0 :: rest).takeWhile (· != 0) = s.bytes := by
    rw [takeWhile_append_of_pos fun b hb => by
      simpa using fun h0 : b = 0 => s.noNul (h0 ▸ hb)]
    simp
  obtain ⟨_, _⟩ := s
  unfold cString
  congr

theorem reads_string (s : CString) : Reads pqGetMsgString (pqSendString s) s := by
  intro rest
  have hbytes : pqSendString s ++ rest = s.bytes ++ 0 :: rest := by simp [pqSendString]
  rw [hbytes]
  show (if 0 ∈ s.bytes ++ 0 :: rest then _ else _ : MsgReader _) (s.bytes ++ 0 :: rest) = _
  rw [if_pos (by simp)]
  show Except.ok (cString (s.bytes ++ 0 :: rest),
    (s.bytes ++ 0 :: rest).drop ((cString (s.bytes ++ 0 :: rest)).bytes.length + 1)) = _
  rw [cString_append, ← drop_drop, drop_left]
  rfl

end Spock.Protocol
