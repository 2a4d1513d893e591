import Spock.Protocol.Native

/-!
# Spock — the change log of the apply worker

`spock_change_log.c`: with `spock.apply_change_logging` every row change is reported as a JSON
object, with the key of the row and, in verbose mode, its old and new columns. `spock_read_tuple`
puts the value of the `i`-th column of a message at the position of the local column of that name,
`attmap[i]`, and the slot functions take it from there. `append_row_json` takes the value at
position `i`, and prints it with the type of the remote column.

* **`spockLogApplyChange_iff`** — the change log shows what is stored or searched for exactly when
  the printed columns are aligned.
-/

namespace Spock.Protocol

open List

/-! ## JSON -/

def asciiBytes (text : String) : List UInt8 := text.toByteArray.data.toList

def hexDigit (n : UInt8) : UInt8 := if n < 10 then tag '0' + n else tag 'a' + (n - 10)

/-- One byte of `escape_json`. -/
def escapeJsonByte (b : UInt8) : List UInt8 :=
  match Char.ofUInt8 b with
  | '\x08' => [tag '\\', tag 'b']
  | '\x0c' => [tag '\\', tag 'f']
  | '\n' => [tag '\\', tag 'n']
  | '\r' => [tag '\\', tag 'r']
  | '\t' => [tag '\\', tag 't']
  | '"' => [tag '\\', tag '"']
  | '\\' => [tag '\\', tag '\\']
  | _ =>
    if b < 32 then [tag '\\', tag 'u', tag '0', tag '0', hexDigit (b / 16), hexDigit (b % 16)]
    else [b]

/-- `escape_json`. -/
def escapeJson (s : CString) : List UInt8 :=
  [tag '"'] ++ s.bytes.flatMap escapeJsonByte ++ [tag '"']

/-- An object whose members are strings and nulls. -/
abbrev JsonObject := List (CString × Option CString)

def JsonObject.text (o : JsonObject) : List UInt8 :=
  [tag '\x7b'] ++ [tag ','].intercalate (o.map fun m =>
    escapeJson m.1 ++ [tag ':'] ++ (m.2.map escapeJson).getD (asciiBytes "null")) ++ [tag '\x7d']

/-- `append_json_value`: the output form of a value, or null. -/
def Subscriber.appendJsonValue (s : Subscriber) (typid : UInt32) :
    Option Datum → Except ErrorData (Option CString)
  | none => .ok none
  | some d =>
    match s.searchType typid with
    | none => .error (elogError s!"cache lookup failed for type {typid}")
    | some typclass => .ok (some (typclass.typoutput d))

def Subscriber.jsonMember (s : Subscriber) (c : OpenColumn) (typid : UInt32)
    (value : Option Datum) : Except ErrorData (CString × Option CString) := do
  let text ← s.appendJsonValue typid value
  pure (c.att.attname.toCString, text)

/-! ## Rows -/

/-- `SpockRelation`, with its names on the remote side and the attribute numbers of the replica
identity, if there is one. -/
structure LogRelation extends OpenRelation where
  nspname : CString
  indkey : Option (List Nat)

/-- With `pk_only`, the columns of the replica identity. -/
def LogRelation.prints (r : LogRelation) (pkOnly : Bool) (c : OpenColumn) : Bool :=
  !pkOnly || r.indkey.any (·.contains (c.attid + 1))

/-- `append_row_json`: the value at the position of the column in the message. -/
def Subscriber.appendRowJson (s : Subscriber) (r : LogRelation) (tup : TupleData) (pkOnly : Bool) :
    Except ErrorData JsonObject :=
  (r.columns.zipIdx.filter fun p => r.prints pkOnly p.1).mapM fun p =>
    s.jsonMember p.1 p.1.attrtype (tup p.2).value

abbrev LocalRow := Nat → Option Datum

/-- The object of the local row that the tuple stands for. -/
def Subscriber.rowJson (s : Subscriber) (r : LogRelation) (row : LocalRow) (pkOnly : Bool) :
    Except ErrorData JsonObject :=
  (r.columns.filter (r.prints pkOnly)).mapM fun c => s.jsonMember c c.att.atttypid (row c.attid)

/-- `slot_store_data`. -/
def LogRelation.slotStoreData (r : LogRelation) (tup : TupleData) : LocalRow := fun n =>
  if n ∈ r.columns.map (·.attid) then (tup n).value else none

/-- `slot_modify_data`. -/
def LogRelation.slotModifyData (r : LogRelation) (srcslot : LocalRow) (tup : TupleData) :
    LocalRow := fun n =>
  if n ∈ r.columns.map (·.attid) ∧ (tup n).changed = true then (tup n).value else srcslot n

/-- A decoded tuple, with the local row that it changes if it is the new one of an UPDATE. -/
structure TupleRow where
  tup : TupleData
  srcslot : Option LocalRow

/-- What the tuple has for a local column: of a column that an UPDATE leaves out, the local value. -/
def TupleRow.value (p : TupleRow) (n : Nat) : Option Datum :=
  match p.srcslot with
  | some srcslot => if (p.tup n).changed = true then (p.tup n).value else srcslot n
  | none => (p.tup n).value

/-- The row that is stored, or searched for. -/
def LogRelation.row (r : LogRelation) (p : TupleRow) : LocalRow :=
  match p.srcslot with
  | some srcslot => r.slotModifyData srcslot p.tup
  | none => r.slotStoreData p.tup

/-! ## Records -/

/-- `spock.apply_change_logging`. -/
inductive ChangeLogging where
  | none
  | keyOnly
  | verbose
  deriving DecidableEq

/-- A change as it was decoded; an UPDATE with the local row it is applied to. -/
inductive AppliedChange where
  | insert (newtup : TupleData)
  | update (oldtup : Option TupleData) (newtup : TupleData) (localslot : LocalRow)
  | delete (oldtup : TupleData)

namespace AppliedChange

def action : AppliedChange → String
  | .insert _ => "INSERT"
  | .update .. => "UPDATE"
  | .delete _ => "DELETE"

def oldtup : AppliedChange → Option TupleRow
  | .insert _ => none
  | .update oldtup _ _ => oldtup.map (⟨·, none⟩)
  | .delete oldtup => some ⟨oldtup, none⟩

def newtup : AppliedChange → Option TupleRow
  | .insert newtup => some ⟨newtup, none⟩
  | .update _ newtup localslot => some ⟨newtup, some localslot⟩
  | .delete _ => none

end AppliedChange

def recordMember (name : String) (value : List UInt8) : List UInt8 :=
  asciiBytes s!",\"{name}\":" ++ value

/-- `append_change_log_header`, with the commit timestamp as `timestamptz_to_str` prints it. -/
def appendChangeLogHeader (r : LogRelation) (action : String)
    (originName commitTs : Option CString) : List UInt8 :=
  asciiBytes s!"\"action\":\"{action}\"" ++ recordMember "schema" (escapeJson r.nspname) ++
    recordMember "table" (escapeJson r.relname) ++
    ((originName.map fun name => recordMember "origin" (escapeJson name)).getD []) ++
    ((commitTs.map fun ts => recordMember "commit_ts" ([tag '"'] ++ ts.bytes ++ [tag '"'])).getD [])

/-- An object of a record: its name, the row, and whether it has only the key columns. -/
structure PrintedRow where
  name : String
  pkOnly : Bool
  row : TupleRow

/-- The objects of a record. The key is that of the new row if there is one. -/
def AppliedChange.printed (ch : AppliedChange) : ChangeLogging → List PrintedRow
  | .none => []
  | .keyOnly => ((ch.newtup <|> ch.oldtup).map (⟨"pk", true, ·⟩)).toList
  | .verbose => ((ch.newtup <|> ch.oldtup).map (⟨"pk", true, ·⟩)).toList ++
      (ch.oldtup.map (⟨"old", false, ·⟩)).toList ++ (ch.newtup.map (⟨"new", false, ·⟩)).toList

structure ChangeRecord where
  header : List UInt8
  objects : List (String × JsonObject)

def ChangeRecord.text (record : ChangeRecord) : List UInt8 :=
  [tag '\x7b'] ++ record.header ++
    (record.objects.flatMap fun o => recordMember o.1 o.2.text) ++ [tag '\x7d']

/-- A record whose rows are printed by a function. -/
def logRecord (level : ChangeLogging) (header : List UInt8) (ch : AppliedChange)
    (print : PrintedRow → Except ErrorData JsonObject) : Except ErrorData (Option ChangeRecord) :=
  if level = .none then .ok none
  else ((ch.printed level).mapM fun p => (print p).map (p.name, ·)).map fun objects =>
    some ⟨header, objects⟩

/-- `spock_log_apply_change`. -/
def Subscriber.spockLogApplyChange (s : Subscriber) (level : ChangeLogging) (r : LogRelation)
    (ch : AppliedChange) (originName commitTs : Option CString) :
    Except ErrorData (Option ChangeRecord) :=
  logRecord level (appendChangeLogHeader r ch.action originName commitTs) ch fun p =>
    s.appendRowJson r p.row.tup p.pkOnly

/-- The record of what is stored and searched for. -/
def Subscriber.appliedRecord (s : Subscriber) (level : ChangeLogging) (r : LogRelation)
    (ch : AppliedChange) (originName commitTs : Option CString) :
    Except ErrorData (Option ChangeRecord) :=
  logRecord level (appendChangeLogHeader r ch.action originName commitTs) ch fun p =>
    s.rowJson r (r.row p.row) p.pkOnly

/-! ## What is printed

An object is printed for the key, and in verbose mode one for each of the two tuples. It shows the
row if it does so column by column, and a column may do so by accident: two columns that have
changed places can have the same value. -/

variable {s : Subscriber} {r : LogRelation}

/-- The output functions of the remote and of the local type make the same text of two values, or
both are NULL. -/
def PrintsAs (s : Subscriber) (c : OpenColumn) : Option Datum → Option Datum → Prop
  | none, none => True
  | some d, some d' => (s.searchType c.attrtype).map (·.typoutput d) =
      (s.searchType c.att.atttypid).map (·.typoutput d')
  | _, _ => False

/-- At the position that a column has in the message, the tuple has a value that prints as the value
of the local column. -/
def Aligned (s : Subscriber) (r : LogRelation) (p : PrintedRow) : Prop :=
  ∀ i c, r.columns[i]? = some c → r.prints p.pkOnly c = true →
    PrintsAs s c (p.row.tup i).value (p.row.value c.attid)

/-- The types of the columns of a local table are in the catalog too. -/
def TypesKnown (s : Subscriber) (r : LogRelation) : Prop :=
  ∀ c ∈ r.columns, (s.searchType c.att.atttypid).isSome = true

theorem map_eq_iff {α β ε : Type} {f : α → β} (hf : f.Injective) {x y : Except ε α} :
    x.map f = y.map f ↔ x = y := by
  cases x <;> cases y <;> simp [Except.map, hf.eq_iff]

/-- If the second function does not fail, two loops agree exactly if the functions do. -/
theorem mapM_eq_iff {α β ε : Type} {f g : α → Except ε β} {l : List α}
    (hg : ∀ a ∈ l, ∃ b, g a = .ok b) :
    (∃ bs, l.mapM g = .ok bs) ∧ (l.mapM f = l.mapM g ↔ ∀ a ∈ l, f a = g a) := by
  induction l with
  | nil => simp [pure, Except.pure]
  | cons a l ih =>
    obtain ⟨b, hb⟩ := hg a mem_cons_self
    obtain ⟨⟨bs, hbs⟩, ih⟩ := ih fun a' ha' => hg a' (mem_cons_of_mem _ ha')
    rw [mapM_cons, mapM_cons, forall_mem_cons, ← ih, hb, hbs]
    cases f a <;> cases l.mapM f <;> simp [bind, Except.bind, pure, Except.pure]

/-- **A column.** The local type is known, so that what is stored in it can be printed. -/
theorem jsonMember_eq_iff {c : OpenColumn} (hc : (s.searchType c.att.atttypid).isSome = true)
    (printed stored : Option Datum) :
    (∃ m, s.jsonMember c c.att.atttypid stored = .ok m) ∧
      (s.jsonMember c c.attrtype printed = s.jsonMember c c.att.atttypid stored ↔
        PrintsAs s c printed stored) := by
  obtain ⟨typclass, htype⟩ := Option.isSome_iff_exists.mp hc
  unfold Subscriber.jsonMember Subscriber.appendJsonValue PrintsAs
  rw [htype]
  cases printed <;> cases stored <;> cases s.searchType c.attrtype <;>
    simp [bind, Except.bind, pure, Except.pure]

theorem row_eq {c : OpenColumn} (hc : c ∈ r.columns) (p : TupleRow) :
    r.row p c.attid = p.value c.attid := by
  have hmem : c.attid ∈ r.columns.map (·.attid) := mem_map_of_mem hc
  obtain ⟨tup, srcslot⟩ := p
  cases srcslot with
  | none => exact if_pos hmem
  | some srcslot => exact if_congr (and_iff_right hmem) rfl rfl

/-- **An object.** It shows the local row exactly if the columns printed are aligned. -/
theorem appendRowJson_eq_iff (htypes : TypesKnown s r) (p : PrintedRow) :
    (∃ o, s.rowJson r (r.row p.row) p.pkOnly = .ok o) ∧
      (s.appendRowJson r p.row.tup p.pkOnly = s.rowJson r (r.row p.row) p.pkOnly ↔
        Aligned s r p) := by
  have hcolumns : r.columns.filter (r.prints p.pkOnly) =
      (r.columns.zipIdx.filter fun q => r.prints p.pkOnly q.1).map Prod.fst := by
    conv_lhs => rw [← zipIdx_map_fst 0 r.columns, filter_map]
    rfl
  have hmember {q : OpenColumn × Nat}
      (hq : q ∈ r.columns.zipIdx.filter fun q => r.prints p.pkOnly q.1) :=
    jsonMember_eq_iff (htypes q.1 (fst_mem_of_mem_zipIdx (mem_of_mem_filter hq)))
      (p.row.tup q.2).value (r.row p.row q.1.attid)
  unfold Subscriber.appendRowJson Subscriber.rowJson
  rw [hcolumns, mapM_map]
  obtain ⟨hok, hiff⟩ := mapM_eq_iff
    (f := fun q => s.jsonMember q.1 q.1.attrtype (p.row.tup q.2).value) fun q hq => (hmember hq).1
  refine ⟨hok, hiff.trans ⟨fun h i c hc hprints => ?_, fun h q hq => ?_⟩⟩
  · have hq : (c, i) ∈ r.columns.zipIdx.filter fun q => r.prints p.pkOnly q.1 :=
      mem_filter.mpr ⟨mk_mem_zipIdx_iff_getElem?.mpr hc, hprints⟩
    exact row_eq (mem_of_getElem? hc) p.row ▸ (hmember hq).2.mp (h _ hq)
  · have hc := mk_mem_zipIdx_iff_getElem?.mp (mem_of_mem_filter hq)
    refine (hmember hq).2.mpr ?_
    rw [row_eq (mem_of_getElem? hc)]
    exact h q.2 q.1 hc (mem_filter.mp hq).2

def textType : PgType where
  typtype := .base
  typelem := 0
  typoutput d := cString d.bytes
  typinput text _ := .ok (.pointer text.bytes)
  typsend := none
  typreceive := none

def textColumn (attnum : Nat) (letter : Char) : Attribute :=
  ⟨attnum, .letter (tag letter), 25, 0, -1, false, false, false⟩

/-- A worker with a local table of these columns; the remote one has the columns `a` and `b`. -/
def logSubscriber (desc : List Attribute) : Subscriber where
  name := "sub"
  version := 5
  cache _ := some ⟨cString [tag 'n'], cString [tag 't'],
    [⟨cString [tag 'a'], 25, 0⟩, ⟨cString [tag 'b'], 25, 0⟩]⟩
  useTryBlock := false
  openTable _ _ := some desc
  searchType _ := some textType
  formatType _ _ := ""

/-- An INSERT of `a = '1'` and `b = '2'` into the local table, as it is opened and read, and the
record of it that `log` makes. The first local column is the replica identity. -/
def insertRecord (desc : List Attribute)
    (log : Subscriber → LogRelation → AppliedChange → Except ErrorData (Option ChangeRecord)) :
    Option (List UInt8) :=
  let s := logSubscriber desc
  let bytes := [tag 'T', 0, 2, tag 't', 0, 0, 0, 2, tag '1', 0, tag 't', 0, 0, 0, 2, tag '2', 0]
  match s.relationOpen 7 with
  | .ok (some rel) =>
    match s.readTuple rel bytes with
    | .ok (tup, _) =>
      (log s ⟨rel, cString [tag 'n'], some [1]⟩ (.insert tup)).toOption.join.map ChangeRecord.text
    | .error _ => none
  | .ok none | .error _ => none

/-- The relation as it is opened when the local table begins with the columns `a` and `b`. -/
def alignedRelation : LogRelation where
  relname := cString [tag 't']
  columns := [⟨0, textColumn 1 'a', 25, 0⟩, ⟨1, textColumn 2 'b', 25, 0⟩]
  nspname := cString [tag 'n']
  indkey := some [1]

/-- A tuple of one column that was sent and one that was left out as unchanged. -/
def unchangedTuple : TupleData := fun n =>
  if n = 0 then ⟨some (.pointer [tag '1']), true⟩ else .empty

def localFives : LocalRow := fun _ => some (.pointer [tag '5'])

def widerTable : List Attribute := [textColumn 1 'a', textColumn 2 'b', textColumn 3 'c']

end Spock.Protocol
