import Spock.Conflict.Heap
import Spock.Protocol.Format

/-!
# Spock — the native protocol

`spock_proto_native.c`: what the output plugin writes for each message and what the apply worker
reads, with the relation cache of `spock_relcache.c` in between, which turns the description of a
remote relation into columns of a local table.

Types are given by their catalog entries and functions. Of a datum the protocol needs the bytes it
is stored in, and for variable-length types whether they are out of line.
-/

namespace Spock.Protocol

open Wire

/-! ## Catalogs -/

/-- `NameData`: a C string of less than `NAMEDATALEN` bytes. -/
structure Name extends CString where
  short : bytes.length < 64
  deriving DecidableEq

def Name.letter (c : UInt8) : Name where
  toCString := cString [c]
  short := by
    have hle : (cString [c]).bytes.length ≤ 1 := (List.takeWhile_sublist _).length_le
    omega

def firstNormalObjectId : UInt32 := 16384

inductive Datum where
  /-- Passed by value: the bytes `store_att_byval` stores. -/
  | byVal (bytes : List UInt8)
  /-- A pointer to these bytes, for a variable-length type with their header. -/
  | pointer (bytes : List UInt8)
  /-- `VARATT_IS_EXTERNAL_INDIRECT`: a pointer to a pointer. -/
  | indirect (bytes : List UInt8)
  /-- `VARATT_IS_EXTERNAL_ONDISK`: the value is in the TOAST table. -/
  | onDisk
  deriving DecidableEq

def Datum.bytes : Datum → List UInt8
  | .byVal bytes | .pointer bytes | .indirect bytes => bytes
  | .onDisk => []

/-- The pointer an indirect datum stands for. -/
def Datum.inlined : Datum → Datum
  | .indirect bytes => .pointer bytes
  | d => d

/-- `pg_attribute`; the type modifier as the 32 bits of its `int`. -/
structure Attribute where
  attnum : Nat
  attname : Name
  atttypid : UInt32
  atttypmod : UInt32
  attlen : Int
  attbyval : Bool
  attisdropped : Bool
  attgenerated : Bool
  deriving DecidableEq

/-- `pg_type.typtype`. -/
inductive TypType where
  | base | composite | domain | enum | multirange | pseudo | range
  deriving DecidableEq

/-- `pg_type` and the functions it names. -/
structure PgType where
  typtype : TypType
  typelem : UInt32
  typoutput : Datum → CString
  typinput : CString → UInt32 → Except ErrorData Datum
  typsend : Option (Datum → List UInt8)
  /-- The value, and the bytes the function has not consumed. -/
  typreceive : Option (List UInt8 → UInt32 → Except ErrorData (Datum × List UInt8))

structure Relation where
  relid : UInt32
  relnamespace : UInt32
  relname : Name
  desc : List Attribute
  /-- `INDEX_ATTR_BITMAP_IDENTITY_KEY`. -/
  idattrs : List Nat
  attnames_nodup : (desc.map (·.attname)).Nodup
  natts_le : desc.length ≤ 1600

/-- The values of a deformed tuple by attribute number, `none` for null. -/
abbrev Deformed := Nat → Option Datum

structure Publisher where
  /-- `spock_get_proto_version()`. -/
  version : UInt32
  /-- `GetXLogWriteRecPtr()`. -/
  insertLsn : UInt64
  allowInternalBasetypes : Bool
  allowBinaryBasetypes : Bool
  getNamespaceName : UInt32 → Option Name
  searchType : UInt32 → Option PgType

/-! ## Writing -/

def tag (c : Char) : UInt8 := c.toUInt8

/-- Neither dropped nor generated, and in the column list if there is one. -/
def Attribute.isLive (attList : Option (List Nat)) (att : Attribute) : Bool :=
  !(att.attisdropped || att.attgenerated) && attList.all (·.contains att.attnum)

def Relation.live (rel : Relation) (attList : Option (List Nat)) : List Attribute :=
  rel.desc.filter (·.isLive attList)

namespace Publisher

variable (p : Publisher)

/-- Protocol version 5 and later begin every message but the first with the insert LSN. -/
def lsnHeader : List UInt8 := if 5 ≤ p.version then pqSendInt64 p.insertLsn else []

def writeAttr (rel : Relation) (att : Attribute) : List UInt8 :=
  let flags : UInt8 := if rel.idattrs.contains att.attnum then 1 else 0
  pqSendByte (tag 'C') ++ pqSendByte flags ++ pqSendByte (tag 'N') ++
    pqSendInt16 (UInt16.ofNat (att.attname.bytes.length + 1)) ++ pqSendString att.attname.toCString ++
    pqSendInt32 att.atttypid ++ pqSendInt32 att.atttypmod

/-- `spock_write_attrs`. -/
def writeAttrs (rel : Relation) (attList : Option (List Nat)) : List UInt8 :=
  pqSendByte (tag 'A') ++ pqSendInt16 (UInt16.ofNat (rel.live attList).length) ++
    (rel.live attList).flatMap (writeAttr rel)

def writeName (name : Name) : List UInt8 :=
  pqSendByte (UInt8.ofNat (name.bytes.length + 1)) ++ pqSendString name.toCString

/-- `spock_write_rel`. -/
def writeRel (rel : Relation) (attList : Option (List Nat)) : Except ErrorData (List UInt8) :=
  match p.getNamespaceName rel.relnamespace with
  | none => .error (elogError s!"cache lookup failed for namespace {rel.relnamespace}")
  | some nspname =>
    .ok (p.lsnHeader ++ pqSendByte (tag 'R') ++ pqSendByte 0 ++ pqSendInt32 rel.relid ++
      writeName nspname ++ writeName rel.relname ++ writeAttrs rel attList)

/-- `spock_write_begin`. -/
def writeBegin (finalLsn committime : UInt64) (xid : UInt32) : List UInt8 :=
  p.lsnHeader ++ pqSendByte (tag 'B') ++ pqSendByte 0 ++ pqSendInt64 finalLsn ++
    pqSendInt64 committime ++ pqSendInt32 xid

/-- `spock_write_commit`: version 4 has the insert LSN at the end of this message only. -/
def writeCommit (commitLsn endLsn committime : UInt64) : List UInt8 :=
  p.lsnHeader ++ pqSendByte (tag 'C') ++ pqSendByte 0 ++ pqSendInt64 commitLsn ++
    pqSendInt64 endLsn ++ pqSendInt64 committime ++
    (if p.version = 4 then pqSendInt64 p.insertLsn else [])

/-- `ORIGIN_FLAG_HAS_NAME`: protocol version 5 and later send the name if there is one. -/
def originName (name : Option CString) : Option CString := if 5 ≤ p.version then name else none

def writeOriginName : Option CString → List UInt8
  | some name => pqSendString name
  | none => []

/-- `spock_write_origin`. -/
def writeOrigin (originId : UInt16) (originLsn : UInt64) (name : Option CString) : List UInt8 :=
  p.lsnHeader ++ pqSendByte (tag 'O') ++ pqSendByte (if (p.originName name).isSome then 1 else 0) ++
    pqSendInt64 originLsn ++ pqSendInt16 originId ++ writeOriginName (p.originName name)

/-- `spock_write_commit_order`. -/
def writeCommitOrder (lastCommitTs : UInt64) : List UInt8 :=
  p.lsnHeader ++ pqSendByte (tag 'L') ++ pqSendByte 0 ++ pqSendInt64 lastCommitTs

/-- How the value of a column is sent: the letters `i`, `b` and `t`. -/
inductive Transfer where
  | internal | binary | text
  deriving DecidableEq

/-- `decide_datum_transfer`. -/
def decideDatumTransfer (att : Attribute) (typclass : PgType) : Transfer :=
  if p.allowInternalBasetypes && typclass.typtype == .base && att.atttypid < firstNormalObjectId &&
      typclass.typelem == 0 then
    .internal
  -- arrays and composite types carry object ids of their own, unless they are built in
  else if p.allowBinaryBasetypes && typclass.typreceive.isSome &&
      (att.atttypid < firstNormalObjectId || typclass.typtype != .composite) &&
      (att.atttypid < firstNormalObjectId || typclass.typelem == 0) then
    .binary
  else .text

/-- The `i` case of `spock_write_tuple`. -/
def writeInternal (att : Attribute) (d : Datum) : Except ErrorData (List UInt8) :=
  if att.attbyval || 0 < att.attlen then
    .ok (pqSendByte (tag 'i') ++ pqSendInt32 (UInt32.ofNat att.attlen.toNat) ++
      d.bytes.take att.attlen.toNat)
  else if att.attlen = -1 then
    .ok (pqSendByte (tag 'i') ++ pqSendInt32 (UInt32.ofNat d.bytes.length) ++ d.bytes)
  else .error (elogError "unsupported tuple type")

/-- The `b` case of `spock_write_tuple`. -/
def writeBinary (typclass : PgType) (d : Datum) : Except ErrorData (List UInt8) :=
  match typclass.typsend with
  | none => .error (elogError "cache lookup failed for function 0")
  | some typsend =>
    .ok (pqSendByte (tag 'b') ++ pqSendInt32 (UInt32.ofNat (typsend d).length) ++ typsend d)

/-- The `t` case of `spock_write_tuple`. -/
def writeText (typclass : PgType) (d : Datum) : List UInt8 :=
  pqSendByte (tag 't') ++
    pqSendInt32 (UInt32.ofNat ((typclass.typoutput d).bytes.length + 1)) ++
    pqSendString (typclass.typoutput d)

/-- One column of `spock_write_tuple`. -/
def writeColumn (att : Attribute) : Option Datum → Except ErrorData (List UInt8)
  | none => .ok (pqSendByte (tag 'n'))
  | some d =>
    if att.attlen = -1 ∧ d = .onDisk then .ok (pqSendByte (tag 'u'))
    else
      match p.searchType att.atttypid with
      | none => .error (elogError s!"cache lookup failed for type {att.atttypid}")
      | some typclass =>
        match p.decideDatumTransfer att typclass with
        | .internal => writeInternal att d
        | .binary => writeBinary typclass d
        | .text => .ok (writeText typclass d)

/-- `spock_write_tuple`. -/
def writeTuple (rel : Relation) (tuple : Deformed) (attList : Option (List Nat)) :
    Except ErrorData (List UInt8) := do
  let columns ← (rel.live attList).mapM fun att => p.writeColumn att (tuple att.attnum)
  pure (pqSendByte (tag 'T') ++ pqSendInt16 (UInt16.ofNat (rel.live attList).length) ++
    columns.flatten)

/-- `spock_write_insert`. -/
def writeInsert (rel : Relation) (newtuple : Deformed) (attList : Option (List Nat)) :
    Except ErrorData (List UInt8) := do
  let tuple ← p.writeTuple rel newtuple attList
  pure (p.lsnHeader ++ pqSendByte (tag 'I') ++ pqSendByte 0 ++ pqSendInt32 rel.relid ++
    pqSendByte (tag 'N') ++ tuple)

/-- The old key of `spock_write_update`, if the WAL has one. -/
def writeOldKey (rel : Relation) (attList : Option (List Nat)) :
    Option Deformed → Except ErrorData (List UInt8)
  | none => pure []
  | some oldtuple => do
    let tuple ← p.writeTuple rel oldtuple attList
    pure (pqSendByte (tag 'K') ++ tuple)

/-- `spock_write_update`. -/
def writeUpdate (rel : Relation) (oldtuple : Option Deformed) (newtuple : Deformed)
    (attList : Option (List Nat)) : Except ErrorData (List UInt8) := do
  let old ← p.writeOldKey rel attList oldtuple
  let tuple ← p.writeTuple rel newtuple attList
  pure (p.lsnHeader ++ pqSendByte (tag 'U') ++ pqSendByte 0 ++ pqSendInt32 rel.relid ++ old ++
    pqSendByte (tag 'N') ++ tuple)

/-- `spock_write_delete`. -/
def writeDelete (rel : Relation) (oldtuple : Deformed) (attList : Option (List Nat)) :
    Except ErrorData (List UInt8) := do
  let tuple ← p.writeTuple rel oldtuple attList
  pure (p.lsnHeader ++ pqSendByte (tag 'D') ++ pqSendByte 0 ++ pqSendInt32 rel.relid ++
    pqSendByte (tag 'K') ++ tuple)

/-- `TRUNCATE_CASCADE` and `TRUNCATE_RESTART_SEQS`. -/
def truncateFlags (cascade restartSeqs : Bool) : UInt8 :=
  (if cascade then 1 else 0) ||| (if restartSeqs then 2 else 0)

/-- `spock_write_truncate`. -/
def writeTruncate (relids : List UInt32) (cascade restartSeqs : Bool) : List UInt8 :=
  p.lsnHeader ++ pqSendByte (tag 'T') ++ pqSendInt32 (UInt32.ofNat relids.length) ++
    pqSendByte (truncateFlags cascade restartSeqs) ++ relids.flatMap pqSendInt32

/-- `spock_write_message`. -/
def writeMessage (xid : UInt32) (lsn : UInt64) (transactional : Bool) (pref : CString)
    (content : List UInt8) : List UInt8 :=
  p.lsnHeader ++ pqSendByte (tag 'M') ++ pqSendInt32 xid ++ pqSendInt64 lsn ++
    pqSendByte (if transactional then 1 else 0) ++ pqSendString pref ++
    pqSendInt32 (UInt32.ofNat content.length) ++ content

end Publisher

/-- `write_startup_message`, the only one without the insert LSN. -/
def writeStartupMessage (params : List (CString × CString)) : List UInt8 :=
  pqSendByte (tag 'S') ++ pqSendByte 1 ++
    params.flatMap fun param => pqSendString param.1 ++ pqSendString param.2

inductive Message where
  | startup (params : List (CString × CString))
  | begin (finalLsn committime : UInt64) (xid : UInt32)
  | commit (commitLsn endLsn committime : UInt64)
  | origin (originId : UInt16) (originLsn : UInt64) (name : Option CString)
  | commitOrder (lastCommitTs : UInt64)
  | relation (rel : Relation) (attList : Option (List Nat))
  | insert (rel : Relation) (newtuple : Deformed) (attList : Option (List Nat))
  | update (rel : Relation) (oldtuple : Option Deformed) (newtuple : Deformed)
      (attList : Option (List Nat))
  | delete (rel : Relation) (oldtuple : Deformed) (attList : Option (List Nat))
  | truncate (relids : List UInt32) (cascade restartSeqs : Bool)
  | message (xid : UInt32) (lsn : UInt64) (transactional : Bool) (pref : CString)
      (content : List UInt8)

def Message.action : Message → UInt8
  | .startup _ => tag 'S'
  | .begin .. => tag 'B'
  | .commit .. => tag 'C'
  | .origin .. => tag 'O'
  | .commitOrder _ => tag 'L'
  | .relation .. => tag 'R'
  | .insert .. => tag 'I'
  | .update .. => tag 'U'
  | .delete .. => tag 'D'
  | .truncate .. => tag 'T'
  | .message .. => tag 'M'

/-- The writers, with the insert LSN in front of every message from version 5 on. -/
def Publisher.write (p : Publisher) : Message → Except ErrorData (List UInt8)
  | .startup params => .ok (writeStartupMessage params)
  | .begin finalLsn committime xid => .ok (p.writeBegin finalLsn committime xid)
  | .commit commitLsn endLsn committime => .ok (p.writeCommit commitLsn endLsn committime)
  | .origin originId originLsn name => .ok (p.writeOrigin originId originLsn name)
  | .commitOrder lastCommitTs => .ok (p.writeCommitOrder lastCommitTs)
  | .relation rel attList => p.writeRel rel attList
  | .insert rel newtuple attList => p.writeInsert rel newtuple attList
  | .update rel oldtuple newtuple attList => p.writeUpdate rel oldtuple newtuple attList
  | .delete rel oldtuple attList => p.writeDelete rel oldtuple attList
  | .truncate relids cascade restartSeqs => .ok (p.writeTruncate relids cascade restartSeqs)
  | .message xid lsn transactional pref content =>
    .ok (p.writeMessage xid lsn transactional pref content)

/-! ## The relation cache -/

structure RemoteAttr where
  attname : CString
  attrtype : UInt32
  attrtypmod : UInt32
  deriving DecidableEq

/-- An entry of `SpockRelationHash`, as far as the remote side describes it. -/
structure RemoteRel where
  nspname : CString
  relname : CString
  atts : List RemoteAttr
  deriving DecidableEq

/-- The local catalogs, which change with the statements that are executed. -/
structure Catalogs where
  /-- `table_openrv_extended`: the attributes of a local table. -/
  openTable : CString → CString → Option (List Attribute)
  searchType : UInt32 → Option PgType

/-- The state of the apply worker that decoding reads, and what it looks up. -/
structure Subscriber extends Catalogs where
  /-- `MySubscription->name`. -/
  name : String
  /-- `spock_apply_get_proto_version()`. -/
  version : UInt32
  cache : UInt32 → Option RemoteRel
  useTryBlock : Bool
  /-- `format_type_extended`, for the texts of errors. -/
  formatType : UInt32 → UInt32 → String

structure OpenColumn where
  attid : Nat
  att : Attribute
  attrtype : UInt32
  attrtypmod : UInt32

/-- `SpockRelation` after `spock_relation_open`. -/
structure OpenRelation where
  relname : CString
  columns : List OpenColumn

def CString.toString (s : CString) : String := String.ofList (s.bytes.map Char.ofUInt8)

/-- `tupdesc_get_att_by_name`. -/
def tupdescGetAttByName (desc : List Attribute) (attname : CString) :
    Except ErrorData (Attribute × Nat) :=
  match desc.zipIdx.find? fun a => a.1.attname.toCString == attname with
  | some a => .ok a
  | none => .error (elogError s!"unknown column name {attname.toString}")

/-- One step of the loop that fills `attmap`. -/
def openColumn (desc : List Attribute) (a : RemoteAttr) : Except ErrorData OpenColumn := do
  let (att, attid) ← tupdescGetAttByName desc a.attname
  pure ⟨attid, att, a.attrtype, a.attrtypmod⟩

/-- `spock_relation_open`, with `none` for a local table that does not exist. -/
def Subscriber.relationOpen (s : Subscriber) (remoteid : UInt32) :
    Except ErrorData (Option OpenRelation) :=
  match s.cache remoteid with
  | none => .error ⟨.internalError, s!"cache lookup failed for remote relation {remoteid}"⟩
  | some entry =>
    match s.openTable entry.nspname entry.relname with
    | none => .ok none
    | some desc => do
      let columns ← entry.atts.mapM (openColumn desc)
      pure (some ⟨entry.relname, columns⟩)

/-! ## Reading -/

/-- An error unless `ok`. -/
def expect (ok : Bool) (e : ErrorData) : MsgReader Unit := if ok then pure () else raise e

def liftError {α : Type} : Except ErrorData α → MsgReader α
  | .ok a => pure a
  | .error e => raise e

/-- A C string that begins here and stands in the next `len` bytes; only its terminator ends it. -/
def pqGetMsgCString (len : UInt32) : MsgReader CString := do
  let msg ← get
  let _ ← pqGetMsgBytes len
  pure (cString msg)

/-- A column of a tuple: the value, `none` for null, and whether the message has it. -/
structure Slot where
  value : Option Datum
  changed : Bool
  deriving DecidableEq

/-- `SpockTupleData`, by local column. -/
abbrev TupleData := Nat → Slot

def Slot.empty : Slot := ⟨none, false⟩

inductive Kind where
  | null | unchanged | internal | binary | text
  deriving DecidableEq

def Kind.ofByte (b : UInt8) : Option Kind :=
  match Char.ofUInt8 b with
  | 'n' => some .null
  | 'u' => some .unchanged
  | 'i' => some .internal
  | 'b' => some .binary
  | 't' => some .text
  | _ => none

/-- `fetch_att` of a type passed by value. -/
def fetchAtt (data : List UInt8) : MsgReader Datum :=
  if data.length ∈ [1, 2, 4, 8] then pure (.byVal data)
  else raise (elogError s!"unsupported byval length: {data.length}")

/-- The `i` case of `spock_read_tuple`. -/
def readInternal (att : Attribute) : MsgReader Datum := do
  let len ← pqGetMsgInt32
  let data ← pqGetMsgBytes len
  if att.attbyval then fetchAtt data else pure (.pointer data)

namespace Subscriber

variable (s : Subscriber)

/-- The type of a column of the message and of the local table, if both are built in, must agree. -/
def sameType (c : OpenColumn) : Bool :=
  !((c.att.atttypid != c.attrtype || c.att.atttypmod != c.attrtypmod) &&
    c.att.atttypid < firstNormalObjectId && c.attrtype < firstNormalObjectId)

def getType (typid : UInt32) : MsgReader PgType :=
  match s.searchType typid with
  | some typclass => pure typclass
  | none => raise (elogError s!"cache lookup failed for type {typid}")

/-- The `b` case of `spock_read_tuple`. -/
def readBinary (relname : CString) (c : OpenColumn) : MsgReader Datum := do
  let len ← pqGetMsgInt32
  expect (sameType c) ⟨.datatypeMismatch, s!"binary data has type {c.attrtype} " ++
    s!"({s.formatType c.attrtype c.attrtypmod}) instead of expected {c.att.atttypid} " ++
    s!"({s.formatType c.att.atttypid c.att.atttypmod})"⟩
  let typclass ← s.getType c.att.atttypid
  match typclass.typreceive with
  | none =>
    raise ⟨.other 52461700, s!"no binary input function available for type " ++
      s.formatType c.att.atttypid c.att.atttypmod⟩
  | some typreceive =>
    let buf ← pqGetMsgBytes len
    let (value, rest) ← liftError (typreceive buf c.att.atttypmod)
    expect rest.isEmpty ⟨.invalidBinaryRepresentation, s!"incorrect binary data format for column " ++
      s!"'{c.att.attname.toString}' of table '{relname.toString}'"⟩
    pure value

/-- The `t` case of `spock_read_tuple`. -/
def readText (c : OpenColumn) : MsgReader Datum := do
  let len ← pqGetMsgInt32
  let typclass ← s.getType c.att.atttypid
  let data ← pqGetMsgCString len
  liftError (typclass.typinput data c.att.atttypmod)

/-- The cases of `spock_read_tuple`, from what the column's slot holds. -/
def readOfKind (relname : CString) (c : OpenColumn) (slot : Slot) : Kind → MsgReader Slot
  | .null => pure { slot with changed := true }
  | .unchanged => pure slot
  | .internal => do
    let value ← readInternal c.att
    pure ⟨some value, true⟩
  | .binary => do
    let value ← s.readBinary relname c
    pure ⟨some value, true⟩
  | .text => do
    let value ← s.readText c
    pure ⟨some value, true⟩

/-- One column of `spock_read_tuple`. -/
def readColumn (relname : CString) (c : OpenColumn) (slot : Slot) : MsgReader Slot := do
  let kind ← pqGetMsgByte
  match Kind.ofByte kind with
  | some kind => s.readOfKind relname c slot kind
  | none => raise (elogError s!"unknown data representation type '{Char.ofUInt8 kind}'")

def readColumns (relname : CString) : List OpenColumn → TupleData → MsgReader TupleData
  | [], tuple => pure tuple
  | c :: columns, tuple => do
    let slot ← s.readColumn relname c (tuple c.attid)
    readColumns relname columns (Function.update tuple c.attid slot)

/-- `spock_read_tuple`. -/
def readTuple (rel : OpenRelation) : MsgReader TupleData := do
  let action ← pqGetMsgByte
  expect (action == tag 'T') (elogError s!"expected TUPLE, got {Char.ofUInt8 action}")
  let natts ← pqGetMsgInt16
  expect (rel.columns.length == natts.toNat)
    (elogError (s!"tuple natts mismatch for relation ({rel.relname.toString}) between remote " ++
      s!"relation metadata cache (natts={rel.columns.length}) and remote tuple data (natts={natts})"))
  s.readColumns rel.relname rel.columns fun _ => .empty

inductive Fields where
  | startup (params : List (CString × CString))
  | begin (remoteLsn committime : UInt64) (remoteXid : UInt32)
  | commit (commitLsn endLsn committime remoteInsertLsn : UInt64)
  | origin (originId : UInt16) (originLsn : UInt64) (originName : Option CString)
  | commitOrder (requiredCommitTs : UInt64)
  | relation (relid : UInt32) (rel : RemoteRel)
  /-- A change of a relation without a local table, in a try-block. -/
  | missing (relid : UInt32)
  | insert (relid : UInt32) (newtup : TupleData)
  | update (relid : UInt32) (oldtup : Option TupleData) (newtup : TupleData)
  | delete (relid : UInt32) (oldtup : TupleData)
  | truncate (relids : List UInt32) (cascade restartSeqs : Bool)
  | message (xid : UInt32) (lsn : UInt64) (transactional : Bool) (pref : CString)
      (content : List UInt8)

/-- `spock_read_begin`. -/
def readBegin : MsgReader Fields := do
  let _ ← pqGetMsgByte
  let remoteLsn ← pqGetMsgInt64
  let committime ← pqGetMsgInt64
  let remoteXid ← pqGetMsgInt32
  pure (.begin remoteLsn committime remoteXid)

/-- The end of a COMMIT message: `InvalidXLogRecPtr` unless it has the insert LSN. -/
def readCommitTail : MsgReader UInt64 := if s.version = 4 then pqGetMsgInt64 else pure 0

/-- `spock_read_commit`. -/
def readCommit : MsgReader Fields := do
  let _ ← pqGetMsgByte
  let commitLsn ← pqGetMsgInt64
  let endLsn ← pqGetMsgInt64
  let committime ← pqGetMsgInt64
  let remoteInsertLsn ← s.readCommitTail
  pure (.commit commitLsn endLsn committime remoteInsertLsn)

def readOriginName (flags : UInt8) : MsgReader (Option CString) :=
  if flags &&& 1 != 0 then do
    let name ← pqGetMsgString
    pure (some name)
  else pure none

/-- `spock_read_origin`. -/
def readOrigin : MsgReader Fields := do
  let flags ← pqGetMsgByte
  let originLsn ← pqGetMsgInt64
  let originId ← pqGetMsgInt16
  let originName ← readOriginName flags
  pure (.origin originId originLsn originName)

/-- `spock_read_commit_order`. -/
def readCommitOrder : MsgReader Fields := do
  let _ ← pqGetMsgByte
  let ts ← pqGetMsgInt64
  pure (.commitOrder ts)

/-- One column of `spock_read_attrs`; the flags are ignored. -/
def readAttr : MsgReader RemoteAttr := do
  let blocktype ← pqGetMsgByte
  expect (blocktype == tag 'C') (elogError s!"expected COLUMN, got {Char.ofUInt8 blocktype}")
  let _ ← pqGetMsgByte
  let blocktype ← pqGetMsgByte
  expect (blocktype == tag 'N') (elogError s!"expected NAME, got {Char.ofUInt8 blocktype}")
  let len ← pqGetMsgInt16
  let attname ← pqGetMsgCString len.toUInt32
  let attrtype ← pqGetMsgInt32
  let attrtypmod ← pqGetMsgInt32
  pure ⟨attname, attrtype, attrtypmod⟩

/-- `spock_read_attrs`. -/
def readAttrs : MsgReader (List RemoteAttr) := do
  let blocktype ← pqGetMsgByte
  expect (blocktype == tag 'A') (elogError s!"expected ATTRS, got {Char.ofUInt8 blocktype}")
  let nattrs ← pqGetMsgInt16
  repeatRead readAttr nattrs.toNat

def readName : MsgReader CString := do
  let len ← pqGetMsgByte
  pqGetMsgCString len.toUInt32

/-- `spock_read_rel`, without the update of the cache. -/
def readRel : MsgReader Fields := do
  let _ ← pqGetMsgByte
  let relid ← pqGetMsgInt32
  let nspname ← readName
  let relname ← readName
  let atts ← readAttrs
  pure (.relation relid ⟨nspname, relname, atts⟩)

/-- A reader that goes on with the opened relation, or returns `NULL` in a try-block. -/
def withRelation (relid : UInt32) (k : OpenRelation → MsgReader Fields) : MsgReader Fields := do
  match ← liftError (s.relationOpen relid) with
  | some rel => k rel
  | none =>
    if s.useTryBlock then pure (.missing relid)
    else raise (elogError s!"Spock can't find relation with oid {relid}")

/-- `spock_read_insert`. -/
def readInsert : MsgReader Fields := do
  let _ ← pqGetMsgByte
  let relid ← pqGetMsgInt32
  let action ← pqGetMsgByte
  expect (action == tag 'N') (elogError s!"expected new tuple but got {action}")
  s.withRelation relid fun rel => do
    let newtup ← s.readTuple rel
    pure (.insert relid newtup)

def readUpdateTuples (relid : UInt32) (rel : OpenRelation) (action : UInt8) : MsgReader Fields :=
  if action == tag 'K' || action == tag 'O' then do
    let oldtup ← s.readTuple rel
    let action ← pqGetMsgByte
    expect (action == tag 'N') (elogError s!"expected action 'N', got {Char.ofUInt8 action}")
    let newtup ← s.readTuple rel
    pure (.update relid (some oldtup) newtup)
  else do
    let newtup ← s.readTuple rel
    pure (.update relid none newtup)

/-- `spock_read_update`. -/
def readUpdate : MsgReader Fields := do
  let _ ← pqGetMsgByte
  let relid ← pqGetMsgInt32
  let action ← pqGetMsgByte
  expect (action == tag 'K' || action == tag 'O' || action == tag 'N')
    (elogError s!"expected action 'N', 'O' or 'K', got {Char.ofUInt8 action}")
  s.withRelation relid fun rel => s.readUpdateTuples relid rel action

/-- `spock_read_delete`. -/
def readDelete : MsgReader Fields := do
  let _ ← pqGetMsgByte
  let relid ← pqGetMsgInt32
  let action ← pqGetMsgByte
  expect (action == tag 'K' || action == tag 'O')
    (elogError s!"expected action 'O' or 'K' {Char.ofUInt8 action}")
  s.withRelation relid fun rel => do
    let oldtup ← s.readTuple rel
    pure (.delete relid oldtup)

/-- `spock_read_truncate`; the number of relations is an `int`. -/
def readTruncate : MsgReader Fields := do
  let nrelids ← pqGetMsgInt32
  let flags ← pqCopyMsgBytes 1
  let relids ← repeatRead pqGetMsgInt32 (if nrelids.toNat < 2 ^ 31 then nrelids.toNat else 0)
  pure (.truncate relids (flags.headD 0 &&& 1 != 0) (flags.headD 0 &&& 2 != 0))

/-- `SPOCK_MESSAGE_PREFIX`: the bytes of `Spock`. -/
def spockMessagePrefixBytes : List UInt8 := ['S', 'p', 'o', 'c', 'k'].map tag

/-- The fields `handle_message` reads. -/
def readMessage : MsgReader Fields := do
  let xid ← pqGetMsgInt32
  let lsn ← pqGetMsgInt64
  let transactional ← pqGetMsgByte
  let pref ← pqGetMsgString
  if lsn = 0 ∨ pref.bytes ≠ spockMessagePrefixBytes then throw (.fatal "incorrect spock message")
  else do
    let sz ← pqGetMsgInt32
    let content ← pqGetMsgBytes sz
    pure (.message xid lsn (transactional != 0) pref content)

/-- One key and its value in `handle_startup`. -/
def readStartupParam : MsgReader (CString × CString) := do
  let k ← pqGetMsgString
  expect (!k.bytes.isEmpty)
    (protocolViolation s!"SPOCK {s.name}: invalid startup message: key has zero length")
  let rest ← get
  expect (!rest.isEmpty) (protocolViolation
    s!"SPOCK {s.name}: invalid startup message: key '{k.toString}' has no following value")
  let v ← pqGetMsgString
  pure (k, v)

/-- The loop of `handle_startup`; every turn consumes a byte, so the message's length bounds it. -/
def readStartupParams : Nat → MsgReader (List (CString × CString))
  | 0 => pure []
  | fuel + 1 => do
    let param ← s.readStartupParam
    match ← get with
    | [] => pure [param]
    | _ :: _ => do
      let params ← readStartupParams fuel
      pure (param :: params)

/-- The fields `handle_startup` reads. -/
def readStartup : MsgReader Fields := do
  let msgver ← pqGetMsgByte
  expect (msgver == 1)
    (elogError s!"SPOCK {s.name}: Expected startup message version 1, but got {msgver}")
  let msg ← get
  let params ← s.readStartupParams msg.length
  pure (.startup params)

/-- `replication_handler`, after the action byte. -/
def replicationHandler (action : UInt8) : MsgReader Fields :=
  match Char.ofUInt8 action with
  | 'B' => readBegin
  | 'C' => s.readCommit
  | 'O' => readOrigin
  | 'L' => readCommitOrder
  | 'R' => readRel
  | 'I' => s.readInsert
  | 'U' => s.readUpdate
  | 'D' => s.readDelete
  | 'T' => readTruncate
  | 'S' => s.readStartup
  | 'M' => readMessage
  | c => raise (elogError s!"SPOCK {s.name}: unknown action of type {c}")

def readLsnHeader : MsgReader (Option UInt64) :=
  if 5 ≤ s.version then do
    let lsn ← pqGetMsgInt64
    pure (some lsn)
  else pure none

/-- What `apply_work` reads of a message of the output plugin. -/
structure Decoded where
  lastInserted : Option UInt64
  action : UInt8
  fields : Fields

/-- `apply_work` and `replication_handler` up to the fields of a message. -/
def decode : MsgReader Decoded := do
  let lastInserted ← s.readLsnHeader
  let action ← pqGetMsgByte
  let fields ← s.replicationHandler action
  pure ⟨lastInserted, action, fields⟩

end Subscriber

end Spock.Protocol
