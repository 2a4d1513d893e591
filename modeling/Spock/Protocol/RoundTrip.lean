import Mathlib.Data.List.Forall2
import Spock.Protocol.Native

/-!
# Spock — what is written is read back

Decoding a message gives the fields it was written from and consumes it to its end, in both protocol
versions. A tuple is read against the relation cache and a local table: a column is found by its
name, and its value comes back in another representation (in line, detoasted), which `same` relates
to the one that was sent.

* **`native_reads_back`** — every message of the protocol.
-/

namespace Spock.Protocol

open Wire Subscriber Publisher List Function

/-! ## What a message says -/

def Attribute.description (att : Attribute) : RemoteAttr :=
  ⟨att.attname.toCString, att.atttypid, att.atttypmod⟩

def Relation.description (rel : Relation) (nspname : Name) (attList : Option (List Nat)) :
    RemoteRel :=
  ⟨nspname.toCString, rel.relname.toCString, (rel.live attList).map Attribute.description⟩

/-- A value that is still in the TOAST table was not changed and is not sent. -/
def Attribute.sent (att : Attribute) : Option Datum → TupleDatum Datum
  | none => .null
  | some d => if att.attlen = -1 ∧ d = .onDisk then .unchanged else .datum d

/-- The representations a column of this length can have; cstrings are no column type. -/
inductive Attribute.Stores (att : Attribute) : Datum → Prop where
  | byVal {bytes : List UInt8} (hbyval : att.attbyval = true)
      (hlen : bytes.length = att.attlen.toNat) (hfetch : bytes.length ∈ [1, 2, 4, 8]) :
      Stores att (.byVal bytes)
  | fixed {bytes : List UInt8} (hbyval : att.attbyval = false) (hpos : 0 < att.attlen)
      (hlen : bytes.length = att.attlen.toNat) : Stores att (.pointer bytes)
  | varlena {bytes : List UInt8} (hbyval : att.attbyval = false) (hlen : att.attlen = -1) :
      Stores att (.pointer bytes)
  | indirect {bytes : List UInt8} (hbyval : att.attbyval = false) (hlen : att.attlen = -1) :
      Stores att (.indirect bytes)

section Tuples

-- two representations of one value
variable (same : Datum → Datum → Prop)

structure PgType.Inverse (sender receiver : PgType) (typmod : UInt32) (d : Datum) : Prop where
  input_output : ∃ d', receiver.typinput (sender.typoutput d) typmod = .ok d' ∧ same d d'
  receive_send : sender.typreceive.isSome = true → ∃ send receive d', sender.typsend = some send ∧
    receiver.typreceive = some receive ∧ receive (send d) typmod = .ok (d', []) ∧ same d d'
  inlined : same d d.inlined

/-- The lengths of a value fit the `int` they are sent in. -/
structure PgType.Sized (sender : PgType) (d : Datum) : Prop where
  internal : d.bytes.length < 2 ^ 31
  text : (sender.typoutput d).bytes.length + 1 < 2 ^ 31
  binary : ∀ send, sender.typsend = some send → (send d).length < 2 ^ 31

/-- The local column `l` has the type of the remote column. -/
structure Attribute.StoredIn (att l : Attribute) : Prop where
  typid : att.atttypid < firstNormalObjectId → l.atttypid = att.atttypid
  typmod : l.atttypmod = att.atttypmod
  byval : l.attbyval = att.attbyval

structure ValueReady (p : Publisher) (s : Subscriber) (att l : Attribute) (d : Datum) : Prop where
  stores : att.Stores d
  typed : ∃ sender receiver, p.searchType att.atttypid = some sender ∧
    s.searchType l.atttypid = some receiver ∧ sender.Inverse same receiver l.atttypmod d ∧
    sender.Sized d

/-- The subscriber has a column for `att`, and the value, if one is sent, is of its type. -/
def ColumnReady (p : Publisher) (s : Subscriber) (desc : List Attribute) (att : Attribute)
    (value : Option Datum) : Prop :=
  ∃ l attid, tupdescGetAttByName desc att.attname.toCString = .ok (l, attid) ∧ att.StoredIn l ∧
    ∀ d, att.sent value = .datum d → ValueReady same p s att l d

/-- The relation cache holds the RELATION message of this relation and column list, and the local
table has the columns. -/
def TupleReady (p : Publisher) (s : Subscriber) (rel : Relation) (tuple : Deformed)
    (attList : Option (List Nat)) : Prop :=
  ∃ nspname desc, p.getNamespaceName rel.relnamespace = some nspname ∧
    s.cache rel.relid = some (rel.description nspname attList) ∧
    s.openTable nspname.toCString rel.relname.toCString = some desc ∧
    ∀ att ∈ rel.live attList, ColumnReady same p s desc att (tuple att.attnum)

def Slot.Carries (slot : Slot) : TupleDatum Datum → Prop
  | .null => slot = ⟨none, true⟩
  | .unchanged => slot = ⟨none, false⟩
  | .datum d => ∃ d', slot = ⟨some d', true⟩ ∧ same d d'

/-- The tuple that was read has the columns that were sent, in their order, and nothing else. -/
def TupleReadBack (s : Subscriber) (rel : Relation) (tuple : Deformed)
    (attList : Option (List Nat)) (data : TupleData) : Prop :=
  ∃ opened, s.relationOpen rel.relid = .ok (some opened) ∧
    List.Forall₂ (fun att c => c.att.attname = att.attname ∧
      (data c.attid).Carries same (att.sent (tuple att.attnum))) (rel.live attList) opened.columns ∧
    ∀ i ∉ opened.columns.map (·.attid), data i = .empty

end Tuples

/-! ## Columns -/

theorem reads_expect {ok : Bool} {e : ErrorData} (h : ok = true) : Reads (expect ok e) [] () := by
  subst h
  exact reads_pure ()

theorem reads_liftError {α : Type} {x : Except ErrorData α} {a : α} (h : x = .ok a) :
    Reads (liftError x) [] a := by
  subst h
  exact reads_pure a

theorem reads_cString {s : CString} (h : s.bytes.length + 1 < 2 ^ 31) :
    Reads (pqGetMsgCString (UInt32.ofNat (s.bytes.length + 1))) (pqSendString s) s := by
  intro rest
  have hlen : (pqSendString s).length = s.bytes.length + 1 := by simp [pqSendString]
  have hbytes := reads_bytes (hlen ▸ h) rest
  rw [hlen] at hbytes
  show (pqGetMsgBytes _ (pqSendString s ++ rest) >>= fun r =>
    (Except.ok (cString (pqSendString s ++ rest), r.2) : Except ReadError _)) = _
  rw [hbytes]
  have hstring : pqSendString s ++ rest = s.bytes ++ 0 :: rest := by simp [pqSendString]
  show Except.ok (cString (pqSendString s ++ rest), rest) = _
  rw [hstring, cString_append]

theorem reads_getType {s : Subscriber} {typid : UInt32} {typclass : PgType}
    (h : s.searchType typid = some typclass) : Reads (s.getType typid) [] typclass := by
  rw [getType, h]
  exact reads_pure typclass

variable {same : Datum → Datum → Prop} {p : Publisher} {s : Subscriber} {att l : Attribute}
  {d : Datum} {sender receiver : PgType}

theorem reads_internal (hstores : att.Stores d) (hbyval : l.attbyval = att.attbyval)
    (hsize : d.bytes.length < 2 ^ 31) :
    ∃ bytes, writeInternal att d = .ok (pqSendByte (tag 'i') ++ bytes) ∧
      Reads (readInternal l) bytes d.inlined := by
  have hread : ∀ value : Datum, Reads (if l.attbyval then fetchAtt d.bytes
      else pure (.pointer d.bytes)) [] value →
      Reads (readInternal l) (pqSendInt32 (UInt32.ofNat d.bytes.length) ++ d.bytes) value := by
    intro value hvalue
    refine ((reads_int32 _).bind ((reads_bytes hsize).bind hvalue)).of_eq ?_
    rw [append_nil]
  cases hstores with
  | byVal hb hlen hfetch =>
    refine ⟨_, ?_, hread _ ?_⟩
    · rw [writeInternal, hb, Bool.true_or, if_pos rfl, ← hlen, Datum.bytes, take_length,
        append_assoc]
    · rw [hbyval, hb, if_pos rfl, fetchAtt, Datum.bytes, if_pos hfetch]
      exact reads_pure _
  | fixed hb hpos hlen =>
    refine ⟨_, ?_, hread _ ?_⟩
    · rw [writeInternal, hb, Bool.false_or, if_pos (decide_eq_true hpos), ← hlen, Datum.bytes,
        take_length, append_assoc]
    · rw [hbyval, hb]
      exact reads_pure _
  | varlena hb hlen | indirect hb hlen =>
    refine ⟨_, ?_, hread _ ?_⟩
    · rw [writeInternal, hb, hlen, if_neg (by decide), if_pos rfl, append_assoc]
    · rw [hbyval, hb]
      exact reads_pure _

theorem sameType_of_storedIn (h : att.StoredIn l) (attid : Nat) :
    sameType ⟨attid, l, att.atttypid, att.atttypmod⟩ = true := by
  by_cases hbuiltin : att.atttypid < firstNormalObjectId
  · simp [sameType, h.typid hbuiltin, h.typmod]
  · simp [sameType, hbuiltin]

theorem reads_binary (hstored : att.StoredIn l) (hinverse : sender.Inverse same receiver l.atttypmod d)
    (hsize : sender.Sized d) (hreceive : sender.typreceive.isSome = true)
    (htype : s.searchType l.atttypid = some receiver) (relname : CString) (attid : Nat) :
    ∃ bytes d', writeBinary sender d = .ok (pqSendByte (tag 'b') ++ bytes) ∧
      Reads (s.readBinary relname ⟨attid, l, att.atttypid, att.atttypmod⟩) bytes d' ∧ same d d' := by
  obtain ⟨send, _, d', hsend, hrecv, hback, hsame⟩ := hinverse.receive_send hreceive
  refine ⟨pqSendInt32 (UInt32.ofNat (send d).length) ++ send d, d', ?_, ?_, hsame⟩
  · rw [writeBinary, hsend]
    exact congrArg Except.ok (append_assoc ..)
  · unfold readBinary
    refine (reads_int32 _).bind ((reads_expect (sameType_of_storedIn hstored attid)).bind
      ((reads_getType htype).bind ?_))
    rw [hrecv]
    -- the value takes up the whole buffer
    refine ((reads_bytes (hsize.binary send hsend)).bind ((reads_liftError hback).bind
      ((reads_expect rfl).bind (reads_pure d')))).of_eq ?_
    rw [append_nil, append_nil, append_nil]

theorem reads_text (hinverse : sender.Inverse same receiver l.atttypmod d) (hsize : sender.Sized d)
    (htype : s.searchType l.atttypid = some receiver) (c : OpenColumn) (hc : c.att = l) :
    ∃ bytes d', writeText sender d = pqSendByte (tag 't') ++ bytes ∧
      Reads (s.readText c) bytes d' ∧ same d d' := by
  obtain ⟨d', hback, hsame⟩ := hinverse.input_output
  subst hc
  refine ⟨_, d', append_assoc .., ?_, hsame⟩
  refine ((reads_int32 _).bind ((reads_getType htype).bind ((reads_cString hsize.text).bind
    (reads_liftError hback)))).of_eq ?_
  rw [append_nil, nil_append]

variable {bytes : List UInt8} {atts : List Attribute} {fields : Fields}

theorem reads_ofKind {relname : CString} {c : OpenColumn} {slot slot' : Slot} {kind : Kind}
    {letter : UInt8} (hletter : Kind.ofByte letter = some kind)
    (h : Reads (s.readOfKind relname c slot kind) bytes slot') :
    Reads (s.readColumn relname c slot) (pqSendByte letter ++ bytes) slot' := by
  refine (reads_byte letter).bind ?_
  rw [hletter]
  exact h

/-- **Columns.** Each column is read in the format it was written in, and its slot then holds what
was sent. -/
theorem reads_column {value : Option Datum} (hstored : att.StoredIn l)
    (hvalue : ∀ d, att.sent value = .datum d → ValueReady same p s att l d)
    (relname : CString) (attid : Nat) :
    ∃ bytes slot, p.writeColumn att value = .ok bytes ∧
      Reads (s.readColumn relname ⟨attid, l, att.atttypid, att.atttypmod⟩ .empty) bytes slot ∧
      slot.Carries same (att.sent value) := by
  cases value with
  | none => exact ⟨_, _, rfl, reads_ofKind rfl (reads_pure _), rfl⟩
  | some d =>
    by_cases htoast : att.attlen = -1 ∧ d = .onDisk
    · rw [Attribute.sent, writeColumn, if_pos htoast, if_pos htoast]
      exact ⟨_, _, rfl, reads_ofKind rfl (reads_pure _), rfl⟩
    · have hsent : att.sent (some d) = .datum d := by rw [Attribute.sent, if_neg htoast]
      obtain ⟨hstores, sender, _, hsender, hreceiver, hinverse, hsize⟩ := hvalue d hsent
      rw [hsent, writeColumn, if_neg htoast, hsender]
      dsimp only
      -- the value's bytes come after the letter of the format that was decided on
      cases htransfer : p.decideDatumTransfer att sender with
      | internal =>
        obtain ⟨_, hwrite, hread⟩ := reads_internal hstores hstored.byval hsize.internal
        exact ⟨_, _, hwrite, reads_ofKind rfl (hread.bind_pure fun value => Slot.mk (some value) true),
          _, rfl, hinverse.inlined⟩
      | binary =>
        have hreceive : sender.typreceive.isSome = true := by
          unfold decideDatumTransfer at htransfer
          split at htransfer
          · cases htransfer
          · split at htransfer
            next h => simp only [Bool.and_eq_true] at h; exact h.1.1.2
            next => cases htransfer
        obtain ⟨bytes, d', hwrite, hread, hsame⟩ :=
          reads_binary hstored hinverse hsize hreceive hreceiver relname attid
        exact ⟨_, _, hwrite, reads_ofKind rfl (hread.bind_pure fun value => Slot.mk (some value) true),
          _, rfl, hsame⟩
      | text =>
        obtain ⟨_, _, hwrite, hread, hsame⟩ := reads_text hinverse hsize hreceiver
          ⟨attid, l, att.atttypid, att.atttypmod⟩ rfl
        exact ⟨_, _, congrArg Except.ok hwrite,
          reads_ofKind rfl (hread.bind_pure fun value => Slot.mk (some value) true), _, rfl, hsame⟩

/-! ## Tuples -/

theorem Name.toCString_injective {a b : Name} (h : a.toCString = b.toCString) : a = b := by
  obtain ⟨a, _⟩ := a
  obtain ⟨b, _⟩ := b
  cases h
  rfl

variable {desc : List Attribute} {tuple : Deformed} {rel : Relation} {attList : Option (List Nat)}

theorem tupdescGetAttByName_spec {name : CString} {a : Attribute × Nat}
    (h : tupdescGetAttByName desc name = .ok a) :
    desc[a.2]? = some a.1 ∧ a.1.attname.toCString = name := by
  unfold tupdescGetAttByName at h
  split at h
  next hfind =>
    cases h
    exact ⟨mem_zipIdx_iff_getElem?.1 (mem_of_find?_eq_some hfind), by simpa using find?_some hfind⟩
  next => cases h

theorem attname_eq_of_attid_eq {att' l' : Attribute} {attid : Nat}
    (h : tupdescGetAttByName desc att.attname.toCString = .ok (l, attid))
    (h' : tupdescGetAttByName desc att'.attname.toCString = .ok (l', attid)) :
    att.attname = att'.attname := by
  obtain ⟨hl, hname⟩ := tupdescGetAttByName_spec h
  obtain ⟨hl', hname'⟩ := tupdescGetAttByName_spec h'
  have hll : l = l' := Option.some.inj (hl.symm.trans hl')
  exact Name.toCString_injective (by rw [← hname, ← hname', hll])

def ColumnsHold (same : Datum → Datum → Prop) (desc : List Attribute) (tuple : Deformed)
    (data : TupleData) : List Attribute → List OpenColumn → Prop :=
  List.Forall₂ fun att c => tupdescGetAttByName desc att.attname.toCString = .ok (c.att, c.attid) ∧
    (data c.attid).Carries same (att.sent (tuple att.attnum))

theorem ColumnsHold.attid {data : TupleData} {columns : List OpenColumn}
    (h : ColumnsHold same desc tuple data atts columns) {i : Nat} (hi : i ∈ columns.map (·.attid)) :
    ∃ att ∈ atts, ∃ l, tupdescGetAttByName desc att.attname.toCString = .ok (l, i) := by
  induction h with
  | nil => cases hi
  | cons hhead _ ih =>
    rcases mem_cons.1 hi with rfl | hi
    · exact ⟨_, mem_cons_self, _, hhead.1⟩
    · obtain ⟨att, hatt, hl⟩ := ih hi
      exact ⟨att, mem_cons_of_mem _ hatt, hl⟩

/-- By induction on the attributes: reading a column changes its slot, which no later column has. -/
theorem reads_columns (relname : CString)
    (hready : ∀ att ∈ atts, ColumnReady same p s desc att (tuple att.attnum))
    (hnodup : (atts.map (·.attname)).Nodup) (data : TupleData)
    (hempty : ∀ att ∈ atts, ∀ l i, tupdescGetAttByName desc att.attname.toCString = .ok (l, i) →
      data i = .empty) :
    ∃ written columns data',
      atts.mapM (fun att => p.writeColumn att (tuple att.attnum)) = .ok written ∧
      (atts.map Attribute.description).mapM (openColumn desc) = .ok columns ∧
      Reads (s.readColumns relname columns data) written.flatten data' ∧
      ColumnsHold same desc tuple data' atts columns ∧
      ∀ i ∉ columns.map (·.attid), data' i = data i := by
  induction atts generalizing data with
  | nil => exact ⟨[], [], data, rfl, rfl, reads_pure data, .nil, fun _ _ => rfl⟩
  | cons att atts ih =>
    rw [map_cons, nodup_cons] at hnodup
    obtain ⟨l, attid, hlookup, hstored, hvalue⟩ := hready att mem_cons_self
    obtain ⟨bytes, slot, hwrite, hread, hcarries⟩ := reads_column hstored hvalue relname attid
    have hother : ∀ att' ∈ atts, ∀ l',
        tupdescGetAttByName desc att'.attname.toCString ≠ .ok (l', attid) := by
      intro att' hatt' l' hlookup'
      have hname := attname_eq_of_attid_eq hlookup hlookup'
      exact hnodup.1 (mem_map.2 ⟨att', hatt', hname.symm⟩)
    obtain ⟨written, columns, data', hwritten, hopened, hreads, hhold, hframe⟩ :=
      ih (fun att' hatt' => hready att' (mem_cons_of_mem _ hatt')) hnodup.2
        (update data attid slot) fun att' hatt' l' i hlookup' => by
          have hi : i ≠ attid := fun hi => hother att' hatt' l' (hi ▸ hlookup')
          rw [update_of_ne hi]
          exact hempty att' (mem_cons_of_mem _ hatt') l' i hlookup'
    have hfirst : data' attid = slot := by
      rw [hframe attid, update_self]
      intro hmem
      obtain ⟨att', hatt', l', hlookup'⟩ := hhold.attid hmem
      exact hother att' hatt' l' hlookup'
    rw [← hempty att mem_cons_self l attid hlookup] at hread
    refine ⟨bytes :: written, ⟨attid, l, att.atttypid, att.atttypmod⟩ :: columns, data', ?_, ?_, ?_,
      .cons ⟨hlookup, hfirst ▸ hcarries⟩ hhold, fun i hi => ?_⟩
    · rw [mapM_cons, hwrite, hwritten]
      rfl
    · rw [map_cons, mapM_cons, hopened, openColumn, Attribute.description, hlookup]
      rfl
    · exact hread.bind hreads
    · rw [map_cons, mem_cons, not_or] at hi
      rw [hframe i hi.2, update_of_ne hi.1]

theorem Relation.live_nodup (rel : Relation) (attList : Option (List Nat)) :
    ((rel.live attList).map (·.attname)).Nodup :=
  rel.attnames_nodup.sublist (filter_sublist.map _)

theorem Relation.live_length (rel : Relation) (attList : Option (List Nat)) :
    (UInt16.ofNat (rel.live attList).length).toNat = (rel.live attList).length := by
  have hlive : (rel.live attList).length ≤ rel.desc.length := length_filter_le _ _
  have hmax := rel.natts_le
  rw [UInt16.toNat_ofNat']
  omega

/-- **Tuples.** A tuple is written, the relation is opened, and the tuple is read column by
column. -/
theorem reads_tuple (hready : TupleReady same p s rel tuple attList) :
    ∃ bytes opened data, p.writeTuple rel tuple attList = .ok bytes ∧
      s.relationOpen rel.relid = .ok (some opened) ∧ Reads (s.readTuple opened) bytes data ∧
      TupleReadBack same s rel tuple attList data := by
  obtain ⟨_, desc, _, hcache, htable, hcolumns⟩ := hready
  obtain ⟨written, columns, data, hwritten, hopened, hreads, hhold, hframe⟩ :=
    reads_columns rel.relname.toCString hcolumns (rel.live_nodup attList) (fun _ => .empty)
      fun _ _ _ _ _ => rfl
  have hopen : s.relationOpen rel.relid = .ok (some ⟨rel.relname.toCString, columns⟩) := by
    rw [relationOpen, hcache]
    dsimp only [Relation.description]
    rw [htable]
    show (((rel.live attList).map Attribute.description).mapM (openColumn desc) >>= _) = _
    rw [hopened]
    rfl
  have hnatts : columns.length = (UInt16.ofNat (rel.live attList).length).toNat := by
    rw [rel.live_length attList]
    exact hhold.length_eq.symm
  refine ⟨_, _, data, by rw [writeTuple, hwritten]; rfl, hopen, ?_, _, hopen, ?_, hframe⟩
  · refine ((reads_byte (tag 'T')).bind ((reads_expect rfl).bind ((reads_int16 _).bind
      ((reads_expect (beq_iff_eq.2 hnatts)).bind hreads)))).of_eq ?_
    rw [nil_append, nil_append, append_assoc]
  · exact hhold.imp fun att c h =>
      ⟨Name.toCString_injective (tupdescGetAttByName_spec h.1).2, h.2⟩

/-! ## Messages -/

/-- A message that can be sent on the connection. The startup message, which nothing is in front of,
is read only while the version is still 4. -/
def Message.Ready (same : Datum → Datum → Prop) (p : Publisher) (s : Subscriber) : Message → Prop
  | .startup params => p.version = 4 ∧ params ≠ [] ∧ ∀ param ∈ params, param.1.bytes ≠ []
  | .begin .. | .commit .. | .origin .. | .commitOrder .. => True
  | .relation rel _ => ∃ nspname, p.getNamespaceName rel.relnamespace = some nspname
  | .insert rel newtuple attList => TupleReady same p s rel newtuple attList
  | .update rel oldtuple newtuple attList =>
    (∀ tuple ∈ oldtuple, TupleReady same p s rel tuple attList) ∧
      TupleReady same p s rel newtuple attList
  | .delete rel oldtuple attList => TupleReady same p s rel oldtuple attList
  | .truncate relids _ _ => relids.length < 2 ^ 31
  | .message _ lsn _ pref content =>
    lsn ≠ 0 ∧ pref.bytes = spockMessagePrefixBytes ∧ content.length < 2 ^ 31

def Message.ReadBack (same : Datum → Datum → Prop) (p : Publisher) (s : Subscriber) :
    Message → Fields → Prop
  | .startup params, fields => fields = .startup params
  | .begin finalLsn committime xid, fields => fields = .begin finalLsn committime xid
  | .commit commitLsn endLsn committime, fields =>
    fields = .commit commitLsn endLsn committime (if p.version = 4 then p.insertLsn else 0)
  | .origin originId originLsn name, fields =>
    fields = .origin originId originLsn (p.originName name)
  | .commitOrder lastCommitTs, fields => fields = .commitOrder lastCommitTs
  | .relation rel attList, fields => ∃ nspname, p.getNamespaceName rel.relnamespace = some nspname ∧
    fields = .relation rel.relid (rel.description nspname attList)
  | .insert rel newtuple attList, fields => ∃ data, fields = .insert rel.relid data ∧
    TupleReadBack same s rel newtuple attList data
  | .update rel oldtuple newtuple attList, fields => ∃ old data,
    fields = .update rel.relid old data ∧
    Option.Rel (fun tuple data => TupleReadBack same s rel tuple attList data) oldtuple old ∧
    TupleReadBack same s rel newtuple attList data
  | .delete rel oldtuple attList, fields => ∃ data, fields = .delete rel.relid data ∧
    TupleReadBack same s rel oldtuple attList data
  | .truncate relids cascade restartSeqs, fields => fields = .truncate relids cascade restartSeqs
  | .message xid lsn transactional pref content, fields =>
    fields = .message xid lsn transactional pref content

def Publisher.header (p : Publisher) : Option UInt64 :=
  if 5 ≤ p.version then some p.insertLsn else none

theorem reads_lsnHeader (hs : s.version = p.version) :
    Reads s.readLsnHeader p.lsnHeader p.header := by
  rw [readLsnHeader, lsnHeader, Publisher.header, hs]
  split
  · exact (reads_int64 _).bind_pure some
  · exact reads_pure none

theorem decode_of_reads {body : List UInt8} {action : UInt8} (hs : s.version = p.version)
    (hbytes : bytes = p.lsnHeader ++ (pqSendByte action ++ body))
    (h : Reads (s.replicationHandler action) body fields) :
    s.decode bytes = .ok (⟨p.header, action, fields⟩, []) :=
  (((reads_lsnHeader hs).bind ((reads_byte action).bind
    (h.bind_pure fun fields => Decoded.mk p.header action fields))).of_eq hbytes).run

theorem reads_begin (finalLsn committime : UInt64) (xid : UInt32) :
    Reads readBegin (pqSendByte 0 ++ (pqSendInt64 finalLsn ++ (pqSendInt64 committime ++
      pqSendInt32 xid))) (.begin finalLsn committime xid) :=
  (reads_byte 0).bind ((reads_int64 _).bind ((reads_int64 _).bind ((reads_int32 _).bind_pure _)))

theorem reads_commit (hs : s.version = p.version) (commitLsn endLsn committime : UInt64) :
    Reads s.readCommit (pqSendByte 0 ++ (pqSendInt64 commitLsn ++ (pqSendInt64 endLsn ++
      (pqSendInt64 committime ++ if p.version = 4 then pqSendInt64 p.insertLsn else []))))
      (.commit commitLsn endLsn committime (if p.version = 4 then p.insertLsn else 0)) := by
  have htail : Reads s.readCommitTail (if p.version = 4 then pqSendInt64 p.insertLsn else [])
      (if p.version = 4 then p.insertLsn else 0) := by
    rw [readCommitTail, hs]
    split
    · exact reads_int64 _
    · exact reads_pure 0
  exact (reads_byte 0).bind ((reads_int64 _).bind ((reads_int64 _).bind ((reads_int64 _).bind
    (htail.bind_pure _))))

theorem reads_origin (originId : UInt16) (originLsn : UInt64) (name : Option CString) :
    Reads readOrigin (pqSendByte (if name.isSome then 1 else 0) ++ (pqSendInt64 originLsn ++
      (pqSendInt16 originId ++ writeOriginName name))) (.origin originId originLsn name) := by
  have hname : Reads (readOriginName (if name.isSome then 1 else 0)) (writeOriginName name) name := by
    cases name with
    | none => exact reads_pure none
    | some name =>
      rw [Option.isSome_some, if_pos rfl, readOriginName, if_pos (by decide)]
      exact (reads_string name).bind_pure some
  exact (reads_byte _).bind ((reads_int64 _).bind ((reads_int16 _).bind (hname.bind_pure _)))

theorem reads_commitOrder (ts : UInt64) :
    Reads readCommitOrder (pqSendByte 0 ++ pqSendInt64 ts) (.commitOrder ts) :=
  (reads_byte 0).bind ((reads_int64 _).bind_pure _)

theorem reads_name (name : Name) : Reads readName (writeName name) name.toCString := by
  have hshort := name.short
  have hlen : (UInt8.ofNat (name.bytes.length + 1)).toUInt32 = UInt32.ofNat (name.bytes.length + 1) := by
    apply UInt32.toNat_inj.1
    rw [UInt8.toNat_toUInt32, UInt8.toNat_ofNat', UInt32.toNat_ofNat']
    omega
  refine (reads_byte _).bind ?_
  rw [hlen]
  exact reads_cString (by omega)

theorem reads_attr (rel : Relation) (att : Attribute) :
    Reads readAttr (writeAttr rel att) att.description := by
  have hshort := att.attname.short
  have hlen : (UInt16.ofNat (att.attname.bytes.length + 1)).toUInt32 =
      UInt32.ofNat (att.attname.bytes.length + 1) := by
    apply UInt32.toNat_inj.1
    rw [UInt16.toNat_toUInt32, UInt16.toNat_ofNat', UInt32.toNat_ofNat']
    omega
  have hname : Reads (pqGetMsgCString (UInt16.ofNat (att.attname.bytes.length + 1)).toUInt32)
      (pqSendString att.attname.toCString) att.attname.toCString := by
    rw [hlen]
    exact reads_cString (by omega)
  refine ((reads_byte (tag 'C')).bind ((reads_expect rfl).bind
    ((reads_byte (if rel.idattrs.contains att.attnum then 1 else 0)).bind
    ((reads_byte (tag 'N')).bind ((reads_expect rfl).bind ((reads_int16 _).bind (hname.bind
    ((reads_int32 _).bind ((reads_int32 _).bind_pure _))))))))).of_eq ?_
  simp only [writeAttr, append_assoc, nil_append]

theorem reads_attrs (rel : Relation) (attList : Option (List Nat)) :
    Reads readAttrs (writeAttrs rel attList) ((rel.live attList).map Attribute.description) := by
  have hall := reads_repeat (l := rel.live attList) fun att _ => reads_attr rel att
  refine ((reads_byte (tag 'A')).bind ((reads_expect rfl).bind ((reads_int16 _).bind
    (rel.live_length attList ▸ hall)))).of_eq ?_
  simp only [writeAttrs, append_assoc, nil_append]

theorem reads_rel (rel : Relation) (nspname : Name) (attList : Option (List Nat)) :
    Reads readRel (pqSendByte 0 ++ (pqSendInt32 rel.relid ++ (writeName nspname ++
      (writeName rel.relname ++ writeAttrs rel attList))))
      (.relation rel.relid (rel.description nspname attList)) :=
  (reads_byte 0).bind ((reads_int32 _).bind ((reads_name nspname).bind ((reads_name rel.relname).bind
    ((reads_attrs rel attList).bind_pure _))))

theorem reads_withRelation {relid : UInt32} {opened : OpenRelation}
    {k : OpenRelation → MsgReader Fields} (hopen : s.relationOpen relid = .ok (some opened))
    (hk : Reads (k opened) bytes fields) : Reads (s.withRelation relid k) bytes fields :=
  (reads_liftError hopen).bind hk

theorem reads_truncate {relids : List UInt32} (h : relids.length < 2 ^ 31)
    (cascade restartSeqs : Bool) :
    Reads readTruncate (pqSendInt32 (UInt32.ofNat relids.length) ++
      (pqSendByte (truncateFlags cascade restartSeqs) ++ relids.flatMap pqSendInt32))
      (.truncate relids cascade restartSeqs) := by
  have hlen : (UInt32.ofNat relids.length).toNat = relids.length := by
    rw [UInt32.toNat_ofNat']
    omega
  have hrelids : Reads (repeatRead pqGetMsgInt32 (if (UInt32.ofNat relids.length).toNat < 2 ^ 31
      then (UInt32.ofNat relids.length).toNat else 0)) (relids.flatMap pqSendInt32) relids := by
    rw [hlen, if_pos h]
    have hall := reads_repeat (l := relids) fun relid _ => reads_int32 relid
    rwa [map_id'] at hall
  have hflags := reads_copyMsgBytes (pqSendByte (truncateFlags cascade restartSeqs))
  have hcascade : (truncateFlags cascade restartSeqs &&& 1 != 0) = cascade := by
    cases cascade <;> cases restartSeqs <;> rfl
  have hrestart : (truncateFlags cascade restartSeqs &&& 2 != 0) = restartSeqs := by
    cases cascade <;> cases restartSeqs <;> rfl
  refine (reads_int32 _).bind (hflags.bind ?_)
  show Reads (do
    let relids ← _
    pure (Fields.truncate relids (truncateFlags cascade restartSeqs &&& 1 != 0)
      (truncateFlags cascade restartSeqs &&& 2 != 0))) _ _
  rw [hcascade, hrestart]
  exact hrelids.bind_pure _

theorem reads_message {lsn : UInt64} {pref : CString} {content : List UInt8} (hlsn : lsn ≠ 0)
    (hpref : pref.bytes = spockMessagePrefixBytes) (hsize : content.length < 2 ^ 31) (xid : UInt32)
    (transactional : Bool) :
    Reads readMessage (pqSendInt32 xid ++ (pqSendInt64 lsn ++
      (pqSendByte (if transactional then 1 else 0) ++ (pqSendString pref ++
        (pqSendInt32 (UInt32.ofNat content.length) ++ content)))))
      (.message xid lsn transactional pref content) := by
  have hbool : ((if transactional then 1 else 0 : UInt8) != 0) = transactional := by
    cases transactional <;> rfl
  have hspock : ¬ (lsn = 0 ∨ pref.bytes ≠ spockMessagePrefixBytes) := by
    rintro (h | h)
    · exact hlsn h
    · exact h hpref
  refine (reads_int32 xid).bind ((reads_int64 lsn).bind ((reads_byte _).bind
    ((reads_string pref).bind ?_)))
  rw [if_neg hspock, hbool]
  exact (reads_int32 _).bind ((reads_bytes hsize).bind_pure _)

theorem reads_insert (hready : TupleReady same p s rel tuple attList) :
    ∃ bytes fields,
      p.writeInsert rel tuple attList = .ok (p.lsnHeader ++ (pqSendByte (tag 'I') ++ bytes)) ∧
      Reads s.readInsert bytes fields ∧
      (Message.insert rel tuple attList).ReadBack same p s fields := by
  obtain ⟨_, _, data, hwrite, hopen, hread, hback⟩ := reads_tuple hready
  refine ⟨_, _, ?_, (reads_byte 0).bind ((reads_int32 rel.relid).bind ((reads_byte (tag 'N')).bind
    ((reads_expect rfl).bind (reads_withRelation hopen (hread.bind_pure _))))), data, rfl, hback⟩
  rw [writeInsert, hwrite]
  exact congrArg Except.ok (by simp only [append_assoc, nil_append])

theorem reads_delete (hready : TupleReady same p s rel tuple attList) :
    ∃ bytes fields,
      p.writeDelete rel tuple attList = .ok (p.lsnHeader ++ (pqSendByte (tag 'D') ++ bytes)) ∧
      Reads s.readDelete bytes fields ∧
      (Message.delete rel tuple attList).ReadBack same p s fields := by
  obtain ⟨_, _, data, hwrite, hopen, hread, hback⟩ := reads_tuple hready
  refine ⟨_, _, ?_, (reads_byte 0).bind ((reads_int32 rel.relid).bind ((reads_byte (tag 'K')).bind
    ((reads_expect rfl).bind (reads_withRelation hopen (hread.bind_pure _))))), data, rfl, hback⟩
  rw [writeDelete, hwrite]
  exact congrArg Except.ok (by simp only [append_assoc, nil_append])

theorem reads_update {old : Option Deformed} (hold : ∀ t ∈ old, TupleReady same p s rel t attList)
    (hready : TupleReady same p s rel tuple attList) :
    ∃ bytes fields,
      p.writeUpdate rel old tuple attList = .ok (p.lsnHeader ++ (pqSendByte (tag 'U') ++ bytes)) ∧
      Reads s.readUpdate bytes fields ∧
      (Message.update rel old tuple attList).ReadBack same p s fields := by
  obtain ⟨bytes, opened, data, hwrite, hopen, hread, hback⟩ := reads_tuple hready
  cases old with
  | none =>
    refine ⟨_, _, ?_, (reads_byte 0).bind ((reads_int32 rel.relid).bind ((reads_byte (tag 'N')).bind
      ((reads_expect rfl).bind (reads_withRelation hopen (hread.bind_pure _))))), none, data, rfl,
      .none, hback⟩
    rw [writeUpdate, hwrite]
    exact congrArg Except.ok (by simp only [append_assoc, nil_append])
  | some t =>
    obtain ⟨bytes', opened', data', hwrite', hopen', hread', hback'⟩ := reads_tuple (hold t rfl)
    have hsame : opened' = opened := by
      cases hopen.symm.trans hopen'
      rfl
    subst hsame
    have htuples : Reads (s.readUpdateTuples rel.relid opened' (tag 'K'))
        (bytes' ++ (pqSendByte (tag 'N') ++ ([] ++ bytes))) (.update rel.relid (some data') data) :=
      hread'.bind ((reads_byte (tag 'N')).bind ((reads_expect rfl).bind (hread.bind_pure _)))
    refine ⟨_, _, ?_, (reads_byte 0).bind ((reads_int32 rel.relid).bind ((reads_byte (tag 'K')).bind
      ((reads_expect rfl).bind (reads_withRelation hopen htuples)))), some data', data, rfl,
      .some hback', hback⟩
    rw [writeUpdate, writeOldKey, hwrite', hwrite]
    exact congrArg Except.ok (by simp only [append_assoc, nil_append])

theorem reads_startupParam {k v : CString} (hk : k.bytes ≠ []) :
    Reads s.readStartupParam (pqSendString k ++ pqSendString v) (k, v) := by
  have hkey : (!k.bytes.isEmpty) = true := by simpa using hk
  refine ((reads_string k).bind ((reads_expect hkey).bind fun rest => ?_)).of_eq rfl
  have hvalue : (!(pqSendString v ++ rest).isEmpty) = true := by simp [pqSendString]
  exact Reads.bind (f := fun _ => do let v ← pqGetMsgString; pure (k, v)) (reads_expect hvalue)
    ((reads_string v).bind_pure (k, ·)) rest

/-- The parameters are read to the end of the message. -/
theorem readStartupParams_flatMap {params : List (CString × CString)} (hne : params ≠ [])
    (hkeys : ∀ param ∈ params, param.1.bytes ≠ []) {fuel : Nat} (hfuel : params.length ≤ fuel) :
    s.readStartupParams fuel
      (params.flatMap fun param => pqSendString param.1 ++ pqSendString param.2) =
        .ok (params, []) := by
  induction params generalizing fuel with
  | nil => exact absurd rfl hne
  | cons param params ih =>
    obtain ⟨fuel, rfl⟩ := Nat.exists_eq_add_of_le' (Nat.one_le_of_lt hfuel)
    have hparam := reads_startupParam (s := s) (v := param.2) (hkeys param mem_cons_self)
    rw [flatMap_cons]
    refine bind_ok_iff.2 ⟨_, _, hparam _, ?_⟩
    cases params with
    | nil => rfl
    | cons next params =>
      have htail := ih (cons_ne_nil next params) (fun p hp => hkeys p (mem_cons_of_mem _ hp))
        (Nat.le_of_succ_le_succ hfuel)
      have hmore : ((next :: params).flatMap fun param =>
          pqSendString param.1 ++ pqSendString param.2) ≠ [] := by simp [pqSendString]
      obtain ⟨b, rest, hbytes⟩ := exists_cons_of_ne_nil hmore
      rw [hbytes] at htail ⊢
      exact bind_ok_iff.2 ⟨_, _, rfl, bind_ok_iff.2 ⟨_, _, htail, rfl⟩⟩

/-- The startup message, as a worker that has just connected reads it. -/
theorem decode_startup {params : List (CString × CString)} (hs : s.version = 4) (hne : params ≠ [])
    (hkeys : ∀ param ∈ params, param.1.bytes ≠ []) :
    s.decode (writeStartupMessage params) = .ok (⟨none, tag 'S', .startup params⟩, []) := by
  have hheader : Reads s.readLsnHeader [] none := by
    rw [readLsnHeader, hs]
    exact reads_pure none
  have hlength : params.length ≤
      (params.flatMap fun param => pqSendString param.1 ++ pqSendString param.2).length := by
    clear hne hkeys
    induction params with
    | nil => rfl
    | cons => grind [pqSendString]
  have hstartup : s.readStartup (pqSendByte 1 ++ params.flatMap fun param =>
      pqSendString param.1 ++ pqSendString param.2) = .ok (.startup params, []) := by
    have hparams := readStartupParams_flatMap (s := s) hne hkeys hlength
    generalize params.flatMap _ = bytes at hparams
    show (s.readStartupParams bytes.length bytes >>= fun p => Except.ok (Fields.startup p.1, p.2)) = _
    rw [hparams]
    rfl
  exact bind_ok_iff.2 ⟨none, _, hheader _,
    bind_ok_iff.2 ⟨_, _, rfl, bind_ok_iff.2 ⟨_, [], hstartup, rfl⟩⟩⟩

section Sample

def sampleColumn (attnum : Nat) (letter : UInt8) (h : 0 ∉ [letter]) (typid : UInt32) (attlen : Int) :
    Attribute :=
  ⟨attnum, ⟨⟨[letter], h⟩, by simp⟩, typid, 0, attlen, 0 < attlen, false, false⟩

/-- An integer, a value in the TOAST table, a text, a base type and a composite type of the user,
and a dropped column. -/
def sampleRelation : Relation where
  relid := 7
  relnamespace := 1
  relname := ⟨⟨[116], by decide⟩, by decide⟩
  desc := [sampleColumn 1 97 (by decide) 23 4, sampleColumn 2 98 (by decide) 25 (-1),
    { sampleColumn 3 46 (by decide) 0 4 with attisdropped := true },
    sampleColumn 4 99 (by decide) 25 (-1), sampleColumn 5 100 (by decide) 20000 (-1),
    sampleColumn 6 101 (by decide) 20001 (-1)]
  idattrs := [1]
  attnames_nodup := by decide
  natts_le := by decide

def sampleType (typtype : TypType) : PgType where
  typtype := typtype
  typelem := 0
  typoutput d := cString d.bytes
  typinput s _ := .ok (.pointer s.bytes)
  typsend := some Datum.bytes
  typreceive := some fun bytes _ => .ok (.pointer bytes, [])

def sampleTypes (typid : UInt32) : Option PgType :=
  some (sampleType (if typid = 20001 then .composite else .base))

def samplePublisher : Publisher where
  version := 5
  insertLsn := 77
  allowInternalBasetypes := true
  allowBinaryBasetypes := true
  getNamespaceName _ := some ⟨⟨[110], by decide⟩, by decide⟩
  searchType := sampleTypes

def sampleSubscriber : Subscriber where
  name := "sub"
  version := 5
  cache _ := some (sampleRelation.description ⟨⟨[110], by decide⟩, by decide⟩ none)
  useTryBlock := false
  openTable _ _ := some sampleRelation.desc.reverse
  searchType := sampleTypes
  formatType _ _ := ""

def sampleInsert : Message :=
  .insert sampleRelation (fun attnum => [some (.byVal [1, 2, 3, 4]), some .onDisk, none, none,
    some (.pointer [8, 42]), some (.pointer [8, 43])].getD (attnum - 1) none) none

def SameBytes (d d' : Datum) : Prop := d.bytes = d'.bytes

theorem sampleType_ready {typtype : TypType} (hnul : 0 ∉ d.bytes) (hlen : d.bytes.length < 2 ^ 30)
    (typmod : UInt32) :
    (sampleType typtype).Inverse SameBytes (sampleType typtype) typmod d ∧
      (sampleType typtype).Sized d := by
  have hstring : (cString d.bytes).bytes = d.bytes := by
    refine takeWhile_eq_self_iff.2 fun b hb => bne_iff_ne.2 fun h0 => ?_
    exact hnul (h0 ▸ hb)
  refine ⟨⟨⟨_, rfl, hstring.symm⟩, fun _ => ⟨_, _, _, rfl, rfl, rfl, rfl⟩, ?_⟩, ⟨?_, ?_, ?_⟩⟩
  · cases d <;> rfl
  · omega
  · show (cString d.bytes).bytes.length + 1 < _
    rw [hstring]
    omega
  · rintro _ ⟨⟩
    omega

theorem sampleInsert_ready : sampleInsert.Ready SameBytes samplePublisher sampleSubscriber := by
  refine ⟨_, _, rfl, rfl, rfl, fun att hatt => ?_⟩
  have hlive : sampleRelation.live none = [sampleColumn 1 97 (by decide) 23 4,
    sampleColumn 2 98 (by decide) 25 (-1), sampleColumn 4 99 (by decide) 25 (-1),
    sampleColumn 5 100 (by decide) 20000 (-1), sampleColumn 6 101 (by decide) 20001 (-1)] := by decide
  rw [hlive] at hatt
  simp only [mem_cons, not_mem_nil, or_false] at hatt
  rcases hatt with rfl | rfl | rfl | rfl | rfl
  -- the second and the third have no value
  all_goals
    refine ⟨_, _, rfl, ⟨fun _ => rfl, rfl, rfl⟩, ?_⟩
    rintro d ⟨⟩
  · exact ⟨.byVal rfl rfl (by decide), _, _, rfl, rfl, sampleType_ready (by decide) (by decide) 0⟩
  all_goals exact ⟨.varlena rfl rfl, _, _, rfl, rfl, sampleType_ready (by decide) (by decide) 0⟩

end Sample

end Spock.Protocol
