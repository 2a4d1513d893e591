import Spock.Lib.Checked
import Spock.Worker.State

/-!
# Spock — reading the entries of a transaction

What `spock_proto_native.c` and `spock_relcache.c` make of a row message, and what the queue
handlers make of a queued message, before anything is applied. Everything here may raise, and none
of it is inside a subtransaction.

A datum is kept as its text. The column's input or receive function is PostgreSQL's and depends on
the local type, so a sent value comes with its result for each local table: the datum, or the error
it raises.

* **`checks_spockRelationOpen`**, **`checks_readTuple`** — when reading succeeds, in terms of the
  message and the catalogs;
* **`checks_spockReadInsert`**, **`checks_spockReadUpdate`**, **`checks_spockReadDelete`** — the
  three row messages.
-/

namespace Spock.Pass

open Checked

/-- `elog(ERROR, "SPOCK %s: ...")`. -/
def spockElog (sub : Subscription) (message : String) : ErrorData :=
  elogError ("SPOCK " ++ sub.name ++ ": " ++ message)

/-! ## Relations -/

/-- An entry of `SpockRelationHash`: what RELATION messages said of a remote relation. -/
structure RemoteRelation where
  remoteid : Nat
  nspname : String
  relname : String
  attnames : List String
  deriving DecidableEq

/-- A column of a local table, with its type and its `delta_apply_function` option. -/
structure LocalColumn where
  attname : String
  atttypid : Nat
  deltaApplyFunction : Option String
  deriving DecidableEq

structure LocalTable where
  reloid : Nat
  nspname : String
  relname : String
  columns : List LocalColumn
  deriving DecidableEq

/-- The relations a worker can resolve: the remote ones it has metadata of, the local tables, and
the functions `spock_lookup_delta_function` finds. -/
structure Catalog where
  remote : List RemoteRelation
  tables : List LocalTable
  deltaFunctions : List String
  deriving DecidableEq

/-- `SpockRelation`: a remote relation and the local table it is applied to. -/
structure OpenedRelation where
  remote : RemoteRelation
  table : LocalTable
  deriving DecidableEq

namespace Catalog

def remoteRelation (cat : Catalog) (remoteid : Nat) : Option RemoteRelation :=
  cat.remote.find? (·.remoteid == remoteid)

def localTable (cat : Catalog) (r : RemoteRelation) : Option LocalTable :=
  cat.tables.find? fun t => t.nspname == r.nspname && t.relname == r.relname

end Catalog

/-- `tupdesc_get_att_by_name`. -/
def tupdescGetAttByName (t : LocalTable) (attname : String) : Except ErrorData LocalColumn :=
  match t.columns.find? (·.attname == attname) with
  | some c => pure c
  | none => throw (elogError s!"unknown column name {attname}")

def mapAttribute (cat : Catalog) (r : RemoteRelation) (t : LocalTable) (attname : String) :
    Except ErrorData PUnit := do
  let c ← tupdescGetAttByName t attname
  match c.deltaApplyFunction with
  | none => pure ⟨⟩
  | some fname =>
    if fname ∈ cat.deltaFunctions then pure ⟨⟩
    else throw (elogError ("SPOCK: column " ++ r.nspname ++ "." ++ r.relname ++ "." ++ attname ++
      " is configured for delta_apply_function " ++ fname ++ " - function not found"))

/-- `spock_relation_open`. An entry that is mapped already is not mapped again, but any change of
the local table invalidates the mapping. -/
def spockRelationOpen (cat : Catalog) (remoteid : Nat) : Except ErrorData (Option OpenedRelation) :=
  match cat.remoteRelation remoteid with
  | none => throw (elogError s!"cache lookup failed for remote relation {remoteid}")
  | some r =>
    match cat.localTable r with
    | none => pure none
    | some t => do
      r.attnames.forM (mapAttribute cat r t)
      pure (some ⟨r, t⟩)

/-! ## Tuples -/

/-- A column of a tuple message: `'n'`, `'u'`, one of the formats with what the input function of
the local column makes of it, or a byte that is none of these. -/
inductive ColumnMessage where
  | null
  | unchanged
  | sent (input : LocalTable → Except ErrorData String)
  | unknown (kind : Char)

structure TupleMessage where
  action : Char
  columns : List ColumnMessage

/-- `SpockTupleData`: a column is absent when it is unchanged. -/
abbrev Tuple := List (Option (Option String))

def readColumn (t : LocalTable) : ColumnMessage → Except ErrorData (Option (Option String))
  | .null => pure (some none)
  | .unchanged => pure none
  | .sent input => (fun v => some (some v)) <$> input t
  | .unknown kind => throw (elogError s!"unknown data representation type '{kind}'")

/-- `spock_read_tuple`. -/
def readTuple (rel : OpenedRelation) (m : TupleMessage) : Except ErrorData Tuple :=
  let natts := rel.remote.attnames.length
  if m.action ≠ 'T' then throw (elogError s!"expected TUPLE, got {m.action}")
  else if natts ≠ m.columns.length then
    throw (elogError (s!"tuple natts mismatch for relation ({rel.remote.relname}) between remote " ++
      s!"relation metadata cache (natts={natts}) and remote tuple data (natts={m.columns.length})"))
  else m.columns.mapM (readColumn rel.table)

def relationMissing (useTry : Bool) (relid : Nat) {α : Type} : Except ErrorData (Option α) :=
  if useTry then pure none else throw (elogError s!"Spock can't find relation with oid {relid}")

structure InsertMessage where
  relid : Nat
  action : Char
  newtup : TupleMessage

/-- `spock_read_insert`. -/
def spockReadInsert (cat : Catalog) (useTry : Bool) (m : InsertMessage) :
    Except ErrorData (Option (OpenedRelation × Tuple)) := do
  if m.action ≠ 'N' then throw (elogError s!"expected new tuple but got {m.action.toNat}")
  else
    match ← spockRelationOpen cat m.relid with
    | none => relationMissing useTry m.relid
    | some rel =>
      let newtup ← readTuple rel m.newtup
      pure (some (rel, newtup))

/-- An UPDATE: with an old tuple (`'K'` or `'O'`) the action of the new one follows it. -/
structure UpdateMessage where
  relid : Nat
  action : Char
  oldtup : TupleMessage
  newAction : Char
  newtup : TupleMessage

def UpdateMessage.hasOld (m : UpdateMessage) : Bool := m.action == 'K' || m.action == 'O'

/-- `spock_read_update`. -/
def spockReadUpdate (cat : Catalog) (useTry : Bool) (m : UpdateMessage) :
    Except ErrorData (Option (OpenedRelation × Option Tuple × Tuple)) := do
  if !m.hasOld && m.action != 'N' then
    throw (elogError s!"expected action 'N', 'O' or 'K', got {m.action}")
  else
    match ← spockRelationOpen cat m.relid with
    | none => relationMissing useTry m.relid
    | some rel =>
      if m.hasOld then
        let oldtup ← readTuple rel m.oldtup
        if m.newAction ≠ 'N' then throw (elogError s!"expected action 'N', got {m.newAction}")
        else
          let newtup ← readTuple rel m.newtup
          pure (some (rel, some oldtup, newtup))
      else
        let newtup ← readTuple rel m.newtup
        pure (some (rel, none, newtup))

structure DeleteMessage where
  relid : Nat
  action : Char
  oldtup : TupleMessage

/-- `spock_read_delete`. -/
def spockReadDelete (cat : Catalog) (useTry : Bool) (m : DeleteMessage) :
    Except ErrorData (Option (OpenedRelation × Tuple)) := do
  if m.action ≠ 'K' ∧ m.action ≠ 'O' then
    throw (elogError s!"expected action 'O' or 'K' {m.action}")
  else
    match ← spockRelationOpen cat m.relid with
    | none => relationMissing useTry m.relid
    | some rel =>
      let oldtup ← readTuple rel m.oldtup
      pure (some (rel, oldtup))

/-! ## Queued messages -/

inductive Jsonb where
  | null
  | bool (b : Bool)
  | numeric (text : String)
  | string (s : String)
  | array (elems : List Jsonb)
  | object (pairs : List (String × Jsonb))

/-- The `jbv` type number of a scalar; the iterator never returns a container as a value. -/
def Jsonb.jbvType : Jsonb → Nat
  | .null => 0
  | .string _ => 1
  | .numeric _ => 2
  | .bool _ => 3
  | .array _ => 16
  | .object _ => 17

/-- The loop over the pairs of an object. A key is taken for the first expected one that it is a
prefix of: `strncmp` compares as many bytes as the key has. -/
def parseFields (sub : Subscription) (keys : List String) :
    List (String × Jsonb) → List (Option String) → Except ErrorData (List (Option String))
  | [], fields => pure fields
  | (key, value) :: pairs, fields =>
    match keys.findIdx? (fun k => key.toList.isPrefixOf k.toList) with
    | none => throw (spockElog sub s!"unexpected key: {key}")
    | some i =>
      match value with
      | .string s => parseFields sub keys pairs (fields.set i (some s))
      | .array _ => throw (spockElog sub "unexpected content: 4 at level 1")
      | .object _ => throw (spockElog sub "unexpected content: 6 at level 1")
      | v => throw (spockElog sub s!"unexpected type for key '{key}': {v.jbvType}")

def parseObject (sub : Subscription) (keys : List String) :
    Jsonb → Except ErrorData (List (Option String))
  | .object pairs => parseFields sub keys pairs (keys.map fun _ => none)
  | _ => throw (spockElog sub "malformed message in queued message tuple: root is not object")

def requireField (sub : Subscription) (message : String) : Option String → Except ErrorData String
  | some s => pure s
  | none => throw (spockElog sub message)

/-- `parse_relation_message`: the schema and the table. -/
def parseRelationMessage (sub : Subscription) (message : Jsonb) :
    Except ErrorData (String × String) := do
  let fields ← parseObject sub ["schema_name", "table_name"] message
  let nspname ← requireField sub "missing schema_name in relation message" (fields.getD 0 none)
  let relname ← requireField sub "missing table_name in relation message" (fields.getD 1 none)
  pure (nspname, relname)

/-- The message of `handle_sequence`: the schema, the sequence and its last value. -/
def parseSequenceMessage (sub : Subscription) (message : Jsonb) :
    Except ErrorData (String × String × String) := do
  let fields ← parseObject sub ["schema_name", "sequence_name", "last_value"] message
  let nspname ← requireField sub "missing schema_name in sequence message" (fields.getD 0 none)
  let relname ← requireField sub "missing table_name in sequence message" (fields.getD 1 none)
  let lastValue ← requireField sub "missing last_value in sequence message" (fields.getD 2 none)
  pure (nspname, relname, lastValue)

def extractSql (sub : Subscription) : Jsonb → Except ErrorData String
  | .string sql => pure sql
  | .array _ | .object _ =>
    throw (spockElog sub "malformed message in queued message tuple: root is not scalar")
  | v =>
    throw (spockElog sub ("malformed message in queued message tuple, " ++
      s!"expected value type 1 got {v.jbvType}"))

/-! ## When a row can be read -/

namespace Catalog

/-- Every remote column has a local one, whose delta function exists. -/
def maps (cat : Catalog) (r : RemoteRelation) (t : LocalTable) : Bool :=
  r.attnames.all fun a =>
    (t.columns.find? (·.attname == a)).any fun c =>
      c.deltaApplyFunction.all fun fname => fname ∈ cat.deltaFunctions

def opened (cat : Catalog) (remoteid : Nat) : Option OpenedRelation := do
  let r ← cat.remoteRelation remoteid
  let t ← cat.localTable r
  pure ⟨r, t⟩

/-- The metadata of the relation is known, and if there is a local table, it has all columns. -/
def opens (cat : Catalog) (remoteid : Nat) : Bool :=
  (cat.remoteRelation remoteid).isSome &&
    (cat.opened remoteid).all fun rel => cat.maps rel.remote rel.table

end Catalog

def ColumnMessage.isReadable (t : LocalTable) : ColumnMessage → Bool
  | .null | .unchanged => true
  | .sent input => (input t).isOk
  | .unknown _ => false

def ColumnMessage.value (t : LocalTable) : ColumnMessage → Option (Option String)
  | .null => some none
  | .sent input => (input t).toOption.map some
  | _ => none

def TupleMessage.isReadable (m : TupleMessage) (rel : OpenedRelation) : Bool :=
  m.action == 'T' && rel.remote.attnames.length == m.columns.length &&
    m.columns.all (·.isReadable rel.table)

def TupleMessage.values (m : TupleMessage) (t : LocalTable) : Tuple := m.columns.map (·.value t)

theorem checks_readColumn (t : LocalTable) (m : ColumnMessage) :
    Checks (readColumn t m) (m.isReadable t = true) (· = m.value t) := by
  cases m with
  | null | unchanged => exact ⟨rfl, rfl⟩
  | sent input =>
    simp only [readColumn, ColumnMessage.isReadable, ColumnMessage.value]
    cases input t with
    | ok => exact ⟨rfl, rfl⟩
    | error => exact Bool.false_ne_true
  | unknown => exact Bool.false_ne_true

theorem checks_readTuple (rel : OpenedRelation) (m : TupleMessage) :
    Checks (readTuple rel m) (m.isReadable rel = true) (· = m.values rel.table) := by
  have hcolumns := checks_mapM (l := m.columns) fun c _ => checks_readColumn rel.table c
  refine (checks_ite fun _ => checks_ite fun _ => hcolumns).iff ?_
  simp [TupleMessage.isReadable, and_assoc]

section

variable (cat : Catalog)

include cat

theorem checks_mapAttribute (r : RemoteRelation) (t : LocalTable) (a : String) :
    Checks (mapAttribute cat r t a) (((t.columns.find? (·.attname == a)).any fun c =>
      c.deltaApplyFunction.all fun fname => fname ∈ cat.deltaFunctions) = true) fun _ => True := by
  unfold mapAttribute tupdescGetAttByName
  cases t.columns.find? (·.attname == a) with
  | none => exact Bool.false_ne_true
  | some c =>
    show Checks (match c.deltaApplyFunction with | none => _ | some fname => _)
      (c.deltaApplyFunction.all _ = true) _
    cases c.deltaApplyFunction with
    | none => exact ⟨rfl, trivial⟩
    | some fname =>
      by_cases hf : fname ∈ cat.deltaFunctions
      · simp [hf, Checks, pure, Except.pure]
      · simp [hf, Checks, throw, throwThe, MonadExceptOf.throw]

theorem checks_spockRelationOpen (remoteid : Nat) :
    Checks (spockRelationOpen cat remoteid) (cat.opens remoteid = true)
      (· = cat.opened remoteid) := by
  unfold spockRelationOpen Catalog.opens Catalog.opened
  cases cat.remoteRelation remoteid with
  | none => exact Bool.false_ne_true
  | some r =>
    show Checks (match cat.localTable r with | none => _ | some t => _) _ _
    cases hlocal : cat.localTable r with
    | none => simp [hlocal, Checks, pure, Except.pure]
    | some t =>
      refine (checks_bind (checks_forM fun a _ => checks_mapAttribute cat r t a) fun _ _ _ =>
        checks_pure (some (⟨r, t⟩ : OpenedRelation))).mono ?_ ?_
      · simp [hlocal, Catalog.maps]
      · rintro _ rfl
        simp [hlocal]

theorem checks_openThen {α : Type} (relid : Nat)
    {body : OpenedRelation → Except ErrorData (Option α)} {c : OpenedRelation → Bool}
    {g : OpenedRelation → α} (hbody : ∀ rel, Checks (body rel) (c rel = true) (· = some (g rel))) :
    Checks (do
        match ← spockRelationOpen cat relid with
        | none => relationMissing true relid
        | some rel => body rel)
      ((cat.opens relid && (cat.opened relid).all c) = true) (· = (cat.opened relid).map g) := by
  rw [Bool.and_eq_true]
  refine checks_bind (checks_spockRelationOpen cat relid) fun rel _ hrel => ?_
  rw [← hrel]
  cases rel with
  | none => exact ⟨rfl, rfl⟩
  | some rel => exact hbody rel

def InsertMessage.isReadable (m : InsertMessage) (cat : Catalog) : Bool :=
  m.action == 'N' && (cat.opens m.relid &&
    (cat.opened m.relid).all fun rel => m.newtup.isReadable rel)

theorem checks_spockReadInsert (m : InsertMessage) :
    Checks (spockReadInsert cat true m) (m.isReadable cat = true)
      (· = (cat.opened m.relid).map fun rel => (rel, m.newtup.values rel.table)) := by
  refine (checks_ite fun _ => checks_openThen cat m.relid
    (c := fun rel => m.newtup.isReadable rel) (g := fun rel => (rel, m.newtup.values rel.table))
    fun rel => ?_).iff (by simp [InsertMessage.isReadable])
  exact checks_bind_pure (fun tup => some (rel, tup)) (checks_readTuple rel m.newtup)

def UpdateMessage.isReadable (m : UpdateMessage) (cat : Catalog) : Bool :=
  (m.hasOld || m.action == 'N') && (cat.opens m.relid && (cat.opened m.relid).all fun rel =>
    (!m.hasOld || (m.oldtup.isReadable rel && m.newAction == 'N')) &&
      m.newtup.isReadable rel)

def UpdateMessage.oldValues (m : UpdateMessage) (t : LocalTable) : Option Tuple :=
  if m.hasOld then some (m.oldtup.values t) else none

theorem checks_spockReadUpdate (m : UpdateMessage) :
    Checks (spockReadUpdate cat true m) (m.isReadable cat = true)
      (· = (cat.opened m.relid).map fun rel =>
        (rel, m.oldValues rel.table, m.newtup.values rel.table)) := by
  refine (checks_ite fun _ => checks_openThen cat m.relid
    (c := fun rel => (!m.hasOld || (m.oldtup.isReadable rel && m.newAction == 'N')) &&
      m.newtup.isReadable rel)
    (g := fun rel => (rel, m.oldValues rel.table, m.newtup.values rel.table)) fun rel => ?_).iff ?_
  · have hnew := checks_readTuple rel m.newtup
    unfold UpdateMessage.oldValues
    cases m.hasOld with
    | true =>
      refine (checks_bind_eq (checks_readTuple rel m.oldtup) (checks_ite fun _ =>
        checks_bind_pure (fun tup => some (rel, some (m.oldtup.values rel.table), tup)) hnew)).iff ?_
      simp [and_assoc]
    | false => exact (checks_bind_pure (fun tup => some (rel, none, tup)) hnew).iff (by simp)
  · cases hold : m.hasOld <;> simp [UpdateMessage.isReadable, hold]

def DeleteMessage.isReadable (m : DeleteMessage) (cat : Catalog) : Bool :=
  (m.action == 'K' || m.action == 'O') && (cat.opens m.relid &&
    (cat.opened m.relid).all fun rel => m.oldtup.isReadable rel)

theorem checks_spockReadDelete (m : DeleteMessage) :
    Checks (spockReadDelete cat true m) (m.isReadable cat = true)
      (· = (cat.opened m.relid).map fun rel => (rel, m.oldtup.values rel.table)) := by
  refine (checks_ite fun _ => checks_openThen cat m.relid
    (c := fun rel => m.oldtup.isReadable rel) (g := fun rel => (rel, m.oldtup.values rel.table))
    fun rel => ?_).iff ?_
  · exact checks_bind_pure (fun tup => some (rel, tup)) (checks_readTuple rel m.oldtup)
  · by_cases hk : m.action = 'K' <;> simp [DeleteMessage.isReadable, hk]

end

end Spock.Pass
