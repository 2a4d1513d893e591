import Spock.Protocol.RoundTrip
import Spock.Replay.Decode

/-!
# Spock — the handshake of a connection

The apply worker names the protocol versions it can read, its encoding and how its server is built
in the options of `START_REPLICATION`. The output plugin reads them, settles on a version and on the
formats of column values, and says so in the startup message, the first of the stream. The two
servers may be of different releases.

* **`processParameters_unrecognised`** — options of later releases change nothing;
* **`handshake_accepted_iff`** — which servers connect;
* **`handshake_agreed`** — what they then have agreed on.
-/

namespace Spock.Startup

open Protocol Replay List

/-! ## Texts -/

def text (cs : List Char) (h : 0 ∉ cs.map tag := by decide) : CString := ⟨cs.map tag, h⟩

def isDigit (b : UInt8) : Bool := tag '0' ≤ b && b ≤ tag '9'

theorem isDigit_tag {c : Char} (h : c.isDigit) : isDigit (tag c) ∧ (tag c).toNat = c.toNat := by
  have hc : 48 ≤ c.toNat ∧ c.toNat ≤ 57 := by
    simpa [Char.isDigit, UInt32.le_iff_toNat_le] using h
  have htag : (tag c).toNat = c.toNat := by
    show c.toNat % 256 = c.toNat
    omega
  refine ⟨?_, htag⟩
  simp only [isDigit, UInt8.le_iff_toNat_le, htag, Bool.and_eq_true, decide_eq_true_eq]
  exact hc

theorem isDigit_of_mem_digits {n : Nat} {b : UInt8} (hb : b ∈ (Nat.toDigits 10 n).map tag) :
    isDigit b := by
  obtain ⟨c, hc, rfl⟩ := mem_map.mp hb
  exact (isDigit_tag (Nat.isDigit_of_mem_toDigits (by decide) (by decide) hc)).1

/-- `%d` and `%u`. -/
def decimal (n : UInt32) : CString where
  bytes := (Nat.toDigits 10 n.toNat).map tag
  noNul h := nomatch isDigit_of_mem_digits h

/-- `strtoi64(value, &endptr, 10)`, with `none` if nothing was read or characters are left over. A
number that does not fit is out of every range that is asked for. -/
def strtoi64 (value : CString) : Option Int :=
  let body := value.bytes.dropWhile fun b => b == 32 || (9 ≤ b && b ≤ 13)
  let negative := body.head? == some (tag '-')
  let digits := if negative || body.head? == some (tag '+') then body.tail else body
  let n : Nat := digits.foldl (fun n b => 10 * n + (b.toNat - 48)) 0
  if !digits.isEmpty && digits.all isDigit then some (if negative then -n else n) else none

/-- `parse_bool`. -/
def parseBool (value : CString) : Option Bool :=
  let v := value.bytes.map fun b => (Char.ofUInt8 b).toLower
  if v = [] then none
  else if v <+: "true".toList ∨ v <+: "yes".toList ∨ v = "on".toList ∨ v = ['1'] then some true
  else if v <+: "false".toList ∨ v <+: "no".toList ∨ (v <+: "off".toList ∧ v ≠ ['o']) ∨
      v = ['0'] then some false
  else none

/-- `pg_enc2name_tbl`, and `pg_char_to_encoding`, which is -1 for an unknown name. -/
structure Encodings where
  names : List CString
  charToEncoding : CString → Int
  charToEncoding_name : ∀ e : Fin names.length, charToEncoding (names.get e) = e
  charToEncoding_empty : charToEncoding (text []) = -1

/-- `pg_encoding_to_char`. -/
def Encodings.toChar (E : Encodings) (e : Int) : CString := E.names.getD e.toNat (text [])

/-! ## Options -/

inductive ParamKey where
  | maxProtocolVersion | minProtocolVersion | protocolFormat | expectedEncoding | binaryBigendian
  | binarySizeofDatum | binarySizeofInt | binarySizeofLong | binaryFloat4byval | binaryFloat8byval
  | binaryIntegerDatetimes | binaryWantInternalBasetypes | binaryWantBinaryBasetypes
  | binaryBasetypesMajorVersion | spockForwardOrigins | spockReplicationSetNames
  | spockReplicateOnlyTable | hooksSetupFunction | pgVersion | noTxinfo | startupFormat
  | spockVersion | spockVersionNum
  deriving DecidableEq

/-- `param_lookup`. -/
def paramLookup : List (String × ParamKey) :=
  [("max_proto_version", .maxProtocolVersion), ("min_proto_version", .minProtocolVersion),
    ("proto_format", .protocolFormat), ("expected_encoding", .expectedEncoding),
    ("binary.bigendian", .binaryBigendian), ("binary.sizeof_datum", .binarySizeofDatum),
    ("binary.sizeof_int", .binarySizeofInt), ("binary.sizeof_long", .binarySizeofLong),
    ("binary.float4_byval", .binaryFloat4byval), ("binary.float8_byval", .binaryFloat8byval),
    ("binary.integer_datetimes", .binaryIntegerDatetimes),
    ("binary.want_internal_basetypes", .binaryWantInternalBasetypes),
    ("binary.want_binary_basetypes", .binaryWantBinaryBasetypes),
    ("binary.basetypes_major_version", .binaryBasetypesMajorVersion),
    ("spock.forward_origins", .spockForwardOrigins),
    ("spock.replication_set_names", .spockReplicationSetNames),
    ("spock.replicate_only_table", .spockReplicateOnlyTable),
    ("hooks.setup_function", .hooksSetupFunction), ("pg_version", .pgVersion),
    ("no_txinfo", .noTxinfo), ("startup_params_format", .startupFormat),
    ("spock_version", .spockVersion), ("spock_version_num", .spockVersionNum)]

/-- `get_param_key`, which compares with `strcmp`. -/
def getParamKey (name : String) : Option ParamKey :=
  (paramLookup.find? fun param => param.1 = name).map Prod.snd

def ParamKey.paramname (key : ParamKey) : String :=
  ((paramLookup.find? fun param => param.2 = key).map Prod.fst).getD ""

/-- What `pg_strcasecmp` compares: letters of ASCII are folded. -/
def caseless (name : String) : List UInt8 :=
  name.toByteArray.data.toList.map fun b => if tag 'A' ≤ b ∧ b ≤ tag 'Z' then b + 32 else b

structure DefElem where
  defname : String
  arg : Option CString

def invalidValue {α : Type} (message : String) : Except ErrorData α :=
  .error ⟨.invalidParameterValue, message⟩

def notSupported {α : Type} (message : String) : Except ErrorData α := .error ⟨.other 1088, message⟩

namespace DefElem

/-- `get_param_value` for a string. -/
def string (elem : DefElem) : Except ErrorData CString :=
  match elem.arg with
  | some v => .ok v
  | none => invalidValue s!"parameter \"{elem.defname}\" cannot be NULL"

/-- `parse_param_uint32`. -/
def uint32 (elem : DefElem) : Except ErrorData UInt32 :=
  elem.string.bind fun str =>
    match strtoi64 str with
    | some res =>
      if 2 ^ 32 ≤ res ∨ res < 0 then invalidValue
        s!"value \"{str.toString}\" out of range for parameter \"{elem.defname}\""
      else .ok (UInt32.ofNat res.toNat)
    | none => invalidValue <| s!"could not parse integer value \"{str.toString}\" for parameter " ++
        s!"\"{elem.defname}\""

/-- `parse_param_bool`. -/
def bool (elem : DefElem) : Except ErrorData Bool :=
  elem.string.bind fun str =>
    match parseBool str with
    | some res => .ok res
    | none => invalidValue <| s!"could not parse boolean value \"{str.toString}\" for parameter " ++
        s!"\"{elem.defname}\""

end DefElem

/-- `get_param` for a number that is required. -/
def getParam (options : List DefElem) (key : ParamKey) : Except ErrorData UInt32 :=
  match options.find? fun elem => caseless key.paramname = caseless elem.defname with
  | some elem => elem.uint32
  | none => invalidValue s!"missing required parameter \"{key.paramname}\""

structure Lookups where
  splitIdentifierString : Char → CString → Option (List CString)
  /-- `get_replication_sets`, which raises for a missing one. -/
  getReplicationSets : List CString → Except ErrorData (List UInt32)

namespace Lookups

variable (l : Lookups)

def forwardOrigins (val : CString) : Except ErrorData (List CString) :=
  match l.splitIdentifierString ',' val with
  | none => .error (elogError s!"Could not parse forward origin name list {val.toString}")
  | some names =>
    match names.find? (· ≠ text ['a', 'l', 'l']) with
    | some name => .error (elogError <| s!"Only \"all\" is allowed in forward origin name list at " ++
        s!"the moment, found \"{name.toString}\"")
    | none => .ok names

def replicationSets (val : CString) : Except ErrorData (List UInt32) :=
  match l.splitIdentifierString ',' val with
  | none => .error (elogError s!"Could not parse replication set name list {val.toString}")
  | some names => l.getReplicationSets names

/-- Of a list with less than two names the source would read past the end. -/
def replicateOnlyTable (val : CString) : Except ErrorData (Option (CString × CString)) :=
  match l.splitIdentifierString '.' val with
  | some (nspname :: relname :: _) => .ok (some (nspname, relname))
  | _ => .error (elogError s!"Could not parse replicate_only_table {val.toString}")

end Lookups

/-- `SpockOutputData`. A flag and the value it is about are an `Option`. -/
structure OutputData where
  clientMaxProtoVersion : UInt32
  clientMinProtoVersion : UInt32
  clientBinaryBigendian : Option Bool := none
  clientBinarySizeofdatum : UInt32 := 0
  clientBinarySizeofint : UInt32 := 0
  clientBinarySizeoflong : UInt32 := 0
  clientBinaryFloat4byval : Option Bool := none
  clientBinaryFloat8byval : Option Bool := none
  clientBinaryIntdatetimes : Option Bool := none
  clientProtocolFormat : Option CString := none
  clientExpectedEncoding : Option CString := none
  clientWantInternalBasetypes : Bool := false
  clientWantBinaryBasetypes : Bool := false
  clientBinaryBasetypesMajorVersion : UInt32 := 0
  forwardOrigins : List CString := []
  replicationSets : List UInt32 := []
  replicateOnlyTable : Option (CString × CString) := none
  clientNoTxinfo : Bool := false
  spockVersionNum : UInt32 := 0
  negotiatedProtoVersion : UInt32 := 0
  fieldDatumEncoding : Int := 0
  allowInternalBasetypes : Bool := false
  allowBinaryBasetypes : Bool := false

/-- One turn of the loop of `process_parameters_v1`. -/
def processParam (l : Lookups) (data : OutputData) (elem : DefElem) : Except ErrorData OutputData :=
  match getParamKey elem.defname with
  | some .binaryBigendian => elem.bool.map fun v => { data with clientBinaryBigendian := some v }
  | some .binarySizeofDatum => elem.uint32.map fun v => { data with clientBinarySizeofdatum := v }
  | some .binarySizeofInt => elem.uint32.map fun v => { data with clientBinarySizeofint := v }
  | some .binarySizeofLong => elem.uint32.map fun v => { data with clientBinarySizeoflong := v }
  | some .binaryFloat4byval => elem.bool.map fun v => { data with clientBinaryFloat4byval := some v }
  | some .binaryFloat8byval => elem.bool.map fun v => { data with clientBinaryFloat8byval := some v }
  | some .binaryIntegerDatetimes =>
    elem.bool.map fun v => { data with clientBinaryIntdatetimes := some v }
  | some .protocolFormat => elem.string.map fun v => { data with clientProtocolFormat := some v }
  | some .expectedEncoding => elem.string.map fun v => { data with clientExpectedEncoding := some v }
  | some .binaryWantInternalBasetypes =>
    elem.bool.map fun v => { data with clientWantInternalBasetypes := v }
  | some .binaryWantBinaryBasetypes =>
    elem.bool.map fun v => { data with clientWantBinaryBasetypes := v }
  | some .binaryBasetypesMajorVersion =>
    elem.uint32.map fun v => { data with clientBinaryBasetypesMajorVersion := v }
  | some .spockForwardOrigins =>
    (elem.string.bind l.forwardOrigins).map fun v => { data with forwardOrigins := v }
  | some .spockReplicationSetNames =>
    (elem.string.bind l.replicationSets).map fun v => { data with replicationSets := v }
  | some .spockReplicateOnlyTable =>
    (elem.string.bind l.replicateOnlyTable).map fun v => { data with replicateOnlyTable := v }
  | some .noTxinfo => elem.bool.map fun v => { data with clientNoTxinfo := v }
  -- these are logged only
  | some .pgVersion | some .startupFormat => elem.uint32.map fun _ => data
  | some .spockVersion => elem.string.map fun _ => data
  | some .spockVersionNum => elem.uint32.map fun v => { data with spockVersionNum := v }
  | some .maxProtocolVersion | some .minProtocolVersion | some .hooksSetupFunction | none => .ok data

/-- `process_parameters`, with `process_parameters_v1` for the format that is known. -/
def processParameters (l : Lookups) (options : List DefElem) : Except ErrorData OutputData := do
  let paramsFormat ← getParam options .startupFormat
  if paramsFormat = 1 then
    let max ← getParam options .maxProtocolVersion
    let min ← getParam options .minProtocolVersion
    options.foldlM (processParam l) { clientMaxProtoVersion := max, clientMinProtoVersion := min }
  else notSupported s!"startup_params_format {paramsFormat} not supported, only version 1 supported"

/-- Whether the name is one of the table, in any case of letters. -/
def DefElem.recognised (elem : DefElem) : Bool :=
  paramLookup.any fun param => caseless param.1 = caseless elem.defname

theorem ParamKey.mem_paramLookup (key : ParamKey) : (key.paramname, key) ∈ paramLookup := by
  have hlisted : (paramLookup.find? fun param => param.2 = key).isSome := by cases key <;> rfl
  obtain ⟨param, hparam⟩ := Option.isSome_iff_exists.mp hlisted
  have hkey : param.2 = key := by simpa using find?_some hparam
  rw [paramname, hparam]
  exact hkey ▸ mem_of_find?_eq_some hparam

theorem getParamKey_eq_none {elem : DefElem} (h : elem.recognised = false) :
    getParamKey elem.defname = none := by
  rw [getParamKey, Option.map_eq_none_iff, find?_eq_none]
  intro param hparam hname
  refine any_eq_false.mp h param hparam ?_
  rw [of_decide_eq_true hname]
  exact decide_eq_true rfl

theorem getParam_filter (options : List DefElem) (key : ParamKey) :
    getParam (options.filter DefElem.recognised) key = getParam options key := by
  have hfind : ∀ elem : DefElem, (elem.recognised = true ∧
      decide (caseless key.paramname = caseless elem.defname) = true) ↔
        caseless key.paramname = caseless elem.defname := by
    intro elem
    rw [decide_eq_true_eq, and_iff_right_iff_imp]
    exact fun h => any_eq_true.mpr ⟨_, key.mem_paramLookup, decide_eq_true h⟩
  unfold getParam
  simp only [find?_filter, hfind]

/-- **Options of later releases change nothing,** wherever they are in the list. -/
theorem processParameters_unrecognised (l : Lookups) (options : List DefElem) :
    processParameters l (options.filter DefElem.recognised) = processParameters l options := by
  have hfold : ∀ data, (options.filter DefElem.recognised).foldlM (processParam l) data =
      options.foldlM (processParam l) data := by
    induction options with
    | nil => exact fun _ => rfl
    | cons elem options ih =>
      intro data
      cases h : elem.recognised with
      | false =>
        have hparam : processParam l data elem = .ok data := by
          rw [processParam, getParamKey_eq_none h]
        rw [filter_cons_of_neg (Bool.eq_false_iff.mp h), foldlM_cons, hparam]
        exact ih data
      | true =>
        rw [filter_cons_of_pos h, foldlM_cons, foldlM_cons]
        exact congrArg _ (funext ih)
  unfold processParameters
  simp only [getParam_filter, hfold]

/-! ## The two servers -/

/-- What is compiled into a server. The source has the versions 4 to 5 and 60000. -/
structure Build where
  minProtoVersion : UInt32
  maxProtoVersion : UInt32
  spockVersion : CString
  spockVersionNum : UInt32
  hooksSetup : CString
  pgVersionNum : UInt32
  sizeofDatum : UInt32
  sizeofInt : UInt32
  sizeofLong : UInt32
  bigendian : Bool
  float4Byval : Bool
  float8Byval : Bool
  integerDatetimes : Bool
  proto_le : minProtoVersion ≤ maxProtoVersion
  sizeof_ne_zero : sizeofDatum ≠ 0 ∧ sizeofInt ≠ 0 ∧ sizeofLong ≠ 0

structure Server (E : Encodings) extends Build where
  databaseEncoding : Fin E.names.length

def Server.databaseEncodingName {E : Encodings} (s : Server E) : CString :=
  E.names.get s.databaseEncoding

/-- The parameters of `spock_start_replication` that the subscription decides. -/
structure Request where
  forwardOrigins : Option CString
  replicationSets : Option CString
  replicateOnlyTable : Option CString
  forceTextTransfer : Bool

variable {E : Encodings}

def opt (key : ParamKey) (v : CString) : DefElem := ⟨key.paramname, some v⟩

/-- `spock_start_replication`, after the command has been taken apart again. -/
def startReplication (c : Server E) (req : Request) : List DefElem :=
  let flag (b : Bool) := if b then text ['1'] else text ['0']
  [opt .expectedEncoding c.databaseEncodingName,
    opt .minProtocolVersion (decimal c.minProtoVersion),
    opt .maxProtocolVersion (decimal c.maxProtoVersion),
    opt .startupFormat (decimal 1),
    opt .binaryWantInternalBasetypes (flag !req.forceTextTransfer),
    opt .binaryWantBinaryBasetypes (flag !req.forceTextTransfer),
    opt .binaryBasetypesMajorVersion (decimal (c.pgVersionNum / 100)),
    opt .binarySizeofDatum (decimal c.sizeofDatum),
    opt .binarySizeofInt (decimal c.sizeofInt),
    opt .binarySizeofLong (decimal c.sizeofLong),
    opt .binaryBigendian (flag c.bigendian),
    opt .binaryFloat4byval (flag c.float4Byval),
    opt .binaryFloat8byval (flag c.float8Byval),
    opt .binaryIntegerDatetimes (flag c.integerDatetimes),
    opt .hooksSetupFunction c.hooksSetup] ++
  (req.forwardOrigins.map (opt .spockForwardOrigins)).toList ++
  (req.replicateOnlyTable.map (opt .spockReplicateOnlyTable)).toList ++
  (req.replicationSets.map (opt .spockReplicationSetNames)).toList ++
  [opt .pgVersion (decimal c.pgVersionNum), opt .spockVersion c.spockVersion,
    opt .spockVersionNum (decimal c.spockVersionNum)]

/-- `check_binary_compatibility`. -/
def checkBinaryCompatibility (s : Server E) (data : OutputData) : Bool :=
  let same (client : Option Bool) (server : Bool) := client.all (· == server)
  let sameSize (client server : UInt32) := client == 0 || client == server
  data.clientBinaryBasetypesMajorVersion == s.pgVersionNum / 100 &&
    same data.clientBinaryBigendian s.bigendian &&
    sameSize data.clientBinarySizeofdatum s.sizeofDatum &&
    sameSize data.clientBinarySizeofint s.sizeofInt &&
    sameSize data.clientBinarySizeoflong s.sizeofLong &&
    same data.clientBinaryFloat4byval s.float4Byval &&
    same data.clientBinaryFloat8byval s.float8Byval &&
    same data.clientBinaryIntdatetimes s.integerDatetimes

/-- `Min`. -/
def lesser (a b : UInt32) : UInt32 := if a < b then a else b

/-- The part of `pg_decode_startup` that is about the protocol version. -/
def negotiate (s : Server E) (data : OutputData) : Except ErrorData OutputData :=
  let version := lesser s.maxProtoVersion data.clientMaxProtoVersion
  if s.maxProtoVersion < data.clientMinProtoVersion then
    notSupported <| s!"client sent min_proto_version={data.clientMinProtoVersion} but we only " ++
      s!"support protocol {s.maxProtoVersion} or lower"
  else if data.clientMaxProtoVersion < s.minProtoVersion then
    notSupported <| s!"client sent max_proto_version={data.clientMaxProtoVersion} but we only " ++
      s!"support protocol {s.minProtoVersion} or higher"
  else if version < s.minProtoVersion then
    notSupported "cannot negotiate acceptable protocol version"
  else if version = 4 ∧ (s.spockVersionNum < 50000 ∨ data.spockVersionNum < 50000) then
    notSupported "protocol version 4 requires both nodes to be at least Spock 5.0.0"
  else .ok { data with negotiatedProtoVersion := version }

/-- The part about the format of the protocol: whether it is a binary one. -/
def protocolFormat (data : OutputData) : Except ErrorData (Bool × OutputData) :=
  let native := .ok (true, { data with clientNoTxinfo := false })
  match data.clientProtocolFormat with
  | none => native
  | some format =>
    if format = text ['j', 's', 'o', 'n'] then .ok (false, data)
    else if format = text ['n', 'a', 't', 'i', 'v', 'e'] then native
    else notSupported <| s!"client requested protocol {format.toString} but only \"json\" or " ++
      "\"native\" are supported"

/-- The part about the encoding; `clientEncoding` is `pg_get_client_encoding()`. -/
def expectEncoding (s : Server E) (clientEncoding : Int) (binary : Bool) (data : OutputData) :
    Except ErrorData OutputData :=
  match data.clientExpectedEncoding.filter (· ≠ text []) with
  | none => .ok data
  | some name =>
    let wanted := E.charToEncoding name
    if wanted = -1 then
      invalidValue s!"unrecognised encoding name {name.toString} passed to expected_encoding"
    else if !binary && wanted != clientEncoding then
      invalidValue "expected_encoding must be unset or match client_encoding in text protocols"
    else if binary && wanted != s.databaseEncoding then
      notSupported "encoding conversion for binary datum not supported yet"
    else .ok { data with fieldDatumEncoding := wanted }

/-- `pg_decode_startup` at the start of replication. -/
def pgDecodeStartup (l : Lookups) (s : Server E) (clientEncoding : Int) (options : List DefElem) :
    Except ErrorData OutputData := do
  let data ← processParameters l options
  let data ← negotiate s data
  let (binary, data) ← protocolFormat data
  let data ← expectEncoding s clientEncoding binary data
  pure { data with
    allowInternalBasetypes :=
      binary && data.clientWantInternalBasetypes && checkBinaryCompatibility s data
    allowBinaryBasetypes := binary && data.clientWantBinaryBasetypes &&
      data.clientBinaryBasetypesMajorVersion == s.pgVersionNum / 100 }

def protoVersionKey : CString :=
  text ['p', 'r', 'o', 't', 'o', '_', 'v', 'e', 'r', 's', 'i', 'o', 'n']

def encodingKey : CString := text ['e', 'n', 'c', 'o', 'd', 'i', 'n', 'g']

def forwardKey : CString :=
  text ['f', 'o', 'r', 'w', 'a', 'r', 'd', '_', 'c', 'h', 'a', 'n', 'g', 'e', 's', 'e', 't', '_', 'o',
    'r', 'i', 'g', 'i', 'n', 's']

/-- Parameters of the startup message that the apply worker does nothing with. -/
abbrev Ignored :=
  List { p : CString × CString // p.1 ≠ encodingKey ∧ p.1 ≠ forwardKey ∧ p.1 ≠ protoVersionKey }

/-- `prepare_startup_message`. -/
def prepareStartupMessage (E : Encodings) (data : OutputData) (before between after : Ignored) :
    List (CString × CString) :=
  before.map Subtype.val ++ (protoVersionKey, decimal data.negotiatedProtoVersion) ::
    (between.map Subtype.val ++ (encodingKey, E.toChar data.fieldDatumEncoding) ::
      (forwardKey, text ['t']) :: after.map Subtype.val)

/-! ## Numbers -/

structure IsNumeral (bs : List UInt8) (n : Nat) : Prop where
  ne_nil : bs ≠ []
  digits : bs.all isDigit
  value : bs.foldl (fun n b => 10 * n + (b.toNat - 48)) 0 = n

theorem decimal_isNumeral (n : UInt32) : IsNumeral (decimal n).bytes n.toNat where
  ne_nil := by simp [decimal, Nat.toDigits_ne_nil]
  digits := all_eq_true.mpr fun _ => isDigit_of_mem_digits
  value := by
    rw [decimal, foldl_map]
    refine Eq.trans ?_ (Nat.ofDigitChars_toDigits (b := 10) (n := n.toNat) (by decide) (by decide))
    refine foldl_ext _ _ _ fun m c hc => ?_
    rw [(isDigit_tag (Nat.isDigit_of_mem_toDigits (by decide) (by decide) hc)).2]
    rfl

theorem IsNumeral.head {bs : List UInt8} {n : Nat} (h : IsNumeral bs n) :
    bs.dropWhile (fun b => b == 32 || (9 ≤ b && b ≤ 13)) = bs ∧
      (bs.head? == some (tag '-')) = false ∧ (bs.head? == some (tag '+')) = false := by
  cases bs with
  | nil => exact absurd rfl h.ne_nil
  | cons b bs =>
    have hb : 48 ≤ b ∧ b ≤ 57 := by
      have hall := h.digits
      simp only [all_cons, isDigit, Bool.and_eq_true, decide_eq_true_eq] at hall
      exact hall.1
    have hsign : ∀ c : UInt8, c < 48 → ((b :: bs).head? == some c) = false := by grind
    exact ⟨dropWhile_cons_of_neg (by grind), hsign _ (by decide), hsign _ (by decide)⟩

theorem strtoi64_decimal (n : UInt32) : strtoi64 (decimal n) = some (n.toNat : Int) := by
  have h := decimal_isNumeral n
  obtain ⟨hdrop, hminus, hplus⟩ := h.head
  have hne : (decimal n).bytes.isEmpty = false := by simpa using h.ne_nil
  simp [strtoi64, hdrop, hminus, hplus, h.digits, h.value, hne]

theorem strtoul_decimal (n : UInt32) : strtoul (decimal n).bytes = some n := by
  have h := decimal_isNumeral n
  obtain ⟨hdrop, hminus, hplus⟩ := h.head
  have hne : (decimal n).bytes.isEmpty = false := by simpa using h.ne_nil
  have hlt : n.toNat < 2 ^ 64 := n.toNat_lt.trans (by decide)
  have hdigits : (decimal n).bytes.all (fun b => tag '0' ≤ b && b ≤ tag '9') := h.digits
  simpa [strtoul, hdrop, hminus, hplus, hdigits, h.value, hne] using hlt

/-! ## The options of the apply worker -/

section Options

variable {key : ParamKey} {l : Lookups} {c s : Server E} {req : Request} {data : OutputData}

theorem getParamKey_paramname (key : ParamKey) : getParamKey key.paramname = some key := by
  cases key <;> decide

theorem getParamKey_opt (v : CString) : getParamKey (opt key v).defname = some key :=
  getParamKey_paramname key

theorem caseless_paramname (key key' : ParamKey) :
    caseless key.paramname = caseless key'.paramname ↔ key = key' := by
  have hlower : ∀ key : ParamKey,
      caseless key.paramname = key.paramname.toByteArray.data.toList := by
    intro key
    cases key <;> decide
  refine ⟨fun h => ?_, fun h => h ▸ rfl⟩
  rw [hlower, hlower, Array.toList_inj, ← ByteArray.ext_iff, String.toByteArray_inj] at h
  exact Option.some_inj.mp <|
    (getParamKey_paramname key).symm.trans (h ▸ getParamKey_paramname key')

theorem string_opt (v : CString) : (opt key v).string = .ok v := rfl

theorem uint32_decimal (n : UInt32) : (opt key (decimal n)).uint32 = .ok n := by
  have hlt : ¬ ((2 : Int) ^ 32 ≤ n.toNat ∨ (n.toNat : Int) < 0) := by
    have := n.toNat_lt
    omega
  simp only [DefElem.uint32, string_opt, Except.bind, strtoi64_decimal]
  rw [if_neg hlt]
  simp

theorem bool_flag (b : Bool) :
    (opt key (if b then text ['1'] else text ['0'])).bool = .ok b := by
  cases b <;> rfl

/-- What the output plugin knows of the apply worker's server. -/
def requested (c : Server E) (req : Request) : OutputData where
  clientMaxProtoVersion := c.maxProtoVersion
  clientMinProtoVersion := c.minProtoVersion
  clientBinaryBigendian := some c.bigendian
  clientBinarySizeofdatum := c.sizeofDatum
  clientBinarySizeofint := c.sizeofInt
  clientBinarySizeoflong := c.sizeofLong
  clientBinaryFloat4byval := some c.float4Byval
  clientBinaryFloat8byval := some c.float8Byval
  clientBinaryIntdatetimes := some c.integerDatetimes
  clientExpectedEncoding := some c.databaseEncodingName
  clientWantInternalBasetypes := !req.forceTextTransfer
  clientWantBinaryBasetypes := !req.forceTextTransfer
  clientBinaryBasetypesMajorVersion := c.pgVersionNum / 100
  spockVersionNum := c.spockVersionNum

def given {α : Type} (resolve : CString → Except ErrorData α) (absent : α) :
    Option CString → Except ErrorData α
  | some v => resolve v
  | none => .ok absent

theorem ok_bind {ε α β : Type} (a : α) (f : α → Except ε β) : (Except.ok a >>= f) = f a := rfl

theorem getParam_startReplication :
    getParam (startReplication c req) .startupFormat = .ok 1 ∧
      getParam (startReplication c req) .maxProtocolVersion = .ok c.maxProtoVersion ∧
      getParam (startReplication c req) .minProtocolVersion = .ok c.minProtoVersion := by
  simp [getParam, startReplication, opt, caseless_paramname]
  exact ⟨uint32_decimal 1, uint32_decimal _, uint32_decimal _⟩

theorem foldlM_given {α : Type} (resolve : CString → Except ErrorData α) (absent : α)
    (set : OutputData → α → OutputData)
    (hset : ∀ v, processParam l data (opt key v) = (resolve v).map (set data))
    (habsent : set data absent = data) (o : Option CString) :
    (o.map (opt key)).toList.foldlM (processParam l) data =
      (given resolve absent o).map (set data) := by
  cases o with
  | none => exact congrArg Except.ok habsent.symm
  | some v =>
    show (do let data ← processParam l data (opt key v); Except.ok data) = (resolve v).map _
    rw [hset]
    cases resolve v <;> rfl

theorem processParameters_startReplication :
    processParameters l (startReplication c req) = (do
      let origins ← given l.forwardOrigins [] req.forwardOrigins
      let table ← given l.replicateOnlyTable none req.replicateOnlyTable
      let sets ← given l.replicationSets [] req.replicationSets
      .ok { requested c req with
        forwardOrigins := origins, replicateOnlyTable := table, replicationSets := sets }) := by
  obtain ⟨hformat, hmax, hmin⟩ := @getParam_startReplication E c req
  rw [processParameters, hformat, hmax, hmin]
  simp only [ok_bind, ↓reduceIte]
  unfold startReplication
  simp only [foldlM_append, foldlM_cons, foldlM_nil, processParam, getParamKey_opt,
    uint32_decimal, bool_flag, string_opt, Except.map, ok_bind, pure, Except.pure]
  -- only the three lists may be refused
  rw [foldlM_given l.forwardOrigins [] (fun d v => { d with forwardOrigins := v }) (fun _ => rfl) rfl]
  cases given l.forwardOrigins [] req.forwardOrigins with
  | error => rfl
  | ok origins =>
    simp only [Except.map, ok_bind]
    rw [foldlM_given l.replicateOnlyTable none (fun d v => { d with replicateOnlyTable := v })
      (fun _ => rfl) rfl]
    cases given l.replicateOnlyTable none req.replicateOnlyTable with
    | error => rfl
    | ok table =>
      simp only [Except.map, ok_bind]
      rw [foldlM_given l.replicationSets [] (fun d v => { d with replicationSets := v })
        (fun _ => rfl) rfl]
      cases given l.replicationSets [] req.replicationSets <;> rfl

/-! ## The handshake -/

/-- What the internal format of values depends on. -/
def Build.layout (b : Build) : List UInt32 × List Bool :=
  ([b.pgVersionNum / 100, b.sizeofDatum, b.sizeofInt, b.sizeofLong],
    [b.bigendian, b.float4Byval, b.float8Byval, b.integerDatetimes])

/-- The versions overlap, and version 4 is spoken by releases that speak several. -/
def VersionsMeet (c s : Server E) : Prop :=
  (c.minProtoVersion ≤ s.maxProtoVersion ∧ s.minProtoVersion ≤ c.maxProtoVersion) ∧
    (lesser s.maxProtoVersion c.maxProtoVersion = 4 →
      50000 ≤ s.spockVersionNum ∧ 50000 ≤ c.spockVersionNum)

/-- What the two sides use from then on. -/
def agreed (c s : Server E) (req : Request) : OutputData :=
  { requested c req with
    negotiatedProtoVersion := lesser s.maxProtoVersion c.maxProtoVersion
    fieldDatumEncoding := s.databaseEncoding
    allowInternalBasetypes :=
      !req.forceTextTransfer && checkBinaryCompatibility s (requested c req)
    allowBinaryBasetypes := !req.forceTextTransfer && c.pgVersionNum / 100 == s.pgVersionNum / 100 }

theorem negotiate_eq_ok {d : OutputData} (hmax : d.clientMaxProtoVersion = c.maxProtoVersion)
    (hmin : d.clientMinProtoVersion = c.minProtoVersion)
    (hnum : d.spockVersionNum = c.spockVersionNum) :
    negotiate s d = .ok data ↔ VersionsMeet c s ∧
      data = { d with negotiatedProtoVersion := lesser s.maxProtoVersion c.maxProtoVersion } := by
  have hle := s.proto_le
  rw [negotiate, hmax, hmin, hnum, VersionsMeet]
  grind [lesser, notSupported]

theorem expectEncoding_eq_ok {clientEncoding : Int} {d : OutputData}
    (hd : d.clientExpectedEncoding = some c.databaseEncodingName) :
    expectEncoding s clientEncoding true d = .ok data ↔
      c.databaseEncoding = s.databaseEncoding ∧
        data = { d with fieldDatumEncoding := s.databaseEncoding } := by
  have hname : E.charToEncoding c.databaseEncodingName = c.databaseEncoding :=
    E.charToEncoding_name _
  have hne : c.databaseEncodingName ≠ text [] := by
    intro h
    rw [h, E.charToEncoding_empty] at hname
    omega
  have hiff : ((c.databaseEncoding : Int) = s.databaseEncoding) ↔
      c.databaseEncoding = s.databaseEncoding := by omega
  rw [expectEncoding, hd, Option.filter_some, if_pos (decide_eq_true hne)]
  dsimp only
  rw [hname, if_neg (by omega)]
  by_cases hencoding : c.databaseEncoding = s.databaseEncoding
  · simp [hencoding, eq_comm]
  · simp [hiff, hencoding, notSupported]

theorem checkBinaryCompatibility_requested :
    checkBinaryCompatibility s (requested c req) = decide (c.layout = s.layout) := by
  obtain ⟨hdatum, hint, hlong⟩ := c.sizeof_ne_zero
  rw [Bool.eq_iff_iff]
  simp only [checkBinaryCompatibility, requested, Build.layout, Option.all_some, Bool.and_eq_true,
    Bool.or_eq_true, beq_iff_eq, decide_eq_true_eq, Prod.mk.injEq, cons.injEq, and_true, hdatum, hint,
    hlong, false_or]
  tauto

theorem bind_eq_ok {ε α β : Type} {x : Except ε α} {f : α → Except ε β} {b : β} :
    (x >>= f) = .ok b ↔ ∃ a, x = .ok a ∧ f a = .ok b := by
  cases x <;> simp [bind, Except.bind]

theorem pgDecodeStartup_startReplication {clientEncoding : Int} :
    pgDecodeStartup l s clientEncoding (startReplication c req) = .ok data ↔
      VersionsMeet c s ∧ c.databaseEncoding = s.databaseEncoding ∧
      given l.forwardOrigins [] req.forwardOrigins = .ok data.forwardOrigins ∧
      given l.replicateOnlyTable none req.replicateOnlyTable = .ok data.replicateOnlyTable ∧
      given l.replicationSets [] req.replicationSets = .ok data.replicationSets ∧
      data = { agreed c s req with
        forwardOrigins := data.forwardOrigins
        replicateOnlyTable := data.replicateOnlyTable
        replicationSets := data.replicationSets } := by
  rw [pgDecodeStartup, processParameters_startReplication]
  simp only [bind_eq_ok]
  constructor
  · rintro ⟨_, ⟨origins, horigins, table, htable, sets, hsets, ⟨⟩⟩, d₁, hnegotiate, _, hformat, d₂,
      hencoding, ⟨⟩⟩
    obtain ⟨hversions, rfl⟩ := (negotiate_eq_ok rfl rfl rfl).mp hnegotiate
    cases hformat
    obtain ⟨hsame, rfl⟩ := (expectEncoding_eq_ok rfl).mp hencoding
    exact ⟨hversions, hsame, horigins, htable, hsets, rfl⟩
  · rintro ⟨hversions, hsame, horigins, htable, hsets, hdata⟩
    exact ⟨_, ⟨_, horigins, _, htable, _, hsets, rfl⟩, _,
      (negotiate_eq_ok rfl rfl rfl).mpr ⟨hversions, rfl⟩, _, rfl, _,
      (expectEncoding_eq_ok rfl).mpr ⟨hsame, rfl⟩, congrArg Except.ok hdata.symm⟩

/-- **Which servers connect.** The output plugin accepts the options of an apply worker exactly if
the versions of the two servers meet, their encodings are the same, and the names that the
subscription gives can be looked up. -/
theorem handshake_accepted_iff {clientEncoding : Int} :
    (∃ data, pgDecodeStartup l s clientEncoding (startReplication c req) = .ok data) ↔
      VersionsMeet c s ∧ c.databaseEncoding = s.databaseEncoding ∧
      (∃ origins, given l.forwardOrigins [] req.forwardOrigins = .ok origins) ∧
      (∃ table, given l.replicateOnlyTable none req.replicateOnlyTable = .ok table) ∧
      ∃ sets, given l.replicationSets [] req.replicationSets = .ok sets := by
  constructor
  · rintro ⟨data, h⟩
    obtain ⟨hversions, hsame, horigins, htable, hsets, -⟩ := pgDecodeStartup_startReplication.mp h
    exact ⟨hversions, hsame, ⟨_, horigins⟩, ⟨_, htable⟩, ⟨_, hsets⟩⟩
  · rintro ⟨hversions, hsame, ⟨origins, horigins⟩, ⟨table, htable⟩, ⟨sets, hsets⟩⟩
    exact ⟨{ agreed c s req with
        forwardOrigins := origins, replicateOnlyTable := table, replicationSets := sets },
      pgDecodeStartup_startReplication.mpr ⟨hversions, hsame, horigins, htable, hsets, rfl⟩⟩

def startupEnv (c : Server E) : StartupEnv where
  charToEncoding := E.charToEncoding
  databaseEncoding := c.databaseEncoding
  databaseEncodingName := c.databaseEncodingName.toString
  parseBool := parseBool

theorem foldlM_ignored (env : StartupEnv) (params : Ignored) (rest : List (CString × CString))
    (sub : Subscriber) :
    (params.map Subtype.val ++ rest).foldlM (fun sub p => handleStartupParam env sub p.1 p.2) sub =
      rest.foldlM (fun sub p => handleStartupParam env sub p.1 p.2) sub := by
  have hne : ∀ {k k' : CString}, k ≠ k' → k.bytes ≠ k'.bytes := by
    intro k k' hne heq
    cases k
    cases k'
    exact hne (by simpa using heq)
  induction params with
  | nil => rfl
  | cons p _ ih =>
    obtain ⟨p, hencoding, hforward, hversion⟩ := p
    have hp : handleStartupParam env sub p.1 p.2 = .ok sub :=
      (if_neg (hne hencoding)).trans ((if_neg (hne hforward)).trans (if_neg (hne hversion)))
    rw [map_cons, cons_append, foldlM_cons]
    show (handleStartupParam env sub p.1 p.2).bind _ = _
    rw [hp]
    exact ih

theorem foldlM_prepareStartupMessage
    (hencoding : E.charToEncoding (E.toChar data.fieldDatumEncoding) = c.databaseEncoding)
    (before between after : Ignored) (sub : Subscriber) :
    (prepareStartupMessage E data before between after).foldlM
        (fun sub p => handleStartupParam (startupEnv c) sub p.1 p.2) sub =
      .ok { sub with version := data.negotiatedProtoVersion } := by
  have hproto : ∀ sub, handleStartupParam (startupEnv c) sub protoVersionKey
      (decimal data.negotiatedProtoVersion) =
        .ok { sub with version := data.negotiatedProtoVersion } := by
    intro sub
    rw [handleStartupParam, if_neg (by decide), if_neg (by decide), if_pos (by rfl),
      strtoul_decimal]
  have hchar : ∀ sub, handleStartupParam (startupEnv c) sub encodingKey
      (E.toChar data.fieldDatumEncoding) = .ok sub := fun sub => if_pos hencoding
  have hforward : ∀ sub, handleStartupParam (startupEnv c) sub forwardKey (text ['t']) = .ok sub :=
    fun sub => rfl
  have hafter := foldlM_ignored (startupEnv c) after []
    { sub with version := data.negotiatedProtoVersion }
  rw [append_nil] at hafter
  simp only [prepareStartupMessage, foldlM_ignored, foldlM_cons, hproto, hchar, hforward, bind,
    Except.bind, hafter]
  rfl

theorem charToEncoding_agreed {clientEncoding : Int}
    (h : pgDecodeStartup l s clientEncoding (startReplication c req) = .ok data) :
    E.charToEncoding (E.toChar data.fieldDatumEncoding) = c.databaseEncoding := by
  obtain ⟨-, hsame, -, -, -, hdata⟩ := pgDecodeStartup_startReplication.mp h
  have hfield : data.fieldDatumEncoding = s.databaseEncoding := by
    rw [hdata]
    rfl
  have hname : E.toChar s.databaseEncoding = E.names.get s.databaseEncoding := by
    simp [Encodings.toChar]
  rw [hfield, hname, E.charToEncoding_name, hsame]

/-- **What both sides use.** If the output plugin accepts the options, the apply worker accepts the
startup message, and reads from then on with the version that the output plugin writes with, which is
one that both can. The internal format is used between servers of one layout only. -/
theorem handshake_agreed {clientEncoding : Int}
    (h : pgDecodeStartup l s clientEncoding (startReplication c req) = .ok data)
    (before between after : Ignored) (sub : Subscriber) :
    (prepareStartupMessage E data before between after).foldlM
        (fun sub p => handleStartupParam (startupEnv c) sub p.1 p.2) sub =
      .ok { sub with version := data.negotiatedProtoVersion } ∧
    (c.minProtoVersion ≤ data.negotiatedProtoVersion ∧
      data.negotiatedProtoVersion ≤ c.maxProtoVersion) ∧
    (s.minProtoVersion ≤ data.negotiatedProtoVersion ∧
      data.negotiatedProtoVersion ≤ s.maxProtoVersion) ∧
    (data.allowInternalBasetypes → c.layout = s.layout) := by
  obtain ⟨⟨hmeet, -⟩, -, -, -, -, hdata⟩ := pgDecodeStartup_startReplication.mp h
  have hversion : data.negotiatedProtoVersion = lesser s.maxProtoVersion c.maxProtoVersion := by
    rw [hdata]
    rfl
  refine ⟨?_, ?_, ?_, ?_⟩
  · exact foldlM_prepareStartupMessage (charToEncoding_agreed h) before between after sub
  · have hle := c.proto_le
    grind [lesser]
  · have hle := s.proto_le
    grind [lesser]
  · intro hinternal
    have hcheck : checkBinaryCompatibility s (requested c req) := by
      rw [hdata] at hinternal
      exact (Bool.and_eq_true_iff.mp hinternal).2
    rw [checkBinaryCompatibility_requested] at hcheck
    exact of_decide_eq_true hcheck

theorem handleStartup_of_foldlM {env : StartupEnv} {params : List (CString × CString)}
    {sub sub' : Subscriber}
    (h : params.foldlM (fun sub p => handleStartupParam env sub p.1 p.2) sub = .ok sub') :
    handleStartup env sub params = sub' := by
  induction params generalizing sub with
  | nil => exact Except.ok.inj h
  | cons p _ ih =>
    rw [foldlM_cons] at h
    obtain ⟨mid, hparam, hrest⟩ := bind_eq_ok.mp h
    rw [handleStartup, hparam]
    exact ih hrest

/-- **The bytes of the startup message** are what a worker that has just connected decodes, and it
then reads with the version that the output plugin writes with. -/
theorem handshake_received {clientEncoding : Int}
    (h : pgDecodeStartup l s clientEncoding (startReplication c req) = .ok data)
    (before between after : Ignored)
    (hkeys : ∀ param ∈ before ++ between ++ after, param.1.1.bytes ≠ []) {sub : Subscriber}
    (hsub : sub.version = 4) :
    ∃ params, sub.decode (writeStartupMessage
        (prepareStartupMessage E data before between after)) =
          .ok (⟨none, tag 'S', .startup params⟩, []) ∧
      handleStartup (startupEnv c) sub params =
        { sub with version := data.negotiatedProtoVersion } := by
  refine ⟨_, decode_startup hsub ?_ ?_, handleStartup_of_foldlM <|
    foldlM_prepareStartupMessage (charToEncoding_agreed h) before between after sub⟩
  · simp [prepareStartupMessage]
  · have hown : protoVersionKey.bytes ≠ [] ∧ encodingKey.bytes ≠ [] ∧ forwardKey.bytes ≠ [] := by
      decide
    intro param hparam
    simp only [prepareStartupMessage, mem_append, mem_cons, mem_map] at hparam hkeys
    rcases hparam with ⟨p, hp, rfl⟩ | rfl | ⟨p, hp, rfl⟩ | rfl | rfl | ⟨p, hp, rfl⟩ <;> grind

end Options

section Sample

def sampleEncodings : Encodings where
  names := [text ['U', 'T', 'F', '8']]
  charToEncoding v := if v = text ['U', 'T', 'F', '8'] then 0 else -1
  charToEncoding_name := by decide
  charToEncoding_empty := by decide

def sampleServer (maxProtoVersion : UInt32) (h : 4 ≤ maxProtoVersion := by decide) :
    Server sampleEncodings where
  minProtoVersion := 4
  maxProtoVersion := maxProtoVersion
  spockVersion := text ['6']
  spockVersionNum := 60000
  hooksSetup := text []
  pgVersionNum := 170004
  sizeofDatum := 8
  sizeofInt := 4
  sizeofLong := 8
  bigendian := false
  float4Byval := true
  float8Byval := true
  integerDatetimes := true
  proto_le := h
  sizeof_ne_zero := by decide
  databaseEncoding := ⟨0, by decide⟩

def sampleRequest : Request := ⟨none, none, none, false⟩

/-- An apply worker of an older release. -/
theorem handshake_agreed_older :
    ∃ data, pgDecodeStartup ⟨fun _ _ => none, fun _ => .ok []⟩ (sampleServer 5) 0
        (startReplication (sampleServer 4) sampleRequest) = .ok data ∧
      data.negotiatedProtoVersion = 4 ∧
      ∀ sub, (prepareStartupMessage sampleEncodings data [] [] []).foldlM
        (fun sub p => handleStartupParam (startupEnv (sampleServer 4)) sub p.1 p.2) sub =
          .ok { sub with version := 4 } := by
  have hmeet : VersionsMeet (sampleServer 4) (sampleServer 5) := ⟨by decide, fun _ => by decide⟩
  refine ⟨agreed (sampleServer 4) (sampleServer 5) sampleRequest, ?accepted, rfl,
    fun sub => (handshake_agreed ?accepted [] [] [] sub).1⟩
  exact pgDecodeStartup_startReplication.mpr ⟨hmeet, rfl, rfl, rfl, rfl, rfl⟩

end Sample

end Spock.Startup
