import Spock.Protocol.Native
import Spock.Replay.Queue

/-!
# Spock — the startup message at the apply worker

The first message of a stream. Of its parameters the apply worker checks the encoding, parses the
flag for forwarded changesets, and takes over the protocol version, on which the reading of every
later message depends.
-/

namespace Spock.Replay

open Protocol

/-- What `handle_startup_param` looks up. -/
structure StartupEnv where
  charToEncoding : CString → Int
  databaseEncoding : Int
  databaseEncodingName : String
  parseBool : CString → Option Bool

/-- `strtoul(value, &endptr, 10)`, with `none` for an error or characters left over. The empty
string has nothing left over. -/
def strtoul (value : List UInt8) : Option UInt32 :=
  let body := value.dropWhile fun b => b == 32 || (9 ≤ b && b ≤ 13)
  let negative := body.head? == some (tag '-')
  let digits := if negative || body.head? == some (tag '+') then body.tail else body
  let n := digits.foldl (fun n b => 10 * n + (b.toNat - 48)) 0
  if value.isEmpty then some 0
  else if !digits.isEmpty && digits.all (fun b => tag '0' ≤ b && b ≤ tag '9') && n < 2 ^ 64 then
    some (UInt32.ofNat (if negative then 2 ^ 64 - n else n))
  else none

/-- `handle_startup_param`. -/
def handleStartupParam (env : StartupEnv) (s : Subscriber) (k v : CString) :
    Except ErrorData Subscriber :=
  if k.bytes = ['e', 'n', 'c', 'o', 'd', 'i', 'n', 'g'].map tag then
    if env.charToEncoding v = env.databaseEncoding then .ok s
    else .error ⟨.other 325, s!"SPOCK {s.name}: expected encoding={env.databaseEncodingName} from " ++
      s!"upstream but got {v.toString}"⟩
  else if k.bytes = ['f', 'o', 'r', 'w', 'a', 'r', 'd', '_', 'c', 'h', 'a', 'n', 'g', 'e', 's', 'e',
      't', '_', 'o', 'r', 'i', 'g', 'i', 'n', 's'].map tag then
    if (env.parseBool v).isSome then .ok s
    else .error ⟨.invalidParameterValue, s!"SPOCK {s.name}: couldn't parse value '{v.toString}' for " ++
      s!"key '{k.toString}' as boolean"⟩
  else if k.bytes = ['p', 'r', 'o', 't', 'o', '_', 'v', 'e', 'r', 's', 'i', 'o', 'n'].map tag then
    match strtoul v.bytes with
    | some version => .ok { s with version := version }
    | none => .error ⟨.invalidParameterValue,
        s!"SPOCK {s.name}: invalid proto_version value: {v.toString}"⟩
  else .ok s

def handleStartup (env : StartupEnv) (s : Subscriber) : List (CString × CString) → Subscriber
  | [] => s
  | (k, v) :: params =>
    match handleStartupParam env s k v with
    | .ok s' => handleStartup env s' params
    | .error _ => s

end Spock.Replay
