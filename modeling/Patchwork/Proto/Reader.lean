import Patchwork.Encoding.Base64
import Patchwork.Json.Value
import Patchwork.Proto.Codec
import Patchwork.Proto.WellKnown
import Patchwork.Text.Calendar

/-!
# Messages from JSON

Reads the standard JSON form into a message of a given type. Names may be JSON names or plain
names; a name the type does not know is refused. Null stands for an unset message field and for
the default of any other, which counts as set where presence is tracked.
-/

namespace Patchwork.Proto

/-- Why a JSON value is no message of a type. -/
inductive Unreadable where
  | expected (what : String)
  | unknownField (name type : String)
  | crowdedOneof (name : String)
  | payloadType (url : String)
  | nesting (type : String)
  deriving DecidableEq, Repr

def Unreadable.message : Unreadable → String
  | .expected what => "expected " ++ what
  | .unknownField name type => "unrecognized field name '" ++ name ++ "' in " ++ type
  | .crowdedOneof name => "multiple fields provided for oneof '" ++ name ++ "'"
  | .payloadType url => "unknown payload type: " ++ url
  | .nesting type => "nested too deep: " ++ type

abbrev Read := Except Unreadable

def orExpected (what : String) : Option α → Read α
  | some x => .ok x
  | none => .error (.expected what)

/-- A whole number in a JSON number, and whether its text allowed a fraction. -/
def whole? : Json → Option (Int × Bool)
  | .int n => some (n, false)
  | .float bits => (Binary.double.toInt? bits.toNat).map (·, true)
  | _ => none

/-- An integer between `low` and `high`. A double one above `high` that no double separates from it
counts as `high`. -/
def intBetween (low high : Int) (signed : Bool) (j : Json) : Read Int := orExpected "an integer" do
  let inRange (n : Int) := if low ≤ n ∧ n ≤ high then some n else none
  match j with
  | .str s =>
    let n ← if signed then Numeral.signed? s.toList else (Numeral.unsigned? s.toList).map Int.ofNat
    inRange n
  | j =>
    let (n, rounded) ← whole? j
    if rounded ∧ n = high + 1 ∧ 9007199254740992 < high then some high else inRange n

def word? (s : String) : Option Numeral.Literal :=
  if s = "NaN" then some (.nan false)
  else if s = "Infinity" then some (.infinity false)
  else if s = "-Infinity" then some (.infinity true)
  else Numeral.fraction? s.toList

/-- Whether a double lies beyond the largest single. -/
def beyondSingle (bits : Nat) : Bool :=
  Binary.single.convert Binary.double (Binary.single.infinity - 1) < Binary.double.magnitude bits

def readFloat : Json → Read UInt32
  | .int n => .ok (.ofNat (Binary.single.ofInt n))
  | .float bits =>
    if beyondSingle bits.toNat then .error (.expected "a 32-bit number")
    else .ok (.ofNat (Binary.double.convert Binary.single bits.toNat))
  | .str s => (orExpected "a number" (word? s)).map fun x => .ofNat (x.bits Binary.single)
  | _ => .error (.expected "a number")

def readDouble : Json → Read UInt64
  | .int n => .ok (.ofNat (Binary.double.ofInt n))
  | .float bits => .ok bits
  | .str s => (orExpected "a number" (word? s)).map fun x => .ofNat (x.bits Binary.double)
  | _ => .error (.expected "a number")

def readText : Json → Read String
  | .str s => .ok s
  | _ => .error (.expected "a string")

def ScalarKind.read (k : ScalarKind) (j : Json) : Read Scalar :=
  match k with
  | .double => (readDouble j).map .double
  | .float => (readFloat j).map .float
  | .int32 | .sint32 | .sfixed32 =>
    (intBetween (-2147483648) 2147483647 true j).map fun n => .int32 (.ofInt n)
  | .int64 | .sint64 | .sfixed64 =>
    (intBetween (-9223372036854775808) 9223372036854775807 true j).map fun n => .int64 (.ofInt n)
  | .uint32 | .fixed32 => (intBetween 0 4294967295 false j).map fun n => .uint32 (.ofNat n.toNat)
  | .uint64 | .fixed64 =>
    (intBetween 0 18446744073709551615 false j).map fun n => .uint64 (.ofNat n.toNat)
  | .bool => match j with
    | .bool b => .ok (.bool b)
    | _ => .error (.expected "a boolean")
  | .string => (readText j).map .string
  | .bytes => do
    let s ← readText j
    (orExpected "base64" (Base64.decodeLenient s.toList)).map .bytes

def readEnum (e : EnumInfo) : Json → Read Int32
  | .str s => orExpected "the name of an enum value" (e.number? s)
  | .int n =>
    if -2147483648 ≤ n ∧ n ≤ 2147483647 then .ok (.ofInt n) else .error (.expected "an enum value")
  | _ => .error (.expected "an enum value")

def readNullValue : Json → Read Int32
  | .null => .ok 0
  | .str "NULL_VALUE" => .ok 0
  | _ => .error (.expected "null")

/-- A map's key from the name of a member. -/
def ScalarKind.readKey (k : ScalarKind) (name : String) : Read Key :=
  match k with
  | .string => .ok (.string name)
  | .bool =>
    if name = "true" then .ok (.bool true)
    else if name = "false" then .ok (.bool false)
    else .error (.expected "a boolean")
  | k => do orExpected "a map key" (Key.ofScalar? (← k.read (.str name)))

/-- A path of a field mask with underscores for upper-case letters. -/
def snakePath? : List Char → Option (List Char)
  | [] => some []
  | c :: rest =>
    if c = '_' then none
    else if c.isUpper then (snakePath? rest).map fun p => '_' :: c.toLower :: p
    else (snakePath? rest).map (c :: ·)

def readPaths (s : String) : Option (List String) :=
  ((s.splitOn ",").filter (· ≠ "")).mapM fun p => (snakePath? p.toList).map String.ofList

def readTime (t : MessageType) (time : Calendar.Time) : Message :=
  .mk t [(1, .scalar (.int64 (.ofInt time.seconds))), (2, .scalar (.int32 (.ofInt time.nanos)))] []

/-- The name of a payload's type, which stands behind the last slash of its address. -/
def payloadTypeName? (url : String) : Option String :=
  if url.contains '/' then (url.splitOn "/").getLast? else none

/-- What an object says about its payload: the address of its type, the type, and whether the
payload is given in a form of its own. -/
def readPayloadType (pool : Pool) (members : List (String × Json)) :
    Read (String × MessageType × Bool) := do
  let url ← match members.lookup "@type" with
    | some (.str s) => .ok s
    | _ => .error (.expected "a payload type")
  let found := do
    let name ← payloadTypeName? url
    return (url, ← pool.messageNamed? name, isWellKnown name)
  match found with
  | some r => .ok r
  | none => .error (.payloadType url)

/-- A free-form message, unless it is nested too deep. -/
def orTooDeep (m : Message) : Read Message :=
  if m.levels 0 ≤ maxNesting then .ok m else .error (.nesting m.type.name)

def payloadMessage (t : MessageType) (url : String) (payload : Message) : Message :=
  .mk t [(1, .scalar (.string url)), (2, .scalar (.bytes payload.encode))] []

/-- Sets a field that the JSON names, unless its oneof is taken. -/
def place (m : Message) (f : Field) (v : Value) : Read Message :=
  match f.oneof with
  | some o =>
    if (m.type.fields.filter fun g => g.oneof == some o).any m.has then .error (.crowdedOneof o)
    else .ok (m.set f v)
  | none => .ok (m.set f v)

/-- What null stands for in a field: nothing for messages and maps, else the default. -/
def nullField (pool : Pool) (f : Field) : Option Value :=
  match f.arity, f.kind with
  | .map .., _ => none
  | .single _, .message name =>
    if name = valueType then
      some (.message (.mk (pool.message name) [(1, .scalar (.enum 0))] []))
    else none
  | _, .message _ => none
  | .list _, _ => some (.list [])
  | .single _, _ => some (.scalar f.fallback)

/-- A value that is no message: single, an element or a map's value. -/
def readLeaf (pool : Pool) (k : Kind) (j : Json) : Read Value :=
  match k with
  | .scalar k => (k.read j).map .scalar
  | .enum name =>
    (if name = nullValue then readNullValue j else readEnum (pool.enum name) j).map fun n =>
      .scalar (.enum n)
  | .message name => .error (.expected name)

mutual
def readMessage (t : MessageType) (j : Json) : Read Message :=
  match Form.of t.name, j with
  | .plain, .obj members => readMembers t none members (.empty t)
  | .empty, .obj [] => .ok (.empty t)
  | .any, .obj members => do
    let (url, payload, formed) ← readPayloadType t.pool members
    let m ← if formed then readCarried payload none members
      else readMembers payload (some "@type") members (.empty payload)
    return payloadMessage t url m
  | .wrapper k, j => do return .mk t [(1, .scalar (← k.read j))] []
  | .duration, .str s => do return readTime t (← orExpected "a duration" (Calendar.span? s))
  | .timestamp, .str s => do return readTime t (← orExpected "a timestamp" (Calendar.instant? s))
  | .fieldMask, .str s => do
    let paths ← orExpected "a field mask" (readPaths s)
    return .mk t [(1, .list (paths.map fun p => .scalar (.string p)))] []
  | .struct, .obj members => do
    orTooDeep (.mk t [(1, .map (← readEntries t.pool .string (.message valueType) members))] [])
  | .listValue, .arr items => do
    orTooDeep (.mk t [(1, .list (← readItems t.pool (.message valueType) items))] [])
  | .value, .null => .ok (.mk t [(1, .scalar (.enum 0))] [])
  | .value, .bool b => .ok (.mk t [(4, .scalar (.bool b))] [])
  | .value, .int n => .ok (.mk t [(2, .scalar (.double (.ofNat (Binary.double.ofInt n))))] [])
  | .value, .float bits => .ok (.mk t [(2, .scalar (.double bits))] [])
  | .value, .str s => .ok (.mk t [(3, .scalar (.string s))] [])
  | .value, .obj members => do
    let entries ← readEntries t.pool .string (.message valueType) members
    orTooDeep (.mk t [(5, .message (.mk (t.pool.message structType) [(1, .map entries)] []))] [])
  | .value, .arr items => do
    let items ← readItems t.pool (.message valueType) items
    orTooDeep (.mk t [(6, .message (.mk (t.pool.message listValueType) [(1, .list items)] []))] [])
  | _, _ => .error (.expected t.name)

/-- Reads members into `m`, passing over the one named `skip`. -/
def readMembers (t : MessageType) (skip : Option String) : List (String × Json) → Message →
    Read Message
  | [], m => .ok m
  | (name, j) :: rest, m =>
    if skip = some name then readMembers t skip rest m
    else match t.fieldOfJson? name with
      | none => .error (.unknownField name t.name)
      | some f => do
        let v ← match f.arity, f.kind, j with
          | _, _, .null => .ok (nullField t.pool f)
          | .list _, k, .arr items => (readItems t.pool k items).map (some <| .list ·)
          | .map key _, k, .obj members => (readEntries t.pool key k members).map (some <| .map ·)
          | .single _, .message type, j => (readMessage (t.pool.message type) j).map (some <| .message ·)
          | .single _, k, j => (readLeaf t.pool k j).map some
          | _, _, _ => .error (.expected f.name)
        match v with
        | none => readMembers t skip rest m
        | some v => readMembers t skip rest (← place m f v)

/-- The payload of a well-known type, which stands under `value` with nothing else beside it. -/
def readCarried (t : MessageType) (found : Option Message) : List (String × Json) → Read Message
  | [] => orExpected "a payload value" found
  | (name, j) :: rest => do
    if name = "@type" then readCarried t found rest
    else if name = "value" then readCarried t (some (← readMessage t j)) rest
    else throw (.unknownField name t.name)

def readItems (pool : Pool) (k : Kind) : List Json → Read (List Value)
  | [] => .ok []
  | j :: rest => do
    let v ← match k with
      | .message type => (readMessage (pool.message type) j).map .message
      | k => readLeaf pool k j
    return v :: (← readItems pool k rest)

/-- Reads entries of a map; of several names for one key the last counts. -/
def readEntries (pool : Pool) (key : ScalarKind) (k : Kind) : List (String × Json) →
    Read (List (Key × Value))
  | [] => .ok []
  | (name, j) :: rest => do
    let l ← key.readKey name
    let v ← match k with
      | .message type => (readMessage (pool.message type) j).map .message
      | k => readLeaf pool k j
    let entries ← readEntries pool key k rest
    return if entries.any (·.1 == l) then entries else (l, v) :: entries
end

end Patchwork.Proto
