import Patchwork.Decimal.Shortest
import Patchwork.Encoding.Base64
import Patchwork.Json.Value
import Patchwork.Proto.Codec
import Patchwork.Proto.WellKnown
import Patchwork.Text.Calendar

/-!
# Messages as JSON

The standard JSON form: the fields that count, by JSON name, 64-bit integers and bytes as texts,
enum values by name. Well-known types have forms of their own, and some of their messages have
none: an instant out of range, a number that is not finite, a payload of unknown type, values
nested too deep.
-/

namespace Patchwork.Proto

/-- Why a message has no JSON form. -/
inductive Unprintable where
  | timestamp
  | duration
  | fieldMask (path : String)
  | number
  | payloadType (url : String)
  | payload (type : String)
  | nesting (type : String)
  deriving DecidableEq, Repr

def Unprintable.message : Unprintable → String
  | .timestamp => "timestamp is out of range"
  | .duration => "duration is out of range"
  | .fieldMask path => "path has no JSON form: " ++ path
  | .number => "number is not finite"
  | .payloadType url => "unknown payload type: " ++ url
  | .payload type => "malformed payload of type " ++ type
  | .nesting type => "nested too deep: " ++ type

/-- A double as a JSON number or, when it is none, by name. -/
def doubleJson (bits : Nat) : Json :=
  if Binary.double.isNaN bits then .str "NaN"
  else if Binary.double.isFinite bits then .ofDouble bits
  else if Binary.double.isNegative bits then .str "-Infinity"
  else .str "Infinity"

/-- A single, widened to the double of the same value. -/
def floatJson (bits : Nat) : Json := doubleJson (Binary.single.convert Binary.double bits)

def enumJson (e : EnumInfo) (number : Int32) : Json :=
  match e.name? number with
  | some name => .str name
  | none => .int number.toInt

/-- Scalars other than enum values and floating-point numbers. -/
def plainJson : Scalar → Json
  | .bool b => .bool b
  | .int32 n => .int n.toInt
  | .uint32 n => .int n.toNat
  | .int64 n => .str (toString n.toInt)
  | .uint64 n => .str (toString n.toNat)
  | .string s => .str s
  | .bytes bs => .str (Base64.encode bs)
  | .enum n => .int n.toInt
  | .float bits => floatJson bits.toNat
  | .double bits => doubleJson bits.toNat

def Scalar.print (pool : Pool) (k : Kind) (s : Scalar) : Json :=
  match k, s with
  | .enum name, .enum n => if name = nullValue then .null else enumJson (pool.enum name) n
  | _, s => plainJson s

/-- A path of a field mask with upper-case letters for underscores; none if it would not read
back. An underscore at the end of a part is dropped. -/
def camelPath? : List Char → Option (List Char)
  | [] => some []
  | ['_'] => some []
  | '_' :: '.' :: rest => (camelPath? rest).map ('.' :: ·)
  | '_' :: c :: rest =>
    if c.isLower then (camelPath? rest).map (c.toUpper :: ·) else none
  | c :: rest => if c.isUpper then none else (camelPath? rest).map (c :: ·)

/-- Joins paths by commas, none in front of the first that is not empty. -/
def joinPaths (paths : List String) : String :=
  paths.foldl (fun text p => if text.isEmpty then p else text ++ "," ++ p) ""

def fieldMaskText (paths : List Value) : Except Unprintable String := do
  let texts ← paths.mapM fun
    | .scalar (.string s) => match camelPath? s.toList with
      | some p => .ok (String.ofList p)
      | none => .error (.fieldMask s)
    | _ => .error (.fieldMask "")
  return joinPaths texts

/-- The integer in field `number`, zero when unset. -/
def intAt (number : Nat) (fields : List (Nat × Value)) : Int :=
  match fields.lookup number with
  | some (.scalar (.int64 n)) => n.toInt
  | some (.scalar (.int32 n)) => n.toInt
  | _ => 0

def timeOf (fields : List (Nat × Value)) : Calendar.Time := ⟨intAt 1 fields, intAt 2 fields⟩

def itemsAt (number : Nat) (fields : List (Nat × Value)) : List Value :=
  match fields.lookup number with
  | some (.list items) => items
  | _ => []

def textAt (number : Nat) (fields : List (Nat × Value)) : String :=
  match fields.lookup number with
  | some (.scalar (.string s)) => s
  | _ => ""

def bytesAt (number : Nat) (fields : List (Nat × Value)) : List UInt8 :=
  match fields.lookup number with
  | some (.scalar (.bytes bs)) => bs
  | _ => []

/-- Whether field `number` holds a double that is not finite. -/
def wildNumber (number : Nat) (fields : List (Nat × Value)) : Bool :=
  match fields.lookup number with
  | some (.scalar (.double bits)) => !Binary.double.isFinite bits.toNat
  | some (.scalar (.float bits)) => !Binary.single.isFinite bits.toNat
  | _ => false

/-- Whether messages of a form are printed only when they are not nested too deep. -/
def isBounded : Form → Bool
  | .plain | .empty => false
  | _ => true

section

variable (payload : Pool → String → List UInt8 → Except Unprintable Json)

/-- The JSON form of a message from its fields and their printed members. -/
def assemble (t : MessageType) (fields : List (Nat × Value)) (members : List (String × Json)) :
    Except Unprintable Json :=
  match Form.of t.name with
  | .plain | .empty => .ok (.object members)
  | .wrapper k =>
    if wildNumber 1 fields then .ok .null
    else .ok ((members.lookup "value").getD (plainJson k.zero))
  | .timestamp => match Calendar.instantText? (timeOf fields) with
    | some s => .ok (.str s)
    | none => .error .timestamp
  | .duration => match Calendar.spanText? (timeOf fields) with
    | some s => .ok (.str s)
    | none => .error .duration
  | .fieldMask => (fieldMaskText (itemsAt 1 fields)).map .str
  | .struct => .ok ((members.lookup "fields").getD (.obj []))
  | .listValue => .ok ((members.lookup "values").getD (.arr []))
  | .value =>
    if wildNumber 2 fields then .error .number
    else match members with
      | (_, x) :: _ => .ok x
      | [] => .ok .null
  | .any => payload t.pool (textAt 1 fields) (bytesAt 2 fields)

mutual
/-- A single value, an element or a map's value. -/
def Value.printWith (pool : Pool) (k : Kind) : Value → Except Unprintable Json
  | .scalar s => .ok (s.print pool k)
  | .message m => m.printWith
  | .list items => (printItems pool k items).map .arr
  | .map entries => (printEntries pool k entries).map .object

def printItems (pool : Pool) (k : Kind) : List Value → Except Unprintable (List Json)
  | [] => .ok []
  | v :: rest => do return (← v.printWith pool k) :: (← printItems pool k rest)

def printEntries (pool : Pool) (k : Kind) : List (Key × Value) →
    Except Unprintable (List (String × Json))
  | [] => .ok []
  | (l, v) :: rest => do return (l.text, ← v.printWith pool k) :: (← printEntries pool k rest)

/-- The members of the fields that count. -/
def printFields (t : MessageType) : List (Nat × Value) → Except Unprintable (List (String × Json))
  | [] => .ok []
  | (n, v) :: rest => do
    match t.fieldAt? n with
    | some f =>
      if f.counts v then
        let x ← v.printWith t.pool f.kind
        return (f.jsonName, x) :: (← printFields t rest)
      else printFields t rest
    | none => printFields t rest

def Message.printWith : Message → Except Unprintable Json
  | .mk t fields unknown => do
    let members ← printFields t fields
    if isBounded (Form.of t.name) && !(Message.mk t fields unknown).isShallow then
      throw (.nesting t.name)
    assemble payload t fields members
end

end

/-- The prefix of the addresses under which payload types are known. -/
def typeHost : String := "type.googleapis.com/"

/-- The name of a payload's type as its address has it. -/
def carriedName? (url : String) : Option String :=
  if url.startsWith typeHost then some (url.drop typeHost.length).toString else none

/-- A message carried with its type: members of its own beside the type, or the form of a well-known
type as one member. Payloads inside payloads are shorter, so that the length of the outermost
bounds their number. -/
def printPayload : Nat → Pool → String → List UInt8 → Except Unprintable Json
  | 0, _, url, _ => .error (.payloadType url)
  | fuel + 1, pool, url, bytes =>
    match carriedName? url with
    | none => .error (.payloadType url)
    | some name => match pool.messageNamed? name with
      | none => .error (.payloadType url)
      | some t => match Message.decode? t bytes with
        | none => .error (.payload t.name)
        | some m => do
          if isWellKnown name then
            return .object [("@type", .str url), ("value", ← m.printWith (printPayload fuel))]
          return .object (("@type", .str url) :: (← printFields (printPayload fuel) t m.fields))

/-- The JSON form of a message. -/
def Message.print (m : Message) : Except Unprintable Json :=
  m.printWith fun pool url bytes => printPayload (bytes.length + 1) pool url bytes

end Patchwork.Proto
