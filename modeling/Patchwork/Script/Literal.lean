import Patchwork.Encoding.Hex
import Patchwork.Failure
import Patchwork.Json.Access

/-!
# Literals

Messages, values, statuses and failures written as JSON. A value is an object whose only member
names its kind; numbers of 64 bits are texts, floating-point numbers their bits in hexadecimal.
-/

namespace Patchwork.Script
open Proto

/-- The type of a name in the first pool that has it. -/
def type? (pools : List Pool) (name : String) : Option MessageType :=
  pools.findSome? (·.messageNamed? name)

def hexAt (name : String) (x : Json) : List UInt8 := ((x.text? name).bind Hex.decode?).getD []

/-- A message in its JSON form or in its binary form. -/
def message? (t : MessageType) (x : Json) : Option Message :=
  match x.get? "json" with
  | some j => (readMessage t j).toOption
  | none => Message.decode? t (hexAt "hex" x)

/-- A message along with the name of its type. -/
def typedMessage? (pools : List Pool) (x : Json) : Option Message :=
  do message? (← type? pools (x.text "type")) x

def scalar? : String → Json → Option Scalar
  | "bool", .bool b => some (.bool b)
  | "i32", .int n => some (.int32 (.ofInt n))
  | "i64", .str s => s.toInt?.map fun n => .int64 (.ofInt n)
  | "u32", .int n => some (.uint32 (.ofNat n.toNat))
  | "u64", .str s => s.toNat?.map fun n => .uint64 (.ofNat n)
  | "f32", .str s => (Hex.number? s).map fun n => .float (.ofNat n)
  | "f64", .str s => (Hex.number? s).map fun n => .double (.ofNat n)
  | "string", .str s => some (.string s)
  | "bytes", .str s => (Hex.decode? s).map .bytes
  | "enum", .int n => some (.enum (.ofInt n))
  | _, _ => none

def key? : Value → Option Key
  | .scalar s => Key.ofScalar? s
  | _ => none

mutual
def value? (pools : List Pool) : Json → Option Value
  | .obj [("list", .arr xs)] => (values? pools xs).map .list
  | .obj [("map", .arr xs)] =>
    (entries? pools xs).map fun es => .map (es.foldl (fun es (k, v) => putEntry k v es) [])
  | .obj [("message", x)] => (typedMessage? pools x).map .message
  | .obj [(kind, x)] => (scalar? kind x).map .scalar
  | _ => none

def values? (pools : List Pool) : List Json → Option (List Value)
  | [] => some []
  | x :: rest => do return (← value? pools x) :: (← values? pools rest)

/-- Pairs of keys and values. -/
def entries? (pools : List Pool) : List Json → Option (List (Key × Value))
  | [] => some []
  | .arr [k, v] :: rest => do
    return (← (← value? pools k) |> key?, ← value? pools v) :: (← entries? pools rest)
  | _ => none
end

/-- The details of a status: in binary form or as the messages that they carry. -/
def details (code : Int32) (message : String) (x : Json) : List UInt8 :=
  match (x.text? "raw_details").bind Hex.decode?, x.member? "details" with
  | some raw, _ => raw
  | none, some (.arr ds) =>
    Status.packDetails code message (ds.map fun d => ⟨d.text "type_url", hexAt "value" d⟩)
  | none, _ => []

/-- A status whose message is worked over by `fill`. -/
def status (fill : String → String) (x : Json) : Status :=
  let number := (x.int? "code").getD 0
  let message := fill (x.text "message")
  ⟨.ofInt number, message, details (.ofInt number) message x⟩

/-- A failure by its kind, a downstream one by its status. -/
def failure (x : Json) : Failure :=
  let message := x.text "message"
  match x.text "kind" with
  | "Config" => .config (.other message)
  | "InvalidArgument" => .invalidArgument (.other message)
  | "NotFound" => .notFound message
  | "Internal" => .internal (.other message)
  | "Io" => .io message
  | "Serialization" => .serialization .number
  | "Descriptor" => .descriptor .malformed
  | "Transport" => .transport message
  | _ => .downstream (status id x)

end Patchwork.Script
