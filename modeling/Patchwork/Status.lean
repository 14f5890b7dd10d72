import Patchwork.Proto.Codec

/-!
# Statuses

How a downstream call ends: one of seventeen codes, a message and, for a failure, details in
binary form. The details are the encoding of a status message that may carry further messages
along with their types.
-/

namespace Patchwork
open Proto

inductive Code where
  | ok | cancelled | unknown | invalidArgument | deadlineExceeded | notFound | alreadyExists
  | permissionDenied | resourceExhausted | failedPrecondition | aborted | outOfRange
  | unimplemented | internal | unavailable | dataLoss | unauthenticated
  deriving DecidableEq, Repr

namespace Code

/-- All codes, in the order of their numbers. -/
def all : List Code :=
  [.ok, .cancelled, .unknown, .invalidArgument, .deadlineExceeded, .notFound, .alreadyExists,
   .permissionDenied, .resourceExhausted, .failedPrecondition, .aborted, .outOfRange,
   .unimplemented, .internal, .unavailable, .dataLoss, .unauthenticated]

/-- The code of a number; a number that is none counts as unknown. -/
def ofInt (n : Int) : Code := if n < 0 then .unknown else (all[n.toNat]?).getD .unknown

def name : Code → String
  | .ok => "OK"
  | .cancelled => "CANCELED"
  | .unknown => "UNKNOWN"
  | .invalidArgument => "INVALID_ARGUMENT"
  | .deadlineExceeded => "DEADLINE_EXCEEDED"
  | .notFound => "NOT_FOUND"
  | .alreadyExists => "ALREADY_EXISTS"
  | .permissionDenied => "PERMISSION_DENIED"
  | .resourceExhausted => "RESOURCE_EXHAUSTED"
  | .failedPrecondition => "FAILED_PRECONDITION"
  | .aborted => "ABORTED"
  | .outOfRange => "OUT_OF_RANGE"
  | .unimplemented => "UNIMPLEMENTED"
  | .internal => "INTERNAL"
  | .unavailable => "UNAVAILABLE"
  | .dataLoss => "DATA_LOSS"
  | .unauthenticated => "UNAUTHENTICATED"

/-- The HTTP status that reports a code. -/
def httpStatus : Code → Nat
  | .ok => 200
  | .cancelled => 499
  | .invalidArgument | .failedPrecondition | .outOfRange => 400
  | .deadlineExceeded => 504
  | .notFound => 404
  | .alreadyExists | .aborted => 409
  | .permissionDenied => 403
  | .resourceExhausted => 429
  | .unimplemented => 501
  | .unavailable => 503
  | .unauthenticated => 401
  | .unknown | .internal | .dataLoss => 500

end Code

structure Status where
  code : Code
  message : String
  details : List UInt8 := []
  deriving DecidableEq, Repr

/-- The type of statuses with details, and that of the messages that they carry. -/
def statusPool : Pool where
  messages := [
    { name := "google.rpc.Status", fields := [
        { name := "code", jsonName := "code", number := 1, kind := .scalar .int32
          arity := .single false, fallback := .int32 0 },
        { name := "message", jsonName := "message", number := 2, kind := .scalar .string
          arity := .single false, fallback := .string "" },
        { name := "details", jsonName := "details", number := 3
          kind := .message "google.protobuf.Any", arity := .list true }] },
    { name := "google.protobuf.Any", fields := [
        { name := "type_url", jsonName := "typeUrl", number := 1, kind := .scalar .string
          arity := .single false, fallback := .string "" },
        { name := "value", jsonName := "value", number := 2, kind := .scalar .bytes
          arity := .single false, fallback := .bytes [] }] }]

def statusType : MessageType := statusPool.message "google.rpc.Status"

/-- A message in binary form under the address of its type. -/
structure Detail where
  typeUrl : String
  value : List UInt8
  deriving DecidableEq, Repr

namespace Detail

def ofValue : Value → Detail
  | .message m =>
    let text := match m.fields.lookup 1 with
      | some (.scalar (.string s)) => s
      | _ => ""
    let bytes := match m.fields.lookup 2 with
      | some (.scalar (.bytes bs)) => bs
      | _ => []
    ⟨text, bytes⟩
  | _ => ⟨"", []⟩

def toMessage (d : Detail) : Message :=
  .mk (statusPool.message "google.protobuf.Any")
    [(1, .scalar (.string d.typeUrl)), (2, .scalar (.bytes d.value))] []

/-- The type's name: what follows the last slash of its address. -/
def typeName (d : Detail) : String :=
  String.ofList (d.typeUrl.toList.reverse.takeWhile (· ≠ '/')).reverse

end Detail

namespace Status

/-- The messages carried by a status, none when the details cannot be read. -/
def carried (s : Status) : List Detail :=
  if s.details = [] then []
  else match Message.decodeStrict? statusType s.details with
    | none => []
    | some m => match m.fields.lookup 3 with
      | some (.list items) => items.map Detail.ofValue
      | _ => []

/-- The binary form of a status that carries the given messages. -/
def packDetails (code : Int32) (message : String) (details : List Detail) : List UInt8 :=
  Message.encode (.mk statusType
    [(1, .scalar (.int32 code)), (2, .scalar (.string message)),
     (3, .list (details.map fun d => .message d.toMessage))] [])

end Status
end Patchwork
