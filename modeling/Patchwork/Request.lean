import Patchwork.Json.Record

/-!
# Requests

What a client sends: calls to methods, each with a mask of the fields it wants. The JSON form is a
record whose members may come in any order or, as an array, by position. A member that is known
may not be repeated; others are passed over.
-/

namespace Patchwork
open Json (Source RecordForm)

inductive Verb where
  | fetch
  | act
  | listen
  deriving DecidableEq, Repr

/-- The service whose methods are the verbs. -/
def gatewayService : String := "stitch.gateway.v1.GatewayService"

namespace Verb

def methodName : Verb → String
  | fetch => "Fetch"
  | act => "Do"
  | listen => "Listen"

/-- The head of every chain of operations. -/
def operation (v : Verb) : String := gatewayService ++ "." ++ v.methodName

def label : Verb → String
  | fetch => "fetch"
  | act => "do"
  | listen => "listen"

/-- Whether failures are embedded where no policy is given. -/
def catchesByDefault : Verb → Bool
  | act => true
  | _ => false

end Verb

/-- What a failure does to the value it happens in. -/
inductive ErrorPolicy where
  /-- It takes the place of the value. -/
  | embed
  /-- It fails the value around it. -/
  | raise
  deriving DecidableEq, Repr

def ErrorPolicy.word : ErrorPolicy → String
  | embed => "catch"
  | raise => "throw"

def ErrorPolicy.ofWord? : String → Option ErrorPolicy
  | "catch" => some embed
  | "throw" => some raise
  | _ => none

/-- Whether failures are embedded under an optional policy. -/
def shouldCatch (policy : Option ErrorPolicy) (fallback : Bool) : Bool :=
  match policy with
  | some .embed => true
  | some .raise => false
  | none => fallback

/-- One selected field, with the fields selected inside it. -/
inductive MaskField where
  | mk (name : String) (params : Option Json) (mask : List MaskField)
      (onError : Option ErrorPolicy)
  deriving Inhabited

namespace MaskField

def name : MaskField → String
  | mk n _ _ _ => n

def params : MaskField → Option Json
  | mk _ p _ _ => p

def mask : MaskField → List MaskField
  | mk _ _ m _ => m

def onError : MaskField → Option ErrorPolicy
  | mk _ _ _ e => e

end MaskField

structure Request where
  method : String
  body : Option Json := none
  mask : List MaskField := []
  onError : Option ErrorPolicy := none

structure FetchRequest where
  requests : List Request := []

structure ListenRequest where
  request : Option Request := none

/-! ## Reading -/

/-- A policy is a word or an object whose only member is that word, with the value null. -/
def ErrorPolicy.ofSource? (room : Nat) : Source → Option ErrorPolicy
  | .str (some word) => ofWord? word
  | .obj [(some word, .null)] => if room = 0 then none else ofWord? word
  | _ => none

def MaskField.form : RecordForm := { names := ["name", "params", "mask", "onError"] }

def MaskField.ofSource? : Nat → Source → Option MaskField
  | 0, _ => none
  | room + 1, source => do
    match ← MaskField.form.open? source with
    | [name, params, mask, onError] =>
      let name ← (← name.map Source.string?)
      let params ← Source.optional? (·.toJson? room) params
      let mask ← match mask with
        | none => some []
        | some (.arr items) => match room with
          | 0 => none
          | room + 1 => items.mapM (MaskField.ofSource? room)
        | some _ => none
      let onError ← Source.optional? (ErrorPolicy.ofSource? room) onError
      return .mk name params mask onError
    | _ => none

def masks? (room : Nat) : Source → Option (List MaskField) := Source.list? MaskField.ofSource? room

def Request.form : RecordForm := { names := ["method", "body", "mask", "onError"] }

def Request.ofSource? : Nat → Source → Option Request
  | 0, _ => none
  | room + 1, source => do
    match ← Request.form.open? source with
    | [method, body, mask, onError] =>
      return {
        method := ← (← method.map Source.string?)
        body := ← Source.optional? (·.toJson? room) body
        mask := ← Source.withDefault? [] (masks? room) mask
        onError := ← Source.optional? (ErrorPolicy.ofSource? room) onError }
    | _ => none

def requests? (room : Nat) : Source → Option (List Request) := Source.list? Request.ofSource? room

def FetchRequest.ofSource? : Nat → Source → Option FetchRequest
  | 0, _ => none
  | room + 1, source => do
    match ← RecordForm.open? { names := ["requests"] } source with
    | [requests] => return ⟨← Source.withDefault? [] (requests? room) requests⟩
    | _ => none

def ListenRequest.ofSource? : Nat → Source → Option ListenRequest
  | 0, _ => none
  | room + 1, source => do
    match ← RecordForm.open? { names := ["request"] } source with
    | [request] => return ⟨← Source.optional? (Request.ofSource? room) request⟩
    | _ => none

/-! ## Writing -/

def ErrorPolicy.toJson (p : ErrorPolicy) : Json := .str p.word

/-- A member that is left out when there is no value. -/
def memberOf (name : String) (value : Option Json) : List (String × Json) :=
  value.toList.map (name, ·)

mutual
/-- Everything but the name is left out where it says nothing. -/
def MaskField.toJson : MaskField → Json
  | .mk name params mask onError =>
    .object ([("name", .str name)] ++ memberOf "params" params
      ++ (if mask.isEmpty then [] else [("mask", .arr (masksToJson mask))])
      ++ memberOf "onError" (onError.map ErrorPolicy.toJson))

def masksToJson : List MaskField → List Json
  | [] => []
  | m :: rest => m.toJson :: masksToJson rest
end

def Request.toJson (r : Request) : Json :=
  .object ([("method", .str r.method)] ++ memberOf "body" r.body
    ++ [("mask", .arr (masksToJson r.mask))] ++ memberOf "onError" (r.onError.map ErrorPolicy.toJson))

def FetchRequest.toJson (r : FetchRequest) : Json :=
  .object [("requests", .arr (r.requests.map Request.toJson))]

def ListenRequest.toJson (r : ListenRequest) : Json :=
  .object [("request", (r.request.map Request.toJson).getD .null)]

end Patchwork
