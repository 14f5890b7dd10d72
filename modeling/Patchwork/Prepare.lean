import Patchwork.Schema.Compile

/-!
# Preparation of requests

Everything that can be wrong with a request is found before anything is sent: the method, its kind
for the verb, its side effects, the body and the mask, in this order.
-/

namespace Patchwork
open Proto

/-- A request ready to be sent. -/
structure Prepared where
  entry : EntryPoint
  method : String
  onError : Option ErrorPolicy
  input : Message
  schema : Schema
  /-- The verb and the method. -/
  operations : List String

/-- Refuses what does not meet a condition. -/
def requireValid (ok : Bool) (cause : Invalid) : Outcome Unit :=
  if ok then .ok () else .error (.invalidArgument cause)

/-- Whether the method suits the verb. -/
def Verb.admits (v : Verb) (m : Method) (name : String) : Outcome Unit := do
  match v with
  | .listen => requireValid m.info.serverStreaming (.notStreaming name)
  | _ => requireValid (!m.info.serverStreaming) (.notUnary name)
  if v = .fetch then requireValid m.isSafe (.sideEffects name)

/-- The input of a method. No body, or null, is the empty message. -/
def readBody (m : Method) : Option Json → Outcome Message
  | none | some .null => .ok (.empty m.input)
  | some json => match readMessage m.input json with
    | .ok input => .ok input
    | .error e => .error (.invalidArgument (.body m.fullName e))

namespace Gateway

def prepare (g : Gateway) (v : Verb) (r : Request) : Outcome Prepared := do
  match g.entryPoint? r.method with
  | none => throw (.unknownMethod r.method)
  | some entry =>
    v.admits entry.method r.method
    let input ← readBody entry.method r.body
    let operations := [v.operation, r.method]
    let schema ← compileMask entry.method.output r.mask ⟨g.relations, r.method, operations⟩
    return { entry, method := r.method, onError := r.onError, input, schema, operations }

/-- Prepares all requests of a batch, which may not be empty. -/
def prepareAll (g : Gateway) (v : Verb) (requests : List Request) : Outcome (List Prepared) :=
  match requests with
  | [] => .error (.invalidArgument .noRequests)
  | rs => rs.mapM (g.prepare v)

end Gateway
end Patchwork
