import Patchwork.Channel
import Patchwork.Script.Literal
import Patchwork.Script.Template

/-!
# Scripted worlds

Servers that answer from a script, for trying out a gateway without any. The script has a handler
for each method, or a list of them of which the first call takes the first, the last one serving
for all further calls. A handler fixes what is answered, how long that takes, and whether anything
is answered at all.
-/

namespace Patchwork
open Proto

structure Script where
  /-- Where the types of literal values are found. -/
  pools : List Pool
  /-- By the full name of the method. -/
  handlers : List (String × Json) := []
  /-- What custom resolvers give, by their names. -/
  resolvers : List (String × Json) := []
  /-- Whether messages pass in binary form. -/
  binary : Bool := false
  /-- The declarations that the servers go by, if they are others than the gateway's. -/
  server : Option Pool := none

namespace Script

/-- A method as the server knows it. -/
def serverMethod (s : Script) (m : Method) : Method :=
  ((s.server.bind (·.service? m.service)).bind (·.method? m.name)).getD m

/-- The message of a call as the server reads it, if it can. -/
def received? (s : Script) (c : Call) : Option Message :=
  if s.binary then Message.decode? (s.serverMethod c.method).input c.message.encode
  else some c.message

/-- What a server sends: a message in binary form, or the status of its failure. -/
abbrev Sent := Reply (List UInt8)

def reply (t : MessageType) (j : Json) : Sent :=
  match readMessage t j with
  | .ok m => .ok m.encode
  | .error e => .error ⟨.internal, e.message, []⟩

/-- The bases that a request asks about. -/
def basesOf (request : Message) : List Message :=
  match (request.type.field? "bases").map request.get with
  | some (.list items) => items.filterMap fun
    | .message b => some b
    | _ => none
  | _ => []

/-- One result for each base; bases to be skipped get an empty one. -/
def resultsOf (request : Message) (each : Json) : Json :=
  let result (base : Message) : Json :=
    if (each.textsAt "skip").contains (fieldText base "id") then .object []
    else .object [(each.text "field",
      fillJson [('r', request), ('b', base)] (each.memberOrNull "value"))]
  .object [("values", .arr ((basesOf request).map result))]

/-- What a handler says to a request: a failure, a message in either form, one that is looked up by
a field of the request, or one result for each base. -/
def sent (m : Method) (request : Message) (handler : Json) : Sent :=
  let failing (x : Json) : Sent := .error (status (fill [('r', request)]) x)
  if let some x := handler.member? "status" then failing x
  else if let some j := handler.get? "json" then reply m.output (fillJson [('r', request)] j)
  else if let some text := handler.text? "hex" then .ok ((Hex.decode? text).getD [])
  else if let some x := handler.member? "lookup" then
    match (x.memberOrNull "map").get? (fieldText request (x.text "by")) with
    | some j => reply m.output j
    | none => failing (x.memberOrNull "missing")
  else if let some x := handler.member? "each" then reply m.output (resultsOf request x)
  else .error ⟨.unimplemented, m.fullName, []⟩

/-- The handler of the next call of a method. Calls that the server could not read do not count. -/
def handler? (s : Script) (history : List Call) (m : Method) : Option Json :=
  let count := history.countP fun c => c.method.fullName == m.fullName && (s.received? c).isSome
  match s.handlers.lookup m.fullName with
  | some (.arr list) => list[count]? <|> list.getLast?
  | h => h

def delay (handler : Json) : Option Nat :=
  if handler.flag "hang" then none else some ((handler.nat? "delay_ms").getD 0 * Timeout.perMilli)

/-- The answer to a call: from its handler, or else that there is none. A server that cannot read
the message says so at once. -/
def answerWith (s : Script) (history : List Call) (c : Call) (answer : Message → Json → Reply α) :
    Delayed (Reply α) :=
  let m := s.serverMethod c.method
  match s.received? c, s.handler? history c.method with
  | none, _ => ⟨some 0, .error (Channel.unreadable m.input)⟩
  | some _, none => ⟨some 0, .error ⟨.unimplemented, m.fullName, []⟩⟩
  | some request, some h => ⟨delay h, answer request h⟩

def unary (s : Script) (history : List Call) (c : Call) : Delayed (Reply Message) :=
  s.answerWith history c fun request h =>
    let reply := sent (s.serverMethod c.method) request h
    if s.binary then Channel.receive c.method reply else reply.bind (Channel.decode c.method.output)

/-- What a handler says to a request for a stream, all items at once. -/
def sentItems (m : Method) (request : Message) (handler : Json) : Reply (List (Delayed Sent)) :=
  match handler.member? "items" with
  | some (.arr items) => .ok (items.map fun i => ⟨delay i, sent m request i⟩)
  | _ => (sent m request handler).map fun bytes => [⟨some 0, .ok bytes⟩]

def stream (s : Script) (history : List Call) (c : Call) : Delayed (Reply Items) :=
  s.answerWith history c fun request h =>
    let reply := sentItems (s.serverMethod c.method) request h
    if s.binary then Channel.receiveStream c.method reply
    else reply.map fun items =>
      items.map fun i => ⟨i.after, i.value.bind (Channel.decode c.method.output)⟩

/-- A failure, values whatever the bases are, or values by the `id` of each base. -/
def consult (s : Script) (c : Consultation) : Resolution :=
  let x := (s.resolvers.lookup c.resolver).getD .null
  if let some e := x.member? "error" then .error (failure e)
  else if let some values := x.member? "values" then .ok (values.items.map (value? s.pools))
  else .ok (c.bases.map fun b =>
    ((x.memberOrNull "map").member? (fieldText b "id")).bind (value? s.pools))

def world (s : Script) : Downstream := ⟨s.unary, s.stream, s.consult⟩

end Script
end Patchwork
