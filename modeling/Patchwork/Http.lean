import Patchwork.Drain
import Patchwork.Json.Parser
import Patchwork.Json.Printer
import Patchwork.Serve
import Patchwork.Text.Address

/-!
# The gateway over HTTP

Each verb is a route that takes JSON. A batch is answered with JSON, a stream with one event for
each item. While the gateway drains, the verbs are refused; each admitted request holds a guard, a
stream until its body ends.
-/

namespace Patchwork

structure HttpRequest where
  method : String
  path : String
  headers : Fields
  body : List UInt8

/-- An event of a stream: its name and its data. -/
structure StreamEvent where
  name : String
  data : Json

/-- A response to a listener, to be read item by item. -/
structure EventStream where
  listening : Listening
  ctx : CallContext
  guard : Option Nat

inductive HttpBody where
  | empty
  | json (j : Json)
  | text (s : String)
  | events (stream : EventStream)

structure HttpResponse where
  status : Nat
  contentType : String := ""
  body : HttpBody := .empty

namespace HttpResponse

def ofJson (status : Nat) (j : Json) : HttpResponse := ⟨status, "application/json", .json j⟩

def ofFailure (e : Failure) : HttpResponse := ofJson e.code.httpStatus e.body

/-- The same response without its body; of a text there is still the text, an empty one. -/
def head (r : HttpResponse) : HttpResponse :=
  { r with body := match r.body with
    | .text _ => .text ""
    | _ => .empty }

end HttpResponse

/-- What answers at a path. -/
inductive Route where
  | verb (v : Verb)
  | health
  | metrics
  deriving DecidableEq, Repr

def verbPath (v : Verb) : String := "/" ++ gatewayService ++ "/" ++ v.methodName

structure Server where
  gateway : Gateway
  world : Downstream
  drain : Option Drain := none
  moment : Moment := {}

namespace Server

def route? (s : Server) (path : String) : Option Route :=
  let path := Address.path path
  if path = verbPath .fetch then some (.verb .fetch)
  else if path = verbPath .act then some (.verb .act)
  else if path = verbPath .listen then some (.verb .listen)
  else if path = "/health" then some .health
  else if path = "/metrics" ∧ s.gateway.metrics then some .metrics
  else none

def isDraining (s : Server) : Bool := s.drain.any Drain.isDraining

def inFlight (s : Server) : Nat := (s.drain.map Drain.inFlight).getD 0

def trigger (s : Server) : Server :=
  { s with drain := s.drain.map (·.trigger s.moment.now) }

/-- Takes in a request, which holds a guard from then on. -/
def enter (s : Server) : Outcome (Option Nat × Server) :=
  match s.drain with
  | none => .ok (none, s)
  | some d =>
    if d.isDraining then .error (.downstream ⟨.unavailable, "gateway is shutting down", []⟩)
    else
      let (guard, d) := d.track
      .ok (some guard, { s with drain := some d })

def release (s : Server) : Option Nat → Server
  | none => s
  | some guard => { s with drain := s.drain.map (·.release guard) }

/-- The context that the headers of a request give. -/
def context (s : Server) (headers : Fields) : CallContext :=
  let ctx : CallContext := { metadata := s.gateway.policy.metadata headers }
  match Timeout.ofHeaders? headers with
  | some t => ctx.withTimeout s.moment.now t
  | none => ctx

def healthJson (s : Server) : Json :=
  .object [("status", .str (if s.isDraining then "draining" else "healthy")),
    ("methods", .ofNat s.gateway.entryPoints.length),
    ("relations", .ofNat s.gateway.relations.length)]

/-- The result of a batch as a response. -/
def batchResponse : Outcome (List Response) → HttpResponse
  | .ok rs => .ofJson 200 (.object [("responses", .arr (rs.map Response.toJson))])
  | .error e => .ofFailure e

/-- Answers a batch, without the guard. None if a call is never answered. -/
def answerBatch (s : Server) (v : Verb) (r : HttpRequest) : Option HttpResponse × Server :=
  match (Json.Source.parseBytes? r.body).bind (FetchRequest.ofSource? Json.maxDepth) with
  | none => (some (.ofFailure (.invalidArgument .envelope)), s)
  | some fetch =>
    let (result, m) := s.gateway.serve s.world (s.context r.headers) v s.moment fetch.requests
    (result.map batchResponse, { s with moment := m })

/-- Opens a stream, whose body keeps the guard. None if it never opens. -/
def answerListen (s : Server) (guard : Option Nat) (r : HttpRequest) : Option HttpResponse × Server :=
  match (Json.Source.parseBytes? r.body).bind (ListenRequest.ofSource? Json.maxDepth) with
  | none => (some (.ofFailure (.invalidArgument .envelope)), s.release guard)
  | some listen =>
    let ctx := s.context r.headers
    let (result, m) := s.gateway.listen s.world ctx s.moment listen.request
    let s := { s with moment := m }
    match result with
    | none => (none, s)
    | some (.error e) => (some (.ofFailure e), s.release guard)
    | some (.ok listening) => (some ⟨200, "text/event-stream", .events ⟨listening, ctx, guard⟩⟩, s)

def answerVerb (s : Server) (v : Verb) (r : HttpRequest) : Option HttpResponse × Server :=
  match s.enter with
  | .error e => (some (.ofFailure e), s)
  | .ok (guard, s) => match v with
    | .listen => s.answerListen guard r
    | v =>
      let (response, s) := s.answerBatch v r
      (response, s.release guard)

/-- A page that is asked for by GET or, without its body, by HEAD. -/
def answerPage (method : String) (page : HttpResponse) : HttpResponse :=
  if method = "GET" then page else if method = "HEAD" then page.head else ⟨405, "", .empty⟩

/-- Answers a request up to the head of the response. None if a call is never answered. -/
def answer (s : Server) (r : HttpRequest) : Option HttpResponse × Server :=
  match s.route? r.path with
  | none => (some ⟨404, "", .empty⟩, s)
  | some .health =>
    (some (answerPage r.method (.ofJson (if s.isDraining then 503 else 200) s.healthJson)), s)
  | some .metrics =>
    (some (answerPage r.method ⟨200, "text/plain; version=0.0.4", .text s.moment.meter.render⟩), s)
  | some (.verb v) => if r.method = "POST" then s.answerVerb v r else (some ⟨405, "", .empty⟩, s)

def eventOf : Outcome Response → StreamEvent
  | .ok r => ⟨"message", .object [("response", r.toJson)]⟩
  | .error e => ⟨"error", e.body⟩

/-- Reads a stream to its end. -/
def readEvents (s : Server) (stream : EventStream) : List StreamEvent × Server :=
  let (items, m) := stream.listening.read s.world stream.ctx s.moment none
  (items.map eventOf, { s with moment := m }.release stream.guard)

end Server
end Patchwork
