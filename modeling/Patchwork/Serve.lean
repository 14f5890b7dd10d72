import Patchwork.Meter
import Patchwork.Schedule

/-!
# Serving

The three verbs. A batch is prepared as a whole before anything is sent, run, and answered with
one response for each request. A stream is answered item by item; the first failure ends it.
-/

namespace Patchwork
open Proto

structure Response where
  method : String
  body : Json
  schema : Option Schema

def Response.toJson (r : Response) : Json :=
  .object ([("method", .str r.method), ("body", r.body)]
    ++ memberOf "schema" (r.schema.map Schema.toJson))

/-- What happened up to some instant. -/
structure Moment where
  now : Nat := 0
  journal : Journal := []
  /-- What the meters have counted of requests, the last first; downstream calls are counted from
  the journal. -/
  counted : List Observation := []

namespace Moment

def observe (m : Moment) (o : Observation) : Moment := { m with counted := o :: m.counted }

def wait (m : Moment) (span : Nat) : Moment := { m with now := m.now + span }

/-- All that the meters show. -/
def meter (m : Moment) : Meter :=
  .ofObservations (m.counted.reverse ++ m.journal.reverse.flatMap Event.observations)

/-- Counts the end of a request of a verb. -/
def conclude (m : Moment) (v : Verb) (failure : Option Failure) : Moment :=
  let m := match failure with
    | some e => m.observe (.error v.label e.code.name)
    | none => m
  m.observe (.duration v.label)

@[simp] theorem now_observe (m : Moment) (o : Observation) : (m.observe o).now = m.now := rfl
@[simp] theorem journal_observe (m : Moment) (o : Observation) :
    (m.observe o).journal = m.journal := rfl

@[simp] theorem now_conclude (m : Moment) (v : Verb) (failure : Option Failure) :
    (m.conclude v failure).now = m.now := by
  cases failure <;> rfl

@[simp] theorem journal_conclude (m : Moment) (v : Verb) (failure : Option Failure) :
    (m.conclude v failure).journal = m.journal := by
  cases failure <;> rfl

end Moment

namespace Gateway

def setting (world : Downstream) (ctx : CallContext) (v : Verb) : Setting :=
  ⟨world, ctx, v.catchesByDefault⟩

/-- The response to a request whose process came to its end. -/
def response (p : Prepared) (d : Document) (withSchema : Bool) : Response :=
  ⟨p.method, d.toJson 0, if withSchema then some p.schema else none⟩

/-- The responses of a finished batch. -/
def responses (prepared : List Prepared) (processes : List Process) : List Response :=
  (prepared.zip processes).map fun (p, process) => match process with
    | .done d => response p d true
    | _ => response p {} true

/-- Runs a batch that has been prepared. None if a call is never answered. -/
def runBatch (world : Downstream) (ctx : CallContext) (v : Verb) (m : Moment)
    (prepared : List Prepared) : Option (Outcome (List Response)) × Moment :=
  let (ending, run) := runAll (setting world ctx v) m.now m.journal (prepared.map Stage.calling)
  let m := { m with now := run.now, journal := run.journal }
  match ending with
  | .complete => (some (.ok (responses prepared run.processes)), m)
  | .failed _ e => (some (.error e), m)
  | .stuck => (none, m)

/-- Serves a batch of requests. -/
def serve (g : Gateway) (world : Downstream) (ctx : CallContext) (v : Verb) (m : Moment)
    (requests : List Request) : Option (Outcome (List Response)) × Moment :=
  let m := m.observe (.request v.label)
  let (result, m) : Option (Outcome (List Response)) × Moment :=
    match g.prepareAll v requests with
    | .error e => (some (.error e), m)
    | .ok prepared => runBatch world ctx v m prepared
  match result with
  | some (.error e) => (result, m.conclude v (some e))
  | _ => (result, m.conclude v none)

end Gateway

/-- Stitches patches into a document on their own. None if a call is never answered. -/
def stitch (s : Setting) (m : Moment) (d : Document) (patches : List Patch) :
    Option (Document × Option Failure) × Moment :=
  let (ending, run) := runAll s m.now m.journal [.stitching (.enter ⟨d, patches⟩)]
  let m := { m with now := run.now, journal := run.journal }
  match ending, run.processes with
  | .failed d e, _ => (some (d, some e), m)
  | .complete, [.done d] => (some (d, none), m)
  | _, _ => (none, m)

/-- A stream that is being listened to. -/
structure Listening where
  request : Prepared
  items : Items
  /-- Whether nothing was read yet. -/
  first : Bool := true

namespace Gateway

/-- Opens the stream of a request. None if it never opens. -/
def openStream (g : Gateway) (world : Downstream) (ctx : CallContext) (m : Moment)
    (request : Option Request) : Option (Outcome Listening) × Moment :=
  match request with
  | none => (some (.error (.invalidArgument .missingRequest)), m)
  | some r => match g.prepare .listen r with
    | .error e => (some (.error e), m)
    | .ok p =>
      let (settled, reply, exchange) :=
        attempt (world.stream m.journal.calls) 0 m.now (p.call ctx m.now)
      let m := { m with journal := .called exchange :: m.journal }
      match settled with
      | none => (none, m)
      | some t =>
        let m := { m with now := t }
        match reply with
        | .ok items => (some (.ok { request := p, items }), m)
        | .error s => (some (.error (.downstream s)), m)

/-- Starts to listen, which lasts until the stream ends or is dropped. -/
def listen (g : Gateway) (world : Downstream) (ctx : CallContext) (m : Moment)
    (request : Option Request) : Option (Outcome Listening) × Moment :=
  match g.openStream world ctx (m.observe (.request Verb.listen.label)) request with
  | (some (.error e), m) => (some (.error e), m.conclude .listen (some e))
  | r => r

end Gateway

/-- What reading from a stream gives. -/
inductive Heard where
  | response (r : Response) (rest : Listening)
  /-- A failure, after which nothing follows. -/
  | failed (e : Failure)
  | ended
  /-- The next item never comes. -/
  | silent

namespace Listening

/-- The response to one item. -/
def respond (l : Listening) (world : Downstream) (ctx : CallContext) (m : Moment) (item : Message)
    (rest : Items) : Heard × Moment :=
  let p := l.request
  let s := Gateway.setting world ctx .listen
  let (ending, run) := runAll s m.now m.journal
    [.stitching (.ofMessage item p.schema p.onError s.fallback)]
  let m := { m with now := run.now, journal := run.journal }
  match ending, run.processes with
  | .failed _ e, _ => (.failed e, m)
  | .complete, [.done d] =>
    (.response (Gateway.response p d l.first) { l with items := rest, first := false }, m)
  | _, _ => (.silent, m)

/-- Reads the next item. -/
def next (l : Listening) (world : Downstream) (ctx : CallContext) (m : Moment) : Heard × Moment :=
  match l.items with
  | [] => (.ended, m)
  | item :: rest => match item.after with
    | none => (.silent, m)
    | some d =>
      let m := m.wait d
      match item.value with
      | .error s => (.failed (.downstream s), m)
      | .ok message => l.respond world ctx m message rest

/-- Reads `count` items at most and then drops the stream. -/
def readFor (world : Downstream) (ctx : CallContext) :
    Nat → Listening → Moment → List (Outcome Response) × Moment
  | 0, _, m => ([], m.conclude .listen none)
  | count + 1, l, m => match l.next world ctx m with
    | (.response r rest, m) =>
      let (rs, m) := readFor world ctx count rest m
      (.ok r :: rs, m)
    | (.failed e, m) => ([.error e], m.conclude .listen (some e))
    | (_, m) => ([], m.conclude .listen none)

/-- Reads `limit` items at most, or all of them. -/
def read (l : Listening) (world : Downstream) (ctx : CallContext) (m : Moment) (limit : Option Nat) :
    List (Outcome Response) × Moment :=
  readFor world ctx (min (l.items.length + 1) (limit.getD (l.items.length + 1))) l m

end Listening
end Patchwork
