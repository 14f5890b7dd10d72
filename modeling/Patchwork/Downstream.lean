import Patchwork.CallContext
import Patchwork.Stitch
import Patchwork.Timeout

/-!
# Downstream calls

What the gateway asks of the servers behind it, how long it waits, and what is kept of each call.
What a server answers may depend on the calls made before; when it answers is part of its answer.
-/

namespace Patchwork
open Proto

/-- A call as it is handed to a transport. -/
structure Call where
  method : Method
  transport : Transport
  message : Message
  metadata : Metadata
  timeout : Option Nat

/-- Whether the timeout of a call has a text. A call without one cannot be sent. -/
def Call.isWritable (c : Call) : Bool := c.timeout.all fun t => (Timeout.write? t).isSome

/-- A question to a resolver that is not backed by a method. -/
structure Consultation where
  resolver : String
  relation : String
  bases : List Message
  params : Option Message
  metadata : Metadata

/-- Something that comes after a while, or never. -/
structure Delayed (α : Type) where
  after : Option Nat
  value : α

abbrev Reply (α : Type) := Except Status α

/-- The items of a stream, each coming a while after it was asked for. -/
abbrev Items := List (Delayed (Reply Message))

/-- Everything behind the gateway. The calls made before are given, the last one first. -/
structure Downstream where
  unary : List Call → Call → Delayed (Reply Message)
  stream : List Call → Call → Delayed (Reply Items)
  consult : Consultation → Resolution

/-- What is kept of one attempt to call. -/
structure Exchange where
  /-- The place in which a request of a batch waits for the answer. -/
  owner : Nat
  call : Call
  sentAt : Nat
  /-- Whether there was time to send it. -/
  sent : Bool
  /-- When the answer comes. -/
  answeredAt : Option Nat
  /-- When the gateway stops waiting. -/
  settledAt : Option Nat
  /-- The code that it settles with, if it fails. -/
  failure : Option Code
  /-- Whether it was dropped before it settled. -/
  dropped : Bool := false

inductive Event where
  | called (e : Exchange)
  | consulted (owner instant : Nat) (c : Consultation)
  /-- A batch of bases was resolved. -/
  | resolved (method : String) (bases : Nat)

/-- The attempt to call that an event is. -/
def Event.exchange? : Event → Option Exchange
  | called e => some e
  | _ => none

/-- Everything that happened, the last first. -/
abbrev Journal := List Event

namespace Journal

/-- The calls that reached a transport, the last first. -/
def calls (j : Journal) : List Call :=
  j.filterMap fun
    | .called e => if e.sent then some e.call else none
    | _ => none

/-- Whether a call was to be sent whose timeout has no text. What follows it in the journal is void,
for the program breaks off there. -/
def isBroken (j : Journal) : Bool := j.calls.any fun c => !c.isWritable

end Journal

/-- The status of a call that there is no time for. -/
def lateStatus (m : Method) : Status :=
  ⟨.deadlineExceeded, "deadline exceeded calling " ++ m.fullName, []⟩

/-- When a call settles and how: by its answer if that comes in time, else by its timeout. -/
def settle (c : Call) (now : Nat) (answer : Delayed (Reply α)) : Option Nat × Reply α :=
  match c.timeout, answer.after with
  | none, after => (after.map (now + ·), answer.value)
  | some t, some d =>
    if d ≤ t then (some (now + d), answer.value) else (some (now + t), .error (lateStatus c.method))
  | some t, none => (some (now + t), .error (lateStatus c.method))

def codeOf : Reply α → Option Code
  | .ok _ => none
  | .error s => some s.code

/-- Makes a call, unless there is no time left for it. -/
def attempt (answer : Call → Delayed (Reply α)) (owner now : Nat) (c : Call) :
    Option Nat × Reply α × Exchange :=
  if c.timeout = some 0 then
    let reply : Reply α := .error (lateStatus c.method)
    (some now, reply,
      { owner, call := c, sentAt := now, sent := false, answeredAt := none, settledAt := some now,
        failure := codeOf reply })
  else
    let a := answer c
    let (settledAt, reply) := settle c now a
    (settledAt, reply,
      { owner, call := c, sentAt := now, sent := true, answeredAt := a.after.map (now + ·),
        settledAt, failure := codeOf reply })

/-- The call with which a batch is resolved. -/
def Batch.call (b : Batch) (ctx : CallContext) (now : Nat) (transport : Transport)
    (timeout : Option Nat) (message : Message) : Call where
  method := b.relation.method
  transport := transport
  message := message
  metadata := (ctx.withOperations b.operations).metadata
  timeout := ctx.callTimeout now timeout

/-- What resolving a batch comes to: when, with what result and with what events, the last
first. -/
structure Resolved where
  instant : Option Nat
  result : Resolution
  events : List Event

/-- Resolves a batch at the instant `now`. -/
def Batch.resolve (b : Batch) (world : Downstream) (ctx : CallContext) (owner now : Nat)
    (before : Journal) : Resolved :=
  let size := Event.resolved b.relation.method.fullName b.entries.length
  match b.relation.resolver with
  | .custom name =>
    let c : Consultation :=
      { resolver := name, relation := b.relation.name, bases := b.bases,
        params := b.params.map (·.message), metadata := (ctx.withOperations b.operations).metadata }
    ⟨some now, world.consult c >>= b.check, [.consulted owner now c, size]⟩
  | .method transport timeout =>
    match b.relation.request b.bases (b.params.map (·.message)) with
    | .error e => ⟨some now, .error e, [size]⟩
    | .ok message =>
      let (instant, reply, exchange) :=
        attempt (world.unary before.calls) owner now (b.call ctx now transport timeout message)
      let result := match reply with
        | .ok m => b.relation.valuesOf m >>= b.check
        | .error s => .error (.downstream s)
      ⟨instant, result, [.called exchange, size]⟩

/-- The later of two instants, never if one of them is. -/
def later : Option Nat → Option Nat → Option Nat
  | some a, some b => some (max a b)
  | _, _ => none

/-- Resolves the batches of a wave, all of them starting at `now`, and waits for the last. -/
def resolveWave (world : Downstream) (ctx : CallContext) (owner now : Nat) :
    List Batch → Journal → Option Nat × List (Batch × Resolution) × Journal
  | [], journal => (some now, [], journal)
  | b :: rest, journal =>
    let r := b.resolve world ctx owner now journal
    let (last, results, journal) := resolveWave world ctx owner now rest (r.events ++ journal)
    (later r.instant last, (b, r.result) :: results, journal)

end Patchwork
