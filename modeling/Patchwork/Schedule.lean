import Patchwork.Downstream
import Patchwork.Prepare

/-!
# Schedules

The requests of a batch run side by side. Each one goes from its own call through waves to its end
and sleeps while it waits; the one that is due first goes on. A failure ends the batch, and what the
others wait for is dropped.

Batches are of two sorts. A small one ends with the first failure, and of several processes due at
one instant the first in the batch goes on. A large one takes the outcomes in the order of the
batch: a failure behind a process that still runs is held back until that one has come to its end;
and of several processes due at one instant the one that went to sleep first goes on.
-/

namespace Patchwork
open Proto

/-- Where a request stands. -/
inductive Stage where
  | calling (p : Prepared)
  | stitching (p : Progress)

namespace Stage

/-- How many more steps a stage can take. -/
def rank : Stage → Nat
  | calling p => fieldsDepth p.schema.fields + 4
  | stitching p => p.rank + 2

end Stage

/-- One request of a batch. -/
inductive Process where
  /-- Sleeps until it is due; among those due at one instant it goes on in its place. -/
  | sleeping (due : Option Nat) (place : Nat) (stage : Stage)
  | done (body : Document)
  /-- Failed; the body is as far as it got. -/
  | failed (body : Document) (e : Failure)

namespace Process

def isSleeping : Process → Bool
  | sleeping .. => true
  | _ => false

def rank : Process → Nat
  | sleeping _ _ s => s.rank
  | _ => 0

end Process

/-- What a batch runs in. -/
structure Setting where
  world : Downstream
  ctx : CallContext
  /-- Whether failures are embedded where no policy is given. -/
  fallback : Bool

/-- The call to a request's own method. -/
def Prepared.call (p : Prepared) (ctx : CallContext) (now : Nat) : Call where
  method := p.entry.method
  transport := p.entry.transport
  message := p.input
  metadata := (ctx.withOperations p.operations).metadata
  timeout := ctx.callTimeout now p.entry.timeout

/-- What a request goes on with after its own call. -/
def Prepared.receive (p : Prepared) (fallback : Bool) : Reply Message → Progress
  | .ok m => .ofMessage m p.schema p.onError fallback
  | .error s =>
    let e := Failure.downstream s
    let d := Document.grow {} 1
    if shouldCatch p.onError fallback then
      .finished (d.fail 0 (errorValue e p.method (some p.entry.method.pool))) none
    else .finished d (some e)

/-- What one step of a process leads to. -/
inductive StepResult where
  | waits (due : Option Nat) (stage : Stage)
  | ends (body : Document) (failure : Option Failure)

/-- Takes a process on from its stage at the instant `now`. Its calls are marked with `owner`. -/
def Stage.step (s : Setting) (owner now : Nat) (journal : Journal) :
    Stage → StepResult × Journal
  | calling p =>
    let (instant, reply, exchange) :=
      attempt (s.world.unary journal.calls) owner now (p.call s.ctx now)
    (.waits instant (.stitching (p.receive s.fallback reply)), .called exchange :: journal)
  | stitching (.wave d batches) =>
    let (instant, results, journal) := resolveWave s.world s.ctx owner now batches journal
    (.waits instant (.stitching (.advance s.fallback d results)), journal)
  | stitching (.finished d failure) => (.ends d failure, journal)

/-- A process whose turn it is. -/
structure Due where
  index : Nat
  instant : Nat
  place : Nat
  stage : Stage

/-- Whether a process goes on before another one, or is the first of two equals. -/
def Due.precedes (a b : Due) : Bool :=
  a.instant < b.instant || a.instant == b.instant && a.place ≤ b.place

def Process.due? (index : Nat) : Process → Option Due
  | sleeping (some instant) place stage => some ⟨index, instant, place, stage⟩
  | _ => none

/-- The process that goes on next. -/
def nextDue (index : Nat) : List Process → Option Due
  | [] => none
  | p :: rest =>
    match p.due? index, nextDue (index + 1) rest with
    | some a, some b => if a.precedes b then some a else some b
    | some a, none => some a
    | none, r => r

/-- How a batch ended. -/
inductive Ending where
  /-- All requests came to their end. -/
  | complete
  /-- A request failed; the body is as far as it got. -/
  | failed (body : Document) (e : Failure)
  /-- Some request waits forever. -/
  | stuck

/-- A batch on its way. -/
structure Run where
  /-- Whether outcomes are taken in the order of the batch. -/
  ordered : Bool
  processes : List Process
  /-- The instant of the last step. -/
  now : Nat
  /-- The place of the process that took it. -/
  place : Nat := 0
  /-- The place of the next process that goes to sleep, when those are numbered. -/
  turn : Nat
  /-- Everything that happened, the last first. -/
  journal : Journal

namespace Run

/-- Lets a process take a step. One that does not have to wait keeps its place. -/
def goOn (s : Setting) (r : Run) (p : Due) : Run :=
  let owner := if r.ordered then r.turn else p.place
  let (result, journal) := p.stage.step s owner p.instant r.journal
  let process := match result with
    | .waits due stage => .sleeping due (if due = some p.instant then p.place else owner) stage
    | .ends d none => .done d
    | .ends d (some e) => .failed d e
  { r with processes := r.processes.set p.index process, now := p.instant, place := p.place
           turn := r.turn + 1, journal }

/-- The failure that ends a batch. -/
def failure? (ordered : Bool) : List Process → Option (Document × Failure)
  | [] => none
  | .failed d e :: _ => some (d, e)
  | .done _ :: rest => failure? ordered rest
  | .sleeping .. :: rest => if ordered then none else failure? ordered rest

/-- Runs a batch to its end, `fuel` steps at most. -/
def finish (s : Setting) : Nat → Run → Ending × Run
  | 0, r => (.stuck, r)
  | fuel + 1, r =>
    match failure? r.ordered r.processes, nextDue 0 r.processes with
    | some (d, e), _ => (.failed d e, r)
    | none, some p => finish s fuel (r.goOn s p)
    | none, none => (if r.processes.any Process.isSleeping then .stuck else .complete, r)

end Run

/-- The steps that a list of processes can take. -/
def stepsOf (ps : List Process) : Nat := ps.foldr (fun p n => p.rank + n) 0

/-- Whether a call had settled when the batch ended. At the instant of a failure the processes in
later places do not go on, so that of theirs only calls settle that were made at this instant. -/
def Run.hasSettled (r : Run) (ending : Ending) (e : Exchange) : Bool :=
  match e.settledAt, ending with
  | none, _ => false
  | some t, .failed .. => t < r.now || t == r.now && (e.owner ≤ r.place || e.sentAt == r.now)
  | some t, _ => t ≤ r.now

/-- Marks the calls of a batch that were dropped when it ended. -/
def Run.close (r : Run) (ending : Ending) : Event → Event
  | .called e => .called { e with dropped := !r.hasSettled ending e }
  | e => e

/-- Larger batches than this take the outcomes in order. -/
def eagerLimit : Nat := 30

/-- The batch of the stages, all of them due at the instant `now`. -/
def Run.ofStages (now : Nat) (before : Journal) (stages : List Stage) : Run where
  ordered := eagerLimit < stages.length
  processes := stages.zipIdx.map fun (stage, place) => .sleeping (some now) place stage
  now := now
  turn := stages.length
  journal := before

/-- Runs stages from the instant `now` on to the end of all of them. -/
def runAll (s : Setting) (now : Nat) (before : Journal) (stages : List Stage) : Ending × Run :=
  let start := Run.ofStages now before stages
  let (ending, run) := start.finish s (stepsOf start.processes + 1)
  let fresh := run.journal.length - before.length
  (ending,
    { run with journal := (run.journal.take fresh).map (run.close ending) ++ run.journal.drop fresh })

end Patchwork
