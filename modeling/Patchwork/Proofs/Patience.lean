import Patchwork.Proofs.Deadlines

/-!
# Work that is dropped

Who waits for a batch, for a stream to open or for its next item may lose patience. Then the work is
dropped where it stands at that instant, and calls that have not settled by then are dropped with it.
With patience without end the work is that of serving.
-/

namespace Patchwork
open Proto

/-- Whether something comes before an instant after which nobody waits for it. -/
def inTime (limit : Option Nat) (t : Nat) : Bool := limit.all (t ≤ ·)

namespace Run

/-- Runs a batch to its end or to the instant at which it is dropped, `fuel` steps at most. -/
def finishBy (s : Setting) (limit : Option Nat) : Nat → Run → Ending × Run
  | 0, r => (.stuck, r)
  | fuel + 1, r =>
    match failure? r.ordered r.processes, nextDue 0 r.processes with
    | some (d, e), _ => (.failed d e, r)
    | none, some p => if inTime limit p.instant then finishBy s limit fuel (r.goOn s p) else (.stuck, r)
    | none, none => (if r.processes.any Process.isSleeping then .stuck else .complete, r)

/-- What has not come to its end is dropped when the patience ends. -/
def waitFor (limit : Option Nat) (r : Run) : Ending → Run
  | .stuck => { r with now := max r.now (limit.getD r.now) }
  | _ => r

end Run

/-- Runs stages from the instant `now` on to the end of all of them or until they are dropped. -/
def runBy (s : Setting) (limit : Option Nat) (now : Nat) (before : Journal) (stages : List Stage) :
    Ending × Run :=
  let start := Run.ofStages now before stages
  let (ending, run) := start.finishBy s limit (stepsOf start.processes + 1)
  let run := run.waitFor limit ending
  let fresh := run.journal.length - before.length
  (ending,
    { run with journal := (run.journal.take fresh).map (run.close ending) ++ run.journal.drop fresh })

/-- The instant after a span from a moment on, if the span ends. -/
def Moment.after (m : Moment) (patience : Option Nat) : Option Nat := patience.map (m.now + ·)

namespace Gateway

/-- Runs a batch that has been prepared and for which someone waits. None if it is dropped. -/
def runBatchBy (world : Downstream) (ctx : CallContext) (v : Verb) (patience : Option Nat) (m : Moment)
    (prepared : List Prepared) : Option (Outcome (List Response)) × Moment :=
  let (ending, run) := runBy (setting world ctx v) (m.after patience) m.now m.journal
    (prepared.map Stage.calling)
  let m := { m with now := run.now, journal := run.journal }
  match ending with
  | .complete => (some (.ok (responses prepared run.processes)), m)
  | .failed _ e => (some (.error e), m)
  | .stuck => (none, m)

/-- Serves a batch of requests for which someone waits. None if it is dropped before its end. -/
def serveBy (g : Gateway) (world : Downstream) (ctx : CallContext) (v : Verb) (patience : Option Nat)
    (m : Moment) (requests : List Request) : Option (Outcome (List Response)) × Moment :=
  let m := m.observe (.request v.label)
  let (result, m) : Option (Outcome (List Response)) × Moment :=
    match g.prepareAll v requests with
    | .error e => (some (.error e), m)
    | .ok prepared => runBatchBy world ctx v patience m prepared
  match result with
  | some (.error e) => (result, m.conclude v (some e))
  | _ => (result, m.conclude v none)

/-- Opens the stream of a request for which someone waits. None if it is dropped before it opens. -/
def openBy (g : Gateway) (world : Downstream) (ctx : CallContext) (patience : Option Nat) (m : Moment)
    (request : Option Request) : Option (Outcome Listening) × Moment :=
  match request with
  | none => (some (.error (.invalidArgument .missingRequest)), m)
  | some r => match g.prepare .listen r with
    | .error e => (some (.error e), m)
    | .ok p =>
      let (settled, reply, exchange) :=
        attempt (world.stream m.journal.calls) 0 m.now (p.call ctx m.now)
      match settled.filter (inTime (m.after patience)) with
      | none =>
        (none, { m with now := max m.now ((m.after patience).getD m.now),
                        journal := .called { exchange with dropped := true } :: m.journal })
      | some t =>
        let m := { m with now := t, journal := .called exchange :: m.journal }
        match reply with
        | .ok items => (some (.ok { request := p, items }), m)
        | .error s => (some (.error (.downstream s)), m)

/-- Starts to listen. The stream is dropped when nobody waits for it to open. -/
def listenBy (g : Gateway) (world : Downstream) (ctx : CallContext) (patience : Option Nat) (m : Moment)
    (request : Option Request) : Option (Outcome Listening) × Moment :=
  match g.openBy world ctx patience (m.observe (.request Verb.listen.label)) request with
  | (some (.error e), m) => (some (.error e), m.conclude .listen (some e))
  | (none, m) => (none, m.conclude .listen none)
  | r => r

end Gateway

namespace Listening

/-- The response to one item for which someone waits. -/
def respondBy (l : Listening) (world : Downstream) (ctx : CallContext) (patience : Option Nat)
    (m : Moment) (item : Message) (rest : Items) : Heard × Moment :=
  let p := l.request
  let s := Gateway.setting world ctx .listen
  let (ending, run) := runBy s (m.after patience) m.now m.journal
    [.stitching (.ofMessage item p.schema p.onError s.fallback)]
  let m := { m with now := run.now, journal := run.journal }
  match ending, run.processes with
  | .failed _ e, _ => (.failed e, m)
  | .complete, [.done d] =>
    (.response (Gateway.response p d l.first) { l with items := rest, first := false }, m)
  | _, _ => (.silent, m)

/-- Reads the next item if it comes while someone waits for it. -/
def nextBy (l : Listening) (world : Downstream) (ctx : CallContext) (patience : Option Nat)
    (m : Moment) : Heard × Moment :=
  match l.items with
  | [] => (.ended, m)
  | item :: rest => match item.after.filter (inTime patience) with
    | none => (.silent, m.wait (patience.getD 0))
    | some d =>
      let m := m.wait d
      match item.value with
      | .error s => (.failed (.downstream s), m)
      | .ok message => l.respondBy world ctx (patience.map (· - d)) m message rest

end Listening

/-! ## Patience without end -/

@[simp] theorem Moment.after_none (m : Moment) : m.after none = none := rfl

theorem filter_inTime_none (o : Option Nat) : o.filter (inTime none) = o := by
  cases o <;> rfl

namespace Run

theorem finishBy_none (s : Setting) (fuel : Nat) (r : Run) :
    r.finishBy s none fuel = r.finish s fuel := by
  induction fuel generalizing r with
  | zero => rfl
  | succ fuel ih =>
    unfold finish
    simp only [← ih]
    rfl

theorem waitFor_none (r : Run) (ending : Ending) : r.waitFor none ending = r := by
  cases ending <;> simp [waitFor]

end Run

theorem runBy_none (s : Setting) (now : Nat) (before : Journal) (stages : List Stage) :
    runBy s none now before stages = runAll s now before stages := by
  unfold runBy runAll
  simp only [Run.finishBy_none, Run.waitFor_none]

namespace Gateway

theorem serveBy_none (g : Gateway) (world : Downstream) (ctx : CallContext) (v : Verb) (m : Moment)
    (requests : List Request) :
    g.serveBy world ctx v none m requests = g.serve world ctx v m requests := by
  have run : ∀ m prepared, runBatchBy world ctx v none m prepared = runBatch world ctx v m prepared := by
    intro m prepared
    unfold runBatch
    rw [← runBy_none]
    rfl
  unfold serve
  simp only [← run]
  rfl

/-- A stream that opens in the end is waited for. -/
theorem listenBy_none {g : Gateway} {world : Downstream} {ctx : CallContext} {m : Moment}
    {request : Option Request} (opens : (g.listen world ctx m request).1.isSome) :
    g.listenBy world ctx none m request = g.listen world ctx m request := by
  unfold listenBy openBy
  unfold listen openStream at opens ⊢
  cases request with
  | none => rfl
  | some r =>
    dsimp only at opens ⊢
    cases hp : g.prepare .listen r with
    | error e => rfl
    | ok p =>
      rw [hp] at opens
      dsimp only at opens ⊢
      rcases ha : attempt (world.stream (m.observe (.request Verb.listen.label)).journal.calls) 0
        (m.observe (.request Verb.listen.label)).now
        (p.call ctx (m.observe (.request Verb.listen.label)).now) with ⟨settled, reply, exchange⟩
      rw [ha] at opens
      dsimp only at opens ⊢
      rw [Moment.after_none, filter_inTime_none]
      cases settled with
      | none => cases opens
      | some t => cases reply <;> rfl

end Gateway

theorem Listening.nextBy_none (l : Listening) (world : Downstream) (ctx : CallContext) (m : Moment) :
    l.nextBy world ctx none m = l.next world ctx m := by
  have respond : ∀ m item rest, l.respondBy world ctx none m item rest =
      l.respond world ctx m item rest := by
    intro m item rest
    unfold Listening.respond
    simp only [← runBy_none]
    rfl
  unfold nextBy next
  cases l.items with
  | nil => rfl
  | cons item rest =>
    dsimp only
    rw [filter_inTime_none]
    cases item.after with
    | none => rfl
    | some d =>
      dsimp only
      cases item.value with
      | error s => rfl
      | ok message => exact respond ..

end Patchwork
