import Patchwork.Proofs.Forwarding
import Patchwork.Proofs.Written

/-!
# Headers that do not go on have no influence

Two requests that differ only in headers that do not go on are answered alike and lead to the same
calls. Where the order of headers of different names differs, the metadata has the same values under
each name, and the two runs agree step by step if what is behind the gateway reads metadata by name.
-/

namespace Patchwork
open Proto

/-! ## The same values under each name -/

/-- Metadata with the same values under each name. -/
def Metadata.Same (m m' : Metadata) : Prop := ∀ name, m.values name = m'.values name

theorem Metadata.Same.withOperations {m m' : Metadata} (h : m.Same m') (operations : List String) :
    (m.withOperations operations).Same (m'.withOperations operations) := by
  intro name
  by_cases own : name = operationsName
  · rw [own, values_withOperations, values_withOperations]
  · rw [values_of_ne _ _ own, values_of_ne _ _ own, h name]

/-- Contexts that differ in the order of their metadata at most. -/
inductive CallContext.Same (ctx : CallContext) : CallContext → Prop
  | mk {m : Metadata} (h : ctx.metadata.Same m) : ctx.Same { ctx with metadata := m }

inductive Call.Same (c : Call) : Call → Prop
  | mk {m : Metadata} (h : c.metadata.Same m) : c.Same { c with metadata := m }

inductive Consultation.Same (c : Consultation) : Consultation → Prop
  | mk {m : Metadata} (h : c.metadata.Same m) : c.Same { c with metadata := m }

inductive Exchange.Same (e : Exchange) : Exchange → Prop
  | mk {c : Call} (h : e.call.Same c) : e.Same { e with call := c }

inductive Event.Same : Event → Event → Prop
  | called {e e' : Exchange} (h : e.Same e') : Same (.called e) (.called e')
  | consulted (owner instant : Nat) {c c' : Consultation} (h : c.Same c') :
      Same (.consulted owner instant c) (.consulted owner instant c')
  | resolved (method : String) (bases : Nat) :
      Same (.resolved method bases) (.resolved method bases)

/-- Journals of the same events. -/
abbrev Journal.Same : Journal → Journal → Prop := List.Forall₂ Event.Same

theorem Journal.Same.calls {j j' : Journal} (h : j.Same j') :
    List.Forall₂ Call.Same j.calls j'.calls := by
  refine List.rel_filterMap (fun _ _ event => ?_) h
  cases event with
  | called exchange =>
    cases exchange with
    | mk call =>
      dsimp only
      split
      · exact .some call
      · exact .none
  | consulted => exact .none
  | resolved => exact .none

/-- What is behind the gateway reads metadata by name. -/
structure Downstream.ReadsByName (world : Downstream) : Prop where
  unary : ∀ {before before' : List Call} {c c' : Call}, List.Forall₂ Call.Same before before' →
    c.Same c' → world.unary before c = world.unary before' c'
  stream : ∀ {before before' : List Call} {c c' : Call}, List.Forall₂ Call.Same before before' →
    c.Same c' → world.stream before c = world.stream before' c'
  consult : ∀ {c c' : Consultation}, c.Same c' → world.consult c = world.consult c'

/-- Attempts of the same call come to the same. -/
theorem attempt_alike {answer answer' : Call → Delayed (Reply α)} (owner now : Nat) {c c' : Call}
    (same : c.Same c') (answered : answer c = answer' c') :
    ∃ settled reply e e', attempt answer owner now c = (settled, reply, e) ∧
      attempt answer' owner now c' = (settled, reply, e') ∧ e.Same e' := by
  cases same with
  | mk h =>
    unfold attempt
    split
    · exact ⟨_, _, _, _, rfl, rfl, .mk (.mk h)⟩
    · rw [← answered]
      exact ⟨_, _, _, _, rfl, rfl, .mk (.mk h)⟩

section

variable {world : Downstream} {ctx ctx' : CallContext}

theorem Batch.call_alike (same : ctx.Same ctx') (b : Batch) (now : Nat) (transport : Transport)
    (timeout : Option Nat) (message : Message) :
    (b.call ctx now transport timeout message).Same
      (b.call ctx' now transport timeout message) := by
  cases same with
  | mk h => exact .mk (h.withOperations b.operations)

theorem Prepared.call_alike (same : ctx.Same ctx') (p : Prepared) (now : Nat) :
    (p.call ctx now).Same (p.call ctx' now) := by
  cases same with
  | mk h => exact .mk (h.withOperations p.operations)

theorem Batch.resolve_alike (reads : world.ReadsByName) (same : ctx.Same ctx') (b : Batch)
    (owner now : Nat) {before before' : Journal} (journals : before.Same before') :
    ∃ instant result events events',
      b.resolve world ctx owner now before = ⟨instant, result, events⟩ ∧
      b.resolve world ctx' owner now before' = ⟨instant, result, events'⟩ ∧
      Journal.Same events events' := by
  unfold Batch.resolve
  cases b.relation.resolver with
  | custom name =>
    cases same with
    | mk h =>
      dsimp only
      rw [reads.consult (.mk (h.withOperations b.operations))]
      exact ⟨_, _, _, _, rfl, rfl,
        .cons (.consulted owner now (.mk (h.withOperations _))) (.cons (.resolved ..) .nil)⟩
  | method transport timeout =>
    dsimp only
    split
    · exact ⟨_, _, _, _, rfl, rfl, .cons (.resolved ..) .nil⟩
    · next message _ =>
      have call := b.call_alike same now transport timeout message
      obtain ⟨settled, reply, e, e', left, right, exchange⟩ :=
        attempt_alike owner now call (reads.unary journals.calls call)
      rw [left, right]
      exact ⟨_, _, _, _, rfl, rfl, .cons (.called exchange) (.cons (.resolved ..) .nil)⟩

theorem resolveWave_alike (reads : world.ReadsByName) (same : ctx.Same ctx') (owner now : Nat)
    (batches : List Batch) {journal journal' : Journal} (journals : journal.Same journal') :
    ∃ instant results later later',
      resolveWave world ctx owner now batches journal = (instant, results, later) ∧
      resolveWave world ctx' owner now batches journal' = (instant, results, later') ∧
      Journal.Same later later' := by
  induction batches generalizing journal journal' with
  | nil => exact ⟨_, _, _, _, rfl, rfl, journals⟩
  | cons b rest ih =>
    obtain ⟨_, _, events, events', left, right, fresh⟩ :=
      b.resolve_alike reads same owner now journals
    obtain ⟨_, _, _, _, left', right', later⟩ := ih (List.rel_append fresh journals)
    unfold resolveWave
    rw [left, right]
    dsimp only
    rw [left', right']
    exact ⟨_, _, _, _, rfl, rfl, later⟩

theorem Stage.step_alike (reads : world.ReadsByName) (same : ctx.Same ctx') (fallback : Bool)
    (owner now : Nat) (stage : Stage) {journal journal' : Journal}
    (journals : journal.Same journal') :
    ∃ result later later', stage.step ⟨world, ctx, fallback⟩ owner now journal = (result, later) ∧
      stage.step ⟨world, ctx', fallback⟩ owner now journal' = (result, later') ∧
      Journal.Same later later' := by
  cases stage with
  | calling p =>
    have call := p.call_alike same now
    obtain ⟨settled, reply, e, e', left, right, exchange⟩ :=
      attempt_alike owner now call (reads.unary journals.calls call)
    unfold Stage.step
    dsimp only
    rw [left, right]
    exact ⟨_, _, _, rfl, rfl, .cons (.called exchange) journals⟩
  | stitching progress =>
    cases progress with
    | wave d batches =>
      obtain ⟨_, _, _, _, left, right, later⟩ :=
        resolveWave_alike reads same owner now batches journals
      unfold Stage.step
      dsimp only
      rw [left, right]
      exact ⟨_, _, _, rfl, rfl, later⟩
    | finished d failure => exact ⟨_, _, _, rfl, rfl, journals⟩

/-- Runs that differ in the order of metadata at most. -/
inductive Run.Same (r : Run) : Run → Prop
  | mk {journal : Journal} (h : r.journal.Same journal) : r.Same { r with journal }

theorem Run.goOn_alike (reads : world.ReadsByName) (same : ctx.Same ctx') (fallback : Bool)
    (p : Due) {r r' : Run} (runs : r.Same r') :
    (r.goOn ⟨world, ctx, fallback⟩ p).Same (r'.goOn ⟨world, ctx', fallback⟩ p) := by
  cases runs with
  | mk journals =>
    obtain ⟨result, later, later', left, right, h⟩ := p.stage.step_alike reads same fallback
      (if r.ordered then r.turn else p.place) p.instant journals
    unfold Run.goOn
    dsimp only
    rw [left, right]
    exact .mk h

theorem Run.finish_alike (reads : world.ReadsByName) (same : ctx.Same ctx') (fallback : Bool)
    (fuel : Nat) {r r' : Run} (runs : r.Same r') : ∃ ending q q',
      r.finish ⟨world, ctx, fallback⟩ fuel = (ending, q) ∧
      r'.finish ⟨world, ctx', fallback⟩ fuel = (ending, q') ∧ q.Same q' := by
  induction fuel generalizing r r' with
  | zero => exact ⟨_, _, _, rfl, rfl, runs⟩
  | succ fuel ih =>
    cases runs with
    | mk journals =>
      unfold Run.finish
      dsimp only
      cases failure? r.ordered r.processes with
      | some failure => exact ⟨_, _, _, rfl, rfl, .mk journals⟩
      | none =>
        cases nextDue 0 r.processes with
        | some p => exact ih (Run.goOn_alike reads same fallback p (.mk journals))
        | none => exact ⟨_, _, _, rfl, rfl, .mk journals⟩

/-- Whether a call was dropped does not depend on what it carried. -/
theorem Run.close_alike (r : Run) (ending : Ending) {j j' : Journal} (h : j.Same j') :
    Journal.Same (j.map (r.close ending)) (j'.map (r.close ending)) := by
  refine List.rel_map (fun _ _ event => ?_) h
  cases event with
  | called exchange =>
    cases exchange with
    | mk call => exact .called (.mk call)
  | consulted owner instant h => exact .consulted owner instant h
  | resolved => exact .resolved ..

theorem runAll_alike (reads : world.ReadsByName) (same : ctx.Same ctx') (fallback : Bool)
    (now : Nat) (stages : List Stage) {before before' : Journal} (journals : before.Same before') :
    ∃ ending q q', runAll ⟨world, ctx, fallback⟩ now before stages = (ending, q) ∧
      runAll ⟨world, ctx', fallback⟩ now before' stages = (ending, q') ∧ q.Same q' := by
  have start : (Run.ofStages now before stages).Same (Run.ofStages now before' stages) :=
    .mk journals
  obtain ⟨ending, q, q', left, right, runs⟩ := Run.finish_alike reads same fallback
    (stepsOf (Run.ofStages now before stages).processes + 1) start
  have right' : (Run.ofStages now before' stages).finish ⟨world, ctx', fallback⟩
      (stepsOf (Run.ofStages now before' stages).processes + 1) = (ending, q') := right
  unfold runAll
  dsimp only
  rw [left, right']
  cases runs with
  | @mk journal h =>
    refine ⟨_, _, _, rfl, rfl, ?_⟩
    -- as many events are fresh in both runs
    dsimp only
    rw [← h.length_eq, ← journals.length_eq]
    have closed := Run.close_alike q ending (List.forall₂_take (q.journal.length - before.length) h)
    exact .mk (List.rel_append closed (List.forall₂_drop _ h))

end

/-! ## Serving -/

/-- Moments that differ in the order of metadata at most. -/
inductive Moment.Same (m : Moment) : Moment → Prop
  | mk {journal : Journal} (h : m.journal.Same journal) : m.Same { m with journal }

theorem Moment.Same.conclude {m m' : Moment} (h : m.Same m') (v : Verb) (failure : Option Failure) :
    (m.conclude v failure).Same (m'.conclude v failure) := by
  cases h with
  | mk h => cases failure <;> exact .mk h

theorem Moment.Same.observe {m m' : Moment} (h : m.Same m') (o : Observation) :
    (m.observe o).Same (m'.observe o) := by
  cases h with
  | mk h => exact .mk h

section

variable {world : Downstream} {ctx ctx' : CallContext} {m m' : Moment}

theorem Gateway.runBatch_alike (reads : world.ReadsByName) (same : ctx.Same ctx') (v : Verb)
    (moments : m.Same m') (prepared : List Prepared) : ∃ result q q',
      runBatch world ctx v m prepared = (result, q) ∧
      runBatch world ctx' v m' prepared = (result, q') ∧ q.Same q' := by
  cases moments with
  | mk journals =>
    obtain ⟨ending, r, r', left, right, runs⟩ := runAll_alike reads same v.catchesByDefault m.now
      (prepared.map Stage.calling) journals
    unfold runBatch setting
    dsimp only
    rw [left, right]
    cases runs with
    | mk h => cases ending <;> exact ⟨_, _, _, rfl, rfl, .mk h⟩

theorem Gateway.serve_alike (g : Gateway) (reads : world.ReadsByName) (same : ctx.Same ctx')
    (v : Verb) (moments : m.Same m') (requests : List Request) : ∃ result q q',
      g.serve world ctx v m requests = (result, q) ∧
      g.serve world ctx' v m' requests = (result, q') ∧ q.Same q' := by
  have counted := moments.observe (.request v.label)
  unfold serve
  dsimp only
  cases g.prepareAll v requests with
  | error e => exact ⟨_, _, _, rfl, rfl, counted.conclude v (some e)⟩
  | ok prepared =>
    obtain ⟨result, q, q', left, right, later⟩ := runBatch_alike reads same v counted prepared
    dsimp only
    rw [left, right]
    rcases result with _ | e | responses
    · exact ⟨_, _, _, rfl, rfl, later.conclude v none⟩
    · exact ⟨_, _, _, rfl, rfl, later.conclude v (some e)⟩
    · exact ⟨_, _, _, rfl, rfl, later.conclude v none⟩

theorem Gateway.openStream_alike (g : Gateway) (reads : world.ReadsByName) (same : ctx.Same ctx')
    (moments : m.Same m') (request : Option Request) : ∃ result q q',
      g.openStream world ctx m request = (result, q) ∧
      g.openStream world ctx' m' request = (result, q') ∧ q.Same q' := by
  unfold openStream
  cases request with
  | none => exact ⟨_, _, _, rfl, rfl, moments⟩
  | some r =>
    dsimp only
    cases g.prepare .listen r with
    | error e => exact ⟨_, _, _, rfl, rfl, moments⟩
    | ok p =>
      cases moments with
      | mk journals =>
        have call := p.call_alike same m.now
        obtain ⟨settled, reply, e, e', left, right, exchange⟩ :=
          attempt_alike 0 m.now call (reads.stream journals.calls call)
        dsimp only
        rw [left, right]
        cases settled with
        | none => exact ⟨_, _, _, rfl, rfl, .mk (.cons (.called exchange) journals)⟩
        | some t =>
          cases reply <;> exact ⟨_, _, _, rfl, rfl, .mk (.cons (.called exchange) journals)⟩

theorem Gateway.listen_alike (g : Gateway) (reads : world.ReadsByName) (same : ctx.Same ctx')
    (moments : m.Same m') (request : Option Request) : ∃ result q q',
      g.listen world ctx m request = (result, q) ∧
      g.listen world ctx' m' request = (result, q') ∧ q.Same q' := by
  obtain ⟨result, q, q', left, right, later⟩ :=
    g.openStream_alike reads same (moments.observe (.request Verb.listen.label)) request
  unfold listen
  rw [left, right]
  rcases result with _ | e | listening
  · exact ⟨_, _, _, rfl, rfl, later⟩
  · exact ⟨_, _, _, rfl, rfl, later.conclude .listen (some e)⟩
  · exact ⟨_, _, _, rfl, rfl, later⟩

namespace Listening

theorem respond_alike (l : Listening) (reads : world.ReadsByName) (same : ctx.Same ctx')
    (moments : m.Same m') (item : Message) (rest : Items) : ∃ heard q q',
      l.respond world ctx m item rest = (heard, q) ∧
      l.respond world ctx' m' item rest = (heard, q') ∧ q.Same q' := by
  cases moments with
  | mk journals =>
    obtain ⟨ending, r, r', left, right, runs⟩ :=
      runAll_alike reads same Verb.listen.catchesByDefault m.now [.stitching (.ofMessage item
        l.request.schema l.request.onError Verb.listen.catchesByDefault)] journals
    unfold respond Gateway.setting
    dsimp only
    rw [left, right]
    cases runs with
    | mk h =>
      cases ending with
      | failed d e => exact ⟨_, _, _, rfl, rfl, .mk h⟩
      | stuck => exact ⟨_, _, _, rfl, rfl, .mk h⟩
      | complete =>
        dsimp only
        split <;> exact ⟨_, _, _, rfl, rfl, .mk h⟩

theorem next_alike (l : Listening) (reads : world.ReadsByName) (same : ctx.Same ctx')
    (moments : m.Same m') : ∃ heard q q', l.next world ctx m = (heard, q) ∧
      l.next world ctx' m' = (heard, q') ∧ q.Same q' := by
  unfold next
  cases l.items with
  | nil => exact ⟨_, _, _, rfl, rfl, moments⟩
  | cons item rest =>
    dsimp only
    cases item.after with
    | none => exact ⟨_, _, _, rfl, rfl, moments⟩
    | some d =>
      have waited : (m.wait d).Same (m'.wait d) := by
        cases moments with
        | mk h => exact .mk h
      cases item.value with
      | error s => exact ⟨_, _, _, rfl, rfl, waited⟩
      | ok message => exact l.respond_alike reads same waited message rest

theorem readFor_alike (reads : world.ReadsByName) (same : ctx.Same ctx') (count : Nat)
    (l : Listening) (moments : m.Same m') : ∃ results q q',
      readFor world ctx count l m = (results, q) ∧
      readFor world ctx' count l m' = (results, q') ∧ q.Same q' := by
  induction count generalizing l m m' with
  | zero => exact ⟨_, _, _, rfl, rfl, moments.conclude .listen none⟩
  | succ count ih =>
    obtain ⟨heard, q, q', left, right, later⟩ := l.next_alike reads same moments
    unfold readFor
    rw [left, right]
    cases heard with
    | response r rest =>
      obtain ⟨results, p, p', left', right', last⟩ := ih rest later
      dsimp only
      rw [left', right']
      exact ⟨_, _, _, rfl, rfl, last⟩
    | failed e => exact ⟨_, _, _, rfl, rfl, later.conclude .listen (some e)⟩
    | ended => exact ⟨_, _, _, rfl, rfl, later.conclude .listen none⟩
    | silent => exact ⟨_, _, _, rfl, rfl, later.conclude .listen none⟩

end Listening
end

/-! ## Over HTTP -/

/-- Servers that differ in the order of metadata that they have sent at most. -/
inductive Server.Same (s : Server) : Server → Prop
  | mk {m : Moment} (h : s.moment.Same m) : s.Same { s with moment := m }

theorem Event.Same.refl (e : Event) : e.Same e := by
  cases e with
  | called e => exact .called (.mk (.mk fun _ => rfl))
  | consulted owner instant c => exact .consulted owner instant (.mk fun _ => rfl)
  | resolved method bases => exact .resolved method bases

theorem Moment.Same.refl (m : Moment) : m.Same m := .mk (List.forall₂_same.mpr fun e _ => .refl e)

/-- Streams that are read alike from moments that are alike, however far. -/
def EventStream.Alike (world : Downstream) (stream stream' : EventStream) : Prop :=
  ∀ {m m' : Moment} (limit : Option Nat), m.Same m' →
    (stream.listening.read world stream.ctx m limit).1 =
      (stream'.listening.read world stream'.ctx m' limit).1 ∧
    (stream.listening.read world stream.ctx m limit).2.Same
      (stream'.listening.read world stream'.ctx m' limit).2

/-- Responses that are equal, or streams that are read alike. -/
inductive HttpResponse.Alike (world : Downstream) : HttpResponse → HttpResponse → Prop
  | whole (r : HttpResponse) : Alike world r r
  | events (status : Nat) (contentType : String) {stream stream' : EventStream}
      (read : stream.Alike world stream') :
      Alike world ⟨status, contentType, .events stream⟩ ⟨status, contentType, .events stream'⟩

/-- Answers of which the client sees the same and what is behind the gateway sees the same. -/
structure Server.Alike (world : Downstream) (x y : Option HttpResponse × Server) : Prop where
  response : Option.Rel (HttpResponse.Alike world) x.1 y.1
  server : x.2.Same y.2

theorem EventStream.alike {world : Downstream} (reads : world.ReadsByName) (l : Listening)
    (guard : Option Nat) {ctx ctx' : CallContext} (same : ctx.Same ctx') :
    Alike world ⟨l, ctx, guard⟩ ⟨l, ctx', guard⟩ := by
  intro m m' limit moments
  obtain ⟨results, q, q', left, right, later⟩ := Listening.readFor_alike reads same
    (min (l.items.length + 1) (limit.getD (l.items.length + 1))) l moments
  unfold Listening.read
  dsimp only
  rw [left, right]
  exact ⟨rfl, later⟩

namespace Server

variable {s : Server}

theorem Same.release {s' : Server} (h : s.Same s') (guard : Option Nat) :
    (s.release guard).Same (s'.release guard) := by
  cases h with
  | mk h => cases guard <;> exact .mk h

/-- Equal responses with servers that are alike. -/
theorem Alike.of_eq {world : Downstream} {s' : Server} (response : Option HttpResponse)
    (h : s.Same s') : Alike world (response, s) (response, s') where
  response := by
    cases response with
    | none => exact .none
    | some r => exact .some (.whole r)
  server := h

theorem Alike.refl {world : Downstream} (x : Option HttpResponse × Server) : Alike world x x :=
  .of_eq x.1 (.mk (.refl x.2.moment))

theorem answerBatch_alike (reads : s.world.ReadsByName) (v : Verb) (r : HttpRequest)
    {headers : Fields} (same : (s.context r.headers).Same (s.context headers)) :
    Alike s.world (s.answerBatch v r) (s.answerBatch v { r with headers }) := by
  unfold answerBatch
  dsimp only
  split
  · exact .refl _
  · next fetch _ =>
    obtain ⟨result, q, q', left, right, later⟩ :=
      s.gateway.serve_alike reads same v (.refl s.moment) fetch.requests
    rw [left, right]
    cases later with
    | mk h => exact .of_eq _ (.mk (.mk h))

theorem answerListen_alike (reads : s.world.ReadsByName) (guard : Option Nat) (r : HttpRequest)
    {headers : Fields} (same : (s.context r.headers).Same (s.context headers)) :
    Alike s.world (s.answerListen guard r) (s.answerListen guard { r with headers }) := by
  unfold answerListen
  dsimp only
  split
  · exact .refl _
  · next listen _ =>
    obtain ⟨result, q, q', left, right, later⟩ :=
      s.gateway.listen_alike reads same (.refl s.moment) listen.request
    have servers : Same { s with moment := q } { s with moment := q' } := by
      cases later with
      | mk h => exact .mk (.mk h)
    rw [left, right]
    rcases result with _ | e | listening
    · exact .of_eq _ servers
    · exact .of_eq _ (servers.release guard)
    · exact ⟨.some (.events 200 _ (EventStream.alike reads listening guard same)), servers⟩

theorem Alike.release {world : Downstream} {x y : Option HttpResponse × Server}
    (h : Alike world x y) (guard : Option Nat) :
    Alike world (x.1, x.2.release guard) (y.1, y.2.release guard) :=
  ⟨h.response, h.server.release guard⟩

theorem handle_alike (reads : s.world.ReadsByName) (guard : Option Nat) (r : HttpRequest)
    (v : Verb) {headers : Fields} (same : (s.context r.headers).Same (s.context headers)) :
    Alike s.world (s.handle guard r v) (s.handle guard { r with headers } v) := by
  cases v with
  | listen => exact answerListen_alike reads guard r same
  | fetch => exact (answerBatch_alike reads .fetch r same).release guard
  | act => exact (answerBatch_alike reads .act r same).release guard

theorem answerVerb_alike (reads : s.world.ReadsByName) (v : Verb) (r : HttpRequest)
    {headers : Fields} (same : (s.context r.headers).Same (s.context headers)) :
    Alike s.world (s.answerVerb v r) (s.answerVerb v { r with headers }) := by
  rw [answerVerb_eq, answerVerb_eq]
  cases entered : s.enter with
  | error e => exact .refl _
  | ok entry =>
    obtain ⟨guard, s'⟩ := entry
    obtain ⟨drain, rfl⟩ := enter_eq_ok entered
    exact handle_alike (s := { s with drain }) reads guard r v same

theorem answer_alike (reads : s.world.ReadsByName) (r : HttpRequest)
    {headers : Fields} (same : (s.context r.headers).Same (s.context headers)) :
    Alike s.world (s.answer r) (s.answer { r with headers }) := by
  unfold answer
  dsimp only
  split
  · exact .refl _
  · exact .refl _
  · exact .refl _
  · split
    · exact answerVerb_alike reads _ r same
    · exact .refl _

theorem handle_congr (guard : Option Nat) (r : HttpRequest) (v : Verb) {headers : Fields}
    (same : s.context headers = s.context r.headers) :
    s.handle guard { r with headers } v = s.handle guard r v := by
  have batch : ∀ v, s.answerBatch v { r with headers } = s.answerBatch v r := by
    intro v
    unfold answerBatch
    dsimp only
    rw [same]
  cases v with
  | listen =>
    show s.answerListen guard { r with headers } = s.answerListen guard r
    unfold answerListen
    dsimp only
    rw [same]
  | fetch => rw [handle_fetch, handle_fetch, batch]
  | act => rw [handle_act, handle_act, batch]

/-- Of the headers of a request, an answer depends on the context that they give. -/
theorem answer_congr (r : HttpRequest) {headers : Fields}
    (same : s.context headers = s.context r.headers) :
    s.answer { r with headers } = s.answer r := by
  have verb : ∀ v, s.answerVerb v { r with headers } = s.answerVerb v r := by
    intro v
    rw [answerVerb_eq, answerVerb_eq]
    cases entered : s.enter with
    | error e => rfl
    | ok entry =>
      obtain ⟨guard, s'⟩ := entry
      obtain ⟨drain, rfl⟩ := enter_eq_ok entered
      exact handle_congr (s := { s with drain }) guard r v same
  unfold answer
  dsimp only
  split
  · rfl
  · rfl
  · rfl
  · rw [verb]

theorem context_congr {r headers : Fields}
    (timeout : Timeout.ofHeaders? headers = Timeout.ofHeaders? r)
    (agree : headers.filter (fun field => s.gateway.policy.forwards field.1) =
      r.filter (fun field => s.gateway.policy.forwards field.1)) :
    s.context headers = s.context r := by
  have metadata : s.gateway.policy.metadata headers = s.gateway.policy.metadata r := by
    unfold HeaderPolicy.metadata
    exact congrArg _ agree
  unfold context
  rw [timeout, metadata]

theorem context_same {r headers : Fields}
    (timeout : Timeout.ofHeaders? headers = Timeout.ofHeaders? r)
    (agree : ∀ name, s.gateway.policy.forwards name = true →
      Metadata.values headers name = Metadata.values r name) :
    (s.context r).Same (s.context headers) := by
  have metadata : (s.gateway.policy.metadata r).Same (s.gateway.policy.metadata headers) := by
    intro name
    rw [HeaderPolicy.values_metadata, HeaderPolicy.values_metadata]
    split
    · next admitted => rw [agree name admitted]
    · rfl
  unfold context
  rw [timeout]
  cases Timeout.ofHeaders? r <;> exact .mk metadata

end Server

/-- The metadata of a call has under each name but that of the chain exactly the values of the
headers of that name which go on and have a form as metadata, in the order in which they came in. So
headers that do not go on have no influence beyond the timeout that they state: requests with the
same headers that go on are answered with the same response and the same calls, and requests with
the same values under each name that goes on differ in nothing but the order of the metadata, if
what is behind the gateway reads metadata by name. -/
theorem metadata_is_what_headers_let_through {names : List String} {s : Server}
    (policy : s.gateway.policy = .excluding names) (r : HttpRequest) :
    (∀ e, s.Sends r e → ∀ name, name ≠ Metadata.operationsName →
      Forwarded names name r.headers (e.call.metadata.values name)) ∧
    ∀ headers, Timeout.ofHeaders? headers = Timeout.ofHeaders? r.headers →
      (headers.filter (fun field => s.gateway.policy.forwards field.1) =
          r.headers.filter (fun field => s.gateway.policy.forwards field.1) →
        s.answer { r with headers } = s.answer r) ∧
      (s.world.ReadsByName →
        (∀ name, Admits names name →
          Metadata.values headers name = Metadata.values r.headers name) →
        Server.Alike s.world (s.answer r) (s.answer { r with headers })) := by
  refine ⟨fun e sends name other => ?_, fun headers timeout => ⟨fun agree => ?_, ?_⟩⟩
  · obtain ⟨v, request, p, prepared, asks, _⟩ := sends.asks
    obtain ⟨chain, _, _, metadata⟩ := asks.comesFrom prepared
    have context : (s.context r.headers).metadata =
        (HeaderPolicy.excluding names).metadata r.headers := by
      unfold Server.context
      rw [policy]
      cases Timeout.ofHeaders? r.headers <;> rfl
    rw [metadata, Metadata.values_of_ne _ _ other, context]
    exact forwarded_metadata names name r.headers
  · exact Server.answer_congr r (Server.context_congr timeout agree)
  · intro reads agree
    refine Server.answer_alike reads r (Server.context_same timeout fun name admitted => ?_)
    rw [policy] at admitted
    exact agree name ((HeaderPolicy.forwards_iff names name).mp admitted)

namespace Sample

/-- A server of items that does not let cookies through. -/
def guardedServer : Server :=
  { itemServer with gateway := { gateway with policy := .excluding ["Cookie"] } }

def tagged (cookie : String) : Fields :=
  [("x-tag", Utf8.encode "one"), ("cookie", Utf8.encode cookie), ("trace-bin", Utf8.encode "AQI"),
   ("x-tag", Utf8.encode "two"), ("trace-bin", Utf8.encode "A"), ("grpc-timeout", Utf8.encode "1H")]

/-- The same headers for the gateway, in another order. -/
def shuffled : Fields :=
  [("grpc-timeout", Utf8.encode "1H"), ("trace-bin", Utf8.encode "AQI"),
   ("x-tag", Utf8.encode "one"), ("trace-bin", Utf8.encode "A"), ("x-tag", Utf8.encode "two")]

theorem knotsAfter_readsByName (delay : Nat → Nat) : (knotsAfter delay).ReadsByName where
  unary before same := by
    cases same with
    | mk _ => exact congrArg (fun n => Delayed.mk (some (delay n)) _) before.length_eq
  stream _ _ := rfl
  consult _ := rfl

theorem shuffled_agrees (name : String) (admits : Admits ["Cookie"] name) :
    Metadata.values shuffled name = Metadata.values (tagged "a") name := by
  have noCookie : name ≠ "cookie" := by
    rintro rfl
    exact absurd ((HeaderPolicy.forwards_iff _ _).mpr admits) (by decide +kernel)
  simp only [Metadata.values, shuffled, tagged, List.filterMap_cons, List.filterMap_nil]
  by_cases tag : "x-tag" = name
  · subst tag
    rfl
  · by_cases trace : "trace-bin" = name
    · subst trace
      rfl
    · simp [tag, trace, noCookie.symm]

theorem guardedServer_sends :
    ∃ e, guardedServer.Sends (titleRequest (tagged "a")) e ∧ e.sent = true := by
  obtain ⟨e, he, sent, _⟩ := Journal.exists_called
    (j := (guardedServer.answer (titleRequest (tagged "a"))).2.moment.journal) (p := fun _ => true)
    (by decide +kernel)
  exact ⟨e, .answering (List.append_nil _).symm he, sent⟩

end Sample

/-- The call for an item carries both values of a header, the bytes of another and no cookie.
Another cookie, or another order of the headers, changes nothing. -/
theorem cookie_is_left_behind : ∃ e,
    Sample.guardedServer.Sends (Sample.titleRequest (Sample.tagged "a")) e ∧ e.sent = true ∧
    e.call.metadata.values "x-tag" = [Utf8.encode "one", Utf8.encode "two"] ∧
    e.call.metadata.values "trace-bin" = [[1, 2]] ∧ e.call.metadata.values "cookie" = [] ∧
    Sample.guardedServer.answer (Sample.titleRequest (Sample.tagged "b")) =
      Sample.guardedServer.answer (Sample.titleRequest (Sample.tagged "a")) ∧
    Server.Alike Sample.guardedServer.world
      (Sample.guardedServer.answer (Sample.titleRequest (Sample.tagged "a")))
      (Sample.guardedServer.answer (Sample.titleRequest Sample.shuffled)) := by
  have policy : Sample.guardedServer.gateway.policy = .excluding ["Cookie"] := rfl
  obtain ⟨e, sends, sent⟩ := Sample.guardedServer_sends
  obtain ⟨forwarded, silent⟩ := metadata_is_what_headers_let_through policy
    (Sample.titleRequest (Sample.tagged "a"))
  have values : ∀ name, name ≠ Metadata.operationsName → e.call.metadata.values name =
      ((HeaderPolicy.excluding ["Cookie"]).metadata (Sample.tagged "a")).values name :=
    fun name other => (forwarded e sends name other).unique (forwarded_metadata ..)
  refine ⟨e, sends, sent, ?_, ?_, ?_, ?_, ?_⟩
  · rw [values _ (by decide)]
    decide +kernel
  · rw [values _ (by decide)]
    decide +kernel
  · rw [values _ (by decide)]
    decide +kernel
  · exact (silent (Sample.tagged "b") (by decide +kernel)).1 (by decide +kernel)
  · exact (silent Sample.shuffled (by decide +kernel)).2
      (Sample.knotsAfter_readsByName fun _ => 0) Sample.shuffled_agrees

end Patchwork
