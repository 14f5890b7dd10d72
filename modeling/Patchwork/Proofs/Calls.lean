import Patchwork.Proofs.Identity
import Patchwork.Proofs.Streams

/-!
# What calls are made for

Each downstream call is made for an entry point that a request names or for a relation that its mask
selects. It has the timeout that was configured there, or what is left until the deadline of the
request if that is less.
-/

namespace Patchwork
open Proto

/-- The timeout of the calls of a resolver. -/
def Resolver.timeout : Resolver → Option Nat
  | .method _ timeout => timeout
  | .custom _ => none

namespace CallContext

variable {ctx : CallContext} {now : Nat}

/-- A call has no more time than is left until the deadline. -/
theorem callTimeout_le {left : Nat} (limit : Option Nat) (h : ctx.remaining now = some left) :
    ∃ t, ctx.callTimeout now limit = some t ∧ t ≤ left := by
  unfold callTimeout
  rw [h]
  cases limit with
  | none => exact ⟨left, rfl, Nat.le_refl _⟩
  | some c => exact ⟨min left c, rfl, Nat.min_le_left ..⟩

/-- A call has no more time than was configured for it. -/
theorem callTimeout_le_configured {limit t : Nat} (h : ctx.callTimeout now (some limit) = some t) :
    t ≤ limit := by
  unfold callTimeout at h
  cases hr : ctx.remaining now with
  | none =>
    simp only [hr, Option.orElse_eq_orElse, Option.orElse_none] at h
    cases h
    exact Nat.le_refl _
  | some left =>
    rw [hr] at h
    cases h
    exact Nat.min_le_right ..

end CallContext

/-- What a call is made for. -/
inductive Caller where
  | entryPoint (e : EntryPoint)
  | relation (r : Relation)

namespace Caller

def method : Caller → Method
  | .entryPoint e => e.method
  | .relation r => r.method

/-- The timeout that was configured. -/
def timeout : Caller → Option Nat
  | .entryPoint e => e.timeout
  | .relation r => r.resolver.timeout

/-- What a gateway has. -/
def IsOf (g : Gateway) : Caller → Prop
  | .entryPoint e => e ∈ g.entryPoints
  | .relation r => r ∈ g.relations

end Caller

/-- A relation that is selected in the schema of a request, at any depth. -/
def Prepared.Selects (p : Prepared) (r : Relation) : Prop :=
  ∃ k, ∃ s ∈ level p.schema.fields k, s.info.relation = some r

/-- What a request needs for its response. -/
def Prepared.Needs (p : Prepared) : Caller → Prop
  | .entryPoint e => e = p.entry
  | .relation r => p.Selects r

/-- A call with the timeout of what it is made for. -/
structure Exchange.MadeFor (e : Exchange) (ctx : CallContext) (x : Caller) : Prop where
  method : e.call.method = x.method
  timeout : e.call.timeout = ctx.callTimeout e.sentAt x.timeout

theorem Gateway.IsPrepared.isOf_of_needs {g : Gateway} {v : Verb} {r : Request} {p : Prepared}
    (h : IsPrepared g v r p) {x : Caller} (hx : p.Needs x) : x.IsOf g := by
  cases x with
  | entryPoint e =>
    obtain rfl : e = p.entry := hx
    exact List.mem_of_find?_eq_some h.found
  | relation r =>
    obtain ⟨k, s, hs, hr⟩ := hx
    exact mem_relations_of_compileMask h.compiled hs hr

/-! ## One call -/

/-- What an exchange says of an attempt. -/
theorem exchange_of_attempt {answer : Call → Delayed (Reply α)} {owner now : Nat} {c : Call}
    {due : Option Nat} {reply : Reply α} {e : Exchange}
    (h : attempt answer owner now c = (due, reply, e)) :
    e.call = c ∧ e.sentAt = now ∧ e.owner = owner ∧ e.dropped = false ∧ e.failure = codeOf reply ∧
      (e.sent = true ↔ c.timeout ≠ some 0) := by
  unfold attempt at h
  split at h
  · next late =>
    cases h
    simp [late]
  · next timely =>
    cases h
    simp [timely]

/-- The call with which a batch is resolved. -/
theorem Batch.called_resolve {b : Batch} {world : Downstream} {ctx : CallContext} {owner now : Nat}
    {before : Journal} {e : Exchange}
    (he : .called e ∈ (b.resolve world ctx owner now before).events) :
    ∃ transport timeout message, b.relation.resolver = .method transport timeout ∧
      b.relation.request b.bases (b.params.map (·.message)) = .ok message ∧
      e.call = b.call ctx now transport timeout message ∧ e.sentAt = now := by
  unfold Batch.resolve at he
  cases hr : b.relation.resolver with
  | custom name =>
    rw [hr] at he
    simp at he
  | method transport timeout =>
    rw [hr] at he
    dsimp only at he
    split at he
    · simp at he
    · next message hm =>
      rcases ha : attempt (world.unary before.calls) owner now
        (b.call ctx now transport timeout message) with ⟨due, reply, e'⟩
      rw [ha] at he
      simp only [List.mem_cons, Event.called.injEq, reduceCtorEq, List.not_mem_nil, or_false] at he
      obtain ⟨call, sentAt, _⟩ := exchange_of_attempt ha
      rw [he]
      exact ⟨transport, timeout, message, rfl, hm, call, sentAt⟩

/-! ## One request -/

namespace Prepared

variable {s : Setting} {p : Prepared}

/-- The events of a wave are of batches for relations that the request selects. -/
theorem selects_of_event {d : Document} {batches : List Batch} {owner now : Nat} {due : Option Nat}
    {w : Wave} {events j : Journal} (entered : (Progress.wave d batches).Entered)
    (known : ∃ k, ∀ x ∈ (Progress.wave d batches).patches, x.field ∈ level p.schema.fields k)
    (resolved : resolveWave s.world s.ctx owner now batches j = (due, w, events ++ j)) {x : Event}
    (hx : x ∈ events) : ∃ (b : Batch) (before : Journal), p.Selects b.relation ∧
      x ∈ (b.resolve s.world s.ctx owner now before).events := by
  obtain ⟨b, hb, r, hr, hx⟩ := (waveResolved_append resolved).event _ hx
  obtain ⟨before, rfl⟩ := hr.resolved
  obtain ⟨patches, _, grouped⟩ := entered
  obtain ⟨k, hk⟩ := known
  obtain ⟨y, hy, relation, _⟩ := grouped.head b hb
  have field := hk y (List.mem_flatMap.mpr ⟨b, hb, hy⟩)
  exact ⟨b, before, ⟨k, y.field, field, relation⟩, hx⟩

end Prepared

/-! ## What a request asks -/

namespace Prepared

/-- A batch of the `k`-th wave after a message. -/
def HasBatch (p : Prepared) (fallback : Bool) (k : Nat) (b : Batch) : Prop :=
  ∃ (m : Message) (ws : List Wave) (d : Document) (batches : List Batch),
    (Progress.ofMessage m p.schema p.onError fallback).Runs fallback ws (.wave d batches) ∧
      b ∈ batches ∧ k = ws.length + 1

/-- The calls that a request can lead to at an instant: its own and those that resolve the batches
of its waves. -/
inductive Asks (p : Prepared) (ctx : CallContext) (fallback : Bool) (now : Nat) : Call → Prop
  | own : Asks p ctx fallback now (p.call ctx now)
  | relation {k : Nat} {b : Batch} {transport : Transport} {timeout : Option Nat}
      {message : Message} (batch : p.HasBatch fallback k b)
      (resolver : b.relation.resolver = .method transport timeout)
      (request : b.relation.request b.bases (b.params.map (·.message)) = .ok message) :
      Asks p ctx fallback now (b.call ctx now transport timeout message)

end Prepared

/-- A call with what it is made for: the entry point of a request or the relation of one of its
batches. It goes where that says, and with the message that it has there. -/
inductive Call.IsFor (c : Call) (p : Prepared) (fallback : Bool) : Caller → Prop
  | own (method : c.method = p.entry.method) (transport : c.transport = p.entry.transport)
      (message : c.message = p.input) : IsFor c p fallback (.entryPoint p.entry)
  | relation {k : Nat} {b : Batch} {timeout : Option Nat} (batch : p.HasBatch fallback k b)
      (resolver : b.relation.resolver = .method c.transport timeout)
      (method : c.method = b.relation.method)
      (message : b.relation.request b.bases (b.params.map (·.message)) = .ok c.message) :
      IsFor c p fallback (.relation b.relation)

namespace Prepared

variable {s : Setting} {p : Prepared} {ctx : CallContext} {fallback : Bool} {now : Nat}

/-- The entries of a batch are of one level of the schema. -/
theorem HasBatch.grouped {k : Nat} {b : Batch} (h : p.HasBatch fallback k b) :
    ∃ n patches batches, k = n + 1 ∧ Batch.Grouped patches batches ∧ b ∈ batches ∧
      ∀ x ∈ patches, x.field ∈ level p.schema.fields n := by
  obtain ⟨m, ws, d, batches, runs, hb, rfl⟩ := h
  obtain ⟨first, known⟩ := Progress.ofMessage_first m p.schema p.onError fallback
  obtain ⟨⟨patches, _, grouped⟩, fields⟩ := runs.entered first known
  rw [Nat.zero_add] at fields
  exact ⟨ws.length, patches, batches, rfl, grouped, hb,
    fun x hx => fields x (grouped.perm.mem_iff.mpr hx)⟩

theorem HasBatch.selects {k : Nat} {b : Batch} (h : p.HasBatch fallback k b) :
    p.Selects b.relation := by
  obtain ⟨n, patches, batches, _, grouped, hb, fields⟩ := h.grouped
  obtain ⟨x, hx, relation, _⟩ := grouped.head b hb
  exact ⟨n, x.field, fields x (grouped.mem_iff.mpr ⟨b, hb, hx⟩), relation⟩

end Prepared

namespace Call.IsFor

variable {c : Call} {p : Prepared} {fallback : Bool} {x : Caller}

theorem needs (h : c.IsFor p fallback x) : p.Needs x := by
  cases h with
  | own => rfl
  | relation batch => exact batch.selects

theorem method (h : c.IsFor p fallback x) : c.method = x.method := by
  cases h with
  | own method => exact method
  | relation _ _ method => exact method

end Call.IsFor

namespace Prepared

variable {s : Setting} {p : Prepared} {ctx : CallContext} {fallback : Bool} {now : Nat}

theorem Asks.isFor {c : Call} (h : p.Asks ctx fallback now c) :
    ∃ x, c.IsFor p fallback x ∧ c.timeout = ctx.callTimeout now x.timeout := by
  cases h with
  | own => exact ⟨.entryPoint p.entry, .own rfl rfl rfl, rfl⟩
  | @relation k b transport timeout message batch resolver request =>
    refine ⟨.relation b.relation, .relation batch resolver rfl request, ?_⟩
    simp [Batch.call, Caller.timeout, resolver, Resolver.timeout]

/-- Only a message is followed by a wave. -/
theorem exists_ofMessage {reply : Reply Message} {ws : List Wave} {d : Document}
    {batches : List Batch} (h : (p.receive fallback reply).Runs fallback ws (.wave d batches)) :
    ∃ m, (Progress.ofMessage m p.schema p.onError fallback).Runs fallback ws (.wave d batches) := by
  cases reply with
  | ok m => exact ⟨m, h⟩
  | error status =>
    unfold receive at h
    dsimp only at h
    split at h <;> cases h

/-- The calls of a wave are those of its batches. -/
theorem asks_of_wave {m : Message} {ws : List Wave} {d : Document} {batches : List Batch}
    {owner : Nat} {due : Option Nat} {w : Wave} {events j : Journal}
    (runs : (Progress.ofMessage m p.schema p.onError s.fallback).Runs s.fallback ws
      (.wave d batches))
    (resolved : resolveWave s.world s.ctx owner now batches j = (due, w, events ++ j)) {e : Exchange}
    (he : .called e ∈ events) : p.Asks s.ctx s.fallback e.sentAt e.call ∧ e.sentAt = now := by
  obtain ⟨b, hb, r, hr, he⟩ := (waveResolved_append resolved).event _ he
  obtain ⟨before, rfl⟩ := hr.resolved
  obtain ⟨transport, timeout, message, resolver, request, call, sentAt⟩ := Batch.called_resolve he
  rw [call, sentAt]
  exact ⟨.relation ⟨m, ws, d, batches, runs, hb, rfl⟩ resolver request, rfl⟩

theorem Leads.asks {own : Journal} {due : Option Nat} {stage : Stage}
    (h : p.Leads s own due stage) {e : Exchange} (he : .called e ∈ own) :
    p.Asks s.ctx s.fallback e.sentAt e.call := by
  induction h with
  | start now => cases he
  | called settled =>
    cases List.mem_singleton.mp he
    obtain ⟨call, sentAt, _⟩ := exchange_of_attempt settled
    rw [call, sentAt]
    exact .own
  | wave led resolved ih =>
    rcases List.mem_append.mp he with he | he
    · obtain ⟨reply, ws, runs⟩ := led.runs
      obtain ⟨m, runs⟩ := exists_ofMessage runs
      exact (asks_of_wave runs resolved he).1
    · exact ih he

theorem Came.asks {own : Journal} {x : Process} (h : p.Came s now own x)
    {e : Exchange} (he : .called e ∈ own) : p.Asks s.ctx s.fallback e.sentAt e.call := by
  cases h with
  | sleeping led ahead => exact led.asks he
  | done led passed => exact led.asks he
  | failed led passed => exact led.asks he

theorem Came.madeFor {own : Journal} {x : Process} (h : p.Came s now own x)
    {e : Exchange} (he : .called e ∈ own) : ∃ x, p.Needs x ∧ e.MadeFor s.ctx x := by
  obtain ⟨x, isFor, timeout⟩ := (h.asks he).isFor
  exact ⟨x, isFor.needs, isFor.method, timeout⟩

end Prepared

/-- The calls for a body on its own are those of the batches of its waves, the first of which starts
when the body is due. -/
theorem Alone.asks {s : Setting} {p : Prepared} {due due' : Option Nat} {q q' : Progress}
    {j j' : Journal} {ws : List Wave} (h : Alone s due q j ws due' q' j') {m : Message}
    {before : List Wave}
    (runs : (Progress.ofMessage m p.schema p.onError s.fallback).Runs s.fallback before q) :
    ∃ events, j' = events ++ j ∧ ∀ e, .called e ∈ events →
      p.Asks s.ctx s.fallback e.sentAt e.call ∧ ∃ t, due = some t ∧ t ≤ e.sentAt := by
  induction h generalizing before with
  | stop => exact ⟨[], rfl, by simp⟩
  | @wave now d batches j j' j'' due due' w ws q resolved rest ih =>
    obtain ⟨first, rfl, left⟩ := waveResolved resolved
    obtain ⟨later, rfl, asked⟩ := ih (runs.snoc_resolved resolved)
    refine ⟨later ++ first, (List.append_assoc ..).symm, fun e he => ?_⟩
    rcases List.mem_append.mp he with he | he
    · obtain ⟨asks, t, ht, since⟩ := asked e he
      exact ⟨asks, now, rfl, Nat.le_trans (left.ahead t ht) since⟩
    · obtain ⟨asks, sentAt⟩ := Prepared.asks_of_wave runs resolved he
      exact ⟨asks, now, rfl, Nat.le_of_eq sentAt.symm⟩

/-! ## Whole runs -/

/-- A call of a journal is one of the histories, but for whether it was dropped. -/
theorem Journal.Logs.exchange {j history : Journal} (h : j.Logs history) {e : Exchange}
    (he : .called e ∈ j) : ∃ e', .called e' ∈ history ∧ e = { e' with dropped := e.dropped } := by
  obtain ⟨x, hx, hl⟩ := h.happened he
  cases x with
  | called e' => exact ⟨e', hx, hl⟩
  | consulted owner instant c => cases hl
  | resolved method bases => cases hl

namespace Gateway

variable {g : Gateway} {world : Downstream} {ctx : CallContext} {m : Moment} {e : Exchange}

/-- The calls of a batch are asked for by its requests. -/
theorem serve_asks {v : Verb} {requests : List Request} {fresh : Journal}
    (journal : (g.serve world ctx v m requests).2.journal = fresh ++ m.journal)
    (called : .called e ∈ fresh) : ∃ r ∈ requests, ∃ p, g.prepare v r = .ok p ∧
      p.Asks ctx v.catchesByDefault e.sentAt e.call := by
  cases hp : g.prepareAll v requests with
  | error e' =>
    rw [(serve_refused (prepareAll_eq_error.mp hp) world ctx m).2] at journal
    obtain rfl := List.append_left_eq_self.mp journal.symm
    cases called
  | ok prepared =>
    obtain ⟨xs, fresh', events, h⟩ := serve_prepared world ctx m hp
    obtain rfl := List.append_cancel_right (h.journal.symm.trans journal)
    obtain ⟨e', he', same⟩ := h.logs.exchange called
    obtain ⟨p, hmem, own, y, hy, came⟩ := h.interleaved.event he'
    obtain ⟨r, hr, prepared⟩ := exists_prepare hp hmem
    have asks := came.asks hy
    rw [same]
    exact ⟨r, hr, p, prepared, asks⟩

/-- A stream is opened with the own call of its request. -/
theorem listen_asks {request : Option Request} {fresh : Journal}
    (journal : (g.listen world ctx m request).2.journal = fresh ++ m.journal)
    (called : .called e ∈ fresh) : ∃ r p, request = some r ∧ g.prepare .listen r = .ok p ∧
      p.Asks ctx Verb.listen.catchesByDefault e.sentAt e.call ∧ e.sentAt = m.now := by
  rcases hl : g.listen world ctx m request with ⟨o, m'⟩
  rw [hl] at journal
  cases listens hl with
  | refused now unchanged =>
    obtain rfl := List.append_left_eq_self.mp (unchanged.symm.trans journal).symm
    cases called
  | @called r p due reply exchange _ asked prepared settled now made =>
    have opened : [.called exchange] ++ m.journal = fresh ++ m.journal := made.symm.trans journal
    obtain rfl := List.append_cancel_right opened
    cases List.mem_singleton.mp called
    obtain ⟨call, sentAt, _⟩ := exchange_of_attempt settled
    rw [call, sentAt]
    exact ⟨r, p, asked, prepared, .own, rfl⟩

end Gateway

namespace Listening

variable (l : Listening) (world : Downstream) (ctx : CallContext) (m : Moment)

/-- A call that is asked for by the request of a stream, not before it is read. -/
structure Asks (e : Exchange) : Prop where
  asks : l.request.Asks ctx Verb.listen.catchesByDefault e.sentAt e.call
  since : m.now ≤ e.sentAt

/-- The calls for one item are those of the batches of its waves. -/
theorem respond_asks (message : Message) (rest : Items) :
    ∃ fresh, (l.respond world ctx m message rest).2.journal = fresh ++ m.journal ∧
      ∀ e, .called e ∈ fresh → l.Asks ctx m e := by
  obtain ⟨ws, due, q, events, alone, _, _, r, ending, journal⟩ :=
    runAll_alone_at (Gateway.setting world ctx .listen) m.now m.journal
      (.ofMessage message l.request.schema l.request.onError
        (Gateway.setting world ctx .listen).fallback)
  obtain ⟨events', same, asked⟩ := alone.asks (p := l.request) (.stop _)
  obtain rfl := List.append_cancel_right same
  refine ⟨events.map (Run.close r ending), ?_, fun e he => ?_⟩
  · unfold respond
    dsimp only
    generalize runAll (Gateway.setting world ctx .listen) m.now m.journal _ = result at journal
    obtain ⟨ending, run⟩ := result
    dsimp only at journal ⊢
    split <;> exact journal
  · have logs : Journal.Logs (events.map (Run.close r ending)) events :=
      ⟨_, Run.logs_close r ending, rfl⟩
    obtain ⟨e', he', same⟩ := logs.exchange he
    obtain ⟨asks, t, due, since⟩ := asked e' he'
    cases due
    rw [same]
    exact ⟨asks, since⟩

theorem next_asks : ∃ fresh, (l.next world ctx m).2.journal = fresh ++ m.journal ∧
    ∀ e, .called e ∈ fresh → l.Asks ctx m e := by
  unfold next
  split
  · exact ⟨[], rfl, by simp⟩
  · next item rest _ =>
    split
    · exact ⟨[], rfl, by simp⟩
    · next delay _ =>
      dsimp only
      split
      · exact ⟨[], rfl, by simp⟩
      · next message _ =>
        obtain ⟨fresh, journal, asked⟩ := l.respond_asks world ctx (m.wait delay) message rest
        refine ⟨fresh, journal, fun e he => ⟨(asked e he).asks, ?_⟩⟩
        exact Nat.le_trans (Nat.le_add_right ..) (asked e he).since

/-- The calls on reading a stream are those of the batches of its items. -/
theorem readFor_asks (count : Nat) : ∃ fresh,
    (readFor world ctx count l m).2.journal = fresh ++ m.journal ∧
      ∀ e, .called e ∈ fresh → l.Asks ctx m e := by
  induction count generalizing l m with
  | zero => exact ⟨[], by simp [readFor], by simp⟩
  | succ count ih =>
    obtain ⟨first, journal, asked⟩ := l.next_asks world ctx m
    have reads := l.reads_next world ctx m
    rcases hn : l.next world ctx m with ⟨heard, m'⟩
    rw [hn] at journal reads
    dsimp only at journal reads
    cases reads with
    | @response item rest body _ _ _ items hears _ logs =>
      obtain ⟨later, journal', asked'⟩ := ih (l.tail rest) m'
      rw [readFor_response count hn, journal', journal, ← List.append_assoc]
      refine ⟨later ++ first, rfl, fun e he => ?_⟩
      rcases List.mem_append.mp he with he | he
      · exact ⟨(asked' e he).asks, Nat.le_trans hears.ahead (asked' e he).since⟩
      · exact asked e he
    | ended | failed | silent =>
      rw [readFor, hn]
      exact ⟨first, by simpa using journal, asked⟩

end Listening

/-- A call that a gateway makes while it serves a batch of requests, opens a stream for the one that
it is asked for, or reads that. -/
inductive Gateway.Makes (g : Gateway) (ctx : CallContext) (e : Exchange) :
    Verb → List Request → Prop
  | batch {world : Downstream} {v : Verb} {m : Moment} {requests : List Request} {fresh : Journal}
      (journal : (g.serve world ctx v m requests).2.journal = fresh ++ m.journal)
      (called : .called e ∈ fresh) : Makes g ctx e v requests
  | opening {world : Downstream} {m : Moment} {request : Option Request} {fresh : Journal}
      (journal : (g.listen world ctx m request).2.journal = fresh ++ m.journal)
      (called : .called e ∈ fresh) : Makes g ctx e .listen request.toList
  | reading {world : Downstream} {m₀ m₁ m : Moment} {r : Request} {l : Listening}
      {limit : Option Nat} {fresh : Journal}
      (opened : g.listen world ctx m₀ (some r) = (some (.ok l), m₁))
      (journal : (l.read world ctx m limit).2.journal = fresh ++ m.journal)
      (called : .called e ∈ fresh) : Makes g ctx e .listen [r]

/-- Each call is one that some of the requests asks for. -/
theorem Gateway.Makes.asks {g : Gateway} {ctx : CallContext} {e : Exchange} {v : Verb}
    {requests : List Request} (h : g.Makes ctx e v requests) : ∃ r ∈ requests, ∃ p,
      g.prepare v r = .ok p ∧ p.Asks ctx v.catchesByDefault e.sentAt e.call := by
  cases h with
  | batch journal called => exact serve_asks journal called
  | opening journal called =>
    obtain ⟨r, p, asked, prepared, asks, _⟩ := listen_asks journal called
    exact ⟨r, by simp [asked], p, prepared, asks⟩
  | @reading world _ _ m r l limit fresh opened journal called =>
    obtain ⟨fresh', journal', asked⟩ := l.readFor_asks world ctx m
      (min (l.items.length + 1) (limit.getD (l.items.length + 1)))
    obtain rfl := List.append_cancel_right (journal.symm.trans journal')
    exact ⟨r, List.mem_singleton_self r, l.request, (listen_eq_ok opened).1, (asked e called).asks⟩

/-! ## Calls of a journal -/

theorem Journal.exists_exchange {j : Journal} {p : Exchange → Bool}
    (h : (j.filterMap Event.exchange?).any p = true) : ∃ e, .called e ∈ j ∧ p e = true := by
  obtain ⟨e, he, hp⟩ := List.any_eq_true.mp h
  obtain ⟨x, hx, called⟩ := List.mem_filterMap.mp he
  cases x with
  | called e' =>
    cases called
    exact ⟨e, hx, hp⟩
  | consulted owner instant c => cases called
  | resolved method bases => cases called

/-- A call that reached a transport was sent. -/
theorem Journal.exists_called {j : Journal} {p : Call → Bool} (h : j.calls.any p = true) :
    ∃ e, .called e ∈ j ∧ e.sent = true ∧ p e.call = true := by
  obtain ⟨c, hc, hp⟩ := List.any_eq_true.mp h
  obtain ⟨x, hx, reached⟩ := List.mem_filterMap.mp hc
  cases x with
  | called e =>
    dsimp only at reached
    split at reached
    · next sent =>
      cases reached
      exact ⟨e, hx, sent, hp⟩
    · cases reached
  | consulted owner instant c => cases reached
  | resolved method bases => cases reached

end Patchwork
