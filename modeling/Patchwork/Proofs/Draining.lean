import Patchwork.Proofs.Written

/-!
# Draining while requests come and go

Requests arrive, are let in, counted, answered and dropped in any order, streams are read or dropped
midway, and the draining is begun at any time and as often as one likes. The guards that are held
are those of the requests and streams that were admitted and are alive.
-/

namespace Patchwork

/-! ## Handling -/

namespace Server

variable (s : Server) (guard : Option Nat) (r : HttpRequest)

/-- How a request was handled: its guard is taken back with the answer, unless that is a stream,
which keeps it. -/
inductive Handled : Option HttpResponse × Server → Prop
  | silent (s' : Server) : Handled (none, s')
  | whole {response : HttpResponse} {s' : Server} (body : ∀ stream, response.body ≠ .events stream)
      (drain : s'.drain = (s.release guard).drain) : Handled (some response, s')
  | stream {s' : Server} (status : Nat) (contentType : String) (listening : Listening)
      (ctx : CallContext) (drain : s'.drain = s.drain) :
      Handled (some ⟨status, contentType, .events ⟨listening, ctx, guard⟩⟩, s')

theorem drain_release (m : Moment) :
    ({ s with moment := m }.release guard).drain = (s.release guard).drain := by
  cases guard <;> rfl

theorem handled_answerBatch (v : Verb) :
    s.Handled guard ((s.answerBatch v r).1, (s.answerBatch v r).2.release guard) := by
  unfold answerBatch
  split
  · exact .whole (body_ofFailure _) rfl
  · next fetch _ =>
    dsimp only
    cases (s.gateway.serve s.world (s.context r.headers) v s.moment fetch.requests).1 with
    | none => exact .silent _
    | some outcome => exact .whole (body_batchResponse outcome) (drain_release ..)

theorem handled_answerListen : s.Handled guard (s.answerListen guard r) := by
  unfold answerListen
  split
  · exact .whole (body_ofFailure _) rfl
  · dsimp only
    split
    · exact .silent _
    · exact .whole (body_ofFailure _) (drain_release ..)
    · exact .stream _ _ _ _ rfl

theorem handled (v : Verb) : s.Handled guard (s.handle guard r v) := by
  cases v with
  | listen => exact s.handled_answerListen guard r
  | fetch => exact s.handled_answerBatch guard r .fetch
  | act => exact s.handled_answerBatch guard r .act

/-- The same server with another instant at which its draining began. -/
def triggeredAt (instant : Option Nat) : Server :=
  { s with drain := s.drain.map fun d => { d with triggeredAt := instant } }

theorem release_triggeredAt (instant : Option Nat) :
    (s.triggeredAt instant).release guard = (s.release guard).triggeredAt instant := by
  cases guard with
  | none => rfl
  | some guard =>
    unfold release triggeredAt
    cases s.drain <;> rfl

theorem answerBatch_triggeredAt (instant : Option Nat) (v : Verb) :
    (s.triggeredAt instant).answerBatch v r =
      ((s.answerBatch v r).1, (s.answerBatch v r).2.triggeredAt instant) := by
  unfold answerBatch
  cases (Json.Source.parseBytes? r.body).bind (FetchRequest.ofSource? Json.maxDepth) <;> rfl

theorem answerListen_triggeredAt (instant : Option Nat) :
    (s.triggeredAt instant).answerListen guard r =
      ((s.answerListen guard r).1, (s.answerListen guard r).2.triggeredAt instant) := by
  unfold answerListen
  cases (Json.Source.parseBytes? r.body).bind (ListenRequest.ofSource? Json.maxDepth) with
  | none =>
    dsimp only
    rw [release_triggeredAt]
  | some listen =>
    have same : (s.triggeredAt instant).gateway.listen (s.triggeredAt instant).world
        ((s.triggeredAt instant).context r.headers) (s.triggeredAt instant).moment
          listen.request =
        s.gateway.listen s.world (s.context r.headers) s.moment listen.request := rfl
    dsimp only
    rw [same]
    rcases s.gateway.listen s.world (s.context r.headers) s.moment listen.request with
      ⟨_ | e | listening, m⟩
    · rfl
    · dsimp only
      rw [← release_triggeredAt]
      rfl
    · rfl

/-- Handling does not ask whether the server drains. -/
theorem handle_triggeredAt (instant : Option Nat) (v : Verb) :
    (s.triggeredAt instant).handle guard r v =
      ((s.handle guard r v).1, (s.handle guard r v).2.triggeredAt instant) := by
  cases v with
  | listen => exact s.answerListen_triggeredAt guard r instant
  | fetch => rw [handle_fetch, handle_fetch, answerBatch_triggeredAt, release_triggeredAt]
  | act => rw [handle_act, handle_act, answerBatch_triggeredAt, release_triggeredAt]

end Server

/-! ## Requests on their way -/

/-- Where a request to a verb stands. -/
inductive Phase where
  /-- It found the server not draining and has no guard yet. -/
  | passing
  | handled (guard : Option Nat)
  /-- It is answered with a stream, which is alive. -/
  | streamed (stream : EventStream)
  | ended

structure Visit where
  verb : Verb
  request : HttpRequest
  phase : Phase
  response : Option HttpResponse := none
  heard : List Heard := []

namespace Visit

/-- Whether the request, or its stream, was admitted and is alive. -/
def isAdmitted (v : Visit) : Bool :=
  match v.phase with
  | .handled _ => true
  | .streamed _ => true
  | _ => false

def guard? (v : Visit) : Option Nat :=
  match v.phase with
  | .handled guard => guard
  | .streamed stream => stream.guard
  | _ => none

/-- A request that arrives is refused if the server drains, and else let in. -/
def arriving (s : Server) (verb : Verb) (request : HttpRequest) : Visit :=
  match s.enter with
  | .error e => { verb, request, phase := .ended, response := some (.ofFailure e) }
  | .ok _ => { verb, request, phase := .passing }

/-- Gives the request a guard. -/
def count (s : Server) (v : Visit) : Server × Visit :=
  match v.phase with
  | .passing => match s.drain with
    | none => (s, { v with phase := .handled none })
    | some d => ({ s with drain := some d.track.2 }, { v with phase := .handled (some d.track.1) })
  | _ => (s, v)

/-- Takes the answer, if there is ever one. -/
def settle (s : Server) (v : Visit) : Option HttpResponse × Server → Server × Visit
  | (none, _) => (s, v)
  | (some response, s') => match response.body with
    | .events stream => (s', { v with phase := .streamed stream, response := some response })
    | _ => (s', { v with phase := .ended, response := some response })

/-- Answers the request. -/
def answer (s : Server) (v : Visit) : Server × Visit :=
  match v.phase with
  | .handled guard => v.settle s (s.handle guard v.request v.verb)
  | _ => (s, v)

/-- Reads the next item of the stream, if it ever comes. A failure is the last item. -/
def read (s : Server) (v : Visit) : Server × Visit :=
  match v.phase with
  | .streamed stream =>
    let (heard, m) := stream.listening.next s.world stream.ctx s.moment
    let later (listening : Listening) : Server × Visit :=
      ({ s with moment := m },
        { v with phase := .streamed { stream with listening }, heard := v.heard ++ [heard] })
    match heard with
    | .response _ rest => later rest
    | .failed _ => later { stream.listening with items := [] }
    | .ended => later stream.listening
    | .silent => (s, v)
  | _ => (s, v)

/-- Ends the request or its stream, wherever it stands. -/
def leave (s : Server) (v : Visit) : Server × Visit :=
  (s.release v.guard?, { v with phase := .ended })

/-- What can happen to a request next. -/
inductive Turn where
  | count
  | answer
  | read
  | leave

def take (s : Server) (v : Visit) : Turn → Server × Visit
  | .count => v.count s
  | .answer => v.answer s
  | .read => v.read s
  | .leave => v.leave s

end Visit

/-- A server with all requests to its verbs that have arrived. -/
structure Traffic where
  server : Server
  visits : List Visit := []

/-- What happens next. -/
inductive Move where
  | arrive (r : HttpRequest)
  /-- Something happens to one of the requests. -/
  | visit (i : Nat) (turn : Visit.Turn)
  | trigger
  /-- Time passes, and something happens elsewhere. -/
  | pass (world : Downstream) (m : Moment)

/-- Whether a move is one of requests that have arrived, or of what is elsewhere. -/
def Move.isInside : Move → Bool
  | visit .. => true
  | pass .. => true
  | _ => false

namespace Traffic

/-- A request arrives, maybe to a verb. -/
def arrive (t : Traffic) (r : HttpRequest) : Traffic :=
  match t.server.route? r.path with
  | some (.verb v) =>
    if r.method = "POST" then { t with visits := t.visits ++ [.arriving t.server v r] } else t
  | _ => t

def visit (t : Traffic) (i : Nat) (turn : Visit.Turn) : Traffic :=
  match t.visits[i]? with
  | none => t
  | some v => ⟨(v.take t.server turn).1, t.visits.set i (v.take t.server turn).2⟩

def move (t : Traffic) : Move → Traffic
  | .arrive r => t.arrive r
  | .visit i turn => t.visit i turn
  | .trigger => { t with server := t.server.trigger }
  | .pass world m => { t with server := { t.server with world, moment := m } }

def run (t : Traffic) (moves : List Move) : Traffic := moves.foldl move t

end Traffic

/-! ## Guards -/

/-- What happens to a request and to the drain at once: it is given the next guard, or its guard is
taken back, or neither. -/
inductive Visit.Changes (d : Drain) (v : Visit) : Drain → Visit → Prop
  | stays {v' : Visit} (admitted : v'.isAdmitted = v.isAdmitted) (guard : v'.guard? = v.guard?) :
      Changes d v d v'
  | enters {v' : Visit} (before : v.isAdmitted = false) (admitted : v'.isAdmitted = true)
      (guard : v'.guard? = some d.track.1) : Changes d v d.track.2 v'
  | leaves {v' : Visit} {guard : Nat} (held : v.guard? = some guard)
      (after : v'.isAdmitted = false) : Changes d v (d.release guard) v'

namespace Visit

variable {s : Server} {v : Visit} {d : Drain}

theorem guard?_of_not_admitted (h : v.isAdmitted = false) : v.guard? = none := by
  unfold isAdmitted at h
  unfold guard?
  split at h <;> simp_all

theorem changes_count (drain : s.drain = some d) :
    ∃ d', (v.count s).1.drain = some d' ∧ v.Changes d d' (v.count s).2 := by
  unfold count
  cases phase : v.phase with
  | passing =>
    rw [drain]
    refine ⟨_, rfl, .enters ?_ rfl rfl⟩
    simp [isAdmitted, phase]
  | handled | streamed | ended => exact ⟨d, drain, .stays rfl rfl⟩

theorem changes_leave (drain : s.drain = some d) (guarded : v.isAdmitted = true → v.guard?.isSome) :
    ∃ d', (v.leave s).1.drain = some d' ∧ v.Changes d d' (v.leave s).2 := by
  unfold leave
  cases admitted : v.isAdmitted with
  | false =>
    rw [guard?_of_not_admitted admitted]
    exact ⟨d, drain, .stays admitted.symm (guard?_of_not_admitted admitted).symm⟩
  | true =>
    obtain ⟨guard, held⟩ := Option.isSome_iff_exists.mp (guarded admitted)
    rw [held]
    refine ⟨d.release guard, ?_, .leaves held rfl⟩
    simp [Server.release, drain]

theorem changes_answer (drain : s.drain = some d)
    (guarded : v.isAdmitted = true → v.guard?.isSome) :
    ∃ d', (v.answer s).1.drain = some d' ∧ v.Changes d d' (v.answer s).2 := by
  unfold answer
  cases phase : v.phase with
  | handled guard =>
    have admitted : v.isAdmitted = true := by simp [isAdmitted, phase]
    have held : v.guard? = guard := by simp [guard?, phase]
    obtain ⟨guard, rfl⟩ := Option.isSome_iff_exists.mp (held ▸ guarded admitted)
    have handled := s.handled (some guard) v.request v.verb
    dsimp only
    generalize s.handle (some guard) v.request v.verb = answered at handled
    cases handled with
    | silent s' => exact ⟨d, drain, .stays rfl rfl⟩
    | @whole response s' body drain' =>
      have ended : v.settle s (some response, s') =
          (s', { v with phase := .ended, response := some response }) := by
        unfold settle
        dsimp only
        split
        · next stream events => exact absurd events (body stream)
        · rfl
      rw [ended]
      refine ⟨d.release guard, ?_, .leaves held rfl⟩
      simp [drain', Server.release, drain]
    | stream status contentType listening ctx drain' =>
      exact ⟨d, drain'.trans drain, .stays admitted.symm held.symm⟩
  | passing | streamed | ended => exact ⟨d, drain, .stays rfl rfl⟩

theorem changes_read (drain : s.drain = some d) :
    ∃ d', (v.read s).1.drain = some d' ∧ v.Changes d d' (v.read s).2 := by
  unfold read
  cases phase : v.phase with
  | streamed stream =>
    dsimp only
    cases (stream.listening.next s.world stream.ctx s.moment).1 with
    | silent => exact ⟨d, drain, .stays rfl rfl⟩
    | response | failed | ended =>
      refine ⟨d, drain, .stays ?_ ?_⟩
      · simp [isAdmitted, phase]
      · simp [guard?, phase]
  | passing | handled | ended => exact ⟨d, drain, .stays rfl rfl⟩

theorem changes_take (drain : s.drain = some d) (guarded : v.isAdmitted = true → v.guard?.isSome)
    (turn : Turn) :
    ∃ d', (v.take s turn).1.drain = some d' ∧ v.Changes d d' (v.take s turn).2 := by
  cases turn with
  | count => exact changes_count drain
  | answer => exact changes_answer drain guarded
  | read => exact changes_read drain
  | leave => exact changes_leave drain guarded

/-- Neither to give nor to take back a guard ends the draining. -/
theorem Changes.isDraining {d' : Drain} {v' : Visit} (h : v.Changes d d' v') :
    d'.isDraining = d.isDraining := by
  cases h <;> rfl

/-- Nothing more happens to a request that has ended. -/
theorem take_of_ended (ended : v.phase = .ended) (turn : Turn) : v.take s turn = (s, v) := by
  obtain ⟨verb, request, phase, response, heard⟩ := v
  subst ended
  cases turn <;> rfl

theorem settle_triggeredAt (instant : Option Nat) (answered : Option HttpResponse × Server) :
    v.settle (s.triggeredAt instant) (answered.1, answered.2.triggeredAt instant) =
      ((v.settle s answered).1.triggeredAt instant, (v.settle s answered).2) := by
  obtain ⟨_ | response, s'⟩ := answered
  · rfl
  · unfold settle
    dsimp only
    split <;> rfl

/-- What happens to a request does not depend on whether the server drains. -/
theorem take_triggeredAt (instant : Option Nat) (turn : Turn) :
    v.take (s.triggeredAt instant) turn =
      ((v.take s turn).1.triggeredAt instant, (v.take s turn).2) := by
  cases turn with
  | count =>
    obtain ⟨gateway, world, drain, moment⟩ := s
    unfold take count
    cases v.phase <;> cases drain <;> rfl
  | answer =>
    unfold take answer
    cases v.phase with
    | handled guard =>
      dsimp only
      rw [Server.handle_triggeredAt, settle_triggeredAt]
    | passing | streamed | ended => rfl
  | read =>
    unfold take read
    cases v.phase with
    | streamed stream =>
      have same : stream.listening.next (s.triggeredAt instant).world stream.ctx
          (s.triggeredAt instant).moment = stream.listening.next s.world stream.ctx s.moment := rfl
      dsimp only
      rw [same]
      cases (stream.listening.next s.world stream.ctx s.moment).1 <;> rfl
    | passing | handled | ended => rfl
  | leave =>
    unfold take leave
    dsimp only
    rw [Server.release_triggeredAt]

end Visit

theorem Drain.held_release {d : Drain} (distinct : d.held.Nodup) (guard : Nat) :
    (d.release guard).held = d.held.erase guard := by
  rw [distinct.erase_eq_filter]
  refine List.filter_congr fun held _ => ?_
  by_cases same : held = guard <;> simp [same]

namespace Traffic

/-- The guards that are held are those of the requests and streams that are admitted and alive, each
of which has its own. -/
structure Balanced (t : Traffic) (d : Drain) : Prop where
  drain : t.server.drain = some d
  guarded : ∀ v ∈ t.visits, v.isAdmitted = true → v.guard?.isSome = true
  held : (t.visits.filterMap Visit.guard?).Perm d.held
  distinct : d.held.Nodup
  issued : ∀ guard ∈ d.held, guard < d.issued

namespace Balanced

variable {t : Traffic} {d d' : Drain}

/-- One request of many changes, and the drain with it. -/
theorem of_changes {s s' : Server} {before after : List Visit} {v v' : Visit}
    (h : Balanced ⟨s, before ++ v :: after⟩ d) (drain : s'.drain = some d')
    (changes : v.Changes d d' v') : Balanced ⟨s', before ++ v' :: after⟩ d' := by
  obtain ⟨_, guarded, held, distinct, issued⟩ := h
  have others : ∀ {P : Visit → Prop}, (∀ x ∈ before ++ v :: after, P x) → P v' →
      ∀ x ∈ before ++ v' :: after, P x := by
    intro P all new
    simp only [List.forall_mem_append, List.forall_mem_cons] at all ⊢
    exact ⟨all.1, new, all.2.2⟩
  rw [List.filterMap_append] at held
  cases changes with
  | stays admitted guard =>
    refine ⟨drain, others guarded ?_, ?_, distinct, issued⟩
    · rw [admitted, guard]
      exact guarded v (by simp)
    · rw [List.filterMap_append]
      simpa [List.filterMap_cons, guard] using held
  | enters outside admitted guard =>
    -- a guard that is given out is above all that are held
    have fresh : d.issued ∉ d.held := fun mem => Nat.lt_irrefl _ (issued _ mem)
    rw [List.filterMap_cons, Visit.guard?_of_not_admitted outside] at held
    refine ⟨drain, others guarded fun _ => ?_, ?_, List.nodup_cons.mpr ⟨fresh, distinct⟩, ?_⟩
    · rw [guard]
      rfl
    · rw [List.filterMap_append, List.filterMap_cons, guard]
      exact List.perm_middle.trans (held.cons _)
    · intro guard mem
      show guard < d.issued + 1
      cases mem with
      | head => exact Nat.lt_succ_self _
      | tail _ mem => exact Nat.lt_succ_of_lt (issued guard mem)
  | @leaves _ guard own outside =>
    rw [List.filterMap_cons, own] at held
    refine ⟨drain, others guarded fun admitted => ?_, ?_, distinct.filter _, ?_⟩
    · rw [outside] at admitted
      cases admitted
    · rw [List.filterMap_append, List.filterMap_cons, Visit.guard?_of_not_admitted outside]
      -- the other guards are those that are held without this one, which is there only once
      have mem : guard ∈ d.held := held.mem_iff.mp (by simp)
      rw [Drain.held_release distinct]
      exact (List.perm_middle.symm.trans (held.trans (List.perm_cons_erase mem))).cons_inv
    · exact fun guard mem => issued guard (List.mem_filter.mp mem).1

theorem visit (h : t.Balanced d) (i : Nat) (turn : Visit.Turn) :
    ∃ d', (t.visit i turn).Balanced d' ∧ d'.isDraining = d.isDraining := by
  unfold Traffic.visit
  cases found : t.visits[i]? with
  | none => exact ⟨d, h, rfl⟩
  | some v =>
    obtain ⟨bound, rfl⟩ := List.getElem?_eq_some_iff.mp found
    obtain ⟨d', drain', changes⟩ :=
      Visit.changes_take h.drain (h.guarded _ (List.getElem_mem bound)) turn
    have parts : t.visits = t.visits.take i ++ t.visits[i] :: t.visits.drop (i + 1) := by simp
    refine ⟨d', ?_, changes.isDraining⟩
    dsimp only
    rw [List.set_eq_take_append_cons_drop, if_pos bound]
    refine of_changes (s := t.server) ?_ drain' changes
    rw [← parts]
    exact h

/-- A request that is not counted is let in or refused. -/
theorem arrive (h : t.Balanced d) (r : HttpRequest) : (t.arrive r).Balanced d := by
  have joined : ∀ v : Visit, v.isAdmitted = false →
      Balanced { t with visits := t.visits ++ [v] } d := by
    intro v outside
    refine ⟨h.drain, ?_, ?_, h.distinct, h.issued⟩
    · intro x hx admitted
      rcases List.mem_append.mp hx with mem | last
      · exact h.guarded x mem admitted
      · rw [List.mem_singleton.mp last, outside] at admitted
        cases admitted
    · simpa [List.filterMap_append, Visit.guard?_of_not_admitted outside] using h.held
  unfold Traffic.arrive
  split
  · split
    · refine joined _ ?_
      unfold Visit.arriving
      split <;> rfl
    · exact h
  · exact h

theorem move (h : t.Balanced d) (a : Move) :
    ∃ d', (t.move a).Balanced d' ∧ (d.isDraining = true → d'.isDraining = true) := by
  cases a with
  | arrive r => exact ⟨d, h.arrive r, id⟩
  | visit i turn =>
    obtain ⟨d', h', same⟩ := h.visit i turn
    exact ⟨d', h', same.trans⟩
  | trigger =>
    refine ⟨d.trigger t.server.moment.now, ?_, fun _ => rfl⟩
    exact ⟨congrArg (Option.map _) h.drain, h.guarded, h.held, h.distinct, h.issued⟩
  | pass world m => exact ⟨d, ⟨h.drain, h.guarded, h.held, h.distinct, h.issued⟩, id⟩

theorem run (h : t.Balanced d) (moves : List Move) :
    ∃ d', (t.run moves).Balanced d' ∧ (d.isDraining = true → d'.isDraining = true) := by
  induction moves generalizing t d with
  | nil => exact ⟨d, h, id⟩
  | cons a rest ih =>
    obtain ⟨d', h', draining'⟩ := h.move a
    obtain ⟨d'', h'', draining''⟩ := ih h'
    exact ⟨d'', h'', draining'' ∘ draining'⟩

theorem isDraining (h : t.Balanced d) : t.server.isDraining = d.isDraining := by
  unfold Server.isDraining
  rw [h.drain]
  rfl

/-- The count is that of the admitted requests and streams that are alive. -/
theorem inFlight (h : t.Balanced d) : t.server.inFlight = t.visits.countP Visit.isAdmitted := by
  have same : ∀ v ∈ t.visits, v.guard?.isSome = true ↔ v.isAdmitted = true := by
    intro v hv
    refine ⟨fun some => ?_, h.guarded v hv⟩
    by_contra outside
    rw [Visit.guard?_of_not_admitted (by simpa using outside)] at some
    cases some
  calc t.server.inFlight
    _ = d.held.length := by
      unfold Server.inFlight
      rw [h.drain]
      rfl
    _ = (t.visits.filterMap Visit.guard?).length := h.held.length_eq.symm
    _ = t.visits.countP fun v => v.guard?.isSome := List.length_filterMap_eq_countP
    _ = t.visits.countP Visit.isAdmitted := List.countP_congr same

/-- To take back the guard of a request that is alive lowers the count by one. -/
theorem inFlight_release (h : t.Balanced d) {v : Visit} (hv : v ∈ t.visits) {guard : Nat}
    (own : v.guard? = some guard) : (d.release guard).inFlight + 1 = d.inFlight := by
  have mem : guard ∈ d.held := h.held.mem_iff.mp (List.mem_filterMap.mpr ⟨v, hv, own⟩)
  unfold Drain.inFlight
  rw [Drain.held_release h.distinct]
  exact List.length_erase_add_one mem

end Balanced
end Traffic

/-! ## While the server drains -/

/-- With what a request is refused while the server drains. -/
def Server.refusal : HttpResponse where
  status := 503
  contentType := "application/json"
  body := .json (.object
    [("code", .str "unavailable"), ("message", .str "gateway is shutting down")])

/-- A request that was refused and never let in. -/
structure Visit.IsRefused (v : Visit) : Prop where
  phase : v.phase = .ended
  response : v.response = some Server.refusal

theorem Server.enter_of_isDraining {s : Server} (h : s.isDraining = true) :
    ∃ e, s.enter = .error e ∧ HttpResponse.ofFailure e = refusal := by
  unfold isDraining at h
  unfold enter
  cases drain : s.drain with
  | none => simp [drain] at h
  | some d =>
    have draining : d.isDraining = true := by simpa [drain] using h
    dsimp only
    rw [if_pos draining]
    refine ⟨_, rfl, ?_⟩
    have code : Code.unavailable.name.map Char.toLower = "unavailable" := by decide +kernel
    unfold HttpResponse.ofFailure Failure.body
    dsimp only [Failure.code]
    rw [code]
    rfl

/-- To begin the draining once more changes nothing. -/
theorem Server.trigger_of_isDraining {s : Server} (h : s.isDraining = true) : s.trigger = s := by
  obtain ⟨gateway, world, drain, moment⟩ := s
  cases drain with
  | none => rfl
  | some d =>
    obtain ⟨timeout, handlesSignals, issued, held, triggeredAt⟩ := d
    cases triggeredAt with
    | none => cases h
    | some instant => rfl

/-- A server that drains refuses each request to a verb and is as before. -/
theorem Server.answer_of_isDraining {s : Server} (h : s.isDraining = true) {r : HttpRequest}
    {v : Verb} (route : s.route? r.path = some (.verb v)) (post : r.method = "POST") :
    s.answer r = (some refusal, s) := by
  obtain ⟨e, refused, response⟩ := enter_of_isDraining h
  unfold answer
  rw [route]
  dsimp only
  rw [if_pos post, answerVerb_eq, refused]
  dsimp only
  rw [response]

theorem Visit.arriving_of_isDraining {s : Server} (h : s.isDraining = true) (v : Verb)
    (r : HttpRequest) : arriving s v r =
      { verb := v, request := r, phase := .ended, response := some Server.refusal } := by
  obtain ⟨e, error, response⟩ := Server.enter_of_isDraining h
  unfold arriving
  rw [error]
  dsimp only
  rw [response]

namespace Traffic

variable {t t' : Traffic} {d : Drain}

theorem arrive_at_verb {r : HttpRequest} {v : Verb}
    (route : t.server.route? r.path = some (.verb v)) (post : r.method = "POST") :
    t.arrive r = { t with visits := t.visits ++ [.arriving t.server v r] } := by
  unfold arrive
  rw [route]
  dsimp only
  rw [if_pos post]

theorem arrive_of_isDraining (h : t.server.isDraining = true) (r : HttpRequest) :
    ∃ refused, t.arrive r = { t with visits := t.visits ++ refused } ∧
      ∀ v ∈ refused, v.IsRefused := by
  have unchanged : t = { t with visits := t.visits ++ [] } := by simp
  by_cases verb : ∃ v, t.server.route? r.path = some (.verb v) ∧ r.method = "POST"
  · obtain ⟨v, route, post⟩ := verb
    refine ⟨_, arrive_at_verb route post, fun x hx => ?_⟩
    rw [List.mem_singleton.mp hx, Visit.arriving_of_isDraining h]
    exact ⟨rfl, rfl⟩
  · refine ⟨[], ?_, by simp⟩
    rw [← unchanged]
    unfold arrive
    split
    · next v route => rw [if_neg fun post => verb ⟨v, route, post⟩]
    · rfl

theorem visit_eq {i : Nat} {v : Visit} (found : t.visits[i]? = some v) (turn : Visit.Turn) :
    t.visit i turn = ⟨(v.take t.server turn).1, t.visits.set i (v.take t.server turn).2⟩ := by
  unfold visit
  rw [found]

theorem visit_of_ended {i : Nat} (h : ∀ v, t.visits[i]? = some v → v.phase = .ended)
    (turn : Visit.Turn) : t.visit i turn = t := by
  cases found : t.visits[i]? with
  | none =>
    unfold visit
    rw [found]
  | some v =>
    obtain ⟨bound, rfl⟩ := List.getElem?_eq_some_iff.mp found
    rw [visit_eq found, Visit.take_of_ended (h _ found) turn, List.set_getElem_self]

/-- Two servers with the same requests, the first of which drains and has refused more requests. -/
structure Refuses (t t' : Traffic) : Prop where
  draining : t.server.isDraining = true
  server : ∃ instant, t.server = t'.server.triggeredAt instant
  visits : ∃ refused, t.visits = t'.visits ++ refused ∧ ∀ v ∈ refused, v.IsRefused

namespace Refuses

theorem arrive (h : t.Refuses t') (r : HttpRequest) : (t.arrive r).Refuses t' := by
  obtain ⟨more, arrived, refused⟩ := arrive_of_isDraining h.draining r
  obtain ⟨earlier, visits, refused'⟩ := h.visits
  rw [arrived]
  refine ⟨h.draining, h.server, earlier ++ more, ?_, ?_⟩
  · rw [visits, List.append_assoc]
  · exact List.forall_mem_append.mpr ⟨refused', refused⟩

theorem visit (h : t.Refuses t') (balanced : t.Balanced d) (i : Nat) (turn : Visit.Turn) :
    (t.visit i turn).Refuses (t'.visit i turn) := by
  obtain ⟨instant, server⟩ := h.server
  obtain ⟨refused, visits, all⟩ := h.visits
  obtain ⟨d', balanced', same⟩ := balanced.visit i turn
  have draining : (t.visit i turn).server.isDraining = true := by
    rw [balanced'.isDraining, same, ← balanced.isDraining]
    exact h.draining
  -- past the requests that both have, there are only refused ones, to which nothing happens
  by_cases bound : i < t'.visits.length
  · have found : t.visits[i]? = some t'.visits[i] := by
      rw [visits, List.getElem?_append_left bound, List.getElem?_eq_getElem bound]
    have left : t.visit i turn = ⟨(t'.visits[i].take t'.server turn).1.triggeredAt instant,
        t'.visits.set i (t'.visits[i].take t'.server turn).2 ++ refused⟩ := by
      rw [visit_eq found, server, Visit.take_triggeredAt, visits, List.set_append_left _ _ bound]
    rw [left] at draining ⊢
    rw [visit_eq (List.getElem?_eq_getElem bound)]
    exact ⟨draining, ⟨instant, rfl⟩, refused, rfl, all⟩
  · have untouched : t'.visit i turn = t' := by
      refine visit_of_ended (fun v found => ?_) turn
      rw [List.getElem?_eq_none (Nat.le_of_not_lt bound)] at found
      cases found
    have ended : t.visit i turn = t := by
      refine visit_of_ended (fun v found => ?_) turn
      rw [visits, List.getElem?_append_right (Nat.le_of_not_lt bound)] at found
      exact (all v (List.mem_of_getElem? found)).phase
    rw [untouched, ended]
    exact h

end Refuses

theorem Refuses.run (h : t.Refuses t') (balanced : t.Balanced d) (moves : List Move) :
    (t.run moves).Refuses (t'.run (moves.filter Move.isInside)) := by
  induction moves generalizing t t' d with
  | nil => exact h
  | cons a rest ih =>
    obtain ⟨d', balanced', _⟩ := balanced.move a
    cases a with
    | arrive r => exact ih (h.arrive r) balanced'
    | visit i turn => exact ih (h.visit balanced i turn) balanced'
    | trigger =>
      have same : t.move .trigger = t := by
        unfold move
        dsimp only
        rw [Server.trigger_of_isDraining h.draining]
      show ((t.move .trigger).run rest).Refuses _
      rw [same]
      exact ih h balanced
    | pass world m =>
      obtain ⟨instant, server⟩ := h.server
      refine ih ⟨h.draining, ⟨instant, ?_⟩, h.visits⟩ balanced'
      show ({ t.server with world, moment := m } : Server) = _
      rw [server]
      rfl

/-- From the first moment of draining on, the requests that are there go on as they would have, and
whatever else arrives is refused. -/
theorem refuses_trigger (balanced : t.Balanced d) (later : List Move) :
    ((t.move .trigger).run later).Refuses (t.run (later.filter Move.isInside)) := by
  obtain ⟨d', balanced', _⟩ := balanced.move .trigger
  have draining : (t.move .trigger).server.isDraining = true := by
    unfold move Server.trigger Server.isDraining
    rw [balanced.drain]
    rfl
  have server : (t.move .trigger).server =
      t.server.triggeredAt (some (d.triggeredAt.getD t.server.moment.now)) := by
    unfold move Server.trigger Server.triggeredAt
    rw [balanced.drain]
    rfl
  have start : (t.move .trigger).Refuses t :=
    ⟨draining, ⟨_, server⟩, [], (List.append_nil _).symm, by simp⟩
  exact start.run balanced' later

theorem ended_run (draining : t.server.isDraining = true)
    (ended : ∀ v ∈ t.visits, v.phase = .ended) (balanced : t.Balanced d) (later : List Move) :
    ∀ v ∈ (t.run later).visits, v.phase = .ended := by
  induction later generalizing t d with
  | nil => exact ended
  | cons a rest ih =>
    obtain ⟨d', balanced', still⟩ := balanced.move a
    have draining' : (t.move a).server.isDraining = true := by
      rw [balanced'.isDraining]
      exact still (balanced.isDraining ▸ draining)
    refine ih draining' ?_ balanced'
    cases a with
    | arrive r =>
      obtain ⟨more, arrived, refused⟩ := arrive_of_isDraining draining r
      show ∀ v ∈ (t.arrive r).visits, v.phase = .ended
      rw [arrived]
      exact List.forall_mem_append.mpr ⟨ended, fun v hv => (refused v hv).phase⟩
    | visit i turn =>
      show ∀ v ∈ (t.visit i turn).visits, v.phase = .ended
      rw [visit_of_ended (fun v found => ended v (List.mem_of_getElem? found))]
      exact ended
    | trigger => exact ended
    | pass world m => exact ended

theorem count_of_enter {s s' : Server} {guard : Option Nat} (entered : s.enter = .ok (guard, s'))
    {v : Visit} (passing : v.phase = .passing) :
    v.count s = (s', { v with phase := .handled guard }) := by
  unfold Server.enter at entered
  unfold Visit.count
  rw [passing]
  dsimp only
  cases drain : s.drain with
  | none =>
    rw [drain] at entered
    cases entered
    rfl
  | some d =>
    rw [drain] at entered
    dsimp only at entered
    split at entered
    · cases entered
    · cases entered
      rfl

/-- A request that is answered without anything in between is answered as by the server alone. -/
theorem run_answer {s : Server} {r : HttpRequest} {v : Verb}
    (route : s.route? r.path = some (.verb v)) (post : r.method = "POST")
    {response : HttpResponse} {s' : Server} (answered : s.answer r = (some response, s')) :
    (run ⟨s, []⟩ [.arrive r, .visit 0 .count, .visit 0 .answer]).server = s' ∧
    (run ⟨s, []⟩ [.arrive r, .visit 0 .count, .visit 0 .answer]).visits.map (·.response) =
      [some response] := by
  have alone : s.answer r = s.answerVerb v r := by
    unfold Server.answer
    rw [route]
    dsimp only
    rw [if_pos post]
  have arrived : (Traffic.mk s []).move (.arrive r) = ⟨s, [.arriving s v r]⟩ :=
    arrive_at_verb route post
  rw [alone, Server.answerVerb_eq] at answered
  unfold run
  simp only [List.foldl_cons, List.foldl_nil]
  rw [arrived]
  have single : ∀ (s : Server) (v : Visit) (turn : Visit.Turn), (Traffic.mk s [v]).move
      (.visit 0 turn) = ⟨(v.take s turn).1, [(v.take s turn).2]⟩ := fun _ _ _ => rfl
  rw [single, single]
  cases entered : s.enter with
  | error e =>
    rw [entered] at answered
    cases answered
    let visit : Visit :=
      { verb := v, request := r, phase := .ended, response := some (.ofFailure e) }
    have refused : Visit.arriving s v r = visit := by
      unfold Visit.arriving
      rw [entered]
    have still : ∀ turn, visit.take s turn = (s, visit) := Visit.take_of_ended rfl
    rw [refused, still, still]
    exact ⟨rfl, rfl⟩
  | ok entry =>
    obtain ⟨guard, s''⟩ := entry
    rw [entered] at answered
    let visit : Visit := { verb := v, request := r, phase := .passing }
    have passing : Visit.arriving s v r = visit := by
      unfold Visit.arriving
      rw [entered]
    have counted : visit.take s .count = (s'', { visit with phase := .handled guard }) :=
      count_of_enter (v := visit) entered rfl
    rw [passing, counted]
    unfold Visit.take Visit.answer
    dsimp only at answered ⊢
    rw [answered]
    unfold Visit.settle
    dsimp only
    split <;> exact ⟨rfl, rfl⟩

end Traffic

/-- Requests come and go at a server with draining, and the draining begins at any time. The count
is that of the requests and streams that are admitted and alive, and whenever one of them ends it
goes down by one from above zero. A server that drains never stops to drain, refuses each request to
a verb and stays as it was; when all that was let in has ended, its count is zero and stays so.
Those that were let in before go on as if the draining had never begun. -/
theorem draining_lets_admitted_requests_end {s : Server} {d : Drain} (drains : s.drain = some d)
    (idle : d.held = []) {moves : List Move} {t : Traffic}
    (reached : t = Traffic.run ⟨s, []⟩ moves) :
    t.server.inFlight = t.visits.countP Visit.isAdmitted ∧
    (∀ v ∈ t.visits, v.isAdmitted = true → ∃ d guard, t.server.drain = some d ∧
      v.guard? = some guard ∧ (d.release guard).inFlight + 1 = d.inFlight) ∧
    (t.server.isDraining = true →
      (∀ later, (t.run later).server.isDraining = true) ∧
      (∀ r v, t.server.route? r.path = some (.verb v) → r.method = "POST" →
        t.server.answer r = (some Server.refusal, t.server) ∧
        t.move (.arrive r) = { t with visits := t.visits ++
          [{ verb := v, request := r, phase := .ended, response := some Server.refusal }] }) ∧
      ((∀ v ∈ t.visits, v.phase = .ended) → ∀ later, (t.run later).server.inFlight = 0)) ∧
    ∀ later, ∃ instant refused,
      ((t.move .trigger).run later).server =
        (t.run (later.filter Move.isInside)).server.triggeredAt instant ∧
      ((t.move .trigger).run later).visits =
        (t.run (later.filter Move.isInside)).visits ++ refused ∧
      ∀ v ∈ refused, v.IsRefused := by
  have start : (Traffic.mk s []).Balanced d := by
    refine ⟨drains, by simp, ?_, ?_, ?_⟩ <;> simp [idle]
  obtain ⟨d', balanced, _⟩ := start.run moves
  rw [← reached] at balanced
  refine ⟨balanced.inFlight, fun v hv admitted => ?_, fun draining => ⟨?_, ?_, ?_⟩, fun later => ?_⟩
  · obtain ⟨guard, own⟩ := Option.isSome_iff_exists.mp (balanced.guarded v hv admitted)
    exact ⟨d', guard, balanced.drain, own, balanced.inFlight_release hv own⟩
  · intro later
    obtain ⟨d'', balanced', still⟩ := balanced.run later
    rw [balanced'.isDraining]
    exact still (balanced.isDraining ▸ draining)
  · intro r v route post
    refine ⟨Server.answer_of_isDraining draining route post, ?_⟩
    rw [← Visit.arriving_of_isDraining draining]
    exact Traffic.arrive_at_verb route post
  · intro ended later
    obtain ⟨d'', balanced', _⟩ := balanced.run later
    have none : ∀ v ∈ (t.run later).visits, ¬v.isAdmitted = true := by
      intro v hv
      have gone := Traffic.ended_run draining ended balanced later v hv
      simp [Visit.isAdmitted, gone]
    rw [balanced'.inFlight, List.countP_eq_zero]
    exact none
  · obtain ⟨_, ⟨instant, server⟩, refused, visits, all⟩ := Traffic.refuses_trigger balanced later
    exact ⟨instant, refused, server, visits, all⟩

namespace Sample

def drainingServer : Server := { itemServer with drain := some {} }

/-- A fetch arrives and is counted, the draining begins, and another one arrives. -/
def arrivals : List Move :=
  [.arrive (titleRequest []), .visit 0 .count, .trigger, .arrive (titleRequest [])]

end Sample

/-- Of two fetches the second is refused, for the first is on its way when the draining begins. The
first is counted until it is answered. -/
theorem fetch_ends_while_server_drains :
    (Traffic.run ⟨Sample.drainingServer, []⟩ Sample.arrivals).server.inFlight = 1 ∧
    (Traffic.run ⟨Sample.drainingServer, []⟩
      (Sample.arrivals ++ [.visit 0 .answer])).server.inFlight = 0 ∧
    (Traffic.run ⟨Sample.drainingServer, []⟩ (Sample.arrivals ++ [.visit 0 .answer])).visits.map
      (fun v => v.response.map (·.status)) = [some 200, some 503] := by
  have drains : Sample.drainingServer.drain = some {} := rfl
  have before := draining_lets_admitted_requests_end drains rfl
    (t := Traffic.run ⟨Sample.drainingServer, []⟩ Sample.arrivals) rfl
  have after := draining_lets_admitted_requests_end drains rfl
    (t := Traffic.run ⟨Sample.drainingServer, []⟩ (Sample.arrivals ++ [.visit 0 .answer])) rfl
  refine ⟨?_, ?_, ?_⟩
  · rw [before.1]
    decide +kernel
  · rw [after.1]
    decide +kernel
  · decide +kernel

end Patchwork
