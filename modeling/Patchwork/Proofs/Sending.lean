import Patchwork.Http
import Patchwork.Proofs.Deadlines

/-!
# What a server sends

A server makes calls for a request while it answers it and, if the answer is a stream, while that is
read. All of them are calls of a prepared request of the body, in the context that the headers give.
-/

namespace Patchwork
open Proto

namespace Server

section

variable (s : Server) (guard : Option Nat) (r : HttpRequest)

/-- Answers a request that was admitted with a guard. -/
def handle (v : Verb) : Option HttpResponse × Server :=
  match v with
  | .listen => s.answerListen guard r
  | v => ((s.answerBatch v r).1, (s.answerBatch v r).2.release guard)

theorem handle_fetch : s.handle guard r .fetch =
    ((s.answerBatch .fetch r).1, (s.answerBatch .fetch r).2.release guard) := rfl

theorem handle_act : s.handle guard r .act =
    ((s.answerBatch .act r).1, (s.answerBatch .act r).2.release guard) := rfl

/-- A request to a verb is admitted and then handled. -/
theorem answerVerb_eq (v : Verb) : s.answerVerb v r = match s.enter with
    | .error e => (some (.ofFailure e), s)
    | .ok (guard, s) => s.handle guard r v := by
  unfold answerVerb
  cases s.enter with
  | error e => rfl
  | ok entry => cases v <;> rfl

end

/-- How a server has answered a request: at once, with a batch or with a stream. -/
inductive Answered (s : Server) (r : HttpRequest) : Option HttpResponse → Moment → Prop
  | atOnce {response : HttpResponse} (whole : ∀ stream, response.body ≠ .events stream) :
      Answered s r (some response) s.moment
  | batch (v : Verb) (requests : List Request) :
      Answered s r
        ((s.gateway.serve s.world (s.context r.headers) v s.moment requests).1.map batchResponse)
        (s.gateway.serve s.world (s.context r.headers) v s.moment requests).2
  | listening {response : Option HttpResponse} (request : Option Request)
      (opened : ∀ whole stream, response = some whole → whole.body = .events stream →
        (s.gateway.listen s.world (s.context r.headers) s.moment request).1 =
            some (.ok stream.listening) ∧ stream.ctx = s.context r.headers) :
      Answered s r response (s.gateway.listen s.world (s.context r.headers) s.moment request).2

variable {s : Server} {r : HttpRequest}

/-- Only the drain tells whether a request was let in. -/
theorem enter_eq_ok {guard : Option Nat} {s' : Server} (h : s.enter = .ok (guard, s')) :
    ∃ drain, s' = { s with drain } := by
  unfold enter at h
  split at h
  · cases h
    exact ⟨s.drain, rfl⟩
  · split at h
    · cases h
    · cases h
      exact ⟨_, rfl⟩

@[simp] theorem moment_release (s : Server) (guard : Option Nat) :
    (s.release guard).moment = s.moment := by
  cases guard <;> rfl

theorem body_batchResponse (outcome : Outcome (List Response)) (stream : EventStream) :
    (batchResponse outcome).body ≠ .events stream := by
  cases outcome <;> simp [batchResponse, HttpResponse.ofFailure, HttpResponse.ofJson]

theorem body_ofFailure (e : Failure) (stream : EventStream) :
    (HttpResponse.ofFailure e).body ≠ .events stream := by
  simp [HttpResponse.ofFailure, HttpResponse.ofJson]

theorem body_answerPage (method : String) {page : HttpResponse} (stream : EventStream)
    (h : page.body ≠ .events stream) : (answerPage method page).body ≠ .events stream := by
  unfold answerPage
  split
  · exact h
  · split
    · unfold HttpResponse.head
      split <;> simp
    · simp

theorem answered_answerBatch (s : Server) (v : Verb) (r : HttpRequest) :
    s.Answered r (s.answerBatch v r).1 (s.answerBatch v r).2.moment := by
  unfold answerBatch
  split
  · exact .atOnce (body_ofFailure _)
  · exact .batch v _

theorem answered_answerListen (s : Server) (guard : Option Nat) (r : HttpRequest) :
    s.Answered r (s.answerListen guard r).1 (s.answerListen guard r).2.moment := by
  unfold answerListen
  split
  · rw [moment_release]
    exact .atOnce (body_ofFailure _)
  · next listen _ =>
    dsimp only
    split
    · exact .listening listen.request (by simp)
    · next e _ =>
      rw [moment_release]
      refine .listening listen.request fun whole stream h events => ?_
      cases h
      exact absurd events (body_ofFailure e stream)
    · next listening heq =>
      refine .listening listen.request fun whole stream h events => ?_
      cases h
      cases events
      exact ⟨heq, rfl⟩

/-- The guard that a request is given changes nothing about how it is answered. -/
theorem Answered.of_drain {drain : Option Drain} {response : Option HttpResponse} {m : Moment}
    (h : Answered { s with drain } r response m) : Answered s r response m := by
  cases h with
  | atOnce whole => exact .atOnce whole
  | batch v requests => exact .batch v requests
  | listening request opened => exact .listening request opened

theorem answered_handle (s : Server) (guard : Option Nat) (r : HttpRequest) (v : Verb) :
    s.Answered r (s.handle guard r v).1 (s.handle guard r v).2.moment := by
  cases v with
  | listen => exact answered_answerListen s guard r
  | fetch =>
    rw [handle_fetch, moment_release]
    exact answered_answerBatch s .fetch r
  | act =>
    rw [handle_act, moment_release]
    exact answered_answerBatch s .act r

theorem answered_answerVerb (s : Server) (v : Verb) (r : HttpRequest) :
    s.Answered r (s.answerVerb v r).1 (s.answerVerb v r).2.moment := by
  rw [answerVerb_eq]
  cases entered : s.enter with
  | error e => exact .atOnce (body_ofFailure e)
  | ok entry =>
    obtain ⟨guard, s'⟩ := entry
    obtain ⟨drain, rfl⟩ := enter_eq_ok entered
    exact (answered_handle _ guard r v).of_drain

theorem answered_answer (s : Server) (r : HttpRequest) :
    s.Answered r (s.answer r).1 (s.answer r).2.moment := by
  unfold answer
  split
  · exact .atOnce (by simp)
  · exact .atOnce fun stream => body_answerPage _ _ (by simp [HttpResponse.ofJson])
  · exact .atOnce fun stream => body_answerPage _ _ (by simp)
  · split
    · exact answered_answerVerb s _ r
    · exact .atOnce (by simp)

/-- A server that answers with a stream has opened it for a request, in the context of the headers. -/
theorem Answered.opened {response : Option HttpResponse} {m : Moment} (h : s.Answered r response m)
    {whole : HttpResponse} {stream : EventStream} (hr : response = some whole)
    (events : whole.body = .events stream) : stream.ctx = s.context r.headers ∧ ∃ request,
      s.gateway.listen s.world (s.context r.headers) s.moment (some request) =
        (some (.ok stream.listening), m) := by
  cases h with
  | atOnce whole =>
    cases hr
    exact absurd events (whole stream)
  | batch v requests =>
    obtain ⟨outcome, _, rfl⟩ := Option.map_eq_some_iff.mp hr
    exact absurd events (body_batchResponse outcome stream)
  | listening request opened =>
    obtain ⟨listening, ctx⟩ := opened whole stream hr events
    refine ⟨ctx, ?_⟩
    cases request with
    | none => cases listening
    | some request => exact ⟨request, Prod.ext listening rfl⟩

/-- A call that a server makes for a request: while it answers it, or while the stream is read with
which it answers. -/
inductive Sends (s : Server) (r : HttpRequest) (e : Exchange) : Prop
  | answering {fresh : Journal}
      (journal : (s.answer r).2.moment.journal = fresh ++ s.moment.journal)
      (called : .called e ∈ fresh)
  | reading {response : HttpResponse} {s₁ : Server} {stream : EventStream} {m : Moment}
      {limit : Option Nat} {fresh : Journal}
      (answered : s.answer r = (some response, s₁)) (body : response.body = .events stream)
      (later : s₁.moment.Precedes m)
      (journal : (stream.listening.read s.world stream.ctx m limit).2.journal = fresh ++ m.journal)
      (called : .called e ∈ fresh)

end Server

/-- The calls of a batch with a deadline are sent after it has come in. -/
theorem Gateway.serve_since {g : Gateway} {world : Downstream} {ctx : CallContext} {v : Verb}
    {m : Moment} {requests : List Request} {deadline : Nat} {e : Exchange} {fresh : Journal}
    (hd : ctx.deadline = some deadline)
    (journal : (g.serve world ctx v m requests).2.journal = fresh ++ m.journal)
    (called : .called e ∈ fresh) : m.now ≤ e.sentAt := by
  cases hp : g.prepareAll v requests with
  | error e' =>
    rw [(serve_refused (prepareAll_eq_error.mp hp) world ctx m).2] at journal
    obtain rfl := List.append_left_eq_self.mp journal.symm
    cases called
  | ok prepared =>
    obtain ⟨final, ending, events, run, unfolds, _, _, _, _, going⟩ :=
      runAll_within (setting world ctx v) hd m.now m.journal prepared
    obtain ⟨_, _, journal', _⟩ := serve_of_runAll hp run going
    obtain rfl := List.append_cancel_right (journal.symm.trans journal')
    have logs : Journal.Logs (events.map (Run.close final ending)) events :=
      ⟨_, Run.logs_close final ending, rfl⟩
    obtain ⟨e', he', same⟩ := logs.exchange called
    obtain ⟨earlier, later, rfl⟩ := List.append_of_mem he'
    rw [same]
    exact unfolds.attempts.1

namespace Server

variable {s : Server} {r : HttpRequest} {e : Exchange}

/-- A call that a server makes for a request is one of a request in its body. -/
theorem Sends.asks (h : s.Sends r e) : ∃ v request p, s.gateway.prepare v request = .ok p ∧
    p.Asks (s.context r.headers) v.catchesByDefault e.sentAt e.call ∧
    ((s.context r.headers).deadline.isSome → s.moment.now ≤ e.sentAt) := by
  cases h with
  | answering journal called =>
    have answered := answered_answer s r
    generalize (s.answer r).1 = response at answered
    generalize (s.answer r).2.moment = m at answered journal
    cases answered with
    | atOnce =>
      obtain rfl := List.append_left_eq_self.mp journal.symm
      cases called
    | batch v requests =>
      obtain ⟨request, _, p, prepared, asks⟩ := Gateway.serve_asks journal called
      refine ⟨v, request, p, prepared, asks, fun hd => ?_⟩
      obtain ⟨deadline, hd⟩ := Option.isSome_iff_exists.mp hd
      exact Gateway.serve_since hd journal called
    | listening request opened =>
      obtain ⟨request, p, _, prepared, asks, sentAt⟩ := Gateway.listen_asks journal called
      exact ⟨.listen, request, p, prepared, asks, fun _ => Nat.le_of_eq sentAt.symm⟩
  | @reading response s₁ stream m limit fresh answer body later journal called =>
    have answered := answered_answer s r
    obtain ⟨ctx, request, opened⟩ := answered.opened (congrArg Prod.fst answer) body
    have precedes := s.gateway.precedes_listen s.world (s.context r.headers) s.moment (some request)
    rw [opened, answer] at precedes
    obtain ⟨fresh', journal', asked⟩ := stream.listening.readFor_asks s.world stream.ctx m _
    obtain rfl := List.append_cancel_right (journal.symm.trans journal')
    obtain ⟨asks, since⟩ := asked e called
    rw [ctx] at asks
    exact ⟨.listen, request, stream.listening.request, (Gateway.listen_eq_ok opened).1,
      asks, fun _ => Nat.le_trans (Nat.le_trans precedes.now later.now) since⟩

end Server
end Patchwork
