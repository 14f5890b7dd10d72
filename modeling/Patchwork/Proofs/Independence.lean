import Patchwork.Proofs.Interleaving
import Patchwork.Proofs.Validation

/-!
# Requests of a batch do not influence each other

Where each method answers a call by what the call says and no timeout expires, a request comes to
the same end in every batch, alone or beside others, and whenever the answers come.
-/

namespace Patchwork
open Proto

/-- What the methods and resolvers behind the gateway answer, without the time it takes. -/
structure Handlers where
  unary : Method → Transport → Message → Metadata → Reply Message
  consult : Consultation → Resolution

/-- A world whose answers depend on the method, the transport, the message and the metadata of a call
and come after some while, which may depend on anything. -/
structure Downstream.Follows (world : Downstream) (f : Handlers) : Prop where
  comes : world.Answers
  value : ∀ history c, (world.unary history c).value = f.unary c.method c.transport c.message c.metadata
  consult : world.consult = f.consult

/-- Whether the timeout of a call has ended it by an instant. -/
def Exchange.ExpiredBy (e : Exchange) (now : Nat) : Prop :=
  ∃ t, e.settledAt = some t ∧ t ≤ now ∧ e.answeredAt ≠ some t

/-- No timeout has expired between two moments, of the calls made between them. -/
def Moment.Timely (before after : Moment) : Prop :=
  ∀ fresh e, after.journal = fresh ++ before.journal → .called e ∈ fresh → ¬e.ExpiredBy after.now

/-- What a batch is answered with, whenever. -/
def Batch.replyBy (b : Batch) (f : Handlers) (ctx : CallContext) : Resolution :=
  match b.relation.resolver with
  | .custom name =>
    f.consult { resolver := name, relation := b.relation.name, bases := b.bases,
                params := b.params.map (·.message),
                metadata := (ctx.withOperations b.operations).metadata } >>= b.check
  | .method transport _ =>
    match b.relation.request b.bases (b.params.map (·.message)) with
    | .error e => .error e
    | .ok message =>
      match f.unary b.relation.method transport message (ctx.withOperations b.operations).metadata with
      | .ok m => b.relation.valuesOf m >>= b.check
      | .error s => .error (.downstream s)

/-- What the own call of a request is answered with. -/
def Prepared.replyBy (p : Prepared) (f : Handlers) (ctx : CallContext) : Reply Message :=
  f.unary p.entry.method p.entry.transport p.input (ctx.withOperations p.operations).metadata

/-- A request comes to a stage of stitching by the answers to its calls alone. -/
def Prepared.Reaches (p : Prepared) (f : Handlers) (ctx : CallContext) (fallback : Bool)
    (q : Progress) : Prop :=
  ∃ ws, (p.receive fallback (p.replyBy f ctx)).Runs fallback ws q ∧
    ∀ w ∈ ws, ∀ x ∈ w, x.2 = x.1.replyBy f ctx

/-! ## One request -/

/-- Waves whose batches are answered by one function are the same ones. -/
theorem Progress.Runs.unique {fallback : Bool} {g : Batch → Resolution} {p : Progress}
    {d d' : Document} {failure failure' : Option Failure} {ws ws' : List Wave}
    (h : p.Runs fallback ws (.finished d failure)) (hg : ∀ w ∈ ws, ∀ x ∈ w, x.2 = g x.1)
    (h' : p.Runs fallback ws' (.finished d' failure')) (hg' : ∀ w ∈ ws', ∀ x ∈ w, x.2 = g x.1) :
    d = d' ∧ failure = failure' := by
  generalize hq : Progress.finished d failure = q at h
  induction h generalizing ws' with
  | stop p =>
    subst hq
    cases h'
    exact ⟨rfl, rfl⟩
  | @wave _ batches w ws q answered rest ih =>
    cases h' with
    | @wave _ _ w' ws' _ answered' rest' =>
      have answer : ∀ {v : Wave}, (∀ x ∈ v, x.2 = g x.1) → v = v.batches.map fun b => (b, g b) := by
        intro v hv
        rw [Wave.batches, List.map_map]
        have hm : v.map ((fun b => (b, g b)) ∘ fun x => x.1) = v.map id :=
          List.map_congr_left fun x hx => Prod.ext rfl (hv x hx).symm
        rw [hm, List.map_id]
      have hw : w' = w := by
        rw [answer (hg w (List.mem_cons_self ..)), answer (hg' w' (List.mem_cons_self ..)), answered,
          answered']
      subst hw
      exact ih (fun v hv => hg v (List.mem_cons_of_mem _ hv)) rest'
        (fun v hv => hg' v (List.mem_cons_of_mem _ hv)) hq

theorem Prepared.Reaches.unique {p : Prepared} {f : Handlers} {ctx : CallContext} {fallback : Bool}
    {d d' : Document} {failure failure' : Option Failure}
    (h : p.Reaches f ctx fallback (.finished d failure))
    (h' : p.Reaches f ctx fallback (.finished d' failure')) : d = d' ∧ failure = failure' := by
  obtain ⟨ws, hr, hw⟩ := h
  obtain ⟨ws', hr', hw'⟩ := h'
  exact hr.unique (g := (·.replyBy f ctx)) hw hr' hw'

section

variable {world : Downstream} {f : Handlers} {ctx : CallContext}

theorem Batch.result_resolve (b : Batch) (follows : world.Follows f) {owner now : Nat}
    {before : Journal}
    (kept : ∀ e, .called e ∈ (b.resolve world ctx owner now before).events →
      e.answeredAt = e.settledAt) :
    (b.resolve world ctx owner now before).result = b.replyBy f ctx := by
  unfold resolve at kept ⊢
  unfold replyBy
  cases hr : b.relation.resolver with
  | custom name =>
    simp only [follows.consult]
  | method transport timeout =>
    simp only [hr] at kept
    cases hm : b.relation.request b.bases (b.params.map (·.message)) with
    | error e => rfl
    | ok message =>
      rcases ha : attempt (world.unary before.calls) owner now
        (b.call ctx now transport timeout message) with ⟨due, reply, e⟩
      simp only [hm, ha] at kept
      have hv := (attempted ha).kept (kept e (List.mem_cons_self ..))
      rw [follows.value] at hv
      simp only [ha, hv]
      rfl

/-- A request whose calls were settled by their answers has come to where the answers lead. -/
theorem Prepared.Leads.reaches {s : Setting} {p : Prepared} {own : Journal} {due : Option Nat}
    {q : Progress} (h : p.Leads s own due (.stitching q)) (follows : s.world.Follows f)
    (kept : ∀ e, .called e ∈ own → e.answeredAt = e.settledAt) :
    p.Reaches f s.ctx s.fallback q := by
  generalize hq : Stage.stitching q = stage at h
  induction h generalizing q with
  | start now => cases hq
  | called settled =>
    cases hq
    have hr := (attempted settled).kept (kept _ (List.mem_cons_self ..))
    rw [follows.value] at hr
    rw [hr]
    exact ⟨[], .stop _, by simp⟩
  | wave led resolved ih =>
    cases hq
    obtain ⟨ws, hr, hws⟩ := ih (fun e he => kept e (List.mem_append_right _ he)) rfl
    refine ⟨_, hr.snoc_resolved resolved, fun v hv x hx => ?_⟩
    rcases List.mem_append.mp hv with hv | hv
    · exact hws v hv x hx
    · rw [List.mem_singleton.mp hv] at hx
      obtain ⟨r, hin, hxr⟩ := (waveResolved_append resolved).result x hx
      obtain ⟨before, rfl⟩ := hin.resolved
      rw [hxr]
      exact x.1.result_resolve follows fun e he => kept e (List.mem_append_left _ (hin.events he))

end

/-! ## A whole batch -/

/-- How a process stands whose request was answered alike. -/
def Prepared.StandsBy (p : Prepared) (f : Handlers) (ctx : CallContext) (fallback : Bool) :
    Process → Prop
  | .sleeping due _ _ => due.isSome
  | .done d => p.Reaches f ctx fallback (.finished d none)
  | .failed d e => p.Reaches f ctx fallback (.finished d (some e))

/-- The response that the answers to a request lead to. -/
def Prepared.RespondsBy (p : Prepared) (f : Handlers) (ctx : CallContext) (fallback : Bool)
    (r : Response) : Prop :=
  ∃ d, p.Reaches f ctx fallback (.finished d none) ∧ r = Gateway.response p d true

theorem Prepared.RespondsBy.unique {p : Prepared} {f : Handlers} {ctx : CallContext}
    {fallback : Bool} {r r' : Response} (h : p.RespondsBy f ctx fallback r)
    (h' : p.RespondsBy f ctx fallback r') : r = r' := by
  obtain ⟨d, hd, rfl⟩ := h
  obtain ⟨d', hd', rfl⟩ := h'
  rw [(hd.unique hd').1]

theorem Prepared.Leads.kept {s : Setting} {p : Prepared} {own : Journal} {t now : Nat}
    {stage : Stage} (h : p.Leads s own (some t) stage) (passed : t ≤ now)
    (timely : ∀ e, .called e ∈ own → ¬e.ExpiredBy now) :
    ∀ e, .called e ∈ own → e.answeredAt = e.settledAt := by
  intro e he
  obtain ⟨t', hs, hle⟩ := h.settled rfl e he
  rw [hs]
  by_contra hne
  exact timely e he ⟨t', hs, Nat.le_trans hle passed, hne⟩

theorem Prepared.Came.standsBy {s : Setting} {p : Prepared} {now : Nat} {own : Journal}
    {x : Process} {f : Handlers} (h : p.Came s now own x) (follows : s.world.Follows f)
    (timely : ∀ e, .called e ∈ own → ¬e.ExpiredBy now) : p.StandsBy f s.ctx s.fallback x := by
  cases h with
  | sleeping led ahead => exact led.comes follows.comes
  | done led passed => exact led.reaches follows (led.kept passed timely)
  | failed led passed => exact led.reaches follows (led.kept passed timely)

namespace Gateway

/-- No call of a served batch has expired that is in the histories of its requests. -/
theorem Served.timely {s : Setting} {prepared : List Prepared} {before : Moment}
    {served : Option (Outcome (List Response)) × Moment} {xs : List Process} {fresh events : Journal}
    (h : Served s prepared before served xs fresh events) (timely : before.Timely served.2) :
    ∀ e, .called e ∈ events → ¬e.ExpiredBy served.2.now := by
  intro e he
  obtain ⟨e', he', hl⟩ := h.logs.logged he
  cases e' with
  | called e' =>
    have heq : e' = { e with dropped := e'.dropped } := hl
    have hn := timely fresh e' h.journal he'
    rw [heq] at hn
    exact hn
  | consulted owner instant c => cases hl
  | resolved method bases => cases hl

/-- Each process of a served batch stands where the answers to its request lead. -/
theorem Served.standsBy {s : Setting} {prepared : List Prepared} {before : Moment}
    {served : Option (Outcome (List Response)) × Moment} {xs : List Process} {fresh events : Journal}
    {f : Handlers} (h : Served s prepared before served xs fresh events)
    (follows : s.world.Follows f) (timely : before.Timely served.2) :
    List.Forall₂ (fun p x => p.StandsBy f s.ctx s.fallback x) prepared xs :=
  h.interleaved.forall₂.imp fun _ _ ⟨_, ho, hc⟩ =>
    hc.standsBy follows fun e he => h.timely timely e (ho he)

theorem Served.standsBy_of_mem {s : Setting} {prepared : List Prepared} {before : Moment}
    {served : Option (Outcome (List Response)) × Moment} {xs : List Process} {fresh events : Journal}
    {f : Handlers} (h : Served s prepared before served xs fresh events)
    (follows : s.world.Follows f) (timely : before.Timely served.2) {x : Process} (hx : x ∈ xs) :
    ∃ p ∈ prepared, p.StandsBy f s.ctx s.fallback x := by
  obtain ⟨p, hp, own, ho, hc⟩ := h.interleaved.came hx
  exact ⟨p, hp, hc.standsBy follows fun e he => h.timely timely e (ho he)⟩

/-- A batch gets the responses that its requests get by the answers to each of them, and it always
comes to an end. -/
theorem serve_eq_ok {g : Gateway} {world : Downstream} {ctx : CallContext} {v : Verb} {m : Moment}
    {requests : List Request} {prepared : List Prepared} {f : Handlers}
    (valid : g.prepareAll v requests = .ok prepared) (follows : world.Follows f)
    (timely : m.Timely (g.serve world ctx v m requests).2) :
    (g.serve world ctx v m requests).1.isSome ∧ ∀ rs,
      (g.serve world ctx v m requests).1 = some (.ok rs) ↔
        List.Forall₂ (fun p r => p.RespondsBy f ctx v.catchesByDefault r) prepared rs := by
  obtain ⟨xs, fresh, events, h⟩ := serve_prepared world ctx m valid
  have stands := h.standsBy follows timely
  have member := fun {x} (hx : x ∈ xs) => h.standsBy_of_mem follows timely hx
  have ha := h.answer
  generalize (g.serve world ctx v m requests).1 = result at ha ⊢
  cases ha with
  | complete done =>
    have hr : List.Forall₂ (fun p r => p.RespondsBy f ctx v.catchesByDefault r) prepared
      (responses prepared xs) := responses_forall₂ stands done
    refine ⟨rfl, fun rs => ⟨fun he => ?_, fun he => ?_⟩⟩
    · cases he
      exact hr
    · have unique : Relator.RightUnique fun (p : Prepared) r =>
          p.RespondsBy f ctx v.catchesByDefault r := fun _ _ _ h h' => h.unique h'
      rw [unique.forall₂ hr he]
  | @failed d e failed =>
    refine ⟨rfl, fun rs => ⟨fun he => (by cases he), fun he => ?_⟩⟩
    obtain ⟨p, hp, hd⟩ := member failed
    obtain ⟨r, _, d', hd', _⟩ := forall₂_exists_right he hp
    cases (hd.unique hd').2
  | stuck waits =>
    obtain ⟨p, _, hs⟩ := member waits
    cases hs

end Gateway

/-- Where each single list has one element, their concatenation has these. -/
theorem forall₂_iff_flatten {R : Prepared → Response → Prop} {S : Request → List Response → Prop}
    {requests : List Request} {prepared : List Prepared} {responses : List Response}
    (single : List.Forall₂ (fun r p => ∀ rs, S r rs ↔ ∃ x, rs = [x] ∧ R p x) requests prepared) :
    List.Forall₂ R prepared responses ↔
      ∃ singles, List.Forall₂ S requests singles ∧ responses = singles.flatten := by
  induction single generalizing responses with
  | nil =>
    rw [List.forall₂_nil_left_iff]
    constructor
    · rintro rfl
      exact ⟨[], .nil, rfl⟩
    · rintro ⟨singles, h, rfl⟩
      rw [List.forall₂_nil_left_iff.mp h]
      rfl
  | @cons r p requests prepared first rest ih =>
    constructor
    · intro h
      cases h with
      | @cons _ x _ responses hx hr =>
        obtain ⟨singles, hs, rfl⟩ := ih.mp hr
        exact ⟨[x] :: singles, .cons ((first [x]).mpr ⟨x, rfl, hx⟩) hs, rfl⟩
    · rintro ⟨singles, h, rfl⟩
      cases h with
      | @cons _ rs _ singles hr hs =>
        obtain ⟨x, rfl, hx⟩ := (first rs).mp hr
        exact .cons hx (ih.mpr ⟨singles, hs, rfl⟩)

/-- A batch succeeds exactly when each of its requests does in a batch of its own, and then has their
responses in order. This holds whenever the answers come that no timeout cuts off, in the batch and
alone. -/
theorem requests_are_independent (g : Gateway) (f : Handlers) (world : Downstream)
    (alone : Request → Downstream) (ctx : CallContext) (v : Verb) (m : Moment)
    (start : Request → Moment) (requests : List Request) (nonempty : requests ≠ [])
    (follows : world.Follows f) (followsAlone : ∀ r ∈ requests, (alone r).Follows f)
    (timely : m.Timely (g.serve world ctx v m requests).2)
    (timelyAlone : ∀ r ∈ requests, (start r).Timely (g.serve (alone r) ctx v (start r) [r]).2) :
    (g.serve world ctx v m requests).1.isSome ∧ ∀ responses,
      (g.serve world ctx v m requests).1 = some (.ok responses) ↔
        ∃ singles, List.Forall₂
          (fun r rs => (g.serve (alone r) ctx v (start r) [r]).1 = some (.ok rs)) requests singles ∧
          responses = singles.flatten := by
  cases hp : g.prepareAll v requests with
  | error e =>
    have refused := Gateway.prepareAll_eq_error.mp hp
    rw [(Gateway.serve_refused refused world ctx m).1]
    refine ⟨rfl, fun responses => ⟨fun h => (by cases h), ?_⟩⟩
    rintro ⟨singles, hs, _⟩
    rcases Gateway.firstRefused_iff.mp ⟨e, refused⟩ with rfl | ⟨r, hr, e', he⟩
    · exact absurd rfl nonempty
    · obtain ⟨rs, _, hok⟩ := forall₂_exists_right hs hr
      rw [(Gateway.serve_refused (.single he) (alone r) ctx (start r)).1] at hok
      cases hok
  | ok prepared =>
    obtain ⟨hs, hb⟩ := Gateway.serve_eq_ok hp follows timely
    refine ⟨hs, fun responses => (hb responses).trans (forall₂_iff_flatten ?_)⟩
    have hall := (List.forall₂_and_left (p := (· ∈ requests)) requests prepared).mpr
      ⟨fun r hr => hr, (Gateway.prepareAll_eq_ok.mp hp).2⟩
    refine hall.imp fun r p ⟨hr, hrp⟩ rs => ?_
    obtain ⟨_, hsingle⟩ := Gateway.serve_eq_ok (Gateway.prepareAll_singleton hrp)
      (followsAlone r hr) (timelyAlone r hr)
    rw [hsingle rs, List.forall₂_cons_left_iff]
    constructor
    · rintro ⟨x, rest, hx, hrest, rfl⟩
      rw [List.forall₂_nil_left_iff.mp hrest]
      exact ⟨x, rfl, hx⟩
    · rintro ⟨x, rfl, hx⟩
      exact ⟨x, [], hx, .nil, rfl⟩

namespace Sample

def knots : Handlers where
  unary method _ _ _ := knot method
  consult _ := .ok []

theorem knotsAfter_follows (delay : Nat → Nat) : (knotsAfter delay).Follows knots :=
  ⟨fun _ _ _ => rfl, fun _ _ => rfl, rfl⟩

/-- An item with its parent, and its title alone. -/
def pair : List Request :=
  [{ method := "Items.Get", mask }, { method := "Items.Get", mask := [.mk "title" none [] none] }]

/-- Whether a call was settled by its answer. -/
def isKept : Event → Bool
  | .called e => e.answeredAt == e.settledAt
  | _ => true

theorem timely_of_isKept {after : Moment} (h : after.journal.all isKept = true) :
    ({} : Moment).Timely after := by
  rintro fresh e hj he ⟨t, hs, _, hn⟩
  rw [hj] at h
  have hk := List.all_eq_true.mp h (.called e) (List.mem_append_left _ he)
  exact hn ((beq_iff_eq.mp hk).trans hs)

theorem exists_ok {x : Option (Outcome α)} (h : (x.bind Except.toOption).isSome = true) :
    ∃ a, x = some (.ok a) := by
  cases x with
  | none => cases h
  | some r =>
    cases r with
    | ok a => exact ⟨a, rfl⟩
    | error e => cases h

end Sample

/-- Of two requests the first is answered long after the second, and both get the responses that they
get alone. -/
theorem pair_independent : ∃ singles,
    List.Forall₂ (fun r rs =>
      (Sample.gateway.serve (Sample.knotsAfter fun _ => 0) {} .fetch {} [r]).1 = some (.ok rs))
      Sample.pair singles ∧
    (Sample.gateway.serve (Sample.knotsAfter (9 - ·)) {} .fetch {} Sample.pair).1 =
      some (.ok singles.flatten) := by
  have slow : ({} : Moment).Timely
      (Sample.gateway.serve (Sample.knotsAfter (9 - ·)) {} .fetch {} Sample.pair).2 :=
    Sample.timely_of_isKept (by decide +kernel)
  have quick : ∀ r ∈ Sample.pair, ({} : Moment).Timely
      (Sample.gateway.serve (Sample.knotsAfter fun _ => 0) {} .fetch {} [r]).2 := by
    intro r hr
    have hall : Sample.pair.all (fun r =>
      (Sample.gateway.serve (Sample.knotsAfter fun _ => 0) {} .fetch {} [r]).2.journal.all
        Sample.isKept) = true := by decide +kernel
    exact Sample.timely_of_isKept (List.all_eq_true.mp hall r hr)
  obtain ⟨_, hb⟩ := requests_are_independent Sample.gateway Sample.knots
    (Sample.knotsAfter (9 - ·)) (fun _ => Sample.knotsAfter fun _ => 0) {} .fetch {} (fun _ => {})
    Sample.pair (by decide) (Sample.knotsAfter_follows _) (fun _ _ => Sample.knotsAfter_follows _) slow
    quick
  have ok : ((Sample.gateway.serve (Sample.knotsAfter (9 - ·)) {} .fetch {} Sample.pair).1.bind
    Except.toOption).isSome = true := by decide +kernel
  obtain ⟨responses, hr⟩ := Sample.exists_ok ok
  obtain ⟨singles, hs, rfl⟩ := (hb responses).mp hr
  exact ⟨singles, hs, hr⟩

end Patchwork
