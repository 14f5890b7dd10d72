import Patchwork.Proofs.Calls
import Patchwork.Proofs.Registration

/-!
# Limits of calls

How long the gateway waits for a call is limited by what is left until the deadline of the request
and by a timeout from set-up: the one that was given for the service or the relation or, if none
was, the one in force when it was registered.
-/

namespace Patchwork
open Proto

/-- The least of the limits that there are. -/
def leastOf (limits : List (Option Nat)) : Option Nat := limits.reduceOption.min?

/-- A call has the least of what is left until the deadline and what was configured. -/
theorem CallContext.callTimeout_eq (ctx : CallContext) (now : Nat) (limit : Option Nat) :
    ctx.callTimeout now limit = leastOf [ctx.remaining now, limit] := by
  unfold callTimeout leastOf
  cases ctx.remaining now <;> cases limit <;> rfl

/-- The timeout that set-up leads to for what calls are made for. -/
inductive Caller.LimitedBy (steps : List Builder.Step) : Caller → Option Nat → Prop
  | service {e : EntryPoint} {i : Nat} {s : Service} {options : ServiceOptions}
      (step : e.ComesFrom none none steps i s options) :
      LimitedBy steps (.entryPoint e) (options.timeout <|> timeoutAfter none (steps.take i))
  | relations {r : Relation} {i : Nat} {s : Service} {methods : List (String × RelationOptions)}
      {x : String × RelationOptions} (step : steps[i]? = some (.relations s methods))
      (asked : x ∈ methods)
      (isFor : r.IsFor s (transportAfter none (steps.take i)) (timeoutAfter none (steps.take i))
        x) :
      LimitedBy steps (.relation r) (x.2.timeout <|> timeoutAfter none (steps.take i))
  | relation {r : Relation} {i : Nat}
      (step : steps[i]? = some (.relation r.method r.name r.resolver)) :
      LimitedBy steps (.relation r) r.resolver.timeout

theorem Builder.limitedBy_timeout {b : Builder} {steps : List Step}
    (h : performAll {} steps = .ok b) {x : Caller} (hx : x.IsOf b.toGateway) :
    x.LimitedBy steps x.timeout := by
  have follows := follows_of_performAll h
  cases x with
  | entryPoint e =>
    obtain ⟨i, s, options, from_⟩ := (follows.served e).mp hx
    have same : e.timeout = _ := from_.isFor.timeout
    rw [Caller.timeout, same]
    exact .service from_
  | relation r =>
    obtain ⟨i, from_⟩ := follows.related r hx
    cases from_ with
    | registered step asked isFor =>
      obtain ⟨t, _, resolver⟩ := isFor.resolver
      rw [Caller.timeout, resolver]
      exact .relations step asked isFor
    | added step => exact .relation step

theorem Builder.isOf_of_build {b : Builder} {g : Gateway} (built : b.build = .ok g) {x : Caller}
    (h : x.IsOf g) : x.IsOf b.toGateway := by
  unfold build at built
  split at built
  · cases built
  · cases built
    exact h

/-- Each call of a gateway that was set up is made for one of the requests. Its timeout is the least
of those that there are of what is left until the deadline and the limit from set-up: the one given
for the service or the relation of the call or, where none was given, the one that was in force when
it was registered. -/
theorem calls_have_configured_limits {b : Builder} {steps : List Builder.Step} {g : Gateway}
    (h : Builder.performAll {} steps = .ok b) (built : b.build = .ok g) {ctx : CallContext}
    {e : Exchange} {v : Verb} {requests : List Request} (made : g.Makes ctx e v requests) :
    ∃ r ∈ requests, ∃ p x limit, g.prepare v r = .ok p ∧
      e.call.IsFor p v.catchesByDefault x ∧ x.LimitedBy steps limit ∧
      e.call.timeout = leastOf [ctx.remaining e.sentAt, limit] := by
  obtain ⟨r, hr, p, prepared, asks⟩ := made.asks
  obtain ⟨x, isFor, timeout⟩ := asks.isFor
  have isOf := Builder.isOf_of_build built ((Gateway.isPrepared prepared).isOf_of_needs isFor.needs)
  exact ⟨r, hr, p, x, x.timeout, prepared, isFor, Builder.limitedBy_timeout h isOf,
    timeout.trans (ctx.callTimeout_eq e.sentAt x.timeout)⟩

namespace Sample

/-- A second for every call, but five seconds for items. -/
def setUpPatiently : List Builder.Step :=
  [.transport ⟨"http://items"⟩, .timeout 1000000000,
   .service items { methods := some ["Get"], timeout := some 5000000000 }]

def patientBuilder : Builder := (Builder.performAll {} setUpPatiently).toOption.getD {}

theorem setsUpPatiently : Builder.performAll {} setUpPatiently = .ok patientBuilder :=
  Outcome.eq_ok_getD (by decide +kernel)

theorem patientBuilder_build : patientBuilder.build = .ok patientBuilder.toGateway := by
  unfold Builder.build
  rw [if_neg (by decide +kernel)]

/-- Seven seconds for a request. -/
def sevenSeconds : CallContext := { deadline := some 7000000000 }

def titleOfItem : List Request := [{ method := "Items.Get", mask := [.mk "title" none [] none] }]

/-- The call for an item's title has a timeout. -/
theorem patientBuilder_makes (ctx : CallContext) (timeout : Option Nat)
    (h : ((patientBuilder.toGateway.serve (knotsAfter fun _ => 0) ctx .fetch {}
      titleOfItem).2.journal.filterMap Event.exchange?).any
        (fun e => e.sentAt == 0 && e.call.timeout == timeout) = true) :
    ∃ e, patientBuilder.toGateway.Makes ctx e .fetch titleOfItem ∧ e.sentAt = 0 ∧
      e.call.timeout = timeout := by
  obtain ⟨e, he, known⟩ := Journal.exists_exchange h
  obtain ⟨sentAt, timeout⟩ := Bool.and_eq_true_iff.mp known
  exact ⟨e, .batch (List.append_nil _).symm he, beq_iff_eq.mp sentAt, beq_iff_eq.mp timeout⟩

end Sample

/-- With seven seconds left the call for an item has the five seconds that were given for items. -/
theorem item_is_waited_for_as_given : ∃ e,
    Sample.patientBuilder.toGateway.Makes Sample.sevenSeconds e .fetch Sample.titleOfItem ∧
    e.call.timeout = some 5000000000 ∧ Sample.sevenSeconds.remaining e.sentAt = some 7000000000 ∧
    ∃ p x, e.call.IsFor p Verb.fetch.catchesByDefault x ∧
      x.LimitedBy Sample.setUpPatiently (some 5000000000) := by
  obtain ⟨e, made, sentAt, timeout⟩ :=
    Sample.patientBuilder_makes Sample.sevenSeconds (some 5000000000) (by decide +kernel)
  obtain ⟨_, _, p, x, limit, _, isFor, limited, least⟩ :=
    calls_have_configured_limits Sample.setsUpPatiently Sample.patientBuilder_build made
  refine ⟨e, made, timeout, by rw [sentAt]; rfl, p, x, isFor, ?_⟩
  rw [timeout, sentAt] at least
  cases limit with
  | none => cases least
  | some t =>
    have five : 5000000000 = min 7000000000 t := Option.some.inj least
    obtain rfl : t = 5000000000 := by omega
    exact limited

/-- A timeout that is given for a service may be longer than the one of all calls: a call to its
method has the longer one, where no deadline is set, and not the least of the two. -/
theorem given_timeout_replaces_that_of_all_calls :
    Builder.performAll {} Sample.setUpPatiently = .ok Sample.patientBuilder ∧
    Sample.patientBuilder.build = .ok Sample.patientBuilder.toGateway ∧
    ∃ e, Sample.patientBuilder.toGateway.Makes {} e .fetch Sample.titleOfItem ∧
      e.call.timeout = some 5000000000 ∧
      leastOf [({} : CallContext).remaining e.sentAt, some 5000000000, some 1000000000] =
        some 1000000000 := by
  obtain ⟨e, made, _, timeout⟩ :=
    Sample.patientBuilder_makes {} (some 5000000000) (by decide +kernel)
  exact ⟨Sample.setsUpPatiently, Sample.patientBuilder_build, e, made, timeout, rfl⟩

end Patchwork
