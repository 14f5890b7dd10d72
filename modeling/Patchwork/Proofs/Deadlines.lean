import Patchwork.Proofs.SideEffects
import Patchwork.Proofs.Soundness

/-!
# Batches with a deadline

No call is sent when the deadline has passed, and each one that is sent has a timeout that ends by
then. A request waits for nothing but its calls. So a batch comes to its end by the deadline,
however late the answers are and whatever failures are caught on the way.
-/

namespace Patchwork
open Proto

/-! ## One call -/

/-- A call that is sent between an instant and a deadline, with a timeout that ends by the deadline
and is no longer than the configured one. -/
structure Exchange.SentWithin (e : Exchange) (x : Caller) (start deadline timeout : Nat) :
    Prop where
  since : start ≤ e.sentAt
  early : e.sentAt < deadline
  carried : e.call.timeout = some timeout
  positive : 0 < timeout
  within : timeout ≤ deadline - e.sentAt
  configured : ∀ limit, x.timeout = some limit → timeout ≤ limit

/-- A call is settled by the answer if that comes in time, else as late when its time is over. -/
structure Exchange.SettlesBy (e : Exchange) (timeout : Nat) (answer : Delayed (Reply Message))
    (reply : Reply Message) : Prop where
  answered : ∀ d, answer.after = some d → d ≤ timeout →
    e.settledAt = some (e.sentAt + d) ∧ reply = answer.value
  late : (∀ d, answer.after = some d → timeout < d) →
    e.settledAt = some (e.sentAt + timeout) ∧ reply = .error (lateStatus e.call.method)
  failure : e.failure = codeOf reply

/-- What an exchange says of an attempt to call that was answered with a view to earlier calls.
Whether it was dropped is seen only at the end. -/
def Exchange.Attempts (e : Exchange) (world : Downstream) (before : Journal)
    (reply : Reply Message) : Prop :=
  attempt (world.unary before.calls) e.owner e.sentAt e.call =
    (e.settledAt, reply, { e with dropped := false })

theorem attempts_of_eq {world : Downstream} {before : Journal} {owner now : Nat} {c : Call}
    {due : Option Nat} {reply : Reply Message} {e : Exchange}
    (h : attempt (world.unary before.calls) owner now c = (due, reply, e)) :
    e.Attempts world before reply := by
  obtain ⟨call, sentAt, own, dropped, _⟩ := exchange_of_attempt h
  have settledAt := (attempted h).settledAt
  obtain ⟨e_owner, e_call, e_sentAt, e_sent, e_answeredAt, e_settledAt, e_failure, e_dropped⟩ := e
  dsimp only at call sentAt own dropped settledAt
  subst call sentAt own dropped settledAt
  exact h

section

variable {e : Exchange} {world : Downstream} {before : Journal} {reply : Reply Message}
  {timeout : Nat}

theorem Exchange.Attempts.settlesBy (h : e.Attempts world before reply)
    (carried : e.call.timeout = some timeout) (positive : 0 < timeout) :
    e.SettlesBy timeout (world.unary before.calls e.call) reply := by
  unfold Attempts attempt settle at h
  rw [carried, if_neg (by simp; omega)] at h
  cases ha : (world.unary before.calls e.call).after with
  | none =>
    simp only [ha, Prod.mk.injEq] at h
    obtain ⟨settledAt, rfl, same⟩ := h
    refine ⟨fun d hd => ?_, fun _ => ⟨settledAt.symm, rfl⟩, (congrArg Exchange.failure same).symm⟩
    rw [ha] at hd
    cases hd
  | some d =>
    simp only [ha] at h
    split at h
    · next inTime =>
      simp only [Prod.mk.injEq] at h
      obtain ⟨settledAt, rfl, same⟩ := h
      refine ⟨fun d' hd _ => ?_, fun late => ?_, (congrArg Exchange.failure same).symm⟩
      · rw [ha] at hd
        cases hd
        exact ⟨settledAt.symm, rfl⟩
      · have late := late d ha
        omega
    · next late =>
      simp only [Prod.mk.injEq] at h
      obtain ⟨settledAt, rfl, same⟩ := h
      refine ⟨fun d' hd inTime => ?_, fun _ => ⟨settledAt.symm, rfl⟩,
        (congrArg Exchange.failure same).symm⟩
      rw [ha] at hd
      cases hd
      exact absurd inTime late

theorem Exchange.SettlesBy.settled {answer : Delayed (Reply Message)}
    (h : e.SettlesBy timeout answer reply) :
    ∃ t, e.settledAt = some t ∧ t ≤ e.sentAt + timeout := by
  by_cases late : ∀ d, answer.after = some d → timeout < d
  · exact ⟨_, (h.late late).1, Nat.le_refl _⟩
  · obtain ⟨d, hd⟩ := not_forall.mp late
    obtain ⟨after, inTime⟩ := Classical.not_imp.mp hd
    exact ⟨_, (h.answered d after (Nat.le_of_not_lt inTime)).1, by omega⟩

/-- A call with a timeout is waited for no longer than this. -/
theorem attempt_waits {answer : Call → Delayed (Reply α)} {owner now : Nat} {c : Call}
    {due : Option Nat} {reply : Reply α} (carried : c.timeout = some timeout)
    (h : attempt answer owner now c = (due, reply, e)) :
    ∃ t, due = some t ∧ now ≤ t ∧ t ≤ now + timeout := by
  unfold attempt settle at h
  rw [carried] at h
  split at h
  · cases h
    exact ⟨now, rfl, Nat.le_refl _, Nat.le_add_right ..⟩
  · cases ha : (answer c).after with
    | none =>
      simp only [ha, Prod.mk.injEq] at h
      exact ⟨_, h.1.symm, Nat.le_add_right .., Nat.le_refl _⟩
    | some d =>
      simp only [ha] at h
      split at h <;> simp only [Prod.mk.injEq] at h <;> exact ⟨_, h.1.symm, by omega, by omega⟩

end

theorem Exchange.SentWithin.mark {e : Exchange} {x : Caller} {start deadline timeout : Nat}
    (h : e.SentWithin x start deadline timeout) (dropped : Bool) :
    ({ e with dropped } : Exchange).SentWithin x start deadline timeout :=
  ⟨h.since, h.early, h.carried, h.positive, h.within, h.configured⟩

theorem Exchange.SettlesBy.mark {e : Exchange} {timeout : Nat} {answer : Delayed (Reply Message)}
    {reply : Reply Message} (h : e.SettlesBy timeout answer reply) (dropped : Bool) :
    ({ e with dropped } : Exchange).SettlesBy timeout answer reply :=
  ⟨h.answered, h.late, h.failure⟩

theorem CallContext.remaining_of_deadline {ctx : CallContext} {deadline : Nat}
    (h : ctx.deadline = some deadline) (now : Nat) : ctx.remaining now = some (deadline - now) := by
  unfold remaining
  rw [h]
  rfl

/-! ## What happens until a deadline -/

/-- Events that happen one after the other, none of them before an instant. Each call is an attempt
that is answered with a view to the calls before it. -/
inductive Journal.Unfolds (before : Journal) (world : Downstream) (start : Nat) : Journal → Prop
  | nil : Unfolds before world start []
  | called {fresh : Journal} {e : Exchange} {reply : Reply Message}
      (rest : Unfolds before world start fresh) (since : start ≤ e.sentAt)
      (attempts : e.Attempts world (fresh ++ before) reply) :
      Unfolds before world start (.called e :: fresh)
  | consulted {fresh : Journal} (rest : Unfolds before world start fresh) (owner instant : Nat)
      (c : Consultation) : Unfolds before world start (.consulted owner instant c :: fresh)
  | resolved {fresh : Journal} (rest : Unfolds before world start fresh) (method : String)
      (bases : Nat) : Unfolds before world start (.resolved method bases :: fresh)

theorem Journal.Unfolds.attempts {world : Downstream} {start : Nat} {before later earlier : Journal}
    {e : Exchange} (h : Unfolds before world start (later ++ .called e :: earlier)) :
    start ≤ e.sentAt ∧ ∃ reply, e.Attempts world (earlier ++ before) reply := by
  induction later with
  | nil =>
    cases h with
    | called rest since attempts => exact ⟨since, _, attempts⟩
  | cons x later ih =>
    cases h with
    | called rest => exact ih rest
    | consulted rest => exact ih rest
    | resolved rest => exact ih rest

section

variable {world : Downstream} {ctx : CallContext} {deadline start now : Nat}
  {before fresh : Journal}

/-- A batch of bases is resolved by the deadline. -/
theorem Batch.resolve_within (hd : ctx.deadline = some deadline) (b : Batch) (owner : Nat)
    (since : start ≤ now) (unfolds : before.Unfolds world start fresh) :
    (∃ t, (b.resolve world ctx owner now (fresh ++ before)).instant = some t ∧ now ≤ t ∧
      t ≤ max now deadline) ∧
    before.Unfolds world start
      ((b.resolve world ctx owner now (fresh ++ before)).events ++ fresh) := by
  have sized := unfolds.resolved b.relation.method.fullName b.entries.length
  have atOnce : ∃ t, some now = some t ∧ now ≤ t ∧ t ≤ max now deadline :=
    ⟨now, rfl, Nat.le_refl _, Nat.le_max_left ..⟩
  unfold Batch.resolve
  cases b.relation.resolver with
  | custom name => exact ⟨atOnce, sized.consulted owner now _⟩
  | method transport timeout =>
    dsimp only
    split
    · exact ⟨atOnce, sized⟩
    · next message _ =>
      rcases ha : attempt (world.unary (fresh ++ before).calls) owner now
        (b.call ctx now transport timeout message) with ⟨due, reply, e⟩
      obtain ⟨t, carried, ht⟩ :=
        CallContext.callTimeout_le timeout (ctx.remaining_of_deadline hd now)
      obtain ⟨t', rfl, hle, hle'⟩ := attempt_waits (c := b.call ctx now transport timeout message)
        carried ha
      have called : start ≤ e.sentAt := (exchange_of_attempt ha).2.1.symm ▸ since
      -- The size of the batch is not a call, so it makes no difference to the answer.
      have attempts : e.Attempts world
          (.resolved b.relation.method.fullName b.entries.length :: (fresh ++ before)) reply :=
        attempts_of_eq ha
      exact ⟨⟨t', rfl, hle, by omega⟩, sized.called called attempts⟩

/-- A wave is over by the deadline. -/
theorem resolveWave_within (hd : ctx.deadline = some deadline) (since : start ≤ now)
    {owner : Nat} {batches : List Batch} {j' : Journal} {due : Option Nat} {w : Wave}
    (unfolds : before.Unfolds world start fresh)
    (h : resolveWave world ctx owner now batches (fresh ++ before) = (due, w, j')) :
    (∃ t, due = some t ∧ now ≤ t ∧ t ≤ max now deadline) ∧
      ∃ fresh', j' = fresh' ++ before ∧ before.Unfolds world start fresh' := by
  induction batches generalizing fresh due w with
  | nil =>
    cases h
    exact ⟨⟨now, rfl, Nat.le_refl _, Nat.le_max_left ..⟩, fresh, rfl, unfolds⟩
  | cons b rest ih =>
    unfold resolveWave at h
    obtain ⟨⟨t, ht, hle, hle'⟩, first⟩ := b.resolve_within hd owner since unfolds
    rcases hr : resolveWave world ctx owner now rest
      ((b.resolve world ctx owner now (fresh ++ before)).events ++ (fresh ++ before))
      with ⟨due₁, w₁, j₁⟩
    simp only [hr, Prod.mk.injEq] at h
    obtain ⟨rfl, rfl, rfl⟩ := h
    rw [← List.append_assoc] at hr
    obtain ⟨⟨t₁, rfl, hle₁, hle₁'⟩, later⟩ := ih first hr
    rw [ht]
    exact ⟨⟨max t t₁, rfl, by omega, by omega⟩, later⟩

end

/-- A process does not wait longer than until the deadline. -/
theorem Stage.step_within {s : Setting} {deadline start owner now : Nat}
    {before fresh journal' : Journal} {stage : Stage} {result : StepResult}
    (hd : s.ctx.deadline = some deadline) (since : start ≤ now)
    (unfolds : before.Unfolds s.world start fresh)
    (h : stage.step s owner now (fresh ++ before) = (result, journal')) :
    (∀ due next, result = .waits due next → ∃ t, due = some t ∧ now ≤ t ∧ t ≤ max now deadline) ∧
      ∃ fresh', journal' = fresh' ++ before ∧ before.Unfolds s.world start fresh' := by
  cases stage with
  | calling p =>
    unfold Stage.step at h
    rcases ha : attempt (s.world.unary (fresh ++ before).calls) owner now (p.call s.ctx now)
      with ⟨due, reply, e⟩
    simp only [ha, Prod.mk.injEq] at h
    obtain ⟨rfl, rfl⟩ := h
    obtain ⟨t, carried, ht⟩ :=
      CallContext.callTimeout_le p.entry.timeout (s.ctx.remaining_of_deadline hd now)
    obtain ⟨t', rfl, hle, hle'⟩ := attempt_waits (c := p.call s.ctx now) carried ha
    have called : start ≤ e.sentAt := (exchange_of_attempt ha).2.1.symm ▸ since
    refine ⟨?_, .called e :: fresh, rfl, unfolds.called called (attempts_of_eq ha)⟩
    intro due next hw
    cases hw
    exact ⟨t', rfl, hle, by omega⟩
  | stitching q =>
    cases q with
    | wave d batches =>
      unfold Stage.step at h
      rcases hw : resolveWave s.world s.ctx owner now batches (fresh ++ before) with ⟨due, w, j⟩
      simp only [hw, Prod.mk.injEq] at h
      obtain ⟨rfl, rfl⟩ := h
      obtain ⟨waits, history⟩ := resolveWave_within hd since unfolds hw
      refine ⟨?_, history⟩
      intro due' next hr
      cases hr
      exact waits
    | finished d failure =>
      cases h
      exact ⟨by simp, fresh, rfl, unfolds⟩

/-! ## Whole batches -/

/-- A batch on its way from an instant on, all of whose processes are due by a limit. -/
structure Run.Within (r : Run) (world : Downstream) (start limit : Nat) (before : Journal) :
    Prop where
  started : start ≤ r.now
  ends : r.now ≤ limit
  due : ∀ due place stage, .sleeping due place stage ∈ r.processes →
    ∃ t, due = some t ∧ r.now ≤ t ∧ t ≤ limit
  history : ∃ fresh, r.journal = fresh ++ before ∧ before.Unfolds world start fresh

namespace Run.Within

variable {s : Setting} {deadline start limit : Nat} {before : Journal} {r : Run}

/-- The process that is due next goes on within the limit, and the others wait for their turn. -/
theorem goOn (h : r.Within s.world start limit before) (hd : s.ctx.deadline = some deadline)
    (hl : deadline ≤ limit) {a : Due} (ha : nextDue 0 r.processes = some a) :
    (r.goOn s a).Within s.world start limit before := by
  obtain ⟨⟨i, hi, hx⟩, first⟩ := nextDue_eq_some ha
  obtain ⟨t, ht, now, ends⟩ := h.due _ _ _ (List.mem_of_getElem? hx)
  cases ht
  obtain ⟨fresh, journal, unfolds⟩ := h.history
  rcases hs : a.stage.step s (if r.ordered then r.turn else a.place) a.instant r.journal
    with ⟨result, journal'⟩
  have since : start ≤ a.instant := Nat.le_trans h.started now
  have step := hs
  rw [journal] at step
  obtain ⟨waits, history⟩ := Stage.step_within hd since unfolds step
  refine ⟨since, ends, ?_, ?_⟩
  · intro due place stage hm
    rw [Run.processes_goOn, hs] at hm
    rcases List.mem_or_eq_of_mem_set hm with hm | hm
    · -- The others are due no earlier than the process that goes on.
      obtain ⟨t, rfl, _, ends⟩ := h.due due place stage hm
      exact ⟨t, rfl, first t place stage hm, ends⟩
    · cases result with
      | waits due' next =>
        cases hm
        obtain ⟨t, rfl, hle, hle'⟩ := waits _ _ rfl
        exact ⟨t, rfl, hle, by omega⟩
      | ends d failure => cases failure <;> cases hm
  · rw [Run.journal_goOn, hs]
    exact history

theorem finish (h : r.Within s.world start limit before) (hd : s.ctx.deadline = some deadline)
    (hl : deadline ≤ limit) (fuel : Nat) :
    (r.finish s fuel).2.Within s.world start limit before := by
  induction fuel generalizing r with
  | zero => exact h
  | succ fuel ih =>
    unfold Run.finish
    split
    · exact h
    · next a _ ha => exact ih (h.goOn hd hl ha)
    · exact h

theorem ofStages (world : Downstream) (now : Nat) (hl : now ≤ limit) (before : Journal)
    (stages : List Stage) : (Run.ofStages now before stages).Within world now limit before := by
  refine ⟨Nat.le_refl _, hl, ?_, [], rfl, .nil⟩
  intro due place stage hm
  obtain ⟨x, _, hx⟩ := List.mem_map.mp hm
  cases hx
  exact ⟨now, rfl, Nat.le_refl _, hl⟩

/-- No process waits forever. -/
theorem not_stuck (h : r.Within s.world start limit before) : ¬Ending.stuck.Of r.processes := by
  rintro ⟨place, stage, hm⟩
  obtain ⟨t, ht, _⟩ := h.due _ _ _ hm
  cases ht

end Run.Within

/-! ## How a batch ends -/

theorem Run.settled_of_hasSettled {r : Run} {ending : Ending} {e : Exchange}
    (h : r.hasSettled ending e = true) : ∃ t, e.settledAt = some t ∧ t ≤ r.now := by
  unfold hasSettled at h
  split at h
  · cases h
  · next t _ _ ht =>
    simp only [Bool.or_eq_true, decide_eq_true_eq, Bool.and_eq_true, beq_iff_eq] at h
    exact ⟨t, ht, by omega⟩
  · next t ht _ => exact ⟨t, ht, of_decide_eq_true h⟩

/-- What has not settled when a batch ends was cut off by a failure or settles later. -/
theorem Run.le_of_hasSettled {r : Run} {ending : Ending} {e : Exchange} {t : Nat}
    (h : r.hasSettled ending e = false) (ht : e.settledAt = some t) :
    (∃ d f, ending = .failed d f) ∧ r.now ≤ t ∨ r.now < t := by
  unfold hasSettled at h
  rw [ht] at h
  cases ending with
  | failed d f =>
    simp only [Bool.or_eq_false_iff, decide_eq_false_iff_not] at h
    exact .inl ⟨⟨d, f, rfl⟩, Nat.le_of_not_lt h.1⟩
  | complete => exact .inr (Nat.lt_of_not_le (of_decide_eq_false h))
  | stuck => exact .inr (Nat.lt_of_not_le (of_decide_eq_false h))

/-- When all requests are done, all calls have settled. -/
theorem Interleaved.settled_of_done {s : Setting} {now : Nat} {ps : List Prepared}
    {xs : List Process} {events : Journal} (h : Interleaved s now ps xs events)
    (done : ∀ x ∈ xs, ∃ d, x = .done d)
    {e : Exchange} (he : .called e ∈ events) : ∃ t, e.settledAt = some t ∧ t ≤ now := by
  induction h with
  | nil => cases he
  | cons first rest merged ih =>
    rcases List.mem_append.mp (merged.subset he) with he | he
    · obtain ⟨d, rfl⟩ := done _ (List.mem_cons_self ..)
      cases first with
      | done led passed =>
        obtain ⟨t, ht, hle⟩ := led.settled rfl e he
        exact ⟨t, ht, Nat.le_trans hle passed⟩
    · exact ih (fun x hx => done x (List.mem_cons_of_mem _ hx)) he

/-- Only relations that are not backed by a method ask other code. -/
theorem Batch.custom_of_consulted {b : Batch} {world : Downstream} {ctx : CallContext}
    {owner now : Nat} {before : Journal} {owner' instant : Nat} {c : Consultation}
    (h : .consulted owner' instant c ∈ (b.resolve world ctx owner now before).events) :
    ∃ name, b.relation.resolver = .custom name := by
  unfold Batch.resolve at h
  cases hr : b.relation.resolver with
  | custom name => exact ⟨name, rfl⟩
  | method transport timeout =>
    rw [hr] at h
    dsimp only at h
    split at h <;> simp at h

theorem Prepared.Came.custom_of_consulted {s : Setting} {p : Prepared} {now : Nat} {own : Journal}
    {x : Process} (h : p.Came s now own x) {owner instant : Nat} {c : Consultation}
    (hc : .consulted owner instant c ∈ own) :
    ∃ r name, p.Selects r ∧ r.resolver = .custom name := by
  have led : ∀ {own due stage}, p.Leads s own due stage → .consulted owner instant c ∈ own →
      ∃ r name, p.Selects r ∧ r.resolver = .custom name := by
    intro own due stage led hc
    induction led with
    | start => cases hc
    | called => simp at hc
    | wave led resolved ih =>
      rcases List.mem_append.mp hc with hc | hc
      · obtain ⟨entered, known⟩ := led.entered
        obtain ⟨b, before, selects, hc⟩ := selects_of_event entered known resolved hc
        obtain ⟨name, custom⟩ := Batch.custom_of_consulted hc
        exact ⟨b.relation, name, selects, custom⟩
      · exact ih hc
  cases h with
  | sleeping h => exact led h hc
  | done h => exact led h hc
  | failed h => exact led h hc

/-- Whether calls were dropped makes no difference to which calls there were. -/
theorem Journal.calls_close (r : Run) (ending : Ending) (j before : Journal) :
    Journal.calls (j.map (r.close ending) ++ before) = Journal.calls (j ++ before) := by
  unfold calls
  rw [List.filterMap_append, List.filterMap_append, List.filterMap_map]
  congr 2
  funext x
  cases x <;> rfl

/-- A batch of requests with a deadline comes to its end by then. -/
theorem runAll_within (s : Setting) {deadline : Nat} (hd : s.ctx.deadline = some deadline)
    (now : Nat) (before : Journal) (ps : List Prepared) :
    ∃ (final : Run) (ending : Ending) (events : Journal),
      runAll s now before (ps.map Stage.calling) =
        (ending, { final with journal := events.map (final.close ending) ++ before }) ∧
      before.Unfolds s.world now events ∧ now ≤ final.now ∧ final.now ≤ max now deadline ∧
      Interleaved s final.now ps final.processes events ∧ ending.Of final.processes ∧
      ending ≠ .stuck := by
  have within := (Run.Within.ofStages s.world now (Nat.le_max_left now deadline) before
    (ps.map Stage.calling)).finish hd (Nat.le_max_right ..)
    (stepsOf (Run.ofStages now before (ps.map Stage.calling)).processes + 1)
  have journal : (Run.ofStages now before (ps.map Stage.calling)).journal = [] ++ before := rfl
  obtain ⟨events, interleaved, hj, ends⟩ := Run.finish_interleaved s
    (r := Run.ofStages now before (ps.map Stage.calling)) (interleaved_calling s now 0 ps) journal
    (Nat.lt_succ_self _)
  unfold runAll
  dsimp only
  rcases hf : (Run.ofStages now before (ps.map Stage.calling)).finish s
    (stepsOf (Run.ofStages now before (ps.map Stage.calling)).processes + 1) with ⟨ending, final⟩
  rw [hf] at within interleaved hj ends
  dsimp only at within interleaved hj ends
  obtain ⟨fresh, hj', unfolds⟩ := within.history
  obtain rfl := List.append_cancel_right (hj.symm.trans hj')
  refine ⟨final, ending, events, ?_, unfolds, within.started, within.ends, interleaved, ends, ?_⟩
  · dsimp only
    rw [hj, List.length_append, Nat.add_sub_cancel, List.take_left, List.drop_left]
  · rintro rfl
    exact within.not_stuck ends

/-! ## Serving -/

theorem Exchange.MadeFor.sentWithin {e : Exchange} {ctx : CallContext} {x : Caller}
    {deadline start : Nat} {world : Downstream} {before : Journal} {reply : Reply Message}
    (made : e.MadeFor ctx x)
    (hd : ctx.deadline = some deadline) (since : start ≤ e.sentAt)
    (attempts : e.Attempts world before reply) (sent : e.sent = true) :
    ∃ timeout, e.SentWithin x start deadline timeout := by
  obtain ⟨timeout, carried, within⟩ :=
    CallContext.callTimeout_le x.timeout (ctx.remaining_of_deadline hd e.sentAt)
  rw [← made.timeout] at carried
  have nonzero := (exchange_of_attempt attempts).2.2.2.2.2.mp sent
  have positive : 0 < timeout := by
    rw [carried] at nonzero
    exact Nat.pos_of_ne_zero fun h => nonzero (congrArg some h)
  refine ⟨timeout, since, by omega, carried, positive, within, fun limit hl => ?_⟩
  rw [made.timeout, hl] at carried
  exact CallContext.callTimeout_le_configured carried

/-- A call that was sent within a deadline, in a batch that came to its end at an instant. -/
structure Gateway.Bounds (g : Gateway) (world : Downstream) (before : Journal) (e : Exchange)
    (start deadline finish : Nat) (outcome : Outcome (List Response)) : Prop where
  call : ∃ x timeout reply, x.IsOf g ∧ e.call.method = x.method ∧
    e.SentWithin x start deadline timeout ∧ e.Attempts world before reply ∧
    e.SettlesBy timeout (world.unary before.calls e.call) reply
  /-- A call that was not dropped is over when the batch is. -/
  kept : e.dropped = false → ∃ t, e.settledAt = some t ∧ t ≤ finish
  /-- Calls are dropped when a failure ends the batch before they have settled. -/
  dropped : e.dropped = true → (∃ failure, outcome = .error failure) ∧
    ∃ t, e.settledAt = some t ∧ finish ≤ t

namespace Gateway

variable {g : Gateway} {world : Downstream} {ctx : CallContext} {v : Verb} {m : Moment}
  {requests : List Request} {prepared : List Prepared} {final : Run} {ending : Ending}
  {events : Journal}

/-- How a batch is answered that did not wait forever. -/
theorem serve_of_runAll (hp : g.prepareAll v requests = .ok prepared)
    (run : runAll (setting world ctx v) m.now m.journal (prepared.map Stage.calling) =
      (ending, { final with journal := events.map (final.close ending) ++ m.journal }))
    (going : ending ≠ .stuck) : ∃ outcome, (g.serve world ctx v m requests).1 = some outcome ∧
      (g.serve world ctx v m requests).2.journal = events.map (final.close ending) ++ m.journal ∧
      (g.serve world ctx v m requests).2.now = final.now ∧
      ∀ d f, ending = .failed d f → outcome = .error f := by
  unfold serve
  simp only [hp, runBatch, Moment.now_observe, Moment.journal_observe, run]
  cases ending with
  | complete => exact ⟨_, rfl, by simp, by simp, by simp⟩
  | failed d f => exact ⟨_, rfl, by simp, by simp, by simp⟩
  | stuck => exact absurd rfl going

/-- The calls of a batch with a deadline. -/
theorem bounds_of_run {deadline : Nat} {outcome : Outcome (List Response)}
    (hp : g.prepareAll v requests = .ok prepared) (hd : ctx.deadline = some deadline)
    (unfolds : m.journal.Unfolds world m.now events)
    (interleaved : Interleaved (setting world ctx v) final.now prepared final.processes events)
    (stands : ending.Of final.processes) (going : ending ≠ .stuck)
    (failed : ∀ d f, ending = .failed d f → outcome = .error f) (later : Journal) (e : Exchange)
    (earlier : Journal)
    (split : events.map (final.close ending) = later ++ .called e :: earlier)
    (sent : e.sent = true) :
    g.Bounds world (earlier ++ m.journal) e m.now deadline final.now outcome := by
  obtain ⟨later', rest, rfl, _, hrest⟩ := List.map_eq_append_iff.mp split
  obtain ⟨x, earlier', rfl, hx, rfl⟩ := List.map_eq_cons_iff.mp hrest
  cases x with
  | consulted => cases hx
  | resolved => cases hx
  | called e₀ =>
    cases hx
    have known : Event.called e₀ ∈ later' ++ .called e₀ :: earlier' := by simp
    obtain ⟨since, reply, attempts⟩ := unfolds.attempts
    obtain ⟨p, hmem, own, y, hy, came⟩ := interleaved.event known
    obtain ⟨r, _, isPrepared⟩ := exists_isPrepared hp hmem
    obtain ⟨x, needs, made⟩ := came.madeFor hy
    obtain ⟨timeout, within⟩ := made.sentWithin hd since attempts sent
    have settles := attempts.settlesBy within.carried within.positive
    refine ⟨⟨x, timeout, reply, isPrepared.isOf_of_needs needs, made.method, within.mark _, ?_, ?_⟩,
      fun kept => ?_, fun dropped => ?_⟩
    · unfold Exchange.Attempts
      rw [Journal.calls_close]
      exact attempts
    · rw [Journal.calls_close]
      exact settles.mark _
    · have settled : final.hasSettled ending e₀ = true := by simpa using kept
      exact Run.settled_of_hasSettled settled
    · obtain ⟨t, ht, _⟩ := settles.settled
      rcases Run.le_of_hasSettled (by simpa using dropped) ht with ⟨⟨d, f, ended⟩, hle⟩ | hlt
      · exact ⟨⟨f, failed d f ended⟩, t, ht, hle⟩
      · -- A batch that is not cut off by a failure waits for all its calls.
        cases ending with
        | failed d f => exact ⟨⟨f, failed d f rfl⟩, t, ht, Nat.le_of_lt hlt⟩
        | complete =>
          obtain ⟨t', ht', hle⟩ := interleaved.settled_of_done stands known
          cases ht.symm.trans ht'
          omega
        | stuck => exact absurd rfl going

end Gateway

/-- A batch with a deadline, whose relations are all computed by methods, is answered by the
deadline, and at once without a call being sent if that has passed. Each call that is sent before
has a timeout that ends by the deadline and is no longer than the configured one. When its time is
over it settles as late, and before that with its answer, unless it is dropped with the batch. -/
theorem deadline_bounds_everything {g : Gateway} (backed : g.IsBacked) (world : Downstream)
    {ctx : CallContext} {deadline : Nat} (hd : ctx.deadline = some deadline) (v : Verb) (m : Moment)
    (requests : List Request) :
    ∃ outcome fresh, (g.serve world ctx v m requests).1 = some outcome ∧
      (g.serve world ctx v m requests).2.journal = fresh ++ m.journal ∧
      (g.serve world ctx v m requests).2.now ≤ max m.now deadline ∧
      (deadline ≤ m.now → (g.serve world ctx v m requests).2.now = m.now ∧
        ∀ e, .called e ∈ fresh → e.sent = false) ∧
      (∀ owner instant c, .consulted owner instant c ∉ fresh) ∧
      ∀ later e earlier, fresh = later ++ .called e :: earlier → e.sent = true →
        g.Bounds world (earlier ++ m.journal) e m.now deadline
          (g.serve world ctx v m requests).2.now outcome := by
  cases hp : g.prepareAll v requests with
  | error e =>
    have refused := Gateway.prepareAll_eq_error.mp hp
    obtain ⟨answered, journal⟩ := Gateway.serve_refused refused world ctx m
    have atOnce : (g.serve world ctx v m requests).2.now = m.now := by
      unfold Gateway.serve
      simp [hp]
    refine ⟨.error e, [], answered, journal, atOnce ▸ Nat.le_max_left ..,
      fun _ => ⟨atOnce, by simp⟩, by simp, fun later e earlier split => ?_⟩
    simp at split
  | ok prepared =>
    obtain ⟨final, ending, events, run, unfolds, started, ends, interleaved, stands, going⟩ :=
      runAll_within (Gateway.setting world ctx v) hd m.now m.journal prepared
    obtain ⟨outcome, answered, journal, now, failed⟩ := Gateway.serve_of_runAll hp run going
    have exchange := Gateway.bounds_of_run hp hd unfolds interleaved stands going failed
    rw [now]
    refine ⟨outcome, _, answered, journal, ends, fun passed => ⟨by omega, fun e he => ?_⟩, ?_,
      exchange⟩
    · -- With the deadline over, no instant is left at which a call could be sent.
      obtain ⟨earlier, later, split⟩ := List.append_of_mem he
      by_contra sent
      obtain ⟨x, timeout, reply, _, _, within, _⟩ :=
        (exchange earlier e later split (by simpa using sent)).call
      have since := within.since
      have early := within.early
      omega
    · intro owner instant c hc
      obtain ⟨x, hx, same⟩ := List.mem_map.mp hc
      cases x with
      | called => cases same
      | resolved => cases same
      | consulted =>
        cases same
        obtain ⟨p, hmem, own, y, hy, came⟩ := interleaved.event hx
        obtain ⟨r, name, selects, custom⟩ := came.custom_of_consulted hy
        obtain ⟨_, _, isPrepared⟩ := Gateway.exists_isPrepared hp hmem
        obtain ⟨transport, timeout, method⟩ :=
          backed r (isPrepared.isOf_of_needs (x := .relation r) selects)
        rw [custom] at method
        cases method

namespace Sample

/-- A server that gives items after three instants and never says what they are part of. -/
def reticent : Downstream where
  unary _ c := ⟨if c.method.info.name = "Parents" then none else some 3, knot c.method⟩
  stream _ _ := ⟨none, .error ⟨.unavailable, "", []⟩⟩
  consult _ := .ok []

/-- A fetch of an item with its parent, and the instant when it is over. -/
def lateParent : Option (Outcome (List Response)) × Moment :=
  gateway.serve reticent { deadline := some 10 } .fetch {} withParent

end Sample

/-- The question for a parent is never answered. It is asked with the seven instants that are left
and the batch is over with them. -/
theorem silent_parent_is_waited_for_until_deadline : ∃ outcome, Sample.lateParent.1 = some outcome ∧
    Sample.lateParent.2.now ≤ 10 ∧ ∃ later e earlier,
      Sample.lateParent.2.journal = later ++ .called e :: earlier ∧ e.call.timeout = some 7 ∧
      Sample.gateway.Bounds Sample.reticent earlier e 0 10 Sample.lateParent.2.now outcome := by
  have hd : ({ deadline := some 10 } : CallContext).deadline = some 10 := rfl
  obtain ⟨outcome, fresh, answered, journal, ends, _, _, bounds⟩ := deadline_bounds_everything
    Sample.gateway_isBacked Sample.reticent hd .fetch {} Sample.withParent
  obtain ⟨e, he, sent, timeout⟩ := Journal.exists_called (j := Sample.lateParent.2.journal)
    (p := fun c => c.timeout == some 7) (by decide +kernel)
  obtain ⟨later, earlier, split⟩ := List.append_of_mem he
  have whole : Sample.lateParent.2.journal = fresh := journal.trans (List.append_nil _)
  have bound := bounds later e earlier (whole ▸ split) sent
  have before : earlier ++ ({} : Moment).journal = earlier := List.append_nil _
  rw [before] at bound
  exact ⟨outcome, answered, ends, later, e, earlier, split, beq_iff_eq.mp timeout, bound⟩

end Patchwork
