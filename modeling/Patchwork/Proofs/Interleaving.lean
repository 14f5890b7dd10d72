import Mathlib.Data.List.Forall2
import Patchwork.Proofs.Alone
import Patchwork.Serve

/-!
# Requests side by side

A batch is an interleaving of its requests. Each request has a history of its own, the events of its
call and of its waves, and this alone explains where it stands, whatever the others do. The journal
of a batch has the events of these histories and no others.
-/

namespace Patchwork
open Proto

/-- A request comes from its own call through waves to a stage, from which it goes on when it is due.
The journal has the events on the way, the last first. -/
inductive Prepared.Leads (s : Setting) (p : Prepared) : Journal → Option Nat → Stage → Prop
  | start (now : Nat) : Leads s p [] (some now) (.calling p)
  | called {history : List Call} {owner now : Nat} {due : Option Nat} {reply : Reply Message}
      {e : Exchange}
      (settled : attempt (s.world.unary history) owner now (p.call s.ctx now) = (due, reply, e)) :
      Leads s p [.called e] due (.stitching (p.receive s.fallback reply))
  | wave {own events j : Journal} {owner now : Nat} {d : Document} {batches : List Batch}
      {due : Option Nat} {w : Wave}
      (led : Leads s p own (some now) (.stitching (.wave d batches)))
      (resolved : resolveWave s.world s.ctx owner now batches j = (due, w, events ++ j)) :
      Leads s p (events ++ own) due (.stitching (.advance s.fallback d w))

/-- Where a request stands at an instant, with the events on its way there. -/
inductive Prepared.Came (s : Setting) (p : Prepared) (now : Nat) : Journal → Process → Prop
  | sleeping {own : Journal} {due : Option Nat} {place : Nat} {stage : Stage}
      (led : p.Leads s own due stage) (ahead : ∀ t, due = some t → now ≤ t) :
      Came s p now own (.sleeping due place stage)
  | done {own : Journal} {t : Nat} {d : Document}
      (led : p.Leads s own (some t) (.stitching (.finished d none))) (passed : t ≤ now) :
      Came s p now own (.done d)
  | failed {own : Journal} {t : Nat} {d : Document} {e : Failure}
      (led : p.Leads s own (some t) (.stitching (.finished d (some e)))) (passed : t ≤ now) :
      Came s p now own (.failed d e)

/-- The events of requests side by side, each of which stands somewhere at an instant. -/
inductive Interleaved (s : Setting) (now : Nat) : List Prepared → List Process → Journal → Prop
  | nil : Interleaved s now [] [] []
  | cons {p : Prepared} {x : Process} {own : Journal} {ps : List Prepared} {xs : List Process}
      {others events : Journal}
      (first : p.Came s now own x) (rest : Interleaved s now ps xs others)
      (merged : events.Perm (own ++ others)) : Interleaved s now (p :: ps) (x :: xs) events

/-! ## Calls and waves -/

/-- What an attempt to call leaves behind. -/
structure Attempted (answer : Call → Delayed (Reply α)) (now : Nat) (c : Call) (due : Option Nat)
    (reply : Reply α) (e : Exchange) : Prop where
  call : e.call = c
  settledAt : e.settledAt = due
  ahead : ∀ t, due = some t → now ≤ t
  comes : (c.timeout = none → (answer c).after.isSome) → due.isSome
  /-- Only the answer settles a call when it comes. -/
  kept : e.answeredAt = e.settledAt → reply = (answer c).value
  /-- What is not a failure is the answer. -/
  said : ∀ a, reply = .ok a → (answer c).value = .ok a

theorem attempted {answer : Call → Delayed (Reply α)} {owner now : Nat} {c : Call}
    {due : Option Nat} {reply : Reply α} {e : Exchange}
    (h : attempt answer owner now c = (due, reply, e)) : Attempted answer now c due reply e := by
  unfold attempt at h
  split at h
  · cases h
    refine ⟨rfl, rfl, fun t ht => ?_, fun _ => rfl, fun he => (by cases he), fun a ha => by cases ha⟩
    cases ht
    exact Nat.le_refl _
  · unfold settle at h
    dsimp only at h
    split at h
    · next after hc =>
      cases h
      refine ⟨rfl, rfl, fun t ht => ?_, fun ha => ?_, fun _ => rfl, fun _ ha => ha⟩
      · obtain ⟨d, _, rfl⟩ := Option.map_eq_some_iff.mp ht
        exact Nat.le_add_right ..
      · rw [Option.isSome_map]
        exact ha hc
    · next limit d _ hd =>
      split at h
      · cases h
        refine ⟨rfl, rfl, fun t ht => ?_, fun _ => rfl, fun _ => rfl, fun _ ha => ha⟩
        cases ht
        exact Nat.le_add_right ..
      · cases h
        refine ⟨rfl, rfl, fun t ht => ?_, fun _ => rfl, fun he => ?_, fun a ha => by cases ha⟩
        · cases ht
          exact Nat.le_add_right ..
        · simp only [hd, Option.map_some, Option.some.injEq] at he
          omega
    · next limit _ hd =>
      cases h
      refine ⟨rfl, rfl, fun t ht => ?_, fun _ => rfl, fun he => ?_, fun a ha => by cases ha⟩
      · cases ht
        exact Nat.le_add_right ..
      · simp [hd] at he

/-- Whether each answer comes that no timeout bounds. -/
def Downstream.Answers (world : Downstream) : Prop :=
  ∀ history c, c.timeout = none → (world.unary history c).after.isSome

/-- What resolving a batch leaves behind. -/
structure Batch.Asked (b : Batch) (world : Downstream) (now : Nat) (r : Resolved) : Prop where
  ahead : ∀ t, r.instant = some t → now ≤ t
  comes : world.Answers → r.instant.isSome
  called : ∀ e, .called e ∈ r.events → e.call.method = b.relation.method ∧ e.settledAt = r.instant

theorem Batch.asked (b : Batch) (world : Downstream) (ctx : CallContext) (owner now : Nat)
    (before : Journal) : b.Asked world now (b.resolve world ctx owner now before) := by
  unfold Batch.resolve
  cases b.relation.resolver with
  | custom name =>
    refine ⟨fun t ht => ?_, fun _ => rfl, fun e he => by simp at he⟩
    cases ht
    exact Nat.le_refl _
  | method transport timeout =>
    dsimp only
    split
    · refine ⟨fun t ht => ?_, fun _ => rfl, fun e he => by simp at he⟩
      cases ht
      exact Nat.le_refl _
    · next message _ =>
      rcases ha : attempt (world.unary before.calls) owner now
        (b.call ctx now transport timeout message) with ⟨due, reply, e⟩
      have h := attempted ha
      refine ⟨h.ahead, fun answers => h.comes (answers _ _), fun e' he => ?_⟩
      simp only [List.mem_cons, Event.called.injEq, reduceCtorEq, List.not_mem_nil, or_false] at he
      rw [he]
      exact ⟨by rw [h.call]; rfl, h.settledAt⟩

/-- A body on its own comes to each of its waves when all answers come. -/
theorem Alone.comes {s : Setting} {due due' : Option Nat} {p q : Progress} {j j' : Journal}
    {ws : List Wave} (h : Alone s due p j ws due' q j') (answers : s.world.Answers)
    (hdue : due.isSome) : due'.isSome := by
  induction h with
  | stop => exact hdue
  | wave resolved rest ih =>
    exact ih (resolveWave_isSome resolved fun b _ before => (b.asked ..).comes answers)

theorem later_eq_some {a b : Option Nat} {t : Nat} (h : later a b = some t) :
    ∃ x y, a = some x ∧ b = some y ∧ x ≤ t ∧ y ≤ t := by
  unfold later at h
  split at h
  · next x y =>
    cases h
    exact ⟨x, y, rfl, rfl, Nat.le_max_left .., Nat.le_max_right ..⟩
  · cases h

/-- A batch was resolved in a wave that waited for it. -/
structure Batch.ResolvedIn (b : Batch) (world : Downstream) (ctx : CallContext) (owner now : Nat)
    (due : Option Nat) (events : Journal) (r : Resolved) : Prop where
  resolved : ∃ before, r = b.resolve world ctx owner now before
  waited : ∀ t, due = some t → ∃ t', r.instant = some t' ∧ t' ≤ t
  events : r.events ⊆ events

/-- What resolving a wave leaves behind. -/
structure WaveResolved (world : Downstream) (ctx : CallContext) (owner now : Nat)
    (batches : List Batch) (due : Option Nat) (w : Wave) (events : Journal) : Prop where
  ahead : ∀ t, due = some t → now ≤ t
  result : ∀ x ∈ w, ∃ r, x.1.ResolvedIn world ctx owner now due events r ∧ x.2 = r.result
  event : ∀ e ∈ events, ∃ b ∈ batches, ∃ r,
    b.ResolvedIn world ctx owner now due events r ∧ e ∈ r.events

theorem Batch.ResolvedIn.mono {b : Batch} {world : Downstream} {ctx : CallContext} {owner now : Nat}
    {due due' : Option Nat} {events events' : Journal} {r : Resolved}
    (h : b.ResolvedIn world ctx owner now due events r)
    (hd : ∀ t, due' = some t → ∃ t', due = some t' ∧ t' ≤ t) (he : events ⊆ events') :
    b.ResolvedIn world ctx owner now due' events' r where
  resolved := h.resolved
  waited t ht := by
    obtain ⟨t', ht', hle⟩ := hd t ht
    obtain ⟨t'', hr, hle'⟩ := h.waited t' ht'
    exact ⟨t'', hr, Nat.le_trans hle' hle⟩
  events := List.Subset.trans h.events he

theorem waveResolved {world : Downstream} {ctx : CallContext} {owner now : Nat}
    {batches : List Batch} {j j' : Journal} {due : Option Nat} {w : Wave}
    (h : resolveWave world ctx owner now batches j = (due, w, j')) :
    ∃ events, j' = events ++ j ∧ WaveResolved world ctx owner now batches due w events := by
  induction batches generalizing j due w with
  | nil =>
    cases h
    refine ⟨[], rfl, fun t ht => ?_, by simp, by simp⟩
    cases ht
    exact Nat.le_refl _
  | cons b rest ih =>
    unfold resolveWave at h
    rcases hr : resolveWave world ctx owner now rest
      ((b.resolve world ctx owner now j).events ++ j) with ⟨due₁, w₁, j₁⟩
    simp only [hr, Prod.mk.injEq] at h
    obtain ⟨rfl, rfl, rfl⟩ := h
    obtain ⟨events, rfl, hw⟩ := ih hr
    have first : b.ResolvedIn world ctx owner now
        (later (b.resolve world ctx owner now j).instant due₁)
        (events ++ (b.resolve world ctx owner now j).events) (b.resolve world ctx owner now j) := by
      refine ⟨⟨j, rfl⟩, fun t ht => ?_, List.subset_append_right ..⟩
      obtain ⟨x, y, hx, _, hle, _⟩ := later_eq_some ht
      exact ⟨x, hx, hle⟩
    have others : ∀ {c : Batch} {r : Resolved}, c.ResolvedIn world ctx owner now due₁ events r →
        c.ResolvedIn world ctx owner now
          (later (b.resolve world ctx owner now j).instant due₁)
          (events ++ (b.resolve world ctx owner now j).events) r := by
      intro c r hc
      refine hc.mono (fun t ht => ?_) (List.subset_append_left ..)
      obtain ⟨x, y, _, hy, _, hle⟩ := later_eq_some ht
      exact ⟨y, hy, hle⟩
    refine ⟨events ++ (b.resolve world ctx owner now j).events, (List.append_assoc ..).symm,
      fun t ht => ?_, fun x hx => ?_, fun e he => ?_⟩
    · obtain ⟨x, y, _, hy, _, hle⟩ := later_eq_some ht
      exact Nat.le_trans (hw.ahead y hy) hle
    · rcases List.mem_cons.mp hx with rfl | hx
      · exact ⟨_, first, rfl⟩
      · obtain ⟨r, hc, hr⟩ := hw.result x hx
        exact ⟨r, others hc, hr⟩
    · rcases List.mem_append.mp he with he | he
      · obtain ⟨c, hc, r, hr, he⟩ := hw.event e he
        exact ⟨c, List.mem_cons_of_mem _ hc, r, others hr, he⟩
      · exact ⟨b, List.mem_cons_self .., _, first, he⟩

theorem waveResolved_append {world : Downstream} {ctx : CallContext} {owner now : Nat}
    {batches : List Batch} {j events : Journal} {due : Option Nat} {w : Wave}
    (h : resolveWave world ctx owner now batches j = (due, w, events ++ j)) :
    WaveResolved world ctx owner now batches due w events := by
  obtain ⟨events', he, hw⟩ := waveResolved h
  rwa [List.append_cancel_right he]

/-! ## The history of one request -/

theorem Prepared.entered_receive (p : Prepared) (fallback : Bool) (reply : Reply Message) :
    (p.receive fallback reply).Entered ∧
      ∀ x ∈ (p.receive fallback reply).patches, x.field ∈ level p.schema.fields 0 := by
  cases reply with
  | ok m => exact Progress.ofMessage_first m p.schema p.onError fallback
  | error e =>
    unfold receive
    dsimp only
    split
    · exact ⟨trivial, by simp [Progress.patches]⟩
    · exact ⟨trivial, by simp [Progress.patches]⟩

namespace Prepared.Leads

variable {s : Setting} {p : Prepared} {own : Journal} {due : Option Nat}

/-- A request goes from the reply to its own call through waves. -/
theorem runs {q : Progress} (h : p.Leads s own due (.stitching q)) :
    ∃ reply ws, (p.receive s.fallback reply).Runs s.fallback ws q := by
  generalize hq : Stage.stitching q = stage at h
  induction h generalizing q with
  | start now => cases hq
  | @called history owner now due reply e settled =>
    cases hq
    exact ⟨reply, [], .stop _⟩
  | wave led resolved ih =>
    cases hq
    obtain ⟨reply, ws, hr⟩ := ih rfl
    exact ⟨reply, _, hr.snoc_resolved resolved⟩

/-- The patches of a wave are all of one level of the schema. -/
theorem entered {q : Progress} (h : p.Leads s own due (.stitching q)) :
    q.Entered ∧ ∃ k, ∀ x ∈ q.patches, x.field ∈ level p.schema.fields k := by
  obtain ⟨reply, ws, hr⟩ := h.runs
  obtain ⟨he, hp⟩ := p.entered_receive s.fallback reply
  obtain ⟨hq, hk⟩ := hr.entered he hp
  exact ⟨hq, _, hk⟩

/-- A request waits for all its calls. -/
theorem settled {stage : Stage} (h : p.Leads s own due stage) {t : Nat} (ht : due = some t) :
    ∀ e, .called e ∈ own → ∃ t', e.settledAt = some t' ∧ t' ≤ t := by
  induction h generalizing t with
  | start now => simp
  | called settled =>
    intro e he
    cases List.mem_singleton.mp he
    exact ⟨t, (attempted settled).settledAt.trans ht, Nat.le_refl t⟩
  | wave led resolved ih =>
    have hw := waveResolved_append resolved
    intro e he
    rcases List.mem_append.mp he with he | he
    · obtain ⟨b, _, r, hr, he⟩ := hw.event _ he
      obtain ⟨before, rfl⟩ := hr.resolved
      obtain ⟨t', ht', hle⟩ := hr.waited t ht
      exact ⟨t', (((b.asked ..).called e he).2).trans ht', hle⟩
    · obtain ⟨t', ht', hle⟩ := ih rfl e he
      exact ⟨t', ht', Nat.le_trans hle (hw.ahead t ht)⟩

/-- A request comes to each of its stages when all answers come. -/
theorem comes {stage : Stage} (h : p.Leads s own due stage) (answers : s.world.Answers) :
    due.isSome := by
  cases h with
  | start now => rfl
  | called settled => exact (attempted settled).comes (answers _ _)
  | wave led resolved =>
    exact resolveWave_isSome resolved fun b _ before => (b.asked ..).comes answers

end Prepared.Leads

/-! ## One step of a process -/

/-- A message leaves no more waves than relations lie one inside the other, but for an empty one. -/
theorem Progress.rank_ofMessage (m : Message) (schema : Schema) (policy : Option ErrorPolicy)
    (fallback : Bool) : (ofMessage m schema policy fallback).rank < fieldsDepth schema.fields + 2 := by
  obtain ⟨_, hp⟩ := ofMessage_first m schema policy fallback
  cases hq : ofMessage m schema policy fallback with
  | finished d failure => exact Nat.succ_pos _
  | wave d batches =>
    rw [hq] at hp
    refine Nat.lt_succ_of_le (wavesOf_le (Nat.le_add_left ..) fun x hx => ?_)
    have hd := relationDepth_le_fieldsDepth schema.fields (hp x hx)
    omega

theorem Prepared.rank_receive (p : Prepared) (fallback : Bool) (reply : Reply Message) :
    (p.receive fallback reply).rank < fieldsDepth p.schema.fields + 2 := by
  cases reply with
  | ok m => exact Progress.rank_ofMessage m p.schema p.onError fallback
  | error e =>
    unfold receive
    dsimp only
    split <;> exact Nat.succ_pos _

/-- Each stage leaves fewer steps than the one before. -/
theorem Stage.rank_step {s : Setting} {owner now : Nat} {journal journal' : Journal}
    {stage next : Stage} {due : Option Nat}
    (h : stage.step s owner now journal = (.waits due next, journal')) : next.rank < stage.rank := by
  cases stage with
  | calling p =>
    cases h
    refine Nat.add_lt_add_right (?_ : (p.receive s.fallback _).rank < fieldsDepth p.schema.fields + 2) 2
    exact p.rank_receive s.fallback _
  | stitching q =>
    cases q with
    | finished d failure => cases h
    | wave d batches =>
      unfold Stage.step at h
      rcases hw : resolveWave s.world s.ctx owner now batches journal with ⟨due₁, w, j₁⟩
      simp only [hw, Prod.mk.injEq, StepResult.waits.injEq] at h
      obtain ⟨⟨_, rfl⟩, _⟩ := h
      exact Nat.add_lt_add_right (Progress.rank_advance_resolved s.fallback d hw) 2

/-- A process after a step, which waits in its own place only if it is still due. -/
def StepResult.process (place owner now : Nat) : StepResult → Process
  | .waits due stage => .sleeping due (if due = some now then place else owner) stage
  | .ends d failure => .ended d failure

/-- A step adds events to the history of its own request. -/
theorem Prepared.Leads.step {s : Setting} {p : Prepared} {own journal journal' : Journal}
    {owner now : Nat} {stage : Stage} {result : StepResult}
    (h : p.Leads s own (some now) stage) (place : Nat)
    (hs : stage.step s owner now journal = (result, journal')) :
    ∃ events, journal' = events ++ journal ∧
      p.Came s now (events ++ own) (result.process place owner now) := by
  cases stage with
  | calling p' =>
    unfold Stage.step at hs
    rcases ha : attempt (s.world.unary journal.calls) owner now (p'.call s.ctx now) with ⟨due, reply, e⟩
    simp only [ha, Prod.mk.injEq] at hs
    obtain ⟨rfl, rfl⟩ := hs
    cases h
    exact ⟨[.called e], rfl, .sleeping (.called ha) (attempted ha).ahead⟩
  | stitching q =>
    cases q with
    | wave d batches =>
      unfold Stage.step at hs
      rcases hw : resolveWave s.world s.ctx owner now batches journal with ⟨due, w, j⟩
      simp only [hw, Prod.mk.injEq] at hs
      obtain ⟨rfl, rfl⟩ := hs
      obtain ⟨events, rfl, hr⟩ := waveResolved hw
      exact ⟨events, rfl, .sleeping (.wave h hw) hr.ahead⟩
    | finished d failure =>
      cases hs
      refine ⟨[], rfl, ?_⟩
      cases failure with
      | none => exact .done h (Nat.le_refl now)
      | some e => exact .failed h (Nat.le_refl now)

theorem Process.due?_eq_some {k : Nat} {x : Process} {a : Due} :
    x.due? k = some a ↔ a.index = k ∧ x = .sleeping (some a.instant) a.place a.stage := by
  constructor
  · intro h
    unfold due? at h
    split at h
    · cases h
      exact ⟨rfl, rfl⟩
    · cases h
  · rintro ⟨rfl, rfl⟩
    rfl

theorem Due.instant_le {a b : Due} (h : a.precedes b = true) : a.instant ≤ b.instant := by
  simp only [precedes, Bool.or_eq_true, decide_eq_true_eq, Bool.and_eq_true, beq_iff_eq] at h
  omega

theorem Due.instant_le_of_not {a b : Due} (h : ¬a.precedes b = true) : b.instant ≤ a.instant := by
  simp only [precedes, Bool.or_eq_true, decide_eq_true_eq, Bool.and_eq_true, beq_iff_eq] at h
  omega

theorem nextDue_eq_none {k : Nat} {xs : List Process} (h : nextDue k xs = none) (t place : Nat)
    (stage : Stage) : .sleeping (some t) place stage ∉ xs := by
  induction xs generalizing k with
  | nil => exact List.not_mem_nil
  | cons x rest ih =>
    unfold nextDue at h
    split at h
    · split at h <;> cases h
    · cases h
    · next hx =>
      intro hm
      rcases List.mem_cons.mp hm with rfl | hm
      · cases hx
      · exact ih h hm

/-- The process that goes on next is due, and no other one is due before it. -/
theorem nextDue_eq_some {k : Nat} {xs : List Process} {a : Due} (h : nextDue k xs = some a) :
    (∃ i, a.index = k + i ∧ xs[i]? = some (.sleeping (some a.instant) a.place a.stage)) ∧
      ∀ t place stage, .sleeping (some t) place stage ∈ xs → a.instant ≤ t := by
  induction xs generalizing k a with
  | nil => cases h
  | cons x rest ih =>
    -- The head is compared with the best of the rest, which has the property already.
    have head : ∀ {b : Due} {t place : Nat} {stage : Stage}, x.due? k = some b →
        .sleeping (some t) place stage = x → b.instant = t := by
      intro b t place stage hb hx
      obtain ⟨_, hb⟩ := Process.due?_eq_some.mp hb
      rw [hb] at hx
      cases hx
      rfl
    have first : ∀ {b : Due}, x.due? k = some b →
        ∃ i, b.index = k + i ∧ (x :: rest)[i]? = some (.sleeping (some b.instant) b.place b.stage) := by
      intro b hb
      obtain ⟨hi, hb⟩ := Process.due?_eq_some.mp hb
      exact ⟨0, hi, congrArg some hb⟩
    have later : ∀ {b : Due}, nextDue (k + 1) rest = some b →
        ∃ i, b.index = k + i ∧ (x :: rest)[i]? = some (.sleeping (some b.instant) b.place b.stage) := by
      intro b hb
      obtain ⟨⟨i, hi, hx⟩, _⟩ := ih hb
      exact ⟨i + 1, by omega, hx⟩
    unfold nextDue at h
    split at h
    · next b c hb hc =>
      have hle := (ih hc).2
      split at h
      · next hp =>
        cases h
        refine ⟨first hb, fun t place stage hm => ?_⟩
        rcases List.mem_cons.mp hm with hx | hm
        · exact Nat.le_of_eq (head hb hx)
        · exact Nat.le_trans (Due.instant_le hp) (hle t place stage hm)
      · next hp =>
        cases h
        refine ⟨later hc, fun t place stage hm => ?_⟩
        rcases List.mem_cons.mp hm with hx | hm
        · rw [← head hb hx]
          exact Due.instant_le_of_not hp
        · exact hle t place stage hm
    · next b hb hc =>
      cases h
      refine ⟨first hb, fun t place stage hm => ?_⟩
      rcases List.mem_cons.mp hm with hx | hm
      · exact Nat.le_of_eq (head hb hx)
      · exact absurd hm (nextDue_eq_none hc t place stage)
    · next hb =>
      refine ⟨later h, fun t place stage hm => ?_⟩
      rcases List.mem_cons.mp hm with rfl | hm
      · cases hb
      · exact (ih h).2 t place stage hm

/-! ## A whole batch -/

/-- Where a request stands as long as it is not due. -/
theorem Prepared.Came.wait {s : Setting} {p : Prepared} {now later : Nat} {own : Journal}
    {x : Process} (h : p.Came s now own x) (hn : now ≤ later)
    (hl : ∀ t place stage, x = .sleeping (some t) place stage → later ≤ t) :
    p.Came s later own x := by
  cases h with
  | sleeping led ahead =>
    refine .sleeping led fun t ht => ?_
    subst ht
    exact hl t _ _ rfl
  | done led passed => exact .done led (Nat.le_trans passed hn)
  | failed led passed => exact .failed led (Nat.le_trans passed hn)

namespace Interleaved

variable {s : Setting} {now later : Nat} {ps : List Prepared} {xs : List Process} {events : Journal}

theorem wait (h : Interleaved s now ps xs events) (hn : now ≤ later)
    (hl : ∀ t place stage, .sleeping (some t) place stage ∈ xs → later ≤ t) :
    Interleaved s later ps xs events := by
  induction h with
  | nil => exact .nil
  | cons first rest merged ih =>
    refine .cons (first.wait hn fun t place stage hx => ?_) (ih fun t place stage hx => ?_) merged
    · exact hl t place stage (hx ▸ List.mem_cons_self ..)
    · exact hl t place stage (List.mem_cons_of_mem _ hx)

/-- Each process is that of a request, one by one. -/
theorem forall₂ (h : Interleaved s now ps xs events) :
    List.Forall₂ (fun p x => ∃ own, own ⊆ events ∧ p.Came s now own x) ps xs := by
  induction h with
  | nil => exact .nil
  | cons first rest merged ih =>
    have hown := List.Subset.trans (List.subset_append_left ..) merged.symm.subset
    have hothers := List.Subset.trans (List.subset_append_right ..) merged.symm.subset
    refine .cons ⟨_, hown, first⟩ (ih.imp fun p x h => ?_)
    obtain ⟨own, ho, hc⟩ := h
    exact ⟨own, List.Subset.trans ho hothers, hc⟩

theorem came (h : Interleaved s now ps xs events) {x : Process} (hx : x ∈ xs) :
    ∃ p ∈ ps, ∃ own, own ⊆ events ∧ p.Came s now own x := by
  induction h with
  | nil => cases hx
  | @cons p y own ps xs others events first rest merged ih =>
    have hown := List.Subset.trans (List.subset_append_left ..) merged.symm.subset
    have hothers := List.Subset.trans (List.subset_append_right ..) merged.symm.subset
    rcases List.mem_cons.mp hx with rfl | hx
    · exact ⟨p, List.mem_cons_self .., own, hown, first⟩
    · obtain ⟨q, hq, own', ho, hc⟩ := ih hx
      exact ⟨q, List.mem_cons_of_mem _ hq, own', List.Subset.trans ho hothers, hc⟩

/-- Each event belongs to the history of a request. -/
theorem event (h : Interleaved s now ps xs events) {e : Event} (he : e ∈ events) :
    ∃ p ∈ ps, ∃ own x, e ∈ own ∧ p.Came s now own x := by
  induction h with
  | nil => cases he
  | @cons p x own ps xs others events first rest merged ih =>
    rcases List.mem_append.mp (merged.subset he) with he | he
    · exact ⟨p, List.mem_cons_self .., own, x, he, first⟩
    · obtain ⟨q, hq, h⟩ := ih he
      exact ⟨q, List.mem_cons_of_mem _ hq, h⟩

/-- When one process goes on with new events, the others wait. -/
theorem goOn (h : Interleaved s now ps xs events) {i : Nat} {x : Process} (hx : xs[i]? = some x)
    (hn : now ≤ later) (hl : ∀ t place stage, .sleeping (some t) place stage ∈ xs → later ≤ t) :
    ∃ (p : Prepared) (own : Journal), p.Came s now own x ∧ ∀ new y, p.Came s later (new ++ own) y →
      Interleaved s later ps (xs.set i y) (new ++ events) := by
  induction h generalizing i with
  | nil => simp at hx
  | @cons p x₀ own ps xs others events first rest merged ih =>
    have hfirst := first.wait hn fun t place stage hx => hl t place stage (hx ▸ List.mem_cons_self ..)
    have hrest : ∀ t place stage, .sleeping (some t) place stage ∈ xs → later ≤ t :=
      fun t place stage hx => hl t place stage (List.mem_cons_of_mem _ hx)
    cases i with
    | zero =>
      cases hx
      refine ⟨p, own, first, fun new y hy => .cons hy (rest.wait hn hrest) ?_⟩
      rw [List.append_assoc]
      exact merged.append_left new
    | succ i =>
      obtain ⟨p', own', hp, hset⟩ := ih hx hrest
      refine ⟨p', own', hp, fun new y hy => .cons hfirst (hset new y hy) ?_⟩
      exact (merged.append_left new).trans (List.perm_append_comm_assoc ..)

end Interleaved

theorem Run.processes_goOn (s : Setting) (r : Run) (a : Due) :
    (r.goOn s a).processes = r.processes.set a.index
      ((a.stage.step s (if r.ordered then r.turn else a.place) a.instant r.journal).1.process a.place
        (if r.ordered then r.turn else a.place) a.instant) := by
  unfold goOn
  dsimp only
  congr 1
  split
  · next h =>
    rw [h]
    rfl
  · next h =>
    rw [h]
    rfl
  · next h =>
    rw [h]
    rfl

theorem Run.journal_goOn (s : Setting) (r : Run) (a : Due) :
    (r.goOn s a).journal =
      (a.stage.step s (if r.ordered then r.turn else a.place) a.instant r.journal).2 := rfl

/-- A step of a batch is one of the process that is due next. -/
theorem Interleaved.step {s : Setting} {ps : List Prepared} {r : Run} {events before : Journal}
    {a : Due} (h : Interleaved s r.now ps r.processes events) (hj : r.journal = events ++ before)
    (ha : nextDue 0 r.processes = some a) :
    ∃ new, Interleaved s (r.goOn s a).now ps (r.goOn s a).processes (new ++ events) ∧
      (r.goOn s a).journal = (new ++ events) ++ before := by
  obtain ⟨⟨i, hi, hx⟩, hl⟩ := nextDue_eq_some ha
  have hn : r.now ≤ a.instant := by
    obtain ⟨p, _, own, _, hp⟩ := h.came (List.mem_of_getElem? hx)
    cases hp with
    | sleeping led ahead => exact ahead _ rfl
  obtain ⟨p, own, hp, hset⟩ := h.goOn hx hn hl
  cases hp with
  | sleeping led ahead =>
    rcases hs : a.stage.step s (if r.ordered then r.turn else a.place) a.instant r.journal
      with ⟨result, journal⟩
    obtain ⟨new, rfl, hc⟩ := led.step a.place hs
    refine ⟨new, ?_, ?_⟩
    · rw [Run.processes_goOn, hs, hi, Nat.zero_add]
      exact hset new _ hc
    · rw [Run.journal_goOn, hs, hj, List.append_assoc]

/-! ## Enough steps -/

theorem stepsOf_set {xs : List Process} {i : Nat} {x y : Process} (hx : xs[i]? = some x)
    (hr : y.rank < x.rank) : stepsOf (xs.set i y) < stepsOf xs := by
  induction xs generalizing i with
  | nil => simp at hx
  | cons z rest ih =>
    cases i with
    | zero =>
      cases hx
      exact Nat.add_lt_add_right hr (stepsOf rest)
    | succ i => exact Nat.add_lt_add_left (ih hx) z.rank

/-- The steps that a batch can take become fewer with each one. -/
theorem Run.stepsOf_goOn (s : Setting) {r : Run} {a : Due} (ha : nextDue 0 r.processes = some a) :
    stepsOf (r.goOn s a).processes < stepsOf r.processes := by
  obtain ⟨⟨i, hi, hx⟩, _⟩ := nextDue_eq_some ha
  rw [Run.processes_goOn, hi, Nat.zero_add]
  refine stepsOf_set hx ?_
  rcases hs : a.stage.step s (if r.ordered then r.turn else a.place) a.instant r.journal
    with ⟨result, journal⟩
  cases result with
  | waits due next => exact Stage.rank_step hs
  | ends d failure =>
    have hp : 0 < a.stage.rank := by
      cases a.stage <;> exact Nat.succ_pos _
    cases failure <;> exact hp

/-- How the processes stand when a batch has come to its end. -/
def Ending.Of (xs : List Process) : Ending → Prop
  | .complete => ∀ x ∈ xs, ∃ d, x = .done d
  | .failed d e => .failed d e ∈ xs
  | .stuck => ∃ place stage, .sleeping none place stage ∈ xs

theorem Run.failure?_eq_some {ordered : Bool} {xs : List Process} {d : Document} {e : Failure}
    (h : failure? ordered xs = some (d, e)) : .failed d e ∈ xs := by
  induction xs with
  | nil => cases h
  | cons x rest ih =>
    cases x with
    | sleeping due place stage =>
      unfold failure? at h
      cases ordered with
      | true => cases h
      | false => exact List.mem_cons_of_mem _ (ih h)
    | done body => exact List.mem_cons_of_mem _ (ih h)
    | failed body e' =>
      cases h
      exact List.mem_cons_self ..

theorem Run.done_of_failure?_eq_none {ordered : Bool} {xs : List Process}
    (h : failure? ordered xs = none) (ha : xs.any Process.isSleeping = false) :
    ∀ x ∈ xs, ∃ d, x = .done d := by
  induction xs with
  | nil => simp
  | cons x rest ih =>
    rw [List.any_cons, Bool.or_eq_false_iff] at ha
    intro y hy
    cases x with
    | sleeping due place stage => cases ha.1
    | failed body e => cases h
    | done body =>
      rcases List.mem_cons.mp hy with rfl | hy
      · exact ⟨body, rfl⟩
      · exact ih h ha.2 y hy

theorem Process.exists_of_isSleeping {xs : List Process} (h : xs.any isSleeping = true)
    (hn : nextDue 0 xs = none) : ∃ place stage, .sleeping none place stage ∈ xs := by
  obtain ⟨x, hx, hs⟩ := List.any_eq_true.mp h
  cases x with
  | sleeping due place stage =>
    cases due with
    | none => exact ⟨place, stage, hx⟩
    | some t => exact absurd hx (nextDue_eq_none hn t place stage)
  | done body => cases hs
  | failed body e => cases hs

/-- A batch that has enough steps comes to an end, and its journal is that of its requests. -/
theorem Run.finish_interleaved (s : Setting) {ps : List Prepared} {before : Journal} {r : Run}
    {events : Journal} {fuel : Nat} (h : Interleaved s r.now ps r.processes events)
    (hj : r.journal = events ++ before) (hf : stepsOf r.processes < fuel) :
    ∃ events', Interleaved s (r.finish s fuel).2.now ps (r.finish s fuel).2.processes events' ∧
      (r.finish s fuel).2.journal = events' ++ before ∧
      (r.finish s fuel).1.Of (r.finish s fuel).2.processes := by
  induction fuel generalizing r events with
  | zero => exact absurd hf (Nat.not_lt_zero _)
  | succ fuel ih =>
    unfold finish
    split
    · next d e hd => exact ⟨events, h, hj, failure?_eq_some hd⟩
    · next a _ ha =>
      obtain ⟨new, hi, hj'⟩ := h.step hj ha
      have hlt := stepsOf_goOn s ha
      exact ih hi hj' (by omega)
    · next hd hn =>
      refine ⟨events, h, hj, ?_⟩
      dsimp only
      split
      · next hs => exact Process.exists_of_isSleeping hs hn
      · next hs => exact done_of_failure?_eq_none hd (by simpa using hs)

/-! ## Serving -/

theorem interleaved_calling (s : Setting) (now k : Nat) (ps : List Prepared) :
    Interleaved s now ps (((ps.map Stage.calling).zipIdx k).map fun (stage, place) =>
      .sleeping (some now) place stage) [] := by
  induction ps generalizing k with
  | nil => exact .nil
  | cons p rest ih =>
    have hp : p.Came s now [] (.sleeping (some now) k (.calling p)) :=
      .sleeping (.start now) fun t ht => Nat.le_of_eq (Option.some.inj ht)
    exact .cons hp (ih (k + 1)) (.refl _)

/-- The event of a history that an event of a journal is. Only the journal tells whether a call was
dropped. -/
def Event.Logs : Event → Event → Prop
  | .called e, .called e' => e = { e' with dropped := e.dropped }
  | e, e' => e = e'

theorem Run.logs_close (r : Run) (ending : Ending) (e : Event) : (r.close ending e).Logs e := by
  cases e <;> rfl

/-- The events of a journal are those of a history, one by one. -/
def Journal.Logs (j history : Journal) : Prop :=
  ∃ mark : Event → Event, (∀ e, (mark e).Logs e) ∧ j = history.map mark

theorem Journal.Logs.logged {j history : Journal} (h : j.Logs history) {e : Event}
    (he : e ∈ history) : ∃ e' ∈ j, e'.Logs e := by
  obtain ⟨mark, hm, rfl⟩ := h
  exact ⟨mark e, List.mem_map_of_mem he, hm e⟩

theorem Journal.Logs.called {j history : Journal} (h : j.Logs history) {x : Exchange}
    (hx : .called x ∈ history) : ∃ x', .called x' ∈ j ∧ x'.call = x.call := by
  obtain ⟨e, he, logs⟩ := h.logged hx
  cases e with
  | called x' =>
    have same : x' = { x with dropped := x'.dropped } := logs
    exact ⟨x', he, by rw [same]⟩
  | consulted owner instant c => cases logs
  | resolved method bases => cases logs

theorem Journal.Logs.consulted {j history : Journal} (h : j.Logs history) {owner instant : Nat}
    {c : Consultation} (hc : .consulted owner instant c ∈ history) :
    .consulted owner instant c ∈ j := by
  obtain ⟨e, he, logs⟩ := h.logged hc
  cases e with
  | called x => cases logs
  | consulted owner' instant' c' =>
    cases logs
    exact he
  | resolved method bases => cases logs

theorem Journal.Logs.happened {j history : Journal} (h : j.Logs history) {e : Event}
    (he : e ∈ j) : ∃ e' ∈ history, e.Logs e' := by
  obtain ⟨mark, hm, rfl⟩ := h
  obtain ⟨e', he', rfl⟩ := List.mem_map.mp he
  exact ⟨e', he', hm e'⟩

theorem runAll_interleaved (s : Setting) (now : Nat) (before : Journal) (ps : List Prepared) :
    ∃ fresh events, Interleaved s (runAll s now before (ps.map Stage.calling)).2.now ps
        (runAll s now before (ps.map Stage.calling)).2.processes events ∧
      (runAll s now before (ps.map Stage.calling)).1.Of
        (runAll s now before (ps.map Stage.calling)).2.processes ∧
      (runAll s now before (ps.map Stage.calling)).2.journal = fresh ++ before ∧
      fresh.Logs events := by
  have start : (Run.ofStages now before (ps.map Stage.calling)).journal = [] ++ before := rfl
  obtain ⟨events, hi, hj, he⟩ := Run.finish_interleaved s
    (r := Run.ofStages now before (ps.map Stage.calling)) (interleaved_calling s now 0 ps) start
    (Nat.lt_succ_self _)
  exact ⟨_, events, hi, he, runAll_journal s now before _ hj, _, Run.logs_close _ _, rfl⟩

namespace Gateway

/-- How a batch is answered whose processes stand like this. -/
inductive Answer (prepared : List Prepared) (xs : List Process) :
    Option (Outcome (List Response)) → Prop
  | complete (done : ∀ x ∈ xs, ∃ d, x = .done d) :
      Answer prepared xs (some (.ok (responses prepared xs)))
  | failed {d : Document} {e : Failure} (failed : .failed d e ∈ xs) :
      Answer prepared xs (some (.error e))
  | stuck {place : Nat} {stage : Stage} (waits : .sleeping none place stage ∈ xs) :
      Answer prepared xs none

/-- A finished batch has a response for each request. -/
theorem responses_forall₂ {R : Prepared → Process → Prop} {prepared : List Prepared}
    {xs : List Process} (h : List.Forall₂ R prepared xs) (done : ∀ x ∈ xs, ∃ d, x = .done d) :
    List.Forall₂ (fun p r => ∃ d, R p (.done d) ∧ r = response p d true) prepared
      (responses prepared xs) := by
  induction h with
  | nil => exact .nil
  | @cons p x ps xs first rest ih =>
    obtain ⟨d, rfl⟩ := done x (List.mem_cons_self ..)
    exact .cons ⟨d, first, rfl⟩ (ih fun y hy => done y (List.mem_cons_of_mem _ hy))

/-- A batch that was served, request beside request. -/
structure Served (s : Setting) (prepared : List Prepared) (before : Moment)
    (served : Option (Outcome (List Response)) × Moment) (xs : List Process)
    (fresh events : Journal) : Prop where
  interleaved : Interleaved s served.2.now prepared xs events
  answer : Answer prepared xs served.1
  journal : served.2.journal = fresh ++ before.journal
  logs : fresh.Logs events

/-- A batch that was prepared is run. -/
theorem serve_prepared {g : Gateway} (world : Downstream) (ctx : CallContext) {v : Verb} (m : Moment)
    {requests : List Request} {prepared : List Prepared}
    (valid : g.prepareAll v requests = .ok prepared) :
    ∃ xs fresh events, Served (setting world ctx v) prepared m (g.serve world ctx v m requests)
      xs fresh events := by
  obtain ⟨fresh, events, hi, he, hj, hl⟩ :=
    runAll_interleaved (setting world ctx v) m.now m.journal prepared
  unfold serve
  simp only [valid, runBatch, Moment.now_observe, Moment.journal_observe]
  rcases hr : runAll (setting world ctx v) m.now m.journal (prepared.map Stage.calling)
    with ⟨ending, run⟩
  rw [hr] at hi he hj
  refine ⟨run.processes, fresh, events, ?_⟩
  cases ending with
  | complete => exact ⟨by simpa using hi, .complete he, by simpa using hj, hl⟩
  | failed d e => exact ⟨by simpa using hi, .failed he, by simpa using hj, hl⟩
  | stuck =>
    obtain ⟨place, stage, he⟩ := he
    exact ⟨by simpa using hi, .stuck he, by simpa using hj, hl⟩

end Gateway
end Patchwork
