import Patchwork.Proofs.Caught
import Patchwork.Proofs.OnePool

/-!
# Runs over typed answers

A request goes through waves, and each batch on the way was answered. When the answers are typed, so
are all patches of the run and the values that these get.
-/

namespace Patchwork
open Proto

/-! ## Answers -/

/-- What a batch was resolved with. The events of this are among those given. -/
def Batch.Answered (b : Batch) (world : Downstream) (ctx : CallContext) (events : Journal)
    (r : Resolution) : Prop :=
  ∃ owner now before, r = (b.resolve world ctx owner now before).result ∧
    (b.resolve world ctx owner now before).events ⊆ events

/-- Each batch of a wave was resolved. -/
def Wave.Answered (w : Wave) (world : Downstream) (ctx : CallContext) (events : Journal) : Prop :=
  ∀ x ∈ w, x.1.Answered world ctx events x.2

section

variable {world : Downstream} {ctx : CallContext} {events events' : Journal}

theorem Batch.Answered.checked {b : Batch} {r : Resolution} (h : b.Answered world ctx events r) :
    (r >>= b.check) = r := by
  obtain ⟨owner, now, before, rfl, _⟩ := h
  exact b.resolve_check world ctx owner now before

theorem Batch.Source.mono {b : Batch} {values : List (Option Value)}
    (h : b.Source world events values) (sub : events ⊆ events') : b.Source world events' values := by
  cases h with
  | reply called method answer given => exact .reply (sub called) method answer given
  | consulted asked resolver relation answer => exact .consulted (sub asked) resolver relation answer

theorem Wave.Answered.mono {w : Wave} (h : w.Answered world ctx events) (sub : events ⊆ events') :
    w.Answered world ctx events' := by
  intro x hx
  obtain ⟨owner, now, before, hr, happened⟩ := h x hx
  exact ⟨owner, now, before, hr, List.Subset.trans happened sub⟩

theorem Wave.answered_of_resolveWave {owner now : Nat} {batches : List Batch} {j : Journal}
    {due : Option Nat} {w : Wave}
    (h : resolveWave world ctx owner now batches j = (due, w, events ++ j)) :
    w.Answered world ctx events := by
  intro x hx
  obtain ⟨_, ⟨⟨before, rfl⟩, _, happened⟩, hr⟩ := (waveResolved_append h).result x hx
  exact ⟨owner, now, before, hr, happened⟩

/-- A body on its own goes through waves that were resolved. -/
theorem Alone.waves_answered {s : Setting} {due due' : Option Nat} {p q : Progress} {j j' : Journal}
    {ws : List Wave} (h : Alone s due p j ws due' q j') :
    ∃ events, j' = events ++ j ∧ ∀ w ∈ ws, w.Answered s.world s.ctx events := by
  induction h with
  | stop => exact ⟨[], rfl, by simp⟩
  | wave resolved rest ih =>
    obtain ⟨first, rfl, _⟩ := waveResolved resolved
    obtain ⟨later, rfl, answered⟩ := ih
    refine ⟨later ++ first, (List.append_assoc ..).symm, fun w hw => ?_⟩
    rcases List.mem_cons.mp hw with rfl | hw
    · exact (Wave.answered_of_resolveWave resolved).mono (List.subset_append_right ..)
    · exact (answered w hw).mono (List.subset_append_left ..)

/-- A batch that failed was answered so. -/
theorem Wave.Answered.mem_failure {w : Wave} {b : Batch} {e : Failure}
    (h : w.Answered world ctx events) (failed : .failure b e ∈ w.actions) : (b, .error e) ∈ w := by
  obtain ⟨⟨b', r⟩, hb, ha⟩ := List.mem_flatMap.mp failed
  have checked := (h _ hb).checked
  dsimp only at ha checked
  unfold Batch.actions at ha
  rw [checked] at ha
  cases r with
  | ok values =>
    obtain ⟨_, _, he⟩ := List.mem_map.mp ha
    cases he
  | error e' =>
    cases List.mem_singleton.mp ha
    exact hb

end

/-- A request comes from the reply to its own call through waves to a stage of its body. -/
structure Prepared.Passes (s : Setting) (p : Prepared) (own : Journal) (reply : Reply Message)
    (ws : List Wave) (q : Progress) : Prop where
  replied : ∃ history owner now due x, .called x ∈ own ∧
    attempt (s.world.unary history) owner now (p.call s.ctx now) = (due, reply, x)
  runs : (p.receive s.fallback reply).Runs s.fallback ws q
  answered : ∀ w ∈ ws, w.Answered s.world s.ctx own

theorem Prepared.Leads.passes {s : Setting} {p : Prepared} {own : Journal} {due : Option Nat}
    {q : Progress} (h : p.Leads s own due (.stitching q)) :
    ∃ reply ws, p.Passes s own reply ws q := by
  generalize hq : Stage.stitching q = stage at h
  induction h generalizing q with
  | start now => cases hq
  | @called history owner now due reply x settled =>
    cases hq
    exact ⟨reply, [], ⟨history, owner, now, due, x, List.mem_singleton_self _, settled⟩, .stop _,
      by simp⟩
  | @wave own events j owner now d batches due w led resolved ih =>
    cases hq
    obtain ⟨reply, ws, ⟨history, o, n, due', x, hx, settled⟩, runs, answered⟩ := ih rfl
    refine ⟨reply, ws ++ [w], ⟨history, o, n, due', x, List.mem_append_right _ hx, settled⟩,
      runs.snoc_resolved resolved, fun w' hw => ?_⟩
    rcases List.mem_append.mp hw with hw | hw
    · exact (answered w' hw).mono (List.subset_append_right ..)
    · rw [List.mem_singleton.mp hw]
      exact (Wave.answered_of_resolveWave resolved).mono (List.subset_append_left ..)

namespace Gateway.Served

variable {s : Setting} {prepared : List Prepared} {before : Moment}
  {served : Option (Outcome (List Response)) × Moment} {xs : List Process} {fresh events : Journal}

/-- A batch fails as one of its requests. -/
theorem passes_failed (h : Served s prepared before served xs fresh events) {e : Failure}
    (failed : served.1 = some (.error e)) : ∃ p ∈ prepared, ∃ own, own ⊆ events ∧
      ∃ reply ws d, p.Passes s own reply ws (.finished d (some e)) := by
  have answer := h.answer
  rw [failed] at answer
  cases answer with
  | @failed d _ mem =>
    obtain ⟨p, hp, own, ho, came⟩ := h.interleaved.came mem
    cases came with
    | failed led _ =>
      obtain ⟨reply, ws, passes⟩ := led.passes
      exact ⟨p, hp, own, ho, reply, ws, d, passes⟩

/-- The responses of a batch are those of its requests, one by one. -/
theorem passes_done (h : Served s prepared before served xs fresh events)
    {responses : List Response} (complete : served.1 = some (.ok responses)) :
    List.Forall₂ (fun p response => ∃ own, own ⊆ events ∧ ∃ reply ws d,
      p.Passes s own reply ws (.finished d none) ∧ response = Gateway.response p d true)
      prepared responses := by
  have answer := h.answer
  rw [complete] at answer
  cases answer with
  | complete done =>
    refine (responses_forall₂ h.interleaved.forall₂ done).imp ?_
    rintro p response ⟨d, ⟨own, ho, came⟩, rfl⟩
    cases came with
    | done led _ =>
      obtain ⟨reply, ws, passes⟩ := led.passes
      exact ⟨own, ho, reply, ws, d, passes, rfl⟩

end Gateway.Served

/-! ## Typed patches -/

/-- The patches of a body are typed, and all of them are of one level of a schema. -/
structure Progress.IsTyped (relations : List Relation) (Q : MessageType → Prop)
    (fields : List Selected) (k : Nat) (q : Progress) : Prop where
  entered : q.Entered
  level : ∀ x ∈ q.patches, x.field ∈ level fields k
  typed : ∀ x ∈ q.patches, x.IsTyped relations Q

theorem Patch.IsTyped.mem_relations {relations : List Relation} {Q : MessageType → Prop} {p : Patch}
    {r : Relation} (h : p.IsTyped relations Q) (hr : p.field.info.relation = some r) :
    r ∈ relations := by
  obtain ⟨t, m, _, one, _⟩ := h
  exact ((one.canonical m).info r hr).mem

/-- What is uncovered by a value of the relation's field is typed. -/
theorem Patch.Uncovers.isTyped {relations : List Relation} {Q : MessageType → Prop} {fallback : Bool}
    {p q : Patch} {v : Value} {r : Relation} (h : p.Uncovers fallback v q)
    (typed : p.IsTyped relations Q) (hQ : Unambiguous relations Q)
    (hr : p.field.info.relation = some r) (fits : v.Fits r.method.pool r.field) :
    q.IsTyped relations Q := by
  obtain ⟨t, m, ht, one, _⟩ := typed
  obtain ⟨d, d', node, next, formatted, hq⟩ := h
  exact (one.stays_relationValue hQ ht hr fits).format formatted q hq

namespace Progress.IsTyped

variable {relations : List Relation} {Q : MessageType → Prop} {fields : List Selected} {k : Nat}
  {d : Document} {w : Wave} {b : Batch} {x : Patch}

/-- The entries of a batch are typed and of its relation. -/
theorem entry {r : Resolution} (h : (wave d w.batches).IsTyped relations Q fields k)
    (keyed : Keyed fields) (hb : (b, r) ∈ w) (hx : x ∈ b.entries) :
    x.IsTyped relations Q ∧ x.field.info.relation = some b.relation ∧
      x.field.info.params = b.params := by
  obtain ⟨⟨patches, _, grouped⟩, level, typed⟩ := h
  have hbatch : b ∈ w.batches := List.mem_map_of_mem (f := fun y : Batch × Resolution => y.1) hb
  have level : ∀ y ∈ patches, y.field ∈ Patchwork.level fields k := fun y hy =>
    level y (grouped.perm.mem_iff.mpr hy)
  exact ⟨typed x (List.mem_flatMap.mpr ⟨b, hbatch, hx⟩), grouped.asks keyed level hbatch hx⟩

theorem mem_relations {r : Resolution} (h : (wave d w.batches).IsTyped relations Q fields k)
    (hb : (b, r) ∈ w) : b.relation ∈ relations := by
  obtain ⟨⟨patches, _, grouped⟩, _, typed⟩ := h
  have hbatch : b ∈ w.batches := List.mem_map_of_mem (f := fun y : Batch × Resolution => y.1) hb
  obtain ⟨x, hx, relation, _⟩ := grouped.head b hbatch
  exact (typed x (List.mem_flatMap.mpr ⟨b, hbatch, hx⟩)).mem_relations relation

/-- The value that a patch gets is one of an answer to its batch. -/
theorem source {world : Downstream} {ctx : CallContext} {events : Journal} {v : Value}
    (h : (wave d w.batches).IsTyped relations Q fields k) (keyed : Keyed fields)
    (answered : w.Answered world ctx events) (given : .value x (some v) ∈ w.actions) :
    ∃ (b : Batch) (values : List (Option Value)), x.field.info.relation = some b.relation ∧
      b.relation ∈ relations ∧ x.IsTyped relations Q ∧ b.Source world events values ∧
      some v ∈ values := by
  obtain ⟨b, values, hb, hx, hv⟩ := Wave.mem_value given
  obtain ⟨isTyped, relation, _⟩ := h.entry keyed hb hx
  obtain ⟨owner, now, before, result, happened⟩ := answered _ hb
  exact ⟨b, values, relation, h.mem_relations hb, isTyped, (Batch.source result.symm).mono happened,
    hv⟩

/-- The values that patches get of typed answers are of the fields of their relations. -/
theorem value_fits {g : Gateway} {world : Downstream} {ctx : CallContext} {events : Journal}
    {v : Value} (h : (wave d w.batches).IsTyped g.relations Q fields k) (keyed : Keyed fields)
    (built : g.IsBuilt) (typed : world.Typed g) (answered : w.Answered world ctx events)
    (given : .value x (some v) ∈ w.actions) : ∃ r, x.field.info.relation = some r ∧
      x.IsTyped g.relations Q ∧ v.Fits r.method.pool r.field := by
  obtain ⟨b, values, relation, known, isTyped, source, hv⟩ := h.source keyed answered given
  exact ⟨b.relation, relation, isTyped, (source.value_fits built typed known hv).1⟩

/-- Typed answers to a wave leave typed patches for the next one. -/
theorem advance {g : Gateway} {world : Downstream} {ctx : CallContext} {events : Journal}
    {fallback : Bool} (h : (wave d w.batches).IsTyped g.relations Q fields k) (keyed : Keyed fields)
    (hQ : Unambiguous g.relations Q) (built : g.IsBuilt) (typed : world.Typed g)
    (answered : w.Answered world ctx events) :
    (Progress.advance fallback d w.results).IsTyped g.relations Q fields (k + 1) where
  entered := entered_advance ..
  level q hq := by
    obtain ⟨p, v, given, uncovers⟩ := mem_patches_advance hq
    have hp : p.field ∈ Patchwork.level fields k := h.level p (Wave.mem_entries_of_value given)
    exact List.mem_flatMap.mpr ⟨p.field, hp, uncovers.leaf.selected⟩
  typed q hq := by
    obtain ⟨p, v, given, uncovers⟩ := mem_patches_advance hq
    obtain ⟨r, hr, hp, fits⟩ := h.value_fits keyed built typed answered given
    exact uncovers.isTyped hp hQ hr fits

/-- All waves of a run from typed patches have typed patches, when all answers are typed. -/
theorem runs {g : Gateway} {world : Downstream} {ctx : CallContext} {events : Journal}
    {fallback : Bool} {p q : Progress} {ws : List Wave} (hr : p.Runs fallback ws q)
    (h : p.IsTyped g.relations Q fields k) (keyed : Keyed fields) (hQ : Unambiguous g.relations Q)
    (built : g.IsBuilt) (typed : world.Typed g) (answered : ∀ w ∈ ws, w.Answered world ctx events) :
    ∀ w ∈ ws, ∃ d k, (wave d w.batches).IsTyped g.relations Q fields k := by
  induction hr generalizing k with
  | stop p => simp
  | @wave d batches w ws q hw rest ih =>
    subst hw
    have here := answered w (List.mem_cons_self ..)
    have later := ih (h.advance keyed hQ built typed here) fun w' hw =>
      answered w' (List.mem_cons_of_mem _ hw)
    intro w' hw
    rcases List.mem_cons.mp hw with rfl | hw
    · exact ⟨d, k, h⟩
    · exact later w' hw

end Progress.IsTyped

section

variable {Q : MessageType → Prop}

/-- A typed message leaves typed patches. -/
theorem Progress.isTyped_ofMessage {t : MessageType} {mask : List MaskField} {place : Compile.Place}
    {schema : Schema} {m : Message} (compiled : compileMask t mask place = .ok schema)
    (hQ : Unambiguous place.relations Q) (ht : Q t) (type : m.type = t) (typed : m.WellTyped)
    (policy : Option ErrorPolicy) (fallback : Bool) :
    (ofMessage m schema policy fallback).IsTyped place.relations Q schema.fields 0 := by
  obtain ⟨entered, level⟩ := ofMessage_first m schema policy fallback
  refine ⟨entered, level, fun x hx => ?_⟩
  unfold ofMessage at hx
  dsimp only at hx
  split at hx
  · next formatted =>
    exact (stays_message compiled hQ ht type typed).format formatted x (mem_patches_enter hx)
  · cases hx

/-- The reply to a request's own call leaves typed patches. -/
theorem Gateway.IsPrepared.isTyped_receive {g : Gateway} {v : Verb} {r : Request} {p : Prepared}
    {reply : Reply Message} (h : g.IsPrepared v r p) (hQ : Unambiguous g.relations Q)
    (known : Q p.entry.method.output)
    (typed : ∀ m, reply = .ok m → m.type = p.entry.method.output ∧ m.WellTyped) (fallback : Bool) :
    (p.receive fallback reply).IsTyped g.relations Q p.schema.fields 0 := by
  cases reply with
  | ok m =>
    obtain ⟨type, typed⟩ := typed m rfl
    exact Progress.isTyped_ofMessage h.compiled hQ known type typed p.onError fallback
  | error status =>
    obtain ⟨entered, level⟩ := p.entered_receive fallback (.error status)
    refine ⟨entered, level, fun x hx => ?_⟩
    unfold Prepared.receive at hx
    dsimp only at hx
    split at hx <;> cases hx

/-- The reply to a request's own call is typed. -/
theorem Prepared.Passes.reply_typed {g : Gateway} {s : Setting} {p : Prepared} {own : Journal}
    {reply : Reply Message} {ws : List Wave} {q : Progress} (h : p.Passes s own reply ws q)
    (typed : s.world.Typed g) (known : p.entry ∈ g.entryPoints) :
    ∀ m, reply = .ok m → m.type = p.entry.method.output ∧ m.WellTyped := by
  rintro m rfl
  obtain ⟨history, owner, now, due, x, _, settled⟩ := h.replied
  exact typed.reply _ _ _ (.inl ⟨p.entry, known, rfl⟩) ((attempted settled).said m rfl)

/-- All waves of a request have typed patches. -/
theorem Prepared.Passes.isTyped {g : Gateway} {v : Verb} {r : Request} {s : Setting} {p : Prepared}
    {own : Journal} {reply : Reply Message} {ws : List Wave} {q : Progress}
    (h : p.Passes s own reply ws q) (prepared : g.IsPrepared v r p) (built : g.IsBuilt)
    (hQ : Unambiguous g.relations Q) (known : ∀ e ∈ g.entryPoints, Q e.method.output)
    (typed : s.world.Typed g) :
    ∀ w ∈ ws, ∃ d k, (Progress.wave d w.batches).IsTyped g.relations Q p.schema.fields k := by
  have entry : p.entry ∈ g.entryPoints := List.mem_of_find?_eq_some prepared.found
  have start := prepared.isTyped_receive hQ (known _ entry) (h.reply_typed typed entry) s.fallback
  exact start.runs h.runs (keyed_of_compileMask prepared.compiled) hQ built typed h.answered

end

/-! ## How a run fails -/

/-- A run fails at its start or with an action of a wave. -/
theorem Progress.Runs.failed {fallback : Bool} {p : Progress} {ws : List Wave} {d : Document}
    {e : Failure} (h : p.Runs fallback ws (.finished d (some e))) :
    p = .finished d (some e) ∨ ∃ w ∈ ws, ∃ a ∈ w.actions, a.Fails fallback e := by
  generalize hq : Progress.finished d (some e) = q at h
  induction h with
  | stop p => exact .inl rfl
  | @wave d' batches w ws q answered rest ih =>
    rcases ih hq with advanced | ⟨w', hw, failed⟩
    · exact .inr ⟨w, List.mem_cons_self .., advance_failed (advanced.trans hq.symm)⟩
    · exact .inr ⟨w', List.mem_cons_of_mem _ hw, failed⟩

end Patchwork
