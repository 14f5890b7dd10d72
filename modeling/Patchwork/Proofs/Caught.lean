import Patchwork.Proofs.Catching
import Patchwork.Proofs.Identity
import Patchwork.Proofs.Interleaving
import Patchwork.Proofs.Registered

/-!
# Requests that catch their failures

A request that catches takes in the failures of its call and of all relations it selects. What it
does not take in is a well-known message without a JSON form, in whatever it was answered. This
fails the request and the batch with it.
-/

namespace Patchwork
open Proto

/-- A method that a gateway may call. -/
def Gateway.Knows (g : Gateway) (m : Method) : Prop :=
  (∃ e ∈ g.entryPoints, e.method = m) ∨ ∃ r ∈ g.relations, r.method = m

/-- Replies are of the types that their methods declare. So are the values of relations that are
resolved otherwise. -/
structure Downstream.Typed (world : Downstream) (g : Gateway) : Prop where
  reply : ∀ history c m, g.Knows c.method → (world.unary history c).value = .ok m →
    m.type = c.method.output ∧ m.WellTyped
  consulted : ∀ r ∈ g.relations, ∀ c values v, r.resolver = .custom c.resolver →
    r.name = c.relation → world.consult c = .ok values → some v ∈ values →
    v.Fits r.method.pool r.field

/-- The failure of printing a well-known message inside the answer to a question that was asked. -/
inductive Failure.IsPrintingOf (e : Failure) (world : Downstream) (events : Journal) : Prop
  | reply {x : Exchange} {history : List Call} {m : Message} (called : .called x ∈ events)
      (answer : (world.unary history x.call).value = .ok m) (printing : e.IsPrinting m)
  | consulted {owner instant : Nat} {c : Consultation} {values : List (Option Value)} {v : Value}
      (asked : .consulted owner instant c ∈ events) (answer : world.consult c = .ok values)
      (given : some v ∈ values) (printing : e.IsPrintingIn v)

namespace Failure.IsPrintingOf

variable {e : Failure} {world : Downstream} {events events' : Journal}

theorem mono (h : e.IsPrintingOf world events) (hs : events ⊆ events') :
    e.IsPrintingOf world events' := by
  cases h with
  | reply called answer printing => exact .reply (hs called) answer printing
  | consulted asked answer given printing => exact .consulted (hs asked) answer given printing

theorem logged (h : e.IsPrintingOf world events) (logs : events'.Logs events) :
    e.IsPrintingOf world events' := by
  cases h with
  | @reply x history m called answer printing =>
    obtain ⟨x', called', same⟩ := logs.called called
    exact .reply called' (same.symm ▸ answer) printing
  | consulted asked answer given printing =>
    exact .consulted (logs.consulted asked) answer given printing

end Failure.IsPrintingOf

/-! ## How a wave fails -/

/-- An action of a wave fails when its value cannot be formatted, or when some entry of a failed
batch has no place for the error. -/
inductive Action.Fails (fallback : Bool) (e : Failure) : Action → Prop
  | unformatted {p : Patch} {v : Value} {d d' : Document}
      (failed : d.format (formatRelationValue p.field v p.target fallback) = (.error e, d')) :
      Fails fallback e (.value p (some v))
  | raised {b : Batch} {p : Patch} (entry : p ∈ b.entries) (nowhere : p.target = none) :
      Fails fallback e (.failure b e)

namespace Stitching

variable {fallback : Bool} {e : Failure} {s s' : Stitched}

theorem act_error {a : Action} (h : (act fallback a).run s = .error e s') : a.Fails fallback e := by
  cases a with
  | value p v =>
    cases v with
    | none => cases h
    | some v =>
      rw [act, run_place] at h
      split at h
      · cases h
      · next e' d hf =>
        cases h
        exact .unformatted hf
  | failure b e' =>
    rw [act] at h
    cases ht : b.entries.mapM (·.target) with
    | none =>
      rw [run_embed_none e' s ht] at h
      cases h
      obtain ⟨p, hp, hn⟩ := targets_eq_none.mp ht
      exact .raised hp hn
    | some targets =>
      rw [run_embed_some e' s ht] at h
      cases h

theorem actAll_error {actions : List Action} (h : (actAll fallback actions).run s = .error e s') :
    ∃ a ∈ actions, a.Fails fallback e := by
  induction actions generalizing s with
  | nil => cases h
  | cons a rest ih =>
    rw [actAll, EStateM.run_bind] at h
    cases ha : (act fallback a).run s with
    | error e₁ s₁ =>
      simp only [ha] at h
      cases h
      exact ⟨a, List.mem_cons_self .., act_error ha⟩
    | ok u s₁ =>
      simp only [ha] at h
      obtain ⟨b, hb, hf⟩ := ih h
      exact ⟨b, List.mem_cons_of_mem _ hb, hf⟩

end Stitching

namespace Progress

variable {fallback : Bool} {d d' : Document} {e : Failure}

theorem advance_failed {w : Wave} (h : advance fallback d w.results = .finished d' (some e)) :
    ∃ a ∈ w.actions, a.Fails fallback e := by
  unfold advance at h
  rw [Stitching.absorbAll_eq] at h
  split at h
  · next s hs =>
    have hn := failure?_enter (Stitching.isSome_of_mem_pending hs)
    rw [h] at hn
    cases hn
  · next hs =>
    cases h
    exact Stitching.actAll_error hs

theorem ofMessage_failed {m : Message} {schema : Schema} {policy : Option ErrorPolicy}
    (h : ofMessage m schema policy fallback = .finished d (some e)) : ∃ target d',
      (Document.grow {} 1).format (formatMessage m schema target fallback) = (.error e, d') := by
  unfold ofMessage at h
  dsimp only at h
  split at h
  · next node patches d' hf =>
    have relations : ∀ q ∈ patches, q.field.info.relation.isSome := fun q hq =>
      isSome_of_mem_relationsIn _ ((Document.format_message Direct.absent hf).2.leaf q hq).selected
    have hn := failure?_enter (s := ⟨d'.fill 0 node, patches⟩) relations
    rw [h] at hn
    cases hn
  · next e' d' hf =>
    cases h
    exact ⟨_, _, hf⟩

end Progress

/-! ## Places for errors -/

/-- If all patches have a place for errors, those uncovered later have one. -/
theorem Kept.targets (fallback : Bool) : Kept fallback fun _ _ left =>
    ∀ x ∈ left, x.target.isSome where
  perm hl h x hx := h x (hl.mem_iff.mpr hx)
  step := by
    intro log d d' a left next hs h x hx
    rcases List.mem_append.mp hx with hx | hx
    · exact h x (List.mem_append_right _ hx)
    · obtain ⟨p, v, rfl, hu⟩ := hs.uncovers hx
      rw [hu.leaf.target_eq]
      split
      · rfl
      · exact h p (List.mem_append_left _ (List.mem_singleton_self _))

namespace Prepared

variable {s : Setting} {p : Prepared} {own : Journal} {due : Option Nat}

theorem targets_receive (caught : shouldCatch p.onError s.fallback) (reply : Reply Message) :
    ∀ x ∈ (p.receive s.fallback reply).patches, x.target.isSome := by
  cases reply with
  | ok m =>
    intro x hx
    have leaf : x.Leaf s.fallback (nearestCatch s.fallback p.onError []) _ :=
      Progress.ofMessage_leaf x hx
    rw [leaf.target_eq, nearestCatch, if_pos caught]
    split <;> rfl
  | error e =>
    unfold receive
    dsimp only
    rw [if_pos caught]
    simp [Progress.patches]

/-- All patches of a request that catches have a place for errors. -/
theorem Leads.targets {q : Progress} (h : p.Leads s own due (.stitching q))
    (caught : shouldCatch p.onError s.fallback) : ∀ x ∈ q.patches, x.target.isSome := by
  obtain ⟨reply, ws, hr⟩ := h.runs
  have start : (p.receive s.fallback reply).Has fun _ left => ∀ x ∈ left, x.target.isSome := by
    have ht := targets_receive caught reply
    cases hq : p.receive s.fallback reply with
    | wave d batches =>
      rw [hq] at ht
      exact ht
    | finished d failure =>
      cases failure with
      | none => simp [Progress.Has]
      | some e => trivial
  have hq := @Kept.runs _ _ (Kept.targets s.fallback) [] _ _ _ hr start
  cases q with
  | wave d batches => exact hq
  | finished d failure => simp [Progress.patches]

end Prepared

/-! ## What failed -/

theorem Wave.mem_value {w : Wave} {p : Patch} {v : Option Value} (h : .value p v ∈ w.actions) :
    ∃ b values, (b, .ok values) ∈ w ∧ p ∈ b.entries ∧ v ∈ values := by
  obtain ⟨⟨b, r⟩, hb, ha⟩ := List.mem_flatMap.mp h
  dsimp only at ha
  unfold Batch.actions at ha
  split at ha
  · next values hr =>
    obtain ⟨rfl, _⟩ := Batch.length_eq_of_check hr
    obtain ⟨x, hx, he⟩ := List.mem_map.mp ha
    cases he
    obtain ⟨hp, hv⟩ := List.of_mem_zip hx
    exact ⟨b, values, hb, hp, hv⟩
  · cases List.mem_singleton.mp ha

/-- Where the values of a batch come from: from the reply to a call, or from the gateway's own
code. -/
inductive Batch.Source (b : Batch) (world : Downstream) (events : Journal)
    (values : List (Option Value)) : Prop
  | reply {x : Exchange} {history : List Call} {m : Message} (called : .called x ∈ events)
      (method : x.call.method = b.relation.method)
      (answer : (world.unary history x.call).value = .ok m)
      (given : b.relation.valuesOf m = .ok values) : Source b world events values
  | consulted {owner instant : Nat} {c : Consultation} (asked : .consulted owner instant c ∈ events)
      (resolver : b.relation.resolver = .custom c.resolver) (relation : b.relation.name = c.relation)
      (answer : world.consult c = .ok values) : Source b world events values

section

variable {s : Setting} {g : Gateway} {world : Downstream} {ctx : CallContext}

theorem Batch.source {b : Batch} {owner now : Nat} {before : Journal} {values : List (Option Value)}
    (h : (b.resolve world ctx owner now before).result = .ok values) :
    b.Source world (b.resolve world ctx owner now before).events values := by
  unfold resolve at h ⊢
  cases hr : b.relation.resolver with
  | custom name =>
    simp only [hr] at h
    obtain ⟨answer, _⟩ := length_eq_of_check h
    exact .consulted (List.mem_cons_self ..) hr rfl answer
  | method transport timeout =>
    simp only [hr] at h
    cases hm : b.relation.request b.bases (b.params.map (·.message)) with
    | error e =>
      simp only [hm] at h
      cases h
    | ok message =>
      rcases ha : attempt (world.unary before.calls) owner now
        (b.call ctx now transport timeout message) with ⟨due, reply, e⟩
      simp only [hm, ha] at h ⊢
      cases reply with
      | error status => cases h
      | ok m =>
        obtain ⟨given, _⟩ := length_eq_of_check h
        have answer := (attempted ha).said m rfl
        have method : e.call.method = b.relation.method := by
          rw [(attempted ha).call]
          rfl
        rw [← (attempted ha).call] at answer
        exact .reply (List.mem_cons_self ..) method answer given

/-- Typed answers give values of the relation's field, and what cannot be printed inside these was
answered. -/
theorem Batch.Source.value_fits {b : Batch} {events : Journal} {values : List (Option Value)}
    {v : Value} (h : b.Source world events values) (built : g.IsBuilt) (typed : world.Typed g)
    (known : b.relation ∈ g.relations) (hv : some v ∈ values) :
    v.Fits b.relation.method.pool b.relation.field ∧
      ∀ e : Failure, e.IsPrintingIn v → e.IsPrintingOf world events := by
  cases h with
  | consulted asked resolver relation answer =>
    refine ⟨typed.consulted _ known _ _ _ resolver relation answer hv, fun e he => ?_⟩
    exact .consulted asked answer hv he
  | @reply x history m called method answer given =>
    obtain ⟨type, wellTyped⟩ := typed.reply _ _ _ (.inr ⟨b.relation, known, method.symm⟩) answer
    obtain ⟨fits, inside⟩ :=
      (built.isShaped _ known).valuesOf (type.trans (congrArg _ method)) wellTyped given hv
    exact ⟨fits, fun e he => .reply called answer (inside e he)⟩

variable {p : Prepared} {v : Verb} {r : Request} {Q : MessageType → Prop} {own : Journal}
  {due : Option Nat}

/-- The value that an entry of a wave gets is of the field of the relation that it is selected for. -/
theorem Prepared.Leads.value_fits {d : Document} {batches : List Batch} {now owner : Nat}
    {j events : Journal} {w : Wave} {x : Patch} {value : Value} (built : g.IsBuilt)
    (typed : s.world.Typed g) (prepared : Gateway.IsPrepared g v r p)
    (led : p.Leads s own (some now) (.stitching (.wave d batches)))
    (resolved : resolveWave s.world s.ctx owner now batches j = (due, w, events ++ j))
    (given : .value x (some value) ∈ w.actions) :
    ∃ k relation, x.field ∈ level p.schema.fields k ∧ x.field.info.relation = some relation ∧
      value.Fits relation.method.pool relation.field ∧
      ∀ e : Failure, e.IsPrintingIn value → e.IsPrintingOf s.world events := by
  have wave := waveResolved_append resolved
  obtain ⟨rfl, _⟩ := resolveWave_spec resolved
  obtain ⟨b, values, hb, hx, hv⟩ := Wave.mem_value given
  obtain ⟨_, ⟨⟨before, rfl⟩, _, happened⟩, result⟩ := wave.result _ hb
  have hbatch : b ∈ w.batches := List.mem_map_of_mem (f := fun y : Batch × Resolution => y.1) hb
  obtain ⟨⟨patches, _, grouped⟩, k, hk⟩ := led.entered
  have level : ∀ y ∈ patches, y.field ∈ level p.schema.fields k := fun y hy =>
    hk y (grouped.perm.mem_iff.mpr hy)
  have hrelation := (grouped.asks (keyed_of_compileMask prepared.compiled) level hbatch hx).1
  have hlevel := level x (grouped.mem_iff.mpr ⟨b, hbatch, hx⟩)
  have known := mem_relations_of_compileMask prepared.compiled hlevel hrelation
  obtain ⟨fits, inside⟩ := (Batch.source result.symm).value_fits built typed known hv
  exact ⟨k, b.relation, hlevel, hrelation, fits, fun e he => (inside e he).mono happened⟩

/-- When a request that catches has failed, what failed is the printing of an answer. -/
theorem Prepared.Leads.isPrintingOf {d : Document} {e : Failure} (built : g.IsBuilt)
    (typed : s.world.Typed g) (prepared : Gateway.IsPrepared g v r p)
    (unambiguous : Unambiguous g.relations Q) (known : ∀ x ∈ g.entryPoints, Q x.method.output)
    (caught : shouldCatch p.onError s.fallback)
    (h : p.Leads s own due (.stitching (.finished d (some e)))) : e.IsPrintingOf s.world own := by
  have hentry : p.entry ∈ g.entryPoints := List.mem_of_find?_eq_some prepared.found
  generalize hq : Stage.stitching (.finished d (some e)) = stage at h
  cases h with
  | start now => cases hq
  | @called history owner now due reply exchange settled =>
    have hq := Stage.stitching.inj hq
    cases reply with
    | error status =>
      unfold receive at hq
      dsimp only at hq
      rw [if_pos caught] at hq
      cases hq
    | ok m =>
      have answer := (attempted settled).said m rfl
      obtain ⟨type, wellTyped⟩ := typed.reply _ _ _ (.inl ⟨p.entry, hentry, rfl⟩) answer
      obtain ⟨target, d', hf⟩ := Progress.ofMessage_failed hq.symm
      have printing := ((stays_message prepared.compiled unambiguous (known _ hentry) type
        wellTyped).failsOnly.format hf).isPrinting
      rw [← (attempted settled).call] at answer
      exact .reply (List.mem_singleton_self _) answer printing
  | @wave own events j owner now d₀ batches due w led resolved =>
    have hq := Stage.stitching.inj hq
    obtain ⟨hb, hw, _⟩ := resolveWave_spec resolved
    rw [← hw] at hq
    obtain ⟨a, ha, failed⟩ := Progress.advance_failed hq.symm
    cases failed with
    | @raised b x entry nowhere =>
      have hx : x ∈ w.entries := by
        rw [← w.entries_actions]
        exact List.mem_flatMap.mpr ⟨_, ha, entry⟩
      rw [Wave.entries, hb] at hx
      have place := led.targets caught x hx
      rw [nowhere] at place
      cases place
    | @unformatted x value d₁ d₂ hf =>
      obtain ⟨k, relation, selected, hr, fits, inside⟩ :=
        led.value_fits built typed prepared resolved ha
      have printing := ((stays_relationValue prepared.compiled unambiguous (known _ hentry)
        selected hr fits).failsOnly.format hf).isPrintingIn
      exact (inside e printing).mono (List.subset_append_left ..)

end

/-- A batch whose requests all catch has a response for each of them, unless a call of it or a custom
resolver was answered with a well-known message that has no JSON form. Answers are typed here, types
of one name have the same fields, and each call is answered that no timeout bounds. -/
theorem caught_requests_fail_only_on_unprintable (g : Gateway) (world : Downstream)
    (ctx : CallContext) (v : Verb) (m : Moment) (requests : List Request) (prepared : List Prepared)
    (Q : MessageType → Prop) (built : g.IsBuilt) (valid : g.prepareAll v requests = .ok prepared)
    (caught : ∀ r ∈ requests, shouldCatch r.onError v.catchesByDefault)
    (answers : world.Answers) (typed : world.Typed g) (unambiguous : Unambiguous g.relations Q)
    (known : ∀ x ∈ g.entryPoints, Q x.method.output) :
    (∃ rs, (g.serve world ctx v m requests).1 = some (.ok rs) ∧
      rs.map (·.method) = requests.map (·.method)) ∨
    ∃ fresh e, (g.serve world ctx v m requests).1 = some (.error e) ∧
      (g.serve world ctx v m requests).2.journal = fresh ++ m.journal ∧
      e.IsPrintingOf world fresh := by
  obtain ⟨xs, fresh, events, h⟩ := Gateway.serve_prepared world ctx m valid
  have ha := h.answer
  generalize (g.serve world ctx v m requests).1 = result at ha ⊢
  cases ha with
  | complete done =>
    have responded : (Gateway.responses prepared xs).map (·.method) = prepared.map (·.method) := by
      rw [← List.forall₂_eq_eq_eq, List.forall₂_map_left_iff, List.forall₂_map_right_iff]
      refine (Gateway.responses_forall₂ h.interleaved.forall₂ done).flip.imp ?_
      rintro response p ⟨d, _, rfl⟩
      rfl
    have methods : prepared.map (·.method) = requests.map (·.method) := by
      rw [← List.forall₂_eq_eq_eq, List.forall₂_map_left_iff, List.forall₂_map_right_iff]
      refine (Gateway.prepareAll_eq_ok.mp valid).2.flip.imp fun p r h => ?_
      exact (Gateway.isPrepared h).method
    exact .inl ⟨_, rfl, responded.trans methods⟩
  | failed failed =>
    obtain ⟨p, hp, own, ho, came⟩ := h.interleaved.came failed
    obtain ⟨r, hr, isPrepared⟩ := Gateway.exists_isPrepared valid hp
    have hcaught := caught r hr
    rw [← isPrepared.onError] at hcaught
    cases came with
    | failed led passed =>
      have printing := led.isPrintingOf built typed isPrepared unambiguous known hcaught
      exact .inr ⟨fresh, _, rfl, h.journal, (printing.mono ho).logged h.logs⟩
  | stuck waits =>
    obtain ⟨p, _, own, _, came⟩ := h.interleaved.came waits
    cases came with
    | sleeping led ahead => cases led.comes answers

namespace Sample

/-- A server that has items and the instants when they were made, but not their parents. -/
def stampsAt (seconds : Int64) : Downstream where
  unary _ c := ⟨some 0,
    if c.method.info.name = "Get" then .ok (storedItem "knot")
    else if c.method.info.name = "Stamp" then
      .ok (.mk c.method.output [(1, .scalar (.int64 seconds))] [])
    else .error ⟨.unavailable, "", []⟩⟩
  stream _ _ := ⟨none, .error ⟨.unavailable, "", []⟩⟩
  consult _ := .ok []

/-- An item with its parent, and when it was made. -/
def stamped : List Request :=
  [{ method := "Items.Get", mask }, { method := "Items.Stamp", onError := some .embed }]

theorem stamped_valid : ∃ prepared, gateway.prepareAll .act stamped = .ok prepared :=
  ⟨_, Outcome.eq_ok_getD (a := []) (by decide +kernel)⟩

theorem stamped_caught : ∀ r ∈ stamped, shouldCatch r.onError Verb.act.catchesByDefault := by
  simp [stamped, shouldCatch, Verb.catchesByDefault]

theorem gateway_isBuilt : gateway.IsBuilt := by
  obtain ⟨b, hb, h⟩ := Outcome.bind_eq_ok.mp assembles
  obtain ⟨b', hb', h⟩ := Outcome.bind_eq_ok.mp h
  exact ⟨b', .registerRelation (.registerService (.withTransport .start _) hb) hb', h⟩

/-- The types that requests of the gateway meet. -/
def Met (t : MessageType) : Prop :=
  t = store.message "Item" ∨ t = store.message "google.protobuf.Timestamp"

theorem met_output : ∀ x ∈ gateway.entryPoints, Met x.method.output := by
  unfold Met
  decide +kernel

theorem gateway_relation : ∀ r ∈ gateway.relations, r.method.pool = store ∧ r.field = parent ∧
    r.resolver = .method ⟨"http://items"⟩ none := by
  decide +kernel

theorem mem_methods {m : Method} (h : gateway.Knows m) : m ∈ items.methods := by
  have entries : ∀ e ∈ gateway.entryPoints, e.method ∈ items.methods := by decide +kernel
  have relations : ∀ r ∈ gateway.relations, r.method ∈ items.methods := by decide +kernel
  rcases h with ⟨e, he, rfl⟩ | ⟨r, hr, rfl⟩
  · exact entries e he
  · exact relations r hr

theorem gateway_unambiguous : Unambiguous gateway.relations Met where
  closed := by
    intro t ht c hc u hu
    obtain ⟨plain, ⟨g, hg, rfl⟩ | ⟨r, hr, rfl⟩⟩ := CatalogType.mem_fields hc
    · rcases ht with rfl | rfl
      · obtain rfl := List.mem_singleton.mp hg
        cases hu
      · exact absurd plain (by decide +kernel)
    · obtain ⟨hpool, hfield, _⟩ := gateway_relation r (List.mem_filter.mp hr).1
      have hu : Element.ofKind r.method.pool r.field.kind = .message u := hu
      rw [hpool, hfield] at hu
      cases hu
      exact .inl rfl
  same := by
    rintro t u (rfl | rfl) (rfl | rfl) hn
    · rfl
    · exact absurd hn (by decide +kernel)
    · exact absurd hn (by decide +kernel)
    · rfl
  names := by
    rintro t (rfl | rfl)
    · decide +kernel
    · decide +kernel

theorem storedItem_typed (text : String) : (storedItem text).WellTyped := by
  refine ⟨fun g hg v hv => ?_⟩
  obtain rfl := List.mem_singleton.mp hg
  unfold Message.value? at hv
  split at hv
  · cases hv
    have holds : Value.Holds store (.scalar .string) (.scalar (.string text)) := .scalar ..
    exact .single rfl holds
  · cases hv

theorem instant_typed (seconds : Int64) : (Message.mk (store.message "google.protobuf.Timestamp")
    [(1, .scalar (.int64 seconds))] []).WellTyped := by
  refine ⟨fun g hg v hv => ?_⟩
  rcases List.mem_pair.mp hg with rfl | rfl
  · unfold Message.value? at hv
    split at hv
    · cases hv
      have holds : Value.Holds store (.scalar .int64) (.scalar (.int64 seconds)) := .scalar ..
      exact .single rfl holds
    · cases hv
  · cases hv

theorem stampsAt_answers (seconds : Int64) : (stampsAt seconds).Answers := fun _ _ _ => rfl

theorem stampsAt_typed (seconds : Int64) : (stampsAt seconds).Typed gateway where
  reply := by
    intro history c m known h
    have member := mem_methods known
    unfold stampsAt at h
    dsimp only at h
    generalize c.method = method at member h ⊢
    simp only [Service.methods, items, List.map_cons, List.map_nil, List.mem_cons,
      List.not_mem_nil, or_false] at member
    rcases member with rfl | rfl | rfl
    · cases h
      exact ⟨rfl, storedItem_typed "knot"⟩
    · cases h
      exact ⟨rfl, instant_typed seconds⟩
    · cases h
  consulted := by
    intro r hr c values v custom
    rw [(gateway_relation r hr).2.2] at custom
    cases custom

end Sample

/-- Although the parent of the item cannot be had, both requests get their responses. -/
theorem unavailable_parent_is_caught : ∃ rs,
    (Sample.gateway.serve (Sample.stampsAt 1) {} .act {} Sample.stamped).1 = some (.ok rs) ∧
      rs.map (·.method) = ["Items.Get", "Items.Stamp"] := by
  obtain ⟨prepared, valid⟩ := Sample.stamped_valid
  rcases caught_requests_fail_only_on_unprintable Sample.gateway (Sample.stampsAt 1) {} .act {}
      Sample.stamped prepared Sample.Met Sample.gateway_isBuilt valid Sample.stamped_caught
      (Sample.stampsAt_answers 1) (Sample.stampsAt_typed 1) Sample.gateway_unambiguous
      Sample.met_output with h | ⟨_, e, he, _⟩
  · exact h
  · have ok : ((Sample.gateway.serve (Sample.stampsAt 1) {} .act {} Sample.stamped).1.bind
      Except.toOption).isSome = true := by decide +kernel
    rw [he] at ok
    cases ok

/-- An instant out of range, though its request catches, fails the whole batch. -/
theorem instant_out_of_range_fails_batch : Sample.gateway.IsBuilt ∧
    (∃ prepared, Sample.gateway.prepareAll .act Sample.stamped = .ok prepared) ∧
    (∀ r ∈ Sample.stamped, shouldCatch r.onError Verb.act.catchesByDefault) ∧
    (Sample.stampsAt Int64.maxValue).Answers ∧
    (Sample.stampsAt Int64.maxValue).Typed Sample.gateway ∧
    (Sample.gateway.serve (Sample.stampsAt Int64.maxValue) {} .act {} Sample.stamped).1 =
      some (.error (.serialization .timestamp)) := by
  refine ⟨Sample.gateway_isBuilt, Sample.stamped_valid, Sample.stamped_caught,
    Sample.stampsAt_answers _, Sample.stampsAt_typed _, ?_⟩
  have h : (Sample.gateway.serve (Sample.stampsAt Int64.maxValue) {} .act {} Sample.stamped).1.bind
    Outcome.failure? = some (.serialization .timestamp) := by decide +kernel
  obtain ⟨x, hx, he⟩ := Option.bind_eq_some_iff.mp h
  rw [hx, Outcome.failure?_eq_some.mp he]

end Patchwork
