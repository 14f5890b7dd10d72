import Patchwork.Proofs.TypedRuns

/-!
# Soundness of compiled schemas

Where all methods come from one pool, a schema that was compiled for a type fits each message of the
type. Formatting then fails on nothing but well-known messages without a JSON form. What is left of
internal errors is one: a relation's reply that has more or fewer values than there were bases.
-/

namespace Patchwork
open Proto

/-- A method was called and replied with a message. -/
def Downstream.Replied (world : Downstream) (events : Journal) (method : Method) (m : Message) : Prop :=
  ∃ (x : Exchange) (history : List Call), .called x ∈ events ∧ x.call.method = method ∧
    (world.unary history x.call).value = .ok m

/-- The failure of a relation's reply that does not have one value for each base. -/
def Failure.IsMiscount (e : Failure) (g : Gateway) (world : Downstream) (events : Journal) : Prop :=
  ∃ r ∈ g.relations, ∃ m values bases, world.Replied events r.method m ∧ r.valuesOf m = .ok values ∧
    .resolved r.method.fullName bases ∈ events ∧ values.length ≠ bases ∧
    e = .internal (.valueCount r.method.fullName values.length bases)

/-- An error value that a request leaves in a slot of its body, and the failure that it tells of: that
of its own call, or that of a batch of some wave. -/
inductive Prepared.Embeds (p : Prepared) (reply : Reply Message) (ws : List Wave) :
    Failure → Nat → Json → Prop
  | own {status : Status} (failed : reply = .error status) :
      Embeds p reply ws (.downstream status) 0
        (errorValue (.downstream status) p.method (some p.entry.method.pool))
  | batch {w : Wave} {b : Batch} {e : Failure} {x : Patch} {n : Nat} (wave : w ∈ ws)
      (failed : (b, .error e) ∈ w) (entry : x ∈ b.entries) (place : x.target = some n) :
      Embeds p reply ws e n (errorValue e x.field.info.path (some b.relation.method.pool))

theorem Failure.not_isPrinting_internal (cause : Broken) (m : Message) :
    ¬(Failure.internal cause).IsPrinting m := by
  rintro ⟨_, _, _, _, _, h⟩
  cases h

theorem Failure.IsMiscount.mono {e : Failure} {g : Gateway} {world : Downstream}
    {events events' : Journal} (h : e.IsMiscount g world events) (sub : events ⊆ events') :
    e.IsMiscount g world events' := by
  obtain ⟨r, hr, m, values, bases, ⟨x, history, called, answer⟩, given, resolved, count⟩ := h
  exact ⟨r, hr, m, values, bases, ⟨x, history, sub called, answer⟩, given, sub resolved, count⟩

/-! ## Questions of a relation, and replies -/

namespace Relation.IsShaped

variable {r : Relation}

theorem basesType_eq (h : r.IsShaped) : r.basesType = r.base := by
  unfold Relation.basesType
  rw [(RelationShape.ofMethod_input h).1, Option.getD_some]

/-- Bases of the relation's own type need not be converted. -/
theorem request_isOk (h : r.IsShaped) {bases : List Message} (typed : ∀ b ∈ bases, b.type = r.base)
    (params : Option Message) : ∃ message, r.request bases params = .ok message := by
  unfold Relation.request
  refine Outcome.bind_isOk (Outcome.mapM_isOk fun b hb => ?_) fun _ => ⟨_, rfl⟩
  have same : b.convert? r.basesType = some b := by
    rw [h.basesType_eq, ← typed b hb]
    simp [Message.convert?, MessageType.same]
  rw [same]
  exact ⟨_, rfl⟩

/-- A typed reply has values. -/
theorem valuesOf_isOk (h : r.IsShaped) {m : Message} (type : m.type = r.method.output)
    (typed : m.WellTyped) : ∃ values, r.valuesOf m = .ok values := by
  obtain ⟨known, isList, name, kind, _⟩ := RelationShape.ofMethod_output h
  obtain ⟨items, hg, _, hitems⟩ := typed.get_list (type ▸ known) isList kind
  unfold Relation.valuesOf
  rw [hg]
  refine Outcome.mapM_isOk fun x hx => ?_
  obtain ⟨y, rfl, _⟩ := hitems x hx
  exact ⟨_, rfl⟩

end Relation.IsShaped

/-- A batch of typed bases that is resolved by a call fails internally only on the number of values. -/
theorem Batch.isMiscount {b : Batch} {g : Gateway} {world : Downstream} {ctx : CallContext}
    {owner now : Nat} {before : Journal} {transport : Transport} {timeout : Option Nat}
    {cause : Broken} (known : b.relation ∈ g.relations) (shaped : b.relation.IsShaped)
    (backed : b.relation.resolver = .method transport timeout)
    (bases : ∀ x ∈ b.entries, x.base.type = b.relation.base) (typed : world.Typed g)
    (failed : (b.resolve world ctx owner now before).result = .error (.internal cause)) :
    (Failure.internal cause).IsMiscount g world (b.resolve world ctx owner now before).events := by
  have bases : ∀ m ∈ b.bases, m.type = b.relation.base := by
    intro m hm
    obtain ⟨x, hx, rfl⟩ := List.mem_map.mp hm
    exact bases x hx
  obtain ⟨message, asked⟩ := shaped.request_isOk bases (b.params.map (·.message))
  unfold resolve at failed ⊢
  rcases ha : attempt (world.unary before.calls) owner now
    (b.call ctx now transport timeout message) with ⟨due, reply, x⟩
  have attempted := attempted ha
  simp only [backed, asked, ha] at failed ⊢
  cases reply with
  | error status => cases failed
  | ok m =>
    have answer := attempted.said m rfl
    obtain ⟨type, wellTyped⟩ := typed.reply _ _ _ (.inr ⟨b.relation, known, rfl⟩) answer
    obtain ⟨values, given⟩ := shaped.valuesOf_isOk type wellTyped
    have failed : b.check values = .error (.internal cause) := by
      have bound : (b.relation.valuesOf m >>= b.check) = .error (.internal cause) := failed
      rw [given] at bound
      exact bound
    unfold check at failed
    split at failed
    · cases failed
    · next count =>
      cases failed
      have called : x.call.method = b.relation.method := by
        rw [attempted.call]
        rfl
      rw [← attempted.call] at answer
      exact ⟨b.relation, known, m, values, b.entries.length,
        ⟨x, _, List.mem_cons_self .., called, answer⟩, given,
        List.mem_cons_of_mem _ (List.mem_singleton_self _), count, rfl⟩

/-! ## Requests -/

/-- Each relation is computed by its method. -/
def Gateway.IsBacked (g : Gateway) : Prop :=
  ∀ r ∈ g.relations, ∃ transport timeout, r.resolver = .method transport timeout

section

variable {g : Gateway} {pool : Pool} {fields : List Selected} {k : Nat} {d : Document} {w : Wave}
  {world : Downstream} {ctx : CallContext} {events : Journal} {cause : Broken}

/-- A batch of a typed wave fails internally only on the number of values. -/
theorem Progress.IsTyped.isMiscount {b : Batch}
    (h : (Progress.wave d w.batches).IsTyped g.relations pool.Has fields k) (keyed : Keyed fields)
    (single : g.IsOver pool) (backed : g.IsBacked) (typed : world.Typed g)
    (answered : w.Answered world ctx events) (failed : (b, .error (.internal cause)) ∈ w) :
    (Failure.internal cause).IsMiscount g world events := by
  have known := h.mem_relations failed
  obtain ⟨transport, timeout, resolver⟩ := backed b.relation known
  have bases : ∀ x ∈ b.entries, x.base.type = b.relation.base := by
    intro x hx
    obtain ⟨isTyped, relation, _⟩ := h.entry keyed failed hx
    exact (single.base_type isTyped relation).1
  obtain ⟨owner, now, before, result, happened⟩ := answered _ failed
  exact (Batch.isMiscount known (single.built.isShaped _ known) resolver bases typed result.symm).mono
    happened

/-- So does the whole wave. -/
theorem Progress.IsTyped.action_isMiscount {a : Action} {fallback : Bool}
    (h : (Progress.wave d w.batches).IsTyped g.relations pool.Has fields k) (keyed : Keyed fields)
    (single : g.IsOver pool) (backed : g.IsBacked) (typed : world.Typed g)
    (answered : w.Answered world ctx events) (ha : a ∈ w.actions)
    (failed : a.Fails fallback (.internal cause)) :
    (Failure.internal cause).IsMiscount g world events := by
  cases failed with
  | raised entry nowhere =>
    exact h.isMiscount keyed single backed typed answered (answered.mem_failure ha)
  | unformatted formatted =>
    obtain ⟨r, relation, ⟨t, m, ht, one, _⟩, fits⟩ :=
      h.value_fits keyed single.built typed answered ha
    have printing := (one.stays_relationValue single.unambiguous ht relation fits).failsOnly.format
      formatted
    obtain ⟨y, _, printing⟩ := printing.isPrintingIn
    exact absurd printing (Failure.not_isPrinting_internal cause y)

variable {s : Setting} {p : Prepared} {v : Verb} {r : Request} {own : Journal}
  {reply : Reply Message} {ws : List Wave}

namespace Prepared.Passes

/-- What a request raises of internal errors is a wrong number of values. -/
theorem raised_isMiscount (h : p.Passes s own reply ws (.finished d (some (.internal cause))))
    (prepared : g.IsPrepared v r p) (single : g.IsOver pool) (backed : g.IsBacked)
    (typed : s.world.Typed g) : (Failure.internal cause).IsMiscount g s.world own := by
  have entry : p.entry ∈ g.entryPoints := List.mem_of_find?_eq_some prepared.found
  have keyed := keyed_of_compileMask prepared.compiled
  have waves := h.isTyped prepared single.built single.unambiguous (fun _ => single.has_output) typed
  rcases h.runs.failed with start | ⟨w, hw, a, ha, failed⟩
  · cases reply with
    | error status =>
      unfold receive at start
      dsimp only at start
      split at start <;> cases start
    | ok m =>
      obtain ⟨type, wellTyped⟩ := h.reply_typed typed entry m rfl
      obtain ⟨target, d', formatted⟩ := Progress.ofMessage_failed start
      have printing := ((stays_message prepared.compiled single.unambiguous
        (single.has_output entry) type wellTyped).failsOnly.format formatted).isPrinting
      exact absurd printing (Failure.not_isPrinting_internal cause m)
  · obtain ⟨d', k, isTyped⟩ := waves w hw
    exact isTyped.action_isMiscount keyed single backed typed (h.answered w hw) ha failed

/-- And so is what it embeds of them. -/
theorem embedded_isMiscount {q : Progress} {n : Nat} {j : Json} (h : p.Passes s own reply ws q)
    (prepared : g.IsPrepared v r p) (single : g.IsOver pool) (backed : g.IsBacked)
    (typed : s.world.Typed g) (embedded : p.Embeds reply ws (.internal cause) n j) :
    (Failure.internal cause).IsMiscount g s.world own := by
  cases embedded with
  | batch wave failed entry place =>
    obtain ⟨d, k, isTyped⟩ :=
      h.isTyped prepared single.built single.unambiguous (fun _ => single.has_output) typed _ wave
    exact isTyped.isMiscount (keyed_of_compileMask prepared.compiled) single backed typed
      (h.answered _ wave) failed

/-- A slot of the body holds no other error value than those of the request's failures. -/
theorem embeds {n : Nat} {j : Json} (h : p.Passes s own reply ws (.finished d none))
    (slot : d.slot? n = some (.failed j)) : ∃ e, p.Embeds reply ws e n j := by
  have runs := h.runs
  cases reply with
  | error status =>
    unfold receive at runs
    dsimp only at runs
    split at runs
    · cases runs
      rw [Document.slot?_fail] at slot
      split at slot
      · next first =>
        obtain ⟨rfl, _⟩ := first
        cases slot
        exact ⟨_, .own rfl⟩
      · rw [Document.slot?_grow] at slot
        split at slot <;> simp_all [Document.slot?]
    · cases runs
  | ok m =>
    have runs : (Progress.ofMessage m p.schema p.onError s.fallback).Runs s.fallback ws
      (.finished d none) := runs
    rcases Progress.ofMessage_eq m p.schema p.onError s.fallback with
      ⟨root, patches, d₀, rooted, start⟩ | ⟨d₀, e, start, _⟩
    · rw [start] at runs
      have error := (rooted.account_of_runs runs).error n
      rw [Document.error?_eq_some.mpr slot] at error
      obtain ⟨a, ha, he⟩ := List.mem_flatMap.mp (mem_of_lastError error.symm)
      obtain ⟨w, hw, ha⟩ := List.mem_flatMap.mp ha
      cases a with
      | value x v => cases he
      | failure b e =>
        obtain ⟨x, hx, he⟩ := List.mem_filterMap.mp he
        obtain ⟨t, ht, he⟩ := Option.map_eq_some_iff.mp he
        cases he
        exact ⟨e, .batch hw ((h.answered w hw).mem_failure ha) hx ht⟩
    · rw [start] at runs
      cases runs

end Prepared.Passes

end

/-- Over one pool, formatting a typed message, or a typed value of a relation that was selected at
whatever level, fails only on a selected well-known message that has no JSON form. When relations are
computed by methods and replies are typed, the only internal failure of a batch is the wrong number of
values in a relation's reply: that is so for what it raises, and for what its responses embed. -/
theorem compiled_schemas_are_sound (g : Gateway) (pool : Pool) (single : g.IsOver pool) :
    (∀ t mask place schema, pool.Has t → place.relations = g.relations →
      compileMask t mask place = .ok schema → ∀ target fallback,
      (∀ m : Message, m.type = t → m.WellTyped →
        (formatMessage m schema target fallback).FailsOnly (·.IsPrintingAt m schema.fields)) ∧
      ∀ k, ∀ s ∈ level schema.fields k, ∀ (r : Relation) (v : Value), s.info.relation = some r →
        v.Fits r.method.pool r.field →
        (formatRelationValue s v target fallback).FailsOnly (·.IsPrintingOn s.shape v)) ∧
    ∀ (world : Downstream) (ctx : CallContext) (v : Verb) (m : Moment) (requests : List Request),
      g.IsBacked → world.Typed g →
      ∃ fresh events, (g.serve world ctx v m requests).2.journal = fresh ++ m.journal ∧
        fresh.Logs events ∧
        (∀ cause, (g.serve world ctx v m requests).1 = some (.error (.internal cause)) →
          (Failure.internal cause).IsMiscount g world events) ∧
        ∀ responses, (g.serve world ctx v m requests).1 = some (.ok responses) →
          ∃ prepared, g.prepareAll v requests = .ok prepared ∧
            List.Forall₂ (fun p response => ∃ own, own ⊆ events ∧ ∃ reply ws d,
              p.Passes (Gateway.setting world ctx v) own reply ws (.finished d none) ∧
              response = Gateway.response p d true ∧
              (∀ n j, d.slot? n = some (.failed j) → ∃ e, p.Embeds reply ws e n j) ∧
              ∀ cause n j, p.Embeds reply ws (.internal cause) n j →
                (Failure.internal cause).IsMiscount g world own) prepared responses := by
  constructor
  · intro t mask place schema known relations compiled target fallback
    have unambiguous : Unambiguous place.relations pool.Has := relations ▸ single.unambiguous
    refine ⟨fun m type typed => ?_, fun k s selected r v relation fits => ?_⟩
    · exact (stays_message compiled unambiguous known type typed).failsOnly
    · exact (stays_relationValue compiled unambiguous known selected relation fits).failsOnly
  · intro world ctx v m requests backed typed
    cases valid : g.prepareAll v requests with
    | error e =>
      have refused := Gateway.prepareAll_eq_error.mp valid
      obtain ⟨result, journal⟩ := Gateway.serve_refused refused world ctx m
      refine ⟨[], [], journal, ⟨id, fun e => by cases e <;> rfl, rfl⟩, fun cause raised => ?_,
        fun responses complete => ?_⟩
      · rw [result] at raised
        cases raised
        rcases refused.isInvalid with ⟨name, h⟩ | ⟨cause, h⟩ <;> cases h
      · rw [result] at complete
        cases complete
    | ok prepared =>
      obtain ⟨xs, fresh, events, served⟩ := Gateway.serve_prepared world ctx m valid
      refine ⟨fresh, events, served.journal, served.logs, fun cause raised => ?_,
        fun responses complete => ⟨prepared, rfl, ?_⟩⟩
      · obtain ⟨p, hp, own, ho, reply, ws, d, passes⟩ := served.passes_failed raised
        obtain ⟨r, _, isPrepared⟩ := Gateway.exists_isPrepared valid hp
        exact (passes.raised_isMiscount isPrepared single backed typed).mono ho
      · have each := (List.forall₂_and_left _ _).mpr ⟨fun p hp => Gateway.exists_isPrepared valid hp,
          served.passes_done complete⟩
        refine each.imp ?_
        rintro p response ⟨⟨r, _, isPrepared⟩, own, ho, reply, ws, d, passes, rfl⟩
        exact ⟨own, ho, reply, ws, d, passes, rfl, fun n j => passes.embeds, fun cause n j =>
          passes.embedded_isMiscount isPrepared single backed typed⟩

theorem Proto.Message.wellTyped_empty (t : MessageType) : (Message.empty t).WellTyped := by
  refine ⟨fun f _ v hv => ?_⟩
  rcases Message.value?_cases hv with stored | ⟨packed, arity, rfl⟩ | ⟨key, tracked, arity, rfl⟩
  · cases stored
  · exact .list arity (by simp)
  · exact .map arity (by simp)

namespace Sample

/-- A server of items that replies nothing else. -/
def childless : Downstream where
  unary _ c := ⟨some 0, .ok (if c.method.info.name = "Get" then storedItem "knot"
    else .empty c.method.output)⟩
  stream _ _ := ⟨none, .error ⟨.unavailable, "", []⟩⟩
  consult _ := .ok []

/-- An item with its parent, whose failures are raised. -/
def parented : List Request :=
  [{ method := "Items.Get", mask := [.mk "parent" none [.mk "title" none [] none] none] }]

theorem gateway_isOver : gateway.IsOver store where
  built := gateway_isBuilt
  entryPoints := by decide +kernel
  relations r hr := (gateway_relation r hr).1
  distinct := by
    unfold Pool.IsDistinct
    decide +kernel

theorem gateway_isBacked : gateway.IsBacked :=
  fun r hr => ⟨_, _, (gateway_relation r hr).2.2⟩

theorem childless_typed : childless.Typed gateway where
  reply := by
    intro history c m known h
    have member := mem_methods known
    unfold childless at h
    dsimp only at h
    generalize c.method = method at member h ⊢
    simp only [Service.methods, items, List.map_cons, List.map_nil, List.mem_cons,
      List.not_mem_nil, or_false] at member
    rcases member with rfl | rfl | rfl
    · cases h
      exact ⟨rfl, storedItem_typed "knot"⟩
    · cases h
      exact ⟨rfl, Message.wellTyped_empty _⟩
    · cases h
      exact ⟨rfl, Message.wellTyped_empty _⟩
  consulted := by
    intro r hr c values v custom
    rw [(gateway_relation r hr).2.2] at custom
    cases custom

end Sample

/-- An item is formatted, and when its parent is left out of the reply, just this is told. -/
theorem left_out_parent_is_miscounted : ∃ schema, compileMask (Sample.store.message "Item") Sample.mask
      ⟨Sample.gateway.relations, "Items.Get", []⟩ = .ok schema ∧
    (formatMessage (Sample.storedItem "knot") schema none false).FailsOnly
      (·.IsPrintingAt (Sample.storedItem "knot") schema.fields) ∧
    ∃ cause, (Sample.gateway.serve Sample.childless {} .fetch {} Sample.parented).1 =
        some (.error (.internal cause)) ∧
      ∃ events, (Failure.internal cause).IsMiscount Sample.gateway Sample.childless events := by
  obtain ⟨formatting, serving⟩ :=
    compiled_schemas_are_sound Sample.gateway Sample.store Sample.gateway_isOver
  have compiles : (compileMask (Sample.store.message "Item") Sample.mask
      ⟨Sample.gateway.relations, "Items.Get", []⟩).toOption.isSome := by decide +kernel
  have fails : (Sample.gateway.serve Sample.childless {} .fetch {} Sample.parented).1.bind
      Outcome.failure? = some (.internal (.valueCount "Items.Parents" 0 1)) := by decide +kernel
  obtain ⟨x, hx, he⟩ := Option.bind_eq_some_iff.mp fails
  have raised := hx.trans (congrArg some (Outcome.failure?_eq_some.mp he))
  obtain ⟨_, events, _, _, internal, _⟩ := serving Sample.childless {} .fetch {} Sample.parented
    Sample.gateway_isBacked Sample.childless_typed
  cases compiled : compileMask (Sample.store.message "Item") Sample.mask
      ⟨Sample.gateway.relations, "Items.Get", []⟩ with
  | error e => simp [compiled, Except.toOption] at compiles
  | ok schema =>
    have sound := formatting _ _ _ schema (Sample.store.has_message "Item") rfl compiled none false
    exact ⟨schema, rfl, sound.1 _ rfl (Sample.storedItem_typed "knot"), _, raised, events,
      internal _ raised⟩

end Patchwork
