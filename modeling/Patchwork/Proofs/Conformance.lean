import Patchwork.Proofs.Conforming
import Patchwork.Proofs.Pointwise
import Patchwork.Proofs.Soundness
import Patchwork.Proofs.Streams

/-!
# Bodies and their schemas

The slots of a body are filled wave by wave, and errors may be written over what was there. At the end
each slot shows an error value or the value that its relation was given, so that the whole body is in
the form of its schema.
-/

namespace Patchwork
open Proto

/-- All errors that are written are error values. -/
theorem isErrorValue_of_mem_errorsOf {log : List Action} {n : Nat} {j : Json}
    (h : (n, j) ∈ errorsOf log) : j.IsErrorValue := by
  obtain ⟨a, _, he⟩ := List.mem_flatMap.mp h
  cases a with
  | value p v => cases he
  | failure b e =>
    obtain ⟨p, _, he⟩ := List.mem_filterMap.mp he
    obtain ⟨t, _, he⟩ := Option.map_eq_some_iff.mp he
    cases he
    exact ⟨_, _, _, rfl⟩

/-- A document at the end of a run whose patches got values of their forms. -/
structure Formed (given : Message → Selected → Value → Prop) (fallback : Bool) (root : Node)
    (log : List Action) (d : Document) : Prop where
  account : Account fallback root log d []
  linked : d.Linked
  relation : ∀ a ∈ log, ∀ p ∈ a.entries, p.field.info.relation.isSome
  value : ∀ p v, .value p (some v) ∈ log →
    (formatRelationValue p.field v p.target fallback).Yields (Patch.HasForm given)
      (Node.Reads (p.HasForm given))

namespace Formed

variable {given : Message → Selected → Value → Prop} {fallback : Bool} {root : Node}
  {log : List Action} {d : Document} {env : Nat → Option Json}

/-- The slots of patches show errors or values, in the forms of their fields. -/
theorem hasForm (h : Formed given fallback root log d) (shows : d.Shows env) :
    ∀ p ∈ patchesOf log [], ∀ j, env p.slot = some j → p.HasForm given j := by
  -- contents name slots that lie ahead, so the induction goes down from the last slot
  have down : ∀ k, ∀ p ∈ patchesOf log [], d.size ≤ p.slot + k →
      ∀ j, env p.slot = some j → p.HasForm given j := by
    intro k
    induction k with
    | zero =>
      intro p hp hle
      have hlt := h.account.slot_lt hp
      omega
    | succ k ih =>
      intro p hp hle j hj
      rw [shows p.slot] at hj
      rw [patchesOf, List.append_nil] at hp
      obtain ⟨a, ha, hp⟩ := List.mem_flatMap.mp hp
      obtain ⟨s, leaves, slot⟩ := h.account.done a ha p hp
      cases he : d.error? p.slot with
      | some e =>
        rw [Document.error?_eq_some.mp he] at hj
        cases hj
        rw [h.account.error] at he
        exact Selected.hasForm_error (h.relation a ha p hp)
          (isErrorValue_of_mem_errorsOf (mem_of_lastError he))
      | none =>
        have slot := slot he
        rw [slot] at hj
        cases leaves with
        | absent => cases hj
        | failed => cases hj
        | @placed _ v node next d₁ d₂ formatted known =>
          obtain ⟨_, hfmt⟩ := Document.format_relationValue Direct.absent formatted
          have later : ∀ q ∈ next, ∀ j, env q.slot = some j → q.HasForm given j := by
            intro q hq
            have named : q.slot ∈ node.slots := hfmt.node_slots ▸ List.mem_map_of_mem hq
            have hlt := (h.linked.ahead slot q.slot named).1
            exact ih q (known hq) (by omega)
          obtain ⟨j', hj', form⟩ := (h.value p v ha).format formatted later
          have hj : node.eval env = some j := hj
          cases hj.symm.trans hj'
          exact form
  exact fun p hp => down d.size p hp (Nat.le_add_left ..)

end Formed

/-- The body shows an error or what formatting gives for its message, when the slots of the first patches
show what is asked of them. -/
theorem Rooted.reads {S : Patch → Json → Prop} {P : Json → Prop} {fallback : Bool} {m : Message}
    {schema : Schema} {target : Option Nat} {root : Node} {patches : List Patch} {log : List Action}
    {d d' : Document} (h : Rooted fallback m schema target root patches d)
    (account : Account fallback root log d' []) (linked : d'.Linked)
    (step : (formatMessage m schema target fallback).Yields S (Node.Reads P))
    (shown : ∀ env, d'.Shows env → ∀ p ∈ patches, ∀ j, env p.slot = some j → S p j) :
    (0, d'.toJson 0) ∈ errorsOf log ∨ P (d'.toJson 0) := by
  obtain ⟨env, shows⟩ := linked.exists_shows
  obtain ⟨d₀, formatted, _⟩ := h.formatted
  rw [linked.toJson_eq shows 0, shows 0]
  cases he : d'.error? 0 with
  | some e =>
    rw [Document.error?_eq_some.mp he]
    rw [account.error] at he
    exact .inl (mem_of_lastError he)
  | none =>
    obtain ⟨j, hj, form⟩ := step.format formatted (shown env shows)
    rw [account.root he, Option.bind_some, Slot.shown, hj]
    exact .inr form

/-- So the body shows an error or its message, in the form of the schema. -/
theorem Rooted.hasForm {given : Message → Selected → Value → Prop} {fallback : Bool} {m : Message}
    {schema : Schema} {target : Option Nat} {root : Node} {patches : List Patch} {log : List Action}
    {d d' : Document} (h : Rooted fallback m schema target root patches d)
    (formed : Formed given fallback root log d') (first : patches ⊆ patchesOf log [])
    (form : (formatMessage m schema target fallback).Yields (Patch.HasForm given)
      (Node.Reads (schema.HasForm given m))) :
    (d'.toJson 0).IsErrorValue ∨ schema.HasForm given m (d'.toJson 0) :=
  (h.reads formed.account formed.linked form fun _ shows p hp =>
    formed.hasForm shows p (first hp)).imp_left isErrorValue_of_mem_errorsOf

/-! ## Runs over exact answers -/

/-- The values that the relations of objects were given in some waves. -/
def Given (ws : List Wave) (m : Message) (s : Selected) (v : Value) : Prop :=
  ∃ p : Patch, .value p (some v) ∈ actionsOf ws ∧ p.base = m ∧ p.field = s

/-- A body that is in the form of a schema, for a reply and with the values of some waves. -/
def Schema.Admits (schema : Schema) (reply : Reply Message) (ws : List Wave) (body : Json) : Prop :=
  body.IsErrorValue ∨ ∃ m, reply = .ok m ∧ schema.HasForm (Given ws) m body

section

variable {g : Gateway} {world : Downstream} {ctx : CallContext} {events : Journal}
  {fields : List Selected} {fallback : Bool}

/-- The values that patches get of exact answers are formatted in their forms. -/
theorem Progress.IsTyped.forms_value {given : Message → Selected → Value → Prop}
    {Q : MessageType → Prop} {k : Nat} {d : Document} {w : Wave} {x : Patch} {v : Value}
    (h : (wave d w.batches).IsTyped g.relations Q fields k) (keyed : Keyed fields)
    (hQ : Unambiguous g.relations Q) (built : g.IsBuilt) (answers : world.Exact g)
    (answered : w.Answered world ctx events) (value : .value x (some v) ∈ w.actions)
    (known : given x.base x.field v) :
    (formatRelationValue x.field v x.target fallback).Yields (Patch.HasForm given)
      (Node.Reads (x.HasForm given)) := by
  obtain ⟨b, values, relation, member, ⟨t, m, ht, one, _⟩, source, hv⟩ :=
    h.source keyed answered value
  have fits := (source.value_fits built answers.typed member hv).1
  have isExact := source.isExact built answers member hv
  refine (one.forms_relationValue hQ ht relation fits isExact).mono fun env n => ?_
  rintro ⟨j, hj, form⟩
  exact ⟨j, hj, Selected.hasForm_value relation known form⟩

/-- A body that is stitched over exact answers is in the form of its schema. -/
theorem Gateway.IsPrepared.admits {pool : Pool} {v : Verb} {r : Request} {p : Prepared}
    {reply : Reply Message} {ws : List Wave} {d : Document} (h : g.IsPrepared v r p)
    (single : g.IsOver pool) (answers : world.Exact g)
    (typed : ∀ m, reply = .ok m → m.type = p.entry.method.output ∧ m.WellTyped ∧ m.IsExact)
    (runs : (p.receive fallback reply).Runs fallback ws (.finished d none))
    (answered : ∀ w ∈ ws, w.Answered world ctx events) :
    p.schema.Admits reply ws (d.toJson 0) := by
  have hQ := single.unambiguous
  have known := single.has_output (List.mem_of_find?_eq_some h.found)
  have keyed := keyed_of_compileMask h.compiled
  have waves := (h.isTyped_receive hQ known (fun m hm => ⟨(typed m hm).1, (typed m hm).2.1⟩)
    fallback).runs runs keyed hQ single.built answers.typed answered
  cases reply with
  | error status =>
    unfold Prepared.receive at runs
    dsimp only at runs
    split at runs
    · cases runs
      exact .inl ⟨_, _, _, rfl⟩
    · cases runs
  | ok m =>
    obtain ⟨type, wellTyped, isExact⟩ := typed m rfl
    have runs : (Progress.ofMessage m p.schema p.onError fallback).Runs fallback ws
      (.finished d none) := runs
    rcases Progress.ofMessage_eq m p.schema p.onError fallback with
      ⟨root, patches, d₀, rooted, start⟩ | ⟨d₀, e, start, _⟩
    · rw [start] at runs
      obtain ⟨account, linked⟩ := rooted.linked_of_runs runs
      have formed : Formed (Given ws) fallback root (actionsOf ws) d := by
        refine ⟨account, linked, fun a ha x hx => ?_, fun x v hv => ?_⟩
        · obtain ⟨w, hw, ha⟩ := List.mem_flatMap.mp ha
          obtain ⟨d₁, k, isTyped⟩ := waves w hw
          have hx : x ∈ w.entries := w.entries_actions ▸ List.mem_flatMap.mpr ⟨a, ha, hx⟩
          obtain ⟨b, hb, hx⟩ := List.mem_flatMap.mp hx
          obtain ⟨⟨b, resolved⟩, answer, rfl⟩ := List.mem_map.mp hb
          rw [(isTyped.entry keyed answer hx).2.1]
          rfl
        · obtain ⟨w, hw, ha⟩ := List.mem_flatMap.mp hv
          obtain ⟨d₁, k, isTyped⟩ := waves w hw
          exact isTyped.forms_value keyed hQ single.built answers (answered w hw) ha ⟨x, hv, rfl, rfl⟩
      rcases rooted.hasForm formed runs.first_subset
        (forms_message h.compiled hQ known type wellTyped isExact) with failed | form
      · exact .inl failed
      · exact .inr ⟨m, rfl, form⟩
    · rw [start] at runs
      cases runs

/-- The reply to a request's own call is exact. -/
theorem Prepared.Passes.reply_exact {s : Setting} {p : Prepared} {own : Journal}
    {reply : Reply Message} {ws : List Wave} {q : Progress} (h : p.Passes s own reply ws q)
    (answers : s.world.Exact g) (known : p.entry ∈ g.entryPoints) :
    ∀ m, reply = .ok m → m.type = p.entry.method.output ∧ m.WellTyped ∧ m.IsExact := by
  intro m hm
  obtain ⟨type, typed⟩ := h.reply_typed answers.typed known m hm
  obtain ⟨history, owner, now, due, x, _, settled⟩ := h.replied
  subst hm
  have said := (attempted settled).said m rfl
  exact ⟨type, typed, answers.reply _ _ _ (.inl ⟨p.entry, known, rfl⟩) said⟩

/-- A response that is read from a stream is that to the message at its index. -/
theorem Listening.exists_message {l : Listening} {m : Moment} {limit : Option Nat} {k : Nat}
    {response : Response} (h : (l.read world ctx m limit).1[k]? = some (.ok response)) :
    ∃ (delay : Nat) (message : Message) (ws : List Wave) (d : Document) (events : Journal),
      l.items[k]? = some ⟨some delay, .ok message⟩ ∧
      (Progress.ofMessage message l.request.schema l.request.onError Verb.listen.catchesByDefault).Runs
        Verb.listen.catchesByDefault ws (.finished d none) ∧
      (∀ w ∈ ws, w.Answered world ctx events) ∧ response = l.toResponse k (d.toJson 0) := by
  obtain ⟨bodies, failure, transcript⟩ := exists_transcript world ctx
    (min (l.items.length + 1) (limit.getD (l.items.length + 1))) l m
  rw [read, transcript.read, List.getElem?_append] at h
  split at h
  · rw [List.getElem?_mapIdx] at h
    obtain ⟨body, hb, same⟩ := Option.map_eq_some_iff.mp h
    cases same
    obtain ⟨item, _, events, hi, hears, _⟩ := transcript.heard k body hb
    generalize (readFor world ctx (k + 1) l m).2.now = t at hears
    cases hears with
    | message settles =>
      cases settles with
      | body alone =>
        obtain ⟨events', _, answered⟩ := alone.waves_answered
        exact ⟨_, _, _, _, events', hi, alone.runs, answered, rfl⟩
  · obtain ⟨e, _, he⟩ := List.mem_map.mp (List.mem_of_getElem? h)
    cases he

end

/-- Over one pool, with exact answers, each body is in the form of the schema that goes with it: an error
value, the form of a well-known message, or an object with members as they were selected. The values of
relations are those that the waves of the request gave. A stream has one schema for all its bodies,
which goes with the first one. -/
theorem bodies_conform_to_schemas (g : Gateway) (pool : Pool) (single : g.IsOver pool)
    (world : Downstream) (answers : world.Exact g) (ctx : CallContext) :
    (∀ v m requests responses, (g.serve world ctx v m requests).1 = some (.ok responses) →
      ∃ prepared, g.prepareAll v requests = .ok prepared ∧
        List.Forall₂ (fun p response => response.schema = some p.schema ∧ ∃ own reply ws d,
          p.Passes (Gateway.setting world ctx v) own reply ws (.finished d none) ∧
          response.body = d.toJson 0 ∧ p.schema.Admits reply ws response.body) prepared responses) ∧
    ∀ m m₀ r l, g.listen world ctx m (some r) = (some (.ok l), m₀) →
      ∀ limit k response, (l.read world ctx m₀ limit).1[k]? = some (.ok response) →
        response.schema = (if k = 0 then some l.request.schema else none) ∧
        ∃ delay message ws d events, l.items[k]? = some ⟨some delay, .ok message⟩ ∧
          (l.request.receive Verb.listen.catchesByDefault (.ok message)).Runs
            Verb.listen.catchesByDefault ws (.finished d none) ∧
          (∀ w ∈ ws, w.Answered world ctx events) ∧ response.body = d.toJson 0 ∧
          l.request.schema.Admits (.ok message) ws response.body := by
  constructor
  · intro v m requests responses complete
    cases valid : g.prepareAll v requests with
    | error e =>
      have refused := Gateway.prepareAll_eq_error.mp valid
      rw [(Gateway.serve_refused refused world ctx m).1] at complete
      cases complete
    | ok prepared =>
      obtain ⟨xs, fresh, events, served⟩ := Gateway.serve_prepared world ctx m valid
      have each := (List.forall₂_and_left _ _).mpr ⟨fun p hp => Gateway.exists_isPrepared valid hp,
        served.passes_done complete⟩
      refine ⟨prepared, rfl, each.imp ?_⟩
      rintro p response ⟨⟨r, _, isPrepared⟩, own, _, reply, ws, d, passes, rfl⟩
      have typed := passes.reply_exact answers (List.mem_of_find?_eq_some isPrepared.found)
      exact ⟨rfl, own, reply, ws, d, passes, rfl,
        isPrepared.admits single answers typed passes.runs passes.answered⟩
  · intro m m₀ r l listened limit k response read
    have opened := Gateway.opened_of_listen listened
    obtain ⟨delay, message, ws, d, events, item, runs, answered, rfl⟩ := Listening.exists_message read
    refine ⟨?_, delay, message, ws, d, events, item, runs, answered, rfl, ?_⟩
    · simp [Listening.toResponse, opened.first]
    · have entry := List.mem_of_find?_eq_some opened.prepared.found
      refine opened.prepared.admits single answers (fun m' hm => ?_) runs answered
      cases hm
      exact answers.item _ _ _ (.inl ⟨_, entry, rfl⟩) opened.items _ (List.mem_of_getElem? item) _ rfl

namespace Sample

/-- An item with its parent, whose failures go in its place. -/
def embedding : List Request := [{ method := "Items.Get", mask }]

/-- The item when its parent is left out. -/
def orphan : Json :=
  .object [("title", .str "knot"), ("parent",
    errorValue (.internal (.valueCount "Items.Parents" 0 1)) "Items.Get.parent" (some store))]

theorem storedItem_exact (text : String) : (storedItem text).IsExact := by
  refine Message.isExact_of_flat (fun e he => ?_) fun f hf s stored => ?_
  · rw [List.mem_singleton.mp he]
    exact ⟨_, rfl⟩
  · obtain rfl := List.mem_singleton.mp hf
    cases stored
    rfl

theorem empty_exact (t : MessageType) : (Message.empty t).IsExact :=
  Message.isExact_of_flat (fun e he => by cases he) fun f hf s stored => by cases stored

theorem childless_exact : childless.Exact gateway where
  typed := childless_typed
  reply history c m known h := by
    have h : (if c.method.info.name = "Get" then storedItem "knot" else .empty c.method.output) = m :=
      Except.ok.inj h
    subst h
    split
    · exact storedItem_exact "knot"
    · exact empty_exact _
  item history c items known h := by cases h
  consulted r hr c values v custom := by
    rw [(gateway_relation r hr).2.2] at custom
    cases custom

end Sample

/-- A title and an error in the place of a parent are in the form of the schema that goes with them. -/
theorem orphan_conforms : ∃ response schema m ws,
    (Sample.gateway.serve Sample.childless {} .fetch {} Sample.embedding).1 =
      some (.ok [response]) ∧ response.schema = some schema ∧ response.body = Sample.orphan ∧
    schema.HasForm (Given ws) m Sample.orphan := by
  have bodies : (Sample.gateway.serve Sample.childless {} .fetch {} Sample.embedding).1.map
      (fun o => o.toOption.map (·.map (·.body))) = some (some [Sample.orphan]) := by decide +kernel
  obtain ⟨o, ho, hb⟩ := Option.map_eq_some_iff.mp bodies
  cases o with
  | error e => cases hb
  | ok responses =>
    obtain ⟨serving, _⟩ := bodies_conform_to_schemas Sample.gateway Sample.store
      Sample.gateway_isOver Sample.childless Sample.childless_exact {}
    obtain ⟨prepared, _, each⟩ := serving .fetch {} Sample.embedding responses ho
    have hb : responses.map (·.body) = [Sample.orphan] := Option.some.inj hb
    obtain ⟨response, rfl, body⟩ := List.map_eq_singleton_iff.mp hb
    obtain ⟨p, _, schema, own, reply, ws, d, _, _, admits⟩ :=
      forall₂_exists_left each (List.mem_singleton_self response)
    rw [body] at admits
    rcases admits with failed | ⟨m, _, form⟩
    · obtain ⟨ms, hms, marked⟩ := failed.mem_names
      cases hms
      exact absurd marked (by decide +kernel)
    · exact ⟨response, p.schema, m, ws, ho, schema, body, form⟩

end Patchwork
