import Patchwork.Proofs.Alone
import Patchwork.Proofs.Pointwise
import Patchwork.Proofs.Typing

/-!
# Stitching is the direct recursion

A body whose replies all come and give each object what its relation computes for it is stitched to
the JSON of the direct recursion over its message.
-/

namespace Patchwork
open Proto

/-- Each reply to a body on its own comes, and has for each object what its relation computes. -/
def Setting.AnswersPointwise (s : Setting) (f : Direct.Resolver) (now : Nat) (before : Journal)
    (p : Progress) : Prop :=
  ∀ ws due q j, Alone s (some now) p before ws due q j →
    due.isSome ∧ ∀ w ∈ ws, ∀ x ∈ w, x.2 = x.1.answer f

/-! ## Replies that are base by base -/

/-- Batches that are always answered are answered in a run. -/
theorem Alone.answered {s : Setting} {f : Direct.Resolver} {due due' : Option Nat} {p q : Progress}
    {j j' : Journal} {ws : List Wave} (h : Alone s due p j ws due' q j') (hdue : due.isSome)
    (hb : ∀ w ∈ ws, ∀ b ∈ w.batches, ∀ now before,
      (b.resolve s.world s.ctx 0 now before).instant.isSome ∧
        (b.resolve s.world s.ctx 0 now before).result = b.answer f) :
    due'.isSome ∧ ∀ w ∈ ws, ∀ x ∈ w, x.2 = x.1.answer f := by
  induction h with
  | stop => exact ⟨hdue, by simp⟩
  | @wave now d batches j j' j'' due due' w ws q resolved rest ih =>
    have hw := hb w (List.mem_cons_self ..)
    obtain ⟨hbatches, _, _, hx⟩ := resolveWave_spec resolved
    have hsome := resolveWave_isSome resolved fun b hm before => (hw b (hbatches ▸ hm) now before).1
    obtain ⟨hd, hrest⟩ := ih hsome fun w' hm => hb w' (List.mem_cons_of_mem _ hm)
    refine ⟨hd, fun w' hm x hxm => ?_⟩
    rcases List.mem_cons.mp hm with rfl | hm
    · obtain ⟨before, hr⟩ := hx x hxm
      rw [hr]
      exact (hw x.1 (List.mem_map_of_mem hxm) now before).2
    · exact hrest w' hm x hxm

/-! ## Runs from a message -/

namespace Progress.Runs

variable {fallback : Bool} {f : Direct.Resolver} {t : MessageType} {mask : List MaskField}
  {place : Compile.Place} {schema : Schema} {m : Message} {policy : Option ErrorPolicy}
  {ws : List Wave} {q : Progress}

/-- All patches of a run from a message are of selected relations. -/
theorem relation_isSome (h : (ofMessage m schema policy fallback).Runs fallback ws q) :
    ∀ w ∈ ws, ∀ p ∈ w.entries, p.field.info.relation.isSome := by
  obtain ⟨_, hp⟩ := ofMessage_first m schema policy fallback
  intro w hw p hm
  obtain ⟨k, hk⟩ := List.mem_iff_getElem?.mp hw
  exact isSome_of_mem_level _ (h.mem_level hp hk p hm)

theorem isPointwise (h : (ofMessage m schema policy fallback).Runs fallback ws q)
    (compiled : compileMask t mask place = .ok schema)
    (hw : ∀ w ∈ ws, ∀ x ∈ w, x.2 = x.1.answer f) : ∀ w ∈ ws, w.IsPointwise f := by
  obtain ⟨he, hp⟩ := ofMessage_first m schema policy fallback
  intro w hm
  obtain ⟨patches, _, hg⟩ := h.grouped he w hm
  obtain ⟨k, hk⟩ := List.mem_iff_getElem?.mp hm
  have hl : ∀ p ∈ patches, p.field ∈ level schema.fields (0 + k) :=
    fun p hpm => h.mem_level hp hk p (hg.perm.mem_iff.mpr hpm)
  exact Wave.isPointwise_of_answer hg (keyed_of_compileMask compiled) hl (hw w hm)

/-- A run that succeeds gives the body of the direct recursion. -/
theorem body_eq {d : Document}
    (h : (ofMessage m schema policy fallback).Runs fallback ws (.finished d none))
    (hw : ∀ w ∈ ws, w.IsPointwise f) : Direct.body f m schema = .ok (d.toJson 0) := by
  have hr := h.relation_isSome
  rcases ofMessage_eq m schema policy fallback with ⟨root, ps, d₀, rooted, he⟩ | ⟨d₀, e, he, _⟩
  · rw [he] at h
    exact rooted.body_eq h hw hr
  · rw [he] at h
    cases h

/-- Where the direct recursion succeeds a run does not fail. -/
theorem failure?_eq_none {body : Json}
    (h : (ofMessage m schema policy fallback).Runs fallback ws q)
    (hb : Direct.body f m schema = .ok body) (hw : ∀ w ∈ ws, w.IsPointwise f) :
    q.failure? = none := by
  rcases ofMessage_eq m schema policy fallback with ⟨root, ps, d₀, rooted, he⟩ | ⟨_, _, _, he⟩
  · rw [he] at h
    have hrel : ∀ p ∈ ps, p.field.info.relation.isSome := fun p hp =>
      isSome_of_mem_relationsIn _ (rooted.leaf p hp).selected
    obtain ⟨d, hf, _⟩ := rooted.formatted
    have hren := (Document.format_message f hf).2.renderable body hb
    exact h.succeeds (failure?_enter hrel) (fun x hx => hrel x (mem_patches_enter hx))
      (fun x hx => hren x (mem_patches_enter hx)) hw
  · obtain ⟨e, he⟩ := he f
    rw [hb] at he
    cases he

end Progress.Runs

/-- A world that always answers for the gateway's relations base by base does so in each run. -/
theorem Setting.answersPointwise {s : Setting} {f : Direct.Resolver} {t : MessageType}
    {mask : List MaskField} {place : Compile.Place} {schema : Schema}
    (compiled : compileMask t mask place = .ok schema)
    (hr : ∀ b : Batch, b.relation ∈ place.relations → ∀ now before,
      (b.resolve s.world s.ctx 0 now before).instant.isSome ∧
        (b.resolve s.world s.ctx 0 now before).result = b.answer f)
    (now : Nat) (before : Journal) (m : Message) (policy : Option ErrorPolicy) :
    s.AnswersPointwise f now before (.ofMessage m schema policy s.fallback) := by
  obtain ⟨he, hp⟩ := Progress.ofMessage_first m schema policy s.fallback
  intro ws due q j ha
  refine ha.answered rfl fun w hw b hb => hr b ?_
  obtain ⟨patches, _, hg⟩ := ha.runs.grouped he w hw
  obtain ⟨k, hk⟩ := List.mem_iff_getElem?.mp hw
  obtain ⟨p, hpb, hrel, _⟩ := hg.head b hb
  have hpw : p ∈ w.entries := hg.perm.mem_iff.mpr (hg.mem_iff.mpr ⟨b, hb, hpb⟩)
  exact mem_relations_of_compileMask compiled (ha.runs.mem_level hp hk p hpw) hrel

/-- Stitching gives what the direct recursion gives, for any message, mask and policy, when each reply
comes and is base by base. The body of the one is the body of the other, and the one fails where the
other does. If the message and the values of relations are of their types, and the well-known
messages met have a JSON form, there is such a body. In each of its objects the last selection of a
name that has a value counts. -/
theorem stitching_agrees_with_direct_recursion (t : MessageType) (mask : List MaskField)
    (place : Compile.Place) (schema : Schema) (compiled : compileMask t mask place = .ok schema)
    (s : Setting) (f : Direct.Resolver) (now : Nat) (before : Journal) (m : Message)
    (policy : Option ErrorPolicy)
    (answered : s.AnswersPointwise f now before (.ofMessage m schema policy s.fallback)) :
    (match Direct.body f m schema with
    | .ok body => ∃ d,
        (runAll s now before [.stitching (.ofMessage m schema policy s.fallback)]).1 = .complete ∧
        (runAll s now before [.stitching (.ofMessage m schema policy s.fallback)]).2.processes =
          [.done d] ∧ d.toJson 0 = body
    | .error _ => ∃ d e,
        (runAll s now before [.stitching (.ofMessage m schema policy s.fallback)]).1 =
          .failed d e) ∧
    (∀ Q, Unambiguous place.relations Q → Q t → f.Typed place.relations Q → m.type = t →
      m.WellTyped → Direct.Printable f m schema.fields →
      ∃ body, Direct.body f m schema = .ok body) ∧
    ∀ x fields members, Direct.members f x fields = .ok members →
      ∀ name, (Json.object members).get? name = fields.reverse.findSome? fun s =>
        if s.name = name then (Direct.member f x s).toOption.join else none := by
  refine ⟨?_, fun Q hQ ht hf type typed hp => body_isOk compiled hQ ht hf type typed hp,
    fun x fields members h => Direct.get?_members h⟩
  obtain ⟨ws, due, q, j, ha, he, _⟩ :=
    runAll_alone s now before (.ofMessage m schema policy s.fallback)
  obtain ⟨hdue, hw⟩ := answered ws due q j ha
  obtain ⟨end', rfl⟩ := Option.isSome_iff_exists.mp hdue
  have hpoint := ha.runs.isPointwise compiled hw
  cases q with
  | wave d batches => exact he.elim
  | finished d failure =>
    cases failure with
    | none =>
      obtain ⟨hc, hd⟩ := he
      rw [ha.runs.body_eq hpoint]
      exact ⟨d, hc, hd, rfl⟩
    | some e =>
      cases hb : Direct.body f m schema with
      | ok body =>
        have hn := ha.runs.failure?_eq_none hb hpoint
        cases hn
      | error _ => exact ⟨d, e, he⟩

namespace Sample

/-- Each relation has the object itself as its value. -/
def itself : Direct.Resolver := fun _ _ base => some (.message base)

theorem mirror_answersPointwise {t : MessageType} {mask : List MaskField} {schema : Schema}
    (compiled : compileMask t mask place = .ok schema) (m : Message) :
    mirror.AnswersPointwise itself 0 [] (.ofMessage m schema none mirror.fallback) := by
  refine Setting.answersPointwise compiled (fun b hb now before => ?_) 0 [] m none
  have hr : b.relation.resolver = .custom "parents" := by
    rw [List.mem_singleton.mp hb]
    rfl
  have hl : (b.bases.map fun x => some (Value.message x)).length = b.entries.length := by
    rw [List.length_map, Batch.bases, List.length_map]
  unfold Batch.resolve
  simp only [hr]
  refine ⟨rfl, ?_⟩
  change b.check _ = _
  rw [Batch.check, if_pos hl]
  rfl

theorem itemOf_typed (text : String) : (itemOf text).WellTyped := by
  refine ⟨fun g hg v hv => ?_⟩
  obtain rfl := List.mem_singleton.mp hg
  unfold Message.value? at hv
  split at hv
  · cases hv
    have holds : Value.Holds pool (.scalar .string) (.scalar (.string text)) := .scalar ..
    exact .single rfl holds
  · cases hv

theorem value?_basesOf {texts : List String} {v : Value} (h : (basesOf texts).value? bases = some v) :
    v = .list (texts.map fun text => .message (itemOf text)) := by
  cases h
  rfl

theorem basesOf_typed (texts : List String) : (basesOf texts).WellTyped := by
  refine ⟨fun g hg v hv => ?_⟩
  obtain rfl := List.mem_singleton.mp hg
  obtain rfl := value?_basesOf hv
  refine .list rfl fun v hv => ?_
  obtain ⟨text, _, rfl⟩ := List.mem_map.mp hv
  exact .message rfl (itemOf_typed text)

/-- Items and lists of items. -/
def Listed (t : MessageType) : Prop := t = item ∨ t = pool.message "Bases"

theorem unambiguous : Unambiguous place.relations Listed where
  closed := by
    rintro t ht c hc u hu
    left
    obtain ⟨_, ⟨g, hg, rfl⟩ | ⟨r, hr, rfl⟩⟩ := CatalogType.mem_fields hc
    · rcases ht with rfl | rfl
      · obtain rfl := List.mem_singleton.mp hg
        cases hu
      · obtain rfl := List.mem_singleton.mp hg
        cases hu
        rfl
    · obtain rfl := List.mem_singleton.mp (List.mem_filter.mp hr).1
      cases hu
      rfl
  same := by
    rintro t u (rfl | rfl) (rfl | rfl) named
    · rfl
    · exact absurd named (by decide +kernel)
    · exact absurd named (by decide +kernel)
    · rfl
  names := by
    rintro t (rfl | rfl) <;> decide +kernel

theorem itself_typed : itself.Typed place.relations Listed := by
  intro r hr params base v known named typed hv
  obtain rfl := List.mem_singleton.mp hr
  cases hv
  rcases known with type | type
  · exact .single rfl (.message type typed)
  · rw [type] at named
    exact absurd named (by decide +kernel)

/-- Only the list and its items are met, as items lead to themselves. -/
theorem eq_of_met {texts : List String} {m z : Message} {fields : List Selected}
    (met : Direct.Met itself m fields z)
    (known : m = basesOf texts ∨ ∃ text, m = itemOf text) :
    z = basesOf texts ∨ ∃ text, z = itemOf text := by
  induction met with
  | self => exact known
  | @inside m y z fields inner info name v plain selected value part met ih =>
    refine ih ?_
    unfold Direct.value? at value
    split at value
    · cases value
      obtain rfl : y = m := by simpa [Value.parts] using part
      exact known
    · obtain ⟨g, found, stored⟩ := Option.bind_eq_some_iff.mp value
      have hg : g ∈ m.type.fields := List.mem_of_find?_eq_some found
      rcases known with rfl | ⟨text, rfl⟩
      · obtain rfl := List.mem_singleton.mp hg
        obtain rfl := value?_basesOf stored
        obtain ⟨text, _, same⟩ := List.mem_map.mp part
        cases same
        exact .inr ⟨text, rfl⟩
      · obtain rfl := List.mem_singleton.mp hg
        unfold Message.value? at stored
        split at stored
        · cases stored
          cases List.mem_singleton.mp part
        · cases stored

theorem printable (texts : List String) (fields : List Selected) :
    Direct.Printable itself (basesOf texts) fields := by
  intro z met known
  have plain : ∀ t, Listed t → ¬isWellKnown t.name = true := by
    rintro t (rfl | rfl) <;> decide +kernel
  rcases eq_of_met met (.inl rfl) with rfl | ⟨text, rfl⟩
  · exact absurd known (plain _ (.inr rfl))
  · exact absurd known (plain _ (.inl rfl))

/-- An item with its parent and the parent's parent, all of one title. -/
def tower (text : String) : Json :=
  let alone := ("title", Json.str text)
  .object [alone, ("parent", .object [alone, ("parent", .object [alone])])]

/-- Two items with their parents and the parents' parents. -/
def towers : Ending × Run :=
  runAll mirror 0 []
    [.stitching (.ofMessage (basesOf ["knot", "hitch"]) nestedSchema none mirror.fallback)]

theorem runAll_towers : runAll mirror 0 []
    [.stitching (.ofMessage (basesOf ["knot", "hitch"]) nestedSchema none mirror.fallback)] =
      towers := rfl

end Sample

/-- Two items that are part of themselves are asked for together, twice. Each is stitched to its own
title, that of its parent and that of the parent's parent. -/
theorem stitching_of_items_of_themselves :
    compileMask (Sample.pool.message "Bases") Sample.nested Sample.place = .ok Sample.nestedSchema ∧
    Sample.towers.2.journal.countP Event.isQuestion = 2 ∧
    ∃ d, Sample.towers.2.processes = [.done d] ∧
      d.toJson 0 = .object [("bases", .arr [Sample.tower "knot", Sample.tower "hitch"])] := by
  have agrees := stitching_agrees_with_direct_recursion _ Sample.nested Sample.place
    Sample.nestedSchema Sample.compiles_nested Sample.mirror Sample.itself 0 []
    (Sample.basesOf ["knot", "hitch"]) none
    (Sample.mirror_answersPointwise Sample.compiles_nested _)
  rw [Sample.runAll_towers] at agrees
  obtain ⟨run, exists_body, _⟩ := agrees
  obtain ⟨body, same⟩ := exists_body Sample.Listed Sample.unambiguous (.inr rfl) Sample.itself_typed
    rfl (Sample.basesOf_typed _) (Sample.printable _ _)
  have direct : (Direct.body Sample.itself (Sample.basesOf ["knot", "hitch"])
      Sample.nestedSchema).toOption =
        some (.object [("bases", .arr [Sample.tower "knot", Sample.tower "hitch"])]) := by
    decide +kernel
  rw [same] at run direct
  obtain ⟨d, _, done, rendered⟩ := run
  exact ⟨Sample.compiles_nested, by decide +kernel, d, done,
    rendered.trans (Option.some.inj direct)⟩

end Patchwork
