import Patchwork.Proofs.Caught
import Patchwork.Proofs.Objects

/-!
# Exact values

Typed values say which messages stand where. In exact ones the scalars are of their kinds, too, and
the keys of a map, which are all of one type, are different.
-/

namespace Patchwork
open Proto

/-- A scalar of a kind. -/
def Proto.Scalar.IsOf (s : Scalar) : Kind → Prop
  | .scalar k => s.type = .ofKind k
  | .enum _ => s.type = .enum
  | .message _ => False

/-- The entries of one map: their keys are of one type and all different. -/
structure Proto.OneMap (entries : List (Key × Value)) : Prop where
  distinct : (entries.map (·.1)).Nodup
  typed : ∀ e ∈ entries, ∀ e' ∈ entries, e.1.toScalar.type = e'.1.toScalar.type

/-- The entries of a map can be told apart by the texts of their keys. -/
theorem Proto.OneMap.nodup_texts {entries : List (Key × Value)} (h : OneMap entries) :
    (entries.map (·.1.text)).Nodup := by
  have texts : (entries.map (·.1)).map Key.text = entries.map (·.1.text) := List.map_map
  rw [← texts]
  refine h.distinct.map_on fun k hk l hl text => ?_
  obtain ⟨e, he, rfl⟩ := List.mem_map.mp hk
  obtain ⟨e', he', rfl⟩ := List.mem_map.mp hl
  exact Key.text_injective (h.typed e he e' he') text

/-- The scalars and the keys of a value are those of its field. -/
structure Proto.Value.Matches (f : Field) (v : Value) : Prop where
  scalar : ∀ s, .scalar s ∈ v.parts → s.IsOf f.kind
  keys : ∀ entries, v = .map entries → (entries.map (·.1)).Nodup ∧
    ∀ e ∈ entries, Container.ofArity f.arity = .map e.1.toScalar.type

theorem Proto.Value.Matches.oneMap {f : Field} {entries : List (Key × Value)}
    (h : (Value.map entries).Matches f) : OneMap entries := by
  obtain ⟨distinct, types⟩ := h.keys entries rfl
  exact ⟨distinct, fun e he e' he' => Container.map.inj ((types e he).symm.trans (types e' he'))⟩

/-- The values inside a message match their fields, at any depth. -/
def Proto.Message.IsExact (m : Message) : Prop :=
  ∀ x : Message, x.Inside m → ∀ f ∈ x.type.fields, ∀ v, x.value? f = some v → v.Matches f

/-- A value that matches its field, with all that is inside. -/
structure Proto.Value.IsExact (f : Field) (v : Value) : Prop where
  here : v.Matches f
  inside : ∀ m, .message m ∈ v.parts → m.IsExact

theorem Proto.Message.IsExact.value {m : Message} {f : Field} {v : Value} (h : m.IsExact)
    (known : f ∈ m.type.fields) (value : m.value? f = some v) : v.IsExact f where
  here := h m (.self m) f known v value
  inside _ part x hx := h x (.field value part hx)

theorem Proto.Message.mem_of_stored? {m : Message} {f : Field} {v : Value}
    (h : m.stored? f = some v) : (f.number, v) ∈ m.fields := by
  obtain ⟨before, after, fields, _⟩ := List.lookup_eq_some_iff.mp h
  simp [fields]

/-- There is nothing inside a message but itself when only scalars are set. -/
theorem Proto.Message.Inside.eq {m x : Message} (flat : ∀ e ∈ m.fields, ∃ s, e.2 = .scalar s)
    (h : x.Inside m) : x = m := by
  cases h with
  | self => rfl
  | field value part =>
    rcases Message.value?_cases value with stored | ⟨_, _, rfl⟩ | ⟨_, _, _, rfl⟩
    · obtain ⟨s, rfl⟩ := flat _ (Message.mem_of_stored? stored)
      cases List.mem_singleton.mp part
    · cases part
    · cases part

theorem Proto.Message.isExact_of_flat {m : Message} (flat : ∀ e ∈ m.fields, ∃ s, e.2 = .scalar s)
    (scalars : ∀ f ∈ m.type.fields, ∀ s, m.stored? f = some (.scalar s) → s.IsOf f.kind) :
    m.IsExact := by
  intro x hx f hf v hv
  obtain rfl := hx.eq flat
  rcases Message.value?_cases hv with stored | ⟨_, _, rfl⟩ | ⟨_, _, _, rfl⟩
  · obtain ⟨s, rfl⟩ := flat _ (Message.mem_of_stored? stored)
    refine ⟨fun s' hs => ?_, by simp⟩
    cases List.mem_singleton.mp hs
    exact scalars f hf s stored
  · exact ⟨by simp [Value.parts], by simp⟩
  · refine ⟨by simp [Value.parts], fun entries h => ?_⟩
    cases h
    exact ⟨.nil, by simp⟩

/-- All that is answered is typed and exact: replies, the items of streams, and the values of relations
that are resolved otherwise. -/
structure Downstream.Exact (world : Downstream) (g : Gateway) : Prop where
  typed : world.Typed g
  reply : ∀ history c m, g.Knows c.method → (world.unary history c).value = .ok m → m.IsExact
  item : ∀ history c items, g.Knows c.method → (world.stream history c).value = .ok items →
    ∀ i ∈ items, ∀ m, i.value = .ok m → m.type = c.method.output ∧ m.WellTyped ∧ m.IsExact
  consulted : ∀ r ∈ g.relations, ∀ c values v, r.resolver = .custom c.resolver →
    r.name = c.relation → world.consult c = .ok values → some v ∈ values → v.IsExact r.field

/-- Exact answers give exact values. -/
theorem Batch.Source.isExact {b : Batch} {g : Gateway} {world : Downstream} {events : Journal}
    {values : List (Option Value)} {v : Value} (h : b.Source world events values) (built : g.IsBuilt)
    (answers : world.Exact g) (known : b.relation ∈ g.relations) (hv : some v ∈ values) :
    v.IsExact b.relation.field := by
  cases h with
  | consulted asked resolver relation answer =>
    exact answers.consulted _ known _ _ _ resolver relation answer hv
  | @reply x history m called method answer given =>
    have knows : g.Knows x.call.method := .inr ⟨b.relation, known, method.symm⟩
    obtain ⟨type, typed⟩ := answers.typed.reply _ _ _ knows answer
    obtain ⟨items, y, list, item, value, field, _⟩ :=
      (built.isShaped _ known).result_of_value (type.trans (congrArg _ method)) typed given hv
    have inner : y.IsExact := fun z hz => answers.reply _ _ _ knows answer z (.field list item hz)
    exact inner.value field value

end Patchwork
