import Mathlib.Data.List.Nodup
import Patchwork.Proofs.Batches
import Patchwork.Proofs.Compiled

/-!
# Identity of relations and params

Batches are told apart by the names of a relation and the number of a selection. In one compiled
schema these determine the relation and the params themselves, so that all entries of a batch ask
for the same.
-/

namespace Patchwork
open Proto

section

variable (P : Selection → Prop)

mutual
/-- All fields selected in a shape, at any depth, have the property. -/
def Shape.All : Shape → Prop
  | .scalar _ => True
  | .message _ fields => AllIn fields

def AllIn : List Selected → Prop
  | [] => True
  | s :: rest => s.All ∧ AllIn rest

def Selected.All : Selected → Prop
  | .mk info shape => P info ∧ shape.All
end

end

section

variable {P : Selection → Prop}

mutual
theorem Shape.All.relations : ∀ {shape : Shape}, shape.All P → ∀ s ∈ shape.relations, s.All P
  | .scalar _, _, _, hs => absurd hs List.not_mem_nil
  | .message _ _, h, s, hs => AllIn.relations h s hs

theorem AllIn.relations : ∀ {fields : List Selected}, AllIn P fields →
    ∀ s ∈ relationsIn fields, s.All P
  | [], _, _, hs => absurd hs List.not_mem_nil
  | f :: rest, h, s, hs => by
    rcases List.mem_append.mp hs with hs | hs
    · exact Selected.All.relations h.1 s hs
    · exact AllIn.relations h.2 s hs

theorem Selected.All.relations : ∀ {f : Selected}, f.All P → ∀ s ∈ f.relations, s.All P
  | .mk info shape, h, s, hs => by
    unfold Selected.relations at hs
    split at hs
    · rw [List.mem_singleton.mp hs]
      exact h
    · exact Shape.All.relations h.2 s hs
end

/-- What all fields of a schema have in common its relations have, at every level. -/
theorem AllIn.level {fields : List Selected} (h : AllIn P fields) (k : Nat) :
    ∀ s ∈ level fields k, s.All P := by
  induction k with
  | zero => exact h.relations
  | succ k ih =>
    intro s hs
    obtain ⟨t, ht, hs⟩ := List.mem_flatMap.mp hs
    obtain ⟨info, shape⟩ := t
    exact (ih _ ht).2.relations s hs

theorem Selected.All.info {s : Selected} (h : s.All P) : P s.info := by
  obtain ⟨info, shape⟩ := s
  exact h.1

end

/-! ## Relations -/

/-- The last relation of its name among those that extend its base. -/
def Canonical (relations : List Relation) (r : Relation) : Prop :=
  (relationsOf relations r.base.name).reverse.find? (·.name == r.name) = some r

theorem Canonical.eq {relations : List Relation} {r r' : Relation} (h : Canonical relations r)
    (h' : Canonical relations r') (base : r.base.name = r'.base.name) (name : r.name = r'.name) :
    r = r' := by
  unfold Canonical at h
  rw [base, name, h'] at h
  exact (Option.some.inj h).symm

/-- A name is looked up among the relations first. -/
theorem CatalogType.canonical_of_field? {relations : List Relation} {t : MessageType} {name : String}
    {f : CatalogField} {r : Relation} (h : (CatalogType.ofType relations t).field? name = some f)
    (hr : f.relation = some r) : Canonical relations r := by
  unfold field? ofType at h
  dsimp only at h
  split at h
  · cases h
  · rw [List.reverse_append, List.find?_append] at h
    cases hf : ((relationsOf relations t.name).map CatalogField.ofRelation).reverse.find?
        (·.name == name) with
    | none =>
      rw [hf, Option.none_or] at h
      have hm := List.mem_reverse.mp (List.mem_of_find?_eq_some h)
      obtain ⟨g, _, rfl⟩ := List.mem_map.mp hm
      cases hr
    | some g =>
      rw [hf, Option.some_or] at h
      cases h
      rw [← List.map_reverse, List.find?_map] at hf
      obtain ⟨r', hr', rfl⟩ := Option.map_eq_some_iff.mp hf
      cases hr
      have hn : (CatalogField.ofRelation r).name = name := by simpa using List.find?_some hr'
      have hn : r.name = name := hn
      have hm := List.mem_reverse.mp (List.mem_of_find?_eq_some hr')
      have hb : r.base.name = t.name := by simpa using (List.mem_filter.mp hm).2
      unfold Canonical
      rw [hb, hn]
      exact hr'

section

variable {relations : List Relation} {Q : MessageType → Prop}

mutual
theorem SelectsOne.canonical : ∀ (m : MaskField) {t : MessageType} {s : Selected},
    SelectsOne relations Q t m s → s.All fun i => ∀ r ∈ i.relation, Canonical relations r
  | .mk name given mask onError, t, s, h => by
    cases h with
    | scalar found element =>
      exact ⟨fun r hr => CatalogType.canonical_of_field? found hr, trivial⟩
    | message found element known named inside =>
      exact ⟨fun r hr => CatalogType.canonical_of_field? found hr, Selects.canonical mask inside⟩

theorem Selects.canonical : ∀ (mask : List MaskField) {t : MessageType} {fields : List Selected},
    Selects relations Q t mask fields → AllIn (fun i => ∀ r ∈ i.relation, Canonical relations r) fields
  | [], t, fields, h => by
    cases h
    trivial
  | m :: mask, t, fields, h => by
    cases h with
    | cons one rest => exact ⟨SelectsOne.canonical m one, Selects.canonical mask rest⟩
end

end

theorem Canonical.mem {relations : List Relation} {r : Relation} (h : Canonical relations r) :
    r ∈ relations :=
  (List.mem_filter.mp (List.mem_reverse.mp (List.mem_of_find?_eq_some h))).1

/-- The relations selected in a compiled schema are the gateway's. -/
theorem mem_relations_of_compileMask {t : MessageType} {mask : List MaskField}
    {place : Compile.Place} {schema : Schema} (h : compileMask t mask place = .ok schema) {k : Nat}
    {s : Selected} {r : Relation} (hs : s ∈ level schema.fields k) (hr : s.info.relation = some r) :
    r ∈ place.relations := by
  obtain ⟨⟨u, _, _, hu⟩, _⟩ := compileMask_spec (Closed.any place.relations) trivial h
  exact (((hu.canonical mask).level k s hs).info r hr).mem

/-! ## Params -/

section

variable {L : List Params}

mutual
theorem Shape.all_params : ∀ {shape : Shape}, (∀ x ∈ shape.params, x ∈ L) →
    shape.All fun i => ∀ x ∈ i.params, x ∈ L
  | .scalar _, _ => trivial
  | .message _ _, h => all_paramsIn h

theorem all_paramsIn : ∀ {fields : List Selected}, (∀ x ∈ paramsIn fields, x ∈ L) →
    AllIn (fun i => ∀ x ∈ i.params, x ∈ L) fields
  | [], _ => trivial
  | _ :: _, h =>
    ⟨Selected.all_params fun x hx => h x (List.mem_append_left _ hx),
      all_paramsIn fun x hx => h x (List.mem_append_right _ hx)⟩

theorem Selected.all_params : ∀ {s : Selected}, (∀ x ∈ s.params, x ∈ L) →
    s.All fun i => ∀ x ∈ i.params, x ∈ L
  | .mk _ _, h =>
    ⟨fun x hx => h x (List.mem_append_left _ (Option.mem_toList.mpr hx)),
      Shape.all_params fun x hx => h x (List.mem_append_right _ hx)⟩
end

end

/-- Fields of equal keys are selected of one relation with the same params. -/
def Keyed (fields : List Selected) : Prop :=
  ∀ k k' s s', s ∈ level fields k → s' ∈ level fields k' → s.key? = s'.key? →
    s.info.relation = s'.info.relation ∧ s.info.params = s'.info.params

theorem keyed_of_compileMask {t : MessageType} {mask : List MaskField} {place : Compile.Place}
    {schema : Schema} (h : compileMask t mask place = .ok schema) : Keyed schema.fields := by
  obtain ⟨⟨u, _, _, hu⟩, hn⟩ := compileMask_spec (Closed.any place.relations) trivial h
  have hnodup : ((paramsIn schema.fields).map (·.selection)).Nodup := hn ▸ List.nodup_range'
  have hcanon := hu.canonical mask
  have hparams := all_paramsIn (L := paramsIn schema.fields) fun x hx => hx
  intro k k' s s' hs hs' hkey
  obtain ⟨r, hr⟩ := Option.isSome_iff_exists.mp (isSome_of_mem_level k hs)
  obtain ⟨r', hr'⟩ := Option.isSome_iff_exists.mp (isSome_of_mem_level k' hs')
  simp only [Selected.key?, hr, hr', Option.map_some, Option.some.injEq, Prod.mk.injEq] at hkey
  obtain ⟨hbase, hname, hsel⟩ := hkey
  constructor
  · rw [hr, hr']
    have hc := (hcanon.level k s hs).info r hr
    have hc' := (hcanon.level k' s' hs').info r' hr'
    rw [hc.eq hc' hbase hname]
  · have hp := (hparams.level k s hs).info
    have hp' := (hparams.level k' s' hs').info
    cases hx : s.info.params with
    | none =>
      rw [hx] at hsel
      exact (Option.map_eq_none_iff.mp hsel.symm).symm
    | some x =>
      rw [hx] at hsel
      obtain ⟨y, hy, hyx⟩ := Option.map_eq_some_iff.mp hsel.symm
      rw [hy, List.inj_on_of_nodup_map hnodup (hp x hx) (hp' y hy) hyx.symm]

/-- All entries of a batch are of its relation and have its params. -/
theorem Batch.Grouped.asks {patches : List Patch} {bs : List Batch} {fields : List Selected} {k : Nat}
    (h : Batch.Grouped patches bs) (hk : Keyed fields) (hf : ∀ p ∈ patches, p.field ∈ level fields k)
    {b : Batch} (hb : b ∈ bs) {p : Patch} (hp : p ∈ b.entries) :
    p.field.info.relation = some b.relation ∧ p.field.info.params = b.params := by
  obtain ⟨q, hq, hr, hparams⟩ := h.head b hb
  have hpf := hf p (h.mem_iff.mpr ⟨b, hb, hp⟩)
  have hqf := hf q (h.mem_iff.mpr ⟨b, hb, hq⟩)
  have hkey : p.field.key? = q.field.key? := by rw [h.entry b hb p hp, h.entry b hb q hq]
  obtain ⟨hr', hp'⟩ := hk k k _ _ hpf hqf hkey
  exact ⟨hr'.trans hr, hp'.trans hparams⟩

end Patchwork
