import Patchwork.Proofs.Mirrored

/-!
# Schemas without relations

Without relations a schema narrows a type to some of its own fields, and the types of these fields in
turn. No other types come in, whatever relations the gateway has, so that the schema can be followed
along the pool of the type alone.
-/

namespace Patchwork
open Proto

mutual
/-- A shape narrows what values of a kind hold. -/
def Shape.Narrows (pool : Pool) (k : Kind) : Shape → Prop
  | .scalar t => Element.ofKind pool k = .scalar t
  | .message name fields => k = .message name ∧ narrowsAll (pool.message name) fields

/-- All selected fields are fields of a type. -/
def narrowsAll (t : MessageType) : List Selected → Prop
  | [] => True
  | s :: rest => s.Narrows t ∧ narrowsAll t rest

def Selected.Narrows (t : MessageType) : Selected → Prop
  | .mk info shape => info.relation = none ∧ ∃ g, t.field? info.name = some g ∧
      info.container = .ofArity g.arity ∧ shape.Narrows t.pool g.kind
end

/-- A field that is found in the catalog and is no relation is the type's own. -/
theorem CatalogType.own_of_field? {relations : List Relation} {t : MessageType} {name : String}
    {f : CatalogField} (names : (t.fields.map (·.name)).Nodup)
    (found : (CatalogType.ofType relations t).field? name = some f) (plain : f.relation = none) :
    ∃ g, t.field? f.name = some g ∧ f = .ofField t.pool g := by
  have listed := List.mem_reverse.mp (List.mem_of_find?_eq_some found)
  obtain ⟨_, ⟨g, hg, rfl⟩ | ⟨r, _, rfl⟩⟩ := CatalogType.mem_fields listed
  · refine ⟨g, ?_, rfl⟩
    have unique : ∀ x ∈ t.fields, ∀ y ∈ t.fields, x.name == g.name → y.name == g.name → x = y := by
      intro x hx y hy px py
      exact List.inj_on_of_nodup_map names hx hy ((beq_iff_eq.mp px).trans (beq_iff_eq.mp py).symm)
    exact (find?_eq_some_of_unique unique).mpr ⟨hg, beq_self_eq_true _⟩
  · cases plain

theorem Element.ofKind_eq_message {pool : Pool} {k : Kind} {t : MessageType}
    (h : Element.ofKind pool k = .message t) : ∃ n, k = .message n ∧ t = pool.message n := by
  cases k with
  | scalar k => cases h
  | enum n => cases h
  | message n =>
    cases h
    exact ⟨n, rfl, rfl⟩

/-- A selected field with no relations in it is none itself, nor are those inside it. -/
theorem Selected.plain_of_relations {info : Selection} {shape : Shape}
    (h : (Selected.mk info shape).relations = []) : info.relation = none ∧ shape.relations = [] := by
  unfold relations at h
  cases relation : info.relation with
  | none => simpa [relation] using h
  | some r => simp [relation] at h

namespace Compile

variable {relations : List Relation} {pool : Pool}

mutual
theorem selectOne_narrows (distinct : pool.IsDistinct) : ∀ (m : MaskField) {t : MessageType}
    {place : Place} {x : Selected} {s s' : Compilation}, pool.Has t → place.relations = relations →
    Cataloged relations pool.Has s.catalog →
    (selectOne place (.ofType relations t) m).run s = .ok x s' → x.relations = [] →
    x.Narrows t ∧ Cataloged relations pool.Has s'.catalog
  | .mk name given mask onError, t, place, x, s, s', ht, hp, hs, h, plain => by
    unfold selectOne at h
    obtain ⟨f, s₁, hf, h₁⟩ := run_bind_ok h
    obtain ⟨found, rfl⟩ := find_spec hf
    dsimp only at h₁
    obtain ⟨o, s₂, ho, h₂⟩ := run_bind_ok h₁
    have grown := paramsOf_spec ho hs
    have hr : (place.enter f name).relations = relations := hp
    cases element : f.element with
    | scalar e =>
      rw [element] at h₂
      cases h₂
      obtain ⟨relation, _⟩ := Selected.plain_of_relations plain
      obtain ⟨g, own, rfl⟩ := CatalogType.own_of_field? (distinct.names ht) found relation
      exact ⟨⟨rfl, g, own, rfl, element⟩, grown.cataloged⟩
    | message v =>
      rw [element] at h₂
      obtain ⟨d, s₃, hd, h₃⟩ := run_bind_ok h₂
      obtain ⟨fields, s₄, hfields, h₄⟩ := run_bind_ok h₃
      cases h₄
      obtain ⟨relation, inner⟩ := Selected.plain_of_relations plain
      obtain ⟨g, own, rfl⟩ := CatalogType.own_of_field? (distinct.names ht) found relation
      obtain ⟨n, kind, hv⟩ := Element.ofKind_eq_message element
      rw [ht.pool] at hv
      subst hv
      rw [hr] at hd
      obtain ⟨described, u, hu, named, rfl⟩ := describe_spec hd (pool.has_message n) grown.cataloged
      obtain rfl := hu.eq (pool.has_message n) named
      obtain ⟨inside, cataloged⟩ := select_narrows distinct mask (pool.has_message n) hr
        described.cataloged hfields inner
      have name : (CatalogType.ofType relations (pool.message n)).name = n := Pool.name_message ..
      rw [name]
      exact ⟨⟨rfl, g, own, rfl, kind, ht.pool ▸ inside⟩, cataloged⟩

theorem select_narrows (distinct : pool.IsDistinct) : ∀ (mask : List MaskField) {t : MessageType}
    {place : Place} {fields : List Selected} {s s' : Compilation}, pool.Has t →
    place.relations = relations → Cataloged relations pool.Has s.catalog →
    (select place (.ofType relations t) mask).run s = .ok fields s' → relationsIn fields = [] →
    narrowsAll t fields ∧ Cataloged relations pool.Has s'.catalog
  | [], t, place, fields, s, s', ht, hp, hs, h, plain => by
    unfold select at h
    cases h
    exact ⟨trivial, hs⟩
  | m :: mask, t, place, fields, s, s', ht, hp, hs, h, plain => by
    unfold select at h
    obtain ⟨x, s₁, hx, h₁⟩ := run_bind_ok h
    obtain ⟨xs, s₂, hxs, h₂⟩ := run_bind_ok h₁
    cases h₂
    obtain ⟨here, others⟩ := List.append_eq_nil_iff.mp plain
    obtain ⟨one, cataloged⟩ := selectOne_narrows distinct m ht hp hs hx here
    obtain ⟨rest, cataloged⟩ := select_narrows distinct mask ht hp cataloged hxs others
    exact ⟨⟨one, rest⟩, cataloged⟩
end

end Compile

/-- A compiled schema without relations narrows its type. -/
theorem narrowsAll_of_compileMask {t : MessageType} {mask : List MaskField} {place : Compile.Place}
    {schema : Schema} (h : compileMask t mask place = .ok schema) (distinct : t.pool.IsDistinct)
    (ht : t.pool.Has t) (plain : relationsIn schema.fields = []) : narrowsAll t schema.fields := by
  unfold compileMask at h
  split at h
  · next x s' hs =>
    cases h
    obtain ⟨c, s₁, hd, h₁⟩ := run_bind_ok hs
    obtain ⟨fields, s₂, hf, h₂⟩ := run_bind_ok h₁
    cases h₂
    cases hd
    have empty : Compile.Cataloged place.relations t.pool.Has
        (({} : Compilation).catalog.describe place.relations t).2 := by
      intro d hd
      exact ⟨t, ht, List.mem_singleton.mp hd⟩
    exact (Compile.select_narrows distinct mask ht rfl empty hf plain).1
  · cases h

/-! ## Masks that name fields once -/

mutual
/-- A mask names no field twice on one level, at any depth. -/
def namesOnce : List MaskField → Prop
  | [] => True
  | m :: rest => m.name ∉ rest.map (·.name) ∧ m.NamesOnce ∧ namesOnce rest

def MaskField.NamesOnce : MaskField → Prop
  | .mk _ _ mask _ => namesOnce mask
end

mutual
/-- So no two fields of an object have one name. -/
def selectsOnce : List Selected → Prop
  | [] => True
  | s :: rest => s.name ∉ rest.map (·.name) ∧ s.SelectsOnce ∧ selectsOnce rest

def Selected.SelectsOnce : Selected → Prop
  | .mk _ shape => shape.SelectsOnce

def Shape.SelectsOnce : Shape → Prop
  | .scalar _ => True
  | .message _ fields => selectsOnce fields
end

theorem MirrorsMask.selectsOnce {Known : MessageType → CatalogType → Prop} {place : Compile.Place}
    {c : CatalogType} {mask : List MaskField} {fields : List Selected}
    (h : MirrorsMask Known place c mask fields) (once : namesOnce mask) : selectsOnce fields := by
  induction h with
  | nil => trivial
  | @scalar _ _ m _ _ i _ _ _ info _ rest ih =>
    obtain ⟨here, _, others⟩ := once
    refine ⟨?_, trivial, ih others⟩
    rw [rest.names]
    change i.name ∉ _
    rwa [info.name]
  | @message _ _ _ m _ _ i _ _ _ _ info _ _ _ rest inside ih =>
    obtain ⟨here, inner, others⟩ := once
    refine ⟨?_, inside ?_, ih others⟩
    · rw [rest.names]
      change i.name ∉ _
      rwa [info.name]
    · obtain ⟨name, given, mask, onError⟩ := m
      exact inner

theorem nodup_of_selectsOnce {fields : List Selected} (h : selectsOnce fields) :
    (fields.map (·.name)).Nodup := by
  induction fields with
  | nil => exact .nil
  | cons s rest ih => exact List.nodup_cons.mpr ⟨h.1, ih h.2.2⟩

end Patchwork
