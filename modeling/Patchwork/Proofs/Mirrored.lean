import Patchwork.Proofs.Operations
import Patchwork.Proofs.Shadowing

/-!
# Schemas and their masks

A compiled schema repeats its mask. There is one field for each selection, in order, and inside it
one for each selection further inside. What a field inherits on the way, its path and the operations
that lead to it, comes from the selections around it alone, and the params of a selection are its own.
-/

namespace Patchwork
open Proto

/-- What a schema says of one selection of a mask besides its shape, if the selection is made at a
place and names the given field there. -/
structure Selection.Mirrors (place : Compile.Place) (m : MaskField) (f : CatalogField)
    (i : Selection) : Prop where
  name : i.name = m.name
  jsonName : i.jsonName = f.jsonName
  container : i.container = f.container
  relation : i.relation = f.relation
  path : i.path = Compile.Place.join place.path m.name
  onError : i.onError = m.onError
  operations : i.operations =
    place.operations ++ (f.relation.map (·.method.fullName)).toList
  /-- Params belong to the relations that declare some. -/
  declared : i.params.isSome ↔ ∃ r, f.relation = some r ∧ r.params.isSome
  given : ∀ p ∈ i.params, ∃ r json, f.relation = some r ∧ m.params = some json ∧
    r.readParams json = .ok p.message

/-- The fields that the selections of a mask stand for at a place. Whatever contains the messages of
a field, the mask inside the selection narrows them, with the fields known of their type. -/
inductive MirrorsMask (Known : MessageType → CatalogType → Prop) :
    Compile.Place → CatalogType → List MaskField → List Selected → Prop
  | nil {place : Compile.Place} {c : CatalogType} : MirrorsMask Known place c [] []
  | scalar {place : Compile.Place} {c : CatalogType} {m : MaskField} {mask : List MaskField}
      {f : CatalogField} {i : Selection} {e : ScalarType} {fields : List Selected}
      (found : c.field? m.name = some f) (info : i.Mirrors place m f)
      (element : f.element = .scalar e) (rest : MirrorsMask Known place c mask fields) :
      MirrorsMask Known place c (m :: mask) (.mk i (.scalar e) :: fields)
  | message {place : Compile.Place} {c d : CatalogType} {m : MaskField} {mask : List MaskField}
      {f : CatalogField} {i : Selection} {u : MessageType} {inner fields : List Selected}
      (found : c.field? m.name = some f) (info : i.Mirrors place m f)
      (element : f.element = .message u) (known : Known u d)
      (inside : MirrorsMask Known ⟨place.relations, i.path, i.operations⟩ d m.mask inner)
      (rest : MirrorsMask Known place c mask fields) :
      MirrorsMask Known place c (m :: mask) (.mk i (.message u.name inner) :: fields)

namespace MirrorsMask

variable {Known : MessageType → CatalogType → Prop} {place : Compile.Place} {c : CatalogType}
  {mask : List MaskField} {fields : List Selected}

/-- There is one field for each selection, in order. -/
theorem names (h : MirrorsMask Known place c mask fields) :
    fields.map (·.name) = mask.map (·.name) := by
  induction h with
  | nil => rfl
  | scalar _ info _ _ ih =>
    rw [List.map_cons, List.map_cons, ih, ← info.name]
    rfl
  | message _ info _ _ _ _ _ ih =>
    rw [List.map_cons, List.map_cons, ih, ← info.name]
    rfl

/-- More may be known of the types that a mask leads to. -/
theorem imp {Known' : MessageType → CatalogType → Prop} {Q : MessageType → Prop}
    (h : MirrorsMask Known place c mask fields)
    (hc : ∀ f ∈ c.fields, ∀ u, f.element = .message u → Q u)
    (known : ∀ u d, Q u → Known u d →
      Known' u d ∧ ∀ f ∈ d.fields, ∀ v, f.element = .message v → Q v) :
    MirrorsMask Known' place c mask fields := by
  induction h with
  | nil => exact .nil
  | scalar found info element _ ih => exact .scalar found info element (ih hc)
  | message found info element hd _ _ inside rest =>
    have hu := hc _ (List.mem_reverse.mp (List.mem_of_find?_eq_some found)) _ element
    obtain ⟨hd, further⟩ := known _ _ hu hd
    exact .message found info element hd (inside further) (rest hc)

end MirrorsMask

/-! ## Compilation -/

namespace Catalog

/-- All types of the first catalog are found in the second. -/
def Within (c c' : Catalog) : Prop :=
  ∀ name d, c.type? name = some d → c'.type? name = some d

theorem Within.refl (c : Catalog) : c.Within c := fun _ _ h => h

theorem Within.trans {c c' c'' : Catalog} (h : c.Within c') (h' : c'.Within c'') : c.Within c'' :=
  fun name d hd => h' name d (h name d hd)

/-- A type that is described stays described. -/
theorem within_describe (c : Catalog) (relations : List Relation) (t : MessageType) :
    c.Within (c.describe relations t).2 ∧
      (c.describe relations t).2.type? t.name = some (c.describe relations t).1 := by
  unfold describe
  cases known : c.type? t.name with
  | some d => exact ⟨.refl c, known⟩
  | none =>
    constructor
    · intro name d found
      unfold type? at found ⊢
      rw [List.find?_append, found, Option.some_or]
    · unfold type? at known ⊢
      rw [List.find?_append, known]
      simp [CatalogType.ofType]

end Catalog

theorem CatalogType.name_of_field? {c : CatalogType} {name : String} {f : CatalogField}
    (h : c.field? name = some f) : f.name = name := by
  simpa using List.find?_some h

namespace Compile

theorem describe_keeps {relations : List Relation} {t : MessageType} {d : CatalogType}
    {s s' : Compilation} (h : (describe relations t).run s = .ok d s') :
    s.catalog.Within s'.catalog ∧ s'.catalog.type? t.name = some d := by
  cases h
  exact s.catalog.within_describe relations t

/-- Params are read for the relations that declare some, and only then. -/
theorem paramsOf_declared {f : CatalogField} {given : Option Json} {path : String}
    {o : Option Params} {s s' : Compilation} (h : (paramsOf f given path).run s = .ok o s') :
    s'.catalog = s.catalog ∧ (o.isSome ↔ ∃ r, f.relation = some r ∧ r.params.isSome) ∧
      ∀ p ∈ o, ∃ r json, f.relation = some r ∧ given = some json ∧
        r.readParams json = .ok p.message := by
  unfold paramsOf at h
  split at h
  · next plain =>
    cases h
    simp [plain]
  · next r relation =>
    split at h
    · next none =>
      cases h
      simpa [relation] using none
    · next some =>
      split at h
      · cases h
      · next json =>
        split at h
        · cases h
        · next m read =>
          cases h
          refine ⟨rfl, ?_, ?_⟩
          · simpa [relation, Option.isSome_iff_ne_none] using some
          · rintro p hp
            cases hp
            exact ⟨r, json, relation, rfl, read⟩

mutual
/-- One selection becomes one field, whatever is described after it. -/
theorem selectOne_mirrors : ∀ (m : MaskField) {place : Place} {c : CatalogType} {x : Selected}
    {s s' : Compilation}, (selectOne place c m).run s = .ok x s' →
    s.catalog.Within s'.catalog ∧
      ∀ (catalog : Catalog) (mask : List MaskField) (fields : List Selected),
        s'.catalog.Within catalog →
        MirrorsMask (fun u d => catalog.type? u.name = some d) place c mask fields →
        MirrorsMask (fun u d => catalog.type? u.name = some d) place c (m :: mask) (x :: fields)
  | .mk name given mask onError, place, c, x, s, s', h => by
    unfold selectOne at h
    obtain ⟨f, s₁, hf, h₁⟩ := run_bind_ok h
    obtain ⟨found, rfl⟩ := find_spec hf
    dsimp only at h₁
    obtain ⟨params, s₂, hparams, h₂⟩ := run_bind_ok h₁
    obtain ⟨same, declared, read⟩ := paramsOf_declared hparams
    have chain : (place.enter f name).operations =
        place.operations ++ (f.relation.map (·.method.fullName)).toList := by
      unfold Place.enter
      cases f.relation <;> simp
    have info : Selection.Mirrors place (.mk name given mask onError) f
        { name := f.name, jsonName := f.jsonName, container := f.container, relation := f.relation,
          params, path := (place.enter f name).path, onError,
          operations := (place.enter f name).operations } :=
      ⟨CatalogType.name_of_field? found, rfl, rfl, rfl, rfl, rfl, chain, declared, read⟩
    cases element : f.element with
    | scalar e =>
      rw [element] at h₂
      cases h₂
      exact ⟨same ▸ .refl _, fun _ _ _ _ rest => .scalar found info element rest⟩
    | message u =>
      rw [element] at h₂
      obtain ⟨d, s₃, hd, h₃⟩ := run_bind_ok h₂
      obtain ⟨inner, s₄, hinner, h₄⟩ := run_bind_ok h₃
      cases h₄
      obtain ⟨kept, known⟩ := describe_keeps hd
      obtain ⟨kept', inside⟩ := select_mirrors mask hinner
      have named : d.name = u.name := by simpa using List.find?_some known
      refine ⟨(same ▸ kept).trans kept', fun catalog _ _ later rest => ?_⟩
      rw [named]
      exact .message found info element (later _ _ (kept' _ _ known)) (inside catalog later) rest

/-- A mask becomes the fields of its selections. -/
theorem select_mirrors : ∀ (mask : List MaskField) {place : Place} {c : CatalogType}
    {fields : List Selected} {s s' : Compilation}, (select place c mask).run s = .ok fields s' →
    s.catalog.Within s'.catalog ∧ ∀ catalog : Catalog, s'.catalog.Within catalog →
      MirrorsMask (fun u d => catalog.type? u.name = some d) place c mask fields
  | [], place, c, fields, s, s', h => by
    unfold select at h
    cases h
    exact ⟨.refl _, fun _ _ => .nil⟩
  | m :: mask, place, c, fields, s, s', h => by
    unfold select at h
    obtain ⟨x, s₁, hx, h₁⟩ := run_bind_ok h
    obtain ⟨xs, s₂, hxs, h₂⟩ := run_bind_ok h₁
    cases h₂
    obtain ⟨kept, one⟩ := selectOne_mirrors m hx
    obtain ⟨kept', rest⟩ := select_mirrors mask hxs
    exact ⟨kept.trans kept', fun catalog later =>
      one catalog mask xs (kept'.trans later) (rest catalog later)⟩
end

end Compile

/-- A schema mirrors its mask. Of each type that the mask leads to it knows what the request's catalog
has under the name of the type, which at the root is the type's own description. -/
theorem mirrors_of_compileMask {t : MessageType} {mask : List MaskField} {place : Compile.Place}
    {schema : Schema} (h : compileMask t mask place = .ok schema) : ∃ catalog : Catalog,
      schema.name = t.name ∧
      (∀ Q : MessageType → Prop, Closed place.relations Q → Q t →
        Compile.Cataloged place.relations Q catalog) ∧
      MirrorsMask (fun u d => catalog.type? u.name = some d) place (.ofType place.relations t) mask
        schema.fields := by
  unfold compileMask at h
  split at h
  · next x s' hs =>
    cases h
    obtain ⟨c, s₁, hd, h₁⟩ := run_bind_ok hs
    obtain ⟨fields, s₂, hf, h₂⟩ := run_bind_ok h₁
    cases h₂
    have described : c = .ofType place.relations t := by
      cases hd
      rfl
    subst described
    refine ⟨s'.catalog, rfl, fun Q hQ ht => ?_, (Compile.select_mirrors mask hf).2 _ (.refl _)⟩
    have empty : Compile.Cataloged place.relations Q ({} : Compilation).catalog :=
      fun d hd => absurd hd List.not_mem_nil
    obtain ⟨grown, _⟩ := Compile.describe_spec hd ht empty
    exact (Compile.select_spec hQ mask ht rfl grown.cataloged hf).2.cataloged
  · cases h

/-- In one pool, what is known of a type is the type's own description. -/
theorem MirrorsMask.of_pool {catalog : Catalog} {place : Compile.Place} {t : MessageType}
    {mask : List MaskField} {fields : List Selected} {pool : Pool}
    (h : MirrorsMask (fun u d => catalog.type? u.name = some d) place (.ofType place.relations t) mask
      fields) (pools : ∀ r ∈ place.relations, r.method.pool = pool) (ht : pool.Has t)
    (cataloged : Compile.Cataloged place.relations pool.Has catalog) :
    MirrorsMask (fun u d => d = .ofType place.relations u) place (.ofType place.relations t) mask
      fields := by
  have closed := Pool.closed_has pools
  refine h.imp (closed t ht) fun u d hu known => ?_
  obtain ⟨v, hv, rfl⟩ := cataloged d (List.mem_of_find?_eq_some known)
  have named : v.name = u.name := by simpa [CatalogType.ofType] using List.find?_some known
  rw [hv.eq hu named]
  exact ⟨rfl, closed u hu⟩

/-! ## Selections and their params -/

mutual
/-- A selected field and all fields inside it, from the outside to the inside. -/
def Selected.within : Selected → List Selected
  | .mk info shape => .mk info shape :: shape.within

def Shape.within : Shape → List Selected
  | .scalar _ => []
  | .message _ fields => selectedIn fields

def selectedIn : List Selected → List Selected
  | [] => []
  | s :: rest => s.within ++ selectedIn rest
end

mutual
theorem Selected.params_eq : ∀ s : Selected,
    s.params = s.within.flatMap fun x => x.info.params.toList
  | .mk info shape => by
    rw [Selected.params, Selected.within, List.flatMap_cons, Shape.params_eq shape]
    rfl

theorem Shape.params_eq : ∀ shape : Shape,
    shape.params = shape.within.flatMap fun x => x.info.params.toList
  | .scalar _ => rfl
  | .message _ fields => paramsIn_eq fields

/-- The params of a schema are those of its selections, one after the other. -/
theorem paramsIn_eq : ∀ fields : List Selected,
    paramsIn fields = (selectedIn fields).flatMap fun x => x.info.params.toList
  | [] => rfl
  | s :: rest => by
    rw [paramsIn, selectedIn, List.flatMap_append, Selected.params_eq s, paramsIn_eq rest]
end

/-- Two selections do not share the params of one number. -/
def Selected.Apart (s t : Selected) : Prop :=
  ∀ p ∈ s.info.params, ∀ q ∈ t.info.params, p.selection ≠ q.selection

instance : Std.Symm Selected.Apart where
  symm _ _ apart p hp q hq same := apart q hq p hp same.symm

theorem pairwise_apart_of_compileMask {t : MessageType} {mask : List MaskField}
    {place : Compile.Place} {schema : Schema} (h : compileMask t mask place = .ok schema) :
    (selectedIn schema.fields).Pairwise Selected.Apart := by
  have numbered := (compileMask_spec (Closed.any place.relations) trivial h).2
  have distinct : ((paramsIn schema.fields).map (·.selection)).Nodup :=
    numbered ▸ List.nodup_range'
  rw [paramsIn_eq, List.map_flatMap] at distinct
  refine (List.nodup_flatMap.mp distinct).2.imp ?_
  intro x y apart p hp q hq same
  exact apart (List.mem_map.mpr ⟨p, Option.mem_toList.mpr hp, rfl⟩)
    (List.mem_map.mpr ⟨q, Option.mem_toList.mpr hq, same.symm⟩)

/-- An accepted schema mirrors its mask. On every level it has one field for each selection, in order
and of the same name, with all that the selection and the field of its name there say. The types
inside are those that the catalog of the request has under the names of the fields' types, in one
pool the fields' types themselves. On the whole way to a field its path collects the names and its
operations the methods of the relations, itself included, and no two selections share the params of
one number, equal or not. -/
theorem schema_mirrors_mask {t : MessageType} {mask : List MaskField} {place : Compile.Place}
    {schema : Schema} (h : compileMask t mask place = .ok schema) :
    schema.name = t.name ∧
    (∃ catalog : Catalog, Compile.Cataloged place.relations (fun _ => True) catalog ∧
      MirrorsMask (fun u d => catalog.type? u.name = some d) place (.ofType place.relations t) mask
        schema.fields) ∧
    (∀ pool : Pool, (∀ r ∈ place.relations, r.method.pool = pool) → pool.Has t →
      MirrorsMask (fun u d => d = .ofType place.relations u) place (.ofType place.relations t) mask
        schema.fields) ∧
    (∀ (way : Way) (m : MaskField) (s : Selected),
      Way.Through mask schema.fields (way ++ [(m, s)]) →
        s.info.path = Way.path place.path (way ++ [(m, s)]) ∧
        s.info.operations = place.operations ++ Way.operations (way ++ [(m, s)])) ∧
    (selectedIn schema.fields).Pairwise Selected.Apart := by
  obtain ⟨catalog, named, cataloged, mirrors⟩ := mirrors_of_compileMask h
  refine ⟨named, ⟨catalog, cataloged _ (.any _) trivial, mirrors⟩, fun pool pools ht => ?_,
    fun way m s through => ?_, pairwise_apart_of_compileMask h⟩
  · exact mirrors.of_pool pools ht (cataloged _ (Pool.closed_has pools) ht)
  · obtain ⟨path, operations, _⟩ := (placed_of_compileMask h).at_end through
    exact ⟨path, operations⟩

/-! ## Ancestry -/

namespace Sample

def placeOfFamily : Compile.Place :=
  ⟨familyBuilder.relations, "Items.Get", [Verb.fetch.operation, "Items.Get"]⟩

/-- The ancestor of an item and that of its parent, with equal params. -/
def ancestry : List MaskField :=
  [grandparent [.mk "title" none [] none], .mk "parent" none [grandparent []] (some .embed)]

def ancestrySchema : Schema :=
  (compileMask (family.message "Item") ancestry placeOfFamily).toOption.getD ⟨"", []⟩

theorem compiles_ancestry :
    compileMask (family.message "Item") ancestry placeOfFamily = .ok ancestrySchema :=
  Outcome.eq_ok_getD (by decide +kernel)

end Sample

/-- The ancestor inside the parent has the path and the operations of both, and although the two
ancestors are asked for with equal params, these have two numbers. -/
theorem schema_mirrors_ancestry :
    Sample.ancestrySchema.fields.map (·.name) = ["ancestor", "parent"] ∧
    (selectedIn Sample.ancestrySchema.fields).map (fun s => (s.info.path, s.info.operations.drop 2,
        s.info.params.map (·.selection))) =
      [("Items.Get.ancestor", ["Items.Ancestors"], some 0),
       ("Items.Get.ancestor.title", ["Items.Ancestors"], none),
       ("Items.Get.parent", ["Items.Parents"], none),
       ("Items.Get.parent.ancestor", ["Items.Parents", "Items.Ancestors"], some 1)] ∧
    (selectedIn Sample.ancestrySchema.fields).Pairwise Selected.Apart := by
  obtain ⟨_, ⟨_, _, mirrors⟩, _, _, apart⟩ := schema_mirrors_mask Sample.compiles_ancestry
  exact ⟨mirrors.names, by decide +kernel, apart⟩

end Patchwork
