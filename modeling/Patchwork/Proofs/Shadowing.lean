import Patchwork.Proofs.Registration
import Patchwork.Proofs.Transparency

/-!
# Relations and fields of one name

A relation may not be named like a field of its base. It is attached to each type that has the name
of its base, though, and such a type of another pool may have a field of the relation's name. Then
the relation is found in place of the field. Fields are found as long as the base of each relation
has them, too.
-/

namespace Patchwork
open Proto

/-- The relations of a base are told apart by their names. -/
theorem Gateway.IsSound.nodup_relationsOf {g : Gateway} (h : g.IsSound) (base : String) :
    ((relationsOf g.relations base).map (·.name)).Nodup := by
  unfold relationsOf
  rw [List.nodup_iff_pairwise_ne, List.pairwise_map, List.pairwise_filter]
  refine h.apart.imp ?_
  intro r s apart hr hs same
  exact apart ⟨(beq_iff_eq.mp hr).trans (beq_iff_eq.mp hs).symm, same⟩

namespace CatalogType

variable {g : Gateway} {t : MessageType}

theorem names_ofType (relations : List Relation) (plain : isWellKnown t.name = false) :
    (ofType relations t).fields.map (·.name) =
      t.fields.map (·.name) ++ (relationsOf relations t.name).map (·.name) := by
  simp only [ofType, plain, Bool.false_eq_true, if_false, List.map_append, List.map_map]
  rfl

/-- What is found for a name: a relation of it or else a field of it. -/
theorem field?_ofType (relations : List Relation) (plain : isWellKnown t.name = false)
    (name : String) : (ofType relations t).field? name =
      (((relationsOf relations t.name).reverse.find? (·.name == name)).map .ofRelation).or
        ((t.fields.reverse.find? (·.name == name)).map (.ofField t.pool)) := by
  simp only [field?, ofType, plain, Bool.false_eq_true, if_false, List.reverse_append,
    List.find?_append, ← List.map_reverse, List.find?_map]
  rfl

/-- Each relation of a type is found. -/
theorem field?_relation (sound : g.IsSound) (plain : isWellKnown t.name = false) {r : Relation}
    (hr : r ∈ relationsOf g.relations t.name) :
    (ofType g.relations t).field? r.name = some (.ofRelation r) := by
  have unique : ∀ x ∈ (relationsOf g.relations t.name).reverse,
      ∀ y ∈ (relationsOf g.relations t.name).reverse,
        x.name == r.name → y.name == r.name → x = y := by
    intro x hx y hy px py
    exact List.inj_on_of_nodup_map (sound.nodup_relationsOf t.name) (List.mem_reverse.mp hx)
      (List.mem_reverse.mp hy) ((beq_iff_eq.mp px).trans (beq_iff_eq.mp py).symm)
  have found := (find?_eq_some_of_unique unique).mpr ⟨List.mem_reverse.mpr hr, beq_self_eq_true _⟩
  rw [field?_ofType _ plain, found]
  rfl

/-- A field is found unless a relation has its name. -/
theorem field?_field (sound : g.IsSound) (plain : isWellKnown t.name = false)
    (names : (t.fields.map (·.name)).Nodup) {f : Field} (hf : f ∈ t.fields) :
    (ofType g.relations t).field? f.name = some (.ofField t.pool f) ↔
      ∀ r ∈ relationsOf g.relations t.name, r.name ≠ f.name := by
  constructor
  · intro h r hr same
    rw [← same, field?_relation sound plain hr] at h
    have tagged := congrArg CatalogField.relation (Option.some.inj h)
    cases tagged
  · intro free
    have unique : ∀ x ∈ t.fields.reverse, ∀ y ∈ t.fields.reverse,
        x.name == f.name → y.name == f.name → x = y := by
      intro x hx y hy px py
      exact List.inj_on_of_nodup_map names (List.mem_reverse.mp hx) (List.mem_reverse.mp hy)
        ((beq_iff_eq.mp px).trans (beq_iff_eq.mp py).symm)
    have found := (find?_eq_some_of_unique unique).mpr ⟨List.mem_reverse.mpr hf, beq_self_eq_true _⟩
    have none : (relationsOf g.relations t.name).reverse.find? (·.name == f.name) = none := by
      simpa [List.find?_eq_none] using free
    rw [field?_ofType _ plain, none, found]
    rfl

/-- Names are distinct exactly when no relation has the name of a field. -/
theorem nodup_names_iff (sound : g.IsSound) (plain : isWellKnown t.name = false)
    (names : (t.fields.map (·.name)).Nodup) :
    ((ofType g.relations t).fields.map (·.name)).Nodup ↔
      ∀ r ∈ relationsOf g.relations t.name, ∀ f ∈ t.fields, r.name ≠ f.name := by
  rw [names_ofType _ plain, List.nodup_append]
  constructor
  · rintro ⟨_, _, apart⟩ r hr f hf same
    exact apart _ (List.mem_map_of_mem hf) _ (List.mem_map_of_mem hr) same.symm
  · intro apart
    refine ⟨names, sound.nodup_relationsOf t.name, ?_⟩
    intro x hx y hy same
    obtain ⟨f, hf, rfl⟩ := List.mem_map.mp hx
    obtain ⟨r, hr, rfl⟩ := List.mem_map.mp hy
    exact apart r hr f hf same.symm

end CatalogType

/-- A type has no field that the bases of its relations lack. -/
def Gateway.KnowsFields (g : Gateway) (t : MessageType) : Prop :=
  ∀ r ∈ relationsOf g.relations t.name, ∀ f ∈ t.fields, (r.base.field? f.name).isSome

/-- In one pool, the base of a relation is the type itself. -/
theorem Gateway.knowsFields_of_pool {g : Gateway} (sound : g.IsSound) {pool : Pool}
    {t : MessageType} (pools : ∀ r ∈ relationsOf g.relations t.name, r.method.pool = pool)
    (ht : pool.Has t) : g.KnowsFields t := by
  intro r hr f hf
  obtain ⟨known, named⟩ := List.mem_filter.mp hr
  obtain ⟨name, _, base⟩ := (sound.fits r known).bases.holds
  have hb : pool.Has r.base := by
    have input : r.method.input.pool = pool := (Pool.pool_message ..).trans (pools r hr)
    rw [base, input]
    exact pool.has_message name
  rw [hb.eq ht (beq_iff_eq.mp named)]
  exact List.find?_isSome.mpr ⟨f, hf, beq_self_eq_true _⟩

/-- After steps that were all taken, each relation that extends a type is found in it. A field is
found unless a relation has its name, which none has if the bases of the relations have all of the
type's fields. So while a type's name stands for one type only, all names in its description are
distinct. -/
theorem relations_hide_only_fields_that_bases_lack {b : Builder} {steps : List Builder.Step}
    (h : Builder.performAll {} steps = .ok b) {t : MessageType} (plain : isWellKnown t.name = false)
    (names : (t.fields.map (·.name)).Nodup) :
    (∀ r ∈ relationsOf b.relations t.name,
      (CatalogType.ofType b.relations t).field? r.name = some (.ofRelation r)) ∧
    (∀ f ∈ t.fields, (CatalogType.ofType b.relations t).field? f.name = some (.ofField t.pool f) ↔
      ∀ r ∈ relationsOf b.relations t.name, r.name ≠ f.name) ∧
    (((CatalogType.ofType b.relations t).fields.map (·.name)).Nodup ↔
      ∀ r ∈ relationsOf b.relations t.name, ∀ f ∈ t.fields, r.name ≠ f.name) ∧
    (b.KnowsFields t →
      ((CatalogType.ofType b.relations t).fields.map (·.name)).Nodup ∧
      ∀ f ∈ t.fields,
        (CatalogType.ofType b.relations t).field? f.name = some (.ofField t.pool f)) := by
  have sound := (Builder.follows_of_performAll h).sound
  refine ⟨fun r hr => CatalogType.field?_relation sound plain hr,
    fun f hf => CatalogType.field?_field sound plain names hf,
    CatalogType.nodup_names_iff sound plain names, ?_⟩
  intro known
  have apart : ∀ r ∈ relationsOf b.relations t.name, ∀ f ∈ t.fields, r.name ≠ f.name := by
    intro r hr f hf same
    -- The name was free in the base when the relation was registered.
    have there := known r hr f hf
    rw [← same, sound.free r (List.mem_filter.mp hr).1] at there
    cases there
  exact ⟨(CatalogType.nodup_names_iff sound plain names).mpr apart, fun f hf =>
    (CatalogType.field?_field sound plain names hf).mpr fun r hr => apart r hr f hf⟩

/-- No relation hides the title of an item. -/
theorem no_relation_hides_title_of_item :
    Builder.performAll {} Sample.setUp = .ok Sample.builder ∧
    ((CatalogType.ofType Sample.builder.relations (Sample.store.message "Item")).fields.map
      (·.name)).Nodup ∧
    (CatalogType.ofType Sample.builder.relations (Sample.store.message "Item")).field? "title" =
      some (.ofField Sample.store Sample.title) := by
  have sound := (Builder.follows_of_performAll Sample.setsUp).sound
  have pools : ∀ r ∈ Sample.builder.relations, r.method.pool = Sample.store := by decide +kernel
  have known := Gateway.knowsFields_of_pool sound (fun r hr => pools r (List.mem_filter.mp hr).1)
    (Sample.store.has_message "Item")
  obtain ⟨names, fields⟩ := (relations_hide_only_fields_that_bases_lack Sample.setsUp
    (t := Sample.store.message "Item") (by decide +kernel) (by decide +kernel)).2.2.2 known
  exact ⟨Sample.setsUp, names, fields Sample.title (by decide +kernel)⟩

/-! ## A title of another pool -/

namespace Sample

/-- Titles are computed for items of another pool, which have none themselves. -/
def titledPool : Pool where
  tag := 1
  messages := [⟨"Item", [color]⟩, ⟨"Bases", [bases]⟩,
    ⟨"Titles", [{ values with kind := .message "Title" }]⟩, ⟨"Title", [title]⟩]

def titles : Service where
  pool := titledPool
  info := ⟨"Titles", [{ name := "Compute", input := "Bases", output := "Titles" }]⟩

def setUpTitles : List Builder.Step :=
  [.transport ⟨"http://items"⟩, .service items { methods := some ["Get"] },
   .relations titles [("Compute", { name := "title" })]]

def titledBuilder : Builder := (Builder.performAll {} setUpTitles).toOption.getD {}

theorem setsUpTitles : Builder.performAll {} setUpTitles = .ok titledBuilder :=
  Outcome.eq_ok_getD (by decide +kernel)

end Sample

/-- A builder takes a title for items of another pool. Then the item that clients ask for has two
fields of this name, and its own title cannot be selected. -/
theorem computed_title_hides_title_of_item :
    Builder.performAll {} Sample.setUpTitles = .ok Sample.titledBuilder ∧
    ∃ e ∈ Sample.titledBuilder.entryPoints, isWellKnown e.method.output.name = false ∧
      Sample.title ∈ e.method.output.fields ∧
      ¬((CatalogType.ofType Sample.titledBuilder.relations e.method.output).fields.map
        (·.name)).Nodup ∧
      ∃ r, (CatalogType.ofType Sample.titledBuilder.relations e.method.output).field? "title" =
        some (.ofRelation r) := by
  have hides : ∃ e ∈ Sample.titledBuilder.entryPoints, isWellKnown e.method.output.name = false ∧
      Sample.title ∈ e.method.output.fields ∧
      ∃ r ∈ relationsOf Sample.titledBuilder.relations e.method.output.name, r.name = "title" := by
    decide +kernel
  obtain ⟨e, he, plain, member, r, hr, named⟩ := hides
  have sound := (Builder.follows_of_performAll Sample.setsUpTitles).sound
  refine ⟨Sample.setsUpTitles, e, he, plain, member, ?_, r, ?_⟩
  · rw [CatalogType.names_ofType _ plain]
    intro distinct
    have apart := (List.nodup_append.mp distinct).2.2
    exact apart _ (List.mem_map_of_mem member) _ (List.mem_map_of_mem hr) named.symm
  · rw [← named]
    exact CatalogType.field?_relation sound plain hr

end Patchwork
