import Patchwork.Proofs.OnePool

/-!
# Transparency of the catalog

Compilation describes a type when it first meets the type's name. This is as good as describing
each type where it is met, if types of one name that the mask leads to have one description. The
types of one pool do. Those of two pools need not, and then a mask is read against fields that the
values under it do not have.
-/

namespace Patchwork
open Proto

namespace Compile

mutual
/-- What a mask selects of a type when each type is described where it is met. -/
def selectAfresh (place : Place) (t : MessageType) : List MaskField → Compile (List Selected)
  | [] => pure []
  | m :: rest => do
    let s ← selectOneAfresh place t m
    return s :: (← selectAfresh place t rest)

def selectOneAfresh (place : Place) (t : MessageType) : MaskField → Compile Selected
  | .mk name given mask onError => do
    let f ← find (.ofType place.relations t) name (Place.join place.path name)
    let inner := place.enter f name
    let params ← paramsOf f given inner.path
    let shape ← match f.element with
      | .scalar s => pure (Shape.scalar s)
      | .message u => do pure (Shape.message u.name (← selectAfresh inner u mask))
    return .mk { name := f.name, jsonName := f.jsonName, container := f.container,
                 relation := f.relation, params, path := inner.path, onError,
                 operations := inner.operations } shape
end

/-- What a step gives from a state on, without the state that it leaves. -/
def outcome (x : Compile α) (s : Compilation) : Outcome α :=
  match x.run s with
  | .ok a _ => .ok a
  | .error e _ => .error e

end Compile

theorem compileMask_eq_outcome (t : MessageType) (mask : List MaskField) (place : Compile.Place) :
    compileMask t mask place = (Compile.schema t mask place).outcome {} := by
  unfold compileMask Compile.outcome EStateM.run
  cases Compile.schema t mask place {} <;> rfl

/-- Compiles one mask without a catalog. -/
def compileAfresh (t : MessageType) (mask : List MaskField) (place : Compile.Place) : Outcome Schema :=
  Compile.outcome (do return ⟨t.name, ← Compile.selectAfresh place t mask⟩) {}

/-- The types that a mask for one type leads to, through fields and relations. -/
inductive Visits (relations : List Relation) : MessageType → List MaskField → MessageType → Prop
  | self (t : MessageType) (mask : List MaskField) : Visits relations t mask t
  | inside {t u v : MessageType} {mask inner : List MaskField} {name : String} {given : Option Json}
      {onError : Option ErrorPolicy} {f : CatalogField} (selected : .mk name given inner onError ∈ mask)
      (found : (CatalogType.ofType relations t).field? name = some f) (element : f.element = .message u)
      (visits : Visits relations u inner v) : Visits relations t mask v

theorem Visits.mono {relations : List Relation} {t u : MessageType} {mask mask' : List MaskField}
    (h : Visits relations t mask u) (sub : mask ⊆ mask') : Visits relations t mask' u := by
  cases h with
  | self => exact .self ..
  | inside selected found element visits => exact .inside (sub selected) found element visits

/-- Types of one name that a mask leads to have one description. -/
def OneDescription (relations : List Relation) (t : MessageType) (mask : List MaskField) : Prop :=
  ∀ u v, Visits relations t mask u → Visits relations t mask v → u.name = v.name →
    CatalogType.ofType relations u = CatalogType.ofType relations v

namespace Compile

variable {relations : List Relation} {V : MessageType → Prop}

/-- Two results of a step are the same, but for the catalogs. The first catalog has descriptions of
types with the property. -/
inductive Agree (relations : List Relation) (V : MessageType → Prop) :
    EStateM.Result Failure Compilation α → EStateM.Result Failure Compilation α → Prop
  | ok {a : α} {s s' : Compilation} (cataloged : Cataloged relations V s.catalog)
      (selections : s.selections = s'.selections) : Agree relations V (.ok a s) (.ok a s')
  | error (e : Failure) (s s' : Compilation) : Agree relations V (.error e s) (.error e s')

/-- Two steps do the same whatever is in their catalogs. -/
def Agrees (relations : List Relation) (V : MessageType → Prop) (x y : Compile α) : Prop :=
  ∀ s s', Cataloged relations V s.catalog → s.selections = s'.selections →
    Agree relations V (x.run s) (y.run s')

namespace Agrees

theorem pure (a : α) : Agrees relations V (Pure.pure a) (Pure.pure a) :=
  fun _ _ hs hn => .ok hs hn

theorem throw (e : Failure) : Agrees relations V (MonadExcept.throw e : Compile α)
    (MonadExcept.throw e) :=
  fun s s' _ _ => .error e s s'

theorem bind {x y : Compile α} {f g : α → Compile β} (h : Agrees relations V x y)
    (hf : ∀ a, Agrees relations V (f a) (g a)) : Agrees relations V (x >>= f) (y >>= g) := by
  intro s s' hs hn
  rw [EStateM.run_bind, EStateM.run_bind]
  have hr := h s s' hs hn
  generalize x.run s = r at hr
  generalize y.run s' = r' at hr
  cases hr with
  | ok cataloged selections => exact hf _ _ _ cataloged selections
  | error e t t' => exact .error e t t'

theorem number (m : Message) : Agrees relations V (number m) (number m) := by
  intro s s' hs hn
  simp only [Compile.number, EStateM.run, hn]
  exact .ok hs rfl

theorem paramsOf (f : CatalogField) (given : Option Json) (path : String) :
    Agrees relations V (paramsOf f given path) (paramsOf f given path) := by
  unfold Compile.paramsOf
  split
  · exact pure none
  · split
    · exact pure none
    · split
      · exact throw _
      · split
        · exact throw _
        · exact (number _).bind fun _ => pure _

theorem find {c : CatalogType} {name path : String} {f g : CatalogField → Compile α}
    (hf : ∀ a, c.field? name = some a → Agrees relations V (f a) (g a)) :
    Agrees relations V (find c name path >>= f) (find c name path >>= g) := by
  unfold Compile.find
  cases hc : c.field? name with
  | none => exact fun s s' _ _ => .error _ s s'
  | some a => exact hf a hc

/-- A type whose name has one description is described by that one. -/
theorem describe {t : MessageType} {f : CatalogType → Compile α} {y : Compile α} (ht : V t)
    (hV : ∀ u, V u → u.name = t.name → CatalogType.ofType relations u = .ofType relations t)
    (hf : Agrees relations V (f (.ofType relations t)) y) :
    Agrees relations V (describe relations t >>= f) y := by
  intro s s' hs hn
  rw [EStateM.run_bind]
  cases hd : (Compile.describe relations t).run s with
  | error e s₁ => cases hd
  | ok d s₁ =>
    obtain ⟨grown, u, hu, named, rfl⟩ := describe_spec hd ht hs
    rw [hV u hu named]
    exact hf s₁ s' grown.cataloged (grown.selections.trans hn)

theorem outcome {x y : Compile α} (h : Agrees relations V x y) {s s' : Compilation}
    (hs : Cataloged relations V s.catalog) (hn : s.selections = s'.selections) :
    x.outcome s = y.outcome s' := by
  unfold Compile.outcome
  have hr := h s s' hs hn
  generalize x.run s = r at hr
  generalize y.run s' = r' at hr
  cases hr <;> rfl

end Agrees

mutual
theorem agrees_selectOne
    (hV : ∀ u v, V u → V v → u.name = v.name → CatalogType.ofType relations u = .ofType relations v) :
    ∀ (m : MaskField) {t : MessageType} {place : Place}, place.relations = relations →
      (∀ u, Visits relations t [m] u → V u) →
      Agrees relations V (selectOne place (.ofType relations t) m) (selectOneAfresh place t m)
  | .mk name given mask onError, t, place, hp, hm => by
    unfold selectOne selectOneAfresh
    rw [hp]
    refine .find fun f hf => .bind (.paramsOf _ _ _) fun params => ?_
    have hr : (place.enter f name).relations = relations := hp
    cases he : f.element with
    | scalar e => exact .pure _
    | message v =>
      have inside : ∀ u, Visits relations v mask u → V u := fun u hu =>
        hm u (.inside (List.mem_singleton_self _) hf he hu)
      have hv := inside v (.self v mask)
      dsimp only
      rw [hr]
      refine .describe hv (fun u hu named => hV u v hu hv named) ?_
      exact .bind (agrees_select hV mask hr inside) fun _ => .pure _

/-- Describing each type where it is met makes no difference while its name has one description. -/
theorem agrees_select
    (hV : ∀ u v, V u → V v → u.name = v.name → CatalogType.ofType relations u = .ofType relations v) :
    ∀ (mask : List MaskField) {t : MessageType} {place : Place}, place.relations = relations →
      (∀ u, Visits relations t mask u → V u) →
      Agrees relations V (select place (.ofType relations t) mask) (selectAfresh place t mask)
  | [], t, place, hp, hm => by
    unfold select selectAfresh
    exact .pure []
  | m :: mask, t, place, hp, hm => by
    unfold select selectAfresh
    have one : ∀ u, Visits relations t [m] u → V u := fun u hu =>
      hm u (hu.mono fun x hx => List.mem_singleton.mp hx ▸ List.mem_cons_self ..)
    have rest : ∀ u, Visits relations t mask u → V u := fun u hu =>
      hm u (hu.mono fun x hx => List.mem_cons_of_mem _ hx)
    refine .bind (agrees_selectOne hV m hp one) fun _ => ?_
    exact .bind (agrees_select hV mask hp rest) fun _ => .pure _
end

end Compile

/-! ## Types of one pool -/

theorem Visits.of_closed {relations : List Relation} {Q : MessageType → Prop}
    (hQ : Closed relations Q) {t u : MessageType} {mask : List MaskField}
    (h : Visits relations t mask u) (ht : Q t) : Q u := by
  induction h with
  | self => exact ht
  | inside _ found element _ ih =>
    exact ih (hQ _ ht _ (List.mem_reverse.mp (List.mem_of_find?_eq_some found)) _ element)

/-- A gateway over one pool has one description for each name. -/
theorem oneDescription_of_pool {pool : Pool} {relations : List Relation}
    (h : ∀ r ∈ relations, r.method.pool = pool) {t : MessageType} (ht : pool.Has t)
    (mask : List MaskField) : OneDescription relations t mask := by
  intro u v hu hv named
  have hu := hu.of_closed (Pool.closed_has h) ht
  have hv := hv.of_closed (Pool.closed_has h) ht
  rw [hu.eq hv named]

/-- While types of one name that a mask leads to have one description, compilation with a catalog
gives the schema or the error that it gives without one. What it gives for one selection does not
depend on the types that were described for those before it. -/
theorem catalog_is_transparent {t : MessageType} {mask : List MaskField} {place : Compile.Place}
    (h : OneDescription place.relations t mask) :
    compileMask t mask place = compileAfresh t mask place ∧
    ∀ before m after, mask = before ++ m :: after → ∀ fields s,
      (Compile.describe place.relations t >>= fun c => Compile.select place c before).run {} =
        .ok fields s →
      (Compile.selectOne place (.ofType place.relations t) m).outcome s =
        (Compile.selectOneAfresh place t m).outcome { selections := s.selections } := by
  have empty : Compile.Cataloged place.relations (Visits place.relations t mask) [] :=
    fun d hd => absurd hd List.not_mem_nil
  have root : Visits place.relations t mask t := .self t mask
  constructor
  · rw [compileMask_eq_outcome]
    have schema : Compile.Agrees place.relations (Visits place.relations t mask)
        (Compile.schema t mask place) (do return ⟨t.name, ← Compile.selectAfresh place t mask⟩) := by
      refine .describe root (fun u hu named => h u t hu root named) ?_
      exact .bind (Compile.agrees_select h mask rfl fun u hu => hu) fun _ => .pure _
    exact schema.outcome empty rfl
  · rintro before m after rfl fields s hs
    have earlier : Compile.Agrees place.relations (Visits place.relations t (before ++ m :: after))
        (Compile.describe place.relations t >>= fun c => Compile.select place c before)
        (Compile.selectAfresh place t before) := by
      refine .describe root (fun u hu named => h u t hu root named) ?_
      exact Compile.agrees_select h before rfl fun u hu => hu.mono (List.subset_append_left ..)
    have one : Compile.Agrees place.relations (Visits place.relations t (before ++ m :: after))
        (Compile.selectOne place (.ofType place.relations t) m) (Compile.selectOneAfresh place t m) := by
      refine Compile.agrees_selectOne h m rfl fun u hu => hu.mono fun x hx => ?_
      exact List.mem_singleton.mp hx ▸ List.mem_append_right _ (List.mem_cons_self ..)
    have reached := earlier {} {} empty rfl
    rw [hs] at reached
    generalize (Compile.selectAfresh place t before).run {} = r at reached
    cases reached with
    | ok cataloged _ => exact one.outcome cataloged rfl

theorem Sample.pool_has_item : Sample.pool.Has Sample.item := rfl

/-- The title of an item and of its parent. The catalog has items from the first step on. -/
theorem catalog_is_transparent_for_items :
    OneDescription Sample.place.relations Sample.item Sample.mask ∧
      compileAfresh Sample.item Sample.mask Sample.place = .ok Sample.schema := by
  have pools : ∀ r ∈ Sample.place.relations, r.method.pool = Sample.pool := by
    intro r hr
    rw [List.mem_singleton.mp hr]
    rfl
  have described := oneDescription_of_pool pools Sample.pool_has_item Sample.mask
  exact ⟨described, (catalog_is_transparent described).1 ▸ Sample.compiles⟩

/-! ## Items of two pools -/

namespace Sample

def color : Field :=
  { title with name := "color", jsonName := "color", number := 2 }

/-- Items with a color in place of the title. -/
def palette : Pool :=
  { tag := 1, messages := ⟨"Item", [color]⟩ :: pool.messages.tail }

def colors : Service where
  pool := palette
  info := ⟨"Colors", [{ name := "Parents", input := "Bases", output := "Parents" }]⟩

/-- Builds a gateway to the items whose parents are items of the other pool. -/
def assembleTwo : Outcome Gateway := do
  let b := ({} : Builder).withTransport ⟨"http://items"⟩
  let b ← b.registerService items { methods := some ["Get"] }
  let b ← b.registerRelation colors "Parents" { name := "parent" }
  b.build

def gatewayOfTwo : Gateway := assembleTwo.toOption.getD {}

theorem assemblesTwo : assembleTwo = .ok gatewayOfTwo := Outcome.eq_ok_getD (by decide +kernel)

/-- One field of the parent. -/
def ofParent (name : String) : List MaskField := [.mk "parent" none [.mk name none [] none] none]

def placeOfTwo : Compile.Place :=
  ⟨gatewayOfTwo.relations, "Items.Get", [Verb.fetch.operation, "Items.Get"]⟩

end Sample

/-- A builder accepts relations of another pool. Then the catalog, which has the item asked for,
takes a title for a field of the parent, but not its color. By the parent's own description it is the
other way round. -/
theorem catalog_confuses_items_of_two_pools :
    Sample.assembleTwo = .ok Sample.gatewayOfTwo ∧
    (compileMask (Sample.store.message "Item") (Sample.ofParent "title")
      Sample.placeOfTwo).toOption.isSome ∧
    compileAfresh (Sample.store.message "Item") (Sample.ofParent "title") Sample.placeOfTwo =
      .error (.invalidArgument (.noField "Items.Get.parent.title")) ∧
    compileMask (Sample.store.message "Item") (Sample.ofParent "color") Sample.placeOfTwo =
      .error (.invalidArgument (.noField "Items.Get.parent.color")) ∧
    (compileAfresh (Sample.store.message "Item") (Sample.ofParent "color")
      Sample.placeOfTwo).toOption.isSome := by
  refine ⟨Sample.assemblesTwo, by decide +kernel, ?_, ?_, by decide +kernel⟩
  · exact Outcome.failure?_eq_some.mp (by decide +kernel)
  · exact Outcome.failure?_eq_some.mp (by decide +kernel)

end Patchwork
