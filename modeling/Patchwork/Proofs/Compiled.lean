import Patchwork.Proofs.Levels
import Patchwork.Schema.Compile

/-!
# What masks are compiled to

A compiled schema has one field for each selection of its mask, at the same place. Params are
numbered through the whole schema, and a relation is the one that the catalog has under its name.
-/

namespace Patchwork
open Proto

/-- What can be selected of one type reaches only such types again. -/
def Closed (relations : List Relation) (Q : MessageType → Prop) : Prop :=
  ∀ t, Q t → ∀ f ∈ (CatalogType.ofType relations t).fields, ∀ u, f.element = .message u → Q u

theorem Closed.any (relations : List Relation) : Closed relations fun _ => True :=
  fun _ _ _ _ _ _ => trivial

section

variable (relations : List Relation) (Q : MessageType → Prop)

mutual
/-- The fields selected of a type, one for each selection of a mask. -/
inductive Selects : MessageType → List MaskField → List Selected → Prop
  | nil (t : MessageType) : Selects t [] []
  | cons {t : MessageType} {m : MaskField} {mask : List MaskField} {s : Selected}
      {fields : List Selected} (one : SelectsOne t m s) (rest : Selects t mask fields) :
      Selects t (m :: mask) (s :: fields)

/-- The field that one selection stands for. Inside a message the mask goes on with the type that
was described first under the message's name. -/
inductive SelectsOne : MessageType → MaskField → Selected → Prop
  | scalar {t : MessageType} {name path : String} {given : Option Json} {mask : List MaskField}
      {onError : Option ErrorPolicy} {f : CatalogField} {params : Option Params}
      {operations : List String} {e : ScalarType}
      (found : (CatalogType.ofType relations t).field? name = some f)
      (element : f.element = .scalar e) :
      SelectsOne t (.mk name given mask onError)
        (.mk { name := f.name, jsonName := f.jsonName, container := f.container,
               relation := f.relation, params, path, onError, operations } (.scalar e))
  | message {t u v : MessageType} {name path : String} {given : Option Json} {mask : List MaskField}
      {onError : Option ErrorPolicy} {f : CatalogField} {params : Option Params}
      {operations : List String} {fields : List Selected}
      (found : (CatalogType.ofType relations t).field? name = some f)
      (element : f.element = .message v) (known : Q u) (named : u.name = v.name)
      (inside : Selects u mask fields) :
      SelectsOne t (.mk name given mask onError)
        (.mk { name := f.name, jsonName := f.jsonName, container := f.container,
               relation := f.relation, params, path, onError, operations } (.message u.name fields))
end

end

mutual
/-- The params given in a shape, in the order of their numbers. -/
def Shape.params : Shape → List Params
  | .scalar _ => []
  | .message _ fields => paramsIn fields

def paramsIn : List Selected → List Params
  | [] => []
  | s :: rest => s.params ++ paramsIn rest

def Selected.params : Selected → List Params
  | .mk info shape => info.params.toList ++ shape.params
end

/-- Where two steps succeed one after the other, each of them does. -/
theorem run_bind_ok {σ α β : Type} {x : EStateM Failure σ α} {f : α → EStateM Failure σ β} {s s'' : σ}
    {b : β} (h : (x >>= f).run s = .ok b s'') :
    ∃ a s', x.run s = .ok a s' ∧ (f a).run s' = .ok b s'' := by
  rw [EStateM.run_bind] at h
  cases hx : x.run s with
  | error e s' => simp [hx] at h
  | ok a s' =>
    rw [hx] at h
    exact ⟨a, s', rfl, h⟩

namespace Compile

variable {relations : List Relation} {Q : MessageType → Prop}

/-- Each description is that of a type. -/
def Cataloged (relations : List Relation) (Q : MessageType → Prop) (c : Catalog) : Prop :=
  ∀ d ∈ c, ∃ u, Q u ∧ d = .ofType relations u

/-- What a step of compilation adds that gives the params. -/
structure Grown (relations : List Relation) (Q : MessageType → Prop) (s s' : Compilation)
    (new : List Params) : Prop where
  cataloged : Cataloged relations Q s'.catalog
  selections : s'.selections = s.selections + new.length
  numbered : new.map (·.selection) = List.range' s.selections new.length

theorem Grown.refl {s : Compilation} (h : Cataloged relations Q s.catalog) :
    Grown relations Q s s [] := ⟨h, rfl, rfl⟩

theorem Grown.trans {s s' s'' : Compilation} {new more : List Params}
    (h : Grown relations Q s s' new) (h' : Grown relations Q s' s'' more) :
    Grown relations Q s s'' (new ++ more) where
  cataloged := h'.cataloged
  selections := by rw [h'.selections, h.selections, List.length_append, Nat.add_assoc]
  numbered := by
    rw [List.map_append, h.numbered, h'.numbered, h.selections, List.length_append,
      List.range'_append_1]

theorem describe_spec {t : MessageType} {d : CatalogType} {s s' : Compilation}
    (h : (describe relations t).run s = .ok d s') (ht : Q t)
    (hs : Cataloged relations Q s.catalog) :
    Grown relations Q s s' [] ∧ ∃ u, Q u ∧ u.name = t.name ∧ d = .ofType relations u := by
  cases hf : s.catalog.type? t.name with
  | some d' =>
    simp only [describe, Catalog.describe, EStateM.run, hf] at h
    cases h
    obtain ⟨u, hu, rfl⟩ := hs _ (List.mem_of_find?_eq_some hf)
    have hn : (CatalogType.ofType relations u).name = t.name := by simpa using List.find?_some hf
    exact ⟨Grown.refl hs, u, hu, hn, rfl⟩
  | none =>
    simp only [describe, Catalog.describe, EStateM.run, hf] at h
    cases h
    refine ⟨⟨fun d hd => ?_, rfl, rfl⟩, t, ht, rfl, rfl⟩
    rcases List.mem_append.mp hd with hd | hd
    · exact hs d hd
    · exact ⟨t, ht, List.mem_singleton.mp hd⟩

theorem find_spec {c : CatalogType} {name path : String} {f : CatalogField} {s s' : Compilation}
    (h : (find c name path).run s = .ok f s') : c.field? name = some f ∧ s' = s := by
  unfold find at h
  cases hf : c.field? name with
  | none =>
    rw [hf] at h
    cases h
  | some g =>
    rw [hf] at h
    cases h
    exact ⟨rfl, rfl⟩

/-- Params are numbered when they are given. -/
theorem paramsOf_spec {f : CatalogField} {given : Option Json} {path : String} {o : Option Params}
    {s s' : Compilation} (h : (paramsOf f given path).run s = .ok o s')
    (hs : Cataloged relations Q s.catalog) : Grown relations Q s s' o.toList := by
  unfold paramsOf at h
  split at h
  · cases h
    exact Grown.refl hs
  · split at h
    · cases h
      exact Grown.refl hs
    · split at h
      · cases h
      · split at h
        · cases h
        · cases h
          exact ⟨hs, rfl, rfl⟩

mutual
theorem selectOne_spec (hQ : Closed relations Q) : ∀ (m : MaskField) {t : MessageType}
    {place : Place} {x : Selected} {s s' : Compilation}, Q t → place.relations = relations →
    Cataloged relations Q s.catalog →
    (selectOne place (.ofType relations t) m).run s = .ok x s' →
    SelectsOne relations Q t m x ∧ Grown relations Q s s' x.params
  | .mk name given mask onError, t, place, x, s, s', ht, hp, hs, h => by
    unfold selectOne at h
    obtain ⟨f, s₁, hf, h₁⟩ := run_bind_ok h
    obtain ⟨found, rfl⟩ := find_spec hf
    dsimp only at h₁
    obtain ⟨o, s₂, ho, h₂⟩ := run_bind_ok h₁
    have hg := paramsOf_spec ho hs
    have hr : (place.enter f name).relations = relations := hp
    cases he : f.element with
    | scalar e =>
      rw [he] at h₂
      cases h₂
      exact ⟨.scalar found he, by simpa [Selected.params, Shape.params] using hg⟩
    | message v =>
      rw [he] at h₂
      obtain ⟨d, s₃, hd, h₃⟩ := run_bind_ok h₂
      obtain ⟨fields, s₄, hfields, h₄⟩ := run_bind_ok h₃
      cases h₄
      have hv : Q v := hQ t ht f (List.mem_reverse.mp (List.mem_of_find?_eq_some found)) v he
      rw [hr] at hd
      obtain ⟨hg₁, u, hu, hn, rfl⟩ := describe_spec hd hv hg.cataloged
      obtain ⟨hi, hg₂⟩ := select_spec hQ mask hu hr hg₁.cataloged hfields
      refine ⟨.message found he hu hn hi, ?_⟩
      have hg₃ := hg.trans (hg₁.trans hg₂)
      simpa [Selected.params, Shape.params] using hg₃

/-- Compilation follows the mask through the types. -/
theorem select_spec (hQ : Closed relations Q) : ∀ (mask : List MaskField) {t : MessageType}
    {place : Place} {fields : List Selected} {s s' : Compilation}, Q t →
    place.relations = relations → Cataloged relations Q s.catalog →
    (select place (.ofType relations t) mask).run s = .ok fields s' →
    Selects relations Q t mask fields ∧ Grown relations Q s s' (paramsIn fields)
  | [], t, place, fields, s, s', ht, hp, hs, h => by
    unfold select at h
    cases h
    exact ⟨.nil t, Grown.refl hs⟩
  | m :: mask, t, place, fields, s, s', ht, hp, hs, h => by
    unfold select at h
    obtain ⟨x, s₁, hx, h₁⟩ := run_bind_ok h
    obtain ⟨xs, s₂, hxs, h₂⟩ := run_bind_ok h₁
    cases h₂
    obtain ⟨ho, hg⟩ := selectOne_spec hQ m ht hp hs hx
    obtain ⟨hr, hg'⟩ := select_spec hQ mask ht hp hg.cataloged hxs
    exact ⟨.cons ho hr, hg.trans hg'⟩
end

end Compile

mutual
/-- How many fields a mask selects, at any depth. -/
def MaskField.selections : MaskField → Nat
  | .mk _ _ mask _ => 1 + Patchwork.selections mask

def selections : List MaskField → Nat
  | [] => 0
  | m :: rest => m.selections + selections rest
end

section

variable {relations : List Relation} {Q : MessageType → Prop}

mutual
theorem SelectsOne.relationCount_le : ∀ (m : MaskField) {t : MessageType} {s : Selected},
    SelectsOne relations Q t m s → s.relationCount ≤ m.selections
  | .mk name given mask onError, t, s, h => by
    cases h with
    | scalar found element =>
      simp only [Selected.relationCount, Shape.relationCount, MaskField.selections]
      split <;> omega
    | message found element known named inside =>
      have hi := Selects.relationCount_le mask inside
      simp only [Selected.relationCount, Shape.relationCount, MaskField.selections]
      split <;> omega

/-- Some of the selections of a mask are of relations. -/
theorem Selects.relationCount_le : ∀ (mask : List MaskField) {t : MessageType}
    {fields : List Selected}, Selects relations Q t mask fields → relationCount fields ≤ selections mask
  | [], t, fields, h => by
    cases h
    exact Nat.le_refl _
  | m :: mask, t, fields, h => by
    cases h with
    | cons one rest =>
      have ho := SelectsOne.relationCount_le m one
      have hr := Selects.relationCount_le mask rest
      simp only [relationCount, selections]
      omega
end

end

/-- A schema that was compiled from a mask. -/
theorem compileMask_spec {Q : MessageType → Prop} {t : MessageType} {mask : List MaskField}
    {place : Compile.Place} {schema : Schema} (hQ : Closed place.relations Q) (ht : Q t)
    (h : compileMask t mask place = .ok schema) :
    (∃ u, Q u ∧ u.name = t.name ∧ Selects place.relations Q u mask schema.fields) ∧
      (paramsIn schema.fields).map (·.selection) =
        List.range' 0 (paramsIn schema.fields).length := by
  have hc : Compile.Cataloged place.relations Q ({} : Compilation).catalog := by
    intro d hd
    cases hd
  unfold compileMask at h
  split at h
  · next x s' hs =>
    cases h
    obtain ⟨c, s₁, hd, h₁⟩ := run_bind_ok hs
    obtain ⟨fields, s₂, hf, h₂⟩ := run_bind_ok h₁
    cases h₂
    obtain ⟨hg, u, hu, hn, rfl⟩ := Compile.describe_spec hd ht hc
    obtain ⟨hi, hg'⟩ := Compile.select_spec hQ mask hu rfl hg.cataloged hf
    exact ⟨⟨u, hu, hn, hi⟩, (hg.trans hg').numbered⟩
  · cases h

/-! ## A small catalog

Items with a title and, as a relation, the item that each one is part of.
-/

theorem Outcome.eq_ok_getD {x : Outcome α} {a : α} (h : x.toOption.isSome = true) :
    x = .ok (x.toOption.getD a) := by
  cases x with
  | ok => rfl
  | error => cases h

theorem Outcome.exists_of_any {x : Outcome α} {P : α → Bool} (h : x.toOption.any P = true) :
    ∃ a, x = .ok a ∧ P a = true := by
  cases x with
  | ok a => exact ⟨a, rfl, h⟩
  | error e => cases h

namespace Sample

def title : Field where
  name := "title"
  jsonName := "title"
  number := 1
  kind := .scalar .string
  arity := .single false
  fallback := .string ""

def parent : Field where
  name := "parent"
  jsonName := "parent"
  number := 1
  kind := .message "Item"
  arity := .single true

def bases : Field where
  name := "bases"
  jsonName := "bases"
  number := 1
  kind := .message "Item"
  arity := .list false

def values : Field where
  name := "values"
  jsonName := "values"
  number := 1
  kind := .message "Parent"
  arity := .list false

def pool : Pool where
  messages := [⟨"Item", [title]⟩, ⟨"Parent", [parent]⟩, ⟨"Bases", [bases]⟩, ⟨"Parents", [values]⟩]

def item : MessageType := ⟨pool, ⟨"Item", [title]⟩⟩

def relation : Relation where
  base := item
  bases := bases
  values := values
  field := parent
  params := none
  name := "parent"
  method := ⟨pool, "Items", { name := "Parents", input := "Bases", output := "Parents" }⟩
  resolver := .custom "parents"

def place : Compile.Place := ⟨[relation], "Items.Get", []⟩

/-- The title of an item and of the one it is part of, whose failures go in its place. -/
def mask : List MaskField :=
  [.mk "title" none [] none, .mk "parent" none [.mk "title" none [] none] (some .embed)]

def schema : Schema := (compileMask item mask place).toOption.getD ⟨"", []⟩

theorem compiles : compileMask item mask place = .ok schema := Outcome.eq_ok_getD (by decide +kernel)

/-- The titles of all items of a list, of those that they are part of and of those that these are part
of. -/
def nested : List MaskField :=
  [.mk "bases" none [.mk "title" none [] none, .mk "parent" none mask (some .embed)] none]

def nestedSchema : Schema :=
  (compileMask (pool.message "Bases") nested place).toOption.getD ⟨"", []⟩

theorem compiles_nested : compileMask (pool.message "Bases") nested place = .ok nestedSchema :=
  Outcome.eq_ok_getD (by decide +kernel)

/-- An item of the given title. -/
def itemOf (text : String) : Message := .mk item [(1, .scalar (.string text))] []

/-- A list of items of the given titles. -/
def basesOf (texts : List String) : Message :=
  .mk (pool.message "Bases") [(1, .list (texts.map fun text => .message (itemOf text)))] []

end Sample
end Patchwork
