import Mathlib.Data.List.Nodup
import Patchwork.Proofs.Compiled
import Patchwork.Proofs.Direct

/-!
# Typed values

When messages and the values of relations are of their declared types, what is selected of them is
there in the shape that the schema says. Then the direct recursion succeeds, if the well-known
messages that it meets have a JSON form.
-/

namespace Patchwork
open Proto

theorem Proto.Pool.name_message (pool : Pool) (name : String) : (pool.message name).name = name := by
  unfold Pool.message Pool.message?
  cases h : pool.messages.find? (·.name == name) with
  | none => rfl
  | some info =>
    have hn : info.name = name := by simpa using List.find?_some h
    exact hn

mutual
/-- A value that stands alone, in a list or in a map, and is of the given kind. -/
inductive Proto.Value.Holds : Pool → Kind → Value → Prop
  | scalar (pool : Pool) (k : ScalarKind) (s : Scalar) : Value.Holds pool (.scalar k) (.scalar s)
  | enum (pool : Pool) (name : String) (s : Scalar) : Value.Holds pool (.enum name) (.scalar s)
  | message {pool : Pool} {name : String} {m : Message} (type : m.type = pool.message name)
      (typed : m.WellTyped) : Value.Holds pool (.message name) (.message m)

/-- A value of a field. -/
inductive Proto.Value.Fits : Pool → Field → Value → Prop
  | single {pool : Pool} {f : Field} {v : Value} {tracked : Bool} (arity : f.arity = .single tracked)
      (holds : v.Holds pool f.kind) : Value.Fits pool f v
  | list {pool : Pool} {f : Field} {items : List Value} {packed : Bool} (arity : f.arity = .list packed)
      (holds : ∀ v ∈ items, v.Holds pool f.kind) : Value.Fits pool f (.list items)
  | map {pool : Pool} {f : Field} {entries : List (Key × Value)} {key : ScalarKind} {tracked : Bool}
      (arity : f.arity = .map key tracked) (holds : ∀ e ∈ entries, e.2.Holds pool f.kind) :
      Value.Fits pool f (.map entries)

/-- The fields of a message hold values of theirs, at any depth. -/
inductive Proto.Message.WellTyped : Message → Prop
  | mk {m : Message} (fields : ∀ g ∈ m.type.fields, ∀ v, m.value? g = some v →
      Value.Fits m.type.pool g v) : Message.WellTyped m
end

/-- Types of one name among those with the property have the same fields, though they may be of
different pools, and the fields of each are told apart by their names. -/
structure Unambiguous (relations : List Relation) (Q : MessageType → Prop) : Prop where
  closed : Closed relations Q
  same : ∀ t u, Q t → Q u → t.name = u.name → t.fields = u.fields
  names : ∀ t, Q t → (t.fields.map (·.name)).Nodup

/-- The values that stand in a value: the items of a list, the values of a map, or itself. -/
def Proto.Value.parts : Value → List Value
  | .list items => items
  | .map entries => entries.map (·.2)
  | v => [v]

theorem Proto.Value.Holds.parts {pool : Pool} {k : Kind} {v : Value} (h : v.Holds pool k) :
    v.parts = [v] := by
  cases h <;> rfl

/-- The value of a field is stored, or it is that of an unset list or map. -/
theorem Proto.Message.value?_cases {m : Message} {f : Field} {v : Value} (h : m.value? f = some v) :
    m.stored? f = some v ∨ (∃ packed, f.arity = .list packed ∧ v = .list []) ∨
      ∃ key tracked, f.arity = .map key tracked ∧ v = .map [] := by
  unfold value? at h
  split at h
  · next there =>
    cases h
    unfold get
    cases hs : m.stored? f with
    | some w => exact .inl rfl
    | none =>
      unfold Field.default
      cases ha : f.arity with
      | list packed => exact .inr (.inl ⟨packed, rfl, rfl⟩)
      | map key tracked => exact .inr (.inr ⟨key, tracked, rfl, rfl⟩)
      | single tracked => simp [Field.isList, Field.isMap, has, hs, ha] at there
  · cases h

namespace Direct

/-- The relations have values of their fields, if any, for objects that they extend. -/
def Resolver.Typed (f : Resolver) (relations : List Relation) (Q : MessageType → Prop) : Prop :=
  ∀ r ∈ relations, ∀ params base v, Q base.type → base.type.name = r.base.name → base.WellTyped →
    f r params base = some v → v.Fits r.method.pool r.field

/-- The value of a selected field in a message, computed or its own. -/
def value? (f : Resolver) (m : Message) (s : Selected) : Option Value :=
  match s.info.relation with
  | some r => f r (s.info.params.map (·.message)) m
  | none => (m.type.field? s.info.name).bind m.value?

/-- The messages that the direct recursion meets. It does not go into well-known ones. -/
inductive Met (f : Resolver) : Message → List Selected → Message → Prop
  | self (m : Message) (fields : List Selected) : Met f m fields m
  | inside {m y z : Message} {fields inner : List Selected} {info : Selection} {name : String}
      {v : Value} (plain : isWellKnown m.type.name = false)
      (selected : .mk info (.message name inner) ∈ fields)
      (value : value? f m (.mk info (.message name inner)) = some v) (part : .message y ∈ v.parts)
      (met : Met f y inner z) : Met f m fields z

/-- Each well-known message that is met has a JSON form. -/
def Printable (f : Resolver) (m : Message) (fields : List Selected) : Prop :=
  ∀ z, Met f m fields z → isWellKnown z.type.name = true → ∃ j, z.print = .ok j

theorem Printable.inside {f : Resolver} {m y : Message} {fields inner : List Selected}
    {info : Selection} {name : String} {v : Value} (h : Printable f m fields)
    (plain : isWellKnown m.type.name = false) (selected : .mk info (.message name inner) ∈ fields)
    (value : value? f m (.mk info (.message name inner)) = some v) (part : .message y ∈ v.parts) :
    Printable f y inner :=
  fun z hz => h z (.inside plain selected value part hz)

theorem Printable.wellKnown {f : Resolver} {m : Message} {fields : List Selected}
    (h : Printable f m fields) (hm : isWellKnown m.type.name = true) :
    ∃ j, Direct.wellKnown m = .ok j := by
  obtain ⟨j, hj⟩ := h m (.self m fields) hm
  exact ⟨j, by rw [Direct.wellKnown, hj]⟩

end Direct

/-! ## Results that are there -/

theorem Outcome.bind_isOk {α β : Type} {x : Outcome α} {g : α → Outcome β} (hx : ∃ a, x = .ok a)
    (hg : ∀ a, ∃ b, g a = .ok b) : ∃ b, x >>= g = .ok b := by
  obtain ⟨a, rfl⟩ := hx
  exact hg a

theorem Outcome.mapM_isOk {α β : Type} {g : α → Outcome β} {xs : List α}
    (h : ∀ x ∈ xs, ∃ y, g x = .ok y) : ∃ ys, xs.mapM g = .ok ys := by
  induction xs with
  | nil => exact ⟨[], rfl⟩
  | cons x rest ih =>
    rw [List.mapM_cons]
    refine bind_isOk (h x (List.mem_cons_self ..)) fun y => ?_
    exact bind_isOk (ih fun z hz => h z (List.mem_cons_of_mem _ hz)) fun ys => ⟨_, rfl⟩

/-- A value of a field stands in the field's container. -/
theorem Proto.Value.Fits.contain {pool : Pool} {g : Field} {v : Value} {y : Bool → Value → Outcome Json}
    (hv : v.Fits pool g) (named : Field)
    (hy : ∀ inside, ∀ x ∈ v.parts, x.Holds pool g.kind → ∃ j, y inside x = .ok j) :
    ∃ j, Direct.contain (.ofArity g.arity) named v y = .ok j := by
  cases hv with
  | single arity holds =>
    rw [arity]
    exact hy false v (holds.parts ▸ List.mem_singleton_self _) holds
  | list arity holds =>
    rw [arity]
    refine Outcome.bind_isOk (Outcome.mapM_isOk fun x hx => ?_) fun _ => ⟨_, rfl⟩
    exact hy true x hx (holds x hx)
  | map arity holds =>
    rw [arity]
    refine Outcome.bind_isOk (Outcome.mapM_isOk fun e he => ?_) fun _ => ⟨_, rfl⟩
    have hm := (List.mergeSort_perm _ _).mem_iff.mp he
    have hp := hy true e.2 (List.mem_map_of_mem hm) (holds e hm)
    exact Outcome.bind_isOk hp fun _ => ⟨_, rfl⟩

/-! ## Typed messages -/

/-- A message that can be read as one of the type `t`. -/
structure ReadsAs (Q : MessageType → Prop) (t : MessageType) (x : Message) : Prop where
  known : Q x.type
  name : x.type.name = t.name
  typed : x.WellTyped

section

variable {f : Direct.Resolver} {relations : List Relation} {Q : MessageType → Prop}

/-- A field of the type is one of the message's. -/
theorem ReadsAs.field? {t : MessageType} {x : Message} {g : Field} (hx : ReadsAs Q t x)
    (hQ : Unambiguous relations Q) (ht : Q t) (hg : g ∈ t.fields) :
    g ∈ x.type.fields ∧ x.type.field? g.name = some g := by
  have hfields : x.type.fields = t.fields := hQ.same _ _ hx.known ht hx.name
  refine ⟨hfields ▸ hg, ?_⟩
  rw [MessageType.field?, hfields]
  cases hg' : t.fields.find? (·.name == g.name) with
  | none => exact absurd (List.find?_eq_none.mp hg' g hg) (by simp)
  | some g' =>
    have hn : g'.name = g.name := by simpa using List.find?_some hg'
    rw [List.inj_on_of_nodup_map (hQ.names t ht) (List.mem_of_find?_eq_some hg') hg hn]

/-- The types of a message's fields are known. -/
theorem ReadsAs.closed {t : MessageType} {x : Message} {g : Field} (hx : ReadsAs Q t x)
    (hQ : Unambiguous relations Q) (plain : isWellKnown t.name = false) (hg : g ∈ x.type.fields) :
    ∀ u, Element.ofKind x.type.pool g.kind = .message u → Q u := by
  refine hQ.closed x.type hx.known (.ofField x.type.pool g) ?_
  rw [CatalogType.ofType, hx.name, plain, if_neg Bool.false_ne_true]
  exact List.mem_append_left _ (List.mem_map_of_mem hg)

/-- What a value of a kind is where the catalog says that it is a scalar. -/
theorem element_scalar {pool pool' : Pool} {k : Kind} {e : ScalarType} {v : Value}
    (he : Element.ofKind pool' k = .scalar e) (hv : v.Holds pool k) (e' : ScalarType)
    (inside : Bool) : ∃ j, Direct.element f pool k (.scalar e') inside v = .ok j := by
  unfold Direct.element
  cases hv with
  | scalar => exact ⟨_, rfl⟩
  | enum => exact ⟨_, rfl⟩
  | message => cases he

/-- And where it says that it is a message. -/
theorem element_message {pool pool' : Pool} {k : Kind} {t : MessageType} {v : Value} {name : String}
    {fields : List Selected} (he : Element.ofKind pool' k = .message t) (hv : v.Holds pool k)
    (hQ : ∀ u, Element.ofKind pool k = .message u → Q u) (inside : Bool)
    (hp : ∀ y, v = .message y → Direct.Printable f y fields)
    (hm : ∀ y, v = .message y → ReadsAs Q t y → isWellKnown y.type.name = false →
      ∃ ms, Direct.members f y fields = .ok ms) :
    ∃ j, Direct.element f pool k (.message name fields) inside v = .ok j := by
  unfold Direct.element
  cases hv with
  | scalar => cases he
  | enum => cases he
  | @message _ nm y type typed =>
    cases he
    dsimp only
    cases hw : isWellKnown y.type.name with
    | true => exact (hp y rfl).wellKnown hw
    | false =>
      have hy : ReadsAs Q (pool'.message nm) y := by
        refine ⟨type ▸ hQ _ rfl, ?_, typed⟩
        rw [type, Pool.name_message, Pool.name_message]
      exact Outcome.bind_isOk (hm y rfl hy hw) fun _ => ⟨_, rfl⟩

/-- What stands in the value of a selected field is rendered if it is of the element `e`. -/
def Suits (f : Direct.Resolver) (Q : MessageType → Prop) (x : Message) (info : Selection)
    (shape : Shape) (e : Element) : Prop :=
  ∀ v, Direct.value? f x (.mk info shape) = some v → ∀ pool pool' k inside, ∀ y ∈ v.parts,
    Element.ofKind pool' k = e → y.Holds pool k → (∀ u, Element.ofKind pool k = .message u → Q u) →
    ∃ j, Direct.element f pool k shape inside y = .ok j

/-- The entries of a catalog are the fields of the type and its relations. -/
theorem CatalogType.mem_fields {t : MessageType} {c : CatalogField}
    (h : c ∈ (CatalogType.ofType relations t).fields) : isWellKnown t.name = false ∧
      ((∃ g ∈ t.fields, c = .ofField t.pool g) ∨
        ∃ r ∈ relationsOf relations t.name, c = .ofRelation r) := by
  unfold CatalogType.ofType at h
  dsimp only at h
  split at h
  · cases h
  · next hw =>
    refine ⟨by simpa using hw, ?_⟩
    rcases List.mem_append.mp h with h | h
    · obtain ⟨g, hg, rfl⟩ := List.mem_map.mp h
      exact .inl ⟨g, hg, rfl⟩
    · obtain ⟨r, hr, rfl⟩ := List.mem_map.mp h
      exact .inr ⟨r, hr, rfl⟩

/-- A field that is selected of a type is an entry of the type's catalog. -/
structure Selected.IsOf (relations : List Relation) (t : MessageType) (s : Selected)
    (c : CatalogField) : Prop where
  listed : c ∈ (CatalogType.ofType relations t).fields
  name : s.info.name = c.name
  container : s.info.container = c.container
  relation : s.info.relation = c.relation

theorem CatalogType.isOf_of_field? {t : MessageType} {name path : String} {c : CatalogField}
    {params : Option Params} {onError : Option ErrorPolicy} {operations : List String} {shape : Shape}
    (found : (CatalogType.ofType relations t).field? name = some c) :
    Selected.IsOf relations t
      (.mk { name := c.name, jsonName := c.jsonName, container := c.container,
             relation := c.relation, params, path, onError, operations } shape) c :=
  ⟨List.mem_reverse.mp (List.mem_of_find?_eq_some found), rfl, rfl, rfl⟩

/-- What a selected field stands for in a message, a field of the message's own or a relation. What it
holds is of the element `e`. -/
inductive Selected.Stands (relations : List Relation) (Q : MessageType → Prop) (x : Message)
    (s : Selected) (e : Element) : Prop
  | own {pool : Pool} {g : Field} (plain : s.info.relation = none)
      (field : x.type.field? s.info.name = some g) (container : s.info.container = .ofArity g.arity)
      (element : Element.ofKind pool g.kind = e)
      (known : ∀ u, Element.ofKind x.type.pool g.kind = .message u → Q u)
      (fits : ∀ v, x.value? g = some v → v.Fits x.type.pool g) : Stands relations Q x s e
  | relation {r : Relation} (relation : s.info.relation = some r) (member : r ∈ relations)
      (base : r.base.name = x.type.name) (container : s.info.container = .ofArity r.field.arity)
      (element : Element.ofKind r.method.pool r.field.kind = e)
      (known : ∀ u, Element.ofKind r.method.pool r.field.kind = .message u → Q u) :
      Stands relations Q x s e

theorem Selected.IsOf.stands {t : MessageType} {s : Selected} {c : CatalogField} {x : Message}
    (h : s.IsOf relations t c) (hQ : Unambiguous relations Q) (ht : Q t) (hx : ReadsAs Q t x) :
    s.Stands relations Q x c.element := by
  obtain ⟨listed, name, container, relation⟩ := h
  have hclosed := hQ.closed t ht c listed
  obtain ⟨plain, ⟨g, hg, rfl⟩ | ⟨r, hr, rfl⟩⟩ := CatalogType.mem_fields listed
  · obtain ⟨hgx, hfield⟩ := hx.field? hQ ht hg
    have known := hx.closed hQ plain hgx
    obtain ⟨_, _, ⟨fields⟩⟩ := hx
    exact .own relation (name ▸ hfield) container rfl known (fields g hgx)
  · obtain ⟨member, base⟩ := List.mem_filter.mp hr
    have base : r.base.name = t.name := by simpa using base
    exact .relation relation member (base.trans hx.name.symm) container rfl hclosed

/-- A selected field is there, whether it is the message's own or a relation. -/
theorem Selected.Stands.member_isOk {x : Message} {info : Selection} {shape : Shape} {e : Element}
    (h : Selected.Stands relations Q x (.mk info shape) e) (hf : f.Typed relations Q) (hx : Q x.type)
    (typed : x.WellTyped) (he : Suits f Q x info shape e) :
    ∃ o, Direct.member f x (.mk info shape) = .ok o := by
  cases h with
  | @own pool g plain field container element known fits =>
    rw [info_mk] at plain field container
    unfold Direct.member
    simp only [plain, field]
    cases hv : x.value? g with
    | none => exact ⟨_, rfl⟩
    | some v =>
      have hvalue : Direct.value? f x (.mk info shape) = some v := by
        simp only [Direct.value?, info_mk, plain, field, Option.bind_some, hv]
      rw [container]
      refine Outcome.bind_isOk ((fits v hv).contain g fun inside y hy holds => ?_) fun _ => ⟨_, rfl⟩
      exact he v hvalue _ _ _ inside y hy element holds known
  | @relation r relation member base container element known =>
    rw [info_mk] at relation container
    unfold Direct.member
    simp only [relation]
    cases hv : f r (info.params.map (·.message)) x with
    | none => exact ⟨_, rfl⟩
    | some v =>
      have hvalue : Direct.value? f x (.mk info shape) = some v := by
        simp only [Direct.value?, info_mk, relation, hv]
      have fits := hf r member _ _ _ hx base.symm typed hv
      rw [container]
      refine Outcome.bind_isOk (fits.contain r.field fun inside y hy holds => ?_) fun _ => ⟨_, rfl⟩
      exact he v hvalue _ _ _ inside y hy element holds known

mutual
theorem SelectsOne.member_isOk (hQ : Unambiguous relations Q) (hf : f.Typed relations Q) :
    ∀ (m : MaskField) {t : MessageType} {s : Selected} {x : Message}, SelectsOne relations Q t m s →
      Q t → ReadsAs Q t x →
      (∀ info name inner v y, s = .mk info (.message name inner) → Direct.value? f x s = some v →
        .message y ∈ v.parts → Direct.Printable f y inner) →
      ∃ o, Direct.member f x s = .ok o
  | .mk name given mask onError, t, s, x, h, ht, hx, hp => by
    cases h with
    | scalar found element =>
      refine ((CatalogType.isOf_of_field? found).stands hQ ht hx).member_isOk hf hx.known hx.typed
        fun v _ pool pool' k inside y _ he holds _ => ?_
      exact element_scalar (he.trans element) holds _ inside
    | @message _ u w name path given mask onError c params operations fields found element known named
        inside =>
      refine ((CatalogType.isOf_of_field? found).stands hQ ht hx).member_isOk hf hx.known hx.typed
        fun v hv pool pool' k inner y hy he holds hQk => ?_
      refine element_message (he.trans element) holds hQk inner
        (fun z hz => hp _ _ _ v z rfl hv (hz ▸ hy)) fun z hz hread hw => ?_
      have hread : ReadsAs Q u z := ⟨hread.known, hread.name.trans named.symm, hread.typed⟩
      exact Selects.members_isOk hQ hf mask inside known hread hw (hp _ _ _ v z rfl hv (hz ▸ hy))

/-- What a mask selects of a typed message is rendered. -/
theorem Selects.members_isOk (hQ : Unambiguous relations Q) (hf : f.Typed relations Q) :
    ∀ (mask : List MaskField) {t : MessageType} {fields : List Selected} {x : Message},
      Selects relations Q t mask fields → Q t → ReadsAs Q t x → isWellKnown x.type.name = false →
      Direct.Printable f x fields → ∃ ms, Direct.members f x fields = .ok ms
  | [], t, fields, x, h, ht, hx, plain, hp => by
    cases h
    unfold Direct.members
    exact ⟨_, rfl⟩
  | m :: mask, t, fields, x, h, ht, hx, plain, hp => by
    cases h with
    | @cons _ _ _ s rest one more =>
      have hone := SelectsOne.member_isOk hQ hf m one ht hx fun info name inner v y hs hv hy => by
        subst hs
        exact hp.inside plain (List.mem_cons_self ..) hv hy
      have hp' : Direct.Printable f x rest := by
        intro z hz
        cases hz with
        | self => exact hp x (.self ..)
        | inside _ selected value part met =>
          exact hp z (.inside plain (List.mem_cons_of_mem _ selected) value part met)
      have hmore := Selects.members_isOk hQ hf mask more ht hx plain hp'
      unfold Direct.members
      exact Outcome.bind_isOk hone fun _ => Outcome.bind_isOk hmore fun _ => ⟨_, rfl⟩
end

/-- The direct recursion over a typed message succeeds, if it can print what it meets. -/
theorem body_isOk {t : MessageType} {mask : List MaskField} {place : Compile.Place}
    {schema : Schema} {m : Message} (h : compileMask t mask place = .ok schema)
    (hQ : Unambiguous place.relations Q) (ht : Q t) (hf : f.Typed place.relations Q)
    (type : m.type = t) (typed : m.WellTyped) (hp : Direct.Printable f m schema.fields) :
    ∃ j, Direct.body f m schema = .ok j := by
  obtain ⟨⟨u, hu, hn, hs⟩, _⟩ := compileMask_spec hQ.closed ht h
  unfold Direct.body
  cases hw : isWellKnown m.type.name with
  | true => exact hp.wellKnown hw
  | false =>
    have hm : ReadsAs Q u m := ⟨type ▸ ht, (type ▸ hn).symm, typed⟩
    exact Outcome.bind_isOk (hs.members_isOk hQ hf mask hu hm hw hp) fun _ => ⟨_, rfl⟩

end
end Patchwork
