import Patchwork.Proofs.Formatted
import Patchwork.Proofs.Typing

/-!
# What formatting fails on

Typed values are formatted, but for one thing: a well-known message that is selected of them may have
no JSON form. Whatever a compiled schema selects, formatting fails on nothing else. The patches that
it leaves are typed again.
-/

namespace Patchwork
open Proto

/-- A message that is found inside another one, at any depth. -/
inductive Proto.Message.Inside : Message → Message → Prop
  | self (m : Message) : Inside m m
  | field {m y z : Message} {g : Field} {v : Value} (value : m.value? g = some v)
      (part : .message y ∈ v.parts) (deep : Inside z y) : Inside z m

/-- The failure of printing a well-known message inside the message `m`. -/
def Failure.IsPrinting (e : Failure) (m : Message) : Prop :=
  ∃ (x : Message) (cause : Unprintable), x.Inside m ∧ isWellKnown x.type.name = true ∧
    x.print = .error cause ∧ e = .serialization cause

/-- The failure of printing a well-known message inside a value. -/
def Failure.IsPrintingIn (e : Failure) (v : Value) : Prop :=
  ∃ m, .message m ∈ v.parts ∧ e.IsPrinting m

theorem Failure.IsPrintingIn.field {e : Failure} {m : Message} {g : Field} {v : Value}
    (h : e.IsPrintingIn v) (value : m.value? g = some v) : e.IsPrinting m := by
  obtain ⟨y, part, x, cause, hx, hw, hp, he⟩ := h
  exact ⟨x, cause, .field value part hx, hw, hp, he⟩

/-- The failure of printing a well-known message that is selected in the message `m`, relations
apart. -/
def Failure.IsPrintingAt (e : Failure) (m : Message) (fields : List Selected) : Prop :=
  ∃ (x : Message) (cause : Unprintable), Direct.Met Direct.absent m fields x ∧
    isWellKnown x.type.name = true ∧ x.print = .error cause ∧ e = .serialization cause

/-- The failure of printing a well-known message in a value, as far as a shape selects it. -/
def Failure.IsPrintingOn (e : Failure) (shape : Shape) (v : Value) : Prop :=
  ∃ m name fields, shape = .message name fields ∧ .message m ∈ v.parts ∧ e.IsPrintingAt m fields

theorem Direct.Met.inside_of_absent {m x : Message} {fields : List Selected}
    (h : Met absent m fields x) : x.Inside m := by
  induction h with
  | self => exact .self _
  | @inside m y z fields inner info name v plain selected value part met ih =>
    unfold value? at value
    split at value
    · cases value
    · obtain ⟨g, _, hv⟩ := Option.bind_eq_some_iff.mp value
      exact .field hv part ih

theorem Direct.Met.mono {f : Resolver} {m x : Message} {fields fields' : List Selected}
    (h : Met f m fields x) (sub : fields ⊆ fields') : Met f m fields' x := by
  cases h with
  | self => exact .self ..
  | inside plain selected value part met => exact .inside plain (sub selected) value part met

namespace Failure

variable {e : Failure} {m : Message} {fields fields' : List Selected}

theorem IsPrintingAt.isPrinting (h : e.IsPrintingAt m fields) : e.IsPrinting m := by
  obtain ⟨x, cause, met, hw, hp, he⟩ := h
  exact ⟨x, cause, met.inside_of_absent, hw, hp, he⟩

theorem IsPrintingOn.isPrintingIn {shape : Shape} {v : Value} (h : e.IsPrintingOn shape v) :
    e.IsPrintingIn v := by
  obtain ⟨m, _, _, _, part, printing⟩ := h
  exact ⟨m, part, printing.isPrinting⟩

theorem IsPrintingAt.mono (h : e.IsPrintingAt m fields) (sub : fields ⊆ fields') :
    e.IsPrintingAt m fields' := by
  obtain ⟨x, cause, met, h⟩ := h
  exact ⟨x, cause, met.mono sub, h⟩

/-- What is selected of a field's value is selected of the message. -/
theorem IsPrintingOn.field {info : Selection} {shape : Shape} {v : Value} {g : Field}
    (h : e.IsPrintingOn shape v) (plain : isWellKnown m.type.name = false)
    (relation : info.relation = none) (field : m.type.field? info.name = some g)
    (value : m.value? g = some v) : e.IsPrintingAt m [.mk info shape] := by
  obtain ⟨y, name, fields, rfl, part, x, cause, met, h⟩ := h
  have hv : Direct.value? Direct.absent m (.mk info (.message name fields)) = some v := by
    simp only [Direct.value?, Selected.info_mk, relation, field, Option.bind_some, value]
  exact ⟨x, cause, .inside plain (List.mem_singleton_self _) hv part met, h⟩

theorem IsPrintingOn.of_part {shape : Shape} {v y : Value} (h : e.IsPrintingOn shape y)
    (holds : y.parts = [y]) (part : y ∈ v.parts) : e.IsPrintingOn shape v := by
  obtain ⟨m, name, fields, hs, hm, h⟩ := h
  rw [holds] at hm
  exact ⟨m, name, fields, hs, List.mem_singleton.mp hm ▸ part, h⟩

end Failure

namespace Formatting

/-- A step of formatting fails only with failures of a kind. -/
def FailsOnly (x : Formatting α) (P : Failure → Prop) : Prop := ∀ d e d', x d = .error e d' → P e

/-- A step of formatting fails only with failures of a kind and leaves only patches of a kind. -/
def Stays (x : Formatting α) (P : Failure → Prop) (N : Patch → Prop) : Prop :=
  ∀ d, match x d with
    | .ok _ d' => ∃ new, d'.patches = d.patches ++ new ∧ ∀ p ∈ new, N p
    | .error e _ => P e

section

variable {P P' : Failure → Prop} {N : Patch → Prop}

theorem Stays.failsOnly {x : Formatting α} (h : x.Stays P N) : x.FailsOnly P := by
  intro d e d' he
  have hd := h d
  rw [he] at hd
  exact hd

theorem Stays.mono {x : Formatting α} (h : x.Stays P N) (hp : ∀ e, P e → P' e) : x.Stays P' N := by
  intro d
  have hd := h d
  split
  · next he =>
    rw [he] at hd
    exact hd
  · next he =>
    rw [he] at hd
    exact hp _ hd

theorem Stays.pure (a : α) : Stays (Pure.pure a) P N :=
  fun _ => ⟨[], (List.append_nil _).symm, by simp⟩

theorem Stays.bind {x : Formatting α} {f : α → Formatting β} (hx : x.Stays P N)
    (hf : ∀ a, (f a).Stays P N) : (x >>= f).Stays P N := by
  intro d
  have hd := hx d
  simp only [Bind.bind, EStateM.bind]
  cases hr : x d with
  | error e d₁ =>
    rw [hr] at hd
    exact hd
  | ok a d₁ =>
    rw [hr] at hd
    obtain ⟨new, hnew, hn⟩ := hd
    have hd' := hf a d₁
    dsimp only
    cases hr' : f a d₁ with
    | error e d₂ =>
      rw [hr'] at hd'
      exact hd'
    | ok b d₂ =>
      rw [hr'] at hd'
      obtain ⟨more, hmore, hm⟩ := hd'
      refine ⟨new ++ more, by rw [hmore, hnew, List.append_assoc], fun p hp => ?_⟩
      exact (List.mem_append.mp hp).elim (hn p) (hm p)

theorem Stays.mapM {x : α → Formatting β} {items : List α} (h : ∀ i ∈ items, (x i).Stays P N) :
    (items.mapM x).Stays P N := by
  induction items with
  | nil => exact Stays.pure []
  | cons i rest ih =>
    rw [List.mapM_cons]
    have hr := ih fun j hj => h j (List.mem_cons_of_mem _ hj)
    exact (h i (List.mem_cons_self ..)).bind fun _ => hr.bind fun _ => Stays.pure _

theorem Stays.wellKnown {m : Message} {fields : List Selected}
    (hw : isWellKnown m.type.name = true) : (wellKnown m).Stays (·.IsPrintingAt m fields) N := by
  unfold Formatting.wellKnown
  cases hp : m.print with
  | ok j => exact Stays.pure _
  | error cause => exact fun d => ⟨m, cause, .self m fields, hw, hp, rfl⟩

/-- A relation leaves one patch. -/
theorem Stays.reserve {m : Message} {s : Selected} {fallback : Bool} {target : Option Nat}
    (h : ∀ p : Patch, p.base = m → p.field = s → N p) : (reserve m s fallback target).Stays P N := by
  refine fun d => ⟨_, rfl, fun p hp => ?_⟩
  rw [List.mem_singleton.mp hp]
  exact h _ rfl rfl

theorem FailsOnly.format {x : Formatting Node} {d d' : Document} {e : Failure} (h : x.FailsOnly P)
    (hf : d.format x = (.error e, d')) : P e := by
  unfold Document.format at hf
  split at hf
  · cases hf
  · next e' draft he =>
    cases hf
    exact h _ _ _ he

theorem Stays.format {x : Formatting Node} {d d' : Document} {node : Node} {new : List Patch}
    (h : x.Stays P N) (hf : d.format x = (.ok (node, new), d')) : ∀ p ∈ new, N p := by
  unfold Document.format at hf
  have hd := h { slots := d.size }
  split at hf
  · next a draft he =>
    cases hf
    rw [he] at hd
    obtain ⟨new, hnew, hn⟩ := hd
    rw [hnew]
    exact hn
  · cases hf

/-- A value of a field stands in the field's container. -/
theorem Stays.contain {pool : Pool} {g : Field} {v : Value} {x : Bool → Value → Formatting Node}
    (hv : v.Fits pool g) (named : Field)
    (hx : ∀ inside, ∀ y ∈ v.parts, y.Holds pool g.kind → (x inside y).Stays P N) :
    (contain (.ofArity g.arity) named v x).Stays P N := by
  cases hv with
  | single arity holds =>
    rw [arity]
    exact hx false v (holds.parts ▸ List.mem_singleton_self _) holds
  | list arity holds =>
    rw [arity]
    refine (Stays.mapM fun y hy => ?_).bind fun _ => Stays.pure _
    exact hx true y hy (holds y hy)
  | map arity holds =>
    rw [arity]
    refine (Stays.mapM fun e he => ?_).bind fun _ => Stays.pure _
    have hm := (List.mergeSort_perm _ _).mem_iff.mp he
    exact (hx true e.2 (List.mem_map_of_mem hm) (holds e hm)).bind fun _ => Stays.pure _

end
end Formatting

/-! ## Typed values -/

section

variable {relations : List Relation} {Q : MessageType → Prop}

/-- A patch for a relation that is selected of a type as which its base can be read. -/
def Patch.IsTyped (relations : List Relation) (Q : MessageType → Prop) (p : Patch) : Prop :=
  ∃ t m, Q t ∧ SelectsOne relations Q t m p.field ∧ ReadsAs Q t p.base

/-- What is of an element of the catalog is formatted as the shape selects it, but for what has no
JSON form. -/
def Shape.Prints (relations : List Relation) (Q : MessageType → Prop) (shape : Shape) (e : Element) :
    Prop :=
  ∀ fallback target pool pool' k inside y, Element.ofKind pool' k = e → y.Holds pool k →
    (∀ u, Element.ofKind pool k = .message u → Q u) →
    (Formatting.element fallback target pool k shape inside y).Stays (·.IsPrintingOn shape y)
      (·.IsTyped relations Q)

theorem Shape.prints_scalar (e e' : ScalarType) :
    (Shape.scalar e').Prints relations Q (.scalar e) := by
  intro fallback target pool pool' k inside y he hy _
  unfold Formatting.element
  cases hy with
  | scalar => exact .pure _
  | enum => exact .pure _
  | message => cases he

theorem Shape.prints_message {t : MessageType} {name : String} {fields : List Selected}
    (hm : ∀ fallback target x, ReadsAs Q t x → isWellKnown x.type.name = false →
      (Formatting.members fallback target x fields).Stays (·.IsPrintingAt x fields)
        (·.IsTyped relations Q)) :
    (Shape.message name fields).Prints relations Q (.message t) := by
  intro fallback target pool pool' k inside y he hy hQ
  unfold Formatting.element
  cases hy with
  | scalar => cases he
  | enum => cases he
  | @message _ nm y type typed =>
    cases he
    have selected : ∀ e : Failure, e.IsPrintingAt y fields →
        e.IsPrintingOn (.message name fields) (.message y) :=
      fun e he => ⟨y, name, fields, rfl, List.mem_singleton_self _, he⟩
    dsimp only
    cases hw : isWellKnown y.type.name with
    | true => exact (Formatting.Stays.wellKnown hw).mono selected
    | false =>
      have hy : ReadsAs Q (pool'.message nm) y := by
        refine ⟨type ▸ hQ _ rfl, ?_, typed⟩
        rw [type, Pool.name_message, Pool.name_message]
      exact ((hm fallback target y hy hw).mono selected).bind fun _ => .pure _

/-- A field with a shape for what it holds is formatted in a message for which it stands. -/
theorem Selected.Stands.stays {fallback : Bool} {target : Option Nat} {s : Selected} {e : Element}
    {x : Message} (h : s.Stands relations Q x e) (plain : isWellKnown x.type.name = false)
    (shape : s.shape.Prints relations Q e)
    (typed : ∀ p : Patch, p.base = x → p.field = s → p.IsTyped relations Q) :
    (Formatting.member fallback target x s).Stays (·.IsPrintingAt x [s]) (·.IsTyped relations Q) := by
  obtain ⟨info, shape'⟩ := s
  unfold Formatting.member
  cases h with
  | @own pool g relation field container element known fits =>
    rw [info_mk] at relation field container
    simp only [relation, field, Option.isSome_none, Bool.false_eq_true, if_false]
    cases hv : x.value? g with
    | none => exact .pure _
    | some v =>
      rw [container]
      refine (Formatting.Stays.contain (fits v hv) g fun inside y hy holds => ?_).bind
        fun _ => .pure _
      refine (shape _ _ _ _ _ inside y element holds known).mono fun e he => ?_
      exact (he.of_part holds.parts hy).field plain relation field hv
  | @relation r relation member base container element known =>
    rw [info_mk] at relation
    simp only [relation, Option.isSome_some, if_true]
    exact (Formatting.Stays.reserve typed).bind fun _ => .pure _

mutual
theorem SelectsOne.prints (hQ : Unambiguous relations Q) : ∀ (m : MaskField) {t : MessageType}
    {s : Selected}, SelectsOne relations Q t m s →
      ∃ c, s.IsOf relations t c ∧ s.shape.Prints relations Q c.element
  | .mk name given mask onError, t, s, h => by
    cases h with
    | @scalar _ _ _ _ _ _ f _ _ e found element =>
      exact ⟨f, CatalogType.isOf_of_field? found, element ▸ Shape.prints_scalar e e⟩
    | @message _ u w _ _ _ _ _ f _ _ fields found element known named inside =>
      refine ⟨f, CatalogType.isOf_of_field? found, element ▸ Shape.prints_message ?_⟩
      intro fallback target x hx plain
      have hread : ReadsAs Q u x := ⟨hx.known, hx.name.trans named.symm, hx.typed⟩
      exact Selects.stays hQ mask inside known hread plain

/-- What a mask selects of a typed message is formatted, but for what has no JSON form. -/
theorem Selects.stays (hQ : Unambiguous relations Q) : ∀ (mask : List MaskField)
    {t : MessageType} {fields : List Selected} {fallback : Bool} {target : Option Nat} {x : Message},
    Selects relations Q t mask fields → Q t → ReadsAs Q t x → isWellKnown x.type.name = false →
      (Formatting.members fallback target x fields).Stays (·.IsPrintingAt x fields)
        (·.IsTyped relations Q)
  | [], t, fields, fallback, target, x, h, ht, hx, plain => by
    cases h
    unfold Formatting.members
    exact .pure _
  | m :: mask, t, fields, fallback, target, x, h, ht, hx, plain => by
    cases h with
    | @cons _ _ _ s rest one more =>
      obtain ⟨c, hc, shape⟩ := SelectsOne.prints hQ m one
      have here : (Formatting.member fallback target x s).Stays (·.IsPrintingAt x [s])
          (·.IsTyped relations Q) := by
        refine (hc.stands hQ ht hx).stays plain shape fun p base field => ?_
        exact ⟨t, m, ht, field ▸ one, base ▸ hx⟩
      have others : (Formatting.members fallback target x rest).Stays (·.IsPrintingAt x rest)
          (·.IsTyped relations Q) :=
        Selects.stays hQ mask more ht hx plain
      unfold Formatting.members
      refine (here.mono fun e he => he.mono ?_).bind fun _ =>
        (others.mono fun e he => he.mono (List.subset_cons_self ..)).bind fun _ => .pure _
      exact fun y hy => List.mem_singleton.mp hy ▸ List.mem_cons_self ..
end

mutual
theorem SelectsOne.inner : ∀ (m : MaskField) {t : MessageType} {s : Selected},
    SelectsOne relations Q t m s → ∀ x ∈ s.shape.relations,
      ∃ u n, Q u ∧ SelectsOne relations Q u n x
  | .mk name given mask onError, t, s, h, x, hx => by
    cases h with
    | scalar found element => cases hx
    | message found element known named inside => exact Selects.relations mask inside known x hx

/-- The relations of what a mask selects are selected of known types, too. -/
theorem Selects.relations : ∀ (mask : List MaskField) {t : MessageType} {fields : List Selected},
    Selects relations Q t mask fields → Q t → ∀ x ∈ relationsIn fields,
      ∃ u n, Q u ∧ SelectsOne relations Q u n x
  | [], t, fields, h, ht, x, hx => by
    cases h
    cases hx
  | m :: mask, t, fields, h, ht, x, hx => by
    cases h with
    | @cons _ _ _ s _ one more =>
      rcases List.mem_append.mp hx with hx | hx
      · obtain ⟨info, shape⟩ := s
        unfold Selected.relations at hx
        split at hx
        · rw [List.mem_singleton.mp hx]
          exact ⟨t, m, ht, one⟩
        · exact SelectsOne.inner m one x hx
      · exact Selects.relations mask more ht x hx
end

theorem Selects.level {t : MessageType} {mask : List MaskField} {fields : List Selected}
    (h : Selects relations Q t mask fields) (ht : Q t) (k : Nat) :
    ∀ x ∈ level fields k, ∃ u n, Q u ∧ SelectsOne relations Q u n x := by
  induction k with
  | zero => exact Selects.relations mask h ht
  | succ k ih =>
    intro x hx
    obtain ⟨y, hy, hx⟩ := List.mem_flatMap.mp hx
    obtain ⟨u, n, _, hs⟩ := ih y hy
    exact hs.inner n x hx

/-- The body of a typed message is formatted, but for what has no JSON form. -/
theorem stays_message {t : MessageType} {mask : List MaskField} {place : Compile.Place}
    {schema : Schema} {m : Message} {target : Option Nat} {fallback : Bool}
    (compiled : compileMask t mask place = .ok schema) (hQ : Unambiguous place.relations Q)
    (ht : Q t) (type : m.type = t) (typed : m.WellTyped) :
    (formatMessage m schema target fallback).Stays (·.IsPrintingAt m schema.fields)
      (·.IsTyped place.relations Q) := by
  obtain ⟨⟨u, hu, hn, hs⟩, _⟩ := compileMask_spec hQ.closed ht compiled
  unfold formatMessage
  cases hw : isWellKnown m.type.name with
  | true => exact .wellKnown hw
  | false =>
    have hm : ReadsAs Q u m := ⟨type ▸ ht, (type ▸ hn).symm, typed⟩
    exact (hs.stays hQ mask hu hm hw).bind fun _ => .pure _

/-- The value of a relation is formatted, but for what has no JSON form. -/
theorem SelectsOne.stays_relationValue {t : MessageType} {m : MaskField} {s : Selected}
    {r : Relation} {v : Value} {target : Option Nat} {fallback : Bool}
    (one : SelectsOne relations Q t m s) (hQ : Unambiguous relations Q) (ht : Q t)
    (hr : s.info.relation = some r) (fits : v.Fits r.method.pool r.field) :
    (formatRelationValue s v target fallback).Stays (·.IsPrintingOn s.shape v)
      (·.IsTyped relations Q) := by
  obtain ⟨c, ⟨listed, _, container, relation⟩, shape⟩ := one.prints hQ m
  have hclosed := hQ.closed t ht c listed
  obtain ⟨_, ⟨g, _, rfl⟩ | ⟨r', _, rfl⟩⟩ := CatalogType.mem_fields listed
  · cases hr.symm.trans relation
  · cases hr.symm.trans relation
    unfold formatRelationValue
    simp only [hr, container]
    refine Formatting.Stays.contain fits r.field fun inside y hy holds => ?_
    exact (shape _ _ _ _ _ inside y rfl holds hclosed).mono fun e he => he.of_part holds.parts hy

/-- So is the value of a relation that is selected in a compiled schema. -/
theorem stays_relationValue {t : MessageType} {mask : List MaskField} {place : Compile.Place}
    {schema : Schema} {k : Nat} {s : Selected} {r : Relation} {v : Value} {target : Option Nat}
    {fallback : Bool} (compiled : compileMask t mask place = .ok schema)
    (hQ : Unambiguous place.relations Q) (ht : Q t) (selected : s ∈ level schema.fields k)
    (hr : s.info.relation = some r) (fits : v.Fits r.method.pool r.field) :
    (formatRelationValue s v target fallback).Stays (·.IsPrintingOn s.shape v)
      (·.IsTyped place.relations Q) := by
  obtain ⟨⟨u, hu, _, hs⟩, _⟩ := compileMask_spec hQ.closed ht compiled
  obtain ⟨u', n, hu', one⟩ := hs.level hu k s selected
  exact one.stays_relationValue hQ hu' hr fits

end
end Patchwork
