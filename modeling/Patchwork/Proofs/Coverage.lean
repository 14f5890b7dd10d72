import Patchwork.Proofs.Conformance
import Patchwork.Proofs.Faithful

/-!
# Selected values in bodies

A body is followed by paths of names and indices. A value that a message holds at a path of selected
own fields is in its body if each selection on the way is the last one of its name. Selections of one
name are not put together: of an object the members that were written for an earlier one are lost.
-/

namespace Patchwork
open Proto

/-! ## Paths -/

/-- One step into a JSON value. -/
inductive Json.Step where
  | member (name : String)
  | item (i : Nat)
  deriving DecidableEq

/-- What stands at a path. -/
def Json.at? (j : Json) : List Json.Step → Option Json
  | [] => some j
  | .member name :: path => (j.get? name).bind fun x => x.at? path
  | .item i :: path => j.items[i]?.bind fun x => x.at? path

/-- No selection of the same name comes later. -/
def Selected.IsLastOf (s : Selected) (fields : List Selected) : Prop :=
  ∃ before after, fields = before ++ s :: after ∧ s.name ∉ after.map (·.name)

/-- A value holds something at a path of own fields that are selected and set. Each of them is `Chosen`
from the fields of its object. -/
inductive Shape.Holds (Chosen : Selected → List Selected → Prop) :
    Shape → Value → List Json.Step → Prop
  | here (shape : Shape) (v : Value) : Holds Chosen shape v []
  | own {name : String} {fields : List Selected} {m : Message} {info : Selection} {shape : Shape}
      {g : Field} {v : Value} {path : List Json.Step} (chosen : Chosen (.mk info shape) fields)
      (plain : info.relation = none) (field : m.type.field? info.name = some g)
      (value : m.value? g = some v) (inside : shape.Holds Chosen v path) :
      Holds Chosen (.message name fields) (.message m) (.member info.name :: path)
  | item {shape : Shape} {items : List Value} {i : Nat} {v : Value} {path : List Json.Step}
      (there : items[i]? = some v) (inside : shape.Holds Chosen v path) :
      Holds Chosen shape (.list items) (.item i :: path)
  | entry {shape : Shape} {entries : List (Key × Value)} {k : Key} {v : Value}
      {path : List Json.Step} (there : (k, v) ∈ entries) (inside : shape.Holds Chosen v path) :
      Holds Chosen shape (.map entries) (.member k.text :: path)

def Schema.shape (s : Schema) : Shape := .message s.name s.fields

/-- There is something at each path of chosen fields. -/
def Json.Covers (Chosen : Selected → List Selected → Prop) (shape : Shape) (v : Value) (j : Json) :
    Prop :=
  ∀ path, shape.Holds Chosen v path → (j.at? path).isSome

/-- At each path of last selections. -/
abbrev Json.CoversLast : Shape → Value → Json → Prop := Json.Covers Selected.IsLastOf

/-! ## Names that are selected once -/

/-- Where no name is selected twice each selection is the last one of its name. -/
theorem Selected.isLastOf_of_nodup {s : Selected} {fields : List Selected}
    (distinct : (fields.map (·.name)).Nodup) (hs : s ∈ fields) : s.IsLastOf fields := by
  obtain ⟨before, after, rfl⟩ := List.append_of_mem hs
  refine ⟨before, after, rfl, ?_⟩
  rw [List.map_append, List.map_cons] at distinct
  exact (List.nodup_cons.mp (List.nodup_append.mp distinct).2.1).1

theorem Selected.IsLastOf.mem {s : Selected} {fields : List Selected} (h : s.IsLastOf fields) :
    s ∈ fields := by
  obtain ⟨before, after, rfl, _⟩ := h
  simp

theorem Selected.isLastOf_single (s : Selected) : s.IsLastOf [s] := ⟨[], [], rfl, by simp⟩

theorem Selected.IsLastOf.cons {s : Selected} {fields : List Selected} (h : s.IsLastOf fields)
    (x : Selected) : s.IsLastOf (x :: fields) := by
  obtain ⟨before, after, rfl, last⟩ := h
  exact ⟨x :: before, after, rfl, last⟩

theorem shape_selectsOnce {s : Selected} {fields : List Selected} (h : selectsOnce fields)
    (hs : s ∈ fields) : s.shape.SelectsOnce := by
  induction fields with
  | nil => cases hs
  | cons x rest ih =>
    obtain ⟨_, here, others⟩ := h
    rcases List.mem_cons.mp hs with rfl | hs
    · obtain ⟨info, shape⟩ := s
      exact here
    · exact ih others hs

theorem Shape.Holds.of_selectsOnce {shape : Shape} {v : Value} {path : List Json.Step}
    (h : shape.Holds (fun s fields => s ∈ fields) v path) (once : shape.SelectsOnce) :
    shape.Holds Selected.IsLastOf v path := by
  induction h with
  | here shape v => exact .here shape v
  | own chosen plain field value _ ih =>
    have last := Selected.isLastOf_of_nodup (nodup_of_selectsOnce once) chosen
    exact .own last plain field value (ih (shape_selectsOnce once chosen))
  | item there _ ih => exact .item there (ih once)
  | entry there _ ih => exact .entry there (ih once)

/-! ## Containers -/

theorem forall₂_getElem? {α β : Type} {R : α → β → Prop} {xs : List α} {ys : List β}
    (h : List.Forall₂ R xs ys) {i : Nat} {x : α} (hx : xs[i]? = some x) :
    ∃ y, ys[i]? = some y ∧ R x y := by
  induction h generalizing i with
  | nil => simp at hx
  | cons first _ ih =>
    cases i with
    | zero =>
      cases hx
      exact ⟨_, rfl, first⟩
    | succ i => exact ih hx

/-- What stands in a container is at the paths behind its index or key. -/
theorem Container.HasForm.covers {c : Container} {shape : Shape} {v : Value} {j : Json}
    (h : c.HasForm (fun _ y x => x.CoversLast shape y) v j) : j.CoversLast shape v := by
  cases h with
  | one alone => exact alone
  | list each =>
    intro path holds
    cases holds with
    | here => rfl
    | item there inside =>
      obtain ⟨x, hx, covers⟩ := forall₂_getElem? each there
      have found := covers _ inside
      simpa [Json.at?, Json.items, hx] using found
  | map distinct _ each =>
    intro path holds
    cases holds with
    | here => rfl
    | entry there inside =>
      obtain ⟨x, hx, covers⟩ := each _ there
      have under := (lookup_eq_some_iff_mem distinct).mpr hx
      have found := covers _ inside
      simpa [Json.at?, Json.get?, under] using found

/-! ## Formatting -/

section

variable {relations : List Relation} {Q : MessageType → Prop}

/-- The members that formatting gives of a message for what was selected of it. The last selection of a
name has what the field of that name holds. -/
structure Proto.Message.Shows (m : Message) (fields : List Selected) (env : Nat → Option Json)
    (ms : List (String × Node)) : Prop where
  names : (evalMembers env ms).map (·.1) ⊆ fields.map (·.name)
  own : ∀ s : Selected, s.IsLastOf fields → s.info.relation = none → ∀ g v,
    m.type.field? s.name = some g → m.value? g = some v →
      ∃ j, (evalMembers env ms).reverse.lookup s.name = some j ∧ j.CoversLast s.shape v

namespace Proto.Message.Shows

variable {m : Message} {s : Selected} {rest : List Selected} {env : Nat → Option Json}
  {ms ms' : List (String × Node)}

/-- What comes later hides what comes earlier under its name only. -/
theorem cons (first : m.Shows [s] env ms) (others : m.Shows rest env ms') :
    m.Shows (s :: rest) env (ms ++ ms') where
  names := by
    rw [evalMembers_append, List.map_append]
    apply List.append_subset.mpr
    constructor
    · intro name hn
      simpa using Or.inl (first.names hn)
    · exact List.Subset.trans others.names (List.subset_cons_self ..)
  own x hx plain g v field value := by
    rw [evalMembers_append, List.reverse_append, List.lookup_append]
    obtain ⟨before, after, split, last⟩ := hx
    cases before with
    | nil =>
      cases split
      have hidden : (evalMembers env ms').reverse.lookup s.name = none := by
        apply List.lookup_eq_none_iff.mpr
        intro e he
        rw [bne_iff_ne]
        intro same
        exact last (others.names (List.mem_map.mpr ⟨e, List.mem_reverse.mp he, same.symm⟩))
      obtain ⟨j, hj, covers⟩ := first.own s s.isLastOf_single plain g v field value
      exact ⟨j, by rw [hidden, hj]; rfl, covers⟩
    | cons y before =>
      cases split
      obtain ⟨j, hj, covers⟩ := others.own x ⟨before, after, rfl, last⟩ plain g v field value
      exact ⟨j, by rw [hj]; rfl, covers⟩

theorem unset (h : s.info.relation = none → ∀ g v, m.type.field? s.name = some g →
    m.value? g ≠ some v) : m.Shows [s] env [] where
  names := by simp [evalMembers]
  own x hx plain g v field value := by
    obtain rfl := List.mem_singleton.mp (hx.mem)
    exact absurd value (h plain g v field)

theorem single {n : Node} (h : s.info.relation = none → ∀ g v, m.type.field? s.name = some g →
    m.value? g = some v → n.Reads (Json.CoversLast s.shape v) env) : m.Shows [s] env [(s.name, n)] where
  names := by
    unfold evalMembers
    cases n.eval env <;> simp [evalMembers]
  own x hx plain g v field value := by
    obtain rfl := List.mem_singleton.mp (hx.mem)
    obtain ⟨j, hj, covers⟩ := h plain g v field value
    exact ⟨j, by simp [evalMembers, hj], covers⟩

/-- So an object covers what is selected of its message. -/
theorem covers {name : String} {fields : List Selected} (h : m.Shows fields env ms) :
    (Json.object (evalMembers env ms)).CoversLast (.message name fields) (.message m) := by
  intro path holds
  cases holds with
  | here => rfl
  | @own _ _ _ info _ _ _ _ chosen plain field value inside =>
    obtain ⟨j, hj, covers⟩ := h.own _ chosen plain _ _ field value
    have under : (Json.object (evalMembers env ms)).get? info.name = some j :=
      (Direct.get?_object ..).trans hj
    rw [Json.at?, under]
    exact covers _ inside

end Proto.Message.Shows

theorem Json.covers_of_bare {name : String} {m : Message} (j : Json) :
    j.CoversLast (.message name []) (.message m) := by
  intro path holds
  cases holds with
  | here => rfl
  | own chosen => cases chosen.mem

/-- What is of an element of the catalog is formatted so that it covers what is selected. -/
def Shape.Covered (Q : MessageType → Prop) (shape : Shape) (e : Element) : Prop :=
  ∀ fallback target pool pool' k inside y, Element.ofKind pool' k = e → y.Holds pool k →
    (∀ u, Element.ofKind pool k = .message u → Q u) → (∀ m, y = .message m → m.IsExact) →
    (Formatting.element fallback target pool k shape inside y).Yields (fun _ _ => True)
      (Node.Reads (Json.CoversLast shape y))

theorem Shape.covered_scalar (t : ScalarType) : (Shape.scalar t).Covered Q (.scalar t) := by
  intro fallback target pool pool' k inside y he hy _ _
  have covers : ∀ (s : Scalar) (j : Json), j.CoversLast (.scalar t) (.scalar s) := by
    intro s j path holds
    cases holds
    rfl
  unfold Formatting.element
  cases hy with
  | scalar pool k s => exact .pure fun _ => ⟨_, rfl, covers s _⟩
  | enum pool name s => exact .pure fun _ => ⟨_, rfl, covers s _⟩
  | message => cases he

theorem Shape.covered_message {t : MessageType} {name : String} {fields : List Selected}
    (bare : isWellKnown t.name = true → fields = [])
    (hm : ∀ fallback target x, ReadsAs Q t x → isWellKnown x.type.name = false → x.IsExact →
      (Formatting.members fallback target x fields).Yields (fun _ _ => True) (x.Shows fields)) :
    (Shape.message name fields).Covered Q (.message t) := by
  intro fallback target pool pool' k inside y he hy hQ isExact
  unfold Formatting.element
  cases hy with
  | scalar => cases he
  | enum => cases he
  | @message _ nm y type typed =>
    cases he
    have named : y.type.name = (pool'.message nm).name := by
      rw [type, Pool.name_message, Pool.name_message]
    dsimp only
    cases hw : isWellKnown y.type.name with
    | true =>
      rw [bare (named ▸ hw)]
      refine (Formatting.Yields.wellKnown y).mono fun env n => ?_
      rintro ⟨j, hj, _⟩
      exact ⟨j, hj, j.covers_of_bare⟩
    | false =>
      have hy : ReadsAs Q (pool'.message nm) y := ⟨type ▸ hQ _ rfl, named, typed⟩
      exact (hm fallback target y hy hw (isExact y rfl)).map fun env ms shows => ⟨_, rfl, shows.covers⟩

/-- A field that stands for something in a message is shown. -/
theorem Selected.Stands.shows {fallback : Bool} {target : Option Nat} {s : Selected} {e : Element}
    {x : Message} (h : s.Stands relations Q x e) (isExact : x.IsExact)
    (shape : s.shape.Covered Q e) :
    (Formatting.member fallback target x s).Yields (fun _ _ => True)
      fun env o => x.Shows [s] env o.toList := by
  obtain ⟨info, shape'⟩ := s
  unfold Formatting.member
  cases h with
  | @own pool g relation field container element known fits =>
    rw [info_mk] at relation field container
    simp only [relation, field, Option.isSome_none, Bool.false_eq_true, if_false]
    cases hv : x.value? g with
    | none =>
      refine .pure fun env => .unset fun _ g' v field' value => ?_
      cases field.symm.trans field'
      cases hv.symm.trans value
    | some v =>
      have inner := isExact.value (List.mem_of_find?_eq_some field) hv
      rw [container]
      have contained := Formatting.Yields.contain (fits v hv) inner.here g fun inside y hy holds =>
        shape fallback target _ pool g.kind inside y element holds known
          fun m hm => inner.inside m (hm ▸ hy)
      refine contained.map fun env n => ?_
      rintro ⟨j, hj, form⟩
      refine .single fun _ g' w field' value => ?_
      cases field.symm.trans field'
      cases hv.symm.trans value
      exact ⟨j, hj, form.covers⟩
  | @relation r relation member base container element known =>
    rw [info_mk] at relation
    simp only [relation, Option.isSome_some, if_true]
    refine (Formatting.Yields.reserve x _ fallback target).map fun env n _ => ?_
    exact .single fun plain => by cases plain.symm.trans relation

/-- Nothing is selected of a well-known type. -/
theorem Selects.eq_nil {t : MessageType} {mask : List MaskField} {fields : List Selected}
    (h : Selects relations Q t mask fields) (known : isWellKnown t.name = true) : fields = [] := by
  cases h with
  | nil => rfl
  | cons one _ =>
    obtain ⟨c, found, _⟩ := one.field?
    have listed := List.mem_reverse.mp (List.mem_of_find?_eq_some found)
    simp [(CatalogType.mem_fields listed).1] at known

mutual
theorem SelectsOne.covered (hQ : Unambiguous relations Q) : ∀ (m : MaskField) {t : MessageType}
    {s : Selected}, SelectsOne relations Q t m s →
      ∃ c, s.IsOf relations t c ∧ s.shape.Covered Q c.element
  | .mk name given mask onError, t, s, h => by
    cases h with
    | @scalar _ _ _ _ _ _ f _ _ e found element =>
      exact ⟨f, CatalogType.isOf_of_field? found, element ▸ Shape.covered_scalar e⟩
    | @message _ u w _ _ _ _ _ f _ _ fields found element known named inside =>
      refine ⟨f, CatalogType.isOf_of_field? found, element ▸ ?_⟩
      refine Shape.covered_message (fun hw => inside.eq_nil (named ▸ hw)) ?_
      intro fallback target x hx plain isExact
      have hread : ReadsAs Q u x := ⟨hx.known, hx.name.trans named.symm, hx.typed⟩
      exact Selects.shows hQ mask inside known hread isExact

/-- What a mask selects of a typed message is shown. -/
theorem Selects.shows (hQ : Unambiguous relations Q) : ∀ (mask : List MaskField)
    {t : MessageType} {fields : List Selected} {fallback : Bool} {target : Option Nat} {x : Message},
    Selects relations Q t mask fields → Q t → ReadsAs Q t x → x.IsExact →
      (Formatting.members fallback target x fields).Yields (fun _ _ => True) (x.Shows fields)
  | [], t, fields, fallback, target, x, h, ht, hx, isExact => by
    cases h
    unfold Formatting.members
    refine .pure fun env => ⟨by simp [evalMembers], fun s hs => ?_⟩
    cases hs.mem
  | m :: mask, t, fields, fallback, target, x, h, ht, hx, isExact => by
    cases h with
    | @cons _ _ _ s rest one more =>
      obtain ⟨c, hc, shape⟩ := SelectsOne.covered hQ m one
      have here : (Formatting.member fallback target x s).Yields (fun _ _ => True)
          fun env o => x.Shows [s] env o.toList := (hc.stands hQ ht hx).shows isExact shape
      have others : (Formatting.members fallback target x rest).Yields (fun _ _ => True)
          (x.Shows rest) := Selects.shows hQ mask more ht hx isExact
      unfold Formatting.members
      exact here.bind fun o => others.map fun env ms shows first => first.cons shows
end

/-- The body of a typed message is formatted so that it covers what is selected. -/
theorem formatMessage_covers {t : MessageType} {mask : List MaskField} {place : Compile.Place}
    {schema : Schema} {m : Message} {target : Option Nat} {fallback : Bool}
    (compiled : compileMask t mask place = .ok schema) (hQ : Unambiguous place.relations Q) (ht : Q t)
    (hm : m.IsA t) :
    (formatMessage m schema target fallback).Yields (fun _ _ => True)
      (Node.Reads (Json.CoversLast schema.shape (.message m))) := by
  obtain ⟨⟨u, hu, named, selects⟩, _⟩ := compileMask_spec hQ.closed ht compiled
  obtain ⟨rfl, typed, isExact⟩ := hm
  unfold formatMessage
  cases hw : isWellKnown m.type.name with
  | true =>
    rw [Schema.shape, selects.eq_nil (named ▸ hw)]
    refine (Formatting.Yields.wellKnown m).mono fun env n => ?_
    rintro ⟨j, hj, _⟩
    exact ⟨j, hj, j.covers_of_bare⟩
  | false =>
    have shows : (Formatting.members fallback target m schema.fields).Yields (fun _ _ => True)
        (m.Shows schema.fields) := selects.shows hQ mask hu ⟨ht, named.symm, typed⟩ isExact
    exact shows.map fun env ms shows => ⟨_, rfl, shows.covers⟩

end

/-! ## Bodies -/

section

variable {Q : MessageType → Prop} {t : MessageType} {mask : List MaskField} {place : Compile.Place}
  {schema : Schema} {m : Message} {policy : Option ErrorPolicy} {fallback : Bool} {ws : List Wave}
  {d : Document}

/-- A body is an error that a wave ended in, or it covers what is selected. -/
theorem Progress.Runs.covers (compiled : compileMask t mask place = .ok schema)
    (hQ : Unambiguous place.relations Q) (ht : Q t) (hm : m.IsA t)
    (h : (ofMessage m schema policy fallback).Runs fallback ws (.finished d none)) :
    (0, d.toJson 0) ∈ errorsOf (actionsOf ws) ∨ (d.toJson 0).CoversLast schema.shape (.message m) := by
  rcases ofMessage_eq m schema policy fallback with ⟨root, patches, d₀, rooted, he⟩ | ⟨d₀, e, he, _⟩
  · rw [he] at h
    obtain ⟨account, linked⟩ := rooted.linked_of_runs h
    exact rooted.reads account linked (formatMessage_covers compiled hQ ht hm) (by simp)
  · rw [he] at h
    cases h

/-- Where no field is selected twice at one level, all paths are of last selections. -/
theorem Json.CoversLast.covers {j : Json} (h : j.CoversLast schema.shape (.message m))
    (compiled : compileMask t mask place = .ok schema) (once : namesOnce mask) :
    j.Covers (fun s fields => s ∈ fields) schema.shape (.message m) := by
  obtain ⟨_, _, _, mirrors⟩ := mirrors_of_compileMask compiled
  intro path holds
  exact h path (holds.of_selectsOnce (mirrors.selectsOnce once))

end

/-- What a message holds at a path of selected own fields, through messages, list items and map values,
is in its body if each selection on the path is the last one of its name at its level. With a mask that
selects no field twice at one level these are all paths. The body may be an error value instead, but
not if there are no relations: then each message whose well-known parts have a JSON form has a body. -/
theorem last_selections_are_in_body (t : MessageType) (mask : List MaskField) (place : Compile.Place)
    (schema : Schema) (compiled : compileMask t mask place = .ok schema) (Q : MessageType → Prop)
    (hQ : Unambiguous place.relations Q) (ht : Q t) (m : Message) (hm : m.IsA t)
    (policy : Option ErrorPolicy) (fallback : Bool) :
    (∀ ws d, (Progress.ofMessage m schema policy fallback).Runs fallback ws (.finished d none) →
      (d.toJson 0).IsErrorValue ∨ (d.toJson 0).CoversLast schema.shape (.message m)) ∧
    (namesOnce mask → ∀ ws d,
      (Progress.ofMessage m schema policy fallback).Runs fallback ws (.finished d none) →
      (d.toJson 0).IsErrorValue ∨
        (d.toJson 0).Covers (fun s fields => s ∈ fields) schema.shape (.message m)) ∧
    (relationsIn schema.fields = [] → Direct.Printable Direct.absent m schema.fields →
      ∃ d, Progress.ofMessage m schema policy fallback = .finished d none ∧
        (d.toJson 0).CoversLast schema.shape (.message m)) := by
  refine ⟨fun ws d runs => ?_, fun once ws d runs => ?_, fun plain printable => ?_⟩
  · exact (runs.covers compiled hQ ht hm).imp_left isErrorValue_of_mem_errorsOf
  · exact (runs.covers compiled hQ ht hm).imp isErrorValue_of_mem_errorsOf
      fun covers => covers.covers compiled once
  · have typed : Direct.absent.Typed place.relations Q := by
      intro r _ params base v _ _ _ value
      cases value
    obtain ⟨body, hbody⟩ := body_isOk compiled hQ ht typed hm.type hm.typed printable
    obtain ⟨d, ends, _⟩ := Progress.exists_finished plain hbody policy fallback
    have runs : (Progress.ofMessage m schema policy fallback).Runs fallback [] (.finished d none) := by
      rw [ends]
      exact .stop _
    rcases runs.covers compiled hQ ht hm with failed | covers
    · cases failed
    · exact ⟨d, ends, covers⟩

namespace Sample

/-- The title of an item, twice. -/
def titleTwice : List MaskField := [.mk "title" none [] none, .mk "title" none [] none]

def titleTwiceSchema : Schema := (compileMask item titleTwice place).toOption.getD ⟨"", []⟩

theorem compiles_titleTwice : compileMask item titleTwice place = .ok titleTwiceSchema :=
  Outcome.eq_ok_getD (by decide +kernel)

theorem itemOf_isA (text : String) : (itemOf text).IsA item :=
  ⟨rfl, itemOf_typed text, itemOf_exact text⟩

theorem printable_titleTwice (text : String) :
    Direct.Printable Direct.absent (itemOf text) titleTwiceSchema.fields := by
  intro z met known
  cases met with
  | self =>
    have own : ¬isWellKnown item.name = true := by decide +kernel
    exact absurd known own
  | inside _ selected =>
    rcases List.mem_cons.mp selected with same | selected
    · cases same
    · cases List.mem_singleton.mp selected

end Sample

/-- The title is there by its second selection. -/
theorem title_is_there_by_second_selection : ∃ d,
    Progress.ofMessage (Sample.itemOf "knot") Sample.titleTwiceSchema none false = .finished d none ∧
    ((d.toJson 0).at? [.member "title"]).isSome := by
  obtain ⟨_, _, plain⟩ := last_selections_are_in_body Sample.item Sample.titleTwice Sample.place
    Sample.titleTwiceSchema Sample.compiles_titleTwice Sample.Listed Sample.unambiguous (.inl rfl)
    (Sample.itemOf "knot") (Sample.itemOf_isA "knot") none false
  obtain ⟨d, ends, covers⟩ := plain (List.isEmpty_iff.mp (by decide +kernel))
    (Sample.printable_titleTwice "knot")
  refine ⟨d, ends, covers _ ?_⟩
  exact .own ((Selected.isLastOf_single _).cons _) rfl rfl rfl (.here ..)

namespace Sample

/-- The parent of an item with its title, and then without anything of it. -/
def parentTwice : List MaskField :=
  [.mk "parent" none [.mk "title" none [] none] none, .mk "parent" none [] none]

def parentTwiceSchema : Schema :=
  (compileMask (pool.message "Parent") parentTwice place).toOption.getD ⟨"", []⟩

theorem compiles_parentTwice :
    compileMask (pool.message "Parent") parentTwice place = .ok parentTwiceSchema :=
  Outcome.eq_ok_getD (by decide +kernel)

def parentOf (text : String) : Message :=
  .mk (pool.message "Parent") [(1, .message (itemOf text))] []

end Sample

/-- The title that is selected first of a parent is not in the body, although the parent has it. -/
theorem first_selection_of_parent_is_lost : ∃ d,
    compileMask (Sample.pool.message "Parent") Sample.parentTwice Sample.place =
      .ok Sample.parentTwiceSchema ∧
    Progress.ofMessage (Sample.parentOf "knot") Sample.parentTwiceSchema none false =
      .finished d none ∧
    Sample.parentTwiceSchema.shape.Holds (fun s fields => s ∈ fields)
      (.message (Sample.parentOf "knot")) [.member "parent", .member "title"] ∧
    (d.toJson 0).at? [.member "parent", .member "title"] = none := by
  have body : Direct.body Direct.absent (Sample.parentOf "knot") Sample.parentTwiceSchema =
      .ok (.obj [("parent", .obj [])]) := by
    rfl
  obtain ⟨d, ends, same⟩ := Progress.exists_finished (List.isEmpty_iff.mp (by decide +kernel)) body
    none false
  refine ⟨d, Sample.compiles_parentTwice, ends, ?_, by rw [same]; rfl⟩
  exact .own (List.mem_cons_self ..) rfl rfl rfl
    (.own (List.mem_cons_self ..) rfl rfl rfl (.here ..))

end Patchwork
