import Patchwork.Proofs.Equivalence
import Patchwork.Proofs.Narrowed
import Patchwork.Proofs.Scalars

/-!
# Bodies that tell contents apart

Without relations, floating-point numbers and well-known types a body loses nothing that is selected.
Unset fields are left out, defaults in lists and maps are null, and numbers, bytes, enum values and
keys are written as texts, but two messages have one body only if they agree on all that is selected.
-/

namespace Patchwork
open Proto

/-! ## Agreement -/

/-- Values of a field agree when what stands in them is related, item by item or under each key. -/
def Container.Agree (R : Value → Value → Prop) : Container → Value → Value → Prop
  | .one, v, w => R v w
  | .list, .list xs, .list ys => List.Forall₂ R xs ys
  | .map _, .map es, .map es' => ∀ k, Option.Rel R (es.lookup k) (es'.lookup k)
  | _, _, _ => False

mutual
/-- Values agree as far as a shape selects them. -/
def Shape.Agree : Shape → Value → Value → Prop
  | .scalar _, v, w => v = w
  | .message _ fields, .message m, .message m' => agreeOn m m' fields
  | .message .., _, _ => False

/-- Messages agree on all selected fields. -/
def agreeOn (m m' : Message) : List Selected → Prop
  | [] => True
  | s :: rest => s.Agree m m' ∧ agreeOn m m' rest

/-- A field is set in both of two messages, to values that agree, or in none. -/
def Selected.Agree (m m' : Message) : Selected → Prop
  | .mk info shape => Option.Rel (info.container.Agree shape.Agree)
      ((m.type.field? info.name).bind m.value?) ((m'.type.field? info.name).bind m'.value?)
end

theorem agreeOn_iff {m m' : Message} {fields : List Selected} :
    agreeOn m m' fields ↔ ∀ s ∈ fields, s.Agree m m' := by
  induction fields with
  | nil => simp [agreeOn]
  | cons s rest ih => simp [agreeOn, ih]

/-- What a shape holds can be told apart by its form. -/
def Shape.IsDiscrete : Shape → Prop
  | .scalar e => e.IsDiscrete
  | .message name _ => isWellKnown name = false

instance : (shape : Shape) → Decidable shape.IsDiscrete
  | .scalar e => inferInstanceAs (Decidable e.IsDiscrete)
  | .message name _ => inferInstanceAs (Decidable (isWellKnown name = false))

/-! ## Objects -/

/-- A key of a map field. -/
def Proto.Key.IsOf (k : Key) (f : Field) : Prop :=
  Container.ofArity f.arity = .map k.toScalar.type

theorem Proto.Key.IsOf.eq_of_text {k l : Key} {f : Field} (hk : k.IsOf f) (hl : l.IsOf f)
    (text : k.text = l.text) : k = l :=
  Key.text_injective (Container.map.inj (hk.symm.trans hl)) text

namespace Proto.Value.Matches

variable {f : Field} {es : List (Key × Value)} {k : Key}

theorem key (h : (Value.map es).Matches f) {e : Key × Value} (he : e ∈ es) : e.1.IsOf f :=
  (h.keys es rfl).2 e he

theorem lookup_iff (h : (Value.map es).Matches f) {v : Value} :
    es.lookup k = some v ↔ (k, v) ∈ es :=
  lookup_eq_some_iff_mem (h.keys es rfl).1

theorem lookup_eq_none (h : (Value.map es).Matches f) (other : ¬ k.IsOf f) : es.lookup k = none := by
  apply Option.eq_none_iff_forall_ne_some.mpr
  intro v found
  exact other (h.key (h.lookup_iff.mp found))

end Proto.Value.Matches

/-! ## Forms that tell values apart -/

/-- Forms are there for what has a property, and are the same only for what is related. -/
structure Faithful {α β : Type} (P : α → Prop) (R : α → α → Prop) (form : α → Outcome β) : Prop where
  isOk : ∀ v, P v → ∃ j, form v = .ok j
  same_iff : ∀ v w, P v → P w → (form v = form w ↔ R v w)

namespace Faithful

section

variable {α β γ : Type} {P : α → Prop} {R : α → α → Prop} {form : α → Outcome β}

theorem eq_iff (h : Faithful P R form) {v w : α} {j j' : β} (hv : P v) (hw : P w)
    (form_v : form v = .ok j) (form_w : form w = .ok j') : j = j' ↔ R v w := by
  rw [← h.same_iff v w hv hw, form_v, form_w]
  exact Except.ok.injEq .. ▸ Iff.rfl

/-- Forms can be wrapped, as long as the wrapping does not hide them. -/
theorem map (h : Faithful P R form) (wrap : β → γ) (injective : ∀ a b, wrap a = wrap b → a = b) :
    Faithful P R fun v => do return wrap (← form v) where
  isOk v hv := by
    obtain ⟨j, hj⟩ := h.isOk v hv
    exact ⟨wrap j, by rw [hj]; rfl⟩
  same_iff v w hv hw := by
    obtain ⟨j, hj⟩ := h.isOk v hv
    obtain ⟨j', hj'⟩ := h.isOk w hw
    rw [← h.eq_iff hv hw hj hj', hj, hj']
    constructor
    · intro same
      exact injective _ _ (Except.ok.inj same)
    · rintro rfl
      rfl

/-- Lists are told apart item by item. -/
theorem mapM (h : Faithful P R form) :
    Faithful (fun xs => ∀ x ∈ xs, P x) (List.Forall₂ R) fun xs => xs.mapM form where
  isOk xs hxs := Outcome.mapM_isOk fun x hx => h.isOk x (hxs x hx)
  same_iff xs ys hxs hys := by
    obtain ⟨js, hjs⟩ := Outcome.mapM_isOk fun x hx => h.isOk x (hxs x hx)
    obtain ⟨js', hjs'⟩ := Outcome.mapM_isOk fun y hy => h.isOk y (hys y hy)
    rw [hjs, hjs', Except.ok.injEq]
    replace hjs := Outcome.mapM_eq_ok.mp hjs
    replace hjs' := Outcome.mapM_eq_ok.mp hjs'
    induction hjs generalizing ys js' with
    | nil => cases hjs' <;> simp
    | @cons x j xs js hx _ ih =>
      cases hjs' with
      | nil => simp
      | @cons y j' ys js' hy rest =>
        obtain ⟨px, pxs⟩ := List.forall_mem_cons.mp hxs
        obtain ⟨py, pys⟩ := List.forall_mem_cons.mp hys
        rw [List.cons.injEq, List.forall₂_cons]
        exact and_congr (h.eq_iff px py hx hy) (ih ys pxs pys js' rest)

/-- What may be missing is told apart, too. -/
theorem optional (h : Faithful P R form) :
    Faithful (fun o => ∀ v, o = some v → P v) (Option.Rel R)
      fun o => o.elim (.ok none) fun v => do return some (← form v) where
  isOk o ho := by
    cases o with
    | none => exact ⟨none, rfl⟩
    | some v => exact (h.map some fun _ _ => Option.some.inj).isOk v (ho v rfl)
  same_iff o o' ho ho' := by
    cases o with
    | none =>
      cases o' with
      | none => exact iff_of_true rfl .none
      | some w =>
        obtain ⟨j, hj⟩ := h.isOk w (ho' w rfl)
        simp [hj]
    | some v =>
      cases o' with
      | none =>
        obtain ⟨j, hj⟩ := h.isOk v (ho v rfl)
        simp [hj]
      | some w =>
        rw [Option.rel_some_some]
        exact (h.map some fun _ _ => Option.some.inj).same_iff v w (ho v rfl) (ho' w rfl)

theorem optional_toOption (h : Faithful P R form) {o o' : Option α} (ho : ∀ v, o = some v → P v)
    (ho' : ∀ v, o' = some v → P v) :
    (o.bind fun v => (form v).toOption) = (o'.bind fun v => (form v).toOption) ↔
      Option.Rel R o o' := by
  have whole : ∀ o : Option α, (∀ v, o = some v → P v) →
      o.elim (.ok none) (fun v => do return some (← form v)) =
        .ok (o.bind fun v => (form v).toOption) := by
    intro o ho
    cases o with
    | none => rfl
    | some v =>
      obtain ⟨j, hj⟩ := h.isOk v (ho v rfl)
      simp [hj, Except.toOption]
  exact h.optional.eq_iff ho ho' (whole o ho) (whole o' ho')

end

/-! ### Maps -/

section

variable {g : Field} {P : Value → Prop} {R : Value → Value → Prop} {y : Value → Outcome Json}
  {es : List (Key × Value)} {ms : List (String × Json)}

/-- Each entry of a map has a member, and each member is that of an entry. -/
theorem mem_entries (h : (Formatting.sortEntries es).mapM (fun e => do return (e.1.text, ← y e.2)) =
    .ok ms) {name : String} {j : Json} :
    (name, j) ∈ ms ↔ ∃ e ∈ es, e.1.text = name ∧ y e.2 = .ok j := by
  have each := Outcome.mapM_eq_ok.mp h
  have perm : (Formatting.sortEntries es).Perm es := List.mergeSort_perm ..
  constructor
  · intro hm
    obtain ⟨e, he, form⟩ := forall₂_exists_left each hm
    obtain ⟨j', hj, same⟩ := Outcome.bind_eq_ok.mp form
    cases same
    exact ⟨e, perm.mem_iff.mp he, rfl, hj⟩
  · rintro ⟨e, he, rfl, hj⟩
    obtain ⟨m, hm, form⟩ := forall₂_exists_left each.flip (perm.mem_iff.mpr he)
    rw [hj] at form
    cases form
    exact hm

theorem nodup_entries (h : (Formatting.sortEntries es).mapM (fun e => do return (e.1.text, ← y e.2)) =
    .ok ms) (texts : (es.map (·.1.text)).Nodup) : (ms.map (·.1)).Nodup := by
  have each := Outcome.mapM_eq_ok.mp h
  have names : ms.map (·.1) = (Formatting.sortEntries es).map (·.1.text) := by
    rw [← List.forall₂_eq_eq_eq, List.forall₂_map_left_iff, List.forall₂_map_right_iff]
    refine each.flip.imp fun m e form => ?_
    obtain ⟨_, _, same⟩ := Outcome.bind_eq_ok.mp form
    cases same
    rfl
  have perm := (List.mergeSort_perm es fun a b => a.1.le b.1).map (·.1.text)
  rw [names]
  exact perm.nodup_iff.mpr texts

/-- Under the text of a key stands the form of its value. -/
theorem get?_entries (h : (Formatting.sortEntries es).mapM (fun e => do return (e.1.text, ← y e.2)) =
    .ok ms) (hes : (Value.map es).Matches g) {k : Key} (key : k.IsOf g) :
    (Json.object ms).get? k.text = (es.lookup k).bind fun v => (y v).toOption := by
  ext j
  rw [Json.get?_object_iff (nodup_entries h hes.oneMap.nodup_texts), mem_entries h,
    Option.bind_eq_some_iff]
  constructor
  · rintro ⟨⟨l, v⟩, he, text, form⟩
    obtain rfl : l = k := (hes.key he).eq_of_text key text
    exact ⟨v, hes.lookup_iff.mpr he, Outcome.toOption_eq_some.mpr form⟩
  · rintro ⟨v, found, form⟩
    exact ⟨(k, v), hes.lookup_iff.mp found, rfl, Outcome.toOption_eq_some.mp form⟩

/-- There is nothing under other names. -/
theorem get?_entries_eq_none (h : (Formatting.sortEntries es).mapM (fun e =>
    do return (e.1.text, ← y e.2)) = .ok ms) (hes : (Value.map es).Matches g) {name : String}
    (other : ∀ k : Key, k.IsOf g → k.text ≠ name) : (Json.object ms).get? name = none := by
  apply Option.eq_none_iff_forall_ne_some.mpr
  intro j found
  rw [Json.get?_object_iff (nodup_entries h hes.oneMap.nodup_texts), mem_entries h] at found
  obtain ⟨e, he, text, _⟩ := found
  exact other e.1 (hes.key he) text

theorem entries_isOk (h : Faithful P R y) (hes : ∀ e ∈ es, P e.2) :
    ∃ ms, (Formatting.sortEntries es).mapM (fun e => do return (e.1.text, ← y e.2)) = .ok ms := by
  refine Outcome.mapM_isOk fun e he => ?_
  have listed := (List.mergeSort_perm ..).mem_iff.mp he
  exact Outcome.bind_isOk (h.isOk e.2 (hes e listed)) fun _ => ⟨_, rfl⟩

/-- Maps are told apart key by key. -/
theorem entries (h : Faithful P R y) :
    Faithful (fun es => (Value.map es).Matches g ∧ ∀ e ∈ es, P e.2)
      (fun es es' => ∀ k, Option.Rel R (es.lookup k) (es'.lookup k))
      fun es => do return Json.object (← (Formatting.sortEntries es).mapM fun e =>
        do return (e.1.text, ← y e.2)) where
  isOk es hes := Outcome.bind_isOk (h.entries_isOk hes.2) fun _ => ⟨_, rfl⟩
  same_iff es es' := by
    rintro ⟨matching, hes⟩ ⟨matching', hes'⟩
    obtain ⟨ms, hms⟩ := h.entries_isOk hes
    obtain ⟨ms', hms'⟩ := h.entries_isOk hes'
    have under : ∀ k : Key, k.IsOf g → ((Json.object ms).get? k.text = (Json.object ms').get? k.text ↔
        Option.Rel R (es.lookup k) (es'.lookup k)) := by
      intro k key
      rw [get?_entries hms matching key, get?_entries hms' matching' key]
      exact h.optional_toOption (fun v found => hes _ (matching.lookup_iff.mp found))
        fun v found => hes' _ (matching'.lookup_iff.mp found)
    rw [hms, hms']
    change Except.ok (Json.object ms) = Except.ok (Json.object ms') ↔ _
    rw [Except.ok.injEq]
    constructor
    · intro same k
      by_cases key : k.IsOf g
      · exact (under k key).mp (by rw [same])
      · rw [matching.lookup_eq_none key, matching'.lookup_eq_none key]
        exact .none
    · intro related
      apply Json.object_ext
      intro name
      by_cases known : ∃ k : Key, k.IsOf g ∧ k.text = name
      · obtain ⟨k, key, rfl⟩ := known
        exact (under k key).mpr (related k)
      · have other : ∀ k : Key, k.IsOf g → k.text ≠ name := fun k key text => known ⟨k, key, text⟩
        rw [get?_entries_eq_none hms matching other, get?_entries_eq_none hms' matching' other]

/-- Values of a field are told apart by what stands in them. -/
theorem contain (pool : Pool) (g : Field) {z : Bool → Value → Outcome Json}
    (h : ∀ inside, Faithful P R (z inside)) :
    Faithful (fun v => v.Fits pool g ∧ v.Matches g ∧ ∀ x ∈ v.parts, P x)
      ((Container.ofArity g.arity).Agree R)
      fun v => Direct.contain (.ofArity g.arity) g v z where
  isOk := by
    rintro v ⟨fits, _, parts⟩
    exact fits.contain g fun inside x hx _ => (h inside).isOk x (parts x hx)
  same_iff := by
    rintro v w ⟨fits, matching, parts⟩ ⟨fits', matching', parts'⟩
    cases fits with
    | single arity holds =>
      cases fits' with
      | single _ holds' =>
        rw [holds.parts] at parts
        rw [holds'.parts] at parts'
        rw [arity]
        exact (h false).same_iff v w (parts v (by simp)) (parts' w (by simp))
      | list arity' => cases arity.symm.trans arity'
      | map arity' => cases arity.symm.trans arity'
    | list arity holds =>
      cases fits' with
      | single arity' => cases arity.symm.trans arity'
      | list =>
        rw [arity]
        have items := (h true).mapM.map Json.arr fun _ _ => Json.arr.inj
        exact items.same_iff _ _ parts parts'
      | map arity' => cases arity.symm.trans arity'
    | map arity holds =>
      cases fits' with
      | single arity' => cases arity.symm.trans arity'
      | list arity' => cases arity.symm.trans arity'
      | map =>
        rw [arity]
        refine (h true).entries.same_iff _ _ ⟨matching, ?_⟩ ⟨matching', ?_⟩
        · exact fun e he => parts _ (List.mem_map_of_mem he)
        · exact fun e he => parts' _ (List.mem_map_of_mem he)

end

end Faithful

/-! ## Messages -/

/-- A message of a type whose values are those of its fields, at any depth. -/
structure Proto.Message.IsA (t : MessageType) (m : Message) : Prop where
  type : m.type = t
  typed : m.WellTyped
  isExact : m.IsExact

/-- A value of a kind. -/
structure Proto.Value.IsA (pool : Pool) (k : Kind) (v : Value) : Prop where
  holds : v.Holds pool k
  scalar : ∀ s, v = .scalar s → s.IsOf k
  message : ∀ m, v = .message m → m.IsExact

theorem Proto.Value.Fits.holds_of_mem {pool : Pool} {g : Field} {v x : Value} (h : v.Fits pool g)
    (hx : x ∈ v.parts) : x.Holds pool g.kind := by
  cases h with
  | single _ holds =>
    rw [holds.parts, List.mem_singleton] at hx
    exact hx ▸ holds
  | list _ holds => exact holds x hx
  | map _ holds =>
    obtain ⟨e, he, rfl⟩ := List.mem_map.mp hx
    exact holds e he

/-- What stands in a value of a message's field. -/
theorem Proto.Message.IsA.value {t : MessageType} {m : Message} {g : Field} {v : Value} (h : m.IsA t)
    (known : g ∈ t.fields) (value : m.value? g = some v) :
    v.Fits t.pool g ∧ v.Matches g ∧ ∀ x ∈ v.parts, x.IsA t.pool g.kind := by
  obtain ⟨rfl, ⟨fields⟩, isExact⟩ := h
  have fits := fields g known v value
  have inner := isExact.value known value
  refine ⟨fits, inner.here, fun x hx => ⟨fits.holds_of_mem hx, ?_, ?_⟩⟩
  · rintro s rfl
    exact inner.here.scalar s hx
  · rintro y rfl
    exact inner.inside y hx

namespace Direct

variable {resolve : Resolver} {m : Message} {fields : List Selected} {ms : List (String × Json)}

theorem findSome?_of_nodup {s : Selected} (form : Selected → Option Json)
    (distinct : (fields.map (·.name)).Nodup) (hs : s ∈ fields) :
    (fields.findSome? fun x => if x.name = s.name then form x else none) = form s := by
  induction fields with
  | nil => cases hs
  | cons x rest ih =>
    obtain ⟨new, others⟩ := List.nodup_cons.mp distinct
    rcases List.mem_cons.mp hs with rfl | hs
    · have gone : (rest.findSome? fun x => if x.name = s.name then form x else none) = none := by
        apply List.findSome?_eq_none_iff.mpr
        intro y hy
        apply if_neg
        intro same
        exact new (List.mem_map.mpr ⟨y, hy, same⟩)
      rw [List.findSome?_cons, if_pos rfl, gone]
      cases form s <;> rfl
    · have apart : x.name ≠ s.name := by
        intro same
        exact new (List.mem_map.mpr ⟨s, hs, same.symm⟩)
      rw [List.findSome?_cons, if_neg apart]
      exact ih others hs

/-- Where no name is selected twice each selected field has its own place. -/
theorem get?_member (h : members resolve m fields = .ok ms) (distinct : (fields.map (·.name)).Nodup)
    {s : Selected} (hs : s ∈ fields) :
    (Json.object ms).get? s.name = (member resolve m s).toOption.join := by
  have reversed : (fields.reverse.map (·.name)).Nodup := by
    rw [List.map_reverse]
    exact List.nodup_reverse.mpr distinct
  rw [get?_members h]
  exact findSome?_of_nodup (fun s => (member resolve m s).toOption.join) reversed
    (List.mem_reverse.mpr hs)

theorem members_isOk (each : ∀ s ∈ fields, ∃ o, member resolve m s = .ok o) :
    ∃ ms, members resolve m fields = .ok ms := by
  induction fields with
  | nil => exact ⟨[], by rw [members]⟩
  | cons s rest ih =>
    obtain ⟨here, others⟩ := List.forall_mem_cons.mp each
    rw [members]
    exact Outcome.bind_isOk here fun _ => Outcome.bind_isOk (ih others) fun _ => ⟨_, rfl⟩

/-- Messages are told apart by what is selected, if each selected field tells them apart. -/
theorem members_faithful {P : Message → Prop} (distinct : (fields.map (·.name)).Nodup)
    (each : ∀ s ∈ fields, Faithful P (fun m m' => s.Agree m m') fun m => member resolve m s) :
    Faithful P (fun m m' => agreeOn m m' fields)
      fun m => do return Json.object (← members resolve m fields) where
  isOk m hm :=
    Outcome.bind_isOk (members_isOk fun s hs => (each s hs).isOk m hm) fun _ => ⟨_, rfl⟩
  same_iff m m' hm hm' := by
    obtain ⟨ms, hms⟩ := members_isOk fun s hs => (each s hs).isOk m hm
    obtain ⟨ms', hms'⟩ := members_isOk fun s hs => (each s hs).isOk m' hm'
    have under : ∀ s ∈ fields,
        ((Json.object ms).get? s.name = (Json.object ms').get? s.name ↔ s.Agree m m') := by
      intro s hs
      obtain ⟨o, ho⟩ := (each s hs).isOk m hm
      obtain ⟨o', ho'⟩ := (each s hs).isOk m' hm'
      rw [get?_member hms distinct hs, get?_member hms' distinct hs, ho, ho']
      exact (each s hs).eq_iff hm hm' ho ho'
    rw [hms, hms']
    change Except.ok (Json.object ms) = Except.ok (Json.object ms') ↔ _
    rw [Except.ok.injEq, agreeOn_iff]
    constructor
    · intro same s hs
      exact (under s hs).mp (by rw [same])
    · intro agree
      apply Json.object_ext
      intro name
      by_cases known : ∃ s ∈ fields, s.name = name
      · obtain ⟨s, hs, rfl⟩ := known
        exact (under s hs).mpr (agree s hs)
      · have gone : ∀ {m ms}, members resolve m fields = .ok ms → (Json.object ms).get? name = none := by
          intro m ms h
          rw [get?_members h, List.findSome?_eq_none_iff]
          intro s hs
          exact if_neg fun same => known ⟨s, List.mem_reverse.mp hs, same⟩
        rw [gone hms, gone hms']

/-! ## Selected fields -/

theorem scalar_faithful {pool : Pool} {k : Kind} {e : ScalarType} (names : pool.NamesValues)
    (element : Element.ofKind pool k = .scalar e) (discrete : e.IsDiscrete) (inside : Bool) :
    Faithful (Value.IsA pool k) (Shape.Agree (.scalar e))
      (Direct.element resolve pool k (.scalar e) inside) := by
  have scalar : ∀ v : Value, v.IsA pool k → ∃ s, v = .scalar s ∧ s.IsOf k := by
    intro v hv
    cases hv.holds with
    | scalar _ s => exact ⟨_, rfl, hv.scalar _ rfl⟩
    | enum => exact ⟨_, rfl, hv.scalar _ rfl⟩
    | message => cases element
  constructor
  · intro v hv
    obtain ⟨s, rfl, _⟩ := scalar v hv
    exact ⟨_, rfl⟩
  · intro v w hv hw
    obtain ⟨s, rfl, hs⟩ := scalar v hv
    obtain ⟨s', rfl, hs'⟩ := scalar w hw
    constructor
    · intro same
      have forms := Except.ok.inj same
      exact congrArg Value.scalar (Formatting.scalarForm_injective names hs hs' element discrete forms)
    · intro same
      cases same
      rfl

theorem message_faithful {pool : Pool} {name : String} (plain : isWellKnown name = false)
    (told : Faithful (Message.IsA (pool.message name)) (fun m m' => agreeOn m m' fields)
      fun m => do return Json.object (← members resolve m fields)) (inside : Bool) :
    Faithful (Value.IsA pool (.message name)) (Shape.Agree (.message name fields))
      (element resolve pool (.message name) (.message name fields) inside) := by
  have message : ∀ v : Value, v.IsA pool (.message name) →
      ∃ m : Message, v = .message m ∧ m.IsA (pool.message name) := by
    intro v hv
    cases hv.holds with
    | message type typed => exact ⟨_, rfl, type, typed, hv.message _ rfl⟩
  have form : ∀ m : Message, m.IsA (pool.message name) →
      element resolve pool (.message name) (.message name fields) inside (.message m) =
        do return Json.object (← members resolve m fields) := by
    intro m hm
    have own : isWellKnown m.type.name = false := by rwa [hm.type, Pool.name_message]
    unfold element
    simp only [own]
    rfl
  constructor
  · intro v hv
    obtain ⟨m, rfl, hm⟩ := message v hv
    rw [form m hm]
    exact told.isOk m hm
  · intro v w hv hw
    obtain ⟨m, rfl, hm⟩ := message v hv
    obtain ⟨m', rfl, hm'⟩ := message w hw
    rw [form m hm, form m' hm']
    exact told.same_iff m m' hm hm'

theorem field_faithful {t : MessageType} {info : Selection} {shape : Shape} {g : Field}
    (plain : info.relation = none) (found : t.field? info.name = some g)
    (container : info.container = .ofArity g.arity)
    (told : ∀ inside, Faithful (Value.IsA t.pool g.kind) shape.Agree
      (element resolve t.pool g.kind shape inside)) :
    Faithful (Message.IsA t) (fun m m' => Selected.Agree m m' (.mk info shape))
      fun m => member resolve m (.mk info shape) := by
  have held := (Faithful.contain t.pool g told).optional
  have form : ∀ m : Message, m.IsA t → member resolve m (.mk info shape) =
      (m.value? g).elim (.ok none) fun v => do
        return some (← contain (.ofArity g.arity) g v (element resolve t.pool g.kind shape)) := by
    rintro m ⟨rfl, _, _⟩
    unfold member
    simp only [plain, found, container]
    cases m.value? g <;> rfl
  have listed := List.mem_of_find?_eq_some found
  constructor
  · intro m hm
    rw [form m hm]
    exact held.isOk _ fun v value => hm.value listed value
  · intro m m' hm hm'
    rw [form m hm, form m' hm', Selected.Agree, hm.type, hm'.type, found, container, Option.bind_some,
      Option.bind_some]
    exact held.same_iff _ _ (fun v value => hm.value listed value) fun v value =>
      hm'.value listed value

mutual
/-- Values are told apart as far as a shape selects them. -/
theorem element_faithful : ∀ (shape : Shape) {pool : Pool} {k : Kind}, pool.NamesValues →
    shape.Narrows pool k → shape.IsDiscrete → (∀ s ∈ shape.within, s.shape.IsDiscrete) →
    shape.SelectsOnce → ∀ inside,
      Faithful (Value.IsA pool k) shape.Agree (element resolve pool k shape inside)
  | .scalar e, pool, k, names, narrows, discrete, _, _, inside =>
    scalar_faithful names narrows discrete inside
  | .message name fields, pool, k, names, narrows, plain, discrete, once, inside => by
    obtain ⟨rfl, narrows⟩ := narrows
    have same := (pool.has_message name).pool
    have each := fields_faithful fields (same.symm ▸ names) narrows discrete once
    exact message_faithful plain (members_faithful (nodup_of_selectsOnce once) each) inside

theorem member_faithful : ∀ (s : Selected) {t : MessageType}, t.pool.NamesValues →
    s.Narrows t → (∀ x ∈ s.within, x.shape.IsDiscrete) → s.SelectsOnce →
    Faithful (Message.IsA t) (fun m m' => s.Agree m m') fun m => member resolve m s
  | .mk info shape, t, names, ⟨plain, g, found, container, narrows⟩, discrete, once => by
    obtain ⟨here, inner⟩ := List.forall_mem_cons.mp discrete
    exact field_faithful plain found container (element_faithful shape names narrows here inner once)

theorem fields_faithful : ∀ (fields : List Selected) {t : MessageType}, t.pool.NamesValues →
    narrowsAll t fields → (∀ x ∈ selectedIn fields, x.shape.IsDiscrete) → selectsOnce fields →
    ∀ s ∈ fields, Faithful (Message.IsA t) (fun m m' => s.Agree m m') fun m => member resolve m s
  | [], t, _, _, _, _ => by simp
  | s :: rest, t, names, ⟨first, others⟩, discrete, ⟨_, once, more⟩ => by
    obtain ⟨here, later⟩ := List.forall_mem_append.mp discrete
    intro x hx
    rcases List.mem_cons.mp hx with same | hx
    · rw [same]
      exact member_faithful s names first here once
    · exact fields_faithful rest names others later more x hx
end

end Direct

/-! ## Bodies -/

/-- Without relations the body of a message is there at once. -/
theorem Progress.exists_finished {m : Message} {schema : Schema} {body : Json}
    (plain : relationsIn schema.fields = []) (h : Direct.body Direct.absent m schema = .ok body)
    (policy : Option ErrorPolicy) (fallback : Bool) :
    ∃ d, ofMessage m schema policy fallback = .finished d none ∧ d.toJson 0 = body := by
  obtain ⟨entered, first⟩ := ofMessage_first m schema policy fallback
  have pointwise : ∀ w ∈ [], Wave.IsPointwise Direct.absent w := by simp
  cases progress : ofMessage m schema policy fallback with
  | wave d batches =>
    rw [progress] at entered first
    obtain ⟨patches, some, grouped⟩ := entered
    obtain ⟨p, hp⟩ := List.exists_mem_of_ne_nil patches some
    have selected := first p (grouped.perm.mem_iff.mpr hp)
    rw [level, plain] at selected
    cases selected
  | finished d failure =>
    have runs : (ofMessage m schema policy fallback).Runs fallback [] (.finished d failure) := by
      rw [progress]
      exact .stop _
    obtain rfl : failure = none := runs.failure?_eq_none h pointwise
    exact ⟨d, rfl, Except.ok.inj ((runs.body_eq pointwise).symm.trans h)⟩

/-- Formatting loses nothing that a mask selects. Without relations, floating-point numbers and
well-known types, and with no field selected twice at one level, messages of a type always have a body,
and their bodies are equal exactly if they agree on all selected fields at all depths. -/
theorem equal_bodies_have_equal_contents (t : MessageType) (mask : List MaskField)
    (place : Compile.Place) (schema : Schema) (compiled : compileMask t mask place = .ok schema)
    (once : namesOnce mask) (plain : relationsIn schema.fields = [])
    (discrete : ∀ s ∈ selectedIn schema.fields, s.shape.IsDiscrete)
    (own : isWellKnown t.name = false) (known : t.pool.Has t) (distinct : t.pool.IsDistinct)
    (names : t.pool.NamesValues) (policy : Option ErrorPolicy) (fallback : Bool) (m m' : Message)
    (hm : m.IsA t) (hm' : m'.IsA t) :
    ∃ d d', Progress.ofMessage m schema policy fallback = .finished d none ∧
      Progress.ofMessage m' schema policy fallback = .finished d' none ∧
      (d.toJson 0 = d'.toJson 0 ↔ agreeOn m m' schema.fields) := by
  have narrows := narrowsAll_of_compileMask compiled distinct known plain
  obtain ⟨_, _, _, mirrors⟩ := mirrors_of_compileMask compiled
  have selected := mirrors.selectsOnce once
  have told : Faithful (Message.IsA t) (fun m m' => agreeOn m m' schema.fields)
      fun m => do return Json.object (← Direct.members Direct.absent m schema.fields) :=
    Direct.members_faithful (nodup_of_selectsOnce selected)
      (Direct.fields_faithful schema.fields names narrows discrete selected)
  have form : ∀ m : Message, m.IsA t → Direct.body Direct.absent m schema =
      do return Json.object (← Direct.members Direct.absent m schema.fields) := by
    intro m hm
    unfold Direct.body
    rw [hm.type, own]
    rfl
  obtain ⟨j, hj⟩ := told.isOk m hm
  obtain ⟨j', hj'⟩ := told.isOk m' hm'
  obtain ⟨d, ends, rfl⟩ := Progress.exists_finished plain ((form m hm).trans hj) policy fallback
  obtain ⟨d', ends', rfl⟩ := Progress.exists_finished plain ((form m' hm').trans hj') policy fallback
  exact ⟨d, d', ends, ends', told.eq_iff hm hm' hj hj'⟩

namespace Sample

/-- The titles of a list of items. -/
def listing : List MaskField := [.mk "bases" none [.mk "title" none [] none] none]

def listingSchema : Schema :=
  (compileMask (pool.message "Bases") listing place).toOption.getD ⟨"", []⟩

theorem compiles_listing :
    compileMask (pool.message "Bases") listing place = .ok listingSchema :=
  Outcome.eq_ok_getD (by decide +kernel)

theorem itemOf_exact (text : String) : (itemOf text).IsExact := by
  refine Message.isExact_of_flat (fun e he => ?_) fun f hf s stored => ?_
  · rw [List.mem_singleton.mp he]
    exact ⟨_, rfl⟩
  · obtain rfl := List.mem_singleton.mp hf
    cases stored
    rfl

theorem basesOf_isA (texts : List String) : (basesOf texts).IsA (pool.message "Bases") := by
  refine ⟨rfl, basesOf_typed texts, fun x hx => ?_⟩
  cases hx with
  | self =>
    intro f hf v hv
    obtain rfl := List.mem_singleton.mp hf
    obtain rfl := value?_basesOf hv
    exact ⟨by simp [Value.parts], by simp⟩
  | field stored part deep =>
    rcases Message.value?_cases stored with stored | ⟨_, _, rfl⟩ | ⟨_, _, _, rfl⟩
    · have kept := List.mem_singleton.mp (Message.mem_of_stored? stored)
      cases congrArg Prod.snd kept
      obtain ⟨text, _, same⟩ := List.mem_map.mp part
      cases same
      exact itemOf_exact text _ deep
    · cases part
    · cases part

end Sample

/-- A list with an item that has no title has another body than the list without this item. -/
theorem untitled_item_is_not_lost : ∃ d d',
    Progress.ofMessage (Sample.basesOf ["knot", ""]) Sample.listingSchema none false =
      .finished d none ∧
    Progress.ofMessage (Sample.basesOf ["knot"]) Sample.listingSchema none false = .finished d' none ∧
    d.toJson 0 ≠ d'.toJson 0 := by
  obtain ⟨d, d', ends, ends', same_iff⟩ := equal_bodies_have_equal_contents
    (Sample.pool.message "Bases") Sample.listing Sample.place Sample.listingSchema
    Sample.compiles_listing ⟨by decide, ⟨by decide, trivial, trivial⟩, trivial⟩
    (List.isEmpty_iff.mp (by decide +kernel)) (by decide +kernel) (by decide +kernel)
    (Sample.pool.has_message "Bases") (by unfold Proto.Pool.IsDistinct; decide +kernel)
    (by intro e he; cases he) none false _ _
    (Sample.basesOf_isA ["knot", ""]) (Sample.basesOf_isA ["knot"])
  refine ⟨d, d', ends, ends', fun same => ?_⟩
  obtain ⟨agree, _⟩ := same_iff.mp same
  change Option.Rel (Container.list.Agree _) (some (.list _)) (some (.list _)) at agree
  cases agree with
  | some items =>
    change List.Forall₂ _ _ _ at items
    cases items.length_eq

end Patchwork
