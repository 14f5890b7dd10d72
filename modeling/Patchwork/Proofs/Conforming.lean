import Patchwork.Proofs.Exact

/-!
# Values that conform to a schema

A schema says which fields an object may have and in which form their values stand there. Formatting
gives this form to typed values, whatever the relations among the fields come to.
-/

namespace Patchwork
open Proto

/-! ## Forms -/

/-- A finite number, or the text that stands for one that is not finite. -/
inductive Json.IsNumber : Json → Prop
  | finite {bits : UInt64} (finite : Binary.double.isFinite bits.toNat = true) : IsNumber (.float bits)
  | nan : IsNumber (.str "NaN")
  | infinity : IsNumber (.str "Infinity")
  | negativeInfinity : IsNumber (.str "-Infinity")

/-- The forms of the scalars of each type. An enum value is called by a name that its enum has for it,
and by its number if the enum has none. -/
inductive Proto.Scalar.HasForm (pool : Pool) : Kind → ScalarType → Scalar → Json → Prop
  | int32 (k : Kind) (n : Int32) : HasForm pool k .int32 (.int32 n) (.int n.toInt)
  | uint32 (k : Kind) (n : UInt32) : HasForm pool k .uint32 (.uint32 n) (.int n.toNat)
  | int64 (k : Kind) (n : Int64) : HasForm pool k .int64 (.int64 n) (.str (toString n.toInt))
  | uint64 (k : Kind) (n : UInt64) : HasForm pool k .uint64 (.uint64 n) (.str (toString n.toNat))
  | float (k : Kind) (bits : UInt32) {j : Json} (number : j.IsNumber) :
      HasForm pool k .float (.float bits) j
  | double (k : Kind) (bits : UInt64) {j : Json} (number : j.IsNumber) :
      HasForm pool k .double (.double bits) j
  | bool (k : Kind) (b : Bool) : HasForm pool k .bool (.bool b) (.bool b)
  | string (k : Kind) (text : String) : HasForm pool k .string (.string text) (.str text)
  | bytes (k : Kind) (bs : List UInt8) :
      HasForm pool k .bytes (.bytes bs) (.str (Base64.encode bs))
  | named {name text : String} {n : Int32} (value : (text, n) ∈ (pool.enum name).values) :
      HasForm pool (.enum name) .enum (.enum n) (.str text)
  | numbered {name : String} {n : Int32} (unnamed : ∀ text, (text, n) ∉ (pool.enum name).values) :
      HasForm pool (.enum name) .enum (.enum n) (.int n.toInt)
  | null (k : Kind) (n : Int32) : HasForm pool k .null (.enum n) .null

/-- The error value of some failure. -/
def Json.IsErrorValue (j : Json) : Prop := ∃ e path pool, j = errorValue e path pool

/-- A member tells error values from other objects. -/
theorem Json.IsErrorValue.mem_names {j : Json} (h : j.IsErrorValue) :
    ∃ ms, j = .obj ms ∧ "[@error]" ∈ ms.map (·.1) := by
  obtain ⟨e, path, pool, rfl⟩ := h
  refine ⟨_, Json.object_eq _, Json.mem_names_ofMembers.mpr ?_⟩
  simp

/-- A value in its container. A list has an item for each item, and an object a member for each entry
of a map, under the text of its key. `form` is the form of what stands in the container. -/
inductive Container.HasForm (form : Bool → Value → Json → Prop) : Container → Value → Json → Prop
  | one {v : Value} {j : Json} (alone : form false v j) : HasForm form .one v j
  | list {items : List Value} {js : List Json} (each : List.Forall₂ (form true) items js) :
      HasForm form .list (.list items) (.arr js)
  | map {key : ScalarType} {entries : List (Key × Value)} {ms : List (String × Json)}
      (distinct : (ms.map (·.1)).Nodup) (names : (ms.map (·.1)).Perm (entries.map (·.1.text)))
      (each : ∀ e ∈ entries, ∃ j, (e.1.text, j) ∈ ms ∧ form true e.2 j) :
      HasForm form (.map key) (.map entries) (.obj ms)

/-- The names of an object are those of the message's own fields that are lists, maps or set, as far as
they are selected. Nothing is said of relations. -/
def Proto.Message.Fills (m : Message) (fields : List Selected) (names : List String) : Prop :=
  ∀ s ∈ fields, s.info.relation = none → ∃ g, m.type.field? s.name = some g ∧
    (s.name ∈ names ↔ g.isList ∨ g.isMap ∨ m.has g)

section

variable (given : Message → Selected → Value → Prop)

mutual
/-- The form of an element by its shape. In a list or a map a default scalar is null. It is `given` which
values the relations of objects have. -/
def Shape.HasForm (pool : Pool) (k : Kind) (inside : Bool) (v : Value) (j : Json) : Shape → Prop
  | .scalar t => ∃ s, v = .scalar s ∧
      if inside && Formatting.isDefault s then j = .null else s.HasForm pool k t j
  | .message name fields => ∃ m, v = .message m ∧ m.type.name = name ∧
      if isWellKnown name then m.print = .ok j
      else ∃ ms, j = .obj ms ∧ Json.IsSorted ms ∧ (∀ e ∈ ms, haveForm m e.1 e.2 fields) ∧
        m.Fills fields (ms.map (·.1))

/-- The form of a member of an object: that of some field selected under its name. -/
def haveForm (m : Message) (name : String) (j : Json) : List Selected → Prop
  | [] => False
  | s :: rest => s.name = name ∧ s.HasForm m j ∨ haveForm m name j rest

/-- The form of a selected field's value. In the place of a relation's value there may be an error. -/
def Selected.HasForm (m : Message) (j : Json) : Selected → Prop
  | .mk info shape => match info.relation with
    | none => ∃ g v, m.type.field? info.name = some g ∧ m.value? g = some v ∧
        info.container.HasForm (fun inside y j => shape.HasForm m.type.pool g.kind inside y j) v j
    | some r => j.IsErrorValue ∨ ∃ v, given m (.mk info shape) v ∧
        info.container.HasForm
          (fun inside y j => shape.HasForm r.method.pool r.field.kind inside y j) v j
end

variable {given}

theorem Selected.hasForm_own {m : Message} {s : Selected} {g : Field} {v : Value} {j : Json}
    (plain : s.info.relation = none) (field : m.type.field? s.name = some g)
    (value : m.value? g = some v)
    (form : s.info.container.HasForm
      (fun inside y j => s.shape.HasForm given m.type.pool g.kind inside y j) v j) :
    s.HasForm given m j := by
  obtain ⟨info, shape⟩ := s
  have plain : info.relation = none := plain
  unfold HasForm
  simp only [plain]
  exact ⟨g, v, field, value, form⟩

theorem Selected.hasForm_error {m : Message} {s : Selected} {j : Json}
    (relation : s.info.relation.isSome) (error : j.IsErrorValue) : s.HasForm given m j := by
  obtain ⟨info, shape⟩ := s
  obtain ⟨r, hr⟩ := Option.isSome_iff_exists.mp relation
  have hr : info.relation = some r := hr
  unfold HasForm
  simp only [hr]
  exact .inl error

theorem Selected.hasForm_value {m : Message} {s : Selected} {r : Relation} {v : Value} {j : Json}
    (relation : s.info.relation = some r) (value : given m s v)
    (form : s.info.container.HasForm
      (fun inside y j => s.shape.HasForm given r.method.pool r.field.kind inside y j) v j) :
    s.HasForm given m j := by
  obtain ⟨info, shape⟩ := s
  have relation : info.relation = some r := relation
  unfold HasForm
  simp only [relation]
  exact .inr ⟨v, value, form⟩

theorem haveForm_iff {m : Message} {name : String} {j : Json} {fields : List Selected} :
    haveForm given m name j fields ↔ ∃ s ∈ fields, s.name = name ∧ s.HasForm given m j := by
  induction fields with
  | nil => simp [haveForm]
  | cons s rest ih => simp only [haveForm, ih, List.mem_cons, exists_eq_or_imp]

end

/-! ## Scalars -/

namespace Proto

theorem isNumber_doubleJson (bits : Nat) : (doubleJson bits).IsNumber := by
  unfold doubleJson
  split
  · exact .nan
  · split
    · next finite =>
      refine .finite ?_
      -- what a double does not have room for is not looked at
      have hm : Binary.double.magnitude (bits % 2 ^ 64) = Binary.double.magnitude bits :=
        Nat.mod_mod_of_dvd bits (by decide)
      rw [Nat.toUInt64, UInt64.toNat_ofNat', Binary.Format.isFinite, hm]
      exact finite
    · split
      · exact .negativeInfinity
      · exact .infinity

theorem isNumber_singleJson (pool : Pool) (k : Kind) (bits : UInt32) :
    (Formatting.scalarJson pool k (.float bits)).IsNumber := by
  simp only [Formatting.scalarJson]
  split <;> exact isNumber_doubleJson _

theorem EnumInfo.mem_of_name? {e : EnumInfo} {n : Int32} {text : String} (h : e.name? n = some text) :
    (text, n) ∈ e.values := by
  obtain ⟨⟨text', n'⟩, found, rfl⟩ := Option.map_eq_some_iff.mp h
  obtain rfl : n' = n := by simpa using List.find?_some found
  exact List.mem_of_find?_eq_some found

theorem EnumInfo.not_mem_of_name? {e : EnumInfo} {n : Int32} (h : e.name? n = none) (text : String) :
    (text, n) ∉ e.values := by
  intro hm
  have hn := List.find?_eq_none.mp (Option.map_eq_none_iff.mp h) _ hm
  exact hn (beq_self_eq_true n)

/-- A scalar of a kind is formatted by its type. -/
theorem Scalar.hasForm {pool pool' : Pool} {k : Kind} {t : ScalarType} {s : Scalar} (h : s.IsOf k)
    (element : Element.ofKind pool' k = .scalar t) :
    s.HasForm pool k t (Formatting.scalarJson pool k s) := by
  cases k with
  | message name => exact h.elim
  | scalar k =>
    obtain rfl : s.type = t := by
      have type : s.type = .ofKind k := h
      rw [type]
      exact Element.scalar.inj element
    cases s with
    | float bits => exact .float _ bits (isNumber_singleJson pool _ bits)
    | double bits => exact .double _ bits (isNumber_doubleJson _)
    | enum n =>
      have type : ScalarType.enum = .ofKind k := h
      cases k <;> cases type
    | bool b => exact .bool _ b
    | int32 n => exact .int32 _ n
    | int64 n => exact .int64 _ n
    | uint32 n => exact .uint32 _ n
    | uint64 n => exact .uint64 _ n
    | string text => exact .string _ text
    | bytes bs => exact .bytes _ bs
  | enum name =>
    have type : s.type = .enum := h
    cases s with
    | enum n =>
      have element : (if name = nullValue then ScalarType.null else .enum) = t :=
        Element.scalar.inj element
      subst element
      unfold Formatting.scalarJson Scalar.print
      dsimp only
      split
      · exact .null _ n
      · unfold enumJson
        split
        · next text named => exact .named (EnumInfo.mem_of_name? named)
        · next unnamed => exact .numbered (EnumInfo.not_mem_of_name? unnamed)
    | bool b | int32 n | int64 n | uint32 n | uint64 n | float bits | double bits | string text
    | bytes bs => cases type

end Proto

/-! ## Steps of formatting -/

/-- A node shows a value with a property. -/
def Node.Reads (P : Json → Prop) (env : Nat → Option Json) (n : Node) : Prop :=
  ∃ j, n.eval env = some j ∧ P j

theorem evalItems_forall₂ {P : α → Json → Prop} {env : Nat → Option Json} {items : List α}
    {ns : List Node} (h : List.Forall₂ (fun i n => n.Reads (P i) env) items ns) :
    List.Forall₂ P items (evalItems env ns) := by
  induction h with
  | nil => exact .nil
  | cons first rest ih =>
    obtain ⟨j, hj, form⟩ := first
    unfold evalItems
    rw [hj]
    exact .cons form ih

theorem evalMembers_forall₂ {P : α → Json → Prop} {name : α → String} {env : Nat → Option Json}
    {items : List α} {ns : List (String × Node)}
    (h : List.Forall₂ (fun i n => n.1 = name i ∧ n.2.Reads (P i) env) items ns) :
    List.Forall₂ (fun i m => m.1 = name i ∧ P i m.2) items (evalMembers env ns) := by
  induction h with
  | nil => exact .nil
  | cons first rest ih =>
    obtain ⟨same, j, hj, form⟩ := first
    unfold evalMembers
    rw [hj]
    exact .cons ⟨same, form⟩ ih

/-- Members made of the entries of a map, in some order, are the members of an object. -/
theorem Container.hasForm_map {form : Bool → Value → Json → Prop} {g : Field} {key : ScalarType}
    {entries sorted : List (Key × Value)} {ms : List (String × Json)}
    (isExact : (Value.map entries).Matches g) (perm : sorted.Perm entries)
    (each : List.Forall₂ (fun e m => m.1 = e.1.text ∧ form true e.2 m.2) sorted ms) :
    (Container.map key).HasForm form (.map entries) (Json.object ms) := by
  have names : ms.map (·.1) = sorted.map (·.1.text) := by
    have same : List.Forall₂ (· = ·) (ms.map (·.1)) (sorted.map (·.1.text)) :=
      List.forall₂_map_left_iff.mpr (List.forall₂_map_right_iff.mpr (each.imp fun _ _ h => h.1).flip)
    rwa [List.forall₂_eq_eq_eq] at same
  have texts : (ms.map (·.1)).Perm (entries.map (·.1.text)) := names ▸ perm.map _
  have all := Json.ofMembers_perm (texts.nodup_iff.mpr isExact.oneMap.nodup_texts)
  rw [Json.object_eq]
  refine .map (Json.isSorted_ofMembers ms).nodup ((all.map _).trans texts) fun e he => ?_
  obtain ⟨⟨name, j⟩, hm, rfl, hj⟩ := forall₂_exists_right each (perm.mem_iff.mpr he)
  exact ⟨j, all.mem_iff.mpr hm, hj⟩

namespace Formatting

/-- What a step of formatting gives has a property wherever the slots of the patches that it leaves
show, if anything, what is asked of them. -/
def Yields (x : Formatting α) (S : Patch → Json → Prop) (R : (Nat → Option Json) → α → Prop) : Prop :=
  ∀ d a d', x d = .ok a d' → ∃ new, d'.patches = d.patches ++ new ∧
    ∀ env, (∀ p ∈ new, ∀ j, env p.slot = some j → S p j) → R env a

section

variable {S : Patch → Json → Prop} {R : (Nat → Option Json) → β → Prop}

theorem Yields.mono {x : Formatting β} {T : (Nat → Option Json) → β → Prop} (hx : x.Yields S T)
    (h : ∀ env b, T env b → R env b) : x.Yields S R := by
  intro d b d' hb
  obtain ⟨new, hnew, ht⟩ := hx d b d' hb
  exact ⟨new, hnew, fun env shown => h env b (ht env shown)⟩

theorem Yields.pure {b : β} (h : ∀ env, R env b) : Yields (Pure.pure b) S R := by
  intro d a d' ha
  cases ha
  exact ⟨[], (List.append_nil _).symm, fun env _ => h env⟩

theorem Yields.throw (e : Failure) : Yields (throw e) S R := by
  intro d a d' ha
  cases ha

theorem Yields.bind {x : Formatting α} {f : α → Formatting β} {T : (Nat → Option Json) → α → Prop}
    (hx : x.Yields S T) (hf : ∀ a, (f a).Yields S fun env b => T env a → R env b) :
    (x >>= f).Yields S R := by
  intro d b d'' h
  obtain ⟨a, d', ha, h⟩ := run_bind_ok h
  obtain ⟨new, hnew, ht⟩ := hx d a d' ha
  obtain ⟨more, hmore, hr⟩ := hf a d' b d'' h
  refine ⟨new ++ more, by rw [hmore, hnew, List.append_assoc], fun env shown => ?_⟩
  exact hr env (fun p hp => shown p (List.mem_append_right _ hp))
    (ht env fun p hp => shown p (List.mem_append_left _ hp))

theorem Yields.map {x : Formatting α} {f : α → β} {T : (Nat → Option Json) → α → Prop}
    (hx : x.Yields S T) (hf : ∀ env a, T env a → R env (f a)) :
    (x >>= fun a => Pure.pure (f a)).Yields S R :=
  hx.bind fun a => .pure fun env => hf env a

theorem Yields.mapM {x : α → Formatting β} {items : List α}
    {T : α → (Nat → Option Json) → β → Prop} (h : ∀ i ∈ items, (x i).Yields S (T i)) :
    (items.mapM x).Yields S fun env bs => List.Forall₂ (fun i b => T i env b) items bs := by
  induction items with
  | nil => exact .pure fun _ => .nil
  | cons i rest ih =>
    rw [List.mapM_cons]
    have hr := ih fun j hj => h j (List.mem_cons_of_mem _ hj)
    refine (h i (List.mem_cons_self ..)).bind fun b => hr.bind fun bs => .pure fun env => ?_
    exact fun later first => .cons first later

theorem Yields.wellKnown (m : Message) :
    (wellKnown m).Yields S (Node.Reads fun j => m.print = .ok j) := by
  unfold Formatting.wellKnown
  cases hp : m.print with
  | ok j => exact .pure fun _ => ⟨j, rfl, rfl⟩
  | error cause => exact .throw _

/-- In the place of a relation stands what its slot shows. -/
theorem Yields.reserve (m : Message) (s : Selected) (fallback : Bool) (target : Option Nat) :
    (reserve m s fallback target).Yields S fun env n =>
      ∀ j, n.eval env = some j → ∃ p : Patch, p.base = m ∧ p.field = s ∧ S p j := by
  intro d a d' h
  cases h
  exact ⟨_, rfl, fun env shown j hj => ⟨_, rfl, rfl, shown _ (List.mem_singleton_self _) j hj⟩⟩

theorem Yields.format {x : Formatting Node} {R : (Nat → Option Json) → Node → Prop} {d d' : Document}
    {node : Node} {new : List Patch} (h : x.Yields S R) (hf : d.format x = (.ok (node, new), d'))
    {env : Nat → Option Json} (shown : ∀ p ∈ new, ∀ j, env p.slot = some j → S p j) :
    R env node := by
  unfold Document.format at hf
  split at hf
  · next a draft ha =>
    cases hf
    obtain ⟨new, hnew, hr⟩ := h _ _ _ ha
    refine hr env fun p hp => shown p ?_
    rw [hnew]
    exact hp
  · cases hf

/-- A value that fits its field is formatted by its container. -/
theorem Yields.contain {pool : Pool} {g : Field} {v : Value} {x : Bool → Value → Formatting Node}
    {form : Bool → Value → Json → Prop} (fits : v.Fits pool g) (isExact : v.Matches g) (named : Field)
    (hx : ∀ inside, ∀ y ∈ v.parts, y.Holds pool g.kind →
      (x inside y).Yields S (Node.Reads (form inside y))) :
    (contain (.ofArity g.arity) named v x).Yields S
      (Node.Reads ((Container.ofArity g.arity).HasForm form v)) := by
  cases fits with
  | single arity holds =>
    rw [arity]
    refine (hx false v (holds.parts ▸ List.mem_singleton_self _) holds).mono fun env n => ?_
    rintro ⟨j, hj, form⟩
    exact ⟨j, hj, .one form⟩
  | list arity holds =>
    rw [arity]
    refine (Yields.mapM fun y hy => hx true y hy (holds y hy)).map fun env ns each => ?_
    exact ⟨_, rfl, .list (evalItems_forall₂ each)⟩
  | @map _ _ entries _ _ arity holds =>
    have perm : (sortEntries entries).Perm entries := List.mergeSort_perm _ _
    rw [arity]
    refine (Yields.mapM (T := fun e env n => n.1 = e.1.text ∧ n.2.Reads (form true e.2) env)
      fun e he => ?_).map fun env ns each => ⟨_, rfl, Container.hasForm_map isExact perm ?_⟩
    · have he := perm.mem_iff.mp he
      exact (hx true e.2 (List.mem_map_of_mem he) (holds e he)).map fun env n hn => ⟨rfl, hn⟩
    · exact evalMembers_forall₂ each

end
end Formatting

/-! ## Selected values -/

/-- A field has a value if it is a list, a map or set. -/
theorem Proto.Message.isSome_value? {m : Message} {g : Field} :
    (m.value? g).isSome = true ↔ g.isList ∨ g.isMap ∨ m.has g := by
  unfold value?
  split
  · next h => simpa [or_assoc] using h
  · next h => simpa [or_assoc] using h

section

variable {given : Message → Selected → Value → Prop} {relations : List Relation}
  {Q : MessageType → Prop}

/-- The members that formatting gives of a message for what was selected of it. Each is in the form of a
selected field, and an own field that has a value is there. -/
structure Proto.Message.Reads (given : Message → Selected → Value → Prop) (m : Message)
    (fields : List Selected) (env : Nat → Option Json) (ms : List (String × Node)) : Prop where
  members : ∀ e ∈ evalMembers env ms, haveForm given m e.1 e.2 fields
  own : ∀ s ∈ fields, s.info.relation = none → ∃ g, m.type.field? s.name = some g ∧
    ((m.value? g).isSome = true → s.name ∈ (evalMembers env ms).map (·.1))

namespace Proto.Message.Reads

variable {m : Message} {s : Selected} {rest : List Selected} {env : Nat → Option Json}
  {ms ms' : List (String × Node)}

theorem cons (first : m.Reads given [s] env ms) (others : m.Reads given rest env ms') :
    m.Reads given (s :: rest) env (ms ++ ms') where
  members e he := by
    rw [evalMembers_append] at he
    rcases List.mem_append.mp he with he | he
    · obtain ⟨s', hs, form⟩ := haveForm_iff.mp (first.members e he)
      exact haveForm_iff.mpr ⟨s', List.mem_singleton.mp hs ▸ List.mem_cons_self .., form⟩
    · obtain ⟨s', hs, form⟩ := haveForm_iff.mp (others.members e he)
      exact haveForm_iff.mpr ⟨s', List.mem_cons_of_mem _ hs, form⟩
  own s' hs plain := by
    rw [evalMembers_append, List.map_append]
    rcases List.mem_cons.mp hs with rfl | hs
    · obtain ⟨g, field, there⟩ := first.own s' (List.mem_singleton_self _) plain
      exact ⟨g, field, fun h => List.mem_append_left _ (there h)⟩
    · obtain ⟨g, field, there⟩ := others.own s' hs plain
      exact ⟨g, field, fun h => List.mem_append_right _ (there h)⟩

/-- A single member. -/
theorem member {n : Node} (form : ∀ j, n.eval env = some j → s.HasForm given m j)
    (own : s.info.relation = none → ∃ g, m.type.field? s.name = some g ∧ (n.eval env).isSome) :
    m.Reads given [s] env [(s.name, n)] where
  members e he := by
    cases hj : n.eval env with
    | none => simp [evalMembers, hj] at he
    | some j =>
      have he : e = (s.name, j) := by simpa [evalMembers, hj] using he
      rw [he]
      exact haveForm_iff.mpr ⟨s, List.mem_singleton_self _, rfl, form j hj⟩
  own s' hs plain := by
    rw [List.mem_singleton.mp hs] at plain ⊢
    obtain ⟨g, field, there⟩ := own plain
    obtain ⟨j, hj⟩ := Option.isSome_iff_exists.mp there
    exact ⟨g, field, fun _ => by simp [evalMembers, hj]⟩

/-- Where selections of one name are of one field, an own field without a value is not there. -/
theorem fills {fields : List Selected} (h : m.Reads given fields env ms)
    (uniform : ∀ s ∈ fields, ∀ s' ∈ fields, s.name = s'.name → s.info.relation = s'.info.relation) :
    m.Fills fields ((Json.ofMembers (evalMembers env ms)).map (·.1)) := by
  intro s hs plain
  obtain ⟨g, field, there⟩ := h.own s hs plain
  refine ⟨g, field, ?_⟩
  rw [Json.mem_names_ofMembers, ← isSome_value?]
  refine ⟨fun named => ?_, there⟩
  obtain ⟨e, he, name⟩ := List.mem_map.mp named
  obtain ⟨⟨info, shape⟩, hs', name', form⟩ := haveForm_iff.mp (h.members e he)
  have name : info.name = s.name := name'.trans name
  have plain : info.relation = none := (uniform _ hs' s hs name).trans plain
  unfold Selected.HasForm at form
  simp only [plain] at form
  obtain ⟨g', v, field', value, _⟩ := form
  rw [name, field] at field'
  cases field'
  rw [value]
  rfl

end Proto.Message.Reads

/-- A patch that shows what its field may have. -/
def Patch.HasForm (given : Message → Selected → Value → Prop) (p : Patch) (j : Json) : Prop :=
  p.field.HasForm given p.base j

/-- What is of an element of the catalog is formatted in the form of the shape. -/
def Shape.Forms (given : Message → Selected → Value → Prop) (Q : MessageType → Prop) (shape : Shape)
    (e : Element) : Prop :=
  ∀ fallback target pool pool' k inside y, Element.ofKind pool' k = e → y.Holds pool k →
    (∀ u, Element.ofKind pool k = .message u → Q u) → (∀ s, y = .scalar s → s.IsOf k) →
    (∀ m, y = .message m → m.IsExact) →
    (Formatting.element fallback target pool k shape inside y).Yields (Patch.HasForm given)
      (Node.Reads fun j => shape.HasForm given pool k inside y j)

theorem Shape.forms_scalar (t : ScalarType) : (Shape.scalar t).Forms given Q (.scalar t) := by
  intro fallback target pool pool' k inside y he hy _ isExact _
  have form : ∀ s : Scalar, s.IsOf k → (Shape.scalar t).HasForm given pool k inside (.scalar s)
      (if inside && Formatting.isDefault s then .null else Formatting.scalarJson pool k s) := by
    intro s hs
    unfold Shape.HasForm
    refine ⟨s, rfl, ?_⟩
    split
    · rfl
    · exact Scalar.hasForm hs he
  unfold Formatting.element
  cases hy with
  | scalar pool k s => exact .pure fun _ => ⟨_, rfl, form s (isExact s rfl)⟩
  | enum pool name s => exact .pure fun _ => ⟨_, rfl, form s (isExact s rfl)⟩
  | message => cases he

theorem Shape.forms_message {t : MessageType} {name : String} {fields : List Selected}
    (named : name = t.name)
    (uniform : ∀ s ∈ fields, ∀ s' ∈ fields, s.name = s'.name → s.info.relation = s'.info.relation)
    (hm : ∀ fallback target x, ReadsAs Q t x → isWellKnown x.type.name = false → x.IsExact →
      (Formatting.members fallback target x fields).Yields (Patch.HasForm given)
        (x.Reads given fields)) :
    (Shape.message name fields).Forms given Q (.message t) := by
  intro fallback target pool pool' k inside y he hy hQ _ isExact
  unfold Formatting.element
  cases hy with
  | scalar => cases he
  | enum => cases he
  | @message _ nm y type typed =>
    cases he
    have name : y.type.name = name := by
      rw [named, type, Pool.name_message, Pool.name_message]
    dsimp only
    cases hw : isWellKnown y.type.name with
    | true =>
      refine (Formatting.Yields.wellKnown y).mono fun env n => ?_
      rintro ⟨j, hj, print⟩
      refine ⟨j, hj, ?_⟩
      unfold Shape.HasForm
      refine ⟨y, rfl, name, ?_⟩
      rw [← name, if_pos hw]
      exact print
    | false =>
      have hy : ReadsAs Q (pool'.message nm) y :=
        ⟨type ▸ hQ _ rfl, name.trans named, typed⟩
      refine (hm fallback target y hy hw (isExact y rfl)).map fun env ms reads => ?_
      refine ⟨_, rfl, ?_⟩
      unfold Shape.HasForm
      refine ⟨y, rfl, name, ?_⟩
      rw [← name, if_neg (hw ▸ Bool.false_ne_true)]
      exact ⟨_, rfl, Json.isSorted_ofMembers _,
        fun e he => reads.members e (Json.ofMembers_subset _ he), reads.fills uniform⟩

/-- And so is what stands in a container. -/
theorem Shape.Forms.contain {shape : Shape} {e : Element} {pool pool' : Pool} {g : Field} {v : Value}
    (h : shape.Forms given Q e) (element : Element.ofKind pool' g.kind = e)
    (known : ∀ u, Element.ofKind pool g.kind = .message u → Q u) (fits : v.Fits pool g)
    (isExact : v.IsExact g) (fallback : Bool) (target : Option Nat) :
    (Formatting.contain (.ofArity g.arity) g v
      (Formatting.element fallback target pool g.kind shape)).Yields (Patch.HasForm given)
      (Node.Reads ((Container.ofArity g.arity).HasForm
        (fun inside y j => shape.HasForm given pool g.kind inside y j) v)) := by
  refine .contain fits isExact.here g fun inside y hy holds => ?_
  exact h fallback target pool pool' g.kind inside y element holds known
    (fun s hs => isExact.here.scalar s (hs ▸ hy)) fun m hm => isExact.inside m (hm ▸ hy)

/-- A field that stands for something in a message is formatted in its form. -/
theorem Selected.Stands.forms {fallback : Bool} {target : Option Nat} {s : Selected} {e : Element}
    {x : Message} (h : s.Stands relations Q x e) (isExact : x.IsExact)
    (shape : s.shape.Forms given Q e) :
    (Formatting.member fallback target x s).Yields (Patch.HasForm given)
      fun env o => x.Reads given [s] env o.toList := by
  obtain ⟨info, shape'⟩ := s
  unfold Formatting.member
  cases h with
  | @own pool g relation field container element known fits =>
    rw [info_mk] at relation field container
    simp only [relation, field, Option.isSome_none, Bool.false_eq_true, if_false]
    cases hv : x.value? g with
    | none =>
      refine .pure fun env => ⟨by simp [evalMembers], fun s hs _ => ?_⟩
      rw [List.mem_singleton.mp hs]
      exact ⟨g, field, by simp [hv]⟩
    | some v =>
      have valueExact := isExact.value (List.mem_of_find?_eq_some field) hv
      rw [container]
      refine (shape.contain element known (fits v hv) valueExact fallback target).map fun env n => ?_
      rintro ⟨j, hj, form⟩
      refine Message.Reads.member (fun j' hj' => ?_) fun _ => ⟨g, field, by rw [hj]; rfl⟩
      cases hj.symm.trans hj'
      exact hasForm_own relation field hv (container ▸ form)
  | @relation r relation member base container element known =>
    rw [info_mk] at relation
    simp only [relation, Option.isSome_some, if_true]
    refine (Formatting.Yields.reserve x _ fallback target).map fun env n shown => ?_
    refine Message.Reads.member (fun j hj => ?_) fun plain => ?_
    · obtain ⟨p, rfl, field, form⟩ := shown j hj
      unfold Patch.HasForm at form
      rwa [field] at form
    · cases plain.symm.trans relation

/-- A selection is of the field that the catalog has under its name. -/
theorem SelectsOne.field? {t : MessageType} {m : MaskField} {s : Selected}
    (h : SelectsOne relations Q t m s) : ∃ c, (CatalogType.ofType relations t).field? s.name = some c ∧
      s.info.relation = c.relation := by
  cases h with
  | @scalar _ name _ _ _ _ f _ _ _ found _ | @message _ _ _ name _ _ _ _ f _ _ _ found _ _ _ _ =>
    have name : f.name = name := by simpa using List.find?_some found
    exact ⟨f, name ▸ found, rfl⟩

theorem Selects.exists_mask {t : MessageType} {mask : List MaskField} {fields : List Selected}
    (h : Selects relations Q t mask fields) {s : Selected} (hs : s ∈ fields) :
    ∃ m ∈ mask, SelectsOne relations Q t m s := by
  induction mask generalizing fields with
  | nil =>
    cases h
    cases hs
  | cons m rest ih =>
    cases h with
    | cons one more =>
      rcases List.mem_cons.mp hs with rfl | hs
      · exact ⟨m, List.mem_cons_self .., one⟩
      · obtain ⟨m', hm, one'⟩ := ih more hs
        exact ⟨m', List.mem_cons_of_mem _ hm, one'⟩

/-- Selections of one name are of one field. -/
theorem Selects.uniform {t : MessageType} {mask : List MaskField} {fields : List Selected}
    (h : Selects relations Q t mask fields) :
    ∀ s ∈ fields, ∀ s' ∈ fields, s.name = s'.name → s.info.relation = s'.info.relation := by
  intro s hs s' hs' name
  obtain ⟨_, _, one⟩ := h.exists_mask hs
  obtain ⟨_, _, one'⟩ := h.exists_mask hs'
  obtain ⟨c, found, relation⟩ := one.field?
  obtain ⟨c', found', relation'⟩ := one'.field?
  rw [name, found'] at found
  cases found
  exact relation.trans relation'.symm

mutual
theorem SelectsOne.forms (hQ : Unambiguous relations Q) : ∀ (m : MaskField) {t : MessageType}
    {s : Selected}, SelectsOne relations Q t m s →
      ∃ c, s.IsOf relations t c ∧ s.shape.Forms given Q c.element
  | .mk name given mask onError, t, s, h => by
    cases h with
    | @scalar _ _ _ _ _ _ f _ _ e found element =>
      exact ⟨f, CatalogType.isOf_of_field? found, element ▸ Shape.forms_scalar e⟩
    | @message _ u w _ _ _ _ _ f _ _ fields found element known named inside =>
      refine ⟨f, CatalogType.isOf_of_field? found, element ▸ ?_⟩
      refine Shape.forms_message named inside.uniform fun fallback target x hx plain isExact => ?_
      have hread : ReadsAs Q u x := ⟨hx.known, hx.name.trans named.symm, hx.typed⟩
      exact Selects.forms hQ mask inside known hread plain isExact

/-- What a mask selects of a typed message is formatted in its form. -/
theorem Selects.forms (hQ : Unambiguous relations Q) : ∀ (mask : List MaskField)
    {t : MessageType} {fields : List Selected} {fallback : Bool} {target : Option Nat} {x : Message},
    Selects relations Q t mask fields → Q t → ReadsAs Q t x → isWellKnown x.type.name = false →
      x.IsExact → (Formatting.members fallback target x fields).Yields (Patch.HasForm given)
        (x.Reads given fields)
  | [], t, fields, fallback, target, x, h, ht, hx, plain, isExact => by
    cases h
    unfold Formatting.members
    exact .pure fun env => ⟨by simp [evalMembers], by simp⟩
  | m :: mask, t, fields, fallback, target, x, h, ht, hx, plain, isExact => by
    cases h with
    | @cons _ _ _ s rest one more =>
      obtain ⟨c, hc, shape⟩ := SelectsOne.forms hQ m one
      have here : (Formatting.member fallback target x s).Yields (Patch.HasForm given)
          fun env o => x.Reads given [s] env o.toList := (hc.stands hQ ht hx).forms isExact shape
      have others : (Formatting.members fallback target x rest).Yields (Patch.HasForm given)
          (x.Reads given rest) := Selects.forms hQ mask more ht hx plain isExact
      unfold Formatting.members
      exact here.bind fun o => others.map fun env ms reads first => first.cons reads
end

/-- A schema is called after the type that it was compiled for. -/
theorem name_of_compileMask {t : MessageType} {mask : List MaskField} {place : Compile.Place}
    {schema : Schema} (h : compileMask t mask place = .ok schema) : schema.name = t.name := by
  unfold compileMask at h
  split at h
  · next x s' hs =>
    cases h
    obtain ⟨c, s₁, hd, h₁⟩ := run_bind_ok hs
    obtain ⟨fields, s₂, _, h₂⟩ := run_bind_ok h₁
    cases h₂
    have new : Compile.Cataloged place.relations (fun _ => True) ({} : Compilation).catalog := by
      intro d hd
      cases hd
    obtain ⟨_, u, _, hn, rfl⟩ := Compile.describe_spec hd trivial new
    exact hn
  · cases h

/-- The form of a message by a schema. -/
def Schema.HasForm (given : Message → Selected → Value → Prop) (schema : Schema) (m : Message)
    (j : Json) : Prop :=
  (Shape.message schema.name schema.fields).HasForm given m.type.pool (.message m.type.name) false
    (.message m) j

/-- The body of a typed message is formatted in the form of the schema. -/
theorem forms_message {pool : Pool} {name : String} {mask : List MaskField} {place : Compile.Place}
    {schema : Schema} {m : Message} {target : Option Nat} {fallback : Bool}
    (compiled : compileMask (pool.message name) mask place = .ok schema)
    (hQ : Unambiguous place.relations Q) (ht : Q (pool.message name)) (type : m.type = pool.message name)
    (typed : m.WellTyped) (isExact : m.IsExact) :
    (formatMessage m schema target fallback).Yields (Patch.HasForm given)
      (Node.Reads (schema.HasForm given m)) := by
  obtain ⟨⟨u, hu, hn, hs⟩, _⟩ := compileMask_spec hQ.closed ht compiled
  have shape : (Shape.message schema.name schema.fields).Forms given Q
      (.message (pool.message name)) := by
    refine Shape.forms_message (name_of_compileMask compiled) hs.uniform fun _ _ x hx plain isExact => ?_
    exact hs.forms hQ mask hu ⟨hx.known, hx.name.trans hn.symm, hx.typed⟩ plain isExact
  have known : ∀ u, Element.ofKind pool (.message name) = .message u → Q u := by
    rintro _ ⟨⟩
    exact ht
  have h := shape fallback target pool pool (.message name) false (.message m) rfl
    (.message type typed) known (by simp) fun y hy => by
      cases hy
      exact isExact
  unfold Schema.HasForm Shape.HasForm
  unfold Formatting.element Shape.HasForm at h
  exact h

/-- The value of a relation is formatted in its form. -/
theorem SelectsOne.forms_relationValue {t : MessageType} {m : MaskField} {s : Selected}
    {r : Relation} {v : Value} {target : Option Nat} {fallback : Bool}
    (one : SelectsOne relations Q t m s) (hQ : Unambiguous relations Q) (ht : Q t)
    (hr : s.info.relation = some r) (fits : v.Fits r.method.pool r.field) (isExact : v.IsExact r.field) :
    (formatRelationValue s v target fallback).Yields (Patch.HasForm given)
      (Node.Reads (s.info.container.HasForm
        (fun inside y j => s.shape.HasForm given r.method.pool r.field.kind inside y j) v)) := by
  obtain ⟨c, ⟨listed, _, container, relation⟩, shape⟩ := one.forms hQ m
  have hclosed := hQ.closed t ht c listed
  obtain ⟨_, ⟨g, _, rfl⟩ | ⟨r', _, rfl⟩⟩ := CatalogType.mem_fields listed
  · cases hr.symm.trans relation
  · cases hr.symm.trans relation
    unfold formatRelationValue
    simp only [hr, container]
    exact shape.contain rfl hclosed fits isExact fallback target

end

end Patchwork
