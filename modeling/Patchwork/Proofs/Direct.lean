import Patchwork.Format

/-!
# The direct recursion

A body as it would be computed object by object: each selected field is rendered where it stands,
and each selected relation is asked for the one object at hand. There are no slots, no batches and
no waves. The recursion fails where a value is not of the shape selected or has no JSON form. Of
several selections of one name the last one that has a value counts.
-/

namespace Patchwork.Direct
open Proto

/-- What each relation computes for params and one base, if anything. -/
abbrev Resolver := Relation → Option Message → Message → Option Value

/-- Relations that have no values. -/
def absent : Resolver := fun _ _ _ => none

/-- The value of a field by its container. -/
def contain (container : Container) (f : Field) (v : Value) (element : Bool → Value → Outcome Json) :
    Outcome Json :=
  match container, v with
  | .list, .list items => do return .arr (← items.mapM (element true))
  | .map .., .map entries => do
    return .object
      (← (Formatting.sortEntries entries).mapM fun (k, v) => do return (k.text, ← element true v))
  | .one, v => element false v
  | _, _ => .error (.internal (.wrongContainer f.name))

def wellKnown (m : Message) : Outcome Json :=
  match m.print with
  | .ok j => .ok j
  | .error e => .error (.serialization e)

section

variable (resolve : Resolver)

mutual
/-- One value, as far as it is selected. -/
def element (pool : Pool) (k : Kind) (shape : Shape) (inside : Bool) (v : Value) : Outcome Json :=
  match shape, v with
  | .message _ fields, .message m =>
    if isWellKnown m.type.name then wellKnown m
    else do return .object (← members m fields)
  | .message .., v => .error (.internal (.wrongElement (Formatting.describe v)))
  | .scalar _, .scalar s =>
    .ok (if inside && Formatting.isDefault s then .null else Formatting.scalarJson pool k s)
  | .scalar _, v => .error (.internal (.notScalar (Formatting.describe v)))

/-- The selected fields that have a value. -/
def members (m : Message) (fields : List Selected) : Outcome (List (String × Json)) :=
  match fields with
  | [] => .ok []
  | s :: rest => do
    let here ← member m s
    return here.toList.map (s.name, ·) ++ (← members m rest)

/-- The value of one selected field, or none. -/
def member (m : Message) (selected : Selected) : Outcome (Option Json) :=
  match selected with
  | .mk info shape =>
    match info.relation with
    | some r => match resolve r (info.params.map (·.message)) m with
      | none => .ok none
      | some v => do
        return some (← contain info.container r.field v (element r.method.pool r.field.kind shape))
    | none => match m.type.field? info.name with
      | none => .error (.internal (.noField info.name m.type.name))
      | some f => match m.value? f with
        | none => .ok none
        | some v => do
          return some (← contain info.container f v (element m.type.pool f.kind shape))
end

/-- The body of a message. -/
def body (m : Message) (schema : Schema) : Outcome Json :=
  if isWellKnown m.type.name then wellKnown m
  else do return .object (← members resolve m schema.fields)

/-- The value computed for a relation, as far as it is selected. -/
def relationValue (selected : Selected) (v : Value) : Outcome Json :=
  match selected.info.relation with
  | none => .error (.internal (.notRelation selected.info.path))
  | some r => contain selected.info.container r.field v
      (element resolve r.method.pool r.field.kind selected.shape)

end

/-! ## Names selected twice -/

theorem lookup_cons_eq_ite {α β : Type} [DecidableEq α] (a k : α) (v : β) (rest : List (α × β)) :
    ((k, v) :: rest).lookup a = if a = k then some v else rest.lookup a := by
  rw [List.lookup_cons]
  by_cases h : a = k
  · rw [if_pos h, beq_iff_eq.mpr h]
  · rw [if_neg h, beq_eq_false_iff_ne.mpr h]

theorem lookup_insert (name k : String) (v : Json) (ms : List (String × Json)) :
    (Json.insert k v ms).lookup name = if name = k then some v else ms.lookup name := by
  induction ms with
  | nil => exact lookup_cons_eq_ite name k v []
  | cons e rest ih =>
    obtain ⟨l, w⟩ := e
    unfold Json.insert
    by_cases hk : k = l
    · subst hk
      rw [if_pos rfl, lookup_cons_eq_ite, lookup_cons_eq_ite]
      by_cases hn : name = k <;> simp [hn]
    · rw [if_neg hk]
      split
      · exact lookup_cons_eq_ite name k v _
      · rw [lookup_cons_eq_ite, lookup_cons_eq_ite, ih]
        by_cases hn : name = l
        · subst hn
          rw [if_pos rfl, if_neg (Ne.symm hk), if_pos rfl]
        · rw [if_neg hn, if_neg hn]

/-- Under each name an object has the last member of that name. -/
theorem get?_object (name : String) (ms : List (String × Json)) :
    (Json.object ms).get? name = ms.reverse.lookup name := by
  have h : ∀ acc : List (String × Json),
      (ms.foldl (fun ms e => Json.insert e.1 e.2 ms) acc).lookup name =
        (ms.reverse.lookup name).or (acc.lookup name) := by
    induction ms with
    | nil => simp
    | cons e rest ih =>
      intro acc
      obtain ⟨k, v⟩ := e
      rw [List.foldl_cons, ih, lookup_insert, List.reverse_cons, List.lookup_append, Option.or_assoc,
        lookup_cons_eq_ite]
      by_cases hn : name = k <;> simp [hn]
  have h₀ : (Json.object ms).get? name = _ := h []
  rw [h₀, List.lookup_nil, Option.or_none]

/-- Under each name stands the value of the last selection of that name that has one. -/
theorem get?_members {resolve : Resolver} {m : Message} {fields : List Selected}
    {ms : List (String × Json)} (h : members resolve m fields = .ok ms) (name : String) :
    (Json.object ms).get? name = fields.reverse.findSome? fun s =>
      if s.name = name then (member resolve m s).toOption.join else none := by
  rw [get?_object]
  induction fields generalizing ms with
  | nil =>
    unfold members at h
    cases h
    rfl
  | cons s rest ih =>
    unfold members at h
    cases ho : member resolve m s with
    | error e =>
      rw [ho] at h
      cases h
    | ok o =>
      cases hr : members resolve m rest with
      | error e =>
        rw [ho, hr] at h
        cases h
      | ok ms' =>
        rw [ho, hr] at h
        cases h
        rw [List.reverse_append, List.lookup_append, ih hr, List.reverse_cons, List.findSome?_append]
        congr 1
        cases o with
        | none => simp [ho, Except.toOption]
        | some j =>
          have hl : [(s.name, j)].lookup name = if name = s.name then some j else none :=
            lookup_cons_eq_ite name s.name j []
          change [(s.name, j)].lookup name = _
          rw [hl]
          by_cases hn : s.name = name
          · simp [ho, hn, Except.toOption]
          · simp [hn, Ne.symm hn]

end Patchwork.Direct
