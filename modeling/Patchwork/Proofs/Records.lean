import Patchwork.Json.Record
import Patchwork.Proofs.JsonTexts

/-!
# Records

A record is opened to its members, and again from the object that is written of it. What is not said in
its members can be left out before it is opened.
-/

namespace Patchwork
open Json (Source RecordForm)

theorem mapM_eq_some_iff {α β : Type} {f : α → Option β} {xs : List α} {ys : List β} :
    xs.mapM f = some ys ↔ List.Forall₂ (fun x y => f x = some y) xs ys := by
  induction xs generalizing ys with
  | nil => simp [eq_comm]
  | cons x xs ih =>
    simp only [List.mapM_cons, Option.bind_eq_bind, Option.bind_eq_some_iff, Option.pure_def,
      Option.some.injEq, ih, List.forall₂_cons_left_iff]
    constructor
    · rintro ⟨y, hy, ys, hys, same⟩
      exact ⟨y, ys, hy, hys, same.symm⟩
    · rintro ⟨y, ys, hy, hys, same⟩
      exact ⟨y, hy, ys, hys, same.symm⟩

/-! ## Members -/

namespace Json

theorem lookup_ofMembers {ms : List (String × Json)} (distinct : (ms.map (·.1)).Nodup) (name : String) :
    (ofMembers ms).lookup name = ms.lookup name := by
  apply Option.ext
  intro x
  rw [lookup_eq_some_iff_mem (isSorted_ofMembers ms).nodup, lookup_eq_some_iff_mem distinct,
    (ofMembers_perm distinct).mem_iff]

theorem names_memberSources (ms : List (String × Json)) :
    (memberSources ms).any (·.1.isNone) = false := by
  induction ms with
  | nil => rfl
  | cons e ms ih =>
    obtain ⟨name, x⟩ := e
    simpa [memberSources] using ih

namespace RecordForm

variable {form : RecordForm}

theorem membersOf_cons (name : String) (n : Option String) (x : Source)
    (members : List (Option String × Source)) :
    membersOf name ((n, x) :: members) =
      if n = some name then x :: membersOf name members else membersOf name members := by
  by_cases same : n = some name <;> simp [membersOf, same]

theorem membersOf_append (name : String) (members members' : List (Option String × Source)) :
    membersOf name (members ++ members') = membersOf name members ++ membersOf name members' :=
  List.filterMap_append

/-- The sources of the members of a name are found in the object that is written. -/
theorem membersOf_memberSources {ms : List (String × Json)} (distinct : (ms.map (·.1)).Nodup)
    (name : String) : membersOf name (memberSources ms) = ((ms.lookup name).map source).toList := by
  induction ms with
  | nil => rfl
  | cons e ms ih =>
    obtain ⟨key, x⟩ := e
    obtain ⟨new, others⟩ := List.nodup_cons.mp distinct
    rw [memberSources, membersOf_cons, ih others]
    by_cases same : name = key
    · subst same
      have gone : ms.lookup name = none := by
        apply Option.eq_none_iff_forall_ne_some.mpr
        intro y found
        exact new (List.mem_map.mpr ⟨_, (lookup_eq_some_iff_mem others).mp found, rfl⟩)
      simp [gone]
    · simp [List.lookup_cons, beq_eq_false_iff_ne.mpr same, Ne.symm same]

/-- Each name of the form has at most one member. -/
theorem ofMembers?_eq_some_iff (opened : form.closed = false)
    {members : List (Option String × Source)} {parts : List (Option Source)} :
    form.ofMembers? members = some parts ↔ members.any (·.1.isNone) = false ∧
      List.Forall₂ (fun name part => membersOf name members = part.toList) form.names parts := by
  by_cases unnamed : members.any (·.1.isNone)
  · simp [ofMembers?, unnamed]
  · rw [ofMembers?, if_neg unnamed, if_neg (by simp [opened]), mapM_eq_some_iff]
    simp only [Bool.eq_false_of_not_eq_true unnamed, true_and]
    refine Iff.of_eq (congrArg (fun R => List.Forall₂ R form.names parts) ?_)
    funext name part
    apply propext
    cases membersOf name members with
    | nil => cases part <;> simp
    | cons x rest =>
      cases rest with
      | nil => cases part <;> simp
      | cons y rest => cases part <;> simp

/-- A record is opened again from the object that was written for it. -/
theorem open?_object (opened : form.closed = false) {ms : List (String × Json)}
    (distinct : (ms.map (·.1)).Nodup) :
    form.open? (object ms).source = some (form.names.map fun name => (ms.lookup name).map source) := by
  apply (ofMembers?_eq_some_iff opened).mpr
  refine ⟨names_memberSources _, ?_⟩
  simp only [List.forall₂_map_right_iff, List.forall₂_same]
  intro name _
  rw [← lookup_ofMembers distinct]
  exact membersOf_memberSources (isSorted_ofMembers ms).nodup name

/-- A record with its members named, where they were given by position. -/
def named (form : RecordForm) : Source → Source
  | .arr items => .obj ((form.names.map some).zip items)
  | x => x

theorem membersOf_zip_of_not_mem {name : String} {names : List String} (other : name ∉ names)
    (items : List Source) : membersOf name ((names.map some).zip items) = [] := by
  induction names generalizing items with
  | nil => rfl
  | cons n names ih =>
    obtain ⟨first, others⟩ := not_or.mp fun h => other (List.mem_cons.mpr h)
    cases items with
    | nil => rfl
    | cons x items =>
      simp [membersOf_cons, ih others items, Ne.symm first]

/-- The members that stand behind those of other names are found by position. -/
theorem membersOf_zip {names : List String} (distinct : names.Nodup) (items : List Source)
    (enough : items.length ≤ names.length) (before : List (Option String × Source))
    (apart : ∀ name ∈ names, membersOf name before = []) :
    List.Forall₂ (fun name part =>
        membersOf name (before ++ (names.map some).zip items) = part.toList)
      names (items.map some ++ List.replicate (names.length - items.length) none) := by
  induction names generalizing items before with
  | nil =>
    cases items with
    | nil => exact .nil
    | cons x items => simp at enough
  | cons n names ih =>
    obtain ⟨new, others⟩ := List.nodup_cons.mp distinct
    obtain ⟨first, rest⟩ := List.forall_mem_cons.mp apart
    cases items with
    | nil =>
      have tail := ih others [] (Nat.zero_le names.length) before rest
      simp only [List.zip_nil_right, List.append_nil] at tail
      simpa [List.replicate_succ, first] using tail
    | cons x items =>
      have after : ∀ name ∈ names, membersOf name (before ++ [(some n, x)]) = [] := by
        intro name hname
        have differs : n ≠ name := fun same => new (same ▸ hname)
        rw [membersOf_append, rest name hname, membersOf_cons, if_neg (by simpa using differs)]
        rfl
      have tail := ih others items (Nat.le_of_succ_le_succ enough) _ after
      have head : membersOf n (before ++ (some n, x) :: (names.map some).zip items) = [x] := by
        simp only [membersOf_append, first, membersOf_cons, if_pos, membersOf_zip_of_not_mem new items,
          List.nil_append]
      simp only [List.append_assoc, List.singleton_append] at tail
      simpa [head] using tail

theorem open?_named (opened : form.closed = false) (distinct : form.names.Nodup) {x : Source}
    {parts : List (Option Source)} (h : form.open? x = some parts) :
    form.open? (form.named x) = some parts := by
  cases x with
  | arr items =>
    rw [open?] at h
    split at h
    · cases h
    · next enough =>
      cases h
      apply (ofMembers?_eq_some_iff opened).mpr
      constructor
      · rw [List.any_eq_false]
        intro m hm
        obtain ⟨name, _, same⟩ := List.mem_map.mp (List.of_mem_zip hm).1
        simp [← same]
      · exact membersOf_zip distinct items (not_lt.mp enough) [] fun _ _ => rfl
  | null | bool b | num x | str s | obj members => exact h

/-- The members of a record with what is said in them, those left out in which nothing is said. -/
def condense (form : RecordForm) (said : String → Source → Option Source) (x : Source) : Source :=
  match form.named x with
  | .obj members => .obj (members.filterMap fun (n, x) => n.bind fun n => (said n x).map (some n, ·))
  | x => x

theorem membersOf_filterMap (said : String → Source → Option Source) (name : String)
    (members : List (Option String × Source)) :
    membersOf name (members.filterMap fun (n, x) => n.bind fun n => (said n x).map (some n, ·)) =
      (membersOf name members).filterMap (said name) := by
  induction members with
  | nil => rfl
  | cons m members ih =>
    obtain ⟨n, x⟩ := m
    cases n with
    | none => simpa [membersOf_cons] using ih
    | some n =>
      by_cases same : n = name
      · subst same
        cases h : said n x with
        | none => simp [membersOf_cons, h, ih]
        | some y => simp [membersOf_cons, h, ih]
      · cases h : said n x with
        | none => simp [membersOf_cons, h, ih, same]
        | some y => simp [membersOf_cons, h, ih, same]

/-- What is said in a record is all that is read of it. -/
theorem open?_condense (opened : form.closed = false) (distinct : form.names.Nodup)
    (said : String → Source → Option Source) {x : Source} {parts : List (Option Source)}
    (h : form.open? x = some parts) :
    form.open? (form.condense said x) =
      some (List.zipWith (fun name part => part.bind (said name)) form.names parts) := by
  replace h := open?_named opened distinct h
  unfold condense
  split
  · next members same =>
    rw [same] at h
    obtain ⟨_, each⟩ := (ofMembers?_eq_some_iff opened).mp h
    apply (ofMembers?_eq_some_iff opened).mpr
    constructor
    · rw [List.any_eq_false]
      intro m hm
      obtain ⟨⟨n, y⟩, _, kept⟩ := List.mem_filterMap.mp hm
      obtain ⟨name, _, kept⟩ := Option.bind_eq_some_iff.mp kept
      obtain ⟨z, _, rfl⟩ := Option.map_eq_some_iff.mp kept
      simp
    · simp only [membersOf_filterMap]
      clear h
      generalize form.names = names at each
      induction each with
      | nil => exact .nil
      | @cons name part _ _ found _ ih =>
        refine .cons ?_ ih
        rw [found]
        cases part with
        | none => rfl
        | some y => cases h : said name y <;> simp [h]
  · next other =>
    cases x with
    | arr items => exact absurd rfl (other _)
    | obj members => exact absurd rfl (other _)
    | null | bool b | num y | str t => cases h

end RecordForm

namespace Source

/-- A value that is not null. -/
def present? : Source → Option Source
  | .null => none
  | x => some x

/-- An array that is not empty, with each of its items in short. -/
def filled? (short : Source → Source) : Source → Option Source
  | .arr [] => none
  | .arr items => some (.arr (items.map short))
  | x => some x

theorem optional?_present? {α : Type} (read : Source → Option α) (part : Option Source) :
    optional? read (part.bind present?) = optional? read part := by
  cases part with
  | none => rfl
  | some x => cases x <;> rfl

/-- A value that was read is there, unless null can be read. -/
theorem optional?_eq_some_some_iff {α : Type} {read : Source → Option α} (strict : read .null = none)
    {x : Source} {a : α} : optional? read (some x) = some (some a) ↔ read x = some a := by
  cases x with
  | null => simp [optional?, strict]
  | bool b | num y | str s | arr items | obj members => simp [optional?]

theorem list?_filled? {α : Type} {read : Nat → Source → Option α} {short : Source → Source}
    (same : ∀ {room x a}, read room x = some a → read room (short x) = some a) {room : Nat}
    {part : Option Source} {values : List α} (h : withDefault? [] (list? read room) part = some values) :
    withDefault? [] (list? read room) (part.bind (filled? short)) = some values := by
  cases part with
  | none => exact h
  | some x =>
    cases x with
    | arr items =>
      cases room with
      | zero => cases h
      | succ room =>
        cases items with
        | nil => exact h
        | cons x items =>
          have each := mapM_eq_some_iff.mp h
          have again : List.Forall₂ (fun x a => read room (short x) = some a) (x :: items) values :=
            each.imp fun _ _ => same
          exact mapM_eq_some_iff.mpr (List.forall₂_map_left_iff.mpr again)
    | null | bool b | num y | str t | obj members => cases h

theorem pos_of_list? {α : Type} {read : Nat → Source → Option α} {room : Nat} {part : Option Source}
    {values : List α} (h : withDefault? [] (list? read room) part = some values) (some_value : values ≠ []) :
    0 < room := by
  cases room with
  | succ room => exact Nat.succ_pos room
  | zero =>
    cases part with
    | none =>
      cases h
      exact absurd rfl some_value
    | some x => cases x <;> cases h

/-- Values that were read from the items of an array are read from what is written of them. -/
theorem list?_written {α : Type} {read : Nat → Source → Option α} {write : α → Source} {P : α → Prop}
    {room : Nat} (again : ∀ {x a}, read (room - 1) x = some a → P a → read (room - 1) (write a) = some a)
    {part : Option Source} {values : List α} (h : withDefault? [] (list? read room) part = some values)
    (each : ∀ a ∈ values, P a) (positive : 0 < room) :
    list? read room (.arr (values.map write)) = some values := by
  obtain ⟨room, rfl⟩ := Nat.exists_eq_add_one.mpr positive
  cases part with
  | none =>
    cases h
    rfl
  | some x =>
    cases x with
    | arr items =>
      have found := mapM_eq_some_iff.mp h
      clear h
      apply mapM_eq_some_iff.mpr
      rw [List.forall₂_map_left_iff]
      induction found with
      | nil => exact .nil
      | cons hx _ ih =>
        obtain ⟨first, rest⟩ := List.forall_mem_cons.mp each
        exact .cons (again hx first) (ih rest)
    | null | bool b | num y | str t | obj members => cases h

theorem value?_ne_null (x : Numeral) : x.value? ≠ some .null := by
  intro h
  unfold Numeral.value? at h
  simp only at h
  split at h
  · cases h
  · split at h
    · cases h
    · obtain ⟨bits, _, same⟩ := Option.map_eq_some_iff.mp h
      cases same

/-- Only null is read as null. -/
theorem toJson?_ne_null {x : Source} (other : x ≠ .null) (room : Nat) : x.toJson? room ≠ some .null := by
  intro h
  cases x with
  | null => exact other rfl
  | bool b => cases h
  | num y => exact value?_ne_null y h
  | str s =>
    obtain ⟨t, _, same⟩ := Option.map_eq_some_iff.mp h
    cases same
  | arr items =>
    by_cases full : room = 0
    · simp [toJson?, full] at h
    · simp [toJson?, full] at h
  | obj members =>
    by_cases full : room = 0
    · simp [toJson?, full] at h
    · simp [toJson?, full, object_eq] at h

/-- An optional value that was read can be read from its text. -/
theorem optional?_source {room : Nat} {part : Option Source} {value : Option Json}
    (h : optional? (·.toJson? room) part = some value) (whole : ∀ j ∈ value, j.IsWhole) :
    optional? (·.toJson? room) (value.map source) = some value := by
  cases value with
  | none => rfl
  | some j =>
    cases part with
    | none => cases h
    | some x =>
      have other : x ≠ .null := by
        rintro rfl
        cases h
      have read : x.toJson? room = some j := by
        cases x with
        | null => exact absurd rfl other
        | bool b | num y | str s | arr items | obj members => simpa [optional?] using h
      have again := toJson?_source (fits_of_toJson? read) (whole j rfl)
      cases j with
      | null => exact absurd read (toJson?_ne_null other room)
      | bool b | int n | float bits | str s | arr items | obj members =>
        simpa [optional?, source] using again

end Source
end Json

end Patchwork
