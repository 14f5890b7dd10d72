import Patchwork.Proofs.Exact

/-!
# Document order

The place of a relation in a body is told by its position, the way from the root to it. Formatting
leaves a patch for each relation that is selected of an object it comes by, and it comes by them in
the order of their positions: selections as in the mask, items as in their list, entries by key.
-/

namespace Patchwork
open Proto

/-- One turn on the way to a place in a body. -/
inductive Turn where
  /-- To the selection with an index in the mask of an object. -/
  | selection (i : Nat)
  | item (i : Nat)
  | entry (k : Key)

/-- Which of two turns at the same place comes first. -/
inductive Turn.Before : Turn → Turn → Prop
  | selection {i j : Nat} (lt : i < j) : Before (.selection i) (.selection j)
  | item {i j : Nat} (lt : i < j) : Before (.item i) (.item j)
  | entry {k l : Key} (le : k.le l = true) (ne : k ≠ l) : Before (.entry k) (.entry l)

/-- The way from a value to a place inside it. -/
abbrev Position := List Turn

/-- Where which relations of which objects are. -/
abbrev Places := Position → Message → Selected → Prop

/-- Inside a value of a shape a relation of an object is selected at a position. -/
inductive Shape.Leaves : Shape → Value → Places
  | relation {name : String} {fields : List Selected} {m : Message} {i : Nat} {s : Selected}
      (plain : isWellKnown m.type.name = false) (selected : fields[i]? = some s)
      (relation : s.info.relation.isSome) :
      Leaves (.message name fields) (.message m) [.selection i] m s
  | own {name : String} {fields : List Selected} {m base : Message} {i : Nat} {info : Selection}
      {shape : Shape} {f : Field} {v : Value} {q : Position} {s : Selected}
      (plain : isWellKnown m.type.name = false) (selected : fields[i]? = some (.mk info shape))
      (own : info.relation = none) (field : m.type.field? info.name = some f)
      (value : m.value? f = some v) (inside : shape.Leaves v q base s) :
      Leaves (.message name fields) (.message m) (.selection i :: q) base s
  | item {shape : Shape} {items : List Value} {base : Message} {i : Nat} {v : Value} {q : Position}
      {s : Selected} (there : items[i]? = some v) (inside : shape.Leaves v q base s) :
      Leaves shape (.list items) (.item i :: q) base s
  | entry {shape : Shape} {entries : List (Key × Value)} {base : Message} {k : Key} {v : Value}
      {q : Position} {s : Selected} (there : (k, v) ∈ entries) (inside : shape.Leaves v q base s) :
      Leaves shape (.map entries) (.entry k :: q) base s

/-! ## The order of keys -/

namespace Proto.Key

theorem le_total (a b : Key) : (a.le b || b.le a) = true := by
  cases a <;> cases b <;> simp [le, shape]
  case bool.bool a b => cases a <;> simp
  case int32.int32 a b => exact Int32.le_total a b
  case int64.int64 a b => exact Int64.le_total a b
  case uint32.uint32 a b => exact UInt32.le_total a b
  case uint64.uint64 a b => exact UInt64.le_total a b
  case string.string a b => exact String.le_total a b

theorem le_trans (a b c : Key) (hab : a.le b = true) (hbc : b.le c = true) : a.le c = true := by
  cases a <;> cases b <;> cases c <;> simp_all [le, shape]
  case bool.bool.bool a b c => cases b <;> simp_all
  case int32.int32.int32 a b c => exact Int32.le_trans hab hbc
  case int64.int64.int64 a b c => exact Int64.le_trans hab hbc
  case uint32.uint32.uint32 a b c => exact UInt32.le_trans hab hbc
  case uint64.uint64.uint64 a b c => exact UInt64.le_trans hab hbc
  case string.string.string a b c => exact String.le_trans hab hbc

end Proto.Key

theorem Formatting.sorted_sortEntries (entries : List (Key × Value)) :
    (sortEntries entries).Pairwise fun a b => a.1.le b.1 = true :=
  List.pairwise_mergeSort (fun a b c => Key.le_trans a.1 b.1 c.1)
    (fun a b => Key.le_total a.1 b.1) entries

theorem Formatting.sortEntries_perm (entries : List (Key × Value)) :
    (sortEntries entries).Perm entries :=
  List.mergeSort_perm _ _

/-- The entries of a map are gone through in the order of their keys. -/
theorem Formatting.pairwise_sortEntries {entries : List (Key × Value)}
    (distinct : (entries.map (·.1)).Nodup) :
    (sortEntries entries).Pairwise fun a b => Turn.Before (.entry a.1) (.entry b.1) := by
  have perm := sortEntries_perm entries
  have apart : (sortEntries entries).Pairwise fun a b => a.1 ≠ b.1 :=
    List.pairwise_map.mp ((perm.map Prod.fst).nodup_iff.mpr distinct)
  exact ((sorted_sortEntries entries).and apart).imp fun ⟨le, ne⟩ => .entry le ne

/-! ## Places in their order -/

/-- One position comes before another one. -/
abbrev Position.Before : Position → Position → Prop := List.Lex Turn.Before

/-- Patches with their positions are those of all the places, in the order of the positions. -/
structure Covers (L : Places) (placed : List (Position × Patch)) : Prop where
  ordered : placed.Pairwise fun x y => x.1.Before y.1
  iff : ∀ q base s, L q base s ↔ ∃ x ∈ placed, x.1 = q ∧ x.2.base = base ∧ x.2.field = s

/-- The places behind some turns. -/
def Along (parts : List (Turn × Places)) : Places := fun q base s =>
  ∃ x ∈ parts, ∃ rest, q = x.1 :: rest ∧ x.2 rest base s

namespace Covers

theorem congr {L M : Places} {placed : List (Position × Patch)} (h : Covers L placed)
    (same : ∀ q base s, M q base s ↔ L q base s) : Covers M placed :=
  ⟨h.ordered, fun q base s => (same q base s).trans (h.iff q base s)⟩

theorem nil : Covers (Along []) [] := ⟨.nil, by simp [Along]⟩

theorem single (p : Patch) : Covers (fun q base s => q = [] ∧ base = p.base ∧ s = p.field) [([], p)] where
  ordered := List.pairwise_singleton ..
  iff q base s := by simp only [List.mem_singleton, exists_eq_left, eq_comm]

/-- The places behind one turn come before those behind later ones. -/
theorem cons {t : Turn} {L : Places} {parts : List (Turn × Places)}
    {first others : List (Position × Patch)} (h : Covers L first) (rest : Covers (Along parts) others)
    (before : ∀ x ∈ parts, t.Before x.1) :
    Covers (Along ((t, L) :: parts)) (first.map (fun x => (t :: x.1, x.2)) ++ others) where
  ordered := by
    refine List.pairwise_append.mpr ⟨?_, rest.ordered, ?_⟩
    · exact List.pairwise_map.mpr (h.ordered.imp .cons)
    · intro x hx y hy
      obtain ⟨x, _, rfl⟩ := List.mem_map.mp hx
      obtain ⟨part, hp, q, hq, _⟩ := (rest.iff y.1 y.2.base y.2.field).mpr ⟨y, hy, rfl, rfl, rfl⟩
      dsimp only
      rw [hq]
      exact .rel (before part hp)
  iff q base s := by
    have split : Along ((t, L) :: parts) q base s ↔
        (∃ rest, q = t :: rest ∧ L rest base s) ∨ Along parts q base s := by simp [Along]
    rw [split, rest.iff]
    constructor
    · rintro (⟨q, rfl, there⟩ | ⟨x, hx, same⟩)
      · obtain ⟨x, hx, rfl, same⟩ := (h.iff q base s).mp there
        exact ⟨_, List.mem_append_left _ (List.mem_map_of_mem hx), rfl, same⟩
      · exact ⟨x, List.mem_append_right _ hx, same⟩
    · rintro ⟨x, hx, rfl, same⟩
      rcases List.mem_append.mp hx with hx | hx
      · obtain ⟨y, hy, rfl⟩ := List.mem_map.mp hx
        exact .inl ⟨y.1, rfl, (h.iff ..).mpr ⟨y, hy, rfl, same⟩⟩
      · exact .inr ⟨x, hx, rfl, same⟩

end Covers

namespace Formatting

/-- A step of formatting leaves the patches of the places, in their order. -/
def Lays (x : Formatting α) (L : Places) : Prop :=
  ∀ d a d', x d = .ok a d' → ∃ placed, d'.patches = d.patches ++ placed.map (·.2) ∧ Covers L placed

namespace Lays

variable {L M : Places} {x : Formatting α}

theorem congr (h : x.Lays L) (same : ∀ q base s, M q base s ↔ L q base s) : x.Lays M := by
  intro d a d' ha
  obtain ⟨placed, patches, covers⟩ := h d a d' ha
  exact ⟨placed, patches, covers.congr same⟩

theorem throw (e : Failure) : (throw e : Formatting α).Lays L := by
  intro d a d' ha
  cases ha

theorem pure (a : α) : (Pure.pure a : Formatting α).Lays (Along []) := by
  intro d a d' ha
  cases ha
  exact ⟨[], (List.append_nil _).symm, .nil⟩

theorem map (hx : x.Lays L) (f : α → β) : (x >>= fun a => Pure.pure (f a)).Lays L := by
  intro d b d' h
  obtain ⟨a, d₁, ha, h⟩ := run_bind_ok h
  cases h
  exact hx d a d' ha

/-- What is left first lies before what is left later. -/
theorem bind {t : Turn} {f : α → Formatting β} {parts : List (Turn × Places)} (hx : x.Lays L)
    (hf : ∀ a, (f a).Lays (Along parts)) (before : ∀ y ∈ parts, t.Before y.1) :
    (x >>= f).Lays (Along ((t, L) :: parts)) := by
  intro d b d'' h
  obtain ⟨a, d', ha, h⟩ := run_bind_ok h
  obtain ⟨first, hfirst, covers⟩ := hx d a d' ha
  obtain ⟨others, hothers, rest⟩ := hf a d' b d'' h
  refine ⟨_, ?_, covers.cons rest before⟩
  rw [hothers, hfirst, List.map_append, List.map_map, List.append_assoc]
  rfl

theorem mapM {x : α → Formatting β} {items : List α} {parts : List (Turn × Places)}
    (h : List.Forall₂ (fun a part => (x a).Lays part.2) items parts)
    (before : parts.Pairwise fun y z => y.1.Before z.1) : (items.mapM x).Lays (Along parts) := by
  induction h with
  | nil => exact .pure []
  | @cons a part _ _ one rest ih =>
    obtain ⟨t, L⟩ := part
    obtain ⟨first, others⟩ := List.pairwise_cons.mp before
    rw [List.mapM_cons]
    exact one.bind (fun b => (ih others).map _) first

theorem wellKnown (m : Message) : (wellKnown m).Lays (Along []) := by
  unfold Formatting.wellKnown
  cases m.print with
  | ok j => exact .pure _
  | error e => exact .throw _

theorem reserve (m : Message) (s : Selected) (fallback : Bool) (target : Option Nat) :
    (reserve m s fallback target).Lays fun q base s' => q = [] ∧ base = m ∧ s' = s := by
  intro d a d' h
  cases h
  exact ⟨[([], _)], rfl, Covers.single (Patch.mk m d.slots _ s)⟩

end Lays
end Formatting

/-! ## Selected values -/

theorem pairwise_zipIdx (items : List α) (n : Nat) :
    (items.zipIdx n).Pairwise fun x y => x.2 < y.2 := by
  have increasing : ((items.zipIdx n).map (·.2)).Pairwise (· < ·) := by
    rw [List.zipIdx_map_snd]
    exact List.pairwise_lt_range'
  exact List.pairwise_map.mp increasing

theorem forall₂_zipIdx {R : α → β → Prop} {place : α × Nat → β} {items : List α} (n : Nat)
    (h : ∀ a ∈ items, ∀ i, R a (place (a, i))) :
    List.Forall₂ R items ((items.zipIdx n).map place) := by
  induction items generalizing n with
  | nil => exact .nil
  | cons a rest ih =>
    rw [List.zipIdx_cons, List.map_cons]
    exact .cons (h a (List.mem_cons_self ..) n)
      (ih (n + 1) fun b hb => h b (List.mem_cons_of_mem _ hb))

theorem along_map {xs : List α} {turn : α → Turn} {place : α → Places} {q : Position}
    {base : Message} {s : Selected} : Along (xs.map fun x => (turn x, place x)) q base s ↔
      ∃ x ∈ xs, ∃ rest, q = turn x :: rest ∧ place x rest base s := by
  simp [Along]

/-- Where the relations inside the value of a selected field are, or the field itself if it is one. -/
def Selected.LeavesIn (t : Selected) (m : Message) : Places := fun q base s =>
  if t.info.relation.isSome then q = [] ∧ base = m ∧ s = t
  else ∃ f v, m.type.field? t.info.name = some f ∧ m.value? f = some v ∧ t.shape.Leaves v q base s

/-- The parts of an object, the first of them at the index `n`. -/
def selectionsOf (m : Message) (fields : List Selected) (n : Nat) : List (Turn × Places) :=
  (fields.zipIdx n).map fun t => (.selection t.2, t.1.LeavesIn m)

theorem Shape.leaves_message {name : String} {fields : List Selected} {m base : Message}
    {q : Position} {s : Selected} (plain : isWellKnown m.type.name = false) :
    (Shape.message name fields).Leaves (.message m) q base s ↔
      Along (selectionsOf m fields 0) q base s := by
  simp only [selectionsOf, along_map, Prod.exists, List.mk_mem_zipIdx_iff_getElem?]
  constructor
  · intro h
    cases h with
    | @relation _ _ _ i s _ selected relation =>
      exact ⟨s, i, selected, [], rfl, by simp [Selected.LeavesIn, relation]⟩
    | @own _ _ _ _ i info shape f v q s _ selected own field value inside =>
      refine ⟨_, i, selected, q, rfl, ?_⟩
      simp only [Selected.LeavesIn, Selected.info_mk, own, Option.isSome_none, Bool.false_eq_true,
        if_false]
      exact ⟨f, v, field, value, inside⟩
  · rintro ⟨⟨info, shape⟩, i, selected, q, rfl, there⟩
    unfold Selected.LeavesIn at there
    by_cases relation : info.relation.isSome
    · obtain ⟨rfl, rfl, rfl⟩ := (if_pos relation).mp there
      exact .relation plain selected relation
    · obtain ⟨f, v, field, value, inside⟩ := (if_neg relation).mp there
      exact .own plain selected (Option.not_isSome_iff_eq_none.mp relation) field value inside

theorem Shape.leaves_list {shape : Shape} {items : List Value} {base : Message} {q : Position}
    {s : Selected} : shape.Leaves (.list items) q base s ↔
      Along (items.zipIdx.map fun x => (.item x.2, shape.Leaves x.1)) q base s := by
  simp only [along_map, Prod.exists, List.mk_mem_zipIdx_iff_getElem?]
  constructor
  · intro h
    cases h with
    | item there inside => exact ⟨_, _, there, _, rfl, inside⟩
  · rintro ⟨v, i, there, q, rfl, inside⟩
    exact .item there inside

theorem Shape.leaves_map {shape : Shape} {entries : List (Key × Value)} {base : Message}
    {q : Position} {s : Selected} : shape.Leaves (.map entries) q base s ↔
      Along ((Formatting.sortEntries entries).map fun e => (.entry e.1, shape.Leaves e.2)) q base s := by
  have perm := Formatting.sortEntries_perm entries
  simp only [along_map, Prod.exists, perm.mem_iff]
  constructor
  · intro h
    cases h with
    | entry there inside => exact ⟨_, _, there, _, rfl, inside⟩
  · rintro ⟨k, v, there, q, rfl, inside⟩
    exact .entry there inside

theorem Shape.not_leaves_scalar {t : ScalarType} {v : Value} {q : Position} {base : Message}
    {s : Selected} : ¬(Shape.scalar t).Leaves v q base s := by
  intro h
  generalize hs : Shape.scalar t = shape at h
  induction h with
  | relation => cases hs
  | own => cases hs
  | item there inside ih => exact ih hs
  | entry there inside ih => exact ih hs

theorem Shape.not_leaves_wellKnown {shape : Shape} {m : Message} (known : isWellKnown m.type.name = true)
    {q : Position} {base : Message} {s : Selected} : ¬shape.Leaves (.message m) q base s := by
  intro h
  cases h with
  | relation plain => simp [known] at plain
  | own plain => simp [known] at plain

namespace Formatting

/-- Nothing is left where nothing can be. -/
theorem Lays.of_none {x : Formatting α} {L : Places} (h : x.Lays (Along []))
    (none : ∀ q base s, ¬L q base s) : x.Lays L :=
  h.congr fun q base s => by simp [Along, none q base s]

/-- A value is formatted by its container. -/
theorem Lays.contain {container : Container} {f : Field} {shape : Shape} {v : Value}
    {element : Bool → Value → Formatting Node} (exactly : v.Matches f)
    (each : ∀ inside y, (∀ m, y = .message m → .message m ∈ v.parts) →
      (element inside y).Lays (shape.Leaves y)) :
    (contain container f v element).Lays (shape.Leaves v) := by
  unfold Formatting.contain
  split
  · next items =>
    refine .congr (.map (.mapM (forall₂_zipIdx 0 fun y hy i => ?_) ?_) _) fun _ _ _ =>
      Shape.leaves_list
    · exact each true y fun m hm => hm ▸ hy
    · exact List.pairwise_map.mpr ((pairwise_zipIdx items 0).imp .item)
  · next entries =>
    have perm := sortEntries_perm entries
    refine .congr (.map (.mapM ?_ ?_) _) fun _ _ _ => Shape.leaves_map
    · refine List.forall₂_map_right_iff.mpr (List.forall₂_same.mpr fun e he => .map ?_ _)
      exact each true e.2 fun m hm => hm ▸ List.mem_map_of_mem (perm.mem_iff.mp he)
    · exact List.pairwise_map.mpr (pairwise_sortEntries (exactly.keys entries rfl).1)
  · exact each false v fun m hm => by simp [hm, Value.parts]
  · exact .throw _

variable (fallback : Bool) (target : Option Nat)

mutual
theorem lays_element (pool : Pool) (k : Kind) : ∀ (shape : Shape) (inside : Bool) (v : Value),
    (∀ m, v = .message m → m.IsExact) →
      (element fallback target pool k shape inside v).Lays (shape.Leaves v)
  | .scalar t, inside, v, _ => by
    unfold element
    cases v with
    | scalar s => exact .of_none (.pure _) fun _ _ _ => Shape.not_leaves_scalar
    | message m => exact .throw _
    | list items => exact .throw _
    | map entries => exact .throw _
  | .message name fields, inside, v, isExact => by
    unfold element
    cases v with
    | message m =>
      dsimp only
      split
      · next known => exact .of_none (.wellKnown m) fun _ _ _ => Shape.not_leaves_wellKnown known
      · next plain =>
        refine .congr (.map (lays_members m (isExact m rfl) fields 0) _) fun _ _ _ =>
          Shape.leaves_message (by simpa using plain)
    | scalar s => exact .throw _
    | list items => exact .throw _
    | map entries => exact .throw _

theorem lays_members (m : Message) (isExact : m.IsExact) : ∀ (fields : List Selected) (n : Nat),
    (members fallback target m fields).Lays (Along (selectionsOf m fields n))
  | [], n => by
    unfold members
    exact .pure []
  | t :: rest, n => by
    unfold members
    refine (lays_member m isExact t).bind (fun here => (lays_members m isExact rest (n + 1)).map _) ?_
    intro part hp
    obtain ⟨⟨t, i⟩, ht, rfl⟩ := List.mem_map.mp hp
    exact .selection (List.le_snd_of_mem_zipIdx ht)

theorem lays_member (m : Message) (isExact : m.IsExact) : ∀ t : Selected,
    (member fallback target m t).Lays (t.LeavesIn m)
  | .mk info shape => by
    unfold member
    split
    · next relation =>
      refine .congr ((Lays.reserve m _ fallback target).map _) fun q base s => ?_
      simp [Selected.LeavesIn, relation]
    · next relation =>
      have there : ∀ q base s, (Selected.mk info shape).LeavesIn m q base s ↔ ∃ f v,
          m.type.field? info.name = some f ∧ m.value? f = some v ∧ shape.Leaves v q base s := by
        simp [Selected.LeavesIn, relation]
      cases field : m.type.field? info.name with
      | none => exact .throw _
      | some f =>
        dsimp only
        cases value : m.value? f with
        | none => exact .of_none (.pure _) (by simp [there, field, value])
        | some v =>
          have inside := isExact.value (List.mem_of_find?_eq_some field) value
          have lays : (contain info.container f v (element fallback target m.type.pool f.kind
              shape)).Lays (shape.Leaves v) :=
            .contain inside.here fun inner y hy =>
              lays_element m.type.pool f.kind shape inner y fun z hz => inside.inside z (hy z hz)
          exact .congr (lays.map _) fun q base s => by simp [there, field, value]
end

end Formatting

theorem Progress.group_of_enter {s : Stitched} {d : Document} {bs : List Batch}
    (h : enter s = .wave d bs) : Batch.group s.pending = .ok bs := by
  unfold enter at h
  split at h
  · cases h
  · next patches =>
    cases grouped : Batch.group s.pending with
    | error e =>
      rw [grouped] at h
      cases h
    | ok bs' =>
      rw [grouped] at h
      cases h
      rfl

/-- The first wave has a patch for each relation that is selected in the message, in document order. -/
theorem Progress.exists_placed {m : Message} {schema : Schema} {policy : Option ErrorPolicy}
    {fallback : Bool} {d : Document} {bs : List Batch} (isExact : m.IsExact)
    (h : ofMessage m schema policy fallback = .wave d bs) :
    ∃ placed : List (Position × Patch), Batch.group (placed.map (·.2)) = .ok bs ∧
      Covers ((Shape.message schema.name schema.fields).Leaves (.message m)) placed := by
  have lays : ∀ target, (formatMessage m schema target fallback).Lays
      ((Shape.message schema.name schema.fields).Leaves (.message m)) := by
    intro target
    unfold formatMessage
    split
    · next known => exact .of_none (.wellKnown m) fun _ _ _ => Shape.not_leaves_wellKnown known
    · next plain =>
      exact .congr ((Formatting.lays_members fallback target m isExact schema.fields 0).map _)
        fun _ _ _ => Shape.leaves_message (by simpa using plain)
  unfold ofMessage Document.format at h
  dsimp only at h
  split at h
  · next node patches d₁ hf =>
    split at hf
    · next draft ha =>
      cases hf
      obtain ⟨placed, patches, covers⟩ := lays _ _ _ _ ha
      refine ⟨placed, ?_, covers⟩
      rw [List.nil_append] at patches
      rw [← patches]
      exact group_of_enter h
    · cases hf
  · cases h

end Patchwork
