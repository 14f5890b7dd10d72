import Patchwork.Schema.Basic

/-!
# Levels of relations

The relations of a schema by how many relations lie around them. The levels together hold each
relation of the schema once, and there are no more of them than relations lie one inside the other.
-/

namespace Patchwork

mutual
/-- The relations selected in a shape with no relation around them. -/
def Shape.relations : Shape → List Selected
  | .scalar _ => []
  | .message _ fields => relationsIn fields

def relationsIn : List Selected → List Selected
  | [] => []
  | s :: rest => s.relations ++ relationsIn rest

/-- The same for a field, which hides what lies inside it when it is a relation. -/
def Selected.relations : Selected → List Selected
  | .mk info shape => if info.relation.isSome then [.mk info shape] else shape.relations
end

/-- The relations one level further inside. -/
def deeper (ss : List Selected) : List Selected := ss.flatMap (·.shape.relations)

/-- The relations with exactly `k` relations around them. -/
def level (fields : List Selected) : Nat → List Selected
  | 0 => relationsIn fields
  | k + 1 => deeper (level fields k)

mutual
/-- How many relations are selected in a shape, at any depth. -/
def Shape.relationCount : Shape → Nat
  | .scalar _ => 0
  | .message _ fields => relationCount fields

def relationCount : List Selected → Nat
  | [] => 0
  | s :: rest => s.relationCount + relationCount rest

def Selected.relationCount : Selected → Nat
  | .mk info shape => (if info.relation.isSome then 1 else 0) + shape.relationCount
end

theorem relationCount_append (xs ys : List Selected) :
    relationCount (xs ++ ys) = relationCount xs + relationCount ys := by
  induction xs with
  | nil => simp [relationCount]
  | cons x xs ih => simp [relationCount, ih, Nat.add_assoc]

mutual
/-- What is found with no relation around it is a relation. -/
theorem Shape.isSome_of_mem_relations :
    ∀ (shape : Shape) {s : Selected}, s ∈ shape.relations → s.info.relation.isSome
  | .scalar _, _, h => absurd h List.not_mem_nil
  | .message _ fields, _, h => isSome_of_mem_relationsIn fields h

theorem isSome_of_mem_relationsIn :
    ∀ (fields : List Selected) {s : Selected}, s ∈ relationsIn fields → s.info.relation.isSome
  | [], _, h => absurd h List.not_mem_nil
  | f :: rest, _, h => by
    rcases List.mem_append.mp h with h | h
    · exact Selected.isSome_of_mem_relations f h
    · exact isSome_of_mem_relationsIn rest h

theorem Selected.isSome_of_mem_relations :
    ∀ (f : Selected) {s : Selected}, s ∈ f.relations → s.info.relation.isSome
  | .mk info shape, s, h => by
    unfold Selected.relations at h
    split at h
    · next hr =>
      rw [List.mem_singleton.mp h]
      exact hr
    · exact Shape.isSome_of_mem_relations shape h
end

theorem isSome_of_mem_deeper {ss : List Selected} {s : Selected} (h : s ∈ deeper ss) :
    s.info.relation.isSome := by
  obtain ⟨t, _, hs⟩ := List.mem_flatMap.mp h
  exact t.shape.isSome_of_mem_relations hs

theorem isSome_of_mem_level {fields : List Selected} {s : Selected} (k : Nat)
    (h : s ∈ level fields k) : s.info.relation.isSome := by
  cases k with
  | zero => exact isSome_of_mem_relationsIn fields h
  | succ k => exact isSome_of_mem_deeper h

/-! ## Counting -/

mutual
/-- All relations of a shape lie in those with no relation around them. -/
theorem Shape.relationCount_relations : ∀ shape : Shape,
    Patchwork.relationCount shape.relations = shape.relationCount
  | .scalar _ => rfl
  | .message _ fields => relationCount_relationsIn fields

theorem relationCount_relationsIn : ∀ fields : List Selected,
    relationCount (relationsIn fields) = relationCount fields
  | [] => rfl
  | s :: rest => by
    rw [relationsIn, relationCount_append, Selected.relationCount_relations s,
      relationCount_relationsIn rest, relationCount]

theorem Selected.relationCount_relations : ∀ s : Selected,
    Patchwork.relationCount s.relations = s.relationCount
  | .mk info shape => by
    unfold Selected.relations
    split
    · simp [Patchwork.relationCount]
    · next h => simp [Selected.relationCount, h, Shape.relationCount_relations shape]
end

/-- A list of relations counts itself and what lies one level further inside. -/
theorem relationCount_eq_length_add {ss : List Selected}
    (h : ∀ s ∈ ss, s.info.relation.isSome) :
    relationCount ss = ss.length + relationCount (deeper ss) := by
  induction ss with
  | nil => rfl
  | cons s rest ih =>
    have hr := ih fun t ht => h t (List.mem_cons_of_mem _ ht)
    have hs : s.relationCount = 1 + s.shape.relationCount := by
      obtain ⟨info, shape⟩ := s
      have hi : info.relation.isSome := h _ (List.mem_cons_self ..)
      simp [Selected.relationCount, hi]
    have hd : relationCount (deeper (s :: rest)) =
        s.shape.relationCount + relationCount (deeper rest) := by
      rw [deeper, List.flatMap_cons, relationCount_append, Shape.relationCount_relations]
      rfl
    rw [relationCount, hr, hs, hd, List.length_cons]
    omega

/-- The first levels hold different relations of the schema. -/
theorem length_levels_add (fields : List Selected) (n : Nat) :
    ((List.range n).flatMap (level fields)).length + relationCount (level fields n) =
      relationCount fields := by
  induction n with
  | zero => simpa [level] using relationCount_relationsIn fields
  | succ n ih =>
    have hn : ∀ s ∈ level fields n, s.info.relation.isSome := fun _ => isSome_of_mem_level n
    have h := relationCount_eq_length_add hn
    rw [List.range_succ, List.flatMap_append, List.length_append]
    simp only [List.flatMap_cons, List.flatMap_nil, List.append_nil]
    have hl : relationCount (level fields (n + 1)) = relationCount (deeper (level fields n)) := rfl
    omega

theorem length_levels_le (fields : List Selected) (n : Nat) :
    ((List.range n).flatMap (level fields)).length ≤ relationCount fields := by
  have h := length_levels_add fields n
  omega

/-! ## Depth -/

theorem Selected.relationDepth_of_isSome {s : Selected} (h : s.info.relation.isSome) :
    s.relationDepth = 1 + s.shape.relationDepth := by
  obtain ⟨info, shape⟩ := s
  have hi : info.relation.isSome := h
  simp [Selected.relationDepth, hi]

mutual
theorem Shape.relationDepth_le : ∀ (shape : Shape) {s : Selected}, s ∈ shape.relations →
    s.relationDepth ≤ shape.relationDepth
  | .scalar _, _, h => absurd h List.not_mem_nil
  | .message _ fields, _, h => relationDepth_le_fieldsDepth fields h

theorem relationDepth_le_fieldsDepth : ∀ (fields : List Selected) {s : Selected},
    s ∈ relationsIn fields → s.relationDepth ≤ fieldsDepth fields
  | [], _, h => absurd h List.not_mem_nil
  | f :: rest, s, h => by
    unfold fieldsDepth
    rcases List.mem_append.mp h with h | h
    · exact Nat.le_trans (Selected.relationDepth_le f h) (Nat.le_max_left ..)
    · exact Nat.le_trans (relationDepth_le_fieldsDepth rest h) (Nat.le_max_right ..)

theorem Selected.relationDepth_le : ∀ (f : Selected) {s : Selected}, s ∈ f.relations →
    s.relationDepth ≤ f.relationDepth
  | .mk info shape, s, h => by
    unfold Selected.relations at h
    split at h
    · obtain rfl := List.mem_singleton.mp h
      exact Nat.le_refl _
    · next hr =>
      have hs := Shape.relationDepth_le shape h
      simp only [Selected.relationDepth, hr]
      omega
end

/-- Each level further inside leaves less room. -/
theorem relationDepth_add_le (fields : List Selected) (k : Nat) {s : Selected}
    (h : s ∈ level fields k) : s.relationDepth + k ≤ fieldsDepth fields := by
  induction k generalizing s with
  | zero => exact relationDepth_le_fieldsDepth fields h
  | succ k ih =>
    obtain ⟨t, ht, hs⟩ := List.mem_flatMap.mp h
    have hk := ih ht
    have hd := t.shape.relationDepth_le hs
    have ho := Selected.relationDepth_of_isSome (isSome_of_mem_level k ht)
    omega

/-- There are as many levels as relations that lie one inside the other. -/
theorem lt_fieldsDepth_of_mem_level {fields : List Selected} {k : Nat} {s : Selected}
    (h : s ∈ level fields k) : k < fieldsDepth fields := by
  have hk := relationDepth_add_le fields k h
  have ho := Selected.relationDepth_of_isSome (isSome_of_mem_level k h)
  omega

end Patchwork
