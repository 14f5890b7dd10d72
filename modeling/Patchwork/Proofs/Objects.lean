import Mathlib
import Patchwork.Schema.Catalog

/-!
# Objects

The members of an object are sorted, so that no name occurs twice. The members of a map are named by
the texts of its keys. Keys of one type have different texts, so that none is lost.
-/

namespace Patchwork
open Proto

theorem lookup_eq_some_iff_mem {α β : Type} [BEq α] [LawfulBEq α] {l : List (α × β)} {k : α} {v : β}
    (distinct : (l.map (·.1)).Nodup) : l.lookup k = some v ↔ (k, v) ∈ l := by
  induction l with
  | nil => simp
  | cons e rest ih =>
    obtain ⟨l, w⟩ := e
    obtain ⟨new, others⟩ := List.nodup_cons.mp distinct
    rw [List.lookup_cons, List.mem_cons, ← ih others]
    by_cases same : k = l
    · subst same
      have gone : rest.lookup k ≠ some v := by
        intro found
        exact new (List.mem_map.mpr ⟨_, (ih others).mp found, rfl⟩)
      simp [gone, eq_comm]
    · simp [same, beq_eq_false_iff_ne.mpr same]

namespace Json

/-- Members in the strict order of their names. -/
def IsSorted (ms : List (String × Json)) : Prop := (ms.map (·.1)).Pairwise (· < ·)

theorem IsSorted.nodup {ms : List (String × Json)} (h : IsSorted ms) : (ms.map (·.1)).Nodup :=
  h.imp fun hlt => hlt.ne

/-- Sorted members are known by which they are. -/
theorem IsSorted.eq_of_perm {ms ms' : List (String × Json)} (h : IsSorted ms) (h' : IsSorted ms')
    (perm : ms.Perm ms') : ms = ms' := by
  apply perm.eq_of_pairwise _ (List.pairwise_map.mp h) (List.pairwise_map.mp h')
  intro a b _ _ hab hba
  exact absurd hba hab.asymm

section

variable {name : String} {value : Json} {ms : List (String × Json)}

theorem mem_insert {e : String × Json} (h : e ∈ insert name value ms) :
    e = (name, value) ∨ e ∈ ms := by
  induction ms with
  | nil => exact .inl (List.mem_singleton.mp h)
  | cons x rest ih =>
    obtain ⟨k, v⟩ := x
    unfold insert at h
    split at h
    · next hk =>
      rcases List.mem_cons.mp h with rfl | h
      · exact .inl (by rw [hk])
      · exact .inr (List.mem_cons_of_mem _ h)
    · split at h
      · exact List.mem_cons.mp h
      · rcases List.mem_cons.mp h with rfl | h
        · exact .inr (List.mem_cons_self ..)
        · exact (ih h).imp_right (List.mem_cons_of_mem _)

theorem mem_names_insert {k : String} :
    k ∈ (insert name value ms).map (·.1) ↔ k = name ∨ k ∈ ms.map (·.1) := by
  induction ms with
  | nil => simp
  | cons x rest ih =>
    obtain ⟨l, v⟩ := x
    unfold insert
    split
    · next hl =>
      subst hl
      simp
    · split
      · simp
      · simp only [List.map_cons, List.mem_cons, ih]
        exact or_left_comm

theorem IsSorted.insert (h : IsSorted ms) : IsSorted (insert name value ms) := by
  induction ms with
  | nil => exact List.pairwise_singleton ..
  | cons x rest ih =>
    obtain ⟨k, v⟩ := x
    obtain ⟨first, rest_sorted⟩ := List.pairwise_cons.mp h
    unfold Json.insert
    split
    · exact h
    · next hne =>
      split
      · next hlt =>
        refine List.pairwise_cons.mpr ⟨fun l hl => ?_, h⟩
        rcases List.mem_cons.mp hl with rfl | hl
        · exact hlt
        · exact hlt.trans (first l hl)
      · next hnlt =>
        refine List.pairwise_cons.mpr ⟨fun l hl => ?_, ih rest_sorted⟩
        rcases mem_names_insert.mp hl with rfl | hl
        · exact lt_of_le_of_ne (not_lt.mp hnlt) (Ne.symm hne)
        · exact first l hl

/-- A new name adds a member. -/
theorem insert_perm (new : name ∉ ms.map (·.1)) : (insert name value ms).Perm ((name, value) :: ms) := by
  induction ms with
  | nil => exact .refl _
  | cons x rest ih =>
    obtain ⟨k, v⟩ := x
    obtain ⟨hk, hrest⟩ := not_or.mp fun h => new (List.mem_cons.mpr h)
    unfold insert
    rw [if_neg hk]
    split
    · exact .refl _
    · exact ((ih hrest).cons _).trans (.swap ..)

end

/-- The members that an object is built from, one after the other. -/
def ofMembers (ms : List (String × Json)) : List (String × Json) :=
  ms.foldl (fun ms (k, v) => insert k v ms) []

theorem object_eq (ms : List (String × Json)) : object ms = .obj (ofMembers ms) := rfl

theorem ofMembers_append (ms : List (String × Json)) (name : String) (value : Json) :
    ofMembers (ms ++ [(name, value)]) = insert name value (ofMembers ms) := by
  rw [ofMembers, List.foldl_append]
  rfl

/-- An object holds each name once. -/
theorem isSorted_ofMembers (ms : List (String × Json)) : IsSorted (ofMembers ms) := by
  induction ms using List.reverseRecOn with
  | nil => exact .nil
  | append_singleton ms e ih =>
    rw [ofMembers_append]
    exact ih.insert

/-- It has no other members than those given. -/
theorem ofMembers_subset (ms : List (String × Json)) : ofMembers ms ⊆ ms := by
  induction ms using List.reverseRecOn with
  | nil => exact List.Subset.refl _
  | append_singleton ms e ih =>
    rw [ofMembers_append]
    intro x hx
    rcases mem_insert hx with rfl | hx
    · exact List.mem_append_right _ (List.mem_singleton_self _)
    · exact List.mem_append_left _ (ih hx)

/-- And all their names. -/
theorem mem_names_ofMembers {ms : List (String × Json)} {k : String} :
    k ∈ (ofMembers ms).map (·.1) ↔ k ∈ ms.map (·.1) := by
  induction ms using List.reverseRecOn with
  | nil => exact Iff.rfl
  | append_singleton ms e ih =>
    rw [ofMembers_append, mem_names_insert, ih]
    simp [or_comm]

/-- Where no name is given twice, all members are there. -/
theorem ofMembers_perm {ms : List (String × Json)} (distinct : (ms.map (·.1)).Nodup) :
    (ofMembers ms).Perm ms := by
  induction ms using List.reverseRecOn with
  | nil => exact .refl _
  | append_singleton ms e ih =>
    rw [List.map_append] at distinct
    obtain ⟨before, _, apart⟩ := List.nodup_append.mp distinct
    have new : e.1 ∉ (ofMembers ms).map (·.1) := fun h =>
      apart _ (mem_names_ofMembers.mp h) _ (List.mem_singleton_self _) rfl
    rw [ofMembers_append]
    exact ((insert_perm new).trans ((ih before).cons _)).trans (List.perm_append_singleton ..).symm

/-- The order in which members of different names are given does not matter. -/
theorem object_of_perm {ms ms' : List (String × Json)} (distinct : (ms.map (·.1)).Nodup)
    (perm : ms.Perm ms') : object ms = object ms' := by
  have distinct' : (ms'.map (·.1)).Nodup := (perm.map _).nodup_iff.mp distinct
  have same := (ofMembers_perm distinct).trans (perm.trans (ofMembers_perm distinct').symm)
  rw [object_eq, object_eq, (isSorted_ofMembers ms).eq_of_perm (isSorted_ofMembers ms') same]

theorem ofMembers_of_isSorted {ms : List (String × Json)} (h : IsSorted ms) : ofMembers ms = ms :=
  (isSorted_ofMembers ms).eq_of_perm h (ofMembers_perm h.nodup)

/-- An object is known by what stands under each name. -/
theorem object_ext {ms ms' : List (String × Json)}
    (h : ∀ name, (object ms).get? name = (object ms').get? name) : object ms = object ms' := by
  have sorted := isSorted_ofMembers ms
  have sorted' := isSorted_ofMembers ms'
  have perm : (ofMembers ms).Perm (ofMembers ms') := by
    apply (List.perm_ext_iff_of_nodup (.of_map _ sorted.nodup) (.of_map _ sorted'.nodup)).mpr
    intro e
    rw [← lookup_eq_some_iff_mem sorted.nodup, ← lookup_eq_some_iff_mem sorted'.nodup]
    exact iff_of_eq (congrArg (· = some e.2) (h e.1))
  rw [object_eq, object_eq, sorted.eq_of_perm sorted' perm]

/-- Of members with different names each is there. -/
theorem get?_object_iff {ms : List (String × Json)} (distinct : (ms.map (·.1)).Nodup) {name : String}
    {j : Json} : (object ms).get? name = some j ↔ (name, j) ∈ ms := by
  rw [← (ofMembers_perm distinct).mem_iff]
  exact lookup_eq_some_iff_mem (isSorted_ofMembers ms).nodup

end Json

/-! ## Keys -/

/-- The type of a scalar, that of enum values being one. -/
def Proto.Scalar.type : Scalar → ScalarType
  | .bool _ => .bool
  | .int32 _ => .int32
  | .int64 _ => .int64
  | .uint32 _ => .uint32
  | .uint64 _ => .uint64
  | .float _ => .float
  | .double _ => .double
  | .string _ => .string
  | .bytes _ => .bytes
  | .enum _ => .enum

theorem Proto.Key.text_injective {k l : Key} (type : k.toScalar.type = l.toScalar.type)
    (text : k.text = l.text) : k = l := by
  cases k with
  | bool b =>
    cases l with
    | bool c => cases b <;> cases c <;> simp_all [Key.text]
    | int32 n | int64 n | uint32 n | uint64 n | string s => cases type
  | int32 n =>
    cases l with
    | int32 n' => rw [Int32.toInt_inj.mp (Int.repr_injective text)]
    | bool b | int64 n' | uint32 n' | uint64 n' | string s => cases type
  | int64 n =>
    cases l with
    | int64 n' => rw [Int64.toInt_inj.mp (Int.repr_injective text)]
    | bool b | int32 n' | uint32 n' | uint64 n' | string s => cases type
  | uint32 n =>
    cases l with
    | uint32 n' => rw [UInt32.toNat_inj.mp (Nat.repr_injective text)]
    | bool b | int32 n' | int64 n' | uint64 n' | string s => cases type
  | uint64 n =>
    cases l with
    | uint64 n' => rw [UInt64.toNat_inj.mp (Nat.repr_injective text)]
    | bool b | int32 n' | int64 n' | uint32 n' | string s => cases type
  | string s =>
    cases l with
    | string s' => exact congrArg Key.string text
    | bool b | int32 n | int64 n | uint32 n | uint64 n => cases type

end Patchwork
