import Patchwork.Stitch

/-!
# Batches

Grouping puts each patch into the one batch of its relation and its params. No two batches have the
same relation and params, so there are no more batches than places a patch may come from.
-/

namespace Patchwork

/-- What patches that go together have in common: the relation, by its base and its name, and the
selection that the params belong to. -/
def Selected.key? (s : Selected) : Option (String × String × Option Nat) :=
  s.info.relation.map fun r => (r.base.name, r.name, s.info.params.map (·.selection))

namespace Batch

def key (b : Batch) : String × String × Option Nat :=
  (b.relation.base.name, b.relation.name, b.params.map (·.selection))

theorem takes_iff (b : Batch) (r : Relation) (params : Option Params) :
    b.takes r params = true ↔ b.key = (r.base.name, r.name, params.map (·.selection)) := by
  simp [takes, Relation.same, key, and_assoc]

/-- What can be said of the batches that patches were grouped into. -/
structure Grouped (patches : List Patch) (bs : List Batch) : Prop where
  perm : (bs.flatMap (·.entries)).Perm patches
  nodup : (bs.map key).Nodup
  entry : ∀ b ∈ bs, ∀ p ∈ b.entries, p.field.key? = some b.key
  head : ∀ b ∈ bs, ∃ p ∈ b.entries,
    p.field.info.relation = some b.relation ∧ p.field.info.params = b.params

theorem entries_insert (p : Patch) (r : Relation) (bs : List Batch) :
    ((insert p r bs).flatMap (·.entries)).Perm (p :: bs.flatMap (·.entries)) := by
  induction bs with
  | nil => exact .refl _
  | cons b rest ih =>
    unfold insert
    split
    · simp only [List.flatMap_cons, List.append_assoc, List.singleton_append]
      exact List.perm_middle
    · simp only [List.flatMap_cons]
      exact (ih.append_left _).trans List.perm_middle

theorem mem_insert {p : Patch} {r : Relation} {bs : List Batch} {c : Batch}
    (h : c ∈ insert p r bs) :
    c ∈ bs ∨ c = ⟨r, p.field.info.params, [p]⟩ ∨
      ∃ b ∈ bs, b.takes r p.field.info.params ∧ c = { b with entries := b.entries ++ [p] } := by
  induction bs with
  | nil => exact .inr (.inl (List.mem_singleton.mp h))
  | cons b rest ih =>
    unfold insert at h
    split at h
    · next ht =>
      rcases List.mem_cons.mp h with rfl | h
      · exact .inr (.inr ⟨b, List.mem_cons_self .., ht, rfl⟩)
      · exact .inl (List.mem_cons_of_mem _ h)
    · rcases List.mem_cons.mp h with rfl | h
      · exact .inl (List.mem_cons_self ..)
      · rcases ih h with h | h | ⟨b', hb, h⟩
        · exact .inl (List.mem_cons_of_mem _ h)
        · exact .inr (.inl h)
        · exact .inr (.inr ⟨b', List.mem_cons_of_mem _ hb, h⟩)

/-- A new key comes at the end, a known one changes nothing. -/
theorem keys_insert (p : Patch) (r : Relation) (bs : List Batch) :
    (insert p r bs).map key =
      if (r.base.name, r.name, p.field.info.params.map (·.selection)) ∈ bs.map key then bs.map key
      else bs.map key ++ [(r.base.name, r.name, p.field.info.params.map (·.selection))] := by
  induction bs with
  | nil => rfl
  | cons b rest ih =>
    unfold insert
    by_cases ht : b.takes r p.field.info.params
    · have hk := (takes_iff b r _).mp ht
      simp only [ht, if_true, List.map_cons, hk, List.mem_cons_self]
      exact congrArg (· :: _) hk
    · have hk := fun h => ht ((takes_iff b r _).mpr h)
      simp only [ht, List.map_cons, List.mem_cons, Ne.symm hk, false_or]
      simp only [Bool.false_eq_true, if_false, List.map_cons, ih]
      split <;> rfl

theorem Grouped.insert {patches : List Patch} {bs : List Batch} {p : Patch} {r : Relation}
    (h : Grouped patches bs) (hr : p.field.info.relation = some r) :
    Grouped (patches ++ [p]) (insert p r bs) where
  perm := (entries_insert p r bs).trans ((h.perm.cons p).trans (List.perm_append_singleton p _).symm)
  nodup := by
    rw [keys_insert]
    split
    · exact h.nodup
    · next hk =>
      refine List.nodup_append.mpr ⟨h.nodup, by simp, ?_⟩
      intro a ha b hb hab
      rw [List.mem_singleton.mp hb] at hab
      exact hk (hab ▸ ha)
  entry := by
    have hp : p.field.key? = some (r.base.name, r.name, p.field.info.params.map (·.selection)) := by
      simp [Selected.key?, hr]
    intro c hc q hq
    rcases mem_insert hc with hc | rfl | ⟨b, hb, ht, rfl⟩
    · exact h.entry c hc q hq
    · rw [List.mem_singleton.mp hq]
      exact hp
    · rcases List.mem_append.mp hq with hq | hq
      · exact h.entry b hb q hq
      · rw [List.mem_singleton.mp hq, hp, ← (takes_iff b r _).mp ht]
        rfl
  head := by
    intro c hc
    rcases mem_insert hc with hc | rfl | ⟨b, hb, _, rfl⟩
    · exact h.head c hc
    · exact ⟨p, List.mem_singleton_self _, hr, rfl⟩
    · obtain ⟨q, hq, h⟩ := h.head b hb
      exact ⟨q, List.mem_append_left _ hq, h⟩

/-- One step of grouping. -/
def add (bs : List Batch) (p : Patch) : Outcome (List Batch) :=
  match p.field.info.relation with
  | some r => .ok (insert p r bs)
  | none => .error (.internal (.notRelation p.field.info.path))

theorem group_eq (patches : List Patch) : group patches = patches.foldlM add [] := rfl

theorem grouped_foldlM {done patches : List Patch} {bs bs' : List Batch} (h : Grouped done bs)
    (hg : patches.foldlM add bs = .ok bs') : Grouped (done ++ patches) bs' := by
  induction patches generalizing done bs with
  | nil =>
    cases hg
    simpa using h
  | cons p rest ih =>
    rw [List.foldlM_cons, add] at hg
    cases hr : p.field.info.relation with
    | none =>
      rw [hr] at hg
      cases hg
    | some r =>
      rw [hr] at hg
      simpa using ih (h.insert hr) hg

/-- Grouping puts each patch into one batch, and no two batches go together. -/
theorem grouped_of_group {patches : List Patch} {bs : List Batch} (h : group patches = .ok bs) :
    Grouped patches bs := by
  have he : Grouped [] [] := ⟨.refl _, by simp, by simp, by simp⟩
  simpa using grouped_foldlM he h

/-- Grouping fails only on a patch that is of no relation. -/
theorem group_isOk {patches : List Patch} (h : ∀ p ∈ patches, p.field.info.relation.isSome) :
    ∃ bs, group patches = .ok bs := by
  rw [group_eq]
  generalize ([] : List Batch) = bs
  induction patches generalizing bs with
  | nil => exact ⟨bs, rfl⟩
  | cons p rest ih =>
    obtain ⟨r, hr⟩ := Option.isSome_iff_exists.mp (h p (List.mem_cons_self ..))
    rw [List.foldlM_cons, add, hr]
    exact ih (fun q hq => h q (List.mem_cons_of_mem _ hq)) _

theorem Grouped.mem_iff {patches : List Patch} {bs : List Batch} (h : Grouped patches bs)
    {p : Patch} : p ∈ patches ↔ ∃ b ∈ bs, p ∈ b.entries := by
  rw [← h.perm.mem_iff, List.mem_flatMap]

/-- There are no more batches than selected fields that their patches come from. -/
theorem Grouped.length_le {patches : List Patch} {bs : List Batch} {fields : List Selected}
    (h : Grouped patches bs) (hf : ∀ p ∈ patches, p.field ∈ fields) : bs.length ≤ fields.length := by
  have hs : bs.map key ⊆ fields.filterMap Selected.key? := by
    intro k hk
    obtain ⟨b, hb, rfl⟩ := List.mem_map.mp hk
    obtain ⟨p, hp, _⟩ := h.head b hb
    have hm : p ∈ patches := h.mem_iff.mpr ⟨b, hb, hp⟩
    exact List.mem_filterMap.mpr ⟨p.field, hf p hm, h.entry b hb p hp⟩
  calc bs.length = (bs.map key).length := by rw [List.length_map]
    _ ≤ (fields.filterMap Selected.key?).length := h.nodup.length_le_of_subset hs
    _ ≤ fields.length := List.length_filterMap_le ..

end Batch
end Patchwork
