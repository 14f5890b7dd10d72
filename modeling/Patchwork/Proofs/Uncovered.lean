import Patchwork.Proofs.Levels
import Patchwork.Proofs.Waves

/-!
# What a wave leaves for the next one

The patches of a wave are uncovered by the values of the wave before it. They lie one relation
further inside, so that a run has no more waves than relations lie one inside the other, and no more
batches than relations are selected.
-/

namespace Patchwork
open Proto

/-- The patch `q` is left when the value `v` of the patch `p` is formatted. -/
def Patch.Uncovers (fallback : Bool) (p : Patch) (v : Value) (q : Patch) : Prop :=
  ∃ d d' node next,
    Document.format d (formatRelationValue p.field v p.target fallback) = (.ok (node, next), d') ∧
      q ∈ next

namespace Patch.Uncovers

variable {fallback : Bool} {p q : Patch} {v : Value}

/-- A patch inherits from the one it was found in. -/
theorem leaf (h : p.Uncovers fallback v q) : q.Leaf fallback p.target p.field.shape.relations := by
  obtain ⟨d, d', node, next, hf, hq⟩ := h
  exact (Document.format_relationValue Direct.absent hf).2.leaf q hq

theorem isSome (h : p.Uncovers fallback v q) : q.field.info.relation.isSome :=
  p.field.shape.isSome_of_mem_relations h.leaf.selected

/-- Only the value of a relation is formatted. -/
theorem isSome_outer (h : p.Uncovers fallback v q) : p.field.info.relation.isSome := by
  obtain ⟨d, d', node, next, hf, hq⟩ := h
  cases hr : p.field.info.relation with
  | some r => rfl
  | none =>
    simp only [formatRelationValue, hr, Document.format] at hf
    cases hf

theorem relationDepth_lt (h : p.Uncovers fallback v q) :
    q.field.relationDepth < p.field.relationDepth := by
  have hi := p.field.shape.relationDepth_le h.leaf.selected
  have ho := Selected.relationDepth_of_isSome h.isSome_outer
  omega

end Patch.Uncovers

/-- Patches are uncovered by values only. -/
theorem Step.uncovers {fallback : Bool} {d d' : Document} {a : Action} {next : List Patch}
    (h : Step fallback d a d' next) {q : Patch} (hq : q ∈ next) :
    ∃ p v, a = .value p (some v) ∧ p.Uncovers fallback v q := by
  cases h with
  | absent p => cases hq
  | embedded caught => cases hq
  | @placed p v node next d' hf => exact ⟨p, v, rfl, d, d', node, next, hf, hq⟩

/-- The patches that are to be resolved next. -/
def Progress.patches : Progress → List Patch
  | .wave _ batches => batches.flatMap (·.entries)
  | .finished .. => []

/-- A wave that was grouped from at least one patch. -/
def Progress.Entered : Progress → Prop
  | .wave _ batches => ∃ patches, patches ≠ [] ∧ Batch.Grouped patches batches
  | .finished .. => True

theorem Wave.mem_entries_of_value {w : Wave} {p : Patch} {v : Option Value}
    (h : .value p v ∈ w.actions) : p ∈ w.entries := by
  rw [← w.entries_actions]
  exact List.mem_flatMap.mpr ⟨_, h, List.mem_singleton_self _⟩

/-- What is pending after some actions was pending before or uncovered by one of their values. -/
theorem Stitching.mem_pending {fallback : Bool} {actions : List Action} {s s' : Stitched}
    (h : (actAll fallback actions).run s = .ok () s') {q : Patch} (hq : q ∈ s'.pending) :
    q ∈ s.pending ∨ ∃ p v, .value p (some v) ∈ actions ∧ p.Uncovers fallback v q := by
  induction actions generalizing s with
  | nil =>
    cases h
    exact .inl hq
  | cons a rest ih =>
    rw [actAll, EStateM.run_bind] at h
    cases ha : (act fallback a).run s with
    | error e s₁ => simp [ha] at h
    | ok u s₁ =>
      simp only [ha] at h
      obtain ⟨next, hstep, hp⟩ := act_ok ha
      rcases ih h with hq | ⟨p, v, hm, hu⟩
      · rw [hp] at hq
        rcases List.mem_append.mp hq with hq | hq
        · exact .inl hq
        · obtain ⟨p, v, rfl, hu⟩ := hstep.uncovers hq
          exact .inr ⟨p, v, List.mem_cons_self .., hu⟩
      · exact .inr ⟨p, v, List.mem_cons_of_mem _ hm, hu⟩

/-- Each of them is of a relation. -/
theorem Stitching.isSome_of_mem_pending {fallback : Bool} {actions : List Action} {d : Document}
    {s : Stitched} (h : (actAll fallback actions).run ⟨d, []⟩ = .ok () s) :
    ∀ q ∈ s.pending, q.field.info.relation.isSome := by
  intro q hq
  rcases mem_pending h hq with hq | ⟨p, v, _, hu⟩
  · cases hq
  · exact hu.isSome

namespace Progress

variable {fallback : Bool}

theorem entered_enter (s : Stitched) : (enter s).Entered := by
  unfold enter
  split
  · trivial
  · next hp =>
    split
    · next bs hg => exact ⟨s.pending, hp, Batch.grouped_of_group hg⟩
    · trivial

theorem mem_patches_enter {s : Stitched} {q : Patch} (h : q ∈ (enter s).patches) :
    q ∈ s.pending := by
  unfold enter at h
  split at h
  · cases h
  · split at h
    · next bs hg => exact (Batch.grouped_of_group hg).perm.mem_iff.mp h
    · cases h

theorem entered_advance (fallback : Bool) (d : Document) (results : List (Batch × Resolution)) :
    (advance fallback d results).Entered := by
  unfold advance
  split
  · exact entered_enter _
  · trivial

/-- The patches of the next wave are uncovered by the values of this one. -/
theorem mem_patches_advance {d : Document} {w : Wave} {q : Patch}
    (h : q ∈ (advance fallback d w.results).patches) :
    ∃ p v, .value p (some v) ∈ w.actions ∧ p.Uncovers fallback v q := by
  unfold advance at h
  rw [Stitching.absorbAll_eq] at h
  split at h
  · next s hs =>
    rcases Stitching.mem_pending hs (mem_patches_enter h) with hq | hq
    · cases hq
    · exact hq
  · cases h

/-! ## Rank -/

theorem le_wavesOf {patches : List Patch} {p : Patch} (h : p ∈ patches) :
    p.field.relationDepth ≤ wavesOf patches := by
  induction patches with
  | nil => cases h
  | cons q rest ih =>
    have hc : wavesOf (q :: rest) = max q.field.relationDepth (wavesOf rest) := rfl
    rcases List.mem_cons.mp h with rfl | h
    · omega
    · have hr := ih h
      omega

theorem wavesOf_le {patches : List Patch} {n : Nat} (h₁ : 1 ≤ n)
    (h : ∀ p ∈ patches, p.field.relationDepth ≤ n) : wavesOf patches ≤ n := by
  induction patches with
  | nil => exact h₁
  | cons q rest ih =>
    have hc : wavesOf (q :: rest) = max q.field.relationDepth (wavesOf rest) := rfl
    have hq := h q (List.mem_cons_self ..)
    have hr := ih fun p hp => h p (List.mem_cons_of_mem _ hp)
    omega

theorem one_le_wavesOf (patches : List Patch) : 1 ≤ wavesOf patches := by
  induction patches with
  | nil => exact Nat.le_refl _
  | cons q rest ih => exact Nat.le_trans ih (Nat.le_max_right ..)

/-- Each wave leaves fewer of them. -/
theorem rank_advance (fallback : Bool) (d : Document) (w : Wave) :
    (advance fallback d w.results).rank < (wave d w.batches).rank := by
  have hw : (wave d w.batches).rank = wavesOf w.entries := rfl
  rw [hw]
  cases ha : advance fallback d w.results with
  | finished d' failure => exact one_le_wavesOf _
  | wave d' bs =>
    have hn : ∀ q ∈ bs.flatMap (·.entries), 1 ≤ q.field.relationDepth ∧
        q.field.relationDepth < wavesOf w.entries := by
      intro q hq
      have hq : q ∈ (advance fallback d w.results).patches := ha ▸ hq
      obtain ⟨p, v, hm, hu⟩ := mem_patches_advance hq
      have hd := Selected.relationDepth_of_isSome hu.isSome
      have hl := Nat.lt_of_lt_of_le hu.relationDepth_lt (le_wavesOf (Wave.mem_entries_of_value hm))
      exact ⟨by omega, hl⟩
    have he : (wave d' bs).Entered := ha ▸ entered_advance fallback d w.results
    obtain ⟨patches, hne, hg⟩ := he
    obtain ⟨q, hq⟩ := List.exists_mem_of_ne_nil patches hne
    have hq := hn q (hg.perm.mem_iff.mpr hq)
    have hle : wavesOf (bs.flatMap (·.entries)) ≤ wavesOf w.entries - 1 := by
      refine wavesOf_le (by omega) fun q hq => ?_
      have hq := hn q hq
      omega
    have hr : (wave d' bs).rank = wavesOf (bs.flatMap (·.entries)) := rfl
    omega

/-! ## Levels -/

/-- Wave after wave the patches lie one relation further inside. -/
theorem Runs.mem_level {p q : Progress} {ws : List Wave} {fields : List Selected} {k : Nat}
    (h : p.Runs fallback ws q) (hp : ∀ x ∈ p.patches, x.field ∈ level fields k) {i : Nat} {w : Wave}
    (hw : ws[i]? = some w) : ∀ x ∈ w.entries, x.field ∈ level fields (k + i) := by
  induction h generalizing k i with
  | stop p => simp at hw
  | @wave d batches w₀ ws q answered rest ih =>
    have h₀ : ∀ x ∈ w₀.entries, x.field ∈ level fields k := by
      rw [Wave.entries, answered]
      exact hp
    cases i with
    | zero =>
      cases hw
      exact h₀
    | succ i =>
      have h₁ : ∀ x ∈ (advance fallback d w₀.results).patches, x.field ∈ level fields (k + 1) := by
        intro x hx
        obtain ⟨y, v, hm, hu⟩ := mem_patches_advance hx
        exact List.mem_flatMap.mpr
          ⟨y.field, h₀ y (Wave.mem_entries_of_value hm), hu.leaf.selected⟩
      have hi := ih h₁ hw
      rwa [Nat.add_assoc, Nat.add_comm 1 i] at hi

/-- A run comes to patches of one level of the schema, as many relations further inside as waves. -/
theorem Runs.entered {p q : Progress} {ws : List Wave}
    {fields : List Selected} {k : Nat} (h : p.Runs fallback ws q) (he : p.Entered)
    (hp : ∀ x ∈ p.patches, x.field ∈ level fields k) :
    q.Entered ∧ ∀ x ∈ q.patches, x.field ∈ level fields (k + ws.length) := by
  induction h generalizing k with
  | stop p => exact ⟨he, hp⟩
  | @wave d batches w ws q answered rest ih =>
    have hn : ∀ x ∈ (advance fallback d w.results).patches, x.field ∈ level fields (k + 1) := by
      intro x hx
      obtain ⟨y, v, hm, hu⟩ := mem_patches_advance hx
      have hy : y.field ∈ level fields k := by
        apply hp
        rw [patches, ← answered]
        exact Wave.mem_entries_of_value hm
      exact List.mem_flatMap.mpr ⟨y.field, hy, hu.leaf.selected⟩
    have hq := ih (entered_advance ..) hn
    rwa [Nat.add_assoc, Nat.add_comm 1] at hq

theorem Runs.grouped {p q : Progress} {ws : List Wave} (h : p.Runs fallback ws q)
    (hp : p.Entered) : ∀ w ∈ ws, ∃ patches, patches ≠ [] ∧ Batch.Grouped patches w.batches := by
  induction h with
  | stop p => simp
  | @wave d batches w ws q answered rest ih =>
    intro w' hw
    rcases List.mem_cons.mp hw with rfl | hw
    · rw [answered]
      exact hp
    · exact ih (entered_advance ..) w' hw

theorem length_flatten_le {fields : List Selected} {ws : List Wave} {k : Nat}
    (h : ∀ i w, ws[i]? = some w → w.length ≤ (level fields (k + i)).length) :
    ws.flatten.length ≤ ((List.range' k ws.length).flatMap (level fields)).length := by
  induction ws generalizing k with
  | nil => exact Nat.le_refl _
  | cons w rest ih =>
    have hw := h 0 w rfl
    have hr : ∀ i w, rest[i]? = some w → w.length ≤ (level fields (k + 1 + i)).length := by
      intro i w hi
      have hn := h (i + 1) w hi
      rwa [← Nat.add_assoc, Nat.add_right_comm] at hn
    have hi := ih hr
    simp only [List.flatten_cons, List.length_append, List.length_cons, List.range'_succ,
      List.flatMap_cons]
    exact Nat.add_le_add hw hi

/-- What every run from a first level of patches is bounded by. -/
theorem Runs.bounded {p q : Progress} {ws : List Wave} {fields : List Selected}
    (h : p.Runs fallback ws q) (he : p.Entered) (hp : ∀ x ∈ p.patches, x.field ∈ level fields 0) :
    ws.length ≤ fieldsDepth fields ∧ ws.flatten.length ≤ relationCount fields := by
  have hl : ∀ i w, ws[i]? = some w → ∀ x ∈ w.entries, x.field ∈ level fields i := by
    intro i w hw x hx
    have hm := h.mem_level hp hw x hx
    rwa [Nat.zero_add] at hm
  constructor
  · cases hn : ws.length with
    | zero => exact Nat.zero_le _
    | succ n =>
      have hw : ws[n]? = some ws[n] := List.getElem?_eq_getElem (by omega)
      obtain ⟨patches, hne, hg⟩ := h.grouped he ws[n] (List.getElem_mem _)
      obtain ⟨x, hx⟩ := List.exists_mem_of_ne_nil patches hne
      exact lt_fieldsDepth_of_mem_level (hl n _ hw x (hg.perm.mem_iff.mpr hx))
  · have hb : ∀ i w, ws[i]? = some w → w.length ≤ (level fields (0 + i)).length := by
      intro i w hw
      obtain ⟨patches, _, hg⟩ := h.grouped he w (List.mem_of_getElem? hw)
      have hx := hg.length_le fun x hx => hl i w hw x (hg.perm.mem_iff.mpr hx)
      rwa [Wave.batches, List.length_map, ← Nat.zero_add i] at hx
    have hf := length_flatten_le hb
    rw [← List.range_eq_range'] at hf
    exact Nat.le_trans hf (length_levels_le fields ws.length)

/-- A run that has not come to its end leaves a wave to spare. -/
theorem Runs.ended {p q : Progress} {ws : List Wave} {fields : List Selected}
    (h : p.Runs fallback ws q) (he : p.Entered) (hp : ∀ x ∈ p.patches, x.field ∈ level fields 0) :
    (∃ d failure, q = .finished d failure) ∨ ws.length < fieldsDepth fields := by
  cases q with
  | finished d failure => exact .inl ⟨d, failure, rfl⟩
  | wave d batches =>
    have hw : Wave.batches (batches.map fun b => (b, .ok [])) = batches := by
      simp [Wave.batches, Function.comp_def]
    have hr : p.Runs fallback ws (.wave d (Wave.batches (batches.map fun b => (b, .ok [])))) := by
      rw [hw]
      exact h
    have hb := (hr.snoc.bounded he hp).1
    rw [List.length_append] at hb
    exact .inr hb

/-- The first patches of a body stand for relations that no relation lies around. -/
theorem ofMessage_first (m : Message) (schema : Schema) (policy : Option ErrorPolicy)
    (fallback : Bool) : (ofMessage m schema policy fallback).Entered ∧
      ∀ x ∈ (ofMessage m schema policy fallback).patches, x.field ∈ level schema.fields 0 := by
  unfold ofMessage
  dsimp only
  generalize (if shouldCatch policy fallback then some 0 else none) = target
  split
  · next node patches d hf =>
    refine ⟨entered_enter _, fun x hx => ?_⟩
    exact ((Document.format_message Direct.absent hf).2.leaf x (mem_patches_enter hx)).selected
  · exact ⟨trivial, fun x hx => by cases hx⟩

end Progress
end Patchwork
