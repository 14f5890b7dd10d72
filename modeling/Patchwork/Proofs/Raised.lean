import Patchwork.Proofs.Accounts

/-!
# Failures that end a run

A failed batch ends the run when some entry of it has no place for errors. As long as all values can
be rendered, nothing else does.
-/

namespace Patchwork
open Proto

/-- The value is of the shape that the patch selects and has a JSON form, its relations left out. -/
def Patch.Accepts (p : Patch) (v : Value) : Prop :=
  ∃ j, Direct.relationValue Direct.absent p.field v = .ok j

/-- So it is when the direct recursion renders the value with whatever relations. -/
theorem Patch.accepts_of_ok {resolve : Direct.Resolver} {p : Patch} {v : Value} {j : Json}
    (h : Direct.relationValue resolve p.field v = .ok j) : p.Accepts v := by
  obtain ⟨node, new, d', hf⟩ := Document.format_relationValue_isOk h {} none false
  obtain ⟨_, hn⟩ := Document.format_relationValue Direct.absent hf
  have ha : Agrees Direct.absent (fun _ => none) new := by
    intro q hq
    rcases hs : q.field with ⟨info, shape⟩
    have hr := p.field.shape.isSome_of_mem_relations (hn.leaf q hq).selected
    rw [hs] at hr
    obtain ⟨r, hr⟩ := Option.isSome_iff_exists.mp hr
    have hr : info.relation = some r := hr
    simp only [Direct.member, hr, Direct.absent]
  obtain ⟨j', hj', _⟩ := hn.shows _ ha
  exact ⟨j', hj'⟩

/-- All values of a wave are such. -/
def Wave.Accepted (w : Wave) : Prop :=
  ∀ p v, .value p (some v) ∈ w.actions → p.Accepts v

/-- Whether the value of an entry, if it got one, has a JSON form. -/
def Action.isAccepted : Action → Bool
  | .value p (some v) => (Direct.relationValue Direct.absent p.field v).toOption.isSome
  | _ => true

instance (w : Wave) : Decidable w.Accepted :=
  decidable_of_iff (∀ a ∈ w.actions, a.isAccepted = true) <| by
    have form : ∀ p v, Action.isAccepted (.value p (some v)) = true ↔ p.Accepts v := by
      intro p v
      rw [Action.isAccepted, Patch.Accepts]
      cases Direct.relationValue Direct.absent p.field v <;> simp [Except.toOption]
    constructor
    · exact fun h p v given => (form p v).mp (h _ given)
    · intro h a ha
      cases a with
      | value p v =>
        cases v with
        | some v => exact (form p v).mpr (h p v ha)
        | none => rfl
      | failure b e => rfl

/-- The failure of a batch that ends the run: some entry has no place for it. -/
def Batch.raises (b : Batch) (r : Resolution) : Option Failure :=
  match r >>= b.check with
  | .ok _ => none
  | .error e => if b.entries.all (·.target.isSome) then none else some e

/-- That of the first batch with one. -/
def Wave.raises (w : Wave) : Option Failure := w.findSome? fun (b, r) => b.raises r

/-- How a body failed, if it did. -/
def Progress.failure? : Progress → Option Failure
  | .wave .. => none
  | .finished _ failure => failure

def Action.raises : Action → Option Failure
  | .value .. => none
  | .failure b e => if b.entries.all (·.target.isSome) then none else some e

theorem Batch.raises_eq (b : Batch) (r : Resolution) :
    (b.actions r).findSome? Action.raises = b.raises r := by
  unfold Batch.actions Batch.raises
  cases r >>= b.check with
  | error e =>
    simp only [List.findSome?_cons, List.findSome?_nil, Action.raises]
    split <;> simp_all
  | ok values =>
    rw [List.findSome?_map]
    exact List.findSome?_eq_none_iff.mpr fun _ _ => rfl

theorem Wave.raises_eq (w : Wave) : w.actions.findSome? Action.raises = w.raises := by
  induction w with
  | nil => rfl
  | cons x rest ih =>
    obtain ⟨b, r⟩ := x
    have ha : Wave.actions ((b, r) :: rest) = b.actions r ++ Wave.actions rest := rfl
    have hr : Wave.raises ((b, r) :: rest) = (b.raises r).or (Wave.raises rest) := by
      unfold Wave.raises
      rw [List.findSome?_cons]
      cases hb : b.raises r <;> simp [hb]
    rw [ha, List.findSome?_append, ih, Batch.raises_eq, hr]

namespace Stitching

theorem act_raises (fallback : Bool) {a : Action} (h : ∀ p v, a = .value p (some v) → p.Accepts v) (s : Stitched) :
    match a.raises with
    | some e => (act fallback a).run s = .error e s
    | none => ∃ s', (act fallback a).run s = .ok () s' := by
  cases a with
  | value p v =>
    cases v with
    | none => exact ⟨s, rfl⟩
    | some v =>
      obtain ⟨j, hj⟩ := h p v rfl
      obtain ⟨node, new, d', hf⟩ :=
        Document.format_relationValue_isOk hj s.document p.target fallback
      exact ⟨⟨d'.fill p.slot node, s.pending ++ new⟩, by rw [act, run_place, hf]⟩
  | failure b e =>
    simp only [Action.raises, act]
    cases ht : b.entries.mapM (·.target) with
    | none =>
      obtain ⟨p, hp, hn⟩ := targets_eq_none.mp ht
      have hall : ¬b.entries.all (·.target.isSome) := by
        rw [List.all_eq_true]
        intro hall
        have hs := hall p hp
        rw [hn] at hs
        cases hs
      rw [if_neg hall]
      exact run_embed_none e s ht
    | some targets =>
      rw [if_pos (List.all_eq_true.mpr (targets_eq_some ht).1)]
      exact ⟨_, run_embed_some e s ht⟩

theorem actAll_raises (fallback : Bool) {actions : List Action}
    (h : ∀ p v, .value p (some v) ∈ actions → p.Accepts v) (s : Stitched) :
    match actions.findSome? Action.raises with
    | some e => ∃ s', (actAll fallback actions).run s = .error e s'
    | none => ∃ s', (actAll fallback actions).run s = .ok () s' := by
  induction actions generalizing s with
  | nil => exact ⟨s, rfl⟩
  | cons a rest ih =>
    have ha := act_raises fallback
      (fun p v he => h p v (he ▸ List.mem_cons_self ..)) s
    rw [List.findSome?_cons, actAll, EStateM.run_bind]
    cases hr : a.raises with
    | some e =>
      rw [hr] at ha
      rw [ha]
      exact ⟨s, rfl⟩
    | none =>
      rw [hr] at ha
      obtain ⟨s', hs⟩ := ha
      rw [hs]
      exact ih (fun p v hm => h p v (List.mem_cons_of_mem _ hm)) s'

end Stitching

namespace Progress

variable {fallback : Bool}

/-- Patches of relations can always be grouped. -/
theorem failure?_enter {s : Stitched} (h : ∀ p ∈ s.pending, p.field.info.relation.isSome) :
    (enter s).failure? = none := by
  unfold enter
  split
  · rfl
  · obtain ⟨bs, hg⟩ := Batch.group_isOk h
    rw [hg]
    rfl

/-- A wave ends the run by the first failure in it that has no place to go. -/
theorem failure?_advance (fallback : Bool) (d : Document) {w : Wave} (h : w.Accepted) :
    (advance fallback d w.results).failure? = w.raises := by
  have ha := Stitching.actAll_raises fallback h ⟨d, []⟩
  rw [w.raises_eq] at ha
  unfold advance
  rw [Stitching.absorbAll_eq]
  cases hr : w.raises with
  | some e =>
    rw [hr] at ha
    obtain ⟨s, hs⟩ := ha
    have hs : Stitching.actAll fallback w.actions ⟨d, []⟩ = .error e s := hs
    rw [hs]
    rfl
  | none =>
    rw [hr] at ha
    obtain ⟨s, hs⟩ := ha
    have hp := Stitching.isSome_of_mem_pending hs
    have hs : Stitching.actAll fallback w.actions ⟨d, []⟩ = .ok () s := hs
    rw [hs]
    exact failure?_enter hp

theorem Runs.of_failure {p q : Progress} {ws : List Wave} {e : Failure}
    (h : p.Runs fallback ws q) (hp : p.failure? = some e) : ws = [] ∧ q = p := by
  cases h with
  | stop => exact ⟨rfl, rfl⟩
  | wave answered rest => cases hp

/-- A run fails as the first of its waves that raises a failure, which is its last wave. -/
theorem Runs.failure?_eq {p q : Progress} {ws : List Wave} (h : p.Runs fallback ws q)
    (hw : ∀ w ∈ ws, w.Accepted) (hp : p.failure? = none) :
    q.failure? = ws.findSome? Wave.raises ∧
      ∀ i w, ws[i]? = some w → w.raises.isSome → i + 1 = ws.length := by
  induction h with
  | stop p => exact ⟨hp, by simp⟩
  | @wave d batches w ws q answered rest ih =>
    have ha := failure?_advance fallback d (hw w (List.mem_cons_self ..))
    cases hr : w.raises with
    | some e =>
      rw [hr] at ha
      obtain ⟨rfl, rfl⟩ := rest.of_failure ha
      refine ⟨by rw [ha, List.findSome?_cons, hr], fun i w' hi _ => ?_⟩
      have hl := (List.getElem?_eq_some_iff.mp hi).1
      simp only [List.length_singleton] at hl ⊢
      omega
    | none =>
      rw [hr] at ha
      obtain ⟨hf, hl⟩ := ih (fun w hm => hw w (List.mem_cons_of_mem _ hm)) ha
      refine ⟨by rw [hf, List.findSome?_cons, hr], fun i w' hi hs => ?_⟩
      cases i with
      | zero =>
        cases hi
        rw [hr] at hs
        cases hs
      | succ i =>
        have hn := hl i w' hi hs
        rw [List.length_cons]
        omega

end Progress
end Patchwork
