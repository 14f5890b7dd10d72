import Patchwork.Proofs.Identity
import Patchwork.Proofs.Raised
import Patchwork.Proofs.Rendering

/-!
# Stitching against the direct recursion

When each batch is answered base by base, every patch gets the value that the direct recursion would
compute in its place. Then the stitched document is rendered as the direct recursion renders the
message, and stitching fails only where the direct recursion does.
-/

namespace Patchwork
open Proto

/-- What the relation of a patch computes for its base. -/
def Patch.value? (f : Direct.Resolver) (p : Patch) : Option Value :=
  p.field.info.relation.bind fun r => f r (p.field.info.params.map (·.message)) p.base

theorem Patch.member_eq (f : Direct.Resolver) {p : Patch} (h : p.field.info.relation.isSome) :
    Direct.member f p.base p.field = match p.value? f with
      | none => .ok none
      | some v => (Direct.relationValue f p.field v).map some := by
  obtain ⟨base, slot, target, ⟨info, shape⟩⟩ := p
  obtain ⟨r, hr⟩ := Option.isSome_iff_exists.mp h
  have hr : info.relation = some r := hr
  simp only [Patch.value?, Direct.member, Direct.relationValue, Selected.info_mk, Selected.shape_mk,
    hr, Option.bind_some]
  cases f r (info.params.map (·.message)) base with
  | none => rfl
  | some v =>
    dsimp only
    cases Direct.contain info.container r.field v
      (Direct.element f r.method.pool r.field.kind shape) <;> rfl

/-- The direct recursion in place of a patch that has a value. -/
theorem Patch.member_some {f : Direct.Resolver} {p : Patch} {v : Value}
    (h : p.field.info.relation.isSome) (hv : p.value? f = some v) {o : Option Json} :
    Direct.member f p.base p.field = .ok o ↔
      ∃ j, Direct.relationValue f p.field v = .ok j ∧ o = some j := by
  rw [Patch.member_eq f h, hv]
  dsimp only
  cases Direct.relationValue f p.field v with
  | error e => simp [Except.map]
  | ok j => simp [Except.map, eq_comm]

/-! ## Waves that are answered base by base -/

/-- A patch gets what its relation computes. -/
def Action.IsPointwise (f : Direct.Resolver) : Action → Prop
  | .value p v => v = p.value? f
  | .failure .. => False

def Wave.IsPointwise (f : Direct.Resolver) (w : Wave) : Prop :=
  ∀ a ∈ w.actions, a.IsPointwise f

/-- The reply that a batch gets base by base. -/
def Batch.answer (f : Direct.Resolver) (b : Batch) : Resolution :=
  .ok (b.bases.map (f b.relation (b.params.map (·.message))))

/-- All entries of a batch ask for what its first one asks for. -/
theorem Batch.Grouped.value?_eq {f : Direct.Resolver} {patches : List Patch} {bs : List Batch}
    {fields : List Selected} {k : Nat} (h : Batch.Grouped patches bs) (hk : Keyed fields)
    (hf : ∀ p ∈ patches, p.field ∈ level fields k) {b : Batch} (hb : b ∈ bs) {p : Patch}
    (hp : p ∈ b.entries) : p.value? f = f b.relation (b.params.map (·.message)) p.base := by
  obtain ⟨hr, hparams⟩ := h.asks hk hf hb hp
  rw [Patch.value?, hr, hparams, Option.bind_some]

theorem Wave.isPointwise_of_answer {f : Direct.Resolver} {patches : List Patch} {w : Wave}
    {fields : List Selected} {k : Nat} (h : Batch.Grouped patches w.batches) (hk : Keyed fields)
    (hf : ∀ p ∈ patches, p.field ∈ level fields k) (hw : ∀ x ∈ w, x.2 = x.1.answer f) :
    w.IsPointwise f := by
  intro a ha
  obtain ⟨⟨b, r⟩, hx, ha⟩ := List.mem_flatMap.mp ha
  have hr : r = b.answer f := hw _ hx
  have hb : b ∈ w.batches := List.mem_map_of_mem hx
  have hc : (r >>= b.check) = b.answer f := by
    have hl : (b.bases.map (f b.relation (b.params.map (·.message)))).length = b.entries.length := by
      rw [List.length_map, Batch.bases, List.length_map]
    rw [hr]
    change b.check _ = _
    rw [Batch.check, if_pos hl]
    rfl
  have ha : a ∈ b.actions r := ha
  unfold Batch.actions at ha
  rw [hc, Batch.answer, Batch.bases, List.map_map] at ha
  obtain ⟨⟨p, v⟩, hz, rfl⟩ := List.mem_map.mp ha
  rw [List.zip_map_right] at hz
  obtain ⟨⟨q, q'⟩, hq, he⟩ := List.mem_map.mp hz
  obtain ⟨i, hi⟩ := List.mem_iff_getElem?.mp hq
  obtain ⟨h₁, h₂⟩ := List.getElem?_zip_eq_some.mp hi
  obtain rfl : q = q' := Option.some.inj (h₁.symm.trans h₂)
  cases he
  exact (h.value?_eq hk hf hb (List.mem_of_getElem? h₁)).symm

theorem Wave.raises_of_isPointwise {f : Direct.Resolver} {w : Wave} (h : w.IsPointwise f) :
    w.raises = none := by
  rw [← w.raises_eq]
  refine List.findSome?_eq_none_iff.mpr fun a ha => ?_
  cases a with
  | value p v => rfl
  | failure b e => exact (h _ ha).elim

/-! ## Where the direct recursion succeeds -/

namespace Progress

variable {fallback : Bool} {f : Direct.Resolver}

/-- Values that the direct recursion renders are formatted, and leave such patches again. -/
theorem Runs.succeeds {p q : Progress} {ws : List Wave} (h : p.Runs fallback ws q)
    (hp : p.failure? = none) (hr : ∀ x ∈ p.patches, x.field.info.relation.isSome)
    (hd : Renderable f p.patches) (hw : ∀ w ∈ ws, w.IsPointwise f) : q.failure? = none := by
  induction h with
  | stop p => exact hp
  | @wave d batches w ws q answered rest ih =>
    have hpw := hw w (List.mem_cons_self ..)
    have hpatches : w.entries = (Progress.wave d batches).patches := by
      rw [Wave.entries, answered]
      rfl
    have hv : ∀ x v, .value x (some v) ∈ w.actions → ∃ j, Direct.relationValue f x.field v = .ok j := by
      intro x v hm
      have hx : x ∈ (Progress.wave d batches).patches := hpatches ▸ Wave.mem_entries_of_value hm
      have hval : some v = x.value? f := hpw _ hm
      obtain ⟨o, ho⟩ := hd x hx
      obtain ⟨j, hj, _⟩ := (Patch.member_some (hr x hx) hval.symm).mp ho
      exact ⟨j, hj⟩
    have ha : w.Accepted := by
      intro x v hm
      obtain ⟨j, hj⟩ := hv x v hm
      exact Patch.accepts_of_ok hj
    have hf := failure?_advance fallback d ha
    rw [Wave.raises_of_isPointwise hpw] at hf
    refine ih hf ?_ ?_ fun w' hm => hw w' (List.mem_cons_of_mem _ hm)
    · intro x hx
      obtain ⟨y, v, _, hu⟩ := mem_patches_advance hx
      exact hu.isSome
    · intro x hx
      obtain ⟨y, v, hm, d₁, d₂, node, next, hfmt, hn⟩ := mem_patches_advance hx
      obtain ⟨j, hj⟩ := hv y v hm
      exact (Document.format_relationValue f hfmt).2.renderable j hj x hn

end Progress

/-! ## Where stitching succeeds -/

/-- What the direct recursion shows in place of the patch with the slot `n`. -/
def shownBy (f : Direct.Resolver) (patches : List Patch) (n : Nat) : Option Json :=
  (patches.find? (·.slot == n)).bind fun p => match Direct.member f p.base p.field with
    | .ok o => o
    | .error _ => none

theorem shownBy_eq {f : Direct.Resolver} {patches : List Patch} {p : Patch} {o : Option Json}
    (hn : (patches.map (·.slot)).Nodup) (hp : p ∈ patches)
    (ho : Direct.member f p.base p.field = .ok o) : shownBy f patches p.slot = o := by
  cases hf : patches.find? (·.slot == p.slot) with
  | none => exact absurd (List.find?_eq_none.mp hf p hp) (by simp)
  | some q =>
    have hs : q.slot = p.slot := by simpa using List.find?_some hf
    obtain rfl := List.inj_on_of_nodup_map hn (List.mem_of_find?_eq_some hf) hp hs
    rw [shownBy, hf, Option.bind_some, ho]

theorem shownBy_of_forall_ne {f : Direct.Resolver} {patches : List Patch} {n : Nat}
    (h : ∀ p ∈ patches, p.slot ≠ n) : shownBy f patches n = none := by
  have hf : patches.find? (·.slot == n) = none := by
    refine List.find?_eq_none.mpr fun p hp => ?_
    simpa using h p hp
  rw [shownBy, hf, Option.bind_none]

/-- The patches that were there first are among all patches. -/
theorem Kept.first (fallback : Bool) (first : List Patch) :
    Kept fallback fun log _ left => first ⊆ patchesOf log left where
  perm hl h := List.Subset.trans h (hl.append_left _).subset
  step := by
    intro log d d' a left next _ h
    rw [Account.patchesOf_step]
    exact List.Subset.trans h (List.subset_append_left ..)

theorem Progress.Runs.first_subset {fallback : Bool} {first : List Patch} {d d' : Document}
    {ws : List Wave} (h : (Progress.enter ⟨d, first⟩).Runs fallback ws (.finished d' none)) :
    first ⊆ patchesOf (actionsOf ws) [] := by
  have kept := Kept.first fallback first
  have start : (Progress.enter ⟨d, first⟩).Has
      fun _ left => first ⊆ patchesOf ([] : List Action) left := kept.enter (List.Subset.refl _)
  exact kept.runs h start

/-- A document at the end of a run in which each patch got what its relation computes. -/
structure Finished (f : Direct.Resolver) (fallback : Bool) (root : Node) (log : List Action)
    (d : Document) : Prop where
  account : Account fallback root log d []
  linked : d.Linked
  pointwise : ∀ a ∈ log, a.IsPointwise f

namespace Finished

variable {f : Direct.Resolver} {fallback : Bool} {root : Node} {log : List Action} {d : Document}

theorem error? (h : Finished f fallback root log d) (n : Nat) : d.error? n = none := by
  have he : errorsOf log = [] := by
    refine List.flatMap_eq_nil_iff.mpr fun a ha => ?_
    cases a with
    | value p v => rfl
    | failure b e => exact (h.pointwise _ ha).elim
  rw [h.account.error n, he]
  rfl

/-- What formatting left in the slot of a patch, as the direct recursion has it. -/
theorem slot?_cases (h : Finished f fallback root log d) {p : Patch} (hp : p ∈ patchesOf log []) :
    (p.value? f = none ∧ d.slot? p.slot = some .pending) ∨
    ∃ (v : Value) (node : Node) (next : List Patch) (d₁ d₂ : Document),
      p.value? f = some v ∧ d.slot? p.slot = some (.filled node) ∧
      next ⊆ patchesOf log [] ∧
      d₁.format (formatRelationValue p.field v p.target fallback) = (.ok (node, next), d₂) := by
  rw [patchesOf, List.append_nil] at hp
  obtain ⟨a, ha, hp⟩ := List.mem_flatMap.mp hp
  obtain ⟨s, hs, hd⟩ := h.account.done a ha p hp
  have hd := hd (h.error? p.slot)
  have hpw := h.pointwise a ha
  cases hs with
  | absent => exact .inl ⟨hpw.symm, hd⟩
  | @placed _ v node next d₁ d₂ formatted known =>
    exact .inr ⟨v, node, next, d₁, d₂, hpw.symm, hd, known, formatted⟩
  | failed => exact hpw.elim

/-- The direct recursion succeeds in place of each patch, the innermost first. -/
theorem renderable (h : Finished f fallback root log d)
    (hr : ∀ p ∈ patchesOf log [], p.field.info.relation.isSome) : Renderable f (patchesOf log []) := by
  have hn : ((patchesOf log []).map (·.slot)).Nodup := (List.nodup_cons.mp h.account.nodup).2
  -- contents name slots that lie ahead, so the induction goes down from the last slot
  have hk : ∀ k, ∀ p ∈ patchesOf log [], d.size ≤ p.slot + k →
      ∃ o, Direct.member f p.base p.field = .ok o := by
    intro k
    induction k with
    | zero =>
      intro p hp hle
      have hlt := h.account.slot_lt hp
      omega
    | succ k ih =>
      intro p hp hle
      rcases h.slot?_cases hp with ⟨hv, _⟩ | ⟨v, node, next, d₁, d₂, hv, hs, hknown, hf⟩
      · exact ⟨none, by rw [Patch.member_eq f (hr p hp), hv]⟩
      · obtain ⟨_, hfmt⟩ := Document.format_relationValue f hf
        have ha : Agrees f (shownBy f (patchesOf log [])) next := by
          intro q hq
          have hmem : q.slot ∈ node.slots := hfmt.node_slots ▸ List.mem_map_of_mem hq
          have hlt := (h.linked.ahead hs q.slot hmem).1
          obtain ⟨o, ho⟩ := ih q (hknown hq) (by omega)
          rw [ho, shownBy_eq hn (hknown hq) ho]
        obtain ⟨j, hj, _⟩ := hfmt.shows _ ha
        exact ⟨some j, (Patch.member_some (hr p hp) hv).mpr ⟨j, hj, rfl⟩⟩
  exact fun p hp => hk d.size p hp (Nat.le_add_left ..)

theorem agrees (h : Finished f fallback root log d)
    (hr : ∀ p ∈ patchesOf log [], p.field.info.relation.isSome) :
    Agrees f (shownBy f (patchesOf log [])) (patchesOf log []) := by
  intro p hp
  obtain ⟨o, ho⟩ := h.renderable hr p hp
  rw [ho, shownBy_eq (List.nodup_cons.mp h.account.nodup).2 hp ho]

/-- What all slots show: those of the patches as the direct recursion has it, and the root. -/
theorem shows (h : Finished f fallback root log d)
    (hr : ∀ p ∈ patchesOf log [], p.field.info.relation.isSome) :
    d.Shows fun n => if n = 0 then root.eval (shownBy f (patchesOf log []))
      else shownBy f (patchesOf log []) n := by
  generalize he : shownBy f (patchesOf log []) = env
  have hsub : ∀ {n c}, d.slot? n = some (.filled c) →
      c.eval (fun n => if n = 0 then root.eval env else env n) = c.eval env := by
    intro n c hc
    refine c.eval_congr fun k hk => ?_
    have hlt := (h.linked.ahead hc k hk).1
    rw [if_neg (by omega)]
  intro n
  change (if n = 0 then root.eval env else env n) = _
  by_cases hn : n = 0
  · subst hn
    have hroot := h.account.root (h.error? 0)
    rw [if_pos rfl, hroot, Option.bind_some, Slot.shown, hsub hroot]
  · rw [if_neg hn]
    by_cases hp : ∃ p ∈ patchesOf log [], p.slot = n
    · obtain ⟨p, hp, rfl⟩ := hp
      have ha := h.agrees hr p hp
      rw [he] at ha
      rcases h.slot?_cases hp with ⟨hv, hs⟩ | ⟨v, node, next, d₁, d₂, hv, hs, hknown, hf⟩
      · rw [Patch.member_eq f (hr p hp), hv] at ha
        rw [hs]
        exact (Except.ok.inj ha).symm
      · obtain ⟨j, hj, ho⟩ := (Patch.member_some (hr p hp) hv).mp ha
        obtain ⟨_, hfmt⟩ := Document.format_relationValue f hf
        have hag : Agrees f env next := fun q hq => he ▸ h.agrees hr q (hknown hq)
        obtain ⟨j', hj', hnode⟩ := hfmt.shows env hag
        rw [hj] at hj'
        cases hj'
        rw [hs, Option.bind_some, Slot.shown, hsub hs, hnode, ho]
    · have hne : ∀ p ∈ patchesOf log [], p.slot ≠ n := fun p hm hs => hp ⟨p, hm, hs⟩
      have hsize : d.size ≤ n := by
        refine Nat.le_of_not_lt fun hlt => ?_
        have hm := h.account.slots.mem_iff.mpr (List.mem_range.mpr hlt)
        rcases List.mem_cons.mp hm with h0 | hm
        · exact hn h0
        · obtain ⟨p, hm, hs⟩ := List.mem_map.mp hm
          exact hne p hm hs
      rw [← he, shownBy_of_forall_ne hne, d.slot?_of_le n hsize]
      rfl

end Finished

/-- A run that succeeds with each patch given what its relation computes gives the body of the
direct recursion. -/
theorem Rooted.body_eq {f : Direct.Resolver} {fallback : Bool} {m : Message} {schema : Schema}
    {target : Option Nat} {root : Node} {patches : List Patch} {d d' : Document} {ws : List Wave}
    (h : Rooted fallback m schema target root patches d)
    (hr : (Progress.enter ⟨d, patches⟩).Runs fallback ws (.finished d' none))
    (hw : ∀ w ∈ ws, w.IsPointwise f)
    (hrel : ∀ w ∈ ws, ∀ p ∈ w.entries, p.field.info.relation.isSome) :
    Direct.body f m schema = .ok (d'.toJson 0) := by
  obtain ⟨ha, hl⟩ := h.linked_of_runs hr
  have hfin : Finished f fallback root (actionsOf ws) d' := by
    refine ⟨ha, hl, fun a hm => ?_⟩
    obtain ⟨w, hws, hm⟩ := List.mem_flatMap.mp hm
    exact hw w hws a hm
  have hall : ∀ p ∈ patchesOf (actionsOf ws) [], p.field.info.relation.isSome := by
    intro p hp
    rw [patchesOf, List.append_nil, actionsOf, List.flatMap_assoc] at hp
    obtain ⟨w, hws, hp⟩ := List.mem_flatMap.mp hp
    rw [w.entries_actions] at hp
    exact hrel w hws p hp
  have hfirst : patches ⊆ patchesOf (actionsOf ws) [] := hr.first_subset
  obtain ⟨d₀, hf, _⟩ := h.formatted
  obtain ⟨_, hfmt⟩ := Document.format_message f hf
  have hag : Agrees f (shownBy f (patchesOf (actionsOf ws) [])) patches :=
    fun p hp => hfin.agrees hall p (hfirst hp)
  obtain ⟨j, hj, hroot⟩ := hfmt.shows _ hag
  rw [hj, hl.toJson_eq (hfin.shows hall) 0, if_pos rfl, hroot, Option.getD_some]

end Patchwork
