import Patchwork.Proofs.Chains
import Patchwork.Proofs.Outcome
import Patchwork.Proofs.Tours

/-!
# Bodies under construction

A body is made step by step: content is formatted, which reserves slots for its patches, and is put
into its slot; errors are written; and the patches are dealt with in any order. Whatever happens, the
slots form a forest, so that the body can be rendered at any time without losing anything.
-/

namespace Patchwork
open Proto

/-- The slots that a slot names. -/
def Slot.named : Slot → List Nat
  | .filled c => c.slots
  | _ => []

/-- All slots that are named in a document, as often as they are. -/
def Document.named (d : Document) : List Nat := d.slots.flatMap Slot.named

theorem Slot.mem_named {s : Slot} {k : Nat} : k ∈ s.named ↔ ∃ c, s = .filled c ∧ k ∈ c.slots := by
  cases s <;> simp [named]

theorem Document.Linked.nodup_named {d : Document} (h : d.Linked) : d.named.Nodup := by
  rw [named, List.nodup_flatMap]
  constructor
  · intro s hs
    obtain ⟨n, hn⟩ := List.mem_iff_getElem?.mp hs
    cases s with
    | filled c => exact h.nodup hn
    | pending => exact List.nodup_nil
    | failed j => exact List.nodup_nil
  · rw [List.pairwise_iff_getElem]
    intro i j hi hj hij k hk hk'
    obtain ⟨c, hc, hkc⟩ := Slot.mem_named.mp hk
    obtain ⟨c', hc', hkc'⟩ := Slot.mem_named.mp hk'
    have hs : d.slot? i = some (.filled c) := hc ▸ List.getElem?_eq_getElem hi
    have hs' : d.slot? j = some (.filled c') := hc' ▸ List.getElem?_eq_getElem hj
    have he := h.parent hs hs' hkc hkc'
    omega

/-- A body under construction. -/
structure Construction where
  document : Document
  /-- Patches that are still to be dealt with. -/
  left : List Patch
  /-- Content that was formatted, with the slot that it is to be put into. -/
  hand : Option (Nat × Node)

namespace Construction

/-- What can happen next to a body, whatever the resolvers reply. -/
inductive Becomes (fallback : Bool) : Construction → Construction → Prop
  | reordered {d : Document} {left left' : List Patch} {hand : Option (Nat × Node)}
      (perm : left.Perm left') : Becomes fallback ⟨d, left, hand⟩ ⟨d, left', hand⟩
  /-- A slot is reserved while something is formatted, even if that fails in the end. -/
  | reserved {d : Document} {left : List Patch} {hand : Option (Nat × Node)} :
      Becomes fallback ⟨d, left, hand⟩ ⟨d.reserve.2, left, hand⟩
  /-- The value of a patch is formatted. -/
  | formatted {d d' : Document} {p : Patch} {v : Value} {node : Node} {left next : List Patch}
      (formatted : d.format (formatRelationValue p.field v p.target fallback) =
        (.ok (node, next), d')) :
      Becomes fallback ⟨d, p :: left, none⟩ ⟨d', left ++ next, some (p.slot, node)⟩
  | filled {d : Document} {left : List Patch} {n : Nat} {node : Node} :
      Becomes fallback ⟨d, left, some (n, node)⟩ ⟨d.fill n node, left, none⟩
  /-- A patch fails, and an error is written where it wants it. -/
  | failed {d : Document} {p : Patch} {t : Nat} {left : List Patch} (target : p.target = some t)
      (error : Json) : Becomes fallback ⟨d, p :: left, none⟩ ⟨d.fail t error, left, none⟩
  /-- A patch has no value, or is given up. -/
  | dropped {d : Document} {p : Patch} {left : List Patch} :
      Becomes fallback ⟨d, p :: left, none⟩ ⟨d, left, none⟩

/-- A body of a message at any time since its root, slot 0, was reserved. -/
inductive Reached (fallback : Bool) (policy : Option ErrorPolicy) (m : Message) (schema : Schema) :
    Construction → Prop
  | reserved : Reached fallback policy m schema ⟨(Document.reserve {}).2, [], none⟩
  | formatted {node : Node} {patches : List Patch} {d : Document}
      (formatted : (Document.reserve {}).2.format (formatMessage m schema
        (if shouldCatch policy fallback then some 0 else none) fallback) = (.ok (node, patches), d)) :
      Reached fallback policy m schema ⟨d, patches, some (0, node)⟩
  | later {b b' : Construction} (reached : Reached fallback policy m schema b)
      (becomes : b.Becomes fallback b') : Reached fallback policy m schema b'

/-- The slots of a body form a forest: each one is named at most once in the whole document, and in
a slot before it only. The patches that are left have slots of their own, which are open. -/
structure IsForest (b : Construction) : Prop where
  once : b.document.named.Nodup
  ahead : ∀ n c, b.document.slot? n = some (.filled c) → ∀ k ∈ c.slots, n < k ∧ k < b.document.size
  owners : (b.left.map (·.slot)).Nodup
  waiting : ∀ p ∈ b.left, 0 < p.slot ∧ b.document.slot? p.slot = some .pending

/-- What each step keeps: besides, an error goes past all other patches that are left, and what is
in hand fits into its slot, which is none of theirs. -/
structure Sound (b : Construction) : Prop where
  linked : b.document.Linked
  owners : (b.left.map (·.slot)).Nodup
  waiting : ∀ p ∈ b.left, 0 < p.slot ∧ b.document.slot? p.slot = some .pending
  targets : ∀ p ∈ b.left, ∀ t ∈ p.target,
    t < b.document.size ∧ (t = p.slot ∨ t ∉ b.left.map (·.slot))
  hand : ∀ n c, b.hand = some (n, c) → b.document.Fits n c ∧ n ∉ b.left.map (·.slot)

namespace Sound

variable {fallback : Bool} {d d' : Document} {p : Patch} {left left' next : List Patch}
  {hand : Option (Nat × Node)}

theorem isForest {b : Construction} (h : b.Sound) : b.IsForest :=
  ⟨h.linked.nodup_named, fun _ _ hn => h.linked.ahead hn, h.owners, h.waiting⟩

theorem empty : Sound ⟨{}, [], none⟩ :=
  ⟨Document.linked_empty, List.nodup_nil, by simp, by simp, by simp⟩

theorem perm (h : Sound ⟨d, left, hand⟩) (hp : left.Perm left') : Sound ⟨d, left', hand⟩ where
  linked := h.linked
  owners := (hp.map _).nodup_iff.mp h.owners
  waiting p hm := h.waiting p (hp.mem_iff.mpr hm)
  targets p hm t ht := by
    rw [← (hp.map fun p : Patch => p.slot).mem_iff]
    exact h.targets p (hp.mem_iff.mpr hm) t ht
  hand n c hc := by
    rw [← (hp.map fun p : Patch => p.slot).mem_iff]
    exact h.hand n c hc

theorem tail (h : Sound ⟨d, p :: left, none⟩) : Sound ⟨d, left, none⟩ where
  linked := h.linked
  owners := (List.nodup_cons.mp h.owners).2
  waiting q hq := h.waiting q (List.mem_cons_of_mem _ hq)
  targets q hq t ht := by
    obtain ⟨hlt, hor⟩ := h.targets q (List.mem_cons_of_mem _ hq) t ht
    exact ⟨hlt, hor.imp_right fun hn hm => hn (List.mem_cons_of_mem _ hm)⟩
  hand _ _ hc := by cases hc

/-- An error of the first patch goes past the others. -/
theorem target_notMem (h : Sound ⟨d, p :: left, none⟩) {t : Nat} (ht : t ∈ p.target) :
    t < d.size ∧ t ∉ left.map (·.slot) := by
  obtain ⟨hlt, rfl | hn⟩ := h.targets p (List.mem_cons_self ..) t ht
  · exact ⟨hlt, (List.nodup_cons.mp h.owners).1⟩
  · exact ⟨hlt, fun hm => hn (List.mem_cons_of_mem _ hm)⟩

/-- The document may change where no patch waits. -/
theorem document (h : Sound ⟨d, left, hand⟩) (linked : d'.Linked) (size : d.size ≤ d'.size)
    (same : ∀ n ∈ left.map (·.slot), d'.slot? n = d.slot? n) : Sound ⟨d', left, none⟩ where
  linked := linked
  owners := h.owners
  waiting p hp := by
    obtain ⟨h0, hw⟩ := h.waiting p hp
    exact ⟨h0, (same _ (List.mem_map_of_mem hp)).trans hw⟩
  targets p hp t ht := by
    obtain ⟨hlt, hor⟩ := h.targets p hp t ht
    exact ⟨Nat.lt_of_lt_of_le hlt size, hor⟩
  hand _ _ hc := by cases hc

theorem reserve (h : Sound ⟨d, left, hand⟩) : Sound ⟨d.reserve.2, left, hand⟩ := by
  have hd : Sound ⟨d.reserve.2, left, none⟩ := by
    refine h.document (h.linked.grow _) (d.le_size_grow _) fun k hk => ?_
    obtain ⟨q, hq, rfl⟩ := List.mem_map.mp hk
    rw [Document.reserve, Document.slot?_grow, if_pos (Document.lt_of_slot? _ _ (h.waiting q hq).2)]
  refine ⟨hd.linked, hd.owners, hd.waiting, hd.targets, fun n c hc => ?_⟩
  obtain ⟨hfits, hn⟩ := h.hand n c hc
  exact ⟨hfits.grow _, hn⟩

/-- What is formatted for a slot that no patch waits for leaves patches with slots of their own. -/
theorem format (h : Sound ⟨d, left, none⟩) {n : Nat} {target : Option Nat}
    {relations : List Selected} {y : Outcome Json} {node : Node} (hn : n < d.size)
    (hl : n ∉ left.map (·.slot)) (ht : ∀ t ∈ target, t < d.size ∧ t ∉ left.map (·.slot))
    (hf : Formatted Direct.absent fallback target relations d y node next) :
    Sound ⟨d.grow (d.size + next.length), left ++ next, some (n, node)⟩ := by
  have hnew : ∀ k ∈ next.map (·.slot), d.size ≤ k ∧ k < d.size + next.length := by
    intro k hk
    rw [hf.slots_eq] at hk
    exact List.mem_range'_1.mp hk
  have hold : ∀ q ∈ left, q.slot < d.size := fun q hq => Document.lt_of_slot? _ _ (h.waiting q hq).2
  -- a slot that was there before is not one of the new patches
  have hpast : ∀ k, k < d.size → k ∉ left.map (·.slot) → k ∉ (left ++ next).map (·.slot) := by
    intro k hk hkl hm
    rw [List.map_append] at hm
    rcases List.mem_append.mp hm with hm | hm
    · exact hkl hm
    · have hb := hnew k hm
      omega
  have hsize : (d.grow (d.size + next.length)).size = d.size + next.length :=
    d.size_grow _ (Nat.le_add_right ..)
  refine ⟨h.linked.grow _, ?_, ?_, ?_, ?_⟩
  · rw [List.map_append, List.nodup_append]
    refine ⟨h.owners, hf.slots_eq ▸ List.nodup_range', ?_⟩
    intro k hk k' hk'
    obtain ⟨q, hq, rfl⟩ := List.mem_map.mp hk
    have hlt := hold q hq
    have hb := hnew k' hk'
    omega
  · intro q hq
    rw [Document.slot?_grow]
    rcases List.mem_append.mp hq with hq | hq
    · rw [if_pos (hold q hq)]
      exact h.waiting q hq
    · have hb := hnew q.slot (List.mem_map_of_mem hq)
      rw [if_neg (by omega), if_pos hb.2]
      exact ⟨by omega, rfl⟩
  · intro q hq t hqt
    rw [hsize]
    rcases List.mem_append.mp hq with hq | hq
    · obtain ⟨hlt, hor⟩ := h.targets q hq t hqt
      exact ⟨Nat.lt_of_lt_of_le hlt (Nat.le_add_right ..), hor.imp_right (hpast t hlt)⟩
    · have hb := hnew q.slot (List.mem_map_of_mem hq)
      rw [(hf.leaf q hq).target_eq] at hqt
      split at hqt
      · cases hqt
        exact ⟨hb.2, .inl rfl⟩
      · obtain ⟨hlt, hm⟩ := ht t hqt
        exact ⟨by omega, .inr (hpast t hlt hm)⟩
  · rintro k c hc
    cases hc
    exact ⟨h.linked.fits_grow hn (hf.node_slots.trans hf.slots_eq), hpast n hn hl⟩

end Sound

/-- A step keeps a body sound. -/
theorem Becomes.sound {fallback : Bool} {b b' : Construction} (h : b.Becomes fallback b')
    (hb : b.Sound) : b'.Sound := by
  cases h with
  | reordered perm => exact hb.perm perm
  | reserved => exact hb.reserve
  | dropped => exact hb.tail
  | @formatted d d' p v node left next hf =>
    obtain ⟨rfl, hnew⟩ := Document.format_relationValue Direct.absent hf
    have hw := (hb.waiting p (List.mem_cons_self ..)).2
    exact hb.tail.format (Document.lt_of_slot? _ _ hw) (List.nodup_cons.mp hb.owners).1
      (fun t ht => hb.target_notMem ht) hnew
  | @filled d left n node =>
    obtain ⟨hfits, hn⟩ := hb.hand n node rfl
    refine hb.document (hb.linked.fill hfits) (Nat.le_of_eq (d.size_fill n node).symm) fun k hk => ?_
    rw [Document.slot?_fill, if_neg]
    rintro ⟨rfl, _⟩
    exact hn hk
  | @failed d p t left target error =>
    have hn := (hb.target_notMem target).2
    refine hb.tail.document (hb.linked.failAll [(t, error)])
      (Nat.le_of_eq (d.size_fail t error).symm) fun k hk => ?_
    rw [Document.slot?_fail, if_neg]
    rintro ⟨rfl, _⟩
    exact hn hk

namespace Reached

variable {fallback : Bool} {policy : Option ErrorPolicy} {m : Message} {schema : Schema}

theorem sound {b : Construction} (h : Reached fallback policy m schema b) : b.Sound := by
  have hstart : Sound ⟨(Document.reserve {}).2, [], none⟩ := Sound.empty.reserve
  have hsize : (Document.reserve {}).2.size = 1 := rfl
  induction h with
  | reserved => exact hstart
  | @formatted node patches d hf =>
    obtain ⟨rfl, hnew⟩ := Document.format_message Direct.absent hf
    refine hstart.format (by omega) (by simp) (fun t ht => ?_) hnew
    split at ht
    · cases ht
      exact ⟨by omega, by simp⟩
    · cases ht
  | later reached becomes ih => exact becomes.sound ih

/-! ## Runs of the program -/

variable {d d' : Document} {left next : List Patch}

/-- What is left may be given up. -/
theorem drop (h : Reached fallback policy m schema ⟨d, left, none⟩) :
    Reached fallback policy m schema ⟨d, [], none⟩ := by
  induction left with
  | nil => exact h
  | cons p rest ih => exact ih (h.later .dropped)

/-- Slots are reserved one by one. -/
theorem grow (h : Reached fallback policy m schema ⟨d, left, none⟩) (s : Nat) :
    Reached fallback policy m schema ⟨d.grow s, left, none⟩ := by
  have hk : ∀ k, Reached fallback policy m schema ⟨d.grow (d.size + k), left, none⟩ := by
    intro k
    induction k with
    | zero =>
      rw [Nat.add_zero, Document.grow_of_le _ (Nat.le_refl _)]
      exact h
    | succ k ih =>
      have hr := ih.later .reserved
      rwa [Document.reserve, Document.size_grow _ _ (Nat.le_add_right ..),
        Document.grow_succ _ (Nat.le_add_right ..)] at hr
  by_cases hs : s ≤ d.size
  · rwa [Document.grow_of_le _ hs]
  · have hr := hk (s - d.size)
    rwa [Nat.add_sub_cancel' (by omega)] at hr

/-- The errors of a batch are written one after the other. -/
theorem failAll {ps : List Patch} {error : Patch → Json} (caught : ∀ p ∈ ps, p.target.isSome)
    (h : Reached fallback policy m schema ⟨d, ps ++ left, none⟩) :
    Reached fallback policy m schema
      ⟨d.failAll (ps.filterMap fun p => p.target.map fun t => (t, error p)), left, none⟩ := by
  induction ps generalizing d with
  | nil => exact h
  | cons p rest ih =>
    obtain ⟨t, ht⟩ := Option.isSome_iff_exists.mp (caught p (List.mem_cons_self ..))
    rw [List.filterMap_cons_some (by rw [ht]; rfl)]
    exact ih (fun q hq => caught q (List.mem_cons_of_mem _ hq)) (h.later (.failed ht (error p)))

theorem step {a : Action} (hs : Step fallback d a d' next)
    (h : Reached fallback policy m schema ⟨d, a.entries ++ left, none⟩) :
    Reached fallback policy m schema ⟨d', left ++ next, none⟩ := by
  cases hs with
  | absent p =>
    rw [List.append_nil]
    exact h.later .dropped
  | placed hf => exact (h.later (.formatted hf)).later .filled
  | embedded caught =>
    rw [List.append_nil]
    exact failAll caught h

/-- Each action leaves a body that can be reached, others having to wait for it. -/
theorem kept (others : List Patch) :
    Kept fallback fun _ d left => Reached fallback policy m schema ⟨d, others ++ left, none⟩ where
  perm hl h := h.later (.reordered (hl.append_left others))
  step hs h := by
    rw [← List.append_assoc]
    refine step hs (h.later (.reordered ?_))
    rw [← List.append_assoc, ← List.append_assoc]
    exact List.perm_append_comm.append_right _

theorem actAll {actions : List Action} {s s' : Stitched} (others : List Patch)
    (ha : (Stitching.actAll fallback actions).run s = .ok () s')
    (h : Reached fallback policy m schema
      ⟨s.document, others ++ (actions.flatMap Action.entries ++ s.pending), none⟩) :
    Reached fallback policy m schema ⟨s'.document, others ++ s'.pending, none⟩ :=
  @Kept.actAll fallback _ (kept others) actions [] s s' ha h

/-- An action that fails leaves a body that could be reached, too. -/
theorem act_error {a : Action} {s s' : Stitched} {e : Failure}
    (ha : (Stitching.act fallback a).run s = .error e s')
    (h : Reached fallback policy m schema ⟨s.document, a.entries ++ left, none⟩) :
    Reached fallback policy m schema ⟨s'.document, [], none⟩ := by
  cases a with
  | value p v =>
    cases v with
    | none => cases ha
    | some v =>
      rw [Stitching.act, Stitching.run_place] at ha
      split at ha
      · cases ha
      · next e' d' hf =>
        cases ha
        obtain ⟨size, rfl⟩ := Document.grow_of_format_error hf
        exact (h.grow size).drop
  | failure b e' =>
    rw [Stitching.act] at ha
    cases ht : b.entries.mapM (·.target) with
    | none =>
      rw [Stitching.run_embed_none e' s ht] at ha
      cases ha
      exact h.drop
    | some targets =>
      rw [Stitching.run_embed_some e' s ht] at ha
      cases ha

theorem actAll_error {actions : List Action} {s s' : Stitched} {e : Failure}
    (ha : (Stitching.actAll fallback actions).run s = .error e s')
    (h : Reached fallback policy m schema
      ⟨s.document, actions.flatMap Action.entries ++ s.pending, none⟩) :
    Reached fallback policy m schema ⟨s'.document, [], none⟩ := by
  induction actions generalizing s with
  | nil => cases ha
  | cons a rest ih =>
    rw [List.flatMap_cons, List.append_assoc] at h
    rw [Stitching.actAll, EStateM.run_bind] at ha
    cases hs : (Stitching.act fallback a).run s with
    | error e' s₁ =>
      simp only [hs] at ha
      cases ha
      exact act_error hs h
    | ok u s₁ =>
      simp only [hs] at ha
      obtain ⟨next, hstep, hp⟩ := Stitching.act_ok hs
      refine ih ha ?_
      have hn := h.step hstep
      rwa [List.append_assoc, ← hp] at hn

end Reached
end Construction

namespace Progress

/-- The document of a body on its way. -/
def document : Progress → Document
  | .wave d _ => d
  | .finished d _ => d

/-- A run passes by a document with patches left: between two waves or at its end, or within a
wave when some of its patches have been dealt with. -/
inductive Passes (fallback : Bool) (p : Progress) : Document → List Patch → Prop
  | between {ws : List Wave} {q : Progress} (run : p.Runs fallback ws q) :
      Passes fallback p q.document q.patches
  | within {ws : List Wave} {d : Document} {w : Wave} {before after : List Action} {s : Stitched}
      (run : p.Runs fallback ws (.wave d w.batches)) (split : w.actions = before ++ after)
      (taken : (Stitching.actAll fallback before).run ⟨d, []⟩ = .ok () s) :
      Passes fallback p s.document (after.flatMap Action.entries ++ s.pending)

/-- A body on its way that can be reached. -/
def IsReached (fallback : Bool) (policy : Option ErrorPolicy) (m : Message) (schema : Schema)
    (p : Progress) : Prop :=
  Construction.Reached fallback policy m schema ⟨p.document, p.patches, none⟩

variable {fallback : Bool} {policy : Option ErrorPolicy} {m : Message} {schema : Schema}

theorem isReached_enter {s : Stitched}
    (h : Construction.Reached fallback policy m schema ⟨s.document, s.pending, none⟩) :
    (enter s).IsReached fallback policy m schema := by
  unfold enter
  split
  · exact h.drop
  · split
    · next batches hg => exact h.later (.reordered (Batch.grouped_of_group hg).perm.symm)
    · exact h.drop

theorem isReached_advance {d : Document} {w : Wave}
    (h : (wave d w.batches).IsReached fallback policy m schema) :
    (advance fallback d w.results).IsReached fallback policy m schema := by
  have hw : Construction.Reached fallback policy m schema
      ⟨d, w.actions.flatMap Action.entries ++ [], none⟩ := by
    rw [Wave.entries_actions, List.append_nil]
    exact h
  unfold advance
  rw [Stitching.absorbAll_eq]
  split
  · next s hs => exact isReached_enter (Construction.Reached.actAll [] hs hw)
  · next e s hs => exact Construction.Reached.actAll_error hs hw

theorem Runs.isReached {p q : Progress} {ws : List Wave} (h : p.Runs fallback ws q)
    (hp : p.IsReached fallback policy m schema) : q.IsReached fallback policy m schema := by
  induction h with
  | stop p => exact hp
  | wave answered rest ih =>
    subst answered
    exact ih (isReached_advance hp)

theorem isReached_ofMessage :
    (ofMessage m schema policy fallback).IsReached fallback policy m schema := by
  unfold ofMessage
  dsimp only
  split
  · next node patches d hf =>
    exact isReached_enter ((Construction.Reached.formatted hf).later .filled)
  · next e d hf =>
    obtain ⟨size, rfl⟩ := Document.grow_of_format_error hf
    exact Construction.Reached.reserved.grow size

/-- Whatever the resolvers reply, a run passes by bodies only that can be reached. -/
theorem Passes.reached {p : Progress} {d : Document} {left : List Patch}
    (h : p.Passes fallback d left) (hp : p.IsReached fallback policy m schema) :
    Construction.Reached fallback policy m schema ⟨d, left, none⟩ := by
  cases h with
  | between run => exact run.isReached hp
  | @within ws d w before after s run split taken =>
    -- what has been dealt with goes first, the rest of the wave waits
    have hw : Construction.Reached fallback policy m schema
        ⟨d, after.flatMap Action.entries ++ (before.flatMap Action.entries ++ []), none⟩ := by
      refine Construction.Reached.later (run.isReached hp) (.reordered ?_)
      rw [List.append_nil]
      refine List.Perm.trans ?_ List.perm_append_comm
      rw [← List.flatMap_append, ← split, Wave.entries_actions]
      exact List.Perm.refl _
    exact Construction.Reached.actAll (after.flatMap Action.entries) taken hw

end Progress

/-- Documents are forests, and rendering them loses nothing. Whatever happens to a body, at any time
each slot is named once at most, in a slot before it, and each patch that is left has an open slot
of its own. So the slots show something definite, the contents put in place of the slots that they
name. Rendering ends, whatever its bound on the depth, gives what the slots show, and takes each
slot that it reaches once, finding in it what the document holds. Any run from a message, of waves
or of stitching alone, passes by such bodies only. -/
theorem documents_are_forests_rendered_whole (fallback : Bool) (policy : Option ErrorPolicy)
    (m : Message) (schema : Schema) :
    (∀ b, Construction.Reached fallback policy m schema b → b.IsForest ∧
      ∃ env, b.document.Shows env ∧ (∀ env', b.document.Shows env' → env' = env) ∧
        ∀ n, b.document.RendersWhole env n) ∧
    (∀ d left, (Progress.ofMessage m schema policy fallback).Passes fallback d left →
      Construction.Reached fallback policy m schema ⟨d, left, none⟩) ∧
    ∀ (s : Setting) (mo : Moment) node patches d d' failure, s.fallback = fallback →
      (Document.reserve {}).2.format (formatMessage m schema
        (if shouldCatch policy fallback then some 0 else none) fallback) = (.ok (node, patches), d) →
      (stitch s mo (d.fill 0 node) patches).1 = some (d', failure) →
      Construction.Reached fallback policy m schema ⟨d', [], none⟩ := by
  refine ⟨fun b reached => ?_, fun d left passes => passes.reached Progress.isReached_ofMessage, ?_⟩
  · have hb := reached.sound
    obtain ⟨env, shows⟩ := hb.linked.exists_shows
    exact ⟨hb.isForest, env, shows, fun env' shows' => hb.linked.shows_unique shows shows',
      hb.linked.rendersWhole shows⟩
  · rintro s mo node patches d d' failure rfl formatted stitched
    obtain ⟨ws, due, q, j, alone, stuck, ends, _⟩ := stitch_alone s mo (d.fill 0 node) patches
    cases due with
    | none =>
      rw [stuck rfl] at stitched
      cases stitched
    | some t =>
      obtain ⟨_, d₁, failure₁, rfl, returned⟩ := ends t rfl
      cases returned.symm.trans stitched
      have start := Progress.isReached_enter (s := ⟨d.fill 0 node, patches⟩)
        ((Construction.Reached.formatted formatted).later .filled)
      exact alone.runs.isReached start

namespace Sample

/-- An item with its ancestor and its parent, when the ancestor of the parent is still to be found. -/
def halfway : Progress :=
  (Progress.ofMessage familyItem ancestrySchema none false).after false knotsFor 1

theorem passes_halfway : (Progress.ofMessage familyItem ancestrySchema none false).Passes false
    halfway.document halfway.patches := by
  obtain ⟨ws, runs, _⟩ := Progress.runs_after false knotsFor 1
    (Progress.ofMessage familyItem ancestrySchema none false)
  exact .between runs

/-- An item as it was formatted, with the document and the patch for its parent. -/
def formattedKnot : Outcome (Node × List Patch) × Document :=
  (Document.reserve {}).2.format (formatMessage (itemOf "knot") schema none false)

theorem stitches_knot : ∃ node patches d d', formattedKnot = (.ok (node, patches), d) ∧
    (stitch mirror {} (d.fill 0 node) patches).1 = some (d', none) ∧ d'.named = [1] := by
  have h : (formattedKnot.1.toOption.bind fun formatted =>
      (stitch mirror {} (formattedKnot.2.fill 0 formatted.1) formatted.2).1).any
        (fun ended => ended.2.isNone && ended.1.named == [1]) := by decide +kernel
  obtain ⟨⟨d', failure⟩, stitched, ended⟩ := (Option.any_eq_true _ _).mp h
  obtain ⟨⟨node, patches⟩, formatted, stitched⟩ := Option.bind_eq_some_iff.mp stitched
  obtain ⟨ended, named⟩ := Bool.and_eq_true_iff.mp ended
  obtain rfl : failure = none := Option.isNone_iff_eq_none.mp ended
  have formatted : formattedKnot = (.ok (node, patches), formattedKnot.2) :=
    Prod.ext (Outcome.toOption_eq_some.mp formatted) rfl
  exact ⟨node, patches, _, d', formatted, stitched, beq_iff_eq.mp named⟩

end Sample

/-- When the ancestor and the parent of an item are there, but not yet the ancestor of the parent,
this has an open slot of its own, which is left out. The slots are taken one after the other. At the
end of stitching an item and its parent, the slot of the parent is named once. -/
theorem halfway_is_rendered_whole :
    (∃ d left,
      (Progress.ofMessage Sample.familyItem Sample.ancestrySchema none false).Passes false d left ∧
      left.map (·.slot) = [3] ∧ d.named = [1, 2, 3] ∧ Construction.IsForest ⟨d, left, none⟩ ∧
      (d.tour 5 0).map (·.1) = [0, 1, 2, 3] ∧ ∃ env, d.Shows env ∧ (env 0).getD .null =
        .object [("ancestor", .object [("title", .str "knot")]), ("parent", .object [])]) ∧
    ∃ node patches d d', Sample.formattedKnot = (.ok (node, patches), d) ∧
      (stitch Sample.mirror {} (d.fill 0 node) patches).1 = some (d', none) ∧ d'.named = [1] ∧
      Construction.IsForest ⟨d', [], none⟩ := by
  constructor
  · have whole : ∀ d left, (Progress.ofMessage Sample.familyItem Sample.ancestrySchema none
        false).Passes false d left → Construction.IsForest ⟨d, left, none⟩ ∧
          ∃ env, d.Shows env ∧ d.toJson 0 = (env 0).getD .null := by
      intro d left passes
      obtain ⟨holds, reaches, _⟩ :=
        documents_are_forests_rendered_whole false none Sample.familyItem Sample.ancestrySchema
      obtain ⟨forest, env, shows, _, renders⟩ := holds _ (reaches d left passes)
      exact ⟨forest, env, shows, (renders 0).toJson_eq⟩
    obtain ⟨forest, env, shows, rendered⟩ := whole _ _ Sample.passes_halfway
    refine ⟨_, _, Sample.passes_halfway, by decide +kernel, by decide +kernel, forest,
      by decide +kernel, env, shows, rendered.symm.trans ?_⟩
    decide +kernel
  · obtain ⟨node, patches, d, d', formatted, stitched, named⟩ := Sample.stitches_knot
    obtain ⟨holds, _, reaches⟩ :=
      documents_are_forests_rendered_whole false none (Sample.itemOf "knot") Sample.schema
    have reached := reaches Sample.mirror {} node patches d d' none rfl formatted stitched
    exact ⟨node, patches, d, d', formatted, stitched, named, (holds _ reached).1⟩

end Patchwork
