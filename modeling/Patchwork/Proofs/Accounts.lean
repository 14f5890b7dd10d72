import Patchwork.Proofs.Uncovered

/-!
# Accounts of a document

What happened in a run determines each slot of the document. A slot that an error was written to
holds the last such error. Any other slot holds what formatting gave for its own patch, and is open
when there was nothing to format.
-/

namespace Patchwork
open Proto

def Slot.error? : Slot → Option Json
  | .failed j => some j
  | _ => none

/-- The error value that a slot of a document holds, if any. -/
def Document.error? (d : Document) (n : Nat) : Option Json := (d.slot? n).bind Slot.error?

/-- An error value that was written to a slot is there to be found. -/
theorem mem_of_lastError {errors : List (Nat × Json)} {n : Nat} {j : Json}
    (h : lastError errors n = some j) : (n, j) ∈ errors := by
  obtain ⟨l₁, l₂, he, _⟩ := List.lookup_eq_some_iff.mp h
  have hm : (n, j) ∈ errors.reverse := by simp [he]
  exact List.mem_reverse.mp hm

namespace Document

theorem error?_eq_some {d : Document} {n : Nat} {j : Json} :
    d.error? n = some j ↔ d.slot? n = some (.failed j) := by
  unfold error?
  cases d.slot? n with
  | none => simp
  | some s => cases s <;> simp [Slot.error?]

theorem isFailed_eq (d : Document) (n : Nat) : d.isFailed n = (d.error? n).isSome := by
  unfold isFailed error?
  cases d.slot? n with
  | none => rfl
  | some s => cases s <;> rfl

theorem error?_grow (d : Document) (s n : Nat) : (d.grow s).error? n = d.error? n := by
  unfold error?
  rw [slot?_grow]
  by_cases hn : n < d.size
  · rw [if_pos hn]
  · rw [if_neg hn, slot?_of_le d n (Nat.le_of_not_lt hn)]
    split <;> rfl

/-- What failed stays failed. -/
theorem error?_fill (d : Document) (m n : Nat) (c : Node) : (d.fill m c).error? n = d.error? n := by
  unfold error?
  rw [slot?_fill]
  split
  · next h =>
    have hf := h.2.2
    rw [isFailed_eq] at hf
    have he : d.error? n = none := by simpa using hf
    exact he.symm
  · rfl

theorem error?_failAll (d : Document) (errors : List (Nat × Json)) (n : Nat)
    (h : ∀ x ∈ errors, x.1 < d.size) :
    (d.failAll errors).error? n = (lastError errors n).or (d.error? n) := by
  unfold error?
  rw [slot?_failAll]
  cases hl : lastError errors n with
  | some j =>
    rw [if_pos (h _ (mem_of_lastError hl))]
    rfl
  | none =>
    by_cases hn : n < d.size
    · rw [if_pos hn]
      rfl
    · rw [if_neg hn, slot?_of_le d n (Nat.le_of_not_lt hn)]
      rfl

end Document

namespace Step

variable {fallback : Bool} {d d' : Document} {a : Action} {next : List Patch}

/-- New patches get the slots behind those that are there. -/
theorem size_eq (h : Step fallback d a d' next) :
    d'.size = d.size + next.length ∧ next.map (·.slot) = List.range' d.size next.length := by
  cases h with
  | absent p => exact ⟨rfl, rfl⟩
  | embedded caught => exact ⟨d.size_failAll _, rfl⟩
  | @placed p v node next d' hf =>
    obtain ⟨rfl, hn⟩ := Document.format_relationValue Direct.absent hf
    refine ⟨?_, hn.slots_eq⟩
    rw [Document.size_fill, Document.size_grow _ _ (Nat.le_add_right ..)]

theorem error?_eq (h : Step fallback d a d' next) (he : ∀ x ∈ a.errors, x.1 < d.size) (n : Nat) :
    d'.error? n = (lastError a.errors n).or (d.error? n) := by
  cases h with
  | absent p => rfl
  | embedded caught => exact d.error?_failAll _ n he
  | @placed p v node next d' hf =>
    obtain ⟨rfl, _⟩ := Document.format_relationValue Direct.absent hf
    rw [Document.error?_fill, Document.error?_grow]
    rfl

/-- A step leaves alone what it neither fills nor fails. -/
theorem slot?_eq (h : Step fallback d a d' next) {n : Nat} (hn : n < d.size)
    (hp : ∀ p v, a = .value p (some v) → n ≠ p.slot) (he : d'.error? n = none) :
    d'.slot? n = d.slot? n := by
  cases h with
  | absent p => rfl
  | @embedded b e caught =>
    rw [Document.slot?_failAll, if_pos hn]
    cases hl : lastError (b.errors e) n with
    | none => rfl
    | some j =>
      have hs : (d.failAll (b.errors e)).error? n = some j := by
        rw [Document.error?_eq_some, Document.slot?_failAll, if_pos hn, hl]
        rfl
      rw [hs] at he
      cases he
  | @placed p v node next d' hf =>
    obtain ⟨rfl, _⟩ := Document.format_relationValue Direct.absent hf
    rw [Document.slot?_fill, if_neg fun h => hp p v rfl h.1, Document.slot?_grow, if_pos hn]

/-- New patches stand for open slots. -/
theorem slot?_next (h : Step fallback d a d' next) (ha : ∀ p ∈ a.entries, p.slot < d.size)
    {q : Patch} (hq : q ∈ next) : d'.slot? q.slot = some .pending := by
  obtain ⟨hd, hs⟩ := h.size_eq
  have hm : q.slot ∈ List.range' d.size next.length := hs ▸ List.mem_map_of_mem hq
  obtain ⟨hlo, hhi⟩ := List.mem_range'_1.mp hm
  cases h with
  | absent p => cases hq
  | embedded caught => cases hq
  | @placed p v node next d' hf =>
    obtain ⟨rfl, _⟩ := Document.format_relationValue Direct.absent hf
    have hp := ha p (List.mem_singleton_self _)
    have hne : q.slot ≠ p.slot := by omega
    rw [Document.slot?_fill, if_neg fun h => hne h.1, Document.slot?_grow, if_neg (by omega),
      if_pos hhi]

end Step

/-- What an action leaves in the slot of a patch, among all patches. -/
inductive Action.Leaves (fallback : Bool) (all : List Patch) : Action → Patch → Slot → Prop
  | absent (p : Patch) : Leaves fallback all (.value p none) p .pending
  | placed {p : Patch} {v : Value} {node : Node} {next : List Patch} {d d' : Document}
      (formatted : d.format (formatRelationValue p.field v p.target fallback) =
        (.ok (node, next), d')) (known : next ⊆ all) :
      Leaves fallback all (.value p (some v)) p (.filled node)
  | failed {b : Batch} {e : Failure} {p : Patch} (entry : p ∈ b.entries) :
      Leaves fallback all (.failure b e) p .pending

theorem Action.Leaves.mono {fallback : Bool} {all all' : List Patch} {a : Action} {p : Patch}
    {s : Slot} (h : a.Leaves fallback all p s) (hs : all ⊆ all') : a.Leaves fallback all' p s := by
  cases h with
  | absent => exact .absent p
  | placed formatted known => exact .placed formatted (List.Subset.trans known hs)
  | failed entry => exact .failed entry

/-- All patches so far, those that are left included. -/
def patchesOf (log : List Action) (left : List Patch) : List Patch :=
  log.flatMap Action.entries ++ left

/-- All error values so far. -/
def errorsOf (log : List Action) : List (Nat × Json) := log.flatMap Action.errors

/-- What happened accounts for each slot of the document, slot 0 being that of the root. -/
structure Account (fallback : Bool) (root : Node) (log : List Action) (d : Document)
    (left : List Patch) : Prop where
  slots : (0 :: (patchesOf log left).map (·.slot)).Perm (List.range d.size)
  targets : ∀ p ∈ left, ∀ t ∈ p.target, t < d.size
  errors_lt : ∀ x ∈ errorsOf log, x.1 < d.size
  error : ∀ n, d.error? n = lastError (errorsOf log) n
  root : d.error? 0 = none → d.slot? 0 = some (.filled root)
  waiting : ∀ p ∈ left, d.error? p.slot = none → d.slot? p.slot = some .pending
  done : ∀ a ∈ log, ∀ p ∈ a.entries, ∃ s, a.Leaves fallback (patchesOf log left) p s ∧
    (d.error? p.slot = none → d.slot? p.slot = some s)

namespace Account

variable {fallback : Bool} {root : Node} {log : List Action} {d d' : Document} {a : Action}
  {left left' next : List Patch}

theorem nodup (h : Account fallback root log d left) :
    (0 :: (patchesOf log left).map (·.slot)).Nodup :=
  h.slots.nodup_iff.mpr List.nodup_range

theorem slot_lt (h : Account fallback root log d left) {p : Patch} (hp : p ∈ patchesOf log left) :
    p.slot < d.size := by
  have hm := List.mem_cons_of_mem 0 (List.mem_map_of_mem (f := fun p : Patch => p.slot) hp)
  exact List.mem_range.mp (h.slots.mem_iff.mp hm)

theorem slot_ne_zero (h : Account fallback root log d left) {p : Patch}
    (hp : p ∈ patchesOf log left) : p.slot ≠ 0 := by
  intro h0
  have hn := (List.nodup_cons.mp h.nodup).1
  exact hn (h0 ▸ List.mem_map_of_mem (f := fun p : Patch => p.slot) hp)

theorem perm (hl : left.Perm left') (h : Account fallback root log d left) :
    Account fallback root log d left' where
  slots := (((hl.append_left _).map _).symm.cons 0).trans h.slots
  targets p hp := h.targets p (hl.mem_iff.mpr hp)
  errors_lt := h.errors_lt
  error := h.error
  root := h.root
  waiting p hp := h.waiting p (hl.mem_iff.mpr hp)
  done b hb p hp := by
    obtain ⟨s, hs, he⟩ := h.done b hb p hp
    exact ⟨s, hs.mono (hl.append_left _).subset, he⟩

theorem patchesOf_step : patchesOf (log ++ [a]) (left ++ next) =
    patchesOf log (a.entries ++ left) ++ next := by
  simp [patchesOf]

theorem errorsOf_step : errorsOf (log ++ [a]) = errorsOf log ++ a.errors := by
  simp [errorsOf]

/-- The errors of an action go to slots that are there. -/
theorem errors_of_targets (h : Account fallback root log d (a.entries ++ left)) :
    ∀ x ∈ a.errors, x.1 < d.size := by
  intro x hx
  cases a with
  | value p v => cases hx
  | failure b e =>
    obtain ⟨p, hp, ht⟩ := List.mem_filterMap.mp hx
    obtain ⟨t, hpt, rfl⟩ := Option.map_eq_some_iff.mp ht
    exact h.targets p (List.mem_append_left _ hp) t hpt

theorem error_none (h : Account fallback root log d (a.entries ++ left))
    (hs : Step fallback d a d' next) {n : Nat} (he : d'.error? n = none) : d.error? n = none := by
  rw [hs.error?_eq h.errors_of_targets n] at he
  exact (Option.or_eq_none_iff.mp he).2

/-- Patches dealt with before have other slots than those of the next action. -/
theorem done_ne (h : Account fallback root log d (a.entries ++ left)) {b : Action} (hb : b ∈ log)
    {p q : Patch} (hp : p ∈ b.entries) (hq : q ∈ a.entries) : p.slot ≠ q.slot := by
  have hn := (List.nodup_cons.mp h.nodup).2
  rw [patchesOf, List.map_append] at hn
  have hd := (List.nodup_append.mp hn).2.2
  exact hd _ (List.mem_map_of_mem (List.mem_flatMap.mpr ⟨b, hb, hp⟩)) _
    (List.mem_map_of_mem (List.mem_append_left _ hq))

theorem left_ne (h : Account fallback root log d (a.entries ++ left)) {p q : Patch}
    (hp : p ∈ left) (hq : q ∈ a.entries) : p.slot ≠ q.slot := by
  have hn := (List.nodup_cons.mp h.nodup).2
  rw [patchesOf, List.map_append] at hn
  have ha := (List.nodup_append.mp hn).2.1
  rw [List.map_append] at ha
  have hd := (List.nodup_append.mp ha).2.2
  exact fun he => hd _ (List.mem_map_of_mem hq) _ (List.mem_map_of_mem hp) he.symm

/-- What the action itself leaves in the slots of its patches. -/
theorem leaves (h : Account fallback root log d (a.entries ++ left))
    (hs : Step fallback d a d' next) :
    ∀ p ∈ a.entries, ∃ s, a.Leaves fallback (patchesOf log (a.entries ++ left) ++ next) p s ∧
      (d'.error? p.slot = none → d'.slot? p.slot = some s) := by
  intro p hp
  have hl := h.waiting p (List.mem_append_left _ hp)
  have hlt := h.slot_lt (List.mem_append_right _ (List.mem_append_left _ hp))
  have hnone : d'.error? p.slot = none → d.error? p.slot = none := h.error_none hs
  cases hs with
  | absent q =>
    rw [List.mem_singleton.mp hp] at hl ⊢
    exact ⟨.pending, .absent q, hl⟩
  | @embedded b e caught =>
    refine ⟨.pending, .failed hp, fun hd => ?_⟩
    have hs : Step fallback d (.failure b e) _ [] := .embedded caught
    rw [hs.slot?_eq hlt (fun _ _ hv => by cases hv) hd]
    exact hl (hnone hd)
  | @placed q v node next d' hf =>
    rw [List.mem_singleton.mp hp] at hlt ⊢
    refine ⟨.filled node, .placed hf (List.subset_append_right ..), fun hd => ?_⟩
    obtain ⟨rfl, _⟩ := Document.format_relationValue Direct.absent hf
    rw [Document.error?_fill] at hd
    have hg : q.slot < (d.grow (d.size + next.length)).size := by
      rw [Document.size_grow _ _ (Nat.le_add_right ..)]
      omega
    rw [Document.slot?_fill, if_pos ⟨rfl, hg, by rw [Document.isFailed_eq, hd]; simp⟩]

theorem slots_step (h : Account fallback root log d (a.entries ++ left))
    (hs : Step fallback d a d' next) :
    (0 :: (patchesOf (log ++ [a]) (left ++ next)).map (·.slot)).Perm (List.range d'.size) := by
  obtain ⟨hd, hn⟩ := hs.size_eq
  rw [patchesOf_step, List.map_append, hn, hd, List.range_eq_range', ← List.cons_append,
    ← List.range'_append_1 (s := 0), Nat.zero_add]
  rw [← List.range_eq_range']
  exact h.slots.append_right _

theorem targets_step (h : Account fallback root log d (a.entries ++ left))
    (hs : Step fallback d a d' next) : ∀ p ∈ left ++ next, ∀ t ∈ p.target, t < d'.size := by
  obtain ⟨hd, hn⟩ := hs.size_eq
  intro q hq t ht
  rcases List.mem_append.mp hq with hq | hq
  · have hlt := h.targets q (List.mem_append_right _ hq) t ht
    omega
  · obtain ⟨p, v, rfl, hu⟩ := hs.uncovers hq
    rw [hu.leaf.target_eq] at ht
    split at ht
    · cases ht
      have hm : q.slot ∈ List.range' d.size next.length := hn ▸ List.mem_map_of_mem hq
      have hr := (List.mem_range'_1.mp hm).2
      omega
    · have hlt := h.targets p (List.mem_append_left _ (List.mem_singleton_self _)) t ht
      omega

theorem errors_lt_step (h : Account fallback root log d (a.entries ++ left))
    (hs : Step fallback d a d' next) : ∀ x ∈ errorsOf (log ++ [a]), x.1 < d'.size := by
  obtain ⟨hd, _⟩ := hs.size_eq
  intro x hx
  rw [errorsOf_step] at hx
  rcases List.mem_append.mp hx with hx | hx
  · have hlt := h.errors_lt x hx
    omega
  · have hlt := h.errors_of_targets x hx
    omega

/-- An action leaves the other slots as they are, but for errors. -/
theorem slot?_other (h : Account fallback root log d (a.entries ++ left))
    (hs : Step fallback d a d' next) {n : Nat} {s : Slot} (hn : n < d.size)
    (hne : ∀ p ∈ a.entries, n ≠ p.slot) (hd : d.error? n = none → d.slot? n = some s)
    (he : d'.error? n = none) : d'.slot? n = some s := by
  rw [hs.slot?_eq hn (fun p v hv => ?_) he]
  · exact hd (h.error_none hs he)
  · subst hv
    exact hne p (List.mem_singleton_self _)

theorem waiting_step (h : Account fallback root log d (a.entries ++ left))
    (hs : Step fallback d a d' next) :
    ∀ p ∈ left ++ next, d'.error? p.slot = none → d'.slot? p.slot = some .pending := by
  intro q hq he
  rcases List.mem_append.mp hq with hq | hq
  · have hlt := h.slot_lt (List.mem_append_right _ (List.mem_append_right _ hq))
    have hd := h.waiting q (List.mem_append_right _ hq)
    exact h.slot?_other hs hlt (fun p hp => h.left_ne hq hp) hd he
  · refine hs.slot?_next (fun p hp => ?_) hq
    exact h.slot_lt (List.mem_append_right _ (List.mem_append_left _ hp))

theorem done_step (h : Account fallback root log d (a.entries ++ left))
    (hs : Step fallback d a d' next) :
    ∀ b ∈ log ++ [a], ∀ p ∈ b.entries,
      ∃ s, b.Leaves fallback (patchesOf (log ++ [a]) (left ++ next)) p s ∧
        (d'.error? p.slot = none → d'.slot? p.slot = some s) := by
  intro b hb p hp
  rw [patchesOf_step]
  rcases List.mem_append.mp hb with hb | hb
  · obtain ⟨s, hl, hd⟩ := h.done b hb p hp
    have hlt := h.slot_lt (List.mem_append_left _ (List.mem_flatMap.mpr ⟨b, hb, hp⟩))
    refine ⟨s, hl.mono (List.subset_append_left ..), ?_⟩
    exact h.slot?_other hs hlt (fun q hq => h.done_ne hb hp hq) hd
  · rw [List.mem_singleton.mp hb] at hp ⊢
    exact h.leaves hs p hp

theorem step (hs : Step fallback d a d' next)
    (h : Account fallback root log d (a.entries ++ left)) :
    Account fallback root (log ++ [a]) d' (left ++ next) where
  slots := h.slots_step hs
  targets := h.targets_step hs
  errors_lt := h.errors_lt_step hs
  error n := by
    rw [hs.error?_eq h.errors_of_targets n, h.error n, errorsOf_step, lastError_append]
  root := by
    have h0 : 0 < d.size := by
      have hm : 0 ∈ List.range d.size := h.slots.mem_iff.mp (List.mem_cons_self ..)
      exact List.mem_range.mp hm
    refine h.slot?_other hs h0 (fun p hp => ?_) h.root
    exact (h.slot_ne_zero (List.mem_append_right _ (List.mem_append_left _ hp))).symm
  waiting := h.waiting_step hs
  done := h.done_step hs

/-- Each action keeps account of the document. -/
theorem kept (fallback : Bool) (root : Node) : Kept fallback (Account fallback root) where
  perm hl h := h.perm hl
  step hs h := h.step hs

end Account

/-- A message was formatted as the root of a document, failures going nowhere or to the root. -/
structure Rooted (fallback : Bool) (m : Message) (schema : Schema) (target : Option Nat) (root : Node)
    (patches : List Patch) (d : Document) : Prop where
  target_eq : ∀ t ∈ target, t = 0
  formatted : ∃ d', (Document.grow {} 1).format (formatMessage m schema target fallback) =
    (.ok (root, patches), d') ∧ d = d'.fill 0 root

namespace Rooted

variable {fallback : Bool} {m : Message} {schema : Schema} {target : Option Nat} {root : Node}
  {patches : List Patch} {d : Document}

theorem leaf (h : Rooted fallback m schema target root patches d) :
    ∀ p ∈ patches, p.Leaf fallback target (relationsIn schema.fields) := by
  obtain ⟨d', hf, _⟩ := h.formatted
  exact (Document.format_message Direct.absent hf).2.leaf

theorem account (h : Rooted fallback m schema target root patches d) :
    Account fallback root [] d patches := by
  obtain ⟨d', hf, rfl⟩ := h.formatted
  obtain ⟨rfl, hn⟩ := Document.format_message Direct.absent hf
  have h1 : (Document.grow {} 1).size = 1 := rfl
  have hs : ((Document.grow {} 1).grow (1 + patches.length)).size = 1 + patches.length :=
    Document.size_grow _ _ (by rw [h1]; omega)
  have hn1 : patches.map (·.slot) = List.range' 1 patches.length := hn.slots_eq
  have herr : ∀ n, (((Document.grow {} 1).grow (1 + patches.length)).fill 0 root).error? n = none := by
    intro n
    rw [Document.error?_fill, Document.error?_grow, Document.error?_grow]
    rfl
  refine ⟨?_, ?_, ?_, ?_, ?_, ?_, ?_⟩
  · rw [Document.size_fill, h1, hs, List.range_eq_range', Nat.add_comm 1, List.range'_succ]
    rw [patchesOf, List.flatMap_nil, List.nil_append, hn1]
  · intro p hp t ht
    have hm : p.slot ∈ List.range' 1 patches.length := hn1 ▸ List.mem_map_of_mem hp
    have hb := (List.mem_range'_1.mp hm).2
    rw [(hn.leaf p hp).target_eq] at ht
    rw [Document.size_fill, h1, hs]
    split at ht
    · cases ht
      exact hb
    · rw [h.target_eq t ht]
      omega
  · intro x hx
    cases hx
  · exact fun n => herr n
  · intro _
    have h0 : 0 < ((Document.grow {} 1).grow (1 + patches.length)).size := by omega
    have hf : ¬((Document.grow {} 1).grow (1 + patches.length)).isFailed 0 := by
      rw [Document.isFailed_eq, Document.error?_grow, Document.error?_grow]
      decide
    rw [h1, Document.slot?_fill, if_pos ⟨rfl, h0, hf⟩]
  · intro p hp _
    have hm : p.slot ∈ List.range' 1 patches.length := hn1 ▸ List.mem_map_of_mem hp
    obtain ⟨hlo, hhi⟩ := List.mem_range'_1.mp hm
    rw [h1, Document.slot?_fill, if_neg (by omega), Document.slot?_grow, h1, if_neg (by omega),
      if_pos hhi]
  · intro a ha
    cases ha

/-- At the end of a run from a message, what happened accounts for the document. -/
theorem account_of_runs (h : Rooted fallback m schema target root patches d) {ws : List Wave}
    {d' : Document} (hr : (Progress.enter ⟨d, patches⟩).Runs fallback ws (.finished d' none)) :
    Account fallback root (actionsOf ws) d' [] := by
  have hk := Account.kept fallback root
  have he : (Progress.enter ⟨d, patches⟩).Has (Account fallback root []) := hk.enter h.account
  exact hk.runs hr he

end Rooted

/-- A body starts with its message formatted as the root, unless this cannot be done directly
either. -/
theorem Progress.ofMessage_eq (m : Message) (schema : Schema) (policy : Option ErrorPolicy)
    (fallback : Bool) :
    (∃ root patches d, Rooted fallback m schema
        (if shouldCatch policy fallback then some 0 else none) root patches d ∧
      ofMessage m schema policy fallback = enter ⟨d, patches⟩) ∨
    ∃ d e, ofMessage m schema policy fallback = finished d (some e) ∧
      ∀ f, ∃ e', Direct.body f m schema = .error e' := by
  unfold ofMessage
  dsimp only
  have ht : ∀ t ∈ (if shouldCatch policy fallback then some 0 else none), t = 0 := by
    intro t ht
    split at ht
    · exact (Option.some.inj ht).symm
    · cases ht
  generalize (if shouldCatch policy fallback then some 0 else none) = target at ht ⊢
  rcases hf : (Document.grow {} 1).format (formatMessage m schema target fallback) with ⟨r, d⟩
  cases r with
  | ok a => exact .inl ⟨a.1, a.2, d.fill 0 a.1, ⟨ht, d, hf, rfl⟩, rfl⟩
  | error e =>
    exact .inr ⟨d, e, rfl, fun f => (Formatting.renders_message m schema).format_error hf⟩

end Patchwork
