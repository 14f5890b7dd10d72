import Patchwork.Proofs.Batches
import Patchwork.Proofs.Formatted

/-!
# Runs through waves

A run takes a body from wave to wave by whatever the resolvers reply. The results of a wave are
taken in entry by entry; what one such step keeps, a run keeps.
-/

namespace Patchwork
open Proto

/-- The batches of a wave with the replies of their resolvers. -/
abbrev Wave := List (Batch × Resolution)

namespace Wave

def batches (w : Wave) : List Batch := w.map (·.1)

def entries (w : Wave) : List Patch := w.batches.flatMap (·.entries)

/-- What is taken in of the replies: a wrong number of values is a failure. -/
def results (w : Wave) : List (Batch × Resolution) := w.map fun (b, r) => (b, r >>= b.check)

end Wave

/-- A body goes through waves, each batch of a wave getting some reply. -/
inductive Progress.Runs (fallback : Bool) : Progress → List Wave → Progress → Prop
  | stop (p : Progress) : Runs fallback p [] p
  | wave {d : Document} {batches : List Batch} {w : Wave} {ws : List Wave} {q : Progress}
      (answered : w.batches = batches)
      (rest : Runs fallback (.advance fallback d w.results) ws q) :
      Runs fallback (.wave d batches) (w :: ws) q

theorem Progress.Runs.snoc {fallback : Bool} {p : Progress} {d : Document} {ws : List Wave} {w : Wave}
    (h : p.Runs fallback ws (.wave d w.batches)) :
    p.Runs fallback (ws ++ [w]) (.advance fallback d w.results) := by
  generalize hq : Progress.wave d w.batches = q at h
  induction h with
  | stop p =>
    subst hq
    exact .wave rfl (.stop _)
  | wave answered rest ih => exact .wave answered (ih hq)

/-- What happens to one entry that got a value or none, or to a batch that failed. -/
inductive Action where
  | value (p : Patch) (v : Option Value)
  | failure (b : Batch) (e : Failure)

namespace Action

def entries : Action → List Patch
  | value p _ => [p]
  | failure b _ => b.entries

end Action

/-- The error values of a failed batch and where they go. -/
def Batch.errors (b : Batch) (e : Failure) : List (Nat × Json) :=
  b.entries.filterMap fun p => p.target.map fun t =>
    (t, errorValue e p.field.info.path (some b.relation.method.pool))

def Action.errors : Action → List (Nat × Json)
  | value .. => []
  | failure b e => b.errors e

/-- What the reply to a batch leads to. -/
def Batch.actions (b : Batch) (r : Resolution) : List Action :=
  match r >>= b.check with
  | .ok values => (b.entries.zip values).map fun (p, v) => .value p v
  | .error e => [.failure b e]

def Wave.actions (w : Wave) : List Action := w.flatMap fun (b, r) => b.actions r

/-- All that happens in a run, in order. -/
def actionsOf (ws : List Wave) : List Action := ws.flatMap Wave.actions

theorem Batch.length_eq_of_check {b : Batch} {r : Resolution} {values : List (Option Value)}
    (h : (r >>= b.check) = .ok values) : r = .ok values ∧ values.length = b.entries.length := by
  cases r with
  | error e => cases h
  | ok vs =>
    have h : b.check vs = .ok values := h
    unfold Batch.check at h
    split at h
    · next hl =>
      cases h
      exact ⟨rfl, hl⟩
    · cases h

theorem Batch.entries_actions (b : Batch) (r : Resolution) :
    (b.actions r).flatMap Action.entries = b.entries := by
  unfold Batch.actions
  split
  · next values h =>
    have hl := (Batch.length_eq_of_check h).2
    rw [List.flatMap_map]
    have hz : (b.entries.zip values).flatMap (fun e => [e.1]) = (b.entries.zip values).map (·.1) := by
      induction b.entries.zip values with
      | nil => rfl
      | cons e rest ih => simp [ih]
    exact hz.trans (List.map_fst_zip (Nat.le_of_eq hl.symm))
  · simp [Action.entries]

theorem Wave.entries_actions (w : Wave) : w.actions.flatMap Action.entries = w.entries := by
  induction w with
  | nil => rfl
  | cons x rest ih =>
    obtain ⟨b, r⟩ := x
    simp only [Wave.actions, Wave.entries, Wave.batches, List.flatMap_cons, List.flatMap_append,
      List.map_cons, Batch.entries_actions]
    exact congrArg (b.entries ++ ·) ih

/-! ## Steps of stitching -/

/-- Writes error values one after the other. -/
def Document.failAll (d : Document) (errors : List (Nat × Json)) : Document :=
  errors.foldl (fun d entry => d.fail entry.1 entry.2) d

@[simp] theorem Document.size_failAll (d : Document) (errors : List (Nat × Json)) :
    (d.failAll errors).size = d.size := by
  induction errors generalizing d with
  | nil => rfl
  | cons e rest ih => exact (ih _).trans (Document.size_fail ..)

/-- The last error value that is written to a slot. -/
def lastError (errors : List (Nat × Json)) (n : Nat) : Option Json := errors.reverse.lookup n

theorem lastError_append (xs ys : List (Nat × Json)) (n : Nat) :
    lastError (xs ++ ys) n = (lastError ys n).or (lastError xs n) := by
  rw [lastError, List.reverse_append, List.lookup_append]
  rfl

theorem Document.slot?_failAll (d : Document) (errors : List (Nat × Json)) (n : Nat) :
    (d.failAll errors).slot? n =
      if n < d.size then (((lastError errors n).map .failed).or (d.slot? n)) else none := by
  induction errors generalizing d with
  | nil =>
    split
    · rfl
    · next h => exact d.slot?_of_le n (Nat.le_of_not_lt h)
  | cons e rest ih =>
    obtain ⟨t, j⟩ := e
    have hl : lastError ((t, j) :: rest) n = (lastError rest n).or (lastError [(t, j)] n) :=
      lastError_append [(t, j)] rest n
    rw [Document.failAll, List.foldl_cons]
    have hi := ih (d.fail t j)
    rw [Document.failAll] at hi
    rw [hi, Document.size_fail, Document.slot?_fail, hl]
    by_cases hn : n < d.size
    · rw [if_pos hn, if_pos hn]
      cases lastError rest n with
      | some j' => rfl
      | none =>
        by_cases ht : n = t
        · simp [ht, lastError, show t < d.size from ht ▸ hn]
        · have hb : (n == t) = false := beq_eq_false_iff_ne.mpr ht
          simp [ht, lastError, List.lookup_cons, hb]
    · rw [if_neg hn, if_neg hn]

namespace Stitching

/-- Takes in one action. -/
def act (fallback : Bool) : Action → Stitching Unit
  | .value p (some v) => place fallback p v
  | .value _ none => pure ()
  | .failure b e => embed b e

def actAll (fallback : Bool) : List Action → Stitching Unit
  | [] => pure ()
  | a :: rest => do
    act fallback a
    actAll fallback rest

theorem actAll_append (fallback : Bool) (xs ys : List Action) :
    actAll fallback (xs ++ ys) = actAll fallback xs >>= fun _ => actAll fallback ys := by
  induction xs with
  | nil => simp [actAll]
  | cons a rest ih => simp [actAll, ih]

theorem absorb_eq (fallback : Bool) (b : Batch) (r : Resolution) :
    absorb fallback b (r >>= b.check) = actAll fallback (b.actions r) := by
  unfold absorb Batch.actions
  cases r >>= b.check with
  | error e => simp [actAll, act]
  | ok values =>
    simp only [placeAll, List.forM_eq_forM]
    induction b.entries.zip values with
    | nil => rfl
    | cons x rest ih =>
      obtain ⟨p, v⟩ := x
      rw [List.forM_cons, List.map_cons, actAll, ih]
      cases v <;> rfl

/-- A wave is taken in action by action. -/
theorem absorbAll_eq (fallback : Bool) (w : Wave) :
    absorbAll fallback w.results = actAll fallback w.actions := by
  simp only [absorbAll, List.forM_eq_forM]
  induction w with
  | nil => rfl
  | cons x rest ih =>
    obtain ⟨b, r⟩ := x
    have hr : Wave.results ((b, r) :: rest) = (b, r >>= b.check) :: Wave.results rest := rfl
    have ha : Wave.actions ((b, r) :: rest) = b.actions r ++ Wave.actions rest := rfl
    rw [hr, ha, List.forM_cons, ih, absorb_eq, actAll_append]

end Stitching

/-- One action changes the document and uncovers patches. -/
inductive Step (fallback : Bool) (d : Document) : Action → Document → List Patch → Prop
  | absent (p : Patch) : Step fallback d (.value p none) d []
  | placed {p : Patch} {v : Value} {node : Node} {next : List Patch} {d' : Document}
      (formatted : d.format (formatRelationValue p.field v p.target fallback) =
        (.ok (node, next), d')) :
      Step fallback d (.value p (some v)) (d'.fill p.slot node) next
  | embedded {b : Batch} {e : Failure} (caught : ∀ p ∈ b.entries, p.target.isSome) :
      Step fallback d (.failure b e) (d.failAll (b.errors e)) []

namespace Stitching

theorem targets_eq_some {ps : List Patch} {targets : List Nat}
    (h : ps.mapM (·.target) = some targets) :
    (∀ p ∈ ps, p.target.isSome) ∧ ∀ (f : Patch → Json) (d : Document),
      (ps.zip targets).foldl (fun d entry => d.fail entry.2 (f entry.1)) d =
        d.failAll (ps.filterMap fun p => p.target.map fun t => (t, f p)) := by
  induction ps generalizing targets with
  | nil =>
    cases h
    exact ⟨by simp, fun _ _ => rfl⟩
  | cons p rest ih =>
    rw [List.mapM_cons] at h
    obtain ⟨t, ht, h⟩ := Option.bind_eq_some_iff.mp h
    obtain ⟨ts, hts, h⟩ := Option.bind_eq_some_iff.mp h
    cases h
    obtain ⟨hs, hf⟩ := ih hts
    constructor
    · intro q hq
      rcases List.mem_cons.mp hq with rfl | hq
      · rw [ht]
        rfl
      · exact hs q hq
    · intro f d
      have hp : (p :: rest).filterMap (fun p => p.target.map fun t => (t, f p)) =
          (t, f p) :: rest.filterMap fun p => p.target.map fun t => (t, f p) := by
        simp [ht]
      rw [hp, List.zip_cons_cons, List.foldl_cons, hf]
      rfl

theorem targets_eq_none {ps : List Patch} :
    ps.mapM (·.target) = none ↔ ∃ p ∈ ps, p.target = none := by
  induction ps with
  | nil => simp
  | cons p rest ih =>
    rw [List.mapM_cons]
    cases hp : p.target with
    | none => simp [hp]
    | some t =>
      have hc : (∃ q ∈ p :: rest, q.target = none) ↔ ∃ q ∈ rest, q.target = none := by simp [hp]
      rw [hc, ← ih]
      cases rest.mapM (·.target) <;> simp

theorem run_place (fallback : Bool) (p : Patch) (v : Value) (s : Stitched) :
    (place fallback p v).run s =
      match s.document.format (formatRelationValue p.field v p.target fallback) with
      | (.ok (node, next), d) => .ok () ⟨d.fill p.slot node, s.pending ++ next⟩
      | (.error e, d) => .error e { s with document := d } := rfl

theorem run_embed_none {b : Batch} (e : Failure) (s : Stitched)
    (h : b.entries.mapM (·.target) = none) : (embed b e).run s = .error e s := by
  unfold embed
  simp only [EStateM.run, h]

theorem run_embed_some {b : Batch} (e : Failure) (s : Stitched) {targets : List Nat}
    (h : b.entries.mapM (·.target) = some targets) :
    (embed b e).run s = .ok () { s with document := s.document.failAll (b.errors e) } := by
  have hf := (targets_eq_some h).2
    (fun p => errorValue e p.field.info.path (some b.relation.method.pool)) s.document
  unfold embed
  simp only [EStateM.run, h, hf]
  rfl

theorem act_ok {fallback : Bool} {a : Action} {s s' : Stitched}
    (h : (act fallback a).run s = .ok () s') :
    ∃ next, Step fallback s.document a s'.document next ∧ s'.pending = s.pending ++ next := by
  cases a with
  | value p v =>
    cases v with
    | none =>
      cases h
      exact ⟨[], .absent p, (List.append_nil _).symm⟩
    | some v =>
      rw [act, run_place] at h
      split at h
      · next node next d' hf =>
        cases h
        exact ⟨next, .placed hf, rfl⟩
      · cases h
  | failure b e =>
    rw [act] at h
    cases ht : b.entries.mapM (·.target) with
    | none =>
      rw [run_embed_none e s ht] at h
      cases h
    | some targets =>
      rw [run_embed_some e s ht] at h
      cases h
      exact ⟨[], .embedded (targets_eq_some ht).1, (List.append_nil _).symm⟩

end Stitching

/-! ## What a run keeps -/

/-- A property of what happened, the document and the patches left that each action keeps. -/
structure Kept (fallback : Bool) (I : List Action → Document → List Patch → Prop) : Prop where
  perm {log : List Action} {d : Document} {left left' : List Patch} :
    left.Perm left' → I log d left → I log d left'
  step {log : List Action} {d d' : Document} {a : Action} {left next : List Patch} :
    Step fallback d a d' next → I log d (a.entries ++ left) → I (log ++ [a]) d' (left ++ next)

/-- A property of documents with the patches left holds of a body, unless that has failed. -/
def Progress.Has (I : Document → List Patch → Prop) : Progress → Prop
  | .wave d batches => I d (batches.flatMap (·.entries))
  | .finished d none => I d []
  | .finished _ (some _) => True

namespace Kept

variable {fallback : Bool} {I : List Action → Document → List Patch → Prop}

theorem actAll (hI : Kept fallback I) {actions log : List Action} {s s' : Stitched}
    (h : (Stitching.actAll fallback actions).run s = .ok () s')
    (hs : I log s.document (actions.flatMap Action.entries ++ s.pending)) :
    I (log ++ actions) s'.document s'.pending := by
  induction actions generalizing log s with
  | nil =>
    cases h
    simpa using hs
  | cons a rest ih =>
    rw [Stitching.actAll, EStateM.run_bind] at h
    cases ha : (Stitching.act fallback a).run s with
    | error e s₁ => simp [ha] at h
    | ok u s₁ =>
      obtain ⟨next, hstep, hp⟩ := Stitching.act_ok ha
      simp only [ha] at h
      rw [List.flatMap_cons, List.append_assoc] at hs
      have hk := hI.step hstep hs
      rw [List.append_assoc, ← hp] at hk
      simpa using ih h hk

theorem enter (hI : Kept fallback I) {log : List Action} {s : Stitched}
    (h : I log s.document s.pending) : (Progress.enter s).Has (I log) := by
  unfold Progress.enter
  split
  · next hp =>
    rw [hp] at h
    exact h
  · split
    · next bs hg => exact hI.perm (Batch.grouped_of_group hg).perm.symm h
    · trivial

theorem advance (hI : Kept fallback I) {log : List Action} {d : Document} {w : Wave}
    (h : I log d w.entries) :
    (Progress.advance fallback d w.results).Has (I (log ++ w.actions)) := by
  unfold Progress.advance
  rw [Stitching.absorbAll_eq]
  split
  · next s hs =>
    exact hI.enter (hI.actAll hs (by simpa [Wave.entries_actions] using h))
  · trivial

/-- What each action keeps, a run keeps. -/
theorem runs (hI : Kept fallback I) {log : List Action} {p q : Progress} {ws : List Wave}
    (h : p.Runs fallback ws q) (hp : p.Has (I log)) : q.Has (I (log ++ actionsOf ws)) := by
  induction h generalizing log with
  | stop p => simpa [actionsOf] using hp
  | @wave d batches w ws q answered rest ih =>
    have hw := hI.advance (d := d) (w := w) (by rw [Wave.entries, answered]; exact hp)
    have hq := ih hw
    rwa [List.append_assoc] at hq

end Kept
end Patchwork
