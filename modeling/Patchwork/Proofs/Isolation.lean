import Patchwork.Proofs.Waves

/-!
# Isolation of caught failures

A batch whose failure is caught changes nothing but the slots that the error goes to: the rest of
the run is as if the resolver had given no values.
-/

namespace Patchwork
open Proto

/-- Two documents that differ in the slots of `T` at most. -/
structure Document.SameBut (T : List Nat) (d d' : Document) : Prop where
  size_eq : d.size = d'.size
  slot?_eq : ∀ n, n ∉ T → d.slot? n = d'.slot? n

namespace Document.SameBut

variable {T : List Nat} {d d' : Document}

theorem refl (T : List Nat) (d : Document) : d.SameBut T d := ⟨rfl, fun _ _ => rfl⟩

theorem fill (h : d.SameBut T d') (m : Nat) (c : Node) : (d.fill m c).SameBut T (d'.fill m c) where
  size_eq := by rw [size_fill, size_fill, h.size_eq]
  slot?_eq n hn := by
    have hf : d.isFailed n = d'.isFailed n := by rw [isFailed, isFailed, h.slot?_eq n hn]
    rw [slot?_fill, slot?_fill, h.slot?_eq n hn, h.size_eq, hf]

theorem grow (h : d.SameBut T d') (s : Nat) (hs : d.size ≤ s) : (d.grow s).SameBut T (d'.grow s) where
  size_eq := by rw [size_grow d s hs, size_grow d' s (h.size_eq ▸ hs)]
  slot?_eq n hn := by rw [slot?_grow, slot?_grow, h.slot?_eq n hn, h.size_eq]

theorem failAll (h : d.SameBut T d') (errors : List (Nat × Json)) :
    (d.failAll errors).SameBut T (d'.failAll errors) where
  size_eq := by rw [size_failAll, size_failAll, h.size_eq]
  slot?_eq n hn := by rw [slot?_failAll, slot?_failAll, h.slot?_eq n hn, h.size_eq]

/-- Errors that go to the slots of `T` make no difference elsewhere. -/
theorem failAll_left (h : d.SameBut T d') {errors : List (Nat × Json)} (he : ∀ x ∈ errors, x.1 ∈ T) :
    (d.failAll errors).SameBut T d' where
  size_eq := by rw [size_failAll, h.size_eq]
  slot?_eq n hn := by
    have hl : lastError errors n = none := by
      refine List.lookup_eq_none_iff.mpr fun x hx => ?_
      have hm := he x (List.mem_reverse.mp hx)
      have hne : n ≠ x.1 := fun hx => hn (hx ▸ hm)
      simpa using hne
    rw [slot?_failAll, hl, ← h.slot?_eq n hn]
    split
    · rfl
    · next hs => exact (slot?_of_le d n (Nat.le_of_not_lt hs)).symm

end Document.SameBut

/-- The slots of a step of formatting are added behind those that are there. -/
theorem Document.format_sameBut {T : List Nat} {d d' : Document} (h : d.SameBut T d')
    {s : Selected} {v : Value} {target : Option Nat} {fallback : Bool} {node : Node}
    {next : List Patch} {d₁ : Document}
    (hf : d.format (formatRelationValue s v target fallback) = (.ok (node, next), d₁)) :
    ∃ d₁', d'.format (formatRelationValue s v target fallback) = (.ok (node, next), d₁') ∧
      d₁.SameBut T d₁' := by
  have hc := Document.format_congr (formatRelationValue s v target fallback) h.size_eq
  rw [hf] at hc
  have hf' : d'.format (formatRelationValue s v target fallback) =
      (.ok (node, next), (d'.format (formatRelationValue s v target fallback)).2) :=
    Prod.ext hc.symm rfl
  refine ⟨_, hf', ?_⟩
  obtain ⟨rfl, _⟩ := Document.format_relationValue Direct.absent hf
  rw [(Document.format_relationValue Direct.absent hf').1, ← h.size_eq]
  exact h.grow _ (Nat.le_add_right ..)

structure Stitched.SameBut (T : List Nat) (s s' : Stitched) : Prop where
  document : s.document.SameBut T s'.document
  pending : s.pending = s'.pending

/-- Two steps of stitching that end alike, as far as anything outside of `T` goes. When they fail,
the bodies are dropped. -/
inductive Stitching.Alike (T : List Nat) :
    EStateM.Result Failure Stitched Unit → EStateM.Result Failure Stitched Unit → Prop
  | ok {s s' : Stitched} (same : s.SameBut T s') : Alike T (.ok () s) (.ok () s')
  | error (e : Failure) (s s' : Stitched) : Alike T (.error e s) (.error e s')

inductive Progress.Alike (T : List Nat) : Progress → Progress → Prop
  | wave {d d' : Document} (same : d.SameBut T d') (batches : List Batch) :
      Alike T (.wave d batches) (.wave d' batches)
  | finished {d d' : Document} (same : d.SameBut T d') : Alike T (.finished d none) (.finished d' none)
  | failed (d d' : Document) (e : Failure) : Alike T (.finished d (some e)) (.finished d' (some e))

namespace Stitching

variable {T : List Nat} {fallback : Bool}

theorem Alike.bind {x x' y y' : Stitching Unit} {s s' : Stitched} (h : Alike T (x.run s) (x'.run s'))
    (hy : ∀ t t', t.SameBut T t' → Alike T (y.run t) (y'.run t')) :
    Alike T ((x >>= fun _ => y).run s) ((x' >>= fun _ => y').run s') := by
  rw [EStateM.run_bind, EStateM.run_bind]
  cases hx : x.run s with
  | ok u t =>
    rw [hx] at h
    cases hx' : x'.run s' with
    | ok u' t' =>
      rw [hx'] at h
      cases h with
      | ok same => exact hy t t' same
    | error e t' =>
      rw [hx'] at h
      cases h
  | error e t =>
    rw [hx] at h
    cases hx' : x'.run s' with
    | ok u' t' =>
      rw [hx'] at h
      cases h
    | error e' t' =>
      rw [hx'] at h
      cases h
      exact .error e t t'

theorem alike_act (a : Action) {s s' : Stitched} (h : s.SameBut T s') :
    Alike T ((act fallback a).run s) ((act fallback a).run s') := by
  cases a with
  | value p v =>
    cases v with
    | none => exact .ok h
    | some v =>
      rw [act, run_place, run_place]
      rcases hf : s.document.format (formatRelationValue p.field v p.target fallback) with ⟨r, d⟩
      cases r with
      | ok a =>
        obtain ⟨d', hf', hd⟩ := Document.format_sameBut h.document hf
        rw [hf']
        exact .ok ⟨hd.fill p.slot a.1, congrArg (· ++ a.2) h.pending⟩
      | error e =>
        have hc := Document.format_congr (formatRelationValue p.field v p.target fallback)
          h.document.size_eq
        rw [hf] at hc
        have hf' : s'.document.format (formatRelationValue p.field v p.target fallback) =
            (.error e, (s'.document.format (formatRelationValue p.field v p.target fallback)).2) :=
          Prod.ext hc.symm rfl
        rw [hf']
        exact .error ..
  | failure b e =>
    rw [act]
    cases ht : b.entries.mapM (·.target) with
    | none =>
      rw [run_embed_none e s ht, run_embed_none e s' ht]
      exact .error ..
    | some targets =>
      rw [run_embed_some e s ht, run_embed_some e s' ht]
      exact .ok ⟨h.document.failAll (b.errors e), h.pending⟩

theorem alike_actAll (actions : List Action) {s s' : Stitched} (h : s.SameBut T s') :
    Alike T ((actAll fallback actions).run s) ((actAll fallback actions).run s') := by
  induction actions generalizing s s' with
  | nil => exact .ok h
  | cons a rest ih => exact (alike_act a h).bind fun t t' ht => ih ht

/-- A failure that is caught is like no values, outside of the slots that the errors go to. -/
theorem alike_failure {b : Batch} {e : Failure} (caught : ∀ p ∈ b.entries, p.target.isSome)
    {s s' : Stitched} (h : s.SameBut (b.entries.filterMap (·.target)) s') :
    Alike (b.entries.filterMap (·.target)) ((actAll fallback [.failure b e]).run s) (.ok () s') := by
  cases ht : b.entries.mapM (·.target) with
  | none =>
    obtain ⟨p, hp, hn⟩ := targets_eq_none.mp ht
    have hs := caught p hp
    rw [hn] at hs
    cases hs
  | some targets =>
    have hr : (actAll fallback [.failure b e]).run s =
        .ok () { s with document := s.document.failAll (b.errors e) } := by
      rw [actAll, EStateM.run_bind, act, run_embed_some e s ht]
      rfl
    rw [hr]
    refine .ok ⟨h.document.failAll_left fun x hx => ?_, h.pending⟩
    obtain ⟨p, hp, hx⟩ := List.mem_filterMap.mp hx
    obtain ⟨t, hpt, rfl⟩ := Option.map_eq_some_iff.mp hx
    exact List.mem_filterMap.mpr ⟨p, hp, hpt⟩

end Stitching

/-- The reply that gives no value to any entry. -/
def Batch.silent (b : Batch) : Resolution := .ok (b.entries.map fun _ => none)

theorem Stitching.run_silent (fallback : Bool) (b : Batch) (s : Stitched) :
    (actAll fallback (b.actions b.silent)).run s = .ok () s := by
  have hc : (b.silent >>= b.check) = .ok (b.entries.map fun _ => none) := by
    have hl : (b.entries.map fun _ => (none : Option Value)).length = b.entries.length :=
      List.length_map ..
    change b.check _ = _
    rw [Batch.check, if_pos hl]
  unfold Batch.actions
  rw [hc]
  dsimp only
  induction b.entries with
  | nil => rfl
  | cons p rest ih => exact ih

namespace Progress

variable {T : List Nat} {fallback : Bool}

theorem alike_enter {s s' : Stitched} (h : s.SameBut T s') : Alike T (enter s) (enter s') := by
  unfold enter
  rw [← h.pending]
  cases s.pending with
  | nil => exact .finished h.document
  | cons p rest =>
    dsimp only
    cases Batch.group (p :: rest) with
    | ok batches => exact .wave h.document batches
    | error e => exact .failed ..

theorem alike_advance {d d' : Document} {w w' : Wave}
    (h : Stitching.Alike T ((Stitching.actAll fallback w.actions).run ⟨d, []⟩)
      ((Stitching.actAll fallback w'.actions).run ⟨d', []⟩)) :
    Alike T (advance fallback d w.results) (advance fallback d' w'.results) := by
  unfold advance
  rw [Stitching.absorbAll_eq, Stitching.absorbAll_eq]
  generalize hx : (Stitching.actAll fallback w.actions).run ⟨d, []⟩ = x at h
  generalize hx' : (Stitching.actAll fallback w'.actions).run ⟨d', []⟩ = x' at h
  have hx : Stitching.actAll fallback w.actions ⟨d, []⟩ = x := hx
  have hx' : Stitching.actAll fallback w'.actions ⟨d', []⟩ = x' := hx'
  rw [hx, hx']
  cases h with
  | ok same => exact alike_enter same
  | error e s s' => exact .failed ..

/-- Bodies that are alike take the same waves and stay alike. -/
theorem Runs.alike {p p' q : Progress} {ws : List Wave} (h : p.Runs fallback ws q)
    (hp : p.Alike T p') : ∃ q', p'.Runs fallback ws q' ∧ q.Alike T q' := by
  induction h generalizing p' with
  | stop p => exact ⟨p', .stop p', hp⟩
  | @wave d batches w ws q answered rest ih =>
    cases hp with
    | @wave _ d' same =>
      have hs : Stitched.SameBut T ⟨d, []⟩ ⟨d', []⟩ := ⟨same, rfl⟩
      obtain ⟨q', hr, hq⟩ := ih (alike_advance (Stitching.alike_actAll w.actions hs))
      exact ⟨q', .wave answered hr, hq⟩

theorem runs_append {p q : Progress} {xs ys : List Wave} :
    p.Runs fallback (xs ++ ys) q ↔ ∃ r, p.Runs fallback xs r ∧ r.Runs fallback ys q := by
  constructor
  · intro h
    induction xs generalizing p with
    | nil => exact ⟨p, .stop p, h⟩
    | cons x xs ih =>
      cases h with
      | wave answered rest =>
        obtain ⟨r, hx, hy⟩ := ih rest
        exact ⟨r, .wave answered hx, hy⟩
  · rintro ⟨r, hx, hy⟩
    induction hx with
    | stop => exact hy
    | wave answered rest ih => exact .wave answered (ih hy)

/-- A run in which a batch fails and all of its errors are caught is the same run as with a reply
without values, outside of the slots that the errors go to. -/
theorem Runs.silence {p q : Progress} {before after : List Wave} {pre post : Wave} {b : Batch}
    {r : Resolution} {e : Failure}
    (h : p.Runs fallback (before ++ (pre ++ (b, r) :: post) :: after) q)
    (failed : (r >>= b.check) = .error e) (caught : ∀ p ∈ b.entries, p.target.isSome) :
    ∃ q', p.Runs fallback (before ++ (pre ++ (b, b.silent) :: post) :: after) q' ∧
      q.Alike (b.entries.filterMap (·.target)) q' := by
  obtain ⟨p₁, h₁, h₂⟩ := runs_append.mp h
  cases h₂ with
  | @wave d batches w ws q answered rest =>
    have hb : Wave.batches (pre ++ (b, b.silent) :: post) = batches := by
      rw [← answered]
      simp [Wave.batches]
    have ha : b.actions r = [.failure b e] := by
      unfold Batch.actions
      rw [failed]
    have hw : ∀ x : Batch × Resolution, Wave.actions (pre ++ x :: post) =
        Wave.actions pre ++ (x.1.actions x.2 ++ Wave.actions post) := by
      intro x
      simp [Wave.actions]
    have hs : Stitched.SameBut (b.entries.filterMap (·.target)) ⟨d, []⟩ ⟨d, []⟩ := ⟨.refl _ d, rfl⟩
    have hr : Stitching.Alike (b.entries.filterMap (·.target))
        ((Stitching.actAll fallback (Wave.actions (pre ++ (b, r) :: post))).run ⟨d, []⟩)
        ((Stitching.actAll fallback (Wave.actions (pre ++ (b, b.silent) :: post))).run ⟨d, []⟩) := by
      rw [hw, hw, ha]
      simp only [Stitching.actAll_append]
      refine (Stitching.alike_actAll pre.actions hs).bind fun s s' hs => ?_
      refine Stitching.Alike.bind ?_ fun s s' hs => Stitching.alike_actAll post.actions hs
      rw [Stitching.run_silent]
      exact Stitching.alike_failure caught hs
    obtain ⟨q', hq, hqq⟩ := rest.alike (alike_advance hr)
    exact ⟨q', runs_append.mpr ⟨_, h₁, .wave hb hq⟩, hqq⟩

end Progress
end Patchwork
