import Patchwork.Proofs.Isolation
import Patchwork.Proofs.Outcome
import Patchwork.Proofs.Plain
import Patchwork.Proofs.Validation

/-!
# Where failures surface

A failure goes to the nearest relation that catches it, from the one that failed outwards through
those it was found in, and to the root if none of them does but the request. Nothing else changes.
-/

namespace Patchwork
open Proto

/-- The slot of the first patch whose relation catches failures, else the root's if the request
catches them. -/
def nearestCatch (fallback : Bool) (policy : Option ErrorPolicy) : List Patch → Option Nat
  | [] => if shouldCatch policy fallback then some 0 else none
  | p :: outer =>
    if shouldCatch p.field.info.onError fallback then some p.slot
    else nearestCatch fallback policy outer

/-- A failure that does not stay with a patch goes where it would go from the patches around it. -/
theorem nearestCatch_of_ne {fallback : Bool} {policy : Option ErrorPolicy} {p : Patch}
    {outer : List Patch} {n : Nat} (h : nearestCatch fallback policy (p :: outer) = some n)
    (other : n ≠ p.slot) : nearestCatch fallback policy outer = some n := by
  unfold nearestCatch at h
  split at h
  · exact absurd (Option.some.inj h).symm other
  · exact h

/-- A patch of the wave `k` followed by those it was found in, from the inside out: each one was
uncovered by the value of the next one, back to a patch of the message itself. -/
inductive Chain (fallback : Bool) (first : List Patch) (ws : List Wave) : Nat → List Patch → Prop
  | first {p : Patch} (h : p ∈ first) : Chain fallback first ws 0 [p]
  | inner {k : Nat} {w : Wave} {p q : Patch} {outer : List Patch} {v : Value}
      (around : Chain fallback first ws k (p :: outer)) (wave : ws[k]? = some w)
      (given : .value p (some v) ∈ w.actions) (found : p.Uncovers fallback v q) :
      Chain fallback first ws (k + 1) (q :: p :: outer)

/-- A chain has one patch of each wave up to its own. -/
theorem Chain.length_eq {fallback : Bool} {first : List Patch} {ws : List Wave} {k : Nat}
    {chain : List Patch} (h : Chain fallback first ws k chain) : chain.length = k + 1 := by
  induction h with
  | first => rfl
  | inner _ _ _ _ ih => rw [List.length_cons, ih]

/-- Failures of a patch go to the nearest catch on its chain. -/
theorem Chain.target_eq {fallback : Bool} {policy : Option ErrorPolicy} {first : List Patch}
    {relations : List Selected} {ws : List Wave} {k : Nat} {p : Patch} {outer : List Patch}
    (h : Chain fallback first ws k (p :: outer))
    (hf : ∀ x ∈ first, x.Leaf fallback (nearestCatch fallback policy []) relations) :
    p.target = nearestCatch fallback policy (p :: outer) := by
  generalize hc : p :: outer = chain at h
  induction h generalizing p outer with
  | @first x hx =>
    cases hc
    exact (hf x hx).target_eq
  | inner around wave given found ih =>
    cases hc
    rw [found.leaf.target_eq, ih rfl]
    rfl

/-- Every patch of every wave has a chain, which is one longer from wave to wave. -/
theorem Progress.Runs.chain {fallback : Bool} {p q : Progress} {first : List Patch}
    {done ws : List Wave} (h : p.Runs fallback ws q)
    (hp : ∀ x ∈ p.patches, ∃ outer, Chain fallback first (done ++ ws) done.length (x :: outer)) :
    ∀ i w, ws[i]? = some w → ∀ x ∈ w.entries,
      ∃ outer, Chain fallback first (done ++ ws) (done.length + i) (x :: outer) := by
  induction h generalizing done with
  | stop p => simp
  | @wave d batches w ws q answered rest ih =>
    have h₀ : ∀ x ∈ w.entries,
        ∃ outer, Chain fallback first (done ++ w :: ws) done.length (x :: outer) := by
      rw [Wave.entries, answered]
      exact hp
    have hw : (done ++ w :: ws)[done.length]? = some w := by simp
    have hd : done ++ w :: ws = (done ++ [w]) ++ ws := by simp
    have hl : (done ++ [w]).length = done.length + 1 := by simp
    have h₁ : ∀ x ∈ (advance fallback d w.results).patches,
        ∃ outer, Chain fallback first ((done ++ [w]) ++ ws) (done ++ [w]).length (x :: outer) := by
      intro x hx
      obtain ⟨y, v, hm, hu⟩ := mem_patches_advance hx
      obtain ⟨outer, hy⟩ := h₀ y (Wave.mem_entries_of_value hm)
      rw [← hd, hl]
      exact ⟨y :: outer, .inner hy hw hm hu⟩
    intro i w' hi x hx
    cases i with
    | zero =>
      cases hi
      exact h₀ x hx
    | succ i =>
      have hn := ih h₁ i w' hi x hx
      rw [← hd, hl] at hn
      rwa [Nat.add_comm i 1, ← Nat.add_assoc]

/-! ## Failed batches -/

/-- Without places for its errors a failed batch would have ended the run. -/
theorem Kept.caught (fallback : Bool) : Kept fallback fun log _ _ =>
    ∀ b e, .failure b e ∈ log → ∀ p ∈ b.entries, p.target.isSome where
  perm _ h := h
  step := by
    intro log d d' a left next hs h b e hm
    rcases List.mem_append.mp hm with hm | hm
    · exact h b e hm
    · rw [← List.mem_singleton.mp hm] at hs
      cases hs with
      | embedded caught => exact caught

theorem failuresOf_split {before after : List Wave} {pre post : Wave} {b : Batch} {r : Resolution}
    {e : Failure} (h : (r >>= b.check) = .error e) :
    failuresOf (before ++ (pre ++ (b, r) :: post) :: after) =
      failuresOf (before ++ [pre]) ++ (b.errors e ++ failuresOf (post :: after)) := by
  have hb : b.failures r = b.errors e := by
    unfold Batch.failures
    rw [h]
  simp [failuresOf, hb]

/-- Errors are written, the last one to a slot staying there. -/
theorem lastError_of_mem {errors : List (Nat × Json)} (more : List (Nat × Json)) {x : Nat × Json}
    (h : x ∈ errors) :
    ∃ j, lastError (errors ++ more) x.1 = some j := by
  refine Option.isSome_iff_exists.mp (List.lookup_isSome_iff.mpr ⟨x, ?_, beq_self_eq_true _⟩)
  exact List.mem_reverse.mpr (List.mem_append_left _ h)

theorem Batch.mem_errors {b : Batch} {p : Patch} {t : Nat} (e : Failure) (hp : p ∈ b.entries)
    (ht : p.target = some t) :
    (t, errorValue e p.field.info.path (some b.relation.method.pool)) ∈ b.errors e :=
  List.mem_filterMap.mpr ⟨p, hp, by rw [ht, Option.map_some]⟩

namespace Progress

variable {m : Message} {schema : Schema} {policy : Option ErrorPolicy} {fallback : Bool}

theorem ofMessage_leaf : ∀ x ∈ (ofMessage m schema policy fallback).patches,
    x.Leaf fallback (nearestCatch fallback policy []) (relationsIn schema.fields) := by
  intro x hx
  rcases ofMessage_eq m schema policy fallback with ⟨root, ps, d, hr, he⟩ | ⟨d, e, he, _⟩
  · rw [he] at hx
    exact hr.leaf x (mem_patches_enter hx)
  · rw [he] at hx
    cases hx

/-- The errors of a run from a message are in the document at its end. -/
theorem Runs.error?_eq {ws : List Wave} {d : Document}
    (h : (ofMessage m schema policy fallback).Runs fallback ws (.finished d none)) (n : Nat) :
    d.error? n = lastError (failuresOf ws) n := by
  rcases ofMessage_eq m schema policy fallback with ⟨root, ps, d₀, hr, he⟩ | ⟨d₀, e₀, he, _⟩
  · rw [he] at h
    rw [← errorsOf_actionsOf]
    exact (hr.account_of_runs h).error n
  · rw [he] at h
    cases h

/-- A run that succeeds caught all its failures. -/
theorem Runs.caught {ws : List Wave} {d : Document}
    (h : (ofMessage m schema policy fallback).Runs fallback ws (.finished d none)) {b : Batch}
    {e : Failure} (hb : .failure b e ∈ actionsOf ws) : ∀ p ∈ b.entries, p.target.isSome := by
  have hs : (ofMessage m schema policy fallback).Has fun _ _ =>
      ∀ b e, Action.failure b e ∈ ([] : List Action) → ∀ p ∈ b.entries, p.target.isSome := by
    cases ofMessage m schema policy fallback with
    | wave d₀ batches => simp [Has]
    | finished d₀ failure => cases failure <;> simp [Has]
  exact (Kept.caught fallback).runs h hs b e hb

end Progress

/-- Failures surface at the nearest catch and nowhere else. The target of each patch is the nearest
catch on its chain, and each patch has one. When a batch fails, either some entry has no target and
the request fails, or each entry has one, the error value made of the failure and the entry's path
is written there, where only later errors replace it, and a reply without values gives the same
end and the same document outside of these targets. The program takes such a run, with the replies of
the world, and ends as it does, unless some reply never comes. It ends in the same way after the same
events without the policies of ordinary fields. -/
theorem failures_reach_nearest_catch (s : Setting) (now : Nat) (before : Journal) (m : Message)
    (schema : Schema) (policy : Option ErrorPolicy) :
    (∀ ws q, (Progress.ofMessage m schema policy s.fallback).Runs s.fallback ws q →
      ∀ k w, ws[k]? = some w → ∀ p ∈ w.entries,
        (∃ outer, Chain s.fallback (Progress.ofMessage m schema policy s.fallback).patches ws k
          (p :: outer)) ∧
        ∀ outer, Chain s.fallback (Progress.ofMessage m schema policy s.fallback).patches ws k
          (p :: outer) → p.target = nearestCatch s.fallback policy (p :: outer)) ∧
    (∀ earlier pre b r post later d failure e,
      (Progress.ofMessage m schema policy s.fallback).Runs s.fallback
        (earlier ++ (pre ++ (b, r) :: post) :: later) (.finished d failure) →
      (r >>= b.check) = .error e →
      ((∃ p ∈ b.entries, p.target = none) ∧ failure.isSome) ∨
      ((∀ p ∈ b.entries, ∃ t, p.target = some t ∧
          (t, errorValue e p.field.info.path (some b.relation.method.pool)) ∈ b.errors e ∧
          (failure = none → ∃ j, d.slot? t = some (.failed j) ∧
            lastError (b.errors e ++ failuresOf (post :: later)) t = some j)) ∧
        ∃ d', (Progress.ofMessage m schema policy s.fallback).Runs s.fallback
            (earlier ++ (pre ++ (b, b.silent) :: post) :: later) (.finished d' failure) ∧
          (failure = none → d'.size = d.size ∧
            ∀ n, (∀ p ∈ b.entries, p.target ≠ some n) → d'.slot? n = d.slot? n))) ∧
    (∃ ws due q j, Alone s (some now) (.ofMessage m schema policy s.fallback) before ws due q j ∧
      (Progress.ofMessage m schema policy s.fallback).Runs s.fallback ws q ∧
      (s.world.Answers → due.isSome) ∧
      q.Ends due (runAll s now before [.stitching (.ofMessage m schema policy s.fallback)]).1
        (runAll s now before [.stitching (.ofMessage m schema policy s.fallback)]).2.processes) ∧
    runAll s now before [.stitching (.ofMessage m schema.plain policy s.fallback)] =
      ((runAll s now before [.stitching (.ofMessage m schema policy s.fallback)]).1,
        (runAll s now before [.stitching (.ofMessage m schema policy s.fallback)]).2.plain) := by
  refine ⟨?_, ?_, ?_, ?_⟩
  · intro ws q h k w hw p hp
    have hf : ∀ x ∈ (Progress.ofMessage m schema policy s.fallback).patches, ∃ outer,
        Chain s.fallback (Progress.ofMessage m schema policy s.fallback).patches ([] ++ ws) 0
          (x :: outer) := fun x hx => ⟨[], .first hx⟩
    have hc := h.chain hf k w hw p hp
    rw [List.nil_append, List.length_nil, Nat.zero_add] at hc
    exact ⟨hc, fun outer hc => hc.target_eq Progress.ofMessage_leaf⟩
  · intro earlier pre b r post later d failure e h failed
    by_cases caught : ∀ p ∈ b.entries, p.target.isSome
    · refine .inr ⟨fun p hp => ?_, ?_⟩
      · obtain ⟨t, ht⟩ := Option.isSome_iff_exists.mp (caught p hp)
        have hm := Batch.mem_errors e hp ht
        refine ⟨t, ht, hm, ?_⟩
        rintro rfl
        obtain ⟨j, hj⟩ := lastError_of_mem (failuresOf (post :: later)) hm
        have he := h.error?_eq t
        rw [failuresOf_split failed, lastError_append, hj] at he
        exact ⟨j, Document.error?_eq_some.mp he, hj⟩
      · obtain ⟨q', hq, ha⟩ := h.silence failed caught
        cases ha with
        | @finished _ d' same =>
          refine ⟨d', hq, fun _ => ⟨same.size_eq.symm, fun n hn => (same.slot?_eq n ?_).symm⟩⟩
          intro hm
          obtain ⟨p, hp, ht⟩ := List.mem_filterMap.mp hm
          exact hn p hp ht
        | failed _ d' e' => exact ⟨d', hq, fun hf => by cases hf⟩
    · refine .inl ⟨by simpa using caught, ?_⟩
      cases failure with
      | some e' => rfl
      | none =>
        have hw : pre ++ (b, r) :: post ∈ earlier ++ (pre ++ (b, r) :: post) :: later := by simp
        have hb : (b, r) ∈ pre ++ (b, r) :: post := by simp
        exact absurd (h.caught (mem_actionsOf hw hb (Batch.mem_actions_failure failed))) caught
  · obtain ⟨ws, due, q, j, alone, ends, _⟩ :=
      runAll_alone s now before (.ofMessage m schema policy s.fallback)
    exact ⟨ws, due, q, j, alone, alone.runs, fun answers => alone.comes answers rfl, ends⟩
  · rw [Progress.ofMessage_plain]
    exact runAll_plain s now before [.stitching (.ofMessage m schema policy s.fallback)]

namespace Sample

/-- The second wave asks for the owners of the parents alone, whose failure goes to the parents or
nowhere. -/
theorem itemsWaves_eq (policy : ErrorPolicy) : ∃ w b r, itemsWaves policy = [w, [(b, r)]] ∧
    (r >>= b.check) = .error noOwner ∧
    b.entries.map (fun p => (p.slot, p.target)) =
      if policy = .embed then [(5, some 2), (6, some 4)] else [(5, none), (6, none)] := by
  have sizes : (itemsWaves policy).map (·.length) = [2, 1] := by cases policy <;> decide +kernel
  obtain ⟨w, _, hws, _, rest⟩ := List.map_eq_cons_iff.mp sizes
  obtain ⟨w', _, rfl, one, rest⟩ := List.map_eq_cons_iff.mp rest
  obtain rfl := List.map_eq_nil_iff.mp rest
  obtain ⟨⟨b, r⟩, rfl⟩ := List.length_eq_one_iff.mp one
  have known : (itemsWaves policy)[1]?.any fun w => w.all fun x =>
      (x.2 >>= x.1.check).failure? == some noOwner &&
        x.1.entries.map (fun p => (p.slot, p.target)) ==
          if policy = .embed then [(5, some 2), (6, some 4)] else [(5, none), (6, none)] := by
    cases policy <;> decide +kernel
  rw [hws] at known
  obtain ⟨failed, places⟩ : (r >>= b.check).failure? = some noOwner ∧ _ := by simpa using known
  exact ⟨w, b, r, hws, Outcome.failure?_eq_some.mp failed, places⟩

theorem ofMessage_items (policy : ErrorPolicy) : Progress.ofMessage (basesOf ["knot", "hitch"])
    (ownedSchema policy) none ownerless.fallback = itemsBody policy := rfl

end Sample

/-- The owners of the parents of two items are not to be had. Where a parent catches this, the errors
stand in place of the two parents, and had there been no values, only these two slots would differ.
Where no relation catches it, the body fails. -/
theorem owners_fail_in_place_of_parents :
    (∃ w b r d, Sample.itemsWaves .embed = [w, [(b, r)]] ∧
      (r >>= b.check) = .error Sample.noOwner ∧ b.entries.length = 2 ∧
      (∀ x ∈ b.entries, ∃ parent, Chain false (Sample.itemsBody .embed).patches
        (Sample.itemsWaves .embed) 1 [x, parent] ∧ x.target = some parent.slot ∧
        ∃ j, d.slot? parent.slot = some (.failed j)) ∧
      (runAll Sample.ownerless 0 [] [.stitching (Sample.itemsBody .embed)]).2.processes = [.done d] ∧
      ∃ d', (Sample.itemsBody .embed).Runs false [w, [(b, b.silent)]] (.finished d' none) ∧
        ∀ n, n ≠ 2 → n ≠ 4 → d'.slot? n = d.slot? n) ∧
    ∃ w b r d, Sample.itemsWaves .raise = [w, [(b, r)]] ∧
      (r >>= b.check) = .error Sample.noOwner ∧ (∃ x ∈ b.entries, x.target = none) ∧
      (runAll Sample.ownerless 0 [] [.stitching (Sample.itemsBody .raise)]).1 =
        .failed d Sample.noOwner := by
  have holds := fun policy => failures_reach_nearest_catch Sample.ownerless 0 []
    (Sample.basesOf ["knot", "hitch"]) (Sample.ownedSchema policy) none
  simp only [Sample.ofMessage_items] at holds
  constructor
  · obtain ⟨w, b, r, waves, failed, places⟩ := Sample.itemsWaves_eq .embed
    obtain ⟨chains, fails, ⟨ws, due, q, j, alone, runs, _, ends⟩, _⟩ := holds .embed
    obtain ⟨rfl, rfl, succeeds⟩ := Sample.itemsBody_ends .embed alone ends.isOver
    have place : ∀ x ∈ b.entries,
        x.slot = 5 ∧ x.target = some 2 ∨ x.slot = 6 ∧ x.target = some 4 := by
      intro x hx
      have there := List.mem_map_of_mem (f := fun p : Patch => (p.slot, p.target)) hx
      rw [places] at there
      simpa using there
    cases q with
    | wave d batches => exact ends.elim
    | finished d failure =>
      obtain rfl : failure = none := succeeds
      rw [waves] at runs ⊢
      rcases fails [w] [] b r [] [] d none Sample.noOwner runs failed with
        ⟨_, failure⟩ | ⟨written, d', silent, same⟩
      · cases failure
      refine ⟨w, b, r, d, rfl, failed, ?_, fun x hx => ?_, ends.2, d', silent, fun n two four => ?_⟩
      · exact (List.length_map _).symm.trans (congrArg List.length places)
      · have entry : x ∈ Wave.entries [(b, r)] := by simpa [Wave.entries, Wave.batches] using hx
        obtain ⟨⟨outer, chain⟩, nearest⟩ := chains _ _ runs 1 [(b, r)] rfl x entry
        obtain ⟨t, target, _, reached⟩ := written x hx
        obtain ⟨j, replaced, _⟩ := reached rfl
        have other : t ≠ x.slot := by
          rcases place x hx with ⟨own, there⟩ | ⟨own, there⟩ <;>
            simp [own, Option.some.inj (target.symm.trans there)]
        obtain ⟨parent, rfl⟩ := List.length_eq_one_iff.mp (Nat.succ.inj chain.length_eq)
        have caught := nearestCatch_of_ne ((nearest _ chain).symm.trans target) other
        -- the request does not catch, so that it is the parent
        obtain rfl : t = parent.slot := by
          by_contra outside
          cases nearestCatch_of_ne caught outside
        exact ⟨parent, chain, target, j, replaced⟩
      · refine (same rfl).2 n fun x hx => ?_
        rcases place x hx with ⟨_, there⟩ | ⟨_, there⟩ <;> simp [there, two.symm, four.symm]
  · obtain ⟨w, b, r, waves, failed, places⟩ := Sample.itemsWaves_eq .raise
    obtain ⟨_, fails, ⟨ws, due, q, j, alone, runs, _, ends⟩, _⟩ := holds .raise
    obtain ⟨rfl, rfl, raised⟩ := Sample.itemsBody_ends .raise alone ends.isOver
    cases q with
    | wave d batches => exact ends.elim
    | finished d failure =>
      obtain rfl : failure = some Sample.noOwner := raised
      rw [waves] at runs
      rcases fails [w] [] b r [] [] d _ Sample.noOwner runs failed with ⟨nowhere, _⟩ | ⟨written, _⟩
      · exact ⟨w, b, r, d, waves, failed, nowhere, ends⟩
      · obtain ⟨x, rest, entries, place, _⟩ := List.map_eq_cons_iff.mp places
        obtain ⟨t, target, _⟩ := written x (entries ▸ List.mem_cons_self ..)
        cases target.symm.trans (congrArg Prod.snd place)

end Patchwork
