import Patchwork.Proofs.Compiled
import Patchwork.Proofs.Interleaving
import Patchwork.Proofs.Raised

/-!
# The outcome of stitching

Whatever the resolvers reply, it is known how stitching ends: by which failure, if by one, and else
what each slot of the document holds.
-/

namespace Patchwork
open Proto

/-- The error values that the reply to a batch leads to, in the order of its entries. -/
def Batch.failures (b : Batch) (r : Resolution) : List (Nat × Json) :=
  match r >>= b.check with
  | .ok _ => []
  | .error e => b.errors e

/-- All of a run, in the order of its waves, their batches and the entries of these. -/
def failuresOf (ws : List Wave) : List (Nat × Json) :=
  ws.flatMap fun w => w.flatMap fun (b, r) => b.failures r

theorem Batch.failures_eq (b : Batch) (r : Resolution) :
    (b.actions r).flatMap Action.errors = b.failures r := by
  unfold Batch.actions Batch.failures
  cases r >>= b.check with
  | error e => simp [Action.errors]
  | ok values =>
    rw [List.flatMap_map]
    exact List.flatMap_eq_nil_iff.mpr fun _ _ => rfl

theorem errorsOf_actionsOf (ws : List Wave) : errorsOf (actionsOf ws) = failuresOf ws := by
  simp only [errorsOf, actionsOf, failuresOf, Wave.actions, List.flatMap_assoc, Batch.failures_eq]

theorem mem_actionsOf {ws : List Wave} {w : Wave} {b : Batch} {r : Resolution} {a : Action}
    (hw : w ∈ ws) (hb : (b, r) ∈ w) (ha : a ∈ b.actions r) : a ∈ actionsOf ws :=
  List.mem_flatMap.mpr ⟨w, hw, List.mem_flatMap.mpr ⟨(b, r), hb, ha⟩⟩

theorem Batch.mem_actions_value {b : Batch} {r : Resolution} {values : List (Option Value)} {i : Nat}
    {p : Patch} {v : Option Value} (h : (r >>= b.check) = .ok values)
    (hp : b.entries[i]? = some p) (hv : values[i]? = some v) : .value p v ∈ b.actions r := by
  unfold Batch.actions
  rw [h]
  exact List.mem_map.mpr
    ⟨(p, v), List.mem_of_getElem? (List.getElem?_zip_eq_some.mpr ⟨hp, hv⟩), rfl⟩

theorem Batch.mem_actions_failure {b : Batch} {r : Resolution} {e : Failure}
    (h : (r >>= b.check) = .error e) : .failure b e ∈ b.actions r := by
  unfold Batch.actions
  rw [h]
  exact List.mem_singleton_self _

/-- What the slot of the entry `i` of a batch holds that no error was written to: what formatting
gave for the entry's own value, its patches being those of the run, or nothing when it has none. -/
inductive Batch.Holds (fallback : Bool) (all : List Patch) (b : Batch) (r : Resolution) (i : Nat)
    (p : Patch) : Slot → Prop
  | value {values : List (Option Value)} {v : Value} {node : Node} {next : List Patch}
      {d d' : Document} (succeeded : (r >>= b.check) = .ok values)
      (given : values[i]? = some (some v))
      (formatted : d.format (formatRelationValue p.field v p.target fallback) =
        (.ok (node, next), d')) (known : next ⊆ all) : Holds fallback all b r i p (.filled node)
  | nothing (none : ∀ values v, (r >>= b.check) = .ok values → values[i]? ≠ some (some v)) :
      Holds fallback all b r i p .pending

/-- Each entry of each batch of a run is accounted for. -/
theorem Account.holds {fallback : Bool} {root : Node} {ws : List Wave} {d : Document}
    (h : Account fallback root (actionsOf ws) d []) {w : Wave} {b : Batch} {r : Resolution} {i : Nat}
    {p : Patch} (hw : w ∈ ws) (hb : (b, r) ∈ w) (hp : b.entries[i]? = some p)
    (he : d.error? p.slot = none) :
    ∃ s, b.Holds fallback (patchesOf (actionsOf ws) []) r i p s ∧ d.slot? p.slot = some s := by
  cases hr : r >>= b.check with
  | error e =>
    have hm := mem_actionsOf hw hb (Batch.mem_actions_failure hr)
    obtain ⟨s, hs, hd⟩ := h.done _ hm p (List.mem_of_getElem? hp)
    cases hs with
    | failed entry =>
      refine ⟨.pending, .nothing fun values v hv => ?_, hd he⟩
      rw [hr] at hv
      cases hv
  | ok values =>
    have hl := (Batch.length_eq_of_check hr).2
    have hi : i < values.length := hl ▸ (List.getElem?_eq_some_iff.mp hp).1
    have hv : values[i]? = some values[i] := List.getElem?_eq_getElem hi
    generalize values[i] = v at hv
    have hm := mem_actionsOf hw hb (Batch.mem_actions_value hr hp hv)
    obtain ⟨s, hs, hd⟩ := h.done _ hm p (List.mem_singleton_self _)
    cases hs with
    | absent =>
      refine ⟨.pending, .nothing fun values' v' hv' => ?_, hd he⟩
      rw [hr] at hv'
      cases hv'
      rw [hv]
      simp
    | placed formatted known => exact ⟨_, .value hr hv formatted known, hd he⟩

/-! ## How runs end -/

/-- The failure that waves end in, if they end in one: that of the first batch, of the first wave with
one, that failed while some entry had no place for the error. That wave is the last. -/
structure EndIn (ws : List Wave) (failure : Option Failure) : Prop where
  first : failure = ws.findSome? Wave.raises
  last : ∀ i w, ws[i]? = some w → w.raises.isSome → i + 1 = ws.length

/-- What waves leave of a document with the given root. A slot has failed exactly when an error was
written to it, and holds the last one. The root and the patches hold their own content in the other
slots, and there are no more slots. -/
structure Document.IsLeftBy (d : Document) (fallback : Bool) (root : Node) (ws : List Wave) :
    Prop where
  failed : ∀ n j, d.slot? n = some (.failed j) ↔ lastError (failuresOf ws) n = some j
  root : d.error? 0 = none → d.slot? 0 = some (.filled root)
  patches : ∀ w ∈ ws, ∀ b r, (b, r) ∈ w → ∀ i p, b.entries[i]? = some p → d.error? p.slot = none →
    ∃ s, b.Holds fallback (ws.flatMap Wave.entries) r i p s ∧ d.slot? p.slot = some s
  slots : (0 :: (ws.flatMap Wave.entries).map (·.slot)).Perm (List.range d.size)

namespace Rooted

variable {fallback : Bool} {m : Message} {schema : Schema} {target : Option Nat} {root : Node}
  {patches : List Patch} {d d' : Document} {ws : List Wave}

theorem endIn (rooted : Rooted fallback m schema target root patches d) {failure : Option Failure}
    (h : (Progress.enter ⟨d, patches⟩).Runs fallback ws (.finished d' failure))
    (accepted : ∀ w ∈ ws, w.Accepted) : EndIn ws failure := by
  have relations : ∀ p ∈ patches, p.field.info.relation.isSome := fun p hp =>
    isSome_of_mem_relationsIn _ (rooted.leaf p hp).selected
  obtain ⟨first, last⟩ := h.failure?_eq accepted (Progress.failure?_enter relations)
  exact ⟨first, last⟩

theorem isLeftBy (rooted : Rooted fallback m schema target root patches d)
    (h : (Progress.enter ⟨d, patches⟩).Runs fallback ws (.finished d' none)) :
    d'.IsLeftBy fallback root ws := by
  have account := rooted.account_of_runs h
  have all : patchesOf (actionsOf ws) [] = ws.flatMap Wave.entries := by
    simp only [patchesOf, actionsOf, List.flatMap_assoc, List.append_nil, Wave.entries_actions]
  refine ⟨fun n j => ?_, account.root, fun w hw b r hb i p hp he => ?_, all ▸ account.slots⟩
  · rw [← Document.error?_eq_some, account.error, errorsOf_actionsOf]
  · exact all ▸ account.holds hw hb hp he

end Rooted

/-! ## Stitching on its own -/

/-- Stitching returns the body that the waves come to, or waits forever with them. -/
theorem stitch_alone (s : Setting) (m : Moment) (d : Document) (patches : List Patch) :
    ∃ ws due q j, Alone s (some m.now) (.enter ⟨d, patches⟩) m.journal ws due q j ∧
      (due = none → (stitch s m d patches).1 = none) ∧
      (∀ t, due = some t → (stitch s m d patches).2.now = t ∧
        ∃ d' failure, q = .finished d' failure ∧ (stitch s m d patches).1 = some (d', failure)) ∧
      ∃ events, (stitch s m d patches).2.journal = events ++ m.journal ∧
        events.countP Event.isResolved = ws.flatten.length := by
  obtain ⟨ws, due, q, events, alone, ends, now, r, ending, journal⟩ :=
    runAll_alone_at s m.now m.journal (.enter ⟨d, patches⟩)
  obtain ⟨events', same, resolved, _⟩ := alone.events
  obtain rfl := List.append_cancel_right same
  unfold stitch
  generalize runAll s m.now m.journal [.stitching (.enter ⟨d, patches⟩)] = result
    at ends now journal ⊢
  obtain ⟨ending', run⟩ := result
  dsimp only at ends now journal ⊢
  refine ⟨ws, due, q, _, alone, ?_, ?_, events.map (Run.close r ending), ?_, ?_⟩
  · rintro rfl
    obtain rfl : ending' = .stuck := ends
    rfl
  · rintro t rfl
    cases q with
    | wave d' batches => exact ends.elim
    | finished d' failure =>
      cases failure with
      | none =>
        obtain ⟨rfl, done⟩ : ending' = .complete ∧ run.processes = [.done d'] := ends
        rw [done]
        exact ⟨now t rfl, d', none, rfl, rfl⟩
      | some e =>
        obtain rfl : ending' = .failed d' e := ends
        exact ⟨now t rfl, d', some e, rfl, rfl⟩
  · split <;> exact journal
  · rw [List.countP_map, Run.isResolved_close]
    exact resolved

/-- How stitching ends from what formatting a message left. It goes through waves with the replies of
the world, and each batch of a wave is resolved. It returns nothing only when some reply never comes.
Otherwise it returns how the waves end: with their failure, if they end in one, and else with the
document that they leave. -/
theorem stitch_outcome (s : Setting) (mo : Moment) (m : Message) (schema : Schema)
    (target : Option Nat) (root : Node) (patches : List Patch) (d : Document)
    (rooted : Rooted s.fallback m schema target root patches d) :
    ∃ ws due q j, Alone s (some mo.now) (.enter ⟨d, patches⟩) mo.journal ws due q j ∧
      (∃ events, (stitch s mo d patches).2.journal = events ++ mo.journal ∧
        events.countP Event.isResolved = ws.flatten.length) ∧
      (s.world.Answers → due.isSome) ∧
      (due = none → (stitch s mo d patches).1 = none) ∧
      ∀ t, due = some t → (stitch s mo d patches).2.now = t ∧
        ∃ d' failure, q = .finished d' failure ∧ (stitch s mo d patches).1 = some (d', failure) ∧
          ((∀ w ∈ ws, w.Accepted) → EndIn ws failure) ∧
          (failure = none → d'.IsLeftBy s.fallback root ws) := by
  obtain ⟨ws, due, q, j, alone, stuck, ends, events⟩ := stitch_alone s mo d patches
  refine ⟨ws, due, q, j, alone, events, fun answers => alone.comes answers rfl, stuck,
    fun t ht => ?_⟩
  obtain ⟨now, d', failure, rfl, returned⟩ := ends t ht
  refine ⟨now, d', failure, rfl, returned, rooted.endIn alone.runs, ?_⟩
  rintro rfl
  exact rooted.isLeftBy alone.runs

namespace Sample

/-- Those whom items belong to. -/
def owner : Relation :=
  { relation with
    name := "owner", resolver := .custom "owners"
    method := ⟨pool, "Items", { name := "Owners", input := "Bases", output := "Parents" }⟩ }

/-- The owners and the parents of items, and the owners of the parents. What fails of the last is for
the policy to say. -/
def owned (policy : ErrorPolicy) : List MaskField :=
  let title := .mk "title" none [] none
  [.mk "bases" none
    [title, .mk "owner" none [title] (some .embed),
     .mk "parent" none [title, .mk "owner" none [title] none] (some policy)] none]

def placeOfOwned : Compile.Place := ⟨[relation, owner], "Items.List", []⟩

def ownedSchema (policy : ErrorPolicy) : Schema :=
  (compileMask (pool.message "Bases") (owned policy) placeOfOwned).toOption.getD ⟨"", []⟩

/-- The failure of whoever is asked for owners. -/
def noOwner : Failure := .downstream ⟨.unavailable, "", []⟩

/-- A gateway that knows each object as its own parent but cannot tell any owners. -/
def ownerless : Setting where
  world := { mirror.world with
    consult := fun c =>
      if c.relation = "owner" then .error noOwner else mirror.world.consult c }
  ctx := {}
  fallback := false

/-- Two items as they were formatted. -/
def formattedItems (policy : ErrorPolicy) : Outcome (Node × List Patch) × Document :=
  (Document.grow {} 1).format
    (formatMessage (basesOf ["knot", "hitch"]) (ownedSchema policy) none false)

def itemsRoot (policy : ErrorPolicy) : Node × List Patch :=
  (formattedItems policy).1.toOption.getD (.value .null, [])

def itemsDocument (policy : ErrorPolicy) : Document :=
  (formattedItems policy).2.fill 0 (itemsRoot policy).1

theorem formatted_items (policy : ErrorPolicy) : (formattedItems policy).1 = .ok (itemsRoot policy) :=
  Outcome.eq_ok_getD (by cases policy <;> decide +kernel)

theorem rooted_items (policy : ErrorPolicy) :
    Rooted false (basesOf ["knot", "hitch"]) (ownedSchema policy) none (itemsRoot policy).1
      (itemsRoot policy).2 (itemsDocument policy) :=
  ⟨by simp, _, Prod.ext (formatted_items policy) rfl, rfl⟩

/-- The two items on their own. -/
def itemsBody (policy : ErrorPolicy) : Progress :=
  .ofMessage (basesOf ["knot", "hitch"]) (ownedSchema policy) none false

theorem enter_items (policy : ErrorPolicy) :
    .enter ⟨itemsDocument policy, (itemsRoot policy).2⟩ = itemsBody policy := by
  have formatted : (Document.grow {} 1).format
      (formatMessage (basesOf ["knot", "hitch"]) (ownedSchema policy) none false) =
        (.ok (itemsRoot policy), (formattedItems policy).2) :=
    Prod.ext (formatted_items policy) rfl
  simp only [itemsBody, Progress.ofMessage, shouldCatch, Bool.false_eq_true, if_false, formatted]
  rfl

/-- The waves that the two items go through. -/
def itemsWaves (policy : ErrorPolicy) : List Wave :=
  (ownerless.waves 2 (some 0) (itemsBody policy) []).1

/-- What stitching the two items returns. -/
def stitchedItems (policy : ErrorPolicy) : Option (Document × Option Failure) :=
  (stitch ownerless {} (itemsDocument policy) (itemsRoot policy).2).1

theorem itemsWaves_accepted (policy : ErrorPolicy) : ∀ w ∈ itemsWaves policy, w.Accepted := by
  cases policy <;> decide +kernel

/-- How the two items end on their own. -/
theorem itemsBody_ends (policy : ErrorPolicy) {ws : List Wave} {due : Option Nat} {q : Progress}
    {j : Journal} (alone : Alone ownerless (some 0) (itemsBody policy) [] ws due q j)
    (ended : Alone.Over due q) : itemsWaves policy = ws ∧ due = some 0 ∧
      q.failure? = if policy = .embed then none else some noOwner := by
  have waves := alone.waves_eq ended 2 (by cases policy <;> decide +kernel)
  have ends : (ownerless.waves 2 (some 0) (itemsBody policy) []).2.1 = some 0 ∧
      (ownerless.waves 2 (some 0) (itemsBody policy) []).2.2.1.failure? =
        if policy = .embed then none else some noOwner := by cases policy <;> decide +kernel
  rw [waves] at ends
  exact ⟨congrArg Prod.fst waves, ends⟩

end Sample

/-- The owners of two items and of their parents are not to be had. Where this is embedded, stitching
succeeds: the errors of the owners of the parents replace the parents, although these were filled
in. Where it is raised, stitching fails in its second wave. -/
theorem stitch_outcome_of_items :
    (∀ policy, Rooted false (Sample.basesOf ["knot", "hitch"]) (Sample.ownedSchema policy) none
      (Sample.itemsRoot policy).1 (Sample.itemsRoot policy).2 (Sample.itemsDocument policy)) ∧
    (∀ policy, (Sample.itemsWaves policy).map (·.map (·.1.entries.map (·.slot))) =
      [[[1, 3], [2, 4]], [[5, 6]]]) ∧
    (∃ d, Sample.stitchedItems .embed = some (d, none) ∧
      d.IsLeftBy false (Sample.itemsRoot .embed).1 (Sample.itemsWaves .embed) ∧
      (List.range d.size).filter d.isFailed = [1, 2, 3, 4]) ∧
    ∃ d, Sample.stitchedItems .raise = some (d, some Sample.noOwner) ∧
      EndIn (Sample.itemsWaves .raise) (some Sample.noOwner) := by
  have outcome : ∀ policy, ∃ d failure, Sample.stitchedItems policy = some (d, failure) ∧
      (failure = if policy = .embed then none else some Sample.noOwner) ∧
      EndIn (Sample.itemsWaves policy) failure ∧
      (failure = none → d.IsLeftBy false (Sample.itemsRoot policy).1 (Sample.itemsWaves policy)) := by
    intro policy
    obtain ⟨ws, due, q, j, alone, _, _, _, ends⟩ :=
      stitch_outcome Sample.ownerless {} _ _ _ _ _ _ (Sample.rooted_items policy)
    rw [Sample.enter_items] at alone
    have ended : Alone.Over due q := by
      cases due with
      | none => exact .inl rfl
      | some t =>
        obtain ⟨_, d, failure, rfl, _⟩ := ends t rfl
        exact .inr ⟨d, failure, rfl⟩
    obtain ⟨rfl, rfl, failed⟩ := Sample.itemsBody_ends policy alone ended
    obtain ⟨_, d, failure, rfl, returned, endIn, left⟩ := ends 0 rfl
    exact ⟨d, failure, returned, failed, endIn (Sample.itemsWaves_accepted policy), left⟩
  refine ⟨Sample.rooted_items, fun policy => by cases policy <;> decide +kernel, ?_, ?_⟩
  · obtain ⟨d, failure, returned, rfl, _, left⟩ := outcome .embed
    have failed : (Sample.stitchedItems .embed).any fun e =>
        (List.range e.1.size).filter e.1.isFailed == [1, 2, 3, 4] := by decide +kernel
    rw [returned] at failed
    exact ⟨d, returned, left rfl, beq_iff_eq.mp failed⟩
  · obtain ⟨d, failure, returned, rfl, endIn, _⟩ := outcome .raise
    exact ⟨d, returned, endIn⟩

end Patchwork
