import Patchwork.Proofs.Mirrored

/-!
# Chains of one batch

A call says which operations led to it, as the first entry of its batch has them. The entries of a
relation with params are of one selection, and those of the first wave are reached through no other
relation, so that the operations are those of all entries. A relation without params may be reached
through different relations in a later wave, and then only the first entry's operations are told.
-/

namespace Patchwork
open Proto

/-! ## Selections of a level -/

mutual
theorem Shape.relations_subset_within : ∀ shape : Shape, shape.relations ⊆ shape.within
  | .scalar _ => List.nil_subset _
  | .message _ fields => relationsIn_subset_selectedIn fields

theorem relationsIn_subset_selectedIn : ∀ fields : List Selected,
    relationsIn fields ⊆ selectedIn fields
  | [] => List.nil_subset _
  | f :: rest => by
    intro s hs
    rcases List.mem_append.mp hs with hs | hs
    · exact List.mem_append_left _ (Selected.relations_subset_within f hs)
    · exact List.mem_append_right _ (relationsIn_subset_selectedIn rest hs)

theorem Selected.relations_subset_within : ∀ f : Selected, f.relations ⊆ f.within
  | .mk info shape => by
    intro s hs
    unfold Selected.relations at hs
    split at hs
    · rw [List.mem_singleton.mp hs]
      exact List.mem_cons_self ..
    · exact List.mem_cons_of_mem _ (Shape.relations_subset_within shape hs)
end

mutual
theorem Shape.within_subset : ∀ (shape : Shape) {s : Selected}, s ∈ shape.within →
    s.shape.within ⊆ shape.within
  | .scalar _, _, h => absurd h List.not_mem_nil
  | .message _ fields, _, h => within_subset_selectedIn fields h

/-- What lies inside a selection of a schema is selected in the schema, too. -/
theorem within_subset_selectedIn : ∀ (fields : List Selected) {s : Selected},
    s ∈ selectedIn fields → s.shape.within ⊆ selectedIn fields
  | [], _, h => absurd h List.not_mem_nil
  | f :: rest, s, h => by
    rcases List.mem_append.mp h with h | h
    · exact List.Subset.trans (Selected.within_subset f h) (List.subset_append_left ..)
    · exact List.Subset.trans (within_subset_selectedIn rest h) (List.subset_append_right ..)

theorem Selected.within_subset : ∀ (f : Selected) {s : Selected}, s ∈ f.within →
    s.shape.within ⊆ f.within
  | .mk info shape, s, h => by
    rcases List.mem_cons.mp h with rfl | h
    · exact List.subset_cons_self ..
    · exact List.Subset.trans (Shape.within_subset shape h) (List.subset_cons_self ..)
end

theorem level_subset_selectedIn (fields : List Selected) (k : Nat) :
    level fields k ⊆ selectedIn fields := by
  induction k with
  | zero => exact relationsIn_subset_selectedIn fields
  | succ k ih =>
    intro s hs
    obtain ⟨t, ht, hs⟩ := List.mem_flatMap.mp hs
    exact within_subset_selectedIn fields (ih ht) (t.shape.relations_subset_within hs)

/-- In a schema that mirrors a mask exactly the relations that declare params have some. -/
theorem MirrorsMask.declared {Known : MessageType → CatalogType → Prop} {place : Compile.Place}
    {c : CatalogType} {mask : List MaskField} {fields : List Selected}
    (h : MirrorsMask Known place c mask fields) :
    AllIn (fun i => i.params.isSome ↔ ∃ r, i.relation = some r ∧ r.params.isSome) fields := by
  induction h with
  | nil => trivial
  | scalar _ info _ _ rest => exact ⟨⟨by simpa only [info.relation] using info.declared, trivial⟩, rest⟩
  | message _ info _ _ _ _ inside rest =>
    exact ⟨⟨by simpa only [info.relation] using info.declared, inside⟩, rest⟩

/-! ## Entries of a batch -/

/-- A field whose values a batch of the `k`-th wave asks for. Its operations begin like all operations
of the request and end with the batch's method. Between them are those of the relations on the way. -/
structure Batch.AsksFor (b : Batch) (v : Verb) (r : Request) (k : Nat) (i : Selection) : Prop where
  relation : i.relation = some b.relation
  params : i.params = b.params
  operations : ∃ between : List String, between.length + 1 = k ∧
    i.operations = v.operation :: r.method :: (between ++ [b.relation.method.fullName])

namespace Prepared.HasBatch

variable {g : Gateway} {v : Verb} {r : Request} {p : Prepared} {k : Nat} {b : Batch}

theorem asksFor (h : p.HasBatch v.catchesByDefault k b) (hp : g.prepare v r = .ok p) {x : Patch}
    (hx : x ∈ b.entries) : b.AsksFor v r k x.field.info := by
  have compiled := (Gateway.isPrepared hp).compiled
  obtain ⟨n, patches, batches, rfl, grouped, hb, fields⟩ := h.grouped
  obtain ⟨relation, params⟩ := grouped.asks (keyed_of_compileMask compiled) fields hb hx
  have placed := placed_of_compileMask compiled
  obtain ⟨way, m, through, count⟩ :=
    placed.mem_level n (fields x (grouped.mem_iff.mpr ⟨b, hb, hx⟩))
  obtain ⟨_, operations, _⟩ := placed.at_end through
  refine ⟨relation, params, way.operations, by rw [count], ?_⟩
  rw [operations, Way.operations_append, Way.operations_cons, relation]
  rfl

/-- All entries of a relation with params are of one selection. -/
theorem field_eq (h : p.HasBatch v.catchesByDefault k b) (hp : g.prepare v r = .ok p)
    (declares : b.relation.params.isSome) {x y : Patch} (hx : x ∈ b.entries) (hy : y ∈ b.entries) :
    x.field = y.field := by
  have compiled := (Gateway.isPrepared hp).compiled
  obtain ⟨_, _, _, mirrors⟩ := mirrors_of_compileMask compiled
  obtain ⟨n, patches, batches, rfl, grouped, hb, fields⟩ := h.grouped
  have hxl := fields x (grouped.mem_iff.mpr ⟨b, hb, hx⟩)
  have hyl := fields y (grouped.mem_iff.mpr ⟨b, hb, hy⟩)
  have asked := h.asksFor hp hx
  have given := ((mirrors.declared.level n _ hxl).info).mpr ⟨b.relation, asked.relation, declares⟩
  obtain ⟨q, hq⟩ := Option.isSome_iff_exists.mp given
  have same : y.field.info.params = some q :=
    (h.asksFor hp hy).params.trans (asked.params.symm.trans hq)
  by_contra other
  exact (pairwise_apart_of_compileMask compiled).forall (level_subset_selectedIn _ n hxl)
    (level_subset_selectedIn _ n hyl) other q hq q same rfl

/-- The operations of a batch are those of its first entry. -/
theorem head_operations (h : p.HasBatch v.catchesByDefault k b) :
    ∃ x, b.entries.head? = some x ∧ b.operations = x.field.info.operations := by
  obtain ⟨n, patches, batches, rfl, grouped, hb, _⟩ := h.grouped
  obtain ⟨y, hy, _⟩ := grouped.head b hb
  obtain ⟨x, rest, entries⟩ := List.exists_cons_of_ne_nil (List.ne_nil_of_mem hy)
  rw [Batch.operations, entries]
  exact ⟨x, rfl, rfl⟩

/-- Entries of one selection have the same operations, and so have those of the first wave. -/
theorem operations_eq (h : p.HasBatch v.catchesByDefault k b) (hp : g.prepare v r = .ok p)
    (alike : b.relation.params.isSome ∨ k = 1) {x y : Patch} (hx : x ∈ b.entries)
    (hy : y ∈ b.entries) : x.field.info.operations = y.field.info.operations := by
  rcases alike with declares | rfl
  · rw [h.field_eq hp declares hx hy]
  · obtain ⟨between, length, operations⟩ := (h.asksFor hp hx).operations
    obtain ⟨between', length', operations'⟩ := (h.asksFor hp hy).operations
    have none := List.eq_nil_of_length_eq_zero (Nat.succ.inj length)
    have none' := List.eq_nil_of_length_eq_zero (Nat.succ.inj length')
    rw [operations, operations', none, none']

end Prepared.HasBatch

/-- All entries of a batch are of its relation and have its params. Their operations are as many as
the number of the wave tells, and they begin and end alike. The batch has the operations of its first
entry, and they are what its call says. Where the relation declares params the entries are of one
selection; there and in the first wave all entries have the operations that the call says. -/
theorem call_of_batch_tells_chain_of_params {g : Gateway} {v : Verb} {r : Request} {p : Prepared}
    {k : Nat} {b : Batch} (hp : g.prepare v r = .ok p) (h : p.HasBatch v.catchesByDefault k b) :
    (∀ x ∈ b.entries, b.AsksFor v r k x.field.info) ∧
    (∃ x, b.entries.head? = some x ∧ b.operations = x.field.info.operations) ∧
    (∀ (world : Downstream) (ctx : CallContext) (owner now : Nat) (before : Journal) (e : Exchange),
      .called e ∈ (b.resolve world ctx owner now before).events →
        e.call.metadata.values Metadata.operationsName =
          b.operations.filterMap Metadata.operationValue?) ∧
    (b.relation.params.isSome → ∀ x ∈ b.entries, ∀ y ∈ b.entries, x.field = y.field) ∧
    (b.relation.params.isSome ∨ k = 1 → ∀ x ∈ b.entries,
      x.field.info.operations = b.operations) := by
  obtain ⟨first, hfirst, operations⟩ := h.head_operations
  refine ⟨fun x hx => h.asksFor hp hx, ⟨first, hfirst, operations⟩, ?_,
    fun declares x hx y hy => h.field_eq hp declares hx hy, fun alike x hx => ?_⟩
  · intro world ctx owner now before e called
    obtain ⟨transport, timeout, message, _, _, call, _⟩ := Batch.called_resolve called
    rw [call]
    exact Metadata.values_withOperations ..
  · rw [operations]
    exact h.operations_eq hp alike hx (List.mem_of_head? hfirst)

/-! ## Waves that are answered -/

namespace Progress

/-- The batches that a body waits for. -/
def batches : Progress → List Batch
  | wave _ batches => batches
  | finished .. => []

/-- A body after some waves, each batch of which gets an answer. -/
def after (fallback : Bool) (answer : Batch → Resolution) : Nat → Progress → Progress
  | n + 1, wave d batches =>
    after fallback answer n (.advance fallback d (batches.map fun b => (b, answer b >>= b.check)))
  | _, p => p

theorem runs_after (fallback : Bool) (answer : Batch → Resolution) (n : Nat) (q : Progress) :
    ∃ ws, q.Runs fallback ws (after fallback answer n q) ∧
      ((after fallback answer n q).batches ≠ [] → ws.length = n) := by
  induction n generalizing q with
  | zero => exact ⟨[], .stop q, fun _ => rfl⟩
  | succ n ih =>
    cases q with
    | wave d bs =>
      obtain ⟨ws, runs, length⟩ :=
        ih (.advance fallback d (bs.map fun b => (b, answer b >>= b.check)))
      have asked : Wave.batches (bs.map fun b => (b, answer b)) = bs := by
        rw [Wave.batches, List.map_map]
        exact List.map_id bs
      have results : Wave.results (bs.map fun b => (b, answer b)) =
          bs.map fun b => (b, answer b >>= b.check) := by simp [Wave.results]
      exact ⟨_ :: ws, .wave asked (results ▸ runs), fun hb => congrArg (· + 1) (length hb)⟩
    | finished d failure => exact ⟨[], .stop _, fun hb => absurd rfl hb⟩

theorem exists_runs_of_after {fallback : Bool} {answer : Batch → Resolution} {b : Batch} (n : Nat)
    {q : Progress} (hb : b ∈ (after fallback answer n q).batches) :
    ∃ ws d bs, q.Runs fallback ws (.wave d bs) ∧ ws.length = n ∧ b ∈ bs := by
  obtain ⟨ws, runs, length⟩ := runs_after fallback answer n q
  cases hq : after fallback answer n q with
  | wave d bs =>
    rw [hq] at hb runs length
    exact ⟨ws, d, bs, runs, length (List.ne_nil_of_mem hb), hb⟩
  | finished d failure =>
    rw [hq] at hb
    cases hb

end Progress

/-- Waves that are answered in some way are waves of a request. -/
theorem Prepared.hasBatch_of_after {p : Prepared} {fallback : Bool} {m : Message}
    {answer : Batch → Resolution} (n : Nat) {b : Batch}
    (hb : b ∈ ((Progress.ofMessage m p.schema p.onError fallback).after fallback answer n).batches) :
    p.HasBatch fallback (n + 1) b := by
  obtain ⟨ws, d, bs, runs, length, hb⟩ := Progress.exists_runs_of_after n hb
  exact ⟨m, ws, d, bs, runs, hb, by rw [length]⟩

namespace Sample

/-- The parents of the parent of an item and of its ancestor. -/
def parents : Request where
  method := "Items.Get"
  mask := [.mk "parent" none [.mk "parent" none [] none] none,
           grandparent [.mk "parent" none [] none]]

def familyItem : Message := relative "knot"

/-- Each entry of a batch gets an item. -/
def knotsFor (b : Batch) : Resolution := .ok (b.entries.map fun _ => some (.message familyItem))

/-- What the request waits for after some waves. -/
def parentsAfter (p : Prepared) (n : Nat) : List Batch :=
  ((Progress.ofMessage familyItem p.schema p.onError Verb.fetch.catchesByDefault).after
    Verb.fetch.catchesByDefault knotsFor n).batches

/-- Each entry of a batch gets its own base. -/
def selvesFor (b : Batch) : Resolution := .ok (b.entries.map fun x => some (.message x.base))

/-- What the ancestors of two items wait for after some waves. -/
def lineagesAfter (p : Prepared) (n : Nat) : List Batch :=
  ((Progress.ofMessage (relativesOf ["knot", "hitch"]) p.schema p.onError
    Verb.fetch.catchesByDefault).after Verb.fetch.catchesByDefault selvesFor n).batches

def titleOf (m : Message) : Option String :=
  match m.get title with
  | .scalar (.string text) => some text
  | _ => none

theorem chainBy_printable : ∀ relation ∈ ["Items.Parents", "Items.Ancestors"],
    ∀ o ∈ chainBy relation, (Metadata.operationValue? o).isSome := by decide +kernel

/-- Whether a batch is for the ancestors, by way of a relation, of two items. -/
def isBy (relation : String) (b : Batch) : Bool :=
  b.relation.params.isSome && b.bases.map titleOf == [some "knot", some "hitch"] &&
    b.operations == chainBy relation

end Sample

/-- In the second wave there are two calls for ancestors, each with two items: for the ancestors of
parents and for those of ancestors. Each says where all its values come from. -/
theorem calls_for_ancestors_tell_their_chains : ∃ p,
    Sample.familyGateway.prepare .fetch Sample.lineages = .ok p ∧
    ∀ relation ∈ ["Items.Parents", "Items.Ancestors"], ∃ b,
      p.HasBatch Verb.fetch.catchesByDefault 2 b ∧
      b.bases.map Sample.titleOf = [some "knot", some "hitch"] ∧
      (∀ x ∈ b.entries, x.field.info.operations = Sample.chainBy relation) ∧
      ∀ (world : Downstream) (ctx : CallContext) (owner now : Nat) (before : Journal) (e : Exchange),
        .called e ∈ (b.resolve world ctx owner now before).events →
          e.call.metadata.values Metadata.operationsName =
            (Sample.chainBy relation).map Utf8.encode := by
  obtain ⟨p, prepared, found⟩ := Outcome.exists_of_any
    (x := Sample.familyGateway.prepare .fetch Sample.lineages)
    (P := fun p => ["Items.Parents", "Items.Ancestors"].all fun relation =>
      (Sample.lineagesAfter p 1).any (Sample.isBy relation)) (by decide +kernel)
  refine ⟨p, prepared, fun relation known => ?_⟩
  obtain ⟨b, hb, asked⟩ := List.any_eq_true.mp (List.all_eq_true.mp found relation known)
  simp only [Sample.isBy, Bool.and_eq_true, beq_iff_eq] at asked
  obtain ⟨⟨declares, titles⟩, operations⟩ := asked
  have batch := Prepared.hasBatch_of_after 1 hb
  obtain ⟨_, _, tells, _, alike⟩ := call_of_batch_tells_chain_of_params prepared batch
  refine ⟨b, batch, titles, fun x hx => (alike (.inl declares) x hx).trans operations, ?_⟩
  intro world ctx owner now before e called
  rw [tells world ctx owner now before e called, operations,
    Metadata.filterMap_operationValue? (Sample.chainBy_printable relation known)]

/-- The parent of the parent and that of the ancestor go into one batch, whose call tells the
operations of the first of them only. -/
theorem parents_of_two_ways_are_one_batch : ∃ p b,
    Sample.familyGateway.prepare .fetch Sample.parents = .ok p ∧
    p.HasBatch Verb.fetch.catchesByDefault 2 b ∧
    ∃ x ∈ b.entries, ∃ y ∈ b.entries, x.field.info.operations ≠ y.field.info.operations ∧
      b.operations.filterMap Metadata.operationValue? ≠
        y.field.info.operations.filterMap Metadata.operationValue? := by
  obtain ⟨p, prepared, found⟩ := Outcome.exists_of_any
    (x := Sample.familyGateway.prepare .fetch Sample.parents)
    (P := fun p => decide (∃ b ∈ Sample.parentsAfter p 1, ∃ x ∈ b.entries, ∃ y ∈ b.entries,
      x.field.info.operations ≠ y.field.info.operations ∧
      b.operations.filterMap Metadata.operationValue? ≠
        y.field.info.operations.filterMap Metadata.operationValue?)) (by decide +kernel)
  obtain ⟨b, hb, differ⟩ := of_decide_eq_true found
  exact ⟨p, b, prepared, Prepared.hasBatch_of_after 1 hb, differ⟩

end Patchwork
