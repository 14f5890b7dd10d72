import Patchwork.Proofs.Calls

/-!
# What a batch calls

Serving a batch calls the methods that its requests name and those of the relations that their masks
select, and no others. Only the former are looked at before a fetch, so that it is free of side
effects when the relations are.
-/

namespace Patchwork
open Proto

/-- Whether a method is that of a request of a batch, or that of a relation which a request
selects. -/
inductive Gateway.Reaches (g : Gateway) (v : Verb) (requests : List Request) : Method → Prop
  | entry {r : Request} {p : Prepared} (request : r ∈ requests) (prepared : IsPrepared g v r p) :
      Reaches g v requests p.entry.method
  | relation {r : Request} {p : Prepared} {relation : Relation} (request : r ∈ requests)
      (prepared : IsPrepared g v r p) (selected : p.Selects relation)
      (registered : relation ∈ g.relations) : Reaches g v requests relation.method

/-- Serving a batch calls only methods that its requests name or that their masks reach. -/
theorem Gateway.serve_calls {g : Gateway} {world : Downstream} {ctx : CallContext} {v : Verb}
    {m : Moment} {requests : List Request} {fresh : Journal} {e : Exchange}
    (journal : (g.serve world ctx v m requests).2.journal = fresh ++ m.journal)
    (called : .called e ∈ fresh) : g.Reaches v requests e.call.method := by
  obtain ⟨r, hr, p, prepared, asks⟩ := serve_asks journal called
  have hip := isPrepared prepared
  generalize e.call = call at asks
  cases asks with
  | own => exact .entry hr hip
  | relation batch resolver request =>
    have selected := batch.selects
    obtain ⟨k, s, hs, hrel⟩ := selected
    exact .relation hr hip batch.selects (mem_relations_of_compileMask hip.compiled hs hrel)

/-- A fetch calls methods without side effects, and those of the relations that its requests select,
whether these have side effects or not. -/
theorem fetch_calls_safe_methods_and_relations (g : Gateway) (world : Downstream) (ctx : CallContext)
    (m : Moment) (requests : List Request) (fresh : Journal) (e : Exchange)
    (journal : (g.serve world ctx .fetch m requests).2.journal = fresh ++ m.journal)
    (called : .called e ∈ fresh) :
    e.call.method.isSafe ∨ ∃ r ∈ requests, ∃ p, Gateway.IsPrepared g .fetch r p ∧
      ∃ relation ∈ g.relations, p.Selects relation ∧ e.call.method = relation.method := by
  have reached := Gateway.serve_calls journal called
  generalize e.call.method = method at reached
  cases reached with
  | entry request prepared => exact .inl (prepared.allows rfl)
  | relation request prepared selected registered =>
    exact .inr ⟨_, request, _, prepared, _, registered, selected, rfl⟩

namespace Sample

/-- A fetch of an item with its parent. -/
def withParent : List Request := [{ method := "Items.Get", mask }]

theorem withParent_calls : ∃ e, .called e ∈
    (gateway.serve (knotsAfter fun _ => 0) {} .fetch {} withParent).2.journal ∧
      e.call.method.isSafe = false := by
  obtain ⟨e, he, _, risky⟩ := Journal.exists_called
    (j := (gateway.serve (knotsAfter fun _ => 0) {} .fetch {} withParent).2.journal)
    (p := fun c => !c.method.isSafe) (by decide +kernel)
  exact ⟨e, he, by simpa using risky⟩

end Sample

/-- The call with side effects that a fetch of an item with its parent makes is that of a relation. -/
theorem fetch_of_item_calls_relation : ∃ relation ∈ Sample.gateway.relations,
    relation.method.isSafe = false ∧ ∃ e, .called e ∈
      (Sample.gateway.serve (Sample.knotsAfter fun _ => 0) {} .fetch {} Sample.withParent).2.journal ∧
        e.call.method = relation.method := by
  obtain ⟨e, he, hs⟩ := Sample.withParent_calls
  rcases fetch_calls_safe_methods_and_relations Sample.gateway (Sample.knotsAfter fun _ => 0) {} {}
      Sample.withParent _ e (List.append_nil _).symm he with h | ⟨_, _, _, _, relation, hr, _, hm⟩
  · rw [hs] at h
    cases h
  · exact ⟨relation, hr, hm ▸ hs, e, he, hm⟩

/-- A gateway that the builder accepts makes a call that may have side effects while it serves a
fetch. -/
theorem fetch_has_side_effects : Sample.assemble = .ok Sample.gateway ∧ ∃ e, .called e ∈
    (Sample.gateway.serve (Sample.knotsAfter fun _ => 0) {} .fetch {} Sample.withParent).2.journal ∧
      e.call.method.isSafe = false :=
  ⟨Sample.assembles, Sample.withParent_calls⟩

end Patchwork
