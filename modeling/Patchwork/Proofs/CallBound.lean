import Patchwork.Proofs.Alone
import Patchwork.Proofs.Compiled

/-!
# Calls are bounded by the mask

However many objects there are, however deep their types refer to themselves and whatever the
resolvers reply, a body takes no more waves than relations lie one inside the other in its mask and
no more resolver calls than relations are selected.
-/

namespace Patchwork
open Proto

/-- Stitching of one body ends, with waves and calls bounded by the mask. The waves go level by level
through the relations of the schema, which has one field for each selection of the mask. The
schedule of the body takes as many calls as batches came up, and it waits forever only for a
reply that never comes. -/
theorem calls_bounded_by_mask (t : MessageType) (mask : List MaskField) (place : Compile.Place)
    (schema : Schema) (compiled : compileMask t mask place = .ok schema) (s : Setting) (now : Nat)
    (before : Journal) (m : Message) (policy : Option ErrorPolicy) :
    ((∃ u, u.name = t.name ∧ Selects place.relations (fun _ => True) u mask schema.fields) ∧
      relationCount schema.fields ≤ selections mask) ∧
    (∀ ws q, (Progress.ofMessage m schema policy s.fallback).Runs s.fallback ws q →
      (∀ k w, ws[k]? = some w → ∀ p ∈ w.entries, p.field ∈ level schema.fields k) ∧
      ws.length ≤ fieldsDepth schema.fields ∧ ws.flatten.length ≤ relationCount schema.fields ∧
      ((∃ d failure, q = .finished d failure) ∨ ws.length < fieldsDepth schema.fields)) ∧
    ∃ ws due q j, Alone s (some now) (.ofMessage m schema policy s.fallback) before ws due q j ∧
      (Progress.ofMessage m schema policy s.fallback).Runs s.fallback ws q ∧
      q.Ends due (runAll s now before [.stitching (.ofMessage m schema policy s.fallback)]).1
        (runAll s now before [.stitching (.ofMessage m schema policy s.fallback)]).2.processes ∧
      ∃ events,
        (runAll s now before [.stitching (.ofMessage m schema policy s.fallback)]).2.journal =
          events ++ before ∧
        events.countP Event.isResolved = ws.flatten.length ∧
        events.countP Event.isResolved ≤ relationCount schema.fields ∧
        events.countP Event.isQuestion ≤ relationCount schema.fields := by
  obtain ⟨he, hp⟩ := Progress.ofMessage_first m schema policy s.fallback
  obtain ⟨⟨u, _, hn, hu⟩, _⟩ := compileMask_spec (Closed.any place.relations) trivial compiled
  refine ⟨⟨⟨u, hn, hu⟩, hu.relationCount_le mask⟩, ?_, ?_⟩
  · intro ws q h
    obtain ⟨hd, hc⟩ := h.bounded he hp
    refine ⟨?_, hd, hc, h.ended he hp⟩
    intro k w hw p hm
    have hl := h.mem_level hp hw p hm
    rwa [Nat.zero_add] at hl
  · obtain ⟨ws, due, q, j, ha, hq, events, hj, hr, hc⟩ :=
      runAll_alone s now before (.ofMessage m schema policy s.fallback)
    have hb := (ha.runs.bounded he hp).2
    exact ⟨ws, due, q, j, ha, ha.runs, hq, events, hj, hr, by omega, by omega⟩

namespace Sample

/-- Two items with what they are part of and what that is part of. -/
def nestedItems : Progress :=
  .ofMessage (basesOf ["knot", "hitch"]) nestedSchema none mirror.fallback

theorem ofMessage_nested :
    .ofMessage (basesOf ["knot", "hitch"]) nestedSchema none mirror.fallback = nestedItems := rfl

theorem waves_nested : (mirror.waves 2 (some 0) nestedItems []).1.map
    (·.map (·.1.entries.length)) = [[2], [2]] := by decide +kernel

end Sample

/-- Two items that are part of themselves without end take two calls for the two relations selected,
each for both items. -/
theorem calls_bounded_for_items_of_themselves :
    compileMask (Sample.pool.message "Bases") Sample.nested Sample.place = .ok Sample.nestedSchema ∧
    ∃ ws due q j, Alone Sample.mirror (some 0) Sample.nestedItems [] ws due q j ∧
      ws.map (·.map (·.1.entries.length)) = [[2], [2]] ∧
      ∃ events, (runAll Sample.mirror 0 [] [.stitching Sample.nestedItems]).2.journal = events ++ [] ∧
        events.countP Event.isResolved = 2 ∧ events.countP Event.isQuestion ≤ 2 := by
  have bounded := calls_bounded_by_mask _ Sample.nested Sample.place Sample.nestedSchema
    Sample.compiles_nested Sample.mirror 0 [] (Sample.basesOf ["knot", "hitch"]) none
  rw [Sample.ofMessage_nested] at bounded
  obtain ⟨_, _, ws, due, q, j, alone, _, ends, events, journal, resolved, _, questions⟩ := bounded
  have waves := alone.waves_eq ends.isOver 2 (by decide +kernel)
  have sizes := Sample.waves_nested
  rw [waves] at sizes
  have two : relationCount Sample.nestedSchema.fields = 2 := by decide +kernel
  refine ⟨Sample.compiles_nested, ws, due, q, j, alone, sizes, events, journal, ?_, two ▸ questions⟩
  have each := congrArg (fun sizes => sizes.flatten.length) sizes
  rw [resolved]
  simpa [← List.map_flatten] using each

end Patchwork
