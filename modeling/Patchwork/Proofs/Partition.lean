import Patchwork.Proofs.Chains
import Patchwork.Proofs.DocumentOrder

/-!
# Batches as a partition

Grouping is a partition of patches by relation and params that keeps their order. A wave asks once for
each batch of it, and its results are taken in when all of them are there.
-/

namespace Patchwork
open Proto

theorem eraseDups_concat [BEq α] [LawfulBEq α] (xs : List α) (x : α) :
    (xs ++ [x]).eraseDups = xs.eraseDups ++ if x ∈ xs then [] else [x] := by
  by_cases h : x ∈ xs <;> simp [List.eraseDups_append, List.eraseDups_cons, List.removeAll, h]

namespace Batch

/-- A batch with a patch, if it belongs there. -/
def put (p : Patch) (b : Batch) : Batch :=
  if p.field.key? = some b.key then { b with entries := b.entries ++ [p] } else b

@[simp] theorem key_put (p : Patch) (b : Batch) : (b.put p).key = b.key := by
  unfold put
  split <;> rfl

theorem put_of_ne {p : Patch} {b : Batch} (h : p.field.key? ≠ some b.key) : b.put p = b := if_neg h

theorem entries_put (p : Patch) (b : Batch) :
    (b.put p).entries = b.entries ++ [p].filter fun q => q.field.key? == some b.key := by
  by_cases h : p.field.key? = some b.key <;> simp [put, h]

theorem takes_eq_true_iff {b : Batch} {p : Patch} {r : Relation}
    (hr : p.field.info.relation = some r) :
    b.takes r p.field.info.params = true ↔ p.field.key? = some b.key := by
  rw [takes_iff, Selected.key?, hr, Option.map_some, Option.some.injEq, eq_comm]

/-- A patch goes into the batch of its key, or into a new one behind the others if there is none. -/
theorem insert_eq {p : Patch} {r : Relation} {bs : List Batch} (nodup : (bs.map key).Nodup)
    (hr : p.field.info.relation = some r) :
    insert p r bs = bs.map (put p) ++
      if p.field.key? ∈ bs.map (fun b => some b.key) then [] else [⟨r, p.field.info.params, [p]⟩] := by
  induction bs with
  | nil => rfl
  | cons b rest ih =>
    obtain ⟨new, nodup⟩ := List.nodup_cons.mp nodup
    unfold insert
    by_cases ht : p.field.key? = some b.key
    · -- the keys differ, so that the batches behind stay as they are
      have same : rest.map (put p) = rest := by
        refine (List.map_congr_left fun c hc => put_of_ne fun h => ?_).trans (List.map_id _)
        exact new (List.mem_map.mpr ⟨c, hc, Option.some.inj (h.symm.trans ht)⟩)
      simp [(takes_eq_true_iff hr).mpr ht, ht, put, same]
    · have other : b.takes r p.field.info.params ≠ true := fun h => ht ((takes_eq_true_iff hr).mp h)
      simp [other, ht, put, ih nodup]

/-- Batches have their entries in the order of the patches, and stand in the order of the patches that
come first in them. -/
structure Ordered (patches : List Patch) (bs : List Batch) : Prop where
  entries : ∀ b ∈ bs, b.entries = patches.filter fun p => p.field.key? == some b.key
  keys : bs.map (fun b => some b.key) = (patches.map (·.field.key?)).eraseDups

theorem Ordered.insert {patches : List Patch} {bs : List Batch} {p : Patch} {r : Relation}
    (h : Ordered patches bs) (nodup : (bs.map key).Nodup) (hr : p.field.info.relation = some r) :
    Ordered (patches ++ [p]) (insert p r bs) := by
  have known : p.field.key? ∈ bs.map (fun b => some b.key) ↔
      p.field.key? ∈ patches.map (·.field.key?) := by rw [h.keys, List.mem_eraseDups]
  have fresh : p.field.key? = some (Batch.mk r p.field.info.params [p]).key := by
    simp [Selected.key?, hr, key]
  rw [insert_eq nodup hr]
  constructor
  · intro c hc
    rw [List.filter_append]
    rcases List.mem_append.mp hc with hc | hc
    · obtain ⟨b, hb, rfl⟩ := List.mem_map.mp hc
      rw [entries_put, key_put, h.entries b hb]
    · by_cases hk : p.field.key? ∈ bs.map (fun b => some b.key)
      · simp [hk] at hc
      · rw [if_neg hk, List.mem_singleton] at hc
        have none : (patches.filter fun q => q.field.key? == some c.key) = [] := by
          rw [List.filter_eq_nil_iff]
          intro q hq same
          rw [hc, ← fresh, beq_iff_eq] at same
          exact hk (known.mpr (List.mem_map.mpr ⟨q, hq, same⟩))
        rw [none, hc]
        simp [fresh]
  · have keys : (fun b => some b.key) ∘ put p = fun b => some b.key := by
      funext b
      simp
    rw [List.map_append, List.map_append, List.map_map, keys, List.map_singleton, eraseDups_concat,
      ← h.keys]
    by_cases hk : p.field.key? ∈ patches.map (·.field.key?)
    · rw [if_pos hk, if_pos (known.mpr hk), List.map_nil]
    · rw [if_neg hk, if_neg fun h => hk (known.mp h), List.map_singleton, fresh]

theorem ordered_foldlM {done patches : List Patch} {bs bs' : List Batch} (h : Ordered done bs)
    (grouped : Grouped done bs) (hg : patches.foldlM add bs = .ok bs') : Ordered (done ++ patches) bs' := by
  induction patches generalizing done bs with
  | nil =>
    cases hg
    simpa using h
  | cons p rest ih =>
    rw [List.foldlM_cons, add] at hg
    cases hr : p.field.info.relation with
    | none =>
      rw [hr] at hg
      cases hg
    | some r =>
      rw [hr] at hg
      simpa using ih (h.insert grouped.nodup hr) (grouped.insert hr) hg

theorem ordered_of_group {patches : List Patch} {bs : List Batch} (h : group patches = .ok bs) :
    Ordered patches bs := by
  have start : Ordered [] [] := ⟨by simp, rfl⟩
  have none : Grouped [] [] := ⟨.refl _, by simp, by simp, by simp⟩
  simpa using ordered_foldlM start none h

namespace Grouped

variable {patches : List Patch} {bs : List Batch}

theorem eq_of_key (h : Grouped patches bs) {b c : Batch} (hb : b ∈ bs) (hc : c ∈ bs)
    (same : b.key = c.key) : b = c :=
  List.inj_on_of_nodup_map h.nodup hb hc same

theorem existsUnique (h : Grouped patches bs) {p : Patch} (hp : p ∈ patches) :
    ∃! b, b ∈ bs ∧ p ∈ b.entries := by
  obtain ⟨b, hb, hpb⟩ := h.mem_iff.mp hp
  refine ⟨b, ⟨hb, hpb⟩, ?_⟩
  rintro c ⟨hc, hpc⟩
  apply h.eq_of_key hc hb
  apply Option.some.inj
  rw [← h.entry c hc p hpc, h.entry b hb p hpb]

/-- Patches go together when their keys are the same. -/
theorem together_iff (h : Grouped patches bs) {p q : Patch} (hp : p ∈ patches) (hq : q ∈ patches) :
    (∃ b ∈ bs, p ∈ b.entries ∧ q ∈ b.entries) ↔ p.field.key? = q.field.key? := by
  constructor
  · rintro ⟨b, hb, hpb, hqb⟩
    rw [h.entry b hb p hpb, h.entry b hb q hqb]
  · intro key
    obtain ⟨b, hb, hpb⟩ := h.mem_iff.mp hp
    obtain ⟨c, hc, hqc⟩ := h.mem_iff.mp hq
    obtain rfl : b = c := by
      apply h.eq_of_key hb hc
      apply Option.some.inj
      rw [← h.entry b hb p hpb, key, h.entry c hc q hqc]
    exact ⟨b, hb, hpb, hqc⟩

end Grouped

/-- Batches are a partition of patches. -/
structure Partition (patches : List Patch) (bs : List Batch) : Prop extends Ordered patches bs where
  perm : (bs.flatMap (·.entries)).Perm patches
  /-- A patch is an entry of one batch only. -/
  unique : ∀ p ∈ patches, ∃! b, b ∈ bs ∧ p ∈ b.entries
  /-- Patches go together when they are of one relation and have the params of one selection, or none. -/
  together : ∀ p ∈ patches, ∀ q ∈ patches, (∃ b ∈ bs, p ∈ b.entries ∧ q ∈ b.entries) ↔
    p.field.info.relation = q.field.info.relation ∧
      p.field.info.params.map (·.selection) = q.field.info.params.map (·.selection)
  asks : ∀ b ∈ bs, ∀ p ∈ b.entries, p.field.info.relation = some b.relation ∧
    p.field.info.params.map (·.selection) = b.params.map (·.selection)

end Batch

/-- In a gateway the names of a relation tell which one it is. -/
theorem Gateway.IsSound.key?_eq_iff {g : Gateway} (h : g.IsSound) {s t : Selected} {q r : Relation}
    (hq : q ∈ g.relations) (hr : r ∈ g.relations) (hs : s.info.relation = some q)
    (ht : t.info.relation = some r) : s.key? = t.key? ↔ s.info.relation = t.info.relation ∧
      s.info.params.map (·.selection) = t.info.params.map (·.selection) := by
  rw [Selected.key?, Selected.key?, hs, ht]
  simp only [Option.map_some, Option.some.injEq, Prod.mk.injEq]
  constructor
  · rintro ⟨base, name, params⟩
    have first := h.relation?_eq_some.mpr ⟨hq, rfl, rfl⟩
    have second := h.relation?_eq_some.mpr ⟨hr, base.symm, name.symm⟩
    exact ⟨Option.some.inj (first.symm.trans second), params⟩
  · rintro ⟨rfl, params⟩
    exact ⟨rfl, rfl, params⟩

/-- Patches of relations of a gateway are partitioned. -/
theorem Gateway.IsSound.exists_partition {g : Gateway} (h : g.IsSound) {patches : List Patch}
    (known : ∀ p ∈ patches, ∃ r ∈ g.relations, p.field.info.relation = some r) :
    ∃ bs, Batch.group patches = .ok bs ∧ Batch.Partition patches bs := by
  have relations : ∀ p ∈ patches, p.field.info.relation.isSome := by
    intro p hp
    obtain ⟨r, _, hr⟩ := known p hp
    simp [hr]
  obtain ⟨bs, hg⟩ := Batch.group_isOk relations
  have grouped := Batch.grouped_of_group hg
  have same : ∀ p ∈ patches, ∀ q ∈ patches, p.field.key? = q.field.key? ↔
      p.field.info.relation = q.field.info.relation ∧
        p.field.info.params.map (·.selection) = q.field.info.params.map (·.selection) := by
    intro p hp q hq
    obtain ⟨r, hr, relation⟩ := known p hp
    obtain ⟨r', hr', relation'⟩ := known q hq
    exact h.key?_eq_iff hr hr' relation relation'
  refine ⟨bs, hg, Batch.ordered_of_group hg, grouped.perm, fun p hp => grouped.existsUnique hp, ?_, ?_⟩
  · intro p hp q hq
    rw [← same p hp q hq]
    exact grouped.together_iff hp hq
  · intro b hb p hp
    obtain ⟨q, hq, relation, params⟩ := grouped.head b hb
    have hpm := grouped.mem_iff.mpr ⟨b, hb, hp⟩
    have hqm := grouped.mem_iff.mpr ⟨b, hb, hq⟩
    rw [← relation, ← params, ← same p hpm q hqm]
    exact (grouped.together_iff hpm hqm).mp ⟨b, hb, hp, hq⟩

/-! ## One wave -/

/-- The events of asking the resolver of a batch once, the last first. The bases are those of the
entries, in their order. Nothing is asked of a server when a base cannot be converted. -/
inductive Batch.Invocation (b : Batch) : Journal → Prop
  | consulted {owner instant : Nat} {c : Consultation} (custom : b.relation.resolver = .custom c.resolver)
      (relation : c.relation = b.relation.name) (bases : c.bases = b.entries.map (·.base))
      (params : c.params = b.params.map (·.message)) :
      Invocation b [.consulted owner instant c,
        .resolved b.relation.method.fullName b.entries.length]
  | called {e : Exchange} {transport : Transport} {timeout : Option Nat}
      (backed : b.relation.resolver = .method transport timeout)
      (method : e.call.method = b.relation.method)
      (message : b.relation.request (b.entries.map (·.base)) (b.params.map (·.message)) =
        .ok e.call.message) :
      Invocation b [.called e, .resolved b.relation.method.fullName b.entries.length]
  | unsent {e : Failure} {transport : Transport} {timeout : Option Nat}
      (backed : b.relation.resolver = .method transport timeout)
      (message : b.relation.request (b.entries.map (·.base)) (b.params.map (·.message)) = .error e) :
      Invocation b [.resolved b.relation.method.fullName b.entries.length]

theorem Batch.invocation (b : Batch) (world : Downstream) (ctx : CallContext) (owner now : Nat)
    (before : Journal) : b.Invocation (b.resolve world ctx owner now before).events := by
  unfold resolve
  cases hr : b.relation.resolver with
  | custom name => exact .consulted hr rfl rfl rfl
  | method transport timeout =>
    dsimp only
    cases hm : b.relation.request b.bases (b.params.map (·.message)) with
    | error e => exact .unsent hr hm
    | ok message =>
      rcases ha : attempt (world.unary before.calls) owner now
        (b.call ctx now transport timeout message) with ⟨due, reply, e⟩
      have call := (attempted ha).call
      simp only [ha]
      refine .called hr ?_ ?_
      · rw [call]
        rfl
      · rw [call]
        exact hm

/-- What becomes of the batches of a wave: each is resolved once, and no result is there before the
wave has come to its end. -/
structure Wave.Resolves (bs : List Batch) (due : Option Nat) (rs : List Resolved) : Prop where
  once : List.Forall₂ (fun b r => b.Invocation r.events) bs rs
  waited : ∀ t, due = some t → ∀ r ∈ rs, ∃ t', r.instant = some t' ∧ t' ≤ t

theorem resolveWave_eq (world : Downstream) (ctx : CallContext) (owner now : Nat) (bs : List Batch)
    (journal : Journal) : ∃ due rs, Wave.Resolves bs due rs ∧
      resolveWave world ctx owner now bs journal =
        (due, bs.zip (rs.map (·.result)), (rs.map (·.events)).reverse.flatten ++ journal) := by
  induction bs generalizing journal with
  | nil => exact ⟨_, [], ⟨.nil, by simp⟩, rfl⟩
  | cons b rest ih =>
    have one := b.invocation world ctx owner now journal
    unfold resolveWave
    generalize b.resolve world ctx owner now journal = r at one ⊢
    obtain ⟨due, rs, resolves, hw⟩ := ih (r.events ++ journal)
    refine ⟨later r.instant due, r :: rs, ⟨.cons one resolves.once, ?_⟩, by simp [hw]⟩
    intro t ht x hx
    obtain ⟨t₁, t₂, first, others, le₁, le₂⟩ := later_eq_some ht
    rcases List.mem_cons.mp hx with rfl | hx
    · exact ⟨t₁, first, le₁⟩
    · obtain ⟨t', instant, le⟩ := resolves.waited t₂ others x hx
      exact ⟨t', instant, Nat.le_trans le le₂⟩

/-- Patches of a gateway's relations are grouped into batches that are a partition of them in their
order. A wave of batches asks the resolver of each once and takes in all results together, with
the document as it was. The patches of the first wave are in document order. -/
theorem batches_partition_patches_in_order (g : Gateway) (sound : g.IsSound) :
    (∀ patches : List Patch,
      (∀ p ∈ patches, ∃ r ∈ g.relations, p.field.info.relation = some r) →
      ∃ bs, Batch.group patches = .ok bs ∧ Batch.Partition patches bs) ∧
    (∀ (s : Setting) (owner now : Nat) (journal : Journal) (d : Document) (bs : List Batch),
      ∃ due rs, Wave.Resolves bs due rs ∧
        Stage.step s owner now journal (.stitching (.wave d bs)) =
          (.waits due (.stitching (.advance s.fallback d (bs.zip (rs.map (·.result))))),
            (rs.map (·.events)).reverse.flatten ++ journal)) ∧
    ∀ (m : Message) (schema : Schema) (policy : Option ErrorPolicy) (fallback : Bool) (d : Document)
      (bs : List Batch), m.IsExact → Progress.ofMessage m schema policy fallback = .wave d bs →
      ∃ placed : List (Position × Patch), Batch.group (placed.map (·.2)) = .ok bs ∧
        Covers ((Shape.message schema.name schema.fields).Leaves (.message m)) placed := by
  refine ⟨fun patches known => sound.exists_partition known, ?_, ?_⟩
  · intro s owner now journal d bs
    obtain ⟨due, rs, resolves, hw⟩ := resolveWave_eq s.world s.ctx owner now bs journal
    exact ⟨due, rs, resolves, by simp only [Stage.step, hw]⟩
  · exact fun m schema policy fallback d bs isExact h => Progress.exists_placed isExact h

namespace Sample

/-- The ancestors and the parents of two items. -/
def kin : List Patch :=
  (ancestrySchema.fields ++ ancestrySchema.fields).zipIdx.map fun (s, i) => ⟨familyItem, i + 1, none, s⟩

theorem familyItem_isExact : familyItem.IsExact := by
  refine Message.isExact_of_flat (fun e he => ?_) fun f hf s stored => ?_
  · rw [List.mem_singleton.mp he]
    exact ⟨_, rfl⟩
  · have known : familyItem.type.fields = [title] := rfl
    obtain rfl := List.mem_singleton.mp (known ▸ hf)
    cases stored
    rfl

theorem kin_known : ∀ p ∈ kin, ∃ r ∈ familyGateway.relations, p.field.info.relation = some r := by
  intro p hp
  obtain ⟨⟨s, i⟩, hs, rfl⟩ := List.mem_map.mp hp
  have there : s ∈ ancestrySchema.fields := by simpa using List.fst_mem_of_mem_zipIdx hs
  have relations : ∀ s ∈ ancestrySchema.fields, s.info.relation.isSome := by decide +kernel
  obtain ⟨r, hr⟩ := Option.isSome_iff_exists.mp (relations s there)
  have own : s ∈ s.relations := by
    obtain ⟨info, shape⟩ := s
    have hr : info.relation = some r := hr
    simp [Selected.relations, hr]
  exact ⟨r, mem_relations_of_compileMask compiles_ancestry (k := 0)
    (mem_relationsIn.mpr ⟨s, there, own⟩) hr, hr⟩

end Sample

/-- Two items have their ancestors in one batch and their parents in another one. The first wave of an
item has its ancestor and its parent. -/
theorem kin_is_batched_in_order :
    (∃ bs, Batch.group Sample.kin = .ok bs ∧ Batch.Partition Sample.kin bs ∧
      bs.map (·.entries.map (·.slot)) = [[1, 3], [2, 4]]) ∧
    ∃ d bs placed, Progress.ofMessage Sample.familyItem Sample.ancestrySchema none true = .wave d bs ∧
      Batch.group (placed.map (·.2)) = .ok bs ∧ placed.length = 2 ∧
      Covers ((Shape.message Sample.ancestrySchema.name Sample.ancestrySchema.fields).Leaves
        (.message Sample.familyItem)) placed := by
  have sound : Sample.familyGateway.IsSound :=
    (Builder.follows_of_performAll Sample.setsUpFamily).sound
  obtain ⟨partition, _, first⟩ := batches_partition_patches_in_order Sample.familyGateway sound
  constructor
  · obtain ⟨bs, grouped, parts⟩ := partition Sample.kin Sample.kin_known
    have slots : (Batch.group Sample.kin).toOption.map (·.map (·.entries.map (·.slot))) =
        some [[1, 3], [2, 4]] := by decide +kernel
    rw [grouped] at slots
    exact ⟨bs, grouped, parts, Option.some.inj slots⟩
  · have sizes : (Progress.ofMessage Sample.familyItem Sample.ancestrySchema none true).batches.map
        (·.entries.length) = [1, 1] := by decide +kernel
    cases hp : Progress.ofMessage Sample.familyItem Sample.ancestrySchema none true with
    | finished d failure =>
      rw [hp] at sizes
      cases sizes
    | wave d bs =>
      rw [hp] at sizes
      obtain ⟨placed, grouped, covers⟩ :=
        first _ _ _ _ d bs Sample.familyItem_isExact hp
      refine ⟨d, bs, placed, rfl, grouped, ?_, covers⟩
      have perm := (Batch.grouped_of_group grouped).perm.length_eq
      have sizes : bs.map (·.entries.length) = [1, 1] := sizes
      rw [List.length_map, List.length_flatMap, sizes] at perm
      exact perm.symm

end Patchwork
