import Patchwork.Proofs.Chains
import Patchwork.Proofs.Conforming
import Patchwork.Proofs.Soundness

/-!
# Bases and params

A relation is asked with one message that has what the client gave, the params, and what only the
gateway may give, the bases. Params with bases are refused, and asking sets the bases and nothing
else, so that what is asked for are the gateway's bases with the client's params.
-/

namespace Patchwork
open Proto

/-! ## Setting one field -/

namespace Proto

theorem lookup_putField (n k : Nat) (v : Value) (fields : List (Nat × Value)) :
    (putField n v fields).lookup k = if k = n then some v else fields.lookup k := by
  induction fields with
  | nil => exact Direct.lookup_cons_eq_ite k n v []
  | cons e rest ih =>
    obtain ⟨l, w⟩ := e
    unfold putField
    by_cases hl : n = l
    · subst hl
      rw [if_pos rfl, Direct.lookup_cons_eq_ite, Direct.lookup_cons_eq_ite]
      by_cases h : k = n <;> simp [h]
    · by_cases hlt : n < l
      · rw [if_neg hl, if_pos hlt, Direct.lookup_cons_eq_ite]
      · rw [if_neg hl, if_neg hlt, Direct.lookup_cons_eq_ite, Direct.lookup_cons_eq_ite, ih]
        by_cases h : k = l
        · subst h
          simp [Ne.symm hl]
        · simp [h]

namespace Message

/-- Two messages that differ in one field at most. -/
structure SameBut (f : Field) (m m' : Message) : Prop where
  type : m.type = m'.type
  unknown : m.unknown = m'.unknown
  stored : ∀ g : Field, g.number ≠ f.number → m.stored? g = m'.stored? g

namespace SameBut

variable {f g : Field} {m m' : Message}

theorem has (h : m.SameBut f m') (other : g.number ≠ f.number) : m.has g = m'.has g := by
  simp only [Message.has, h.stored g other]

theorem get (h : m.SameBut f m') (other : g.number ≠ f.number) : m.get g = m'.get g := by
  simp only [Message.get, h.stored g other, h.type]

theorem value? (h : m.SameBut f m') (other : g.number ≠ f.number) : m.value? g = m'.value? g := by
  simp only [Message.value?, h.has other, h.get other]

end SameBut

variable {f : Field} (m : Message) (v : Value)

theorem claim_eq (alone : f.oneof = none) : m.claim f = m := by
  obtain ⟨t, fields, unknown⟩ := m
  have all : fields.filter (fun _ => true) = fields := List.filter_eq_self.mpr fun _ _ => rfl
  simp [claim, rivals, alone]

theorem get_set : (m.set f v).get f = v := by
  simp [set, get, stored?, lookup_putField]

/-- A field that has no rivals is set, and nothing else. -/
theorem sameBut_set (alone : f.oneof = none) : (m.set f v).SameBut f m where
  type := rfl
  unknown := rfl
  stored g other := by
    simp [set, stored?, claim_eq m alone, lookup_putField, other]

end Message

/-! ## Messages of a type -/

theorem type_place {m m' : Message} {f : Field} {v : Value} (h : place m f v = .ok m') :
    m'.type = m.type := by
  unfold place at h
  split at h
  · split at h
    · cases h
    · cases h
      rfl
  · cases h
    rfl

theorem type_readMembers {t : MessageType} {skip : Option String} :
    ∀ {members : List (String × Json)} {m m' : Message},
      readMembers t skip members m = .ok m' → m'.type = m.type
  | [], m, m', h => by
    unfold readMembers at h
    cases h
    rfl
  | (name, j) :: rest, m, m', h => by
    unfold readMembers at h
    split at h
    · exact type_readMembers h
    · split at h
      · cases h
      · dsimp only at h
        split at h
        all_goals
          obtain ⟨v, _, h⟩ := Outcome.bind_eq_ok.mp h
          cases v with
          | none => exact type_readMembers h
          | some v =>
            obtain ⟨m₁, placed, h⟩ := Outcome.bind_eq_ok.mp h
            exact (type_readMembers h).trans (type_place placed)

theorem eq_of_orTooDeep {m m' : Message} (h : orTooDeep m = .ok m') : m' = m := by
  unfold orTooDeep at h
  split at h
  · cases h
    rfl
  · cases h

/-- What is read as a type is of the type. -/
theorem type_readMessage {t : MessageType} {j : Json} {m : Message} (h : readMessage t j = .ok m) :
    m.type = t := by
  unfold readMessage at h
  split at h
  case h_1 => exact type_readMembers h
  case h_3 =>
    obtain ⟨⟨url, payload, formed⟩, _, h⟩ := Outcome.bind_eq_ok.mp h
    dsimp only at h
    split at h
    all_goals
      obtain ⟨_, _, h⟩ := Outcome.bind_eq_ok.mp h
      cases h
      rfl
  case h_4 | h_5 | h_6 | h_7 =>
    obtain ⟨_, _, h⟩ := Outcome.bind_eq_ok.mp h
    cases h
    rfl
  case h_8 | h_9 | h_15 | h_16 =>
    obtain ⟨_, _, h⟩ := Outcome.bind_eq_ok.mp h
    rw [eq_of_orTooDeep h]
    rfl
  case h_17 => cases h
  all_goals
    cases h
    rfl

end Proto

/-! ## Questions and replies -/

theorem forall₂_exists_map {R : α → γ → Prop} {S : α → β → Prop} {f : β → γ} {xs : List α}
    {zs : List γ} (h : List.Forall₂ R xs zs) (each : ∀ x z, R x z → ∃ y, S x y ∧ f y = z) :
    ∃ ys, List.Forall₂ S xs ys ∧ ys.map f = zs := by
  induction h with
  | nil => exact ⟨[], .nil, rfl⟩
  | cons first rest ih =>
    obtain ⟨y, hy, rfl⟩ := each _ _ first
    obtain ⟨ys, hys, rfl⟩ := ih
    exact ⟨y :: ys, .cons hy hys, rfl⟩

/-- The message that a relation is asked with has the params, if there are any, and the bases. -/
structure Relation.AsksWith (r : Relation) (params : Option Message) (bases : List Message)
    (m : Message) : Prop where
  bases : m.get r.bases = .list (bases.map .message)
  others : m.SameBut r.bases (params.getD (.empty r.method.input))

namespace Relation

variable {r : Relation}

theorem request_eq_ok {bases : List Message} {params : Option Message} {m : Message} :
    r.request bases params = .ok m ↔
      ∃ converted, List.Forall₂ (fun b c => b.convert? r.basesType = some c) bases converted ∧
        m = (params.getD (.empty r.method.input)).set r.bases (.list (converted.map .message)) := by
  unfold request
  rw [Outcome.bind_eq_ok]
  constructor
  · rintro ⟨items, given, h⟩
    cases h
    have given := Outcome.mapM_eq_ok.mp given
    obtain ⟨converted, each, rfl⟩ := forall₂_exists_map (f := Value.message)
      (S := fun b c => b.convert? r.basesType = some c) given fun b v h => by
        cases hc : b.convert? r.basesType with
        | none =>
          rw [hc] at h
          cases h
        | some c =>
          rw [hc] at h
          cases h
          exact ⟨c, rfl, rfl⟩
    exact ⟨converted, each, rfl⟩
  · rintro ⟨converted, given, rfl⟩
    refine ⟨converted.map .message, Outcome.mapM_eq_ok.mpr ?_, rfl⟩
    refine List.forall₂_map_right_iff.mpr (given.imp fun b c h => ?_)
    rw [h]

theorem asksWith_of_request (alone : r.bases.oneof = none) {bases : List Message}
    {params : Option Message} {m : Message} (h : r.request bases params = .ok m) :
    ∃ converted, List.Forall₂ (fun b c => b.convert? r.basesType = some c) bases converted ∧
      r.AsksWith params converted m := by
  obtain ⟨converted, given, rfl⟩ := request_eq_ok.mp h
  exact ⟨converted, given, Message.get_set .., Message.sameBut_set _ _ alone⟩

/-- Bases of the right type are asked for as they are. -/
theorem eq_of_converted {t : MessageType} {bases converted : List Message}
    (typed : ∀ b ∈ bases, b.type = t)
    (h : List.Forall₂ (fun b c => b.convert? t = some c) bases converted) : bases = converted := by
  induction h with
  | nil => rfl
  | @cons b c _ _ first rest ih =>
    have same : b.convert? t = some b := by
      simp [Message.convert?, MessageType.same, typed b (List.mem_cons_self ..)]
    rw [same] at first
    rw [Option.some.inj first, ih fun x hx => typed x (List.mem_cons_of_mem _ hx)]

/-- The values in a reply are those of its results, one for each, in their order. -/
theorem valuesOf_eq_ok {reply : Message} {values : List (Option Value)} :
    r.valuesOf reply = .ok values ↔ ∃ results : List Message,
      reply.get r.values = .list (results.map .message) ∧ values = results.map (·.value? r.field) := by
  unfold valuesOf
  constructor
  · intro h
    split at h
    · next items list =>
      have given := (Outcome.mapM_eq_ok.mp h).flip
      obtain ⟨results, each, rfl⟩ := forall₂_exists_map (f := Value.message)
        (S := fun v m => v = m.value? r.field) given fun v item h => by
          cases item with
          | message m =>
            cases h
            exact ⟨m, rfl, rfl⟩
          | scalar s => cases h
          | list items => cases h
          | map entries => cases h
      refine ⟨results, list, ?_⟩
      have each := List.forall₂_map_right_iff.mpr each
      rwa [List.forall₂_eq_eq_eq] at each
    · cases h
  · rintro ⟨results, list, rfl⟩
    rw [list]
    refine Outcome.mapM_eq_ok.mpr ?_
    exact List.forall₂_map_left_iff.mpr (List.forall₂_map_right_iff.mpr (List.forall₂_same.mpr fun _ _ => rfl))

/-- Params are accepted as they are read, unless they have bases. -/
theorem readParams_eq_ok (params : r.params = none ∨ r.params = some r.method.input) {json : Json}
    {m : Message} : r.readParams json = .ok m ↔
      r.params.isSome ∧ readMessage r.method.input json = .ok m ∧ m.has r.bases = false := by
  unfold readParams
  rcases params with none | some
  · simp [none]
  · simp only [some, Option.isSome_some, true_and]
    cases readMessage r.method.input json with
    | error e => simp
    | ok m' =>
      by_cases given : m'.has r.bases
      · simp only [given, if_true, reduceCtorEq, Except.ok.injEq, false_iff, not_and]
        rintro rfl
        simp [given]
      · simp only [given, Bool.false_eq_true, if_false, Except.ok.injEq, iff_self_and]
        rintro rfl
        simpa using given

end Relation

/-- A list has items when its message has more than the default. -/
theorem Proto.Message.has_of_get {m : Message} {f : Field} {x : Value} {xs : List Value}
    (isList : f.isList) (h : m.get f = .list (x :: xs)) : m.has f = true := by
  obtain ⟨packed, arity⟩ : ∃ packed, f.arity = .list packed := by
    cases ha : f.arity with
    | list packed => exact ⟨packed, rfl⟩
    | single tracked => simp [Field.isList, ha] at isList
    | map key tracked => simp [Field.isList, ha] at isList
  unfold Message.get at h
  unfold Message.has
  cases hs : m.stored? f with
  | none => simp [hs, Field.default, arity] at h
  | some v =>
    rw [hs, Option.getD_some] at h
    simp [h, Field.counts]

/-- A method that serves as a relation takes params if it takes more than bases. -/
theorem Proto.Method.ServesAs.params_cases {m : Method} {name : String} {shape : RelationShape}
    (h : m.ServesAs name shape) : shape.params = none ∨ shape.params = some m.input := by
  rw [h.params]
  split
  · exact .inr rfl
  · exact .inl rfl

/-! ## Params of a request -/

namespace MirrorsMask

variable {Known : MessageType → CatalogType → Prop} {place : Compile.Place} {c : CatalogType}
  {mask : List MaskField} {fields : List Selected}

/-- Params are as the client gave them for the relation. -/
theorem read (h : MirrorsMask Known place c mask fields) :
    AllIn (fun i => ∀ x ∈ i.params, ∃ r json, i.relation = some r ∧ r.readParams json = .ok x.message)
      fields := by
  have one : ∀ {place : Compile.Place} {m : MaskField} {f : CatalogField} {i : Selection},
      i.Mirrors place m f →
        ∀ x ∈ i.params, ∃ r json, i.relation = some r ∧ r.readParams json = .ok x.message := by
    intro place m f i info x hx
    obtain ⟨r, json, relation, _, read⟩ := info.given x hx
    exact ⟨r, json, info.relation.trans relation, read⟩
  induction h with
  | nil => trivial
  | scalar _ info _ _ rest => exact ⟨⟨one info, trivial⟩, rest⟩
  | message _ info _ _ _ _ inside rest => exact ⟨⟨one info, inside⟩, rest⟩

end MirrorsMask

namespace Prepared.HasBatch

variable {g : Gateway} {v : Verb} {r : Request} {p : Prepared} {k : Nat} {b : Batch}

/-- A batch has a field that is selected for it. -/
theorem exists_field (h : p.HasBatch v.catchesByDefault k b) :
    ∃ n, ∃ s ∈ level p.schema.fields n, s.info.relation = some b.relation ∧ s.info.params = b.params := by
  obtain ⟨n, patches, batches, _, grouped, hb, fields⟩ := h.grouped
  obtain ⟨x, hx, relation, params⟩ := grouped.head b hb
  exact ⟨n, x.field, fields x (grouped.mem_iff.mpr ⟨b, hb, hx⟩), relation, params⟩

/-- The params of a batch were read for its relation, which has some if it declares them. -/
theorem params_read (h : p.HasBatch v.catchesByDefault k b) (hp : g.prepare v r = .ok p) :
    (b.params.isSome ↔ b.relation.params.isSome) ∧
      ∀ x ∈ b.params, ∃ json, b.relation.readParams json = .ok x.message := by
  obtain ⟨_, _, _, mirrors⟩ := mirrors_of_compileMask (Gateway.isPrepared hp).compiled
  obtain ⟨n, s, hs, relation, params⟩ := h.exists_field
  have declared := (mirrors.declared.level n s hs).info
  have read := (mirrors.read.level n s hs).info
  rw [relation, params] at declared
  refine ⟨by simpa using declared, fun x hx => ?_⟩
  obtain ⟨r, json, same, read⟩ := read x (params ▸ hx)
  obtain rfl := Option.some.inj (relation.symm.trans same)
  exact ⟨json, read⟩

/-- Wherever the params of one selection come to be used, they are the same. -/
theorem params_eq (h : p.HasBatch v.catchesByDefault k b) (hp : g.prepare v r = .ok p) {k' : Nat}
    {b' : Batch} (h' : p.HasBatch v.catchesByDefault k' b') {x y : Params} (hx : x ∈ b.params)
    (hy : y ∈ b'.params) (same : x.selection = y.selection) : x = y ∧ b.relation = b'.relation := by
  have apart := pairwise_apart_of_compileMask (Gateway.isPrepared hp).compiled
  obtain ⟨n, s, hs, relation, params⟩ := h.exists_field
  obtain ⟨n', t, ht, relation', params'⟩ := h'.exists_field
  have one : s = t := by
    by_contra other
    exact apart.forall (level_subset_selectedIn _ n hs) (level_subset_selectedIn _ n' ht) other x
      (params ▸ hx) y (params' ▸ hy) same
  subst one
  constructor
  · have hx : b.params = some x := hx
    have hy : b'.params = some y := hy
    exact Option.some.inj (hx.symm.trans ((params.symm.trans params').trans hy))
  · exact Option.some.inj (relation.symm.trans relation')

end Prepared.HasBatch

/-! ## What is asked -/

theorem Proto.Message.value?_eq_none {m : Message} {f : Field} :
    m.value? f = none ↔ f.isList = false ∧ f.isMap = false ∧ m.has f = false := by
  rw [← Option.not_isSome_iff_eq_none, isSome_value?]
  simp

/-- A batch whose bases are of the relation's base type is asked for with its params and these bases.
Its values are those of the reply. -/
theorem Batch.asks_with {b : Batch} {transport : Transport} {timeout : Option Nat}
    (backed : b.relation.resolver = .method transport timeout) (shaped : b.relation.IsShaped)
    (alone : b.relation.bases.oneof = none)
    (typed : ∀ x ∈ b.entries, x.base.type = b.relation.base) (world : Downstream) (ctx : CallContext)
    (owner now : Nat) (before : Journal) :
    ∃ e, (b.resolve world ctx owner now before).events =
        [.called e, .resolved b.relation.method.fullName b.entries.length] ∧
      e.call.method = b.relation.method ∧
      b.relation.AsksWith (b.params.map (·.message)) (b.entries.map (·.base)) e.call.message ∧
      ∀ values, (b.resolve world ctx owner now before).result = .ok values →
        ∃ reply, (world.unary before.calls e.call).value = .ok reply ∧
          b.relation.valuesOf reply = .ok values ∧ values.length = b.entries.length := by
  have typed : ∀ m ∈ b.bases, m.type = b.relation.base := by
    intro m hm
    obtain ⟨x, hx, rfl⟩ := List.mem_map.mp hm
    exact typed x hx
  obtain ⟨message, hm⟩ := shaped.request_isOk typed (b.params.map (·.message))
  obtain ⟨converted, same, asks⟩ := Relation.asksWith_of_request alone hm
  rw [shaped.basesType_eq] at same
  obtain rfl := Relation.eq_of_converted typed same
  unfold resolve
  simp only [backed, hm]
  rcases ha : attempt (world.unary before.calls) owner now
    (b.call ctx now transport timeout message) with ⟨due, reply, e⟩
  have attempted := attempted ha
  refine ⟨e, rfl, by rw [attempted.call]; rfl, by rw [attempted.call]; exact asks, ?_⟩
  intro values h
  cases reply with
  | error status => cases h
  | ok m =>
    obtain ⟨given, count⟩ := length_eq_of_check h
    exact ⟨m, by rw [attempted.call]; exact attempted.said m rfl, given, count⟩

/-- Params that hold bases are refused, others are accepted as they are read. A call for a batch asks
with the params and sets the bases to those of the entries, in their order, and no other field. The
values are what the results of the reply have in the relation's field, one for each in their order,
and none where the field is single and unset. In all waves of a request the params of one selection
are the same, those that were read of what the client gave. Lists stand in no oneof, so that bases have
no rivals. -/
theorem calls_add_bases_to_params (g : Gateway) (sound : g.IsSound)
    (lists : ∀ r ∈ g.relations, r.bases.oneof = none) :
    (∀ r ∈ g.relations,
      (∀ json m, r.readParams json = .ok m ↔ r.params.isSome ∧
        readMessage r.method.input json = .ok m ∧ m.has r.bases = false) ∧
      (∀ json m, r.readParams json = .ok m → m.type = r.method.input) ∧
      ∀ json m x xs, r.params.isSome → readMessage r.method.input json = .ok m →
        m.get r.bases = .list (x :: xs) → r.readParams json = .error .basesGiven) ∧
    (∀ (b : Batch) (transport : Transport) (timeout : Option Nat), b.relation ∈ g.relations →
      b.relation.resolver = .method transport timeout →
      (∀ x ∈ b.entries, x.base.type = b.relation.base) →
      ∀ (world : Downstream) (ctx : CallContext) (owner now : Nat) (before : Journal),
        ∃ e, (b.resolve world ctx owner now before).events =
            [.called e, .resolved b.relation.method.fullName b.entries.length] ∧
          e.call.method = b.relation.method ∧
          b.relation.AsksWith (b.params.map (·.message)) (b.entries.map (·.base)) e.call.message ∧
          ∀ values, (b.resolve world ctx owner now before).result = .ok values →
            ∃ reply, (world.unary before.calls e.call).value = .ok reply ∧
              b.relation.valuesOf reply = .ok values ∧ values.length = b.entries.length) ∧
    (∀ r ∈ g.relations,
      (∀ reply values, r.valuesOf reply = .ok values ↔ ∃ results : List Message,
        reply.get r.values = .list (results.map .message) ∧
          values = results.map (·.value? r.field)) ∧
      (∀ reply : Message, reply.type = r.method.output → reply.WellTyped →
        ∃ values, r.valuesOf reply = .ok values) ∧
      ∀ result : Message, result.value? r.field = none ↔
        r.field.isList = false ∧ r.field.isMap = false ∧ result.has r.field = false) ∧
    ∀ (v : Verb) (r : Request) (p : Prepared), g.prepare v r = .ok p →
      ∀ (k : Nat) (b : Batch), p.HasBatch v.catchesByDefault k b →
        b.relation ∈ g.relations ∧ (b.params.isSome ↔ b.relation.params.isSome) ∧
        (∀ x ∈ b.params, ∃ json, b.relation.readParams json = .ok x.message) ∧
        ∀ (k' : Nat) (b' : Batch) (x y : Params), p.HasBatch v.catchesByDefault k' b' →
          x ∈ b.params → y ∈ b'.params → x.selection = y.selection →
            x = y ∧ b.relation = b'.relation := by
  have shaped : ∀ r ∈ g.relations, r.IsShaped := fun r hr =>
    RelationShape.ofMethod_eq_ok_iff.mpr (sound.fits r hr)
  refine ⟨fun r hr => ?_, fun b transport timeout known backed typed => ?_, fun r hr => ?_,
    fun v r p hp k b h => ?_⟩
  · have serves := sound.fits r hr
    have reads : ∀ json m, r.readParams json = .ok m ↔ r.params.isSome ∧
        readMessage r.method.input json = .ok m ∧ m.has r.bases = false :=
      fun _ _ => Relation.readParams_eq_ok serves.params_cases
    refine ⟨reads, fun json m read => type_readMessage ((reads json m).mp read).2.1, ?_⟩
    intro json m x xs declares read given
    obtain params : r.params = some r.method.input := by
      rcases serves.params_cases with none | some
      · simp [none] at declares
      · exact some
    simp [Relation.readParams, params, read, Message.has_of_get serves.bases.isList given]
  · exact Batch.asks_with backed (shaped _ known) (lists _ known) typed
  · exact ⟨fun reply values => Relation.valuesOf_eq_ok,
      fun reply type typed => (shaped r hr).valuesOf_isOk type typed,
      fun result => Message.value?_eq_none⟩
  · obtain ⟨declared, read⟩ := h.params_read hp
    refine ⟨?_, declared, read, fun k' b' x y h' => h.params_eq hp h'⟩
    obtain ⟨n, s, hs, relation, _⟩ := h.exists_field
    exact mem_relations_of_compileMask (Gateway.isPrepared hp).compiled hs relation

namespace Sample

def generationOf (m : Message) : Option Int32 :=
  match m.get generation with
  | .scalar (.int32 n) => some n
  | _ => none

/-- Whether a batch of two items is for the second generation and can be asked for with its bases as
they are. -/
def asksForSecond (b : Batch) : Bool :=
  b.bases.map titleOf == [some "knot", some "hitch"] &&
    b.params.any (fun x => generationOf x.message == some 2) &&
    decide (∀ x ∈ b.entries, x.base.type = b.relation.base) &&
    b.relation.resolver == .method ⟨"http://items"⟩ none

end Sample

/-- A call for the ancestors of two items has the two items as its bases, in order, and the generation
that the client asked for. -/
theorem call_for_ancestors_has_bases_and_generation : ∃ p b e,
    Sample.familyGateway.prepare .fetch Sample.lineages = .ok p ∧
    p.HasBatch Verb.fetch.catchesByDefault 2 b ∧
    (∀ x ∈ b.params, ∃ json, b.relation.readParams json = .ok x.message) ∧
    (b.resolve Sample.mirror.world {} 0 0 []).events =
      [.called e, .resolved b.relation.method.fullName 2] ∧
    e.call.message.get b.relation.bases = .list (b.bases.map .message) ∧
    b.bases.map Sample.titleOf = [some "knot", some "hitch"] ∧
    Sample.generationOf e.call.message = some 2 := by
  have sound : Sample.familyGateway.IsSound :=
    (Builder.follows_of_performAll Sample.setsUpFamily).sound
  have lists : ∀ r ∈ Sample.familyGateway.relations, r.bases.oneof = none ∧
    r.bases.number = 1 := by decide +kernel
  obtain ⟨_, calls, _, requests⟩ :=
    calls_add_bases_to_params Sample.familyGateway sound fun r hr => (lists r hr).1
  obtain ⟨p, prepared, found⟩ := Outcome.exists_of_any
    (x := Sample.familyGateway.prepare .fetch Sample.lineages)
    (P := fun p => (Sample.lineagesAfter p 1).any Sample.asksForSecond) (by decide +kernel)
  obtain ⟨b, hb, asked⟩ := List.any_eq_true.mp found
  have batch := Prepared.hasBatch_of_after 1 hb
  obtain ⟨known, _, read, _⟩ := requests .fetch _ p prepared 2 b batch
  simp only [Sample.asksForSecond, Bool.and_eq_true, decide_eq_true_eq, beq_iff_eq] at asked
  obtain ⟨⟨⟨titles, second⟩, typed⟩, backed⟩ := asked
  have two : b.entries.length = 2 := by
    simpa [Batch.bases] using congrArg List.length titles
  obtain ⟨e, events, _, asks, _⟩ :=
    calls b _ _ known backed typed Sample.mirror.world {} 0 0 []
  refine ⟨p, b, e, prepared, batch, read, two ▸ events, asks.bases, titles, ?_⟩
  have other : Sample.generation.number ≠ b.relation.bases.number := by
    rw [(lists _ known).2]
    decide
  obtain ⟨x, hx, second⟩ := Option.any_eq_true .. |>.mp second
  rw [hx] at asks
  rw [Sample.generationOf, asks.others.get other]
  exact beq_iff_eq.mp second

end Patchwork
