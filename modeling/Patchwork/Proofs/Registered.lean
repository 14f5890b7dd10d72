import Patchwork.Proofs.Unprintable
import Patchwork.Proofs.Validation

/-!
# Relations that were registered

A builder takes relations only in the shape of their methods. So the values in a typed reply of such
a method are typed, too, and belong to the field of the relation.
-/

namespace Patchwork
open Proto

/-- The parts of a relation are those of its method. -/
def Relation.IsShaped (r : Relation) : Prop :=
  RelationShape.ofMethod r.method r.name = .ok r.toRelationShape

theorem Relation.isShaped_of_ofMethod {m : Method} {name : String} {resolver : Resolver}
    {r : Relation} (h : ofMethod m name resolver = .ok r) : r.IsShaped := by
  obtain ⟨shape, hs, h⟩ := Outcome.bind_eq_ok.mp h
  cases h
  exact hs

/-- What each step keeps is kept by all of them. -/
theorem Outcome.foldlM_keeps {P : β → Prop} {f : β → α → Outcome β} {xs : List α} {b b' : β}
    (h : xs.foldlM f b = .ok b') (step : ∀ a ∈ xs, ∀ b b', P b → f b a = .ok b' → P b')
    (hb : P b) : P b' := by
  induction xs generalizing b with
  | nil =>
    cases h
    exact hb
  | cons x rest ih =>
    rw [List.foldlM_cons] at h
    obtain ⟨b₁, h₁, h⟩ := bind_eq_ok.mp h
    exact ih h (fun a ha => step a (List.mem_cons_of_mem _ ha))
      (step x (List.mem_cons_self ..) b b₁ hb h₁)

/-! ## Builders -/

/-- A builder that was set up step by step. -/
inductive Builder.Made : Builder → Prop
  | start : Made {}
  | withTransport {b : Builder} (made : Made b) (t : Transport) : Made (b.withTransport t)
  | withTimeout {b : Builder} (made : Made b) (timeout : Nat) : Made (b.withTimeout timeout)
  | withPolicy {b : Builder} (made : Made b) (p : HeaderPolicy) : Made (b.withPolicy p)
  | enableMetrics {b : Builder} (made : Made b) : Made b.enableMetrics
  | registerService {b b' : Builder} {s : Service} {options : ServiceOptions} (made : Made b)
      (registered : b.registerService s options = .ok b') : Made b'
  | registerRelation {b b' : Builder} {s : Service} {method : String} {options : RelationOptions}
      (made : Made b) (registered : b.registerRelation s method options = .ok b') : Made b'
  /-- A relation that is resolved in whatever way. -/
  | addRelation {b b' : Builder} {m : Method} {name : String} {resolver : Resolver} {r : Relation}
      (made : Made b) (shaped : Relation.ofMethod m name resolver = .ok r)
      (added : b.addRelation r = .ok b') : Made b'

namespace Builder

theorem relations_addEntryPoint {b b' : Builder} {e : EntryPoint} (h : b.addEntryPoint e = .ok b') :
    b'.relations = b.relations := by
  unfold addEntryPoint at h
  split at h
  · cases h
  · cases h
    rfl

theorem relations_addAll {make : Method → EntryPoint} {methods : List Method} {b b' : Builder}
    (h : methods.foldlM (fun b m => b.addEntryPoint (make m)) b = .ok b') :
    b'.relations = b.relations :=
  Outcome.foldlM_keeps (P := fun x => x.relations = b.relations) h
    (fun _ _ _ _ hx added => (relations_addEntryPoint added).trans hx) rfl

theorem relations_registerService {b b' : Builder} {s : Service} {options : ServiceOptions}
    (h : b.registerService s options = .ok b') : b'.relations = b.relations := by
  obtain ⟨transport, _, h⟩ := Outcome.bind_eq_ok.mp h
  dsimp only at h
  split at h
  · cases h
  · exact relations_addAll h

theorem relations_addRelation {b b' : Builder} {r : Relation} (h : b.addRelation r = .ok b') :
    b'.relations = b.relations ++ [r] := by
  unfold addRelation at h
  split at h
  · cases h
  · split at h
    · cases h
    · cases h
      rfl

theorem entryPoints_addRelation {b b' : Builder} {r : Relation} (h : b.addRelation r = .ok b') :
    b'.entryPoints = b.entryPoints := by
  unfold addRelation at h
  split at h
  · cases h
  · split at h
    · cases h
    · cases h
      rfl

theorem registerRelation_eq_ok {b b' : Builder} {s : Service} {method : String}
    {options : RelationOptions} (h : b.registerRelation s method options = .ok b') :
    ∃ m transport timeout r, m ∈ s.methods ∧
      Relation.ofMethod m options.name (.method transport timeout) = .ok r ∧
      b.addRelation r = .ok b' := by
  unfold registerRelation at h
  cases hm : s.method? method with
  | none =>
    rw [hm] at h
    cases h
  | some m =>
    rw [hm] at h
    obtain ⟨transport, _, h⟩ := Outcome.bind_eq_ok.mp h
    obtain ⟨r, hr, h⟩ := Outcome.bind_eq_ok.mp h
    exact ⟨m, _, _, r, List.mem_of_find?_eq_some hm, hr, h⟩

/-- The relations of a builder all have the shape of their methods. -/
theorem Made.isShaped {b : Builder} (made : b.Made) : ∀ r ∈ b.relations, r.IsShaped := by
  have added : ∀ {b b' : Builder} {m : Method} {name : String} {resolver : Resolver} {r : Relation},
      (∀ x ∈ b.relations, x.IsShaped) → Relation.ofMethod m name resolver = .ok r →
      b.addRelation r = .ok b' → ∀ x ∈ b'.relations, x.IsShaped := by
    intro b b' m name resolver r hb hr h x hx
    rw [relations_addRelation h] at hx
    rcases List.mem_append.mp hx with hx | hx
    · exact hb x hx
    · rw [List.mem_singleton.mp hx]
      exact Relation.isShaped_of_ofMethod hr
  induction made with
  | start => simp
  | withTransport made t ih => exact ih
  | withTimeout made timeout ih => exact ih
  | withPolicy made p ih => exact ih
  | enableMetrics made ih => exact ih
  | registerService made registered ih =>
    rw [relations_registerService registered]
    exact ih
  | registerRelation made registered ih =>
    obtain ⟨m, _, _, r, _, hr, h⟩ := registerRelation_eq_ok registered
    exact added ih hr h
  | addRelation made shaped h ih => exact added ih shaped h

end Builder

/-- A gateway that a builder accepted. -/
def Gateway.IsBuilt (g : Gateway) : Prop := ∃ b : Builder, b.Made ∧ b.build = .ok g

theorem Gateway.IsBuilt.isShaped {g : Gateway} (h : g.IsBuilt) : ∀ r ∈ g.relations, r.IsShaped := by
  obtain ⟨b, made, hb⟩ := h
  unfold Builder.build at hb
  split at hb
  · cases hb
  · cases hb
    exact made.isShaped

/-! ## Values -/

theorem Proto.Pool.pool_message (pool : Pool) (name : String) : (pool.message name).pool = pool := by
  unfold Pool.message Pool.message?
  cases pool.messages.find? (·.name == name) <;> rfl

namespace RelationShape

theorem orMisconfigured_eq_ok {cause : Misconfigured} {o : Option α} {x : α}
    (h : orMisconfigured cause o = .ok x) : o = some x := by
  cases o with
  | none => cases h
  | some y =>
    cases h
    rfl

theorem messageOf?_eq_some {t u : MessageType} {f : Field} (h : messageOf? t f = some u) :
    ∃ name, f.kind = .message name ∧ u = t.pool.message name := by
  unfold messageOf? at h
  split at h
  · next name hk =>
    cases h
    exact ⟨name, hk, rfl⟩
  · cases h

theorem fields_of_onlyField? {result : MessageType} {name : String} {f : Field}
    (h : onlyField? result name = some f) : result.fields = [f] := by
  unfold onlyField? at h
  split at h
  · next g hg =>
    split at h
    · cases h
      exact hg
    · cases h
  · cases h

/-- The results of a relation's method are a list of messages whose only field is the relation's. -/
theorem ofMethod_output {m : Method} {name : String} {shape : RelationShape}
    (h : ofMethod m name = .ok shape) : shape.values ∈ m.output.fields ∧ shape.values.isList ∧
      ∃ result, shape.values.kind = .message result ∧
        (m.output.pool.message result).fields = [shape.field] := by
  unfold ofMethod at h
  dsimp only at h
  split at h
  · cases h
  obtain ⟨bases, _, h⟩ := Outcome.bind_eq_ok.mp h
  obtain ⟨base, _, h⟩ := Outcome.bind_eq_ok.mp h
  obtain ⟨values, hv, h⟩ := Outcome.bind_eq_ok.mp h
  obtain ⟨result, hr, h⟩ := Outcome.bind_eq_ok.mp h
  obtain ⟨field, hf, h⟩ := Outcome.bind_eq_ok.mp h
  cases h
  obtain ⟨hl, hp⟩ := Option.filter_eq_some_iff.mp (orMisconfigured_eq_ok hv)
  obtain ⟨n, hk, rfl⟩ := messageOf?_eq_some (orMisconfigured_eq_ok hr)
  rw [Bool.and_eq_true] at hp
  exact ⟨List.mem_of_find?_eq_some hl, hp.2, n, hk, fields_of_onlyField? (orMisconfigured_eq_ok hf)⟩

end RelationShape

/-- A list in a typed message holds typed messages. -/
theorem Proto.Message.WellTyped.get_list {m : Message} {f : Field} {name : String}
    (typed : m.WellTyped) (known : f ∈ m.type.fields) (isList : f.isList)
    (kind : f.kind = .message name) : ∃ items, m.get f = .list items ∧ m.value? f = some (.list items) ∧
      ∀ x ∈ items, ∃ y, x = .message y ∧ y.type = m.type.pool.message name ∧ y.WellTyped := by
  have hv : m.value? f = some (m.get f) := by
    unfold Message.value?
    rw [isList]
    rfl
  obtain ⟨fields⟩ := typed
  have fits := fields f known _ hv
  generalize m.get f = v at hv fits
  cases fits with
  | single arity holds => simp [Field.isList, arity] at isList
  | map arity holds => simp [Field.isList, arity] at isList
  | @list _ _ items _ arity holds =>
    refine ⟨items, rfl, hv, fun x hx => ?_⟩
    have hx := holds x hx
    rw [kind] at hx
    cases hx with
    | @message _ _ y type typed => exact ⟨y, rfl, type, typed⟩

/-- A value in a typed reply is that of the relation's field in one of the results. -/
theorem Relation.IsShaped.result_of_value {r : Relation} {m : Message} {values : List (Option Value)}
    {v : Value} (h : r.IsShaped) (type : m.type = r.method.output) (typed : m.WellTyped)
    (given : r.valuesOf m = .ok values) (hv : some v ∈ values) :
    ∃ items y, m.value? r.values = some (.list items) ∧ .message y ∈ items ∧
      y.value? r.field = some v ∧ r.field ∈ y.type.fields ∧ y.type.pool = r.method.pool ∧
      y.WellTyped := by
  obtain ⟨known, isList, name, kind, only⟩ := RelationShape.ofMethod_output h
  obtain ⟨items, hg, hval, hitems⟩ := typed.get_list (type ▸ known) isList kind
  unfold Relation.valuesOf at given
  rw [hg] at given
  obtain ⟨x, hx, hxv⟩ := forall₂_exists_left (Outcome.mapM_eq_ok.mp given) hv
  obtain ⟨y, rfl, ytype, ytyped⟩ := hitems x hx
  have hy : r.field ∈ y.type.fields := by
    rw [ytype, type, only]
    exact List.mem_singleton_self _
  have pool : y.type.pool = r.method.pool := by
    rw [ytype, Pool.pool_message, type]
    exact Pool.pool_message ..
  exact ⟨items, y, hval, hx, Except.ok.inj hxv, hy, pool, ytyped⟩

/-- The values in a typed reply are of the relation's field. What cannot be printed inside them is
inside the reply. -/
theorem Relation.IsShaped.valuesOf {r : Relation} {m : Message} {values : List (Option Value)}
    {v : Value} (h : r.IsShaped) (type : m.type = r.method.output) (typed : m.WellTyped)
    (given : r.valuesOf m = .ok values) (hv : some v ∈ values) :
    v.Fits r.method.pool r.field ∧ ∀ e : Failure, e.IsPrintingIn v → e.IsPrinting m := by
  obtain ⟨items, y, list, item, value, known, pool, ⟨fields⟩⟩ :=
    h.result_of_value type typed given hv
  have fits := fields r.field known v value
  rw [pool] at fits
  refine ⟨fits, fun e he => ?_⟩
  have inside : e.IsPrintingIn (.list items) := ⟨y, item, he.field value⟩
  exact inside.field list

end Patchwork
