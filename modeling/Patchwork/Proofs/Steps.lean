import Patchwork.Proofs.Registered

/-!
# Set-up step by step

A builder is taken through steps. Each step that registers something adds entry points or relations,
made with the transport and the timeout in force, or it is refused. It is accepted exactly when the
registry is sound with what it adds.
-/

namespace Patchwork
open Proto

/-- A step of setting up a gateway. -/
inductive Builder.Step where
  | transport (t : Transport)
  | timeout (span : Nat)
  | policy (p : HeaderPolicy)
  | metrics
  | service (s : Service) (options : ServiceOptions)
  | relations (s : Service) (methods : List (String × RelationOptions))
  /-- Adds a relation that a method was made into beforehand. -/
  | relation (m : Method) (name : String) (resolver : Resolver)

namespace Builder

def perform (b : Builder) : Step → Outcome Builder
  | .transport t => .ok (b.withTransport t)
  | .timeout span => .ok (b.withTimeout span)
  | .policy p => .ok (b.withPolicy p)
  | .metrics => .ok b.enableMetrics
  | .service s options => b.registerService s options
  | .relations s methods => b.registerRelations s methods
  | .relation m name resolver => do b.addRelation (← Relation.ofMethod m name resolver)

def performAll (b : Builder) (steps : List Step) : Outcome Builder := steps.foldlM perform b

/-- The builder with more entry points and relations. -/
def extend (b : Builder) (es : List EntryPoint) (rs : List Relation) : Builder :=
  { b with entryPoints := b.entryPoints ++ es, relations := b.relations ++ rs }

/-- What a step sets for the steps after it. -/
def adjust (b : Builder) : Step → Builder
  | .transport t => b.withTransport t
  | .timeout span => b.withTimeout span
  | .policy p => b.withPolicy p
  | .metrics => b.enableMetrics
  | _ => b

section

variable (b : Builder) (es es' : List EntryPoint) (rs rs' : List Relation) (step : Step)

@[simp] theorem entryPoints_extend : (b.extend es rs).entryPoints = b.entryPoints ++ es := rfl
@[simp] theorem relations_extend : (b.extend es rs).relations = b.relations ++ rs := rfl
@[simp] theorem transport_extend : (b.extend es rs).transport = b.transport := rfl
@[simp] theorem timeout_extend : (b.extend es rs).timeout = b.timeout := rfl

@[simp] theorem extend_nil : b.extend [] [] = b := by simp [extend]

@[simp] theorem extend_extend :
    (b.extend es rs).extend es' rs' = b.extend (es ++ es') (rs ++ rs') := by simp [extend]

@[simp] theorem entryPoints_adjust : (b.adjust step).entryPoints = b.entryPoints := by
  cases step <;> rfl

@[simp] theorem relations_adjust : (b.adjust step).relations = b.relations := by
  cases step <;> rfl

end
end Builder

/-! ## What is in force -/

def Builder.Step.transport? : Step → Option Transport
  | .transport t => some t
  | _ => none

def Builder.Step.timeout? : Step → Option Nat
  | .timeout span => some span
  | _ => none

/-- The transport in force after steps: the one set last. -/
def transportAfter (start : Option Transport) (steps : List Builder.Step) : Option Transport :=
  steps.foldl (fun t step => step.transport? <|> t) start

/-- The timeout in force after steps: the one set last. -/
def timeoutAfter (start : Option Nat) (steps : List Builder.Step) : Option Nat :=
  steps.foldl (fun t step => step.timeout? <|> t) start

@[simp] theorem Builder.transport_adjust (b : Builder) (step : Builder.Step) :
    (b.adjust step).transport = (step.transport? <|> b.transport) := by
  cases step <;>
    simp [adjust, Step.transport?, withTransport, withTimeout, withPolicy, enableMetrics]

@[simp] theorem Builder.timeout_adjust (b : Builder) (step : Builder.Step) :
    (b.adjust step).timeout = (step.timeout? <|> b.timeout) := by
  cases step <;> simp [adjust, Step.timeout?, withTransport, withTimeout, withPolicy, enableMetrics]

/-! ## What a relation has to be -/

/-- The field 1 of a type is a list of messages of another one. -/
structure Proto.MessageType.Lists (t : MessageType) (f : Field) (name : String) (u : MessageType) :
    Prop where
  numbered : t.fieldAt? 1 = some f
  named : f.name = name
  isList : f.isList
  holds : ∃ n, f.kind = .message n ∧ u = t.pool.message n

/-- What a method needs to serve as a relation: it is unary, takes a list of bases and returns a
list of results, whose only field has the name of the relation. -/
structure Proto.Method.ServesAs (m : Method) (name : String) (shape : RelationShape) : Prop where
  unary : m.isUnary
  bases : m.input.Lists shape.bases "bases" shape.base
  values : ∃ result, m.output.Lists shape.values "values" result ∧ result.fields = [shape.field]
  numbered : shape.field.number = 1
  named : shape.field.name = name
  params : shape.params = if m.input.fields.any (·.number != 1) then some m.input else none

namespace RelationShape

theorem firstList?_eq_some {t : MessageType} {name : String} {f : Field}
    (h : firstList? t name = some f) : t.fieldAt? 1 = some f ∧ f.name = name ∧ f.isList := by
  obtain ⟨hf, hp⟩ := Option.filter_eq_some_iff.mp h
  simpa [hf] using hp

theorem onlyField?_eq_some {result : MessageType} {name : String} {f : Field}
    (h : onlyField? result name = some f) : result.fields = [f] ∧ f.number = 1 ∧ f.name = name := by
  unfold onlyField? at h
  split at h
  · next g hg =>
    split at h
    · next hn =>
      cases h
      exact ⟨hg, hn⟩
    · cases h
  · cases h

/-- A method has a shape exactly when it serves as the relation. -/
theorem ofMethod_eq_ok_iff {m : Method} {name : String} {shape : RelationShape} :
    ofMethod m name = .ok shape ↔ m.ServesAs name shape := by
  constructor
  · intro h
    unfold ofMethod at h
    dsimp only at h
    split at h
    · cases h
    next unary =>
    obtain ⟨bases, hb, h⟩ := Outcome.bind_eq_ok.mp h
    obtain ⟨base, ht, h⟩ := Outcome.bind_eq_ok.mp h
    obtain ⟨values, hv, h⟩ := Outcome.bind_eq_ok.mp h
    obtain ⟨result, hr, h⟩ := Outcome.bind_eq_ok.mp h
    obtain ⟨field, hf, h⟩ := Outcome.bind_eq_ok.mp h
    cases h
    obtain ⟨nb, sb, lb⟩ := firstList?_eq_some (orMisconfigured_eq_ok hb)
    obtain ⟨nv, sv, lv⟩ := firstList?_eq_some (orMisconfigured_eq_ok hv)
    obtain ⟨only, number, named⟩ := onlyField?_eq_some (orMisconfigured_eq_ok hf)
    have ht := messageOf?_eq_some (orMisconfigured_eq_ok ht)
    have hr := messageOf?_eq_some (orMisconfigured_eq_ok hr)
    exact ⟨by simpa using unary, ⟨nb, sb, lb, ht⟩, ⟨result, ⟨nv, sv, lv, hr⟩, only⟩, number, named,
      rfl⟩
  · obtain ⟨base, bases, values, field, params⟩ := shape
    rintro ⟨unary, ⟨nb, sb, lb, kb, hkb, hb⟩, ⟨result, ⟨nv, sv, lv, kv, hkv, hv⟩, only⟩, number,
      named, hp⟩
    dsimp only at *
    have bases? : firstList? m.input basesName = some bases := by simp [firstList?, basesName, *]
    have base? : messageOf? m.input bases = some base := by simp [messageOf?, *]
    have values? : firstList? m.output valuesName = some values := by
      simp [firstList?, valuesName, *]
    have result? : messageOf? m.output values = some result := by simp [messageOf?, *]
    have field? : onlyField? result name = some field := by
      simp [onlyField?, only, number, named]
    unfold ofMethod
    dsimp only
    rw [unary, bases?, values?, hp]
    simp only [orMisconfigured, bind, Except.bind, base?, result?, field?]
    rfl

end RelationShape

/-- The relation that a method is made into has its shape. -/
theorem Relation.ofMethod_eq_ok_iff {m : Method} {name : String} {resolver : Resolver}
    {r : Relation} :
    ofMethod m name resolver = .ok r ↔
      r.method = m ∧ r.name = name ∧ r.resolver = resolver ∧ r.IsShaped := by
  constructor
  · intro h
    have shaped := isShaped_of_ofMethod h
    obtain ⟨shape, _, h⟩ := Outcome.bind_eq_ok.mp h
    cases h
    exact ⟨rfl, rfl, rfl, shaped⟩
  · rintro ⟨rfl, rfl, rfl, shaped⟩
    exact Outcome.bind_eq_ok.mpr ⟨r.toRelationShape, shaped, rfl⟩

/-! ## What steps add -/

/-- The relation that a method of a service is registered as, with what is in force. -/
structure Relation.IsFor (r : Relation) (s : Service) (transport : Option Transport)
    (timeout : Option Nat) (x : String × RelationOptions) : Prop where
  method : s.method? x.1 = some r.method
  name : r.name = x.2.name
  resolver : ∃ t, (x.2.transport <|> transport) = some t ∧
    r.resolver = .method t (x.2.timeout <|> timeout)

namespace Builder

/-- What a step adds to a registry, with the transport and the timeout in force. -/
inductive Step.Adds (transport : Option Transport) (timeout : Option Nat) :
    Step → List EntryPoint → List Relation → Prop
  | transport (t : Transport) : Adds transport timeout (.transport t) [] []
  | timeout (span : Nat) : Adds transport timeout (.timeout span) [] []
  | policy (p : HeaderPolicy) : Adds transport timeout (.policy p) [] []
  | metrics : Adds transport timeout .metrics [] []
  | service {s : Service} {options : ServiceOptions} {t : Transport}
      (reached : (options.transport <|> transport) = some t)
      (known : ∀ n ∈ options.methods.getD [], (s.method? n).isSome) :
      Adds transport timeout (.service s options)
        ((servedMethods s options.methods).map (⟨·, t, options.timeout <|> timeout⟩)) []
  | relations {s : Service} {methods : List (String × RelationOptions)} {rs : List Relation}
      (made : List.Forall₂ (fun x r => r.IsFor s transport timeout x) methods rs) :
      Adds transport timeout (.relations s methods) [] rs
  | relation (r : Relation) : Adds transport timeout (.relation r.method r.name r.resolver) [] [r]

end Builder

/-- What holds of every registry: methods have keys of their own, relations have fitting methods and
names that are not those of fields of their bases, and no base has two relations of one name. -/
structure Gateway.IsSound (g : Gateway) : Prop where
  keys : (g.entryPoints.map (·.name)).Nodup
  fits : ∀ r ∈ g.relations, r.method.ServesAs r.name r.toRelationShape
  free : ∀ r ∈ g.relations, r.base.field? r.name = none
  apart : g.relations.Pairwise fun r s => ¬(r.base.name = s.base.name ∧ r.name = s.name)

namespace Builder

variable {b b' : Builder}

theorem isSound_start : ({} : Builder).IsSound :=
  ⟨List.nodup_nil, by simp, by simp, List.Pairwise.nil⟩

/-- A registry is sound at each stage on the way to a sound one. -/
theorem isSound_of_extend {es : List EntryPoint} {rs : List Relation}
    (h : (b.extend es rs).IsSound) : b.IsSound where
  keys := by
    have keys := h.keys
    rw [entryPoints_extend, List.map_append] at keys
    exact (List.nodup_append.mp keys).1
  fits r hr := h.fits r (List.mem_append_left _ hr)
  free r hr := h.free r (List.mem_append_left _ hr)
  apart := (List.pairwise_append.mp h.apart).1

theorem addEntryPoint_eq_ok {e : EntryPoint} :
    b.addEntryPoint e = .ok b' ↔ e.name ∉ b.entryPoints.map (·.name) ∧ b' = b.extend [e] [] := by
  unfold addEntryPoint Gateway.entryPoint?
  by_cases h : e.name ∈ b.entryPoints.map (·.name)
  · have found : (b.entryPoints.find? (·.name == e.name)).isSome := by simpa using h
    simp [found, h]
  · have found : (b.entryPoints.find? (·.name == e.name)).isSome = false := by simpa using h
    simp [found, h, extend, eq_comm]

/-- Methods are added when all of them have keys of their own. -/
theorem addEntryPoints_eq_ok {es : List EntryPoint} (keys : (b.entryPoints.map (·.name)).Nodup) :
    es.foldlM addEntryPoint b = .ok b' ↔
      ((b.entryPoints ++ es).map (·.name)).Nodup ∧ b' = b.extend es [] := by
  induction es generalizing b with
  | nil => simp [keys, pure, Except.pure, eq_comm]
  | cons e rest ih =>
    rw [List.foldlM_cons]
    constructor
    · intro h
      obtain ⟨b₁, h₁, h⟩ := Outcome.bind_eq_ok.mp h
      obtain ⟨new, rfl⟩ := addEntryPoint_eq_ok.mp h₁
      have keys₁ : ((b.extend [e] []).entryPoints.map (·.name)).Nodup := by
        simpa [List.nodup_append] using ⟨keys, by simpa using new⟩
      obtain ⟨all, rfl⟩ := (ih keys₁).mp h
      simpa using all
    · rintro ⟨all, rfl⟩
      have split : b.entryPoints ++ e :: rest = (b.extend [e] []).entryPoints ++ rest := by simp
      rw [split] at all
      have keys₁ : ((b.extend [e] []).entryPoints.map (·.name)).Nodup := by
        rw [List.map_append] at all
        exact (List.nodup_append.mp all).1
      have new : e.name ∉ b.entryPoints.map (·.name) := by
        intro he
        have split : (b.extend [e] []).entryPoints.map (·.name) =
          b.entryPoints.map (·.name) ++ [e.name] := by simp
        rw [split] at keys₁
        exact List.disjoint_of_nodup_append keys₁ he (List.mem_singleton_self _)
      have first := addEntryPoint_eq_ok.mpr ⟨new, rfl⟩
      refine Outcome.bind_eq_ok.mpr ⟨_, first, (ih keys₁).mpr ⟨all, ?_⟩⟩
      simp

theorem missingMethod?_eq_none {s : Service} {names : List String} :
    missingMethod? s names = none ↔ ∀ n ∈ names, (s.method? n).isSome := by
  simp [missingMethod?, List.find?_eq_none, Option.isSome_iff_ne_none]

theorem transportFor_eq_ok {explicit : Option Transport} {user : String} {t : Transport} :
    b.transportFor explicit user = .ok t ↔ (explicit <|> b.transport) = some t := by
  unfold transportFor
  cases explicit <|> b.transport <;> simp

theorem isSound_extend_entryPoints {es : List EntryPoint} (sound : b.IsSound) :
    (b.extend es []).IsSound ↔ ((b.entryPoints ++ es).map (·.name)).Nodup := by
  constructor
  · exact fun h => h.keys
  · intro keys
    exact ⟨keys, by simpa using sound.fits, by simpa using sound.free, by simpa using sound.apart⟩

/-- A service is registered when a transport is there, the methods asked for are known and the
registry stays sound. -/
theorem registerService_eq_ok {s : Service} {options : ServiceOptions} (sound : b.IsSound) :
    b.registerService s options = .ok b' ↔ ∃ es,
      (Step.service s options).Adds b.transport b.timeout es [] ∧ (b.extend es []).IsSound ∧
        b' = b.extend es [] := by
  have added : ∀ t, (servedMethods s options.methods).foldlM
      (fun x m => x.addEntryPoint ⟨m, t, options.timeout <|> b.timeout⟩) b = .ok b' ↔
        (b.extend ((servedMethods s options.methods).map
          (⟨·, t, options.timeout <|> b.timeout⟩)) []).IsSound ∧
        b' = b.extend ((servedMethods s options.methods).map
          (⟨·, t, options.timeout <|> b.timeout⟩)) [] := by
    intro t
    rw [isSound_extend_entryPoints sound, ← addEntryPoints_eq_ok sound.keys, List.foldlM_map]
  constructor
  · intro h
    obtain ⟨t, ht, h⟩ := Outcome.bind_eq_ok.mp h
    dsimp only at h
    split at h
    · cases h
    · next hm =>
      have known := missingMethod?_eq_none.mp (Option.eq_none_iff_forall_ne_some.mpr hm)
      exact ⟨_, .service (transportFor_eq_ok.mp ht) known, (added t).mp h⟩
  · rintro ⟨es, adds, hs, hb⟩
    cases adds with
    | @service _ _ t reached known =>
      refine Outcome.bind_eq_ok.mpr ⟨t, transportFor_eq_ok.mpr reached, ?_⟩
      rw [missingMethod?_eq_none.mpr known]
      exact (added t).mpr ⟨hs, hb⟩

theorem relation?_eq_none {g : Gateway} {base name : String} :
    g.relation? base name = none ↔ ∀ s ∈ g.relations, ¬(s.base.name = base ∧ s.name = name) := by
  simp [Gateway.relation?, relationsOf, List.find?_eq_none]

theorem addRelation_eq_ok {r : Relation} (sound : b.IsSound)
    (fits : r.method.ServesAs r.name r.toRelationShape) :
    b.addRelation r = .ok b' ↔ (b.extend [] [r]).IsSound ∧ b' = b.extend [] [r] := by
  have extended : (b.extend [] [r]).IsSound ↔ r.base.field? r.name = none ∧
      b.relation? r.base.name r.name = none := by
    rw [relation?_eq_none]
    constructor
    · intro h
      have apart := (List.pairwise_append.mp h.apart).2.2
      exact ⟨h.free r (by simp), fun s hs => apart s hs r (List.mem_singleton_self r)⟩
    · rintro ⟨free, apart⟩
      refine ⟨by simpa using sound.keys, ?_, ?_, ?_⟩
      · simpa [or_imp, forall_and] using ⟨sound.fits, fits⟩
      · simpa [or_imp, forall_and] using ⟨sound.free, free⟩
      · exact List.pairwise_append.mpr
          ⟨sound.apart, List.pairwise_singleton .., by simpa using apart⟩
  rw [extended]
  unfold addRelation
  cases r.base.field? r.name <;> cases b.relation? r.base.name r.name <;> simp [extend, eq_comm]

/-- A method is registered as a relation when it is known, a transport is there and the registry
stays sound. -/
theorem registerRelation_eq_ok_iff {s : Service} {method : String} {options : RelationOptions}
    (sound : b.IsSound) :
    b.registerRelation s method options = .ok b' ↔ ∃ r : Relation,
      r.IsFor s b.transport b.timeout (method, options) ∧ (b.extend [] [r]).IsSound ∧
        b' = b.extend [] [r] := by
  constructor
  · intro h
    unfold registerRelation at h
    cases hm : s.method? method with
    | none =>
      rw [hm] at h
      cases h
    | some m =>
      rw [hm] at h
      obtain ⟨t, ht, made⟩ := Outcome.bind_eq_ok.mp h
      obtain ⟨r, hr, added⟩ := Outcome.bind_eq_ok.mp made
      obtain ⟨rfl, name, resolver, shaped⟩ := Relation.ofMethod_eq_ok_iff.mp hr
      have fits := RelationShape.ofMethod_eq_ok_iff.mp shaped
      have isFor : r.IsFor s b.transport b.timeout (method, options) :=
        ⟨hm, name, t, transportFor_eq_ok.mp ht, resolver⟩
      exact ⟨r, isFor, (addRelation_eq_ok sound fits).mp added⟩
  · rintro ⟨r, ⟨hm, name, t, ht, resolver⟩, hs, rfl⟩
    -- The registry with the relation is sound, so the method has the shape that is asked for.
    have fits := hs.fits r (by simp)
    have made := Relation.ofMethod_eq_ok_iff.mpr
      ⟨rfl, name, resolver, RelationShape.ofMethod_eq_ok_iff.mpr fits⟩
    unfold registerRelation
    rw [hm]
    refine Outcome.bind_eq_ok.mpr ⟨t, transportFor_eq_ok.mpr ht, ?_⟩
    refine Outcome.bind_eq_ok.mpr ⟨r, made, ?_⟩
    exact (addRelation_eq_ok sound fits).mpr ⟨hs, rfl⟩

/-- Methods are registered as relations one after the other. -/
theorem registerRelations_eq_ok {s : Service} {methods : List (String × RelationOptions)}
    (sound : b.IsSound) :
    b.registerRelations s methods = .ok b' ↔ ∃ rs,
      (Step.relations s methods).Adds b.transport b.timeout [] rs ∧ (b.extend [] rs).IsSound ∧
        b' = b.extend [] rs := by
  unfold registerRelations
  induction methods generalizing b with
  | nil =>
    constructor
    · intro h
      cases h
      exact ⟨[], .relations .nil, by simpa using sound, by simp⟩
    · rintro ⟨rs, adds, hs, rfl⟩
      cases adds with
      | relations made =>
        cases made
        simp [pure, Except.pure]
  | cons x rest ih =>
    rw [List.foldlM_cons]
    constructor
    · intro h
      obtain ⟨b₁, h₁, h⟩ := Outcome.bind_eq_ok.mp h
      obtain ⟨r, isFor, sound₁, rfl⟩ := (registerRelation_eq_ok_iff sound).mp h₁
      obtain ⟨rs, adds, hs, rfl⟩ := (ih sound₁).mp h
      cases adds with
      | relations made =>
        rw [extend_extend] at hs
        exact ⟨r :: rs, .relations (.cons isFor made), hs, by simp⟩
    · rintro ⟨rs, adds, hs, rfl⟩
      cases adds with
      | relations made =>
        cases made with
        | @cons _ r _ rs isFor made =>
          -- A registry that is sound in the end was so after the first relation.
          have split : b.extend [] (r :: rs) = (b.extend [] [r]).extend [] rs := by simp
          rw [split] at hs
          have sound₁ := isSound_of_extend hs
          have first := (registerRelation_eq_ok_iff sound).mpr ⟨r, isFor, sound₁, rfl⟩
          exact Outcome.bind_eq_ok.mpr ⟨_, first, (ih sound₁).mpr ⟨rs, .relations made, hs, split⟩⟩

/-- A step is taken exactly when the registry is sound with what it adds. -/
theorem perform_eq_ok {step : Step} (sound : b.IsSound) :
    b.perform step = .ok b' ↔ ∃ es rs, step.Adds b.transport b.timeout es rs ∧
      (b.extend es rs).IsSound ∧ b' = (b.adjust step).extend es rs := by
  have sets : ∀ {x : Builder}, step.Adds b.transport b.timeout [] [] → b.adjust step = x →
      (∀ es rs, step.Adds b.transport b.timeout es rs → es = [] ∧ rs = []) →
      (Except.ok x = (.ok b' : Outcome Builder) ↔ ∃ es rs, step.Adds b.transport b.timeout es rs ∧
        (b.extend es rs).IsSound ∧ b' = (b.adjust step).extend es rs) := by
    rintro x adds rfl only
    constructor
    · intro h
      cases h
      exact ⟨[], [], adds, by simpa using sound, by simp⟩
    · rintro ⟨es, rs, adds, _, rfl⟩
      obtain ⟨rfl, rfl⟩ := only es rs adds
      simp
  cases step with
  | transport t => exact sets (.transport t) rfl fun es rs adds => by cases adds; simp
  | timeout span => exact sets (.timeout span) rfl fun es rs adds => by cases adds; simp
  | policy p => exact sets (.policy p) rfl fun es rs adds => by cases adds; simp
  | metrics => exact sets .metrics rfl fun es rs adds => by cases adds; simp
  | service s options =>
    refine (registerService_eq_ok sound).trans ⟨?_, ?_⟩
    · rintro ⟨es, h⟩
      exact ⟨es, [], h⟩
    · rintro ⟨es, rs, adds, h⟩
      cases adds with
      | service reached known => exact ⟨_, .service reached known, h⟩
  | relations s methods =>
    refine (registerRelations_eq_ok sound).trans ⟨?_, ?_⟩
    · rintro ⟨rs, h⟩
      exact ⟨[], rs, h⟩
    · rintro ⟨es, rs, adds, h⟩
      cases adds with
      | relations made => exact ⟨rs, .relations made, h⟩
  | relation m name resolver =>
    constructor
    · intro h
      obtain ⟨r, hr, added⟩ := Outcome.bind_eq_ok.mp h
      obtain ⟨rfl, rfl, rfl, shaped⟩ := Relation.ofMethod_eq_ok_iff.mp hr
      have fits := RelationShape.ofMethod_eq_ok_iff.mp shaped
      exact ⟨[], [r], .relation r, (addRelation_eq_ok sound fits).mp added⟩
    · rintro ⟨es, rs, adds, hs, hb⟩
      cases adds with
      | relation r =>
        have fits := hs.fits r (by simp)
        have made := Relation.ofMethod_eq_ok_iff.mpr
          ⟨rfl, rfl, rfl, RelationShape.ofMethod_eq_ok_iff.mpr fits⟩
        exact Outcome.bind_eq_ok.mpr ⟨r, made, (addRelation_eq_ok sound fits).mpr ⟨hs, hb⟩⟩

theorem isSound_congr {g g' : Gateway} (es : g.entryPoints = g'.entryPoints)
    (rs : g.relations = g'.relations) : g.IsSound ↔ g'.IsSound := by
  constructor <;> rintro ⟨keys, fits, free, apart⟩
  · exact ⟨es ▸ keys, rs ▸ fits, rs ▸ free, rs ▸ apart⟩
  · exact ⟨es ▸ keys, rs ▸ fits, rs ▸ free, rs ▸ apart⟩

/-! ## Sequences of steps -/

/-- What steps add, one after the other, each with what is in force before it. -/
inductive AddsAll :
    Option Transport → Option Nat → List Step → List EntryPoint → List Relation → Prop
  | nil (transport : Option Transport) (timeout : Option Nat) : AddsAll transport timeout [] [] []
  | cons {transport : Option Transport} {timeout : Option Nat} {step : Step} {steps : List Step}
      {es es' : List EntryPoint} {rs rs' : List Relation}
      (first : step.Adds transport timeout es rs)
      (rest : AddsAll (step.transport? <|> transport) (step.timeout? <|> timeout) steps es' rs') :
      AddsAll transport timeout (step :: steps) (es ++ es') (rs ++ rs')

theorem adjust_extend (b : Builder) (es : List EntryPoint) (rs : List Relation) (step : Step) :
    (b.extend es rs).adjust step = (b.adjust step).extend es rs := by
  cases step <;> rfl

theorem foldl_adjust_extend (b : Builder) (es : List EntryPoint) (rs : List Relation)
    (steps : List Step) :
    steps.foldl adjust (b.extend es rs) = (steps.foldl adjust b).extend es rs := by
  induction steps generalizing b with
  | nil => rfl
  | cons step rest ih => rw [List.foldl_cons, adjust_extend, ih, List.foldl_cons]

/-- Steps are taken exactly when the registry is sound with what they add. -/
theorem performAll_eq_ok {steps : List Step} (sound : b.IsSound) :
    b.performAll steps = .ok b' ↔ ∃ es rs, AddsAll b.transport b.timeout steps es rs ∧
      (b.extend es rs).IsSound ∧ b' = (steps.foldl adjust b).extend es rs := by
  unfold performAll
  induction steps generalizing b with
  | nil =>
    constructor
    · intro h
      cases h
      exact ⟨[], [], .nil .., by simpa using sound, by simp⟩
    · rintro ⟨es, rs, adds, _, rfl⟩
      cases adds
      simp [pure, Except.pure]
  | cons step rest ih =>
    have after : ∀ es rs es' rs', (((b.adjust step).extend es rs).extend es' rs').IsSound ↔
        (b.extend (es ++ es') (rs ++ rs')).IsSound :=
      fun es rs es' rs' => isSound_congr (by simp) (by simp)
    have first : ∀ es rs, ((b.adjust step).extend es rs).IsSound ↔ (b.extend es rs).IsSound :=
      fun es rs => isSound_congr (by simp) (by simp)
    rw [List.foldlM_cons]
    constructor
    · intro h
      obtain ⟨b₁, h₁, h⟩ := Outcome.bind_eq_ok.mp h
      obtain ⟨es, rs, adds, hs, rfl⟩ := (perform_eq_ok sound).mp h₁
      obtain ⟨es', rs', adds', hs', rfl⟩ := (ih ((first es rs).mpr hs)).mp h
      simp only [transport_extend, timeout_extend, transport_adjust, timeout_adjust] at adds'
      refine ⟨_, _, .cons adds adds', (after ..).mp hs', ?_⟩
      rw [foldl_adjust_extend, extend_extend, List.foldl_cons]
    · rintro ⟨_, _, adds, hs, rfl⟩
      cases adds with
      | @cons _ _ _ _ es es' rs rs' adds adds' =>
        have hs := (after ..).mpr hs
        have hs₁ := isSound_of_extend hs
        refine Outcome.bind_eq_ok.mpr
          ⟨_, (perform_eq_ok sound).mpr ⟨es, rs, adds, (first ..).mp hs₁, rfl⟩, ?_⟩
        refine (ih hs₁).mpr ⟨es', rs', by simpa using adds', hs, ?_⟩
        rw [foldl_adjust_extend, extend_extend, List.foldl_cons]

theorem transport_foldl_adjust (b : Builder) (steps : List Step) :
    (steps.foldl adjust b).transport = transportAfter b.transport steps :=
  (List.foldl_hom Builder.transport fun b step => (transport_adjust b step).symm).symm

theorem timeout_foldl_adjust (b : Builder) (steps : List Step) :
    (steps.foldl adjust b).timeout = timeoutAfter b.timeout steps :=
  (List.foldl_hom Builder.timeout fun b step => (timeout_adjust b step).symm).symm

theorem entryPoints_foldl_adjust (b : Builder) (steps : List Step) :
    (steps.foldl adjust b).entryPoints = b.entryPoints := by
  induction steps generalizing b with
  | nil => rfl
  | cons step rest ih => simp [ih]

theorem relations_foldl_adjust (b : Builder) (steps : List Step) :
    (steps.foldl adjust b).relations = b.relations := by
  induction steps generalizing b with
  | nil => rfl
  | cons step rest ih => simp [ih]

/-! ## Refusals -/

end Builder

theorem Outcome.foldlM_error {Q : Failure → Prop} {f : β → α → Outcome β} {xs : List α} {b : β}
    {e : Failure} (h : xs.foldlM f b = .error e) (step : ∀ b a e, f b a = .error e → Q e) :
    Q e := by
  induction xs generalizing b with
  | nil => cases h
  | cons x rest ih =>
    rw [List.foldlM_cons] at h
    rcases Outcome.bind_eq_error.mp h with h | ⟨b', _, h⟩
    · exact step b x e h
    · exact ih h

/-- A failure of setting up a gateway. -/
def Failure.IsConfig (e : Failure) : Prop := ∃ cause, e = .config cause

namespace Builder

variable {b b' : Builder} {e : Failure}

theorem isConfig_transportFor {explicit : Option Transport} {user : String}
    (h : b.transportFor explicit user = .error e) : e.IsConfig := by
  unfold transportFor at h
  split at h
  · cases h
  · cases h
    exact ⟨_, rfl⟩

theorem isConfig_addEntryPoint {x : EntryPoint} (h : b.addEntryPoint x = .error e) :
    e.IsConfig := by
  unfold addEntryPoint at h
  split at h
  · cases h
    exact ⟨_, rfl⟩
  · cases h

theorem isConfig_registerService {s : Service} {options : ServiceOptions}
    (h : b.registerService s options = .error e) : e.IsConfig := by
  rcases Outcome.bind_eq_error.mp h with h | ⟨t, _, h⟩
  · exact isConfig_transportFor h
  · dsimp only at h
    split at h
    · cases h
      exact ⟨_, rfl⟩
    · exact Outcome.foldlM_error h fun _ _ _ => isConfig_addEntryPoint

theorem isConfig_addRelation {r : Relation} (h : b.addRelation r = .error e) : e.IsConfig := by
  unfold addRelation at h
  split at h
  · cases h
    exact ⟨_, rfl⟩
  · split at h
    · cases h
      exact ⟨_, rfl⟩
    · cases h

theorem isConfig_orMisconfigured {cause : Misconfigured} {o : Option α}
    (h : RelationShape.orMisconfigured cause o = .error e) : e.IsConfig := by
  cases o with
  | none =>
    cases h
    exact ⟨cause, rfl⟩
  | some x => cases h

theorem isConfig_ofMethod {m : Method} {name : String} {resolver : Resolver}
    (h : Relation.ofMethod m name resolver = .error e) : e.IsConfig := by
  rcases Outcome.bind_eq_error.mp h with h | ⟨shape, _, h⟩
  · unfold RelationShape.ofMethod at h
    dsimp only at h
    split at h
    · cases h
      exact ⟨_, rfl⟩
    rcases Outcome.bind_eq_error.mp h with h | ⟨bases, _, h⟩
    · exact isConfig_orMisconfigured h
    rcases Outcome.bind_eq_error.mp h with h | ⟨base, _, h⟩
    · exact isConfig_orMisconfigured h
    rcases Outcome.bind_eq_error.mp h with h | ⟨values, _, h⟩
    · exact isConfig_orMisconfigured h
    rcases Outcome.bind_eq_error.mp h with h | ⟨result, _, h⟩
    · exact isConfig_orMisconfigured h
    rcases Outcome.bind_eq_error.mp h with h | ⟨field, _, h⟩
    · exact isConfig_orMisconfigured h
    · cases h
  · cases h

theorem isConfig_registerRelation {s : Service} {method : String} {options : RelationOptions}
    (h : b.registerRelation s method options = .error e) : e.IsConfig := by
  unfold registerRelation at h
  split at h
  · cases h
    exact ⟨_, rfl⟩
  · rcases Outcome.bind_eq_error.mp h with h | ⟨t, _, h⟩
    · exact isConfig_transportFor h
    rcases Outcome.bind_eq_error.mp h with h | ⟨r, _, h⟩
    · exact isConfig_ofMethod h
    · exact isConfig_addRelation h

/-- A step is refused with a failure of configuration. -/
theorem isConfig_perform {step : Step} (h : b.perform step = .error e) : e.IsConfig := by
  cases step with
  | transport => cases h
  | timeout => cases h
  | policy => cases h
  | metrics => cases h
  | service => exact isConfig_registerService h
  | relations => exact Outcome.foldlM_error h fun _ _ _ => isConfig_registerRelation
  | relation =>
    rcases Outcome.bind_eq_error.mp h with h | ⟨r, _, h⟩
    · exact isConfig_ofMethod h
    · exact isConfig_addRelation h

end Builder
end Patchwork
