import Mathlib.Data.List.Pairwise
import Patchwork.Proofs.Steps

/-!
# What steps register

The registry holds what the registrations among the steps add, each with the transport and the
timeout in force before it. What they add does not depend on their order, so neither does whether
they are all accepted.
-/

namespace Patchwork
open Proto

/-! ## Where methods and relations come from -/

/-- The entry point that a method of a service is registered as, with what is in force. -/
structure EntryPoint.IsFor (e : EntryPoint) (s : Service) (options : ServiceOptions)
    (transport : Option Transport) (timeout : Option Nat) : Prop where
  method : e.method ∈ s.methods
  selected : ∀ names, options.methods = some names → e.method.name ∈ names
  single : e.method.info.clientStreaming = false
  transport : (options.transport <|> transport) = some e.transport
  timeout : e.timeout = (options.timeout <|> timeout)

/-- A method that clients can call was registered by a step, with what was in force before it. -/
structure EntryPoint.ComesFrom (e : EntryPoint) (transport : Option Transport)
    (timeout : Option Nat) (steps : List Builder.Step) (i : Nat) (s : Service)
    (options : ServiceOptions) : Prop where
  step : steps[i]? = some (.service s options)
  isFor : e.IsFor s options (transportAfter transport (steps.take i))
    (timeoutAfter timeout (steps.take i))

theorem mem_servedMethods {s : Service} {names : Option (List String)} {m : Method} :
    m ∈ Builder.servedMethods s names ↔
      m ∈ s.methods ∧ (∀ ns, names = some ns → m.name ∈ ns) ∧ m.info.clientStreaming = false := by
  cases names <;> simp [Builder.servedMethods]

/-- A service step adds the entry points of the methods that it selects. -/
theorem Builder.Step.Adds.mem_service {transport : Option Transport} {timeout : Option Nat}
    {s : Service} {options : ServiceOptions} {es : List EntryPoint} {rs : List Relation}
    {e : EntryPoint} (adds : (Step.service s options).Adds transport timeout es rs) :
    e ∈ es ↔ e.IsFor s options transport timeout := by
  cases adds with
  | @service _ _ t reached known =>
    constructor
    · intro he
      obtain ⟨m, hm, rfl⟩ := List.mem_map.mp he
      obtain ⟨method, selected, single⟩ := mem_servedMethods.mp hm
      exact ⟨method, selected, single, reached, rfl⟩
    · rintro ⟨method, selected, single, ht, hs⟩
      rw [reached] at ht
      refine List.mem_map.mpr ⟨e.method, mem_servedMethods.mpr ⟨method, selected, single⟩, ?_⟩
      rw [Option.some.inj ht, ← hs]

/-- Other steps add no methods. -/
theorem Builder.Step.Adds.service_of_mem {transport : Option Transport} {timeout : Option Nat}
    {step : Step} {es : List EntryPoint} {rs : List Relation} {e : EntryPoint}
    (adds : step.Adds transport timeout es rs) (he : e ∈ es) :
    ∃ s options, step = .service s options := by
  cases adds with
  | service => exact ⟨_, _, rfl⟩
  | transport => simp at he
  | timeout => simp at he
  | policy => simp at he
  | metrics => simp at he
  | relations => simp at he
  | relation => simp at he

namespace EntryPoint.ComesFrom

variable {e e' : EntryPoint} {transport : Option Transport} {timeout : Option Nat}
  {step : Builder.Step} {steps : List Builder.Step} {i j : Nat} {s s' : Service}
  {options options' : ServiceOptions} {es : List EntryPoint} {rs : List Relation}

theorem cons_zero : e.ComesFrom transport timeout (step :: steps) 0 s options ↔
    step = .service s options ∧ e.IsFor s options transport timeout := by
  constructor
  · rintro ⟨hs, isFor⟩
    exact ⟨by simpa using hs, isFor⟩
  · rintro ⟨rfl, isFor⟩
    exact ⟨rfl, isFor⟩

theorem cons_succ : e.ComesFrom transport timeout (step :: steps) (i + 1) s options ↔
    e.ComesFrom (step.transport? <|> transport) (step.timeout? <|> timeout) steps i s options := by
  constructor <;> rintro ⟨hs, isFor⟩ <;> exact ⟨hs, isFor⟩

/-- The entry points that steps add are those that come from one of them. -/
theorem exists_iff_mem (adds : Builder.AddsAll transport timeout steps es rs) :
    (∃ i s options, e.ComesFrom transport timeout steps i s options) ↔ e ∈ es := by
  induction adds with
  | nil =>
    constructor
    · rintro ⟨i, s, options, hs, _⟩
      simp at hs
    · simp
  | cons first rest ih =>
    rw [List.mem_append, ← ih]
    constructor
    · rintro ⟨i, s, options, h⟩
      cases i with
      | zero =>
        obtain ⟨rfl, isFor⟩ := cons_zero.mp h
        exact .inl (first.mem_service.mpr isFor)
      | succ i => exact .inr ⟨i, s, options, cons_succ.mp h⟩
    · rintro (he | ⟨i, s, options, h⟩)
      · obtain ⟨s, options, rfl⟩ := first.service_of_mem he
        exact ⟨0, s, options, cons_zero.mpr ⟨rfl, first.mem_service.mp he⟩⟩
      · exact ⟨i + 1, s, options, cons_succ.mpr h⟩

/-- While keys differ, methods of one key come from one step and are one. -/
theorem unique (adds : Builder.AddsAll transport timeout steps es rs)
    (keys : (es.map (·.name)).Nodup) (h : e.ComesFrom transport timeout steps i s options)
    (h' : e'.ComesFrom transport timeout steps j s' options') (same : e.name = e'.name) :
    i = j ∧ e = e' := by
  induction adds generalizing i j with
  | nil =>
    have step := h.step
    simp at step
  | @cons transport timeout step steps es es' rs rs' first rest ih =>
    rw [List.map_append] at keys
    obtain ⟨here, later, apart⟩ := List.nodup_append.mp keys
    have now : ∀ {x s options},
        x.ComesFrom transport timeout (step :: steps) 0 s options → x ∈ es := by
      intro x s options hx
      obtain ⟨rfl, isFor⟩ := cons_zero.mp hx
      exact first.mem_service.mpr isFor
    have after : ∀ {x i s options},
        x.ComesFrom transport timeout (step :: steps) (i + 1) s options → x ∈ es' :=
      fun hx => (exists_iff_mem rest).mp ⟨_, _, _, cons_succ.mp hx⟩
    -- The keys of the first step are not among those of later steps: both come from one side.
    cases i with
    | zero =>
      cases j with
      | zero => exact ⟨rfl, List.inj_on_of_nodup_map here (now h) (now h') same⟩
      | succ j =>
        exact absurd same (apart _ (List.mem_map_of_mem (now h)) _ (List.mem_map_of_mem (after h')))
    | succ i =>
      cases j with
      | zero =>
        exact absurd same.symm
          (apart _ (List.mem_map_of_mem (now h')) _ (List.mem_map_of_mem (after h)))
      | succ j =>
        obtain ⟨rfl, he⟩ := ih later (cons_succ.mp h) (cons_succ.mp h')
        exact ⟨rfl, he⟩

end EntryPoint.ComesFrom

/-- A relation was registered by a step, with what was in force before it, or added by one as it
is. -/
inductive Relation.ComesFrom (r : Relation) (transport : Option Transport) (timeout : Option Nat)
    (steps : List Builder.Step) (i : Nat) : Prop
  | registered {s : Service} {methods : List (String × RelationOptions)}
      {x : String × RelationOptions} (step : steps[i]? = some (.relations s methods))
      (asked : x ∈ methods)
      (isFor : r.IsFor s (transportAfter transport (steps.take i))
        (timeoutAfter timeout (steps.take i)) x)
  | added (step : steps[i]? = some (.relation r.method r.name r.resolver))

namespace Relation.ComesFrom

variable {r : Relation} {transport : Option Transport} {timeout : Option Nat} {step : Builder.Step}
  {steps : List Builder.Step} {i : Nat} {es : List EntryPoint} {rs : List Relation}

theorem zero (adds : step.Adds transport timeout es rs) (hr : r ∈ rs) :
    r.ComesFrom transport timeout (step :: steps) 0 := by
  cases adds with
  | relations made =>
    obtain ⟨x, asked, isFor⟩ := forall₂_exists_left made hr
    exact .registered rfl asked isFor
  | relation r' =>
    obtain rfl := List.mem_singleton.mp hr
    exact .added rfl
  | _ => cases hr

theorem succ
    (h : r.ComesFrom (step.transport? <|> transport) (step.timeout? <|> timeout) steps i) :
    r.ComesFrom transport timeout (step :: steps) (i + 1) := by
  cases h with
  | registered hs asked isFor => exact .registered hs asked isFor
  | added hs => exact .added hs

/-- The relations that steps add each come from one of them. -/
theorem exists_of_mem (adds : Builder.AddsAll transport timeout steps es rs) (hr : r ∈ rs) :
    ∃ i, r.ComesFrom transport timeout steps i := by
  induction adds with
  | nil => cases hr
  | cons first rest ih =>
    rcases List.mem_append.mp hr with hr | hr
    · exact ⟨0, zero first hr⟩
    · obtain ⟨i, h⟩ := ih hr
      exact ⟨i + 1, h.succ⟩

end Relation.ComesFrom

/-! ## Refused registrations -/

theorem exists_forall₂ {R : α → β → Prop} {xs : List α} (h : ∀ x ∈ xs, ∃ y, R x y) :
    ∃ ys, List.Forall₂ R xs ys := by
  induction xs with
  | nil => exact ⟨[], .nil⟩
  | cons x rest ih =>
    obtain ⟨y, hy⟩ := h x (List.mem_cons_self ..)
    obtain ⟨ys, hys⟩ := ih fun x hx => h x (List.mem_cons_of_mem _ hx)
    exact ⟨y :: ys, .cons hy hys⟩

/-- There are relations for every method, of some shape: whether it is that of the method is a
matter of soundness. -/
theorem Relation.exists_for (m : Method) (name : String) (resolver : Resolver) :
    ∃ r : Relation, r.method = m ∧ r.name = name ∧ r.resolver = resolver :=
  have f : Field := ⟨"", "", 0, .scalar .bool, .single false, none, .bool false⟩
  ⟨⟨⟨m.input, f, f, f, none⟩, name, m, resolver⟩, rfl, rfl, rfl⟩

theorem Relation.exists_isFor {s : Service} {transport : Option Transport} {timeout : Option Nat}
    {x : String × RelationOptions} (known : s.method? x.1 ≠ none)
    (reached : (x.2.transport <|> transport) ≠ none) :
    ∃ r : Relation, r.IsFor s transport timeout x := by
  obtain ⟨m, hm⟩ := Option.ne_none_iff_exists'.mp known
  obtain ⟨t, ht⟩ := Option.ne_none_iff_exists'.mp reached
  obtain ⟨r, rfl, name, resolver⟩ := exists_for m x.2.name (.method t (x.2.timeout <|> timeout))
  exact ⟨r, hm, name, t, ht, resolver⟩

namespace Builder

/-- A step that asks for a method that its service lacks. -/
def Step.NamesMissing : Step → Prop
  | .service s options => ∃ n ∈ options.methods.getD [], s.method? n = none
  | .relations s methods => ∃ x ∈ methods, s.method? x.1 = none
  | _ => False

/-- A step that needs a transport while none is there. -/
def Step.LacksTransport (transport : Option Transport) : Step → Prop
  | .service _ options => (options.transport <|> transport) = none
  | .relations _ methods => ∃ x ∈ methods, (x.2.transport <|> transport) = none
  | _ => False

/-- A step that would leave an unsound registry. -/
def Spoils (b : Builder) (step : Step) : Prop :=
  ∃ es rs, step.Adds b.transport b.timeout es rs ∧
    ∀ es rs, step.Adds b.transport b.timeout es rs → ¬(b.extend es rs).IsSound

/-- A step adds something, perhaps what would be unsound, if methods and transport are there. -/
theorem Step.exists_adds {transport : Option Transport} {timeout : Option Nat} {step : Step} :
    (∃ es rs, step.Adds transport timeout es rs) ↔
      ¬step.NamesMissing ∧ ¬step.LacksTransport transport := by
  cases step with
  | transport t => exact ⟨fun _ => ⟨id, id⟩, fun _ => ⟨_, _, .transport t⟩⟩
  | timeout span => exact ⟨fun _ => ⟨id, id⟩, fun _ => ⟨_, _, .timeout span⟩⟩
  | policy p => exact ⟨fun _ => ⟨id, id⟩, fun _ => ⟨_, _, .policy p⟩⟩
  | metrics => exact ⟨fun _ => ⟨id, id⟩, fun _ => ⟨_, _, .metrics⟩⟩
  | service s options =>
    constructor
    · rintro ⟨es, rs, adds⟩
      cases adds with
      | service reached known =>
        refine ⟨?_, by simp [LacksTransport, reached]⟩
        rintro ⟨n, hn, missing⟩
        exact absurd missing (Option.isSome_iff_ne_none.mp (known n hn))
    · rintro ⟨named, reached⟩
      obtain ⟨t, ht⟩ := Option.ne_none_iff_exists'.mp reached
      have known : ∀ n ∈ options.methods.getD [], (s.method? n).isSome := fun n hn =>
        Option.isSome_iff_ne_none.mpr fun missing => named ⟨n, hn, missing⟩
      exact ⟨_, _, .service ht known⟩
  | relations s methods =>
    constructor
    · rintro ⟨es, rs, adds⟩
      cases adds with
      | relations made =>
        constructor
        · rintro ⟨x, hx, missing⟩
          obtain ⟨r, _, isFor⟩ := forall₂_exists_right made hx
          rw [isFor.method] at missing
          cases missing
        · rintro ⟨x, hx, missing⟩
          obtain ⟨r, _, isFor⟩ := forall₂_exists_right made hx
          obtain ⟨t, ht, _⟩ := isFor.resolver
          rw [ht] at missing
          cases missing
    · rintro ⟨named, reached⟩
      have made : ∀ x ∈ methods, ∃ r : Relation, r.IsFor s transport timeout x := fun x hx =>
        Relation.exists_isFor (fun missing => named ⟨x, hx, missing⟩) fun missing => reached ⟨x, hx, missing⟩
      obtain ⟨rs, hrs⟩ := exists_forall₂ made
      exact ⟨[], rs, .relations hrs⟩
  | relation m name resolver =>
    obtain ⟨r, rfl, rfl, rfl⟩ := Relation.exists_for m name resolver
    exact ⟨fun _ => ⟨id, id⟩, fun _ => ⟨[], [r], .relation r⟩⟩

/-- A step is refused exactly when a method or the transport is missing or the registry would not
stay sound. -/
theorem perform_eq_error {b : Builder} {step : Step} (sound : b.IsSound) :
    (∃ e, b.perform step = .error e) ↔
      step.NamesMissing ∨ step.LacksTransport b.transport ∨ b.Spoils step := by
  have accepted : (∃ b', b.perform step = .ok b') ↔ ∃ es rs, step.Adds b.transport b.timeout es rs ∧
      (b.extend es rs).IsSound := by
    constructor
    · rintro ⟨b', h⟩
      obtain ⟨es, rs, adds, hs, _⟩ := (perform_eq_ok sound).mp h
      exact ⟨es, rs, adds, hs⟩
    · rintro ⟨es, rs, adds, hs⟩
      exact ⟨_, (perform_eq_ok sound).mpr ⟨es, rs, adds, hs, rfl⟩⟩
  have refused : (∃ e, b.perform step = .error e) ↔ ¬∃ b', b.perform step = .ok b' := by
    cases b.perform step <;> simp
  rw [refused, accepted, ← or_assoc]
  constructor
  · intro h
    by_cases some : ∃ es rs, step.Adds b.transport b.timeout es rs
    · obtain ⟨es, rs, adds⟩ := some
      exact .inr ⟨es, rs, adds, fun es rs adds hs => h ⟨es, rs, adds, hs⟩⟩
    · rw [Step.exists_adds, not_and_or, not_not, not_not] at some
      exact .inl some
  · rintro (missing | ⟨_, _, _, spoils⟩) ⟨es, rs, adds, hs⟩
    · obtain ⟨named, reached⟩ := Step.exists_adds.mp ⟨es, rs, adds⟩
      exact missing.elim named reached
    · exact spoils es rs adds hs

end Builder

/-! ## The order of registrations -/

/-- Options with what is in force written into them. -/
def ServiceOptions.within (options : ServiceOptions) (transport : Option Transport)
    (timeout : Option Nat) : ServiceOptions :=
  { options with
    transport := options.transport <|> transport, timeout := options.timeout <|> timeout }

@[inherit_doc ServiceOptions.within]
def RelationOptions.within (options : RelationOptions) (transport : Option Transport)
    (timeout : Option Nat) : RelationOptions :=
  { options with
    transport := options.transport <|> transport, timeout := options.timeout <|> timeout }

theorem Relation.isFor_within {r : Relation} {s : Service} {method : String}
    {options : RelationOptions} {transport : Option Transport} {timeout : Option Nat} :
    r.IsFor s none none (method, options.within transport timeout) ↔
      r.IsFor s transport timeout (method, options) := by
  constructor <;> rintro ⟨method, name, t, ht, hr⟩ <;>
    exact ⟨method, name, t, by simpa [RelationOptions.within] using ht,
      by simpa [RelationOptions.within] using hr⟩

namespace Builder

theorem Step.adds_service {s : Service} {options : ServiceOptions} {transport : Option Transport}
    {timeout : Option Nat} {es : List EntryPoint} {rs : List Relation} :
    (Step.service s options).Adds transport timeout es rs ↔
      ∃ t, (options.transport <|> transport) = some t ∧
        (∀ n ∈ options.methods.getD [], (s.method? n).isSome) ∧
        es = (servedMethods s options.methods).map (⟨·, t, options.timeout <|> timeout⟩) ∧
        rs = [] := by
  constructor
  · intro h
    cases h with
    | service reached known => exact ⟨_, reached, known, rfl, rfl⟩
  · rintro ⟨t, reached, known, rfl, rfl⟩
    exact .service reached known

theorem Step.adds_relations {s : Service} {methods : List (String × RelationOptions)}
    {transport : Option Transport} {timeout : Option Nat} {es : List EntryPoint}
    {rs : List Relation} :
    (Step.relations s methods).Adds transport timeout es rs ↔
      es = [] ∧ List.Forall₂ (fun x r => r.IsFor s transport timeout x) methods rs := by
  constructor
  · intro h
    cases h with
    | relations made => exact ⟨rfl, made⟩
  · rintro ⟨rfl, made⟩
    exact .relations made

/-- The registrations that a step makes, one for each relation, with what is in force written into
them. -/
def Step.registrations (transport : Option Transport) (timeout : Option Nat) : Step → List Step
  | .service s options => [.service s (options.within transport timeout)]
  | .relations s methods =>
    methods.map fun x => .relations s [(x.1, x.2.within transport timeout)]
  | .relation m name resolver => [.relation m name resolver]
  | _ => []

/-- The registrations among steps, each with what is in force before it. -/
def registrations (transport : Option Transport) (timeout : Option Nat) : List Step → List Step
  | [] => []
  | step :: steps => step.registrations transport timeout ++
      registrations (step.transport? <|> transport) (step.timeout? <|> timeout) steps

@[simp] theorem registrations_append (transport : Option Transport) (timeout : Option Nat)
    (left right : List Step) : registrations transport timeout (left ++ right) =
      registrations transport timeout left ++
        registrations (transportAfter transport left) (timeoutAfter timeout left) right := by
  induction left generalizing transport timeout with
  | nil => rfl
  | cons step rest ih =>
    rw [List.cons_append, registrations, registrations, ih, List.append_assoc]
    rfl

/-- A step that sets nothing for the steps after it. -/
def Step.IsSilent (step : Step) : Prop := step.transport? = none ∧ step.timeout? = none

theorem Step.isSilent_registrations {transport : Option Transport} {timeout : Option Nat}
    {step x : Step} (h : x ∈ step.registrations transport timeout) : x.IsSilent := by
  cases step with
  | service s options =>
    rw [List.mem_singleton.mp h]
    exact ⟨rfl, rfl⟩
  | relations s methods =>
    obtain ⟨_, _, rfl⟩ := List.mem_map.mp h
    exact ⟨rfl, rfl⟩
  | relation m name resolver =>
    rw [List.mem_singleton.mp h]
    exact ⟨rfl, rfl⟩
  | _ => cases h

theorem isSilent_registrations {transport : Option Transport} {timeout : Option Nat}
    {steps : List Step} {x : Step} (h : x ∈ registrations transport timeout steps) :
    x.IsSilent := by
  induction steps generalizing transport timeout with
  | nil => cases h
  | cons step rest ih => exact (List.mem_append.mp h).elim Step.isSilent_registrations ih

theorem transportAfter_of_isSilent {transport : Option Transport} {steps : List Step}
    (silent : ∀ x ∈ steps, x.IsSilent) : transportAfter transport steps = transport := by
  induction steps with
  | nil => rfl
  | cons step rest ih =>
    obtain ⟨first, rest⟩ := List.forall_mem_cons.mp silent
    simpa [transportAfter, first.1] using ih rest

theorem timeoutAfter_of_isSilent {timeout : Option Nat} {steps : List Step}
    (silent : ∀ x ∈ steps, x.IsSilent) : timeoutAfter timeout steps = timeout := by
  induction steps with
  | nil => rfl
  | cons step rest ih =>
    obtain ⟨first, rest⟩ := List.forall_mem_cons.mp silent
    simpa [timeoutAfter, first.2] using ih rest

theorem registrations_of_isSilent {transport : Option Transport} {timeout : Option Nat}
    {steps : List Step} (silent : ∀ x ∈ steps, x.IsSilent) :
    registrations transport timeout steps = steps.flatMap (·.registrations transport timeout) := by
  induction steps with
  | nil => rfl
  | cons step rest ih =>
    obtain ⟨first, rest⟩ := List.forall_mem_cons.mp silent
    simp [registrations, first.1, first.2, ih rest]

/-- Steps next to one another that set nothing can change places: the registrations stay the
same. -/
theorem registrations_perm {transport : Option Transport} {timeout : Option Nat}
    {before steps steps' after : List Step} (silent : ∀ x ∈ steps, x.IsSilent)
    (perm : steps.Perm steps') :
    (registrations transport timeout (before ++ steps ++ after)).Perm
      (registrations transport timeout (before ++ steps' ++ after)) := by
  have silent' : ∀ x ∈ steps', x.IsSilent := fun x hx => silent x (perm.mem_iff.mpr hx)
  have transports : ∀ t,
      transportAfter t (before ++ steps) = transportAfter t (before ++ steps') := by
    intro t
    simp only [transportAfter, List.foldl_append]
    exact (transportAfter_of_isSilent silent).trans (transportAfter_of_isSilent silent').symm
  have timeouts : ∀ t, timeoutAfter t (before ++ steps) = timeoutAfter t (before ++ steps') := by
    intro t
    simp only [timeoutAfter, List.foldl_append]
    exact (timeoutAfter_of_isSilent silent).trans (timeoutAfter_of_isSilent silent').symm
  rw [registrations_append, registrations_append _ _ (before ++ steps'), transports, timeouts]
  refine List.Perm.append_right _ ?_
  rw [registrations_append, registrations_append, registrations_of_isSilent silent,
    registrations_of_isSilent silent']
  exact (perm.flatMap_right _).append_left _

theorem addsAll_append {transport : Option Transport} {timeout : Option Nat}
    {left right : List Step} {es : List EntryPoint} {rs : List Relation} :
    AddsAll transport timeout (left ++ right) es rs ↔ ∃ es₁ rs₁ es₂ rs₂,
      AddsAll transport timeout left es₁ rs₁ ∧
      AddsAll (transportAfter transport left) (timeoutAfter timeout left) right es₂ rs₂ ∧
      es = es₁ ++ es₂ ∧ rs = rs₁ ++ rs₂ := by
  induction left generalizing transport timeout es rs with
  | nil =>
    constructor
    · exact fun h => ⟨[], [], es, rs, .nil .., h, rfl, rfl⟩
    · rintro ⟨_, _, _, _, none, h, rfl, rfl⟩
      cases none
      exact h
  | cons step rest ih =>
    constructor
    · intro h
      cases h with
      | cons first h =>
        obtain ⟨_, _, _, _, h₁, h₂, rfl, rfl⟩ := ih.mp h
        exact ⟨_, _, _, _, .cons first h₁, h₂, by simp, by simp⟩
    · rintro ⟨_, _, _, _, h₁, h₂, rfl, rfl⟩
      cases h₁ with
      | cons first h₁ =>
        rw [List.append_assoc, List.append_assoc]
        exact .cons first (ih.mpr ⟨_, _, _, _, h₁, h₂, rfl, rfl⟩)

theorem addsAll_singleton {transport : Option Transport} {timeout : Option Nat} {step : Step}
    {es : List EntryPoint} {rs : List Relation} :
    AddsAll transport timeout [step] es rs ↔ step.Adds transport timeout es rs := by
  constructor
  · intro h
    cases h with
    | cons first rest =>
      cases rest
      simpa using first
  · intro h
    simpa using AddsAll.cons h (.nil ..)

theorem addsAll_nil {transport : Option Transport} {timeout : Option Nat} {es : List EntryPoint}
    {rs : List Relation} : AddsAll transport timeout [] es rs ↔ es = [] ∧ rs = [] := by
  constructor
  · intro h
    cases h
    simp
  · rintro ⟨rfl, rfl⟩
    exact .nil ..

/-- Registering relations together or one by one makes no difference. -/
theorem addsAll_relations {transport : Option Transport} {timeout : Option Nat} {s : Service}
    {methods : List (String × RelationOptions)} {es : List EntryPoint} {rs : List Relation} :
    AddsAll none none ((Step.relations s methods).registrations transport timeout) es rs ↔
      (Step.relations s methods).Adds transport timeout es rs := by
  induction methods generalizing es rs with
  | nil =>
    refine addsAll_nil.trans (Step.adds_relations.trans ?_).symm
    simp
  | cons x rest ih =>
    constructor
    · intro h
      cases h with
      | cons first later =>
        obtain ⟨rfl, made⟩ := Step.adds_relations.mp first
        obtain ⟨rfl, others⟩ := Step.adds_relations.mp (ih.mp later)
        cases made with
        | cons isFor none =>
          cases none
          exact .relations (.cons (Relation.isFor_within.mp isFor) others)
    · intro h
      obtain ⟨rfl, made⟩ := Step.adds_relations.mp h
      cases made with
      | cons isFor others =>
        have first := Step.Adds.relations (.cons (Relation.isFor_within.mpr isFor) .nil)
        exact .cons first (ih.mpr (.relations others))

/-- A step adds what its registrations add. -/
theorem addsAll_step {transport : Option Transport} {timeout : Option Nat} {step : Step}
    {es : List EntryPoint} {rs : List Relation} :
    AddsAll none none (step.registrations transport timeout) es rs ↔
      step.Adds transport timeout es rs := by
  have nothing : step.Adds transport timeout [] [] →
      (step.Adds transport timeout es rs → es = [] ∧ rs = []) →
      (AddsAll none none [] es rs ↔ step.Adds transport timeout es rs) := by
    intro adds only
    refine addsAll_nil.trans ⟨?_, only⟩
    rintro ⟨rfl, rfl⟩
    exact adds
  cases step with
  | transport t => exact nothing (.transport t) fun adds => by cases adds; simp
  | timeout span => exact nothing (.timeout span) fun adds => by cases adds; simp
  | policy p => exact nothing (.policy p) fun adds => by cases adds; simp
  | metrics => exact nothing .metrics fun adds => by cases adds; simp
  | service s options =>
    refine addsAll_singleton.trans (Step.adds_service.trans (Iff.trans ?_ Step.adds_service.symm))
    simp [ServiceOptions.within]
  | relations s methods => exact addsAll_relations
  | relation m name resolver =>
    refine addsAll_singleton.trans ⟨?_, ?_⟩
    · intro h
      cases h with
      | relation r => exact .relation r
    · intro h
      cases h with
      | relation r => exact .relation r

/-- Steps add what their registrations add. -/
theorem addsAll_registrations {transport : Option Transport} {timeout : Option Nat}
    {steps : List Step} {es : List EntryPoint} {rs : List Relation} :
    AddsAll none none (registrations transport timeout steps) es rs ↔
      AddsAll transport timeout steps es rs := by
  induction steps generalizing transport timeout es rs with
  | nil => exact addsAll_nil.trans addsAll_nil.symm
  | cons step rest ih =>
    have silent : ∀ x ∈ step.registrations transport timeout, x.IsSilent :=
      fun x hx => Step.isSilent_registrations hx
    unfold registrations
    rw [addsAll_append, transportAfter_of_isSilent silent, timeoutAfter_of_isSilent silent]
    constructor
    · rintro ⟨_, _, _, _, first, later, rfl, rfl⟩
      exact .cons (addsAll_step.mp first) (ih.mp later)
    · intro h
      cases h with
      | cons first later => exact ⟨_, _, _, _, addsAll_step.mpr first, ih.mpr later, rfl, rfl⟩

theorem addsAll_cons {transport : Option Transport} {timeout : Option Nat} {step : Step}
    {steps : List Step} {es : List EntryPoint} {rs : List Relation} (silent : step.IsSilent) :
    AddsAll transport timeout (step :: steps) es rs ↔ ∃ es₁ rs₁ es₂ rs₂,
      step.Adds transport timeout es₁ rs₁ ∧ AddsAll transport timeout steps es₂ rs₂ ∧
      es = es₁ ++ es₂ ∧ rs = rs₁ ++ rs₂ := by
  have silent : ∀ x ∈ [step], x.IsSilent := by simpa using silent
  rw [← List.singleton_append, addsAll_append, transportAfter_of_isSilent silent,
    timeoutAfter_of_isSilent silent]
  simp only [addsAll_singleton]

/-- In another order, registrations add the same in another order. -/
theorem AddsAll.perm {steps steps' : List Step} {es : List EntryPoint} {rs : List Relation}
    (h : AddsAll none none steps es rs) (perm : steps.Perm steps')
    (silent : ∀ x ∈ steps, x.IsSilent) :
    ∃ es' rs', AddsAll none none steps' es' rs' ∧ es.Perm es' ∧ rs.Perm rs' := by
  induction perm generalizing es rs with
  | nil => exact ⟨es, rs, h, .refl _, .refl _⟩
  | cons x _ ih =>
    obtain ⟨hx, silent⟩ := List.forall_mem_cons.mp silent
    obtain ⟨es₁, rs₁, _, _, first, later, rfl, rfl⟩ := (addsAll_cons hx).mp h
    obtain ⟨es', rs', later, he, hr⟩ := ih later silent
    exact ⟨es₁ ++ es', rs₁ ++ rs', (addsAll_cons hx).mpr ⟨_, _, _, _, first, later, rfl, rfl⟩,
      he.append_left _, hr.append_left _⟩
  | swap x y rest =>
    obtain ⟨hy, silent⟩ := List.forall_mem_cons.mp silent
    obtain ⟨hx, silent⟩ := List.forall_mem_cons.mp silent
    obtain ⟨es₁, rs₁, _, _, first, after, rfl, rfl⟩ := (addsAll_cons hy).mp h
    obtain ⟨es₂, rs₂, es₃, rs₃, second, later, rfl, rfl⟩ := (addsAll_cons hx).mp after
    have behind := (addsAll_cons hy).mpr ⟨_, _, _, _, first, later, rfl, rfl⟩
    exact ⟨es₂ ++ (es₁ ++ es₃), rs₂ ++ (rs₁ ++ rs₃),
      (addsAll_cons hx).mpr ⟨_, _, _, _, second, behind, rfl, rfl⟩,
      List.perm_append_comm_assoc .., List.perm_append_comm_assoc ..⟩
  | trans left _ ih ih' =>
    obtain ⟨_, _, h, he, hr⟩ := ih h silent
    obtain ⟨_, _, h, he', hr'⟩ := ih' h fun x hx => silent x (left.mem_iff.mpr hx)
    exact ⟨_, _, h, he.trans he', hr.trans hr'⟩

end Builder

/-! ## Registries that hold the same -/

theorem find?_eq_some_of_unique {p : α → Bool} {xs : List α}
    (unique : ∀ x ∈ xs, ∀ y ∈ xs, p x → p y → x = y) {x : α} :
    xs.find? p = some x ↔ x ∈ xs ∧ p x := by
  constructor
  · exact fun h => ⟨List.mem_of_find?_eq_some h, List.find?_some h⟩
  · rintro ⟨hx, hp⟩
    obtain ⟨y, hy⟩ := Option.isSome_iff_exists.mp (List.find?_isSome.mpr ⟨x, hx, hp⟩)
    rw [hy, unique y (List.mem_of_find?_eq_some hy) x hx (List.find?_some hy) hp]

namespace Gateway

variable {g g' : Gateway}

theorem IsSound.perm (h : g.IsSound) (es : g.entryPoints.Perm g'.entryPoints)
    (rs : g.relations.Perm g'.relations) : g'.IsSound where
  keys := (es.map _).nodup_iff.mp h.keys
  fits r hr := h.fits r (rs.mem_iff.mpr hr)
  free r hr := h.free r (rs.mem_iff.mpr hr)
  apart := (rs.pairwise_iff fun hn h => hn ⟨h.1.symm, h.2.symm⟩).mp h.apart

/-- A method is found by its key. -/
theorem IsSound.entryPoint?_eq_some (h : g.IsSound) {key : String} {e : EntryPoint} :
    g.entryPoint? key = some e ↔ e ∈ g.entryPoints ∧ e.name = key := by
  refine (find?_eq_some_of_unique ?_).trans (by simp)
  intro x hx y hy px py
  exact List.inj_on_of_nodup_map h.keys hx hy ((beq_iff_eq.mp px).trans (beq_iff_eq.mp py).symm)

/-- A relation is found by its base and its name. -/
theorem IsSound.relation?_eq_some (h : g.IsSound) {base name : String} {r : Relation} :
    g.relation? base name = some r ↔ r ∈ g.relations ∧ r.base.name = base ∧ r.name = name := by
  unfold relation? relationsOf
  refine (find?_eq_some_of_unique ?_).trans (by simp [and_assoc])
  intro x hx y hy px py
  obtain ⟨hx, bx⟩ := List.mem_filter.mp hx
  obtain ⟨hy, b_y⟩ := List.mem_filter.mp hy
  by_contra differ
  have symm : Std.Symm fun r s : Relation => ¬(r.base.name = s.base.name ∧ r.name = s.name) :=
    ⟨fun _ _ hn h => hn ⟨h.1.symm, h.2.symm⟩⟩
  have apart := h.apart.forall hx hy differ
  exact apart ⟨(beq_iff_eq.mp bx).trans (beq_iff_eq.mp b_y).symm,
    (beq_iff_eq.mp px).trans (beq_iff_eq.mp py).symm⟩

theorem IsSound.entryPoint?_perm (h : g.IsSound) (es : g.entryPoints.Perm g'.entryPoints)
    (rs : g.relations.Perm g'.relations) (key : String) :
    g'.entryPoint? key = g.entryPoint? key := by
  ext e
  rw [h.entryPoint?_eq_some, (h.perm es rs).entryPoint?_eq_some, es.mem_iff]

theorem IsSound.relation?_perm (h : g.IsSound) (es : g.entryPoints.Perm g'.entryPoints)
    (rs : g.relations.Perm g'.relations) (base name : String) :
    g'.relation? base name = g.relation? base name := by
  ext r
  rw [h.relation?_eq_some, (h.perm es rs).relation?_eq_some, rs.mem_iff]

end Gateway

/-! ## The registry after steps -/

/-- What steps leave in a registry. -/
structure Gateway.Follows (g : Gateway) (steps : List Builder.Step) : Prop where
  /-- Methods and relations are there in the order of registration. -/
  adds : Builder.AddsAll none none steps g.entryPoints g.relations
  served : ∀ e : EntryPoint,
    e ∈ g.entryPoints ↔ ∃ i s options, e.ComesFrom none none steps i s options
  once : ∀ {e e' : EntryPoint} {i j : Nat} {s s' : Service} {options options' : ServiceOptions},
    e.ComesFrom none none steps i s options → e'.ComesFrom none none steps j s' options' →
      e.name = e'.name → i = j ∧ e = e'
  related : ∀ r ∈ g.relations, ∃ i, r.ComesFrom none none steps i
  sound : g.IsSound
  /-- Each relation is kept under its base. -/
  found : ∀ r ∈ g.relations, g.relation? r.base.name r.name = some r

namespace Builder

variable {b : Builder} {steps : List Step}

theorem follows_of_performAll (h : performAll {} steps = .ok b) : b.Follows steps := by
  obtain ⟨es, rs, adds, sound, rfl⟩ := (performAll_eq_ok isSound_start).mp h
  have adds : AddsAll none none steps ((steps.foldl adjust {}).extend es rs).entryPoints
      ((steps.foldl adjust {}).extend es rs).relations := by
    simpa [entryPoints_foldl_adjust, relations_foldl_adjust] using adds
  have sound : ((steps.foldl adjust {}).extend es rs).IsSound :=
    (isSound_congr (by simp [entryPoints_foldl_adjust]) (by simp [relations_foldl_adjust])).mp sound
  exact ⟨adds, fun e => (EntryPoint.ComesFrom.exists_iff_mem adds).symm,
    fun h h' same => EntryPoint.ComesFrom.unique adds sound.keys h h' same,
    fun r hr => Relation.ComesFrom.exists_of_mem adds hr, sound,
    fun r hr => sound.relation?_eq_some.mpr ⟨hr, rfl, rfl⟩⟩

/-- What is in force after steps is what the next registration falls back on. -/
theorem inForce_of_performAll (h : performAll {} steps = .ok b) :
    b.transport = transportAfter none steps ∧ b.timeout = timeoutAfter none steps := by
  obtain ⟨es, rs, _, _, rfl⟩ := (performAll_eq_ok isSound_start).mp h
  exact ⟨transport_foldl_adjust {} steps, timeout_foldl_adjust {} steps⟩

/-- Steps that make the same registrations in another order are taken, too, and leave a registry
with the same content. -/
theorem performAll_perm {steps' : List Step} (h : performAll {} steps = .ok b)
    (perm : (registrations none none steps).Perm (registrations none none steps')) :
    ∃ b', performAll {} steps' = .ok b' ∧ b.entryPoints.Perm b'.entryPoints ∧
      b.relations.Perm b'.relations := by
  obtain ⟨es, rs, adds, sound, rfl⟩ := (performAll_eq_ok isSound_start).mp h
  -- What is in force is written into registrations, so they do not need to keep their places.
  have adds := addsAll_registrations.mpr adds
  obtain ⟨es', rs', adds', he, hr⟩ := adds.perm perm fun _ => isSilent_registrations
  have adds' := addsAll_registrations.mp adds'
  have sound' : (({} : Builder).extend es' rs').IsSound :=
    sound.perm (by simpa using he) (by simpa using hr)
  refine ⟨_, (performAll_eq_ok isSound_start).mpr ⟨es', rs', adds', sound', rfl⟩, ?_, ?_⟩
  · simpa [entryPoints_foldl_adjust] using he
  · simpa [relations_foldl_adjust] using hr

end Builder

/-- After steps that were all taken, clients can call the methods that the service steps select,
each under its key, with the transport and the timeout of the one step that it comes from or else
those in force there. The registry is sound, and the next step is refused, with a failure of
configuration, exactly when it would not stay so or a method or the transport is missing. The same
registrations in another order are all taken, too, and everything is found as before. -/
theorem registry_follows_steps {b : Builder} {steps : List Builder.Step}
    (h : Builder.performAll {} steps = .ok b) :
    b.Follows steps ∧
    (b.transport = transportAfter none steps ∧ b.timeout = timeoutAfter none steps) ∧
    (∀ step, ((∃ e, b.perform step = .error e) ↔
      step.NamesMissing ∨ step.LacksTransport b.transport ∨ b.Spoils step) ∧
      ∀ e, b.perform step = .error e → e.IsConfig) ∧
    ∀ steps',
      (Builder.registrations none none steps).Perm (Builder.registrations none none steps') →
      ∃ b', Builder.performAll {} steps' = .ok b' ∧
        b.entryPoints.Perm b'.entryPoints ∧ b.relations.Perm b'.relations ∧
        (∀ key, b'.entryPoint? key = b.entryPoint? key) ∧
        ∀ base name, b'.relation? base name = b.relation? base name := by
  have follows := Builder.follows_of_performAll h
  refine ⟨follows, Builder.inForce_of_performAll h, ?_, ?_⟩
  · intro step
    exact ⟨Builder.perform_eq_error follows.sound, fun e => Builder.isConfig_perform⟩
  · intro steps' perm
    obtain ⟨b', h', es, rs⟩ := Builder.performAll_perm h perm
    exact ⟨b', h', es, rs, follows.sound.entryPoint?_perm es rs, follows.sound.relation?_perm es rs⟩

namespace Sample

/-- Items are registered with one timeout, what they are part of with another. -/
def setUp : List Builder.Step :=
  [.transport ⟨"http://items"⟩, .timeout 5, .service items { methods := some ["Get"] },
   .timeout 7, .relations items [("Parents", { name := "parent" })]]

/-- The same from back to front. -/
def setUpBackwards : List Builder.Step :=
  [.timeout 7, .transport ⟨"http://items"⟩, .relations items [("Parents", { name := "parent" })],
   .timeout 5, .service items { methods := some ["Get"] }]

def builder : Builder := (Builder.performAll {} setUp).toOption.getD {}

theorem setsUp : Builder.performAll {} setUp = .ok builder := Outcome.eq_ok_getD (by decide +kernel)

end Sample

/-- Items and their parents can be registered in either order. -/
theorem registry_of_items : Builder.performAll {} Sample.setUp = .ok Sample.builder ∧
    Sample.builder.Follows Sample.setUp ∧
    ∃ b, Builder.performAll {} Sample.setUpBackwards = .ok b ∧
      ∀ key, b.entryPoint? key = Sample.builder.entryPoint? key := by
  obtain ⟨follows, _, _, order⟩ := registry_follows_steps Sample.setsUp
  obtain ⟨b, hb, _, _, same, _⟩ := order Sample.setUpBackwards (List.Perm.swap ..)
  exact ⟨Sample.setsUp, follows, b, hb, same⟩

end Patchwork
