import Mathlib.Data.List.Forall2
import Patchwork.Proofs.Alone
import Patchwork.Proofs.Compiled
import Patchwork.Serve

/-!
# Validation comes first

What is wrong with a request is told without the functions that prepare it: the first thing that is
wrong, in the order method, kind, side effects, body, mask. A batch is refused for its first wrong
request, before anything is called.
-/

namespace Patchwork
open Proto

namespace Compile

/-- A step of compilation fails with an error. -/
def Fails (x : Compile α) (s : Compilation) (e : Failure) : Prop := ∃ s', x.run s = .error e s'

theorem not_fails_pure (a : α) (s : Compilation) (e : Failure) : ¬Fails (pure a) s e := by
  rintro ⟨s', h⟩
  cases h

theorem fails_throw {s : Compilation} {e e' : Failure} :
    Fails (throw e' : Compile α) s e ↔ e = e' := by
  constructor
  · rintro ⟨s', h⟩
    cases h
    rfl
  · rintro rfl
    exact ⟨s, rfl⟩

/-- The first failure counts. -/
theorem fails_bind {x : Compile α} {f : α → Compile β} {s : Compilation} {e : Failure} :
    Fails (x >>= f) s e ↔ Fails x s e ∨ ∃ a s', x.run s = .ok a s' ∧ Fails (f a) s' e := by
  unfold Fails
  rw [EStateM.run_bind]
  cases x.run s with
  | ok a s' => simp
  | error e' s' => simp

/-! ## What is wrong with a mask -/

/-- What is wrong with the params given for a field. -/
inductive BadParams (f : CatalogField) (path : String) : Option Json → Failure → Prop
  | missing {r : Relation} (relation : f.relation = some r) (takes : r.params.isSome) :
      BadParams f path none (.invalidArgument (.missingParams path))
  | unreadable {r : Relation} {json : Json} {cause : ParamsError} (relation : f.relation = some r)
      (takes : r.params.isSome) (error : r.readParams json = .error cause) :
      BadParams f path (some json) (.invalidArgument (.params path cause))

mutual
/-- The first thing that is wrong with a mask, from a state of compilation on. -/
inductive Offends : Place → CatalogType → List MaskField → Compilation → Failure → Prop
  | here {place : Place} {c : CatalogType} {m : MaskField} {rest : List MaskField} {s : Compilation}
      {e : Failure} (one : OffendsOne place c m s e) : Offends place c (m :: rest) s e
  | later {place : Place} {c : CatalogType} {m : MaskField} {rest : List MaskField} {x : Selected}
      {s s' : Compilation} {e : Failure} (one : (selectOne place c m).run s = .ok x s')
      (others : Offends place c rest s' e) : Offends place c (m :: rest) s e

/-- The first thing that is wrong with one selection: its name, its params or its own mask. -/
inductive OffendsOne : Place → CatalogType → MaskField → Compilation → Failure → Prop
  | name {place : Place} {c : CatalogType} {name : String} {given : Option Json}
      {mask : List MaskField} {onError : Option ErrorPolicy} {s : Compilation}
      (missing : c.field? name = none) :
      OffendsOne place c (.mk name given mask onError) s
        (.invalidArgument (.noField (Place.join place.path name)))
  | params {place : Place} {c : CatalogType} {name : String} {given : Option Json}
      {mask : List MaskField} {onError : Option ErrorPolicy} {s : Compilation} {f : CatalogField}
      {e : Failure} (found : c.field? name = some f)
      (bad : BadParams f (place.enter f name).path given e) :
      OffendsOne place c (.mk name given mask onError) s e
  | inside {place : Place} {c d : CatalogType} {name : String} {given : Option Json}
      {mask : List MaskField} {onError : Option ErrorPolicy} {s s' s'' : Compilation}
      {f : CatalogField} {o : Option Params} {t : MessageType} {e : Failure}
      (found : c.field? name = some f)
      (params : (paramsOf f given (place.enter f name).path).run s = .ok o s')
      (element : f.element = .message t)
      (described : (describe place.relations t).run s' = .ok d s'')
      (inner : Offends (place.enter f name) d mask s'' e) :
      OffendsOne place c (.mk name given mask onError) s e
end

mutual
theorem OffendsOne.isInvalid {place : Place} {c : CatalogType} {m : MaskField} {s : Compilation}
    {e : Failure} : OffendsOne place c m s e → ∃ cause, e = .invalidArgument cause
  | .name _ => ⟨_, rfl⟩
  | .params _ (.missing ..) => ⟨_, rfl⟩
  | .params _ (.unreadable ..) => ⟨_, rfl⟩
  | .inside _ _ _ _ inner => inner.isInvalid

/-- Whatever is wrong with a mask, it is an argument that is invalid. -/
theorem Offends.isInvalid {place : Place} {c : CatalogType} {mask : List MaskField} {s : Compilation}
    {e : Failure} : Offends place c mask s e → ∃ cause, e = .invalidArgument cause
  | .here one => one.isInvalid
  | .later _ others => others.isInvalid
end

theorem fails_paramsOf {f : CatalogField} {given : Option Json} {path : String} {s : Compilation}
    {e : Failure} : Fails (paramsOf f given path) s e ↔ BadParams f path given e := by
  unfold paramsOf
  constructor
  · intro h
    split at h
    · exact (not_fails_pure _ _ _ h).elim
    · next r hr =>
      split at h
      · exact (not_fails_pure _ _ _ h).elim
      · next takes =>
        have takes : r.params.isSome := Option.isSome_iff_ne_none.mpr (by simpa using takes)
        split at h
        · obtain rfl := fails_throw.mp h
          exact .missing hr takes
        · next json =>
          split at h
          · next cause he =>
            obtain rfl := fails_throw.mp h
            exact .unreadable hr takes he
          · obtain ⟨s', h⟩ := h
            cases h
  · intro h
    cases h with
    | missing relation takes =>
      simp only [relation, Option.isNone_eq_false_iff.mpr takes]
      exact fails_throw.mpr rfl
    | unreadable relation takes error =>
      simp only [relation, Option.isNone_eq_false_iff.mpr takes, error]
      exact fails_throw.mpr rfl

theorem not_fails_describe (relations : List Relation) (t : MessageType) (s : Compilation)
    (e : Failure) : ¬Fails (describe relations t) s e := by
  rintro ⟨s', h⟩
  cases h

theorem fails_find {c : CatalogType} {name path : String} {s : Compilation} {e : Failure} :
    Fails (find c name path) s e ↔
      c.field? name = none ∧ e = .invalidArgument (.noField path) := by
  unfold find
  cases c.field? name with
  | none => simp [fails_throw]
  | some f => simp [not_fails_pure]

mutual
theorem fails_selectOne : ∀ (m : MaskField) {place : Place} {c : CatalogType} {s : Compilation}
    {e : Failure}, Fails (selectOne place c m) s e ↔ OffendsOne place c m s e
  | .mk name given mask onError, place, c, s, e => by
    unfold selectOne
    rw [fails_bind, fails_find]
    constructor
    · rintro (⟨missing, rfl⟩ | ⟨f, s₁, hf, h⟩)
      · exact .name missing
      · obtain ⟨found, rfl⟩ := find_spec hf
        dsimp only at h
        rcases fails_bind.mp h with h | ⟨o, s₂, ho, h⟩
        · exact .params found (fails_paramsOf.mp h)
        · cases he : f.element with
          | scalar e' =>
            rw [he] at h
            exact (not_fails_pure _ _ _ h).elim
          | message t =>
            rw [he] at h
            rcases fails_bind.mp h with h | ⟨d, s₃, hd, h⟩
            · exact (not_fails_describe _ _ _ _ h).elim
            · rcases fails_bind.mp h with h | ⟨fields, s₄, _, h⟩
              · exact .inside found ho he hd ((fails_select mask).mp h)
              · exact (not_fails_pure _ _ _ h).elim
    · intro h
      cases h with
      | name missing => exact .inl ⟨missing, rfl⟩
      | @params _ _ _ _ _ _ _ f _ found bad =>
        refine .inr ⟨f, s, ?_, fails_bind.mpr (.inl (fails_paramsOf.mpr bad))⟩
        unfold find
        rw [found]
        rfl
      | @inside _ _ d _ _ _ _ _ s' s'' f o t _ found params element described inner =>
        refine .inr ⟨f, s, ?_, fails_bind.mpr (.inr ⟨o, s', params, ?_⟩)⟩
        · unfold find
          rw [found]
          rfl
        · simp only [element]
          refine fails_bind.mpr (.inr ⟨d, s'', described, fails_bind.mpr (.inl ?_)⟩)
          exact (fails_select mask).mpr inner

/-- Compilation fails with the first thing that is wrong with the mask, however deep. -/
theorem fails_select : ∀ (mask : List MaskField) {place : Place} {c : CatalogType} {s : Compilation}
    {e : Failure}, Fails (select place c mask) s e ↔ Offends place c mask s e
  | [], place, c, s, e => by
    unfold select
    constructor
    · intro h
      exact (not_fails_pure _ _ _ h).elim
    · intro h
      cases h
  | m :: rest, place, c, s, e => by
    unfold select
    rw [fails_bind, fails_selectOne m]
    constructor
    · rintro (h | ⟨x, s', hx, h⟩)
      · exact .here h
      · rcases fails_bind.mp h with h | ⟨xs, s'', _, h⟩
        · exact .later hx ((fails_select rest).mp h)
        · exact (not_fails_pure _ _ _ h).elim
    · intro h
      cases h with
      | here one => exact .inl one
      | later one others =>
        exact .inr ⟨_, _, one, fails_bind.mpr (.inl ((fails_select rest).mpr others))⟩
end

end Compile

/-- The first thing that is wrong with a mask for a type. -/
def MaskOffends (t : MessageType) (mask : List MaskField) (place : Compile.Place) (e : Failure) :
    Prop :=
  ∃ c s, (Compile.describe place.relations t).run {} = .ok c s ∧ Compile.Offends place c mask s e

theorem compileMask_eq_error {t : MessageType} {mask : List MaskField} {place : Compile.Place}
    {e : Failure} : compileMask t mask place = .error e ↔ MaskOffends t mask place e := by
  have hs : compileMask t mask place = .error e ↔ (Compile.schema t mask place).Fails {} e := by
    unfold compileMask Compile.Fails
    change _ ↔ ∃ s', Compile.schema t mask place {} = .error e s'
    cases Compile.schema t mask place {} with
    | ok schema s' => simp
    | error e' s' => simp
  rw [hs]
  unfold Compile.schema MaskOffends
  rw [Compile.fails_bind]
  constructor
  · rintro (h | ⟨c, s, hd, h⟩)
    · exact (Compile.not_fails_describe _ _ _ _ h).elim
    · rcases Compile.fails_bind.mp h with h | ⟨fields, s', _, h⟩
      · exact ⟨c, s, hd, (Compile.fails_select mask).mp h⟩
      · exact (Compile.not_fails_pure _ _ _ h).elim
  · rintro ⟨c, s, hd, h⟩
    exact .inr ⟨c, s, hd, Compile.fails_bind.mpr (.inl ((Compile.fails_select mask).mpr h))⟩

/-! ## What is wrong with a request -/

/-- Whether a method is of the kind that a verb calls. -/
def Verb.Suits (v : Verb) (m : Method) : Prop := m.info.serverStreaming = (v == .listen)

/-- Whether a verb may call a method that has side effects or not. -/
def Verb.Allows (v : Verb) (m : Method) : Prop := v = .fetch → m.isSafe

/-- What a method of the wrong kind is refused with. -/
def Verb.wrongKind (v : Verb) (name : String) : Invalid :=
  match v with
  | .listen => .notStreaming name
  | _ => .notUnary name

/-- The first thing that is wrong with a request. -/
inductive Request.Refused (g : Gateway) (v : Verb) (r : Request) : Failure → Prop
  | method (unknown : g.entryPoint? r.method = none) : Refused g v r (.unknownMethod r.method)
  | kind {entry : EntryPoint} (found : g.entryPoint? r.method = some entry)
      (wrong : ¬v.Suits entry.method) : Refused g v r (.invalidArgument (v.wrongKind r.method))
  | sideEffects {entry : EntryPoint} (found : g.entryPoint? r.method = some entry)
      (kind : v.Suits entry.method) (effects : ¬v.Allows entry.method) :
      Refused g v r (.invalidArgument (.sideEffects r.method))
  | body {entry : EntryPoint} {json : Json} {cause : Unreadable}
      (found : g.entryPoint? r.method = some entry) (kind : v.Suits entry.method)
      (allowed : v.Allows entry.method) (given : r.body = some json) (notNull : json ≠ .null)
      (unreadable : readMessage entry.method.input json = .error cause) :
      Refused g v r (.invalidArgument (.body entry.method.fullName cause))
  | mask {entry : EntryPoint} {input : Message} {e : Failure}
      (found : g.entryPoint? r.method = some entry) (kind : v.Suits entry.method)
      (allowed : v.Allows entry.method) (read : readBody entry.method r.body = .ok input)
      (offends : MaskOffends entry.method.output r.mask
        ⟨g.relations, r.method, [v.operation, r.method]⟩ e) : Refused g v r e

theorem Outcome.bind_eq_error {x : Outcome α} {f : α → Outcome β} {e : Failure} :
    (x >>= f) = .error e ↔ x = .error e ∨ ∃ a, x = .ok a ∧ f a = .error e := by
  cases x with
  | error e' =>
    constructor
    · intro h
      cases h
      exact .inl rfl
    · rintro (h | ⟨a, h, _⟩)
      · cases h
        rfl
      · cases h
  | ok a =>
    refine ⟨fun h => .inr ⟨a, rfl, h⟩, ?_⟩
    rintro (h | ⟨b, h, hf⟩)
    · cases h
    · cases h
      exact hf

theorem Outcome.toOption_eq_some {α : Type} {x : Outcome α} {a : α} :
    x.toOption = some a ↔ x = .ok a := by
  cases x <;> simp [Except.toOption]

theorem Outcome.bind_eq_ok {ε : Type} {x : Except ε α} {f : α → Except ε β} {b : β} :
    (x >>= f) = .ok b ↔ ∃ a, x = .ok a ∧ f a = .ok b := by
  cases x with
  | error e =>
    constructor
    · intro h
      cases h
    · rintro ⟨a, h, _⟩
      cases h
  | ok a =>
    refine ⟨fun h => ⟨a, rfl, h⟩, ?_⟩
    rintro ⟨_, h, hf⟩
    cases h
    exact hf

theorem Verb.admits_eq_ok {v : Verb} {m : Method} {name : String} :
    v.admits m name = .ok () ↔ v.Suits m ∧ v.Allows m := by
  unfold admits requireValid Suits Allows
  cases v <;> cases hm : m.info.serverStreaming <;> cases hs : m.isSafe <;>
    simp [bind, Except.bind, pure, Except.pure]

theorem Verb.admits_eq_error {v : Verb} {m : Method} {name : String} {e : Failure} :
    v.admits m name = .error e ↔ ¬v.Suits m ∧ e = .invalidArgument (v.wrongKind name) ∨
      v.Suits m ∧ ¬v.Allows m ∧ e = .invalidArgument (.sideEffects name) := by
  unfold admits requireValid wrongKind Suits Allows
  cases v <;> cases hm : m.info.serverStreaming <;> cases hs : m.isSafe <;>
    simp [bind, Except.bind, pure, Except.pure]
  all_goals exact eq_comm

theorem readBody_eq_error {m : Method} {body : Option Json} {e : Failure} :
    readBody m body = .error e ↔ ∃ json cause, body = some json ∧ json ≠ .null ∧
      readMessage m.input json = .error cause ∧ e = .invalidArgument (.body m.fullName cause) := by
  unfold readBody
  split
  · simp
  · simp
  · next json hn =>
    cases hr : readMessage m.input json with
    | ok input => simp [hr]
    | error cause =>
      constructor
      · intro h
        cases h
        exact ⟨json, cause, rfl, hn, hr, rfl⟩
      · rintro ⟨_, _, h, _, hr', rfl⟩
        cases h
        cases hr.symm.trans hr'
        rfl

namespace Gateway

theorem prepare_eq_error {g : Gateway} {v : Verb} {r : Request} {e : Failure} :
    g.prepare v r = .error e ↔ r.Refused g v e := by
  unfold prepare
  cases hf : g.entryPoint? r.method with
  | none =>
    constructor
    · intro h
      cases h
      exact .method hf
    · intro h
      cases h <;> simp_all
      rfl
  | some entry =>
    dsimp only
    rw [Outcome.bind_eq_error, Verb.admits_eq_error]
    constructor
    · rintro ((⟨wrong, rfl⟩ | ⟨kind, effects, rfl⟩) | ⟨_, admitted, h⟩)
      · exact .kind hf wrong
      · exact .sideEffects hf kind effects
      · obtain ⟨kind, allowed⟩ := Verb.admits_eq_ok.mp admitted
        rcases Outcome.bind_eq_error.mp h with h | ⟨input, read, h⟩
        · obtain ⟨json, cause, given, notNull, unreadable, rfl⟩ := readBody_eq_error.mp h
          exact .body hf kind allowed given notNull unreadable
        · rcases Outcome.bind_eq_error.mp h with h | ⟨schema, _, h⟩
          · exact .mask hf kind allowed read (compileMask_eq_error.mp h)
          · cases h
    · intro h
      cases h with
      | method unknown => cases hf.symm.trans unknown
      | kind found wrong =>
        cases hf.symm.trans found
        exact .inl (.inl ⟨wrong, rfl⟩)
      | sideEffects found kind effects =>
        cases hf.symm.trans found
        exact .inl (.inr ⟨kind, effects, rfl⟩)
      | body found kind allowed given notNull unreadable =>
        cases hf.symm.trans found
        have read := readBody_eq_error.mpr ⟨_, _, given, notNull, unreadable, rfl⟩
        exact .inr ⟨(), Verb.admits_eq_ok.mpr ⟨kind, allowed⟩, Outcome.bind_eq_error.mpr (.inl read)⟩
      | mask found kind allowed read offends =>
        cases hf.symm.trans found
        exact .inr ⟨(), Verb.admits_eq_ok.mpr ⟨kind, allowed⟩, Outcome.bind_eq_error.mpr
          (.inr ⟨_, read, Outcome.bind_eq_error.mpr (.inl (compileMask_eq_error.mpr offends))⟩)⟩

end Gateway

/-- No request, or the first one with something wrong with it, after others with nothing wrong. -/
inductive FirstRefused (g : Gateway) (v : Verb) : List Request → Failure → Prop
  | empty : FirstRefused g v [] (.invalidArgument .noRequests)
  | request {before after : List Request} {r : Request} {e : Failure}
      (valid : ∀ x ∈ before, ∀ e', ¬x.Refused g v e') (refused : r.Refused g v e) :
      FirstRefused g v (before ++ r :: after) e

theorem FirstRefused.single {g : Gateway} {v : Verb} {r : Request} {e : Failure}
    (h : r.Refused g v e) : FirstRefused g v [r] e :=
  show FirstRefused g v ([] ++ [r]) e from .request (by simp) h

/-- A request is refused for its method or for an argument of it. -/
theorem FirstRefused.isInvalid {g : Gateway} {v : Verb} {requests : List Request} {e : Failure}
    (h : FirstRefused g v requests e) :
    (∃ name, e = .unknownMethod name) ∨ ∃ cause, e = .invalidArgument cause := by
  cases h with
  | empty => exact .inr ⟨_, rfl⟩
  | request _ refused =>
    cases refused with
    | method => exact .inl ⟨_, rfl⟩
    | kind => exact .inr ⟨_, rfl⟩
    | sideEffects => exact .inr ⟨_, rfl⟩
    | body => exact .inr ⟨_, rfl⟩
    | mask _ _ _ _ offends =>
      obtain ⟨_, _, _, offends⟩ := offends
      exact .inr offends.isInvalid

theorem forall₂_exists_left {R : α → β → Prop} {xs : List α} {ys : List β} (h : List.Forall₂ R xs ys)
    {y : β} (hy : y ∈ ys) : ∃ x ∈ xs, R x y := by
  induction h with
  | nil => cases hy
  | cons first rest ih =>
    rcases List.mem_cons.mp hy with rfl | hy
    · exact ⟨_, List.mem_cons_self .., first⟩
    · obtain ⟨x, hx, hr⟩ := ih hy
      exact ⟨x, List.mem_cons_of_mem _ hx, hr⟩

theorem forall₂_exists_right {R : α → β → Prop} {xs : List α} {ys : List β} (h : List.Forall₂ R xs ys)
    {x : α} (hx : x ∈ xs) : ∃ y ∈ ys, R x y :=
  forall₂_exists_left (R := fun y x => R x y) h.flip hx

/-- A list of outcomes has all of them, or the first failure. -/
theorem Outcome.mapM_eq_ok {ε : Type} {f : α → Except ε β} {xs : List α} {ys : List β} :
    xs.mapM f = .ok ys ↔ List.Forall₂ (fun x y => f x = .ok y) xs ys := by
  induction xs generalizing ys with
  | nil =>
    rw [List.forall₂_nil_left_iff, List.mapM_nil]
    exact ⟨fun h => by cases h; rfl, fun h => by rw [h]; rfl⟩
  | cons x rest ih =>
    rw [List.mapM_cons]
    constructor
    · intro h
      cases hx : f x with
      | error e =>
        rw [hx] at h
        cases h
      | ok y =>
        rw [hx] at h
        cases hr : rest.mapM f with
        | error e =>
          change (rest.mapM f >>= fun ys => pure (y :: ys)) = _ at h
          rw [hr] at h
          cases h
        | ok zs =>
          change (rest.mapM f >>= fun ys => pure (y :: ys)) = _ at h
          rw [hr] at h
          cases h
          exact .cons hx (ih.mp hr)
    · intro h
      cases h with
      | cons first others =>
        rw [first, ih.mpr others]
        rfl

theorem Outcome.mapM_eq_error {f : α → Outcome β} {xs : List α} {e : Failure} :
    xs.mapM f = .error e ↔ ∃ before x after, xs = before ++ x :: after ∧
      (∀ y ∈ before, ∃ z, f y = .ok z) ∧ f x = .error e := by
  induction xs with
  | nil =>
    rw [List.mapM_nil]
    constructor
    · intro h
      cases h
    · rintro ⟨before, x, after, h, _⟩
      simp at h
  | cons x rest ih =>
    rw [List.mapM_cons, bind_eq_error]
    constructor
    · rintro (h | ⟨y, hy, h⟩)
      · exact ⟨[], x, rest, rfl, by simp, h⟩
      · rcases bind_eq_error.mp h with h | ⟨ys, _, h⟩
        · obtain ⟨before, z, after, rfl, hb, hz⟩ := ih.mp h
          refine ⟨x :: before, z, after, rfl, fun w hw => ?_, hz⟩
          rcases List.mem_cons.mp hw with rfl | hw
          · exact ⟨y, hy⟩
          · exact hb w hw
        · cases h
    · rintro ⟨before, z, after, h, hb, hz⟩
      cases before with
      | nil =>
        cases h
        exact .inl hz
      | cons w before =>
        cases h
        obtain ⟨y, hy⟩ := hb x (List.mem_cons_self ..)
        have hr := ih.mpr ⟨before, z, after, rfl, fun w hw => hb w (List.mem_cons_of_mem _ hw), hz⟩
        exact .inr ⟨y, hy, bind_eq_error.mpr (.inl hr)⟩

namespace Gateway

variable {g : Gateway} {v : Verb}

theorem prepare_isOk {r : Request} : (∃ p, g.prepare v r = .ok p) ↔ ∀ e, ¬r.Refused g v e := by
  constructor
  · rintro ⟨p, hp⟩ e he
    rw [prepare_eq_error.mpr he] at hp
    cases hp
  · intro h
    cases hp : g.prepare v r with
    | ok p => exact ⟨p, rfl⟩
    | error e => exact absurd (prepare_eq_error.mp hp) (h e)

theorem prepareAll_eq_ok {requests : List Request} {prepared : List Prepared} :
    g.prepareAll v requests = .ok prepared ↔
      requests ≠ [] ∧ List.Forall₂ (fun r p => g.prepare v r = .ok p) requests prepared := by
  cases requests with
  | nil =>
    constructor
    · intro h
      cases h
    · rintro ⟨h, _⟩
      exact absurd rfl h
  | cons r rest =>
    refine Outcome.mapM_eq_ok.trans ⟨fun h => ⟨by simp, h⟩, ?_⟩
    rintro ⟨_, h⟩
    exact h

/-- A batch is refused for its first wrong request. -/
theorem prepareAll_eq_error {requests : List Request} {e : Failure} :
    g.prepareAll v requests = .error e ↔ FirstRefused g v requests e := by
  unfold prepareAll
  split
  · constructor
    · intro h
      cases h
      exact .empty
    · intro h
      generalize hr : ([] : List Request) = requests at h
      cases h with
      | empty => rfl
      | request valid refused => simp at hr
  · next hne =>
    rw [Outcome.mapM_eq_error]
    constructor
    · rintro ⟨before, r, after, rfl, hb, hr⟩
      exact .request (fun x hx => prepare_isOk.mp (hb x hx)) (prepare_eq_error.mp hr)
    · intro h
      cases h with
      | empty => exact absurd rfl hne
      | @request before after r _ valid refused =>
        exact ⟨before, r, after, rfl, fun x hx => prepare_isOk.mpr (valid x hx),
          prepare_eq_error.mpr refused⟩

/-- What is known of a request that was prepared. -/
structure IsPrepared (g : Gateway) (v : Verb) (r : Request) (p : Prepared) : Prop where
  found : g.entryPoint? r.method = some p.entry
  method : p.method = r.method
  onError : p.onError = r.onError
  suits : v.Suits p.entry.method
  allows : v.Allows p.entry.method
  read : readBody p.entry.method r.body = .ok p.input
  compiled : compileMask p.entry.method.output r.mask
    ⟨g.relations, r.method, [v.operation, r.method]⟩ = .ok p.schema

theorem isPrepared {r : Request} {p : Prepared} (h : g.prepare v r = .ok p) :
    IsPrepared g v r p := by
  unfold prepare at h
  cases hf : g.entryPoint? r.method with
  | none =>
    rw [hf] at h
    cases h
  | some entry =>
    rw [hf] at h
    obtain ⟨_, ha, h⟩ := Outcome.bind_eq_ok.mp h
    obtain ⟨input, hi, h⟩ := Outcome.bind_eq_ok.mp h
    obtain ⟨schema, hs, h⟩ := Outcome.bind_eq_ok.mp h
    cases h
    obtain ⟨suits, allows⟩ := Verb.admits_eq_ok.mp ha
    exact ⟨hf, rfl, rfl, suits, allows, hi, hs⟩

theorem exists_prepare {requests : List Request} {prepared : List Prepared}
    (h : g.prepareAll v requests = .ok prepared) {p : Prepared} (hp : p ∈ prepared) :
    ∃ r ∈ requests, g.prepare v r = .ok p :=
  forall₂_exists_left (prepareAll_eq_ok.mp h).2 hp

theorem exists_isPrepared {requests : List Request} {prepared : List Prepared}
    (h : g.prepareAll v requests = .ok prepared) {p : Prepared} (hp : p ∈ prepared) :
    ∃ r ∈ requests, IsPrepared g v r p := by
  obtain ⟨r, hr, hrp⟩ := exists_prepare h hp
  exact ⟨r, hr, isPrepared hrp⟩

theorem prepareAll_singleton {r : Request} {p : Prepared} (h : g.prepare v r = .ok p) :
    g.prepareAll v [r] = .ok [p] :=
  prepareAll_eq_ok.mpr ⟨List.cons_ne_nil _ _, .cons h .nil⟩

/-- A batch is refused exactly when it is empty or some request of it is wrong. -/
theorem firstRefused_iff {requests : List Request} :
    (∃ e, FirstRefused g v requests e) ↔ requests = [] ∨ ∃ r ∈ requests, ∃ e, r.Refused g v e := by
  constructor
  · rintro ⟨e, h⟩
    cases h with
    | empty => exact .inl rfl
    | @request before after r e valid refused => exact .inr ⟨r, by simp, e, refused⟩
  · rintro (rfl | ⟨r, hr, e, he⟩)
    · exact ⟨_, .empty⟩
    · cases hp : g.prepareAll v requests with
      | error e' => exact ⟨e', prepareAll_eq_error.mp hp⟩
      | ok prepared =>
        obtain ⟨p, _, hrp⟩ := forall₂_exists_right (prepareAll_eq_ok.mp hp).2 hr
        exact absurd he (prepare_isOk.mp ⟨p, hrp⟩ e)

end Gateway

theorem FirstRefused.unique {g : Gateway} {v : Verb} {requests : List Request} {e e' : Failure}
    (h : FirstRefused g v requests e) (h' : FirstRefused g v requests e') : e = e' :=
  Except.error.inj ((Gateway.prepareAll_eq_error.mpr h).symm.trans (Gateway.prepareAll_eq_error.mpr h'))

/-- The failure of an outcome. -/
def Outcome.failure? : Outcome α → Option Failure
  | .ok _ => none
  | .error e => some e

theorem Outcome.failure?_eq_some {x : Outcome α} {e : Failure} :
    failure? x = some e ↔ x = .error e := by
  cases x <;> simp [failure?]

/-! ## A small gateway -/

namespace Sample

/-- The types of items, and an instant. -/
def store : Pool where
  messages := pool.messages ++ [⟨"google.protobuf.Timestamp",
    [⟨"seconds", "seconds", 1, .scalar .int64, .single false, none, .int64 0⟩,
     ⟨"nanos", "nanos", 2, .scalar .int32, .single false, none, .int32 0⟩]⟩]

/-- Items can be asked for. What they are part of and when they were made take methods that may have
side effects. -/
def items : Service where
  pool := store
  info := ⟨"Items",
    [{ name := "Get", input := "Item", output := "Item", idempotency := some 1 },
     { name := "Stamp", input := "Item", output := "google.protobuf.Timestamp" },
     { name := "Parents", input := "Bases", output := "Parents" }]⟩

/-- Builds a gateway to the items. -/
def assemble : Outcome Gateway := do
  let b := ({} : Builder).withTransport ⟨"http://items"⟩
  let b ← b.registerService items { methods := some ["Get", "Stamp"] }
  let b ← b.registerRelation items "Parents" { name := "parent" }
  b.build

def gateway : Gateway := assemble.toOption.getD {}

theorem assembles : assemble = .ok gateway := Outcome.eq_ok_getD (by decide +kernel)

/-- An item by its title. -/
def storedItem (text : String) : Message := .mk (store.message "Item") [(1, .scalar (.string text))] []

/-- Each item is the one called knot, and so is its parent. -/
def knot (m : Method) : Reply Message :=
  if m.info.name = "Parents" then
    let result := Message.mk (store.message "Parent") [(1, .message (storedItem "knot"))] []
    .ok (.mk m.output [(1, .list [.message result])] [])
  else .ok (storedItem "knot")

/-- A server of knots, which answers after a while that depends on how many calls came before. -/
def knotsAfter (delay : Nat → Nat) : Downstream where
  unary history c := ⟨some (delay history.length), knot c.method⟩
  stream _ _ := ⟨none, .error ⟨.unavailable, "", []⟩⟩
  consult _ := .ok []

/-- An item, then the color of an item's parent, which is no field, then a method there is not. -/
def spoiled : List Request :=
  [{ method := "Items.Get", mask },
   { method := "Items.Get", mask := [.mk "parent" none [.mk "color" none [] none] none] },
   { method := "Items.Lose" }]

theorem spoiled_refused :
    FirstRefused gateway .fetch spoiled (.invalidArgument (.noField "Items.Get.parent.color")) := by
  have h : (gateway.prepareAll .fetch spoiled).failure? =
      some (.invalidArgument (.noField "Items.Get.parent.color")) := by decide +kernel
  exact Gateway.prepareAll_eq_error.mp (Outcome.failure?_eq_some.mp h)

end Sample

/-- A batch that is refused is answered at once, and nothing is called. -/
theorem Gateway.serve_refused {g : Gateway} {v : Verb} {requests : List Request} {e : Failure}
    (h : FirstRefused g v requests e) (world : Downstream) (ctx : CallContext) (m : Moment) :
    (g.serve world ctx v m requests).1 = some (.error e) ∧
      (g.serve world ctx v m requests).2.journal = m.journal := by
  unfold serve
  simp [prepareAll_eq_error.mpr h]

/-- A batch with something wrong is refused for the first thing that is wrong, and so is a stream. No
method and no resolver is called then. -/
theorem validation_precedes_effects (g : Gateway) (world : Downstream) (ctx : CallContext)
    (m : Moment) :
    (∀ v requests, (requests = [] ∨ ∃ r ∈ requests, ∃ e, r.Refused g v e) →
      ∃ e, FirstRefused g v requests e ∧ (g.serve world ctx v m requests).1 = some (.error e) ∧
        (g.serve world ctx v m requests).2.journal = m.journal) ∧
    (g.listen world ctx m none).1 = some (.error (.invalidArgument .missingRequest)) ∧
    (g.listen world ctx m none).2.journal = m.journal ∧
    ∀ r e, r.Refused g .listen e → (g.listen world ctx m (some r)).1 = some (.error e) ∧
      (g.listen world ctx m (some r)).2.journal = m.journal := by
  refine ⟨fun v requests h => ?_, rfl, ?_, fun r e h => ?_⟩
  · obtain ⟨e, he⟩ := Gateway.firstRefused_iff.mpr h
    exact ⟨e, he, Gateway.serve_refused he world ctx m⟩
  · unfold Gateway.listen Gateway.openStream
    simp
  · unfold Gateway.listen Gateway.openStream
    simp [Gateway.prepare_eq_error.mpr h]

/-- A batch with a good request first is refused for a field inside a relation of the second. -/
theorem nothing_called_for_spoiled_batch :
    (Sample.gateway.serve Sample.mirror.world {} .fetch {} Sample.spoiled).1 =
        some (.error (.invalidArgument (.noField "Items.Get.parent.color"))) ∧
      (Sample.gateway.serve Sample.mirror.world {} .fetch {} Sample.spoiled).2.journal = [] := by
  have refused := Gateway.firstRefused_iff.mp ⟨_, Sample.spoiled_refused⟩
  obtain ⟨e, he, hs, hj⟩ :=
    (validation_precedes_effects Sample.gateway Sample.mirror.world {} {}).1 .fetch Sample.spoiled
      refused
  rw [he.unique Sample.spoiled_refused] at hs
  exact ⟨hs, hj⟩

end Patchwork
