import Patchwork.Request
import Patchwork.Proofs.Records

/-!
# Texts of requests

A request that was read from a text can be written and read again, and is the same then. What does not
count in a text, that is unknown members, nulls and empty masks, can be left out before it is read.
-/

namespace Patchwork
open Json (Source RecordForm)

/-! ## Reading -/

/-- A mask field and a request are read alike from their four members. -/
inductive Comprises (room : Nat) : List (Option Source) → String → Option Json → List MaskField →
    Option ErrorPolicy → Prop
  | intro {name value mask onError : Option Source} {text : String} {json : Option Json}
      {fields : List MaskField} {policy : Option ErrorPolicy}
      (named : name.bind Source.string? = some text)
      (valued : Source.optional? (·.toJson? room) value = some json)
      (masked : Source.withDefault? [] (masks? room) mask = some fields)
      (caught : Source.optional? (ErrorPolicy.ofSource? room) onError = some policy) :
      Comprises room [name, value, mask, onError] text json fields policy

theorem MaskField.ofSource?_succ (room : Nat) (x : Source) :
    MaskField.ofSource? (room + 1) x = (form.open? x).bind fun
      | [name, params, mask, onError] => do
        let name ← (← name.map Source.string?)
        let params ← Source.optional? (·.toJson? room) params
        let mask ← Source.withDefault? [] (masks? room) mask
        let onError ← Source.optional? (ErrorPolicy.ofSource? room) onError
        return .mk name params mask onError
      | _ => none := by
  rw [MaskField.ofSource?]
  refine congrArg (Option.bind _) (funext fun parts => ?_)
  rcases parts with _ | ⟨name, _ | ⟨params, _ | ⟨mask, _ | ⟨onError, _ | ⟨e, rest⟩⟩⟩⟩⟩
  case cons.cons.cons.cons.nil =>
    refine congrArg (Option.bind _) (funext fun name => ?_)
    refine congrArg (Option.bind _) (funext fun text => ?_)
    refine congrArg (Option.bind _) (funext fun json => ?_)
    cases mask with
    | none => rfl
    | some x => cases x <;> cases room <;> rfl
  all_goals rfl

theorem MaskField.ofSource?_eq_some_iff {room : Nat} {x : Source} {m : MaskField} :
    MaskField.ofSource? (room + 1) x = some m ↔ ∃ parts, form.open? x = some parts ∧
      Comprises room parts m.name m.params m.mask m.onError := by
  rw [MaskField.ofSource?_succ]
  constructor
  · intro h
    obtain ⟨parts, opened, h⟩ := Option.bind_eq_some_iff.mp h
    split at h
    · simp only [Option.bind_eq_bind, Option.bind_eq_some_iff, Option.map_eq_some_iff] at h
      obtain ⟨_, ⟨x, rfl, rfl⟩, text, named, json, valued, fields, masked, policy, caught, same⟩ := h
      cases same
      exact ⟨_, opened, named, valued, masked, caught⟩
    · cases h
  · rintro ⟨_, opened, ⟨named, valued, masked, caught⟩⟩
    obtain ⟨x, rfl, text⟩ := Option.bind_eq_some_iff.mp named
    cases m
    simp [opened, text, valued, masked, caught, name, params, mask, onError]

theorem Request.ofSource?_eq_some_iff {room : Nat} {x : Source} {r : Request} :
    Request.ofSource? (room + 1) x = some r ↔ ∃ parts, form.open? x = some parts ∧
      Comprises room parts r.method r.body r.mask r.onError := by
  rw [Request.ofSource?]
  constructor
  · intro h
    obtain ⟨parts, opened, h⟩ := Option.bind_eq_some_iff.mp h
    split at h
    · simp only [Option.bind_eq_bind, Option.bind_eq_some_iff, Option.map_eq_some_iff] at h
      obtain ⟨_, ⟨x, rfl, rfl⟩, text, named, json, valued, fields, masked, policy, caught, same⟩ := h
      cases same
      exact ⟨_, opened, named, valued, masked, caught⟩
    · cases h
  · rintro ⟨_, opened, ⟨named, valued, masked, caught⟩⟩
    obtain ⟨x, rfl, text⟩ := Option.bind_eq_some_iff.mp named
    simp [opened, text, valued, masked, caught]

/-! ## Writing -/

mutual
/-- The numbers in the parameters of a mask field are integers of 64 bits, or zeros. -/
def MaskField.IsWhole : MaskField → Prop
  | .mk _ params mask _ => (∀ j ∈ params, j.IsWhole) ∧ masksAreWhole mask

def masksAreWhole : List MaskField → Prop
  | [] => True
  | m :: rest => m.IsWhole ∧ masksAreWhole rest
end

mutual
def MaskField.decideIsWhole : (m : MaskField) → Decidable m.IsWhole
  | .mk _ _ mask _ => @instDecidableAnd _ _ inferInstance (decideMasksAreWhole mask)

def decideMasksAreWhole : (fields : List MaskField) → Decidable (masksAreWhole fields)
  | [] => isTrue trivial
  | m :: rest => @instDecidableAnd _ _ m.decideIsWhole (decideMasksAreWhole rest)
end

/-- So are those in the body of a request and in the parameters under it. -/
def Request.IsWhole (r : Request) : Prop := (∀ j ∈ r.body, j.IsWhole) ∧ masksAreWhole r.mask

instance : DecidablePred Request.IsWhole :=
  fun r => @instDecidableAnd _ _ inferInstance (decideMasksAreWhole r.mask)

def FetchRequest.IsWhole (r : FetchRequest) : Prop := ∀ q ∈ r.requests, q.IsWhole

def ListenRequest.IsWhole (r : ListenRequest) : Prop := ∀ q ∈ r.request, q.IsWhole

theorem masksAreWhole_iff {fields : List MaskField} :
    masksAreWhole fields ↔ ∀ m ∈ fields, m.IsWhole := by
  induction fields with
  | nil => simp [masksAreWhole]
  | cons m fields ih => simp only [masksAreWhole, ih, List.forall_mem_cons]

theorem masksToJson_eq_map (fields : List MaskField) : masksToJson fields = fields.map MaskField.toJson := by
  induction fields with
  | nil => rfl
  | cons m fields ih => rw [masksToJson, ih, List.map_cons]

theorem Json.itemSources_eq_map (items : List Json) : itemSources items = items.map source := by
  induction items with
  | nil => rfl
  | cons x items ih => rw [itemSources, ih, List.map_cons]

theorem isWhole_memberOf {name : String} {value : Option Json} (whole : ∀ j ∈ value, j.IsWhole) :
    ∀ e ∈ memberOf name value, e.2.IsWhole := by
  cases value with
  | none => simp [memberOf]
  | some j => simpa [memberOf] using whole j rfl

theorem isWhole_policy {name : String} (policy : Option ErrorPolicy) :
    ∀ e ∈ memberOf name (policy.map ErrorPolicy.toJson), e.2.IsWhole := by
  apply isWhole_memberOf
  intro j hj
  obtain ⟨p, _, rfl⟩ := Option.map_eq_some_iff.mp hj
  trivial

mutual
theorem MaskField.isWhole_toJson : ∀ {m : MaskField}, m.IsWhole → m.toJson.IsWhole
  | .mk name params mask onError, ⟨given, under⟩ => by
    apply Json.isWhole_object
    simp only [List.forall_mem_append, List.forall_mem_singleton]
    refine ⟨⟨⟨trivial, isWhole_memberOf given⟩, ?_⟩, isWhole_policy onError⟩
    intro e he
    split at he
    · cases he
    · rw [List.mem_singleton.mp he]
      exact masksAreWhole_toJson under

theorem masksAreWhole_toJson : ∀ {fields : List MaskField}, masksAreWhole fields →
    Json.areWhole (masksToJson fields)
  | [], _ => trivial
  | _ :: _, ⟨first, rest⟩ => ⟨MaskField.isWhole_toJson first, masksAreWhole_toJson rest⟩
end

theorem Request.isWhole_toJson {r : Request} (whole : r.IsWhole) : r.toJson.IsWhole := by
  apply Json.isWhole_object
  simp only [List.forall_mem_append, List.forall_mem_singleton]
  exact ⟨⟨⟨trivial, isWhole_memberOf whole.1⟩, masksAreWhole_toJson whole.2⟩, isWhole_policy r.onError⟩

theorem FetchRequest.isWhole_toJson {r : FetchRequest} (whole : r.IsWhole) : r.toJson.IsWhole := by
  have each : Json.areWhole (r.requests.map Request.toJson) := by
    obtain ⟨requests⟩ := r
    induction requests with
    | nil => trivial
    | cons q requests ih =>
      obtain ⟨first, rest⟩ := List.forall_mem_cons.mp whole
      exact ⟨Request.isWhole_toJson first, ih rest⟩
  apply Json.isWhole_object
  simp only [List.forall_mem_singleton]
  exact each

theorem ListenRequest.isWhole_toJson {r : ListenRequest} (whole : r.IsWhole) : r.toJson.IsWhole := by
  obtain ⟨request⟩ := r
  apply Json.isWhole_object
  cases request with
  | none => simp [Json.IsWhole]
  | some q => simpa using Request.isWhole_toJson (whole q rfl)

/-- The members of what is written of a mask field. -/
theorem MaskField.open?_toJson (m : MaskField) : form.open? m.toJson.source =
    some [some (.str (some m.name)), m.params.map Json.source,
      if m.mask.isEmpty then none else some (.arr (m.mask.map fun m => m.toJson.source)),
      m.onError.map fun p => p.toJson.source] := by
  obtain ⟨name, params, mask, onError⟩ := m
  rw [MaskField.toJson, RecordForm.open?_object rfl]
  · cases params <;> cases mask <;> cases onError <;>
      simp [form, memberOf, List.lookup, MaskField.name, MaskField.params, MaskField.mask,
        MaskField.onError, Json.source, masksToJson_eq_map, Json.itemSources_eq_map]
  · cases params <;> cases mask <;> cases onError <;> simp [memberOf]

theorem Request.open?_toJson (r : Request) : form.open? r.toJson.source =
    some [some (.str (some r.method)), r.body.map Json.source,
      some (.arr (r.mask.map fun m => m.toJson.source)), r.onError.map fun p => p.toJson.source] := by
  obtain ⟨method, body, mask, onError⟩ := r
  rw [Request.toJson, RecordForm.open?_object rfl]
  · cases body <;> cases onError <;>
      simp [form, memberOf, List.lookup, Json.source, masksToJson_eq_map, Json.itemSources_eq_map]
  · cases body <;> cases onError <;> simp [memberOf]

theorem ErrorPolicy.optional?_toJson (room : Nat) (policy : Option ErrorPolicy) :
    Source.optional? (ErrorPolicy.ofSource? room) (policy.map fun p => p.toJson.source) = some policy := by
  cases policy with
  | none => rfl
  | some p => cases p <;> rfl

/-- What a mask field was read as is read again from what is written of it. -/
theorem MaskField.ofSource?_toJson (room : Nat) : ∀ {x : Source} {m : MaskField},
    MaskField.ofSource? room x = some m → m.IsWhole →
    MaskField.ofSource? room m.toJson.source = some m := by
  induction room using Nat.strong_induction_on with
  | _ room ih =>
    intro x m h whole
    cases room with
    | zero => cases h
    | succ room =>
      obtain ⟨parts, _, comprises⟩ := MaskField.ofSource?_eq_some_iff.mp h
      apply MaskField.ofSource?_eq_some_iff.mpr
      refine ⟨_, m.open?_toJson, ?_⟩
      obtain ⟨name, params, mask, onError⟩ := m
      cases comprises with
      | intro named valued masked caught =>
        refine .intro rfl (Source.optional?_source valued whole.1) ?_ (ErrorPolicy.optional?_toJson ..)
        cases mask with
        | nil => rfl
        | cons m mask =>
          have positive : 0 < room := Source.pos_of_list? masked (List.cons_ne_nil m mask)
          exact Source.list?_written (ih (room - 1) (by omega)) masked (masksAreWhole_iff.mp whole.2)
            positive

/-- And so is a request. -/
theorem Request.ofSource?_toJson {room : Nat} {x : Source} {r : Request}
    (h : Request.ofSource? (room + 2) x = some r) (whole : r.IsWhole) :
    Request.ofSource? (room + 2) r.toJson.source = some r := by
  obtain ⟨parts, _, comprises⟩ := Request.ofSource?_eq_some_iff.mp h
  apply Request.ofSource?_eq_some_iff.mpr
  refine ⟨_, r.open?_toJson, ?_⟩
  obtain ⟨method, body, mask, onError⟩ := r
  cases comprises with
  | intro named valued masked caught =>
    refine .intro rfl (Source.optional?_source valued whole.1) ?_ (ErrorPolicy.optional?_toJson ..)
    exact Source.list?_written (MaskField.ofSource?_toJson room) masked
      (masksAreWhole_iff.mp whole.2) (Nat.succ_pos room)

def FetchRequest.form : RecordForm := { names := ["requests"] }

theorem FetchRequest.ofSource?_eq_some_iff {room : Nat} {x : Source} {r : FetchRequest} :
    FetchRequest.ofSource? (room + 1) x = some r ↔ ∃ requests, form.open? x = some [requests] ∧
      Source.withDefault? [] (requests? room) requests = some r.requests := by
  rw [FetchRequest.ofSource?]
  constructor
  · intro h
    obtain ⟨parts, opened, h⟩ := Option.bind_eq_some_iff.mp h
    split at h
    · next requests =>
      obtain ⟨values, given, same⟩ := Option.bind_eq_some_iff.mp h
      cases same
      exact ⟨requests, opened, given⟩
    · cases h
  · rintro ⟨requests, opened, given⟩
    simp only [form] at opened
    simp [opened, given]

theorem FetchRequest.ofSource?_toJson {room : Nat} {x : Source} {r : FetchRequest}
    (h : FetchRequest.ofSource? (room + 4) x = some r) (whole : r.IsWhole) :
    FetchRequest.ofSource? (room + 4) r.toJson.source = some r := by
  obtain ⟨requests, _, given⟩ := FetchRequest.ofSource?_eq_some_iff.mp h
  apply FetchRequest.ofSource?_eq_some_iff.mpr
  refine ⟨some (.arr (r.requests.map fun q => q.toJson.source)), ?_, ?_⟩
  · rw [FetchRequest.toJson, RecordForm.open?_object rfl (by simp)]
    simp [form, List.lookup, Json.source, Json.itemSources_eq_map]
  · exact Source.list?_written (fun read whole => Request.ofSource?_toJson read whole) given whole
      (by omega)

def ListenRequest.form : RecordForm := { names := ["request"] }

theorem ListenRequest.ofSource?_eq_some_iff {room : Nat} {x : Source} {r : ListenRequest} :
    ListenRequest.ofSource? (room + 1) x = some r ↔ ∃ request, form.open? x = some [request] ∧
      Source.optional? (Request.ofSource? room) request = some r.request := by
  rw [ListenRequest.ofSource?]
  constructor
  · intro h
    obtain ⟨parts, opened, h⟩ := Option.bind_eq_some_iff.mp h
    split at h
    · next request =>
      obtain ⟨value, given, same⟩ := Option.bind_eq_some_iff.mp h
      cases same
      exact ⟨request, opened, given⟩
    · cases h
  · rintro ⟨request, opened, given⟩
    simp only [form] at opened
    simp [opened, given]

theorem ListenRequest.ofSource?_toJson {room : Nat} {x : Source} {r : ListenRequest}
    (h : ListenRequest.ofSource? (room + 3) x = some r) (whole : r.IsWhole) :
    ListenRequest.ofSource? (room + 3) r.toJson.source = some r := by
  obtain ⟨request, _, given⟩ := ListenRequest.ofSource?_eq_some_iff.mp h
  apply ListenRequest.ofSource?_eq_some_iff.mpr
  obtain ⟨value⟩ := r
  refine ⟨some ((value.map Request.toJson).getD .null).source, ?_, ?_⟩
  · rw [ListenRequest.toJson, RecordForm.open?_object rfl (by simp)]
    simp [form, List.lookup]
  · cases value with
    | none => rfl
    | some q =>
      cases request with
      | none => cases given
      | some x =>
        have read := (Source.optional?_eq_some_some_iff rfl).mp given
        exact (Source.optional?_eq_some_some_iff rfl).mpr (Request.ofSource?_toJson read (whole q rfl))

/-! ## Condensing -/

/-- What the members of a mask field and of a request say. Nulls and empty masks say nothing, and no
more do members of other names than the four. -/
def said (first value : String) (short : Source → Source) (name : String) (x : Source) : Option Source :=
  if name = first then some x
  else if name = value ∨ name = "onError" then x.present?
  else if name = "mask" then x.filled? short
  else none

/-- A mask field with what is said in it and, to a depth, in the fields under it. -/
def MaskField.gist : Nat → Source → Source
  | 0, x => x
  | depth + 1, x => form.condense (said "name" "params" (gist depth)) x

def Request.gist (depth : Nat) (x : Source) : Source :=
  form.condense (said "method" "body" (MaskField.gist depth)) x

def FetchRequest.gist (depth : Nat) (x : Source) : Source :=
  form.condense (fun name x => if name = "requests" then x.filled? (Request.gist depth) else none) x

def ListenRequest.gist (depth : Nat) (x : Source) : Source :=
  form.condense (fun name x => if name = "request" then x.present?.map (Request.gist depth) else none) x

theorem Comprises.said {room : Nat} {short : Source → Source}
    (same : ∀ {room x m}, MaskField.ofSource? room x = some m → MaskField.ofSource? room (short x) = some m)
    {parts : List (Option Source)} {text : String} {json : Option Json} {fields : List MaskField}
    {policy : Option ErrorPolicy} (h : Comprises room parts text json fields policy) {first value : String}
    (distinct : [first, value, "mask", "onError"].Nodup) :
    Comprises room (List.zipWith (fun name part => part.bind (Patchwork.said first value short name))
      [first, value, "mask", "onError"] parts) text json fields policy := by
  have apart : (value ≠ first ∧ "onError" ≠ first ∧ "mask" ≠ first) ∧ "mask" ≠ value := by
    simp only [List.nodup_cons, List.mem_cons, not_or] at distinct
    exact ⟨⟨Ne.symm distinct.1.1, Ne.symm distinct.1.2.2.1, Ne.symm distinct.1.2.1⟩,
      Ne.symm distinct.2.1.1⟩
  cases h with
  | intro named valued masked caught =>
    have at_first : Patchwork.said first value short first = some := by
      funext x
      simp [Patchwork.said]
    have at_value : Patchwork.said first value short value = Source.present? := by
      funext x
      simp [Patchwork.said, apart]
    have at_mask : Patchwork.said first value short "mask" = Source.filled? short := by
      funext x
      simp [Patchwork.said, apart]
    have at_policy : Patchwork.said first value short "onError" = Source.present? := by
      funext x
      simp [Patchwork.said, apart]
    simp only [List.zipWith_cons_cons, List.zipWith_nil_left, at_first, at_value, at_mask, at_policy]
    exact .intro (by simpa using named) (by rwa [Source.optional?_present?])
      (Source.list?_filled? same masked) (by rwa [Source.optional?_present?])

/-- A mask field is read in full from what is said in it. -/
theorem MaskField.ofSource?_gist (depth : Nat) : ∀ {room : Nat} {x : Source} {m : MaskField},
    MaskField.ofSource? room x = some m → MaskField.ofSource? room (gist depth x) = some m := by
  induction depth with
  | zero => exact id
  | succ depth ih =>
    intro room x m h
    cases room with
    | zero => cases h
    | succ room =>
      obtain ⟨parts, opened, comprises⟩ := MaskField.ofSource?_eq_some_iff.mp h
      apply MaskField.ofSource?_eq_some_iff.mpr
      exact ⟨_, RecordForm.open?_condense rfl (by decide) _ opened, comprises.said ih (by decide)⟩

theorem Request.ofSource?_gist (depth : Nat) {room : Nat} {x : Source} {r : Request}
    (h : Request.ofSource? room x = some r) : Request.ofSource? room (gist depth x) = some r := by
  cases room with
  | zero => cases h
  | succ room =>
    obtain ⟨parts, opened, comprises⟩ := Request.ofSource?_eq_some_iff.mp h
    apply Request.ofSource?_eq_some_iff.mpr
    exact ⟨_, RecordForm.open?_condense rfl (by decide) _ opened,
      comprises.said (MaskField.ofSource?_gist depth) (by decide)⟩

theorem FetchRequest.ofSource?_gist (depth : Nat) {room : Nat} {x : Source} {r : FetchRequest}
    (h : FetchRequest.ofSource? room x = some r) : FetchRequest.ofSource? room (gist depth x) = some r := by
  cases room with
  | zero => cases h
  | succ room =>
    obtain ⟨requests, opened, given⟩ := FetchRequest.ofSource?_eq_some_iff.mp h
    apply FetchRequest.ofSource?_eq_some_iff.mpr
    exact ⟨_, RecordForm.open?_condense rfl (by decide) _ opened,
      Source.list?_filled? (Request.ofSource?_gist depth) given⟩

theorem ListenRequest.ofSource?_gist (depth : Nat) {room : Nat} {x : Source} {r : ListenRequest}
    (h : ListenRequest.ofSource? room x = some r) :
    ListenRequest.ofSource? room (gist depth x) = some r := by
  cases room with
  | zero => cases h
  | succ room =>
    obtain ⟨request, opened, given⟩ := ListenRequest.ofSource?_eq_some_iff.mp h
    apply ListenRequest.ofSource?_eq_some_iff.mpr
    refine ⟨_, RecordForm.open?_condense rfl (by decide) _ opened, ?_⟩
    obtain ⟨value⟩ := r
    cases request with
    | none => exact given
    | some x =>
      have strict : Request.ofSource? room .null = none := by
        cases room <;> rfl
      by_cases missing : x = .null
      · subst missing
        exact given
      · have kept : x.present? = some x := by
          cases x <;> first | rfl | exact absurd rfl missing
        cases value with
        | none => cases x <;> simp [Source.optional?] at given missing
        | some q =>
          have read := (Source.optional?_eq_some_some_iff strict).mp given
          simp only [Option.bind_some, if_pos, kept, Option.map_some]
          exact (Source.optional?_eq_some_some_iff strict).mpr (Request.ofSource?_gist depth read)

/-! ## Texts -/

/-- What is read from a text, with as much room as there is. -/
def ofText? {α : Type} (read : Nat → Source → Option α) (text : String) : Option α :=
  (Source.parse? text).bind (read Json.maxDepth)

theorem ofText?_print {α : Type} {read : Nat → Source → Option α} {j : Json} (whole : j.IsWhole) :
    ofText? read j.print = read Json.maxDepth j.source := by
  rw [ofText?, Json.parse?_print whole, Option.bind_some]

/-- Values that are read from texts and written to texts. -/
structure RoundTrips {α : Type} (read : Nat → Source → Option α) (write : α → Json) (IsWhole : α → Prop)
    (gist : Nat → Source → Source) : Prop where
  /-- A value that was read is read again from its own text, and this text is written again. -/
  again {text : String} {a : α} : ofText? read text = some a → IsWhole a →
    ofText? read (write a).print = some a ∧
      (ofText? read (write a).print).map (fun b => (write b).print) = some (write a).print
  /-- Texts in which the same is said, to any depth, are not read as different values. -/
  alike {text text' : String} {x x' : Source} {a a' : α} (depth : Nat) :
    Source.parse? text = some x → Source.parse? text' = some x' → gist depth x = gist depth x' →
    ofText? read text = some a → ofText? read text' = some a' → a = a'

theorem RoundTrips.of {α : Type} {read : Nat → Source → Option α} {write : α → Json} {IsWhole : α → Prop}
    {gist : Nat → Source → Source}
    (whole : ∀ {a}, IsWhole a → (write a).IsWhole)
    (reread : ∀ {x a}, read Json.maxDepth x = some a → IsWhole a →
      read Json.maxDepth (write a).source = some a)
    (condensed : ∀ depth {x a}, read Json.maxDepth x = some a →
      read Json.maxDepth (gist depth x) = some a) :
    RoundTrips read write IsWhole gist where
  again := by
    intro text a h numbers
    obtain ⟨x, _, given⟩ := Option.bind_eq_some_iff.mp h
    have same : ofText? read (write a).print = some a := by
      rw [ofText?_print (whole numbers), reread given numbers]
    exact ⟨same, by rw [same, Option.map_some]⟩
  alike := by
    intro text text' x x' a a' depth parsed parsed' same h h'
    rw [ofText?, parsed, Option.bind_some] at h
    rw [ofText?, parsed', Option.bind_some] at h'
    have both : some a = some a' := by
      rw [← condensed depth h, same, condensed depth h']
    exact Option.some.inj both

/-- Requests of all kinds survive being written. Unknown members, nulls and empty masks do not count in
their texts. -/
theorem requests_round_trip :
    RoundTrips MaskField.ofSource? MaskField.toJson MaskField.IsWhole MaskField.gist ∧
    RoundTrips Request.ofSource? Request.toJson Request.IsWhole Request.gist ∧
    RoundTrips FetchRequest.ofSource? FetchRequest.toJson FetchRequest.IsWhole FetchRequest.gist ∧
    RoundTrips ListenRequest.ofSource? ListenRequest.toJson ListenRequest.IsWhole ListenRequest.gist := by
  refine ⟨?_, ?_, ?_, ?_⟩
  · exact .of MaskField.isWhole_toJson (MaskField.ofSource?_toJson _)
      fun depth _ _ => MaskField.ofSource?_gist depth
  · exact .of Request.isWhole_toJson Request.ofSource?_toJson
      fun depth _ _ => Request.ofSource?_gist depth
  · exact .of FetchRequest.isWhole_toJson FetchRequest.ofSource?_toJson
      fun depth _ _ => FetchRequest.ofSource?_gist depth
  · exact .of ListenRequest.isWhole_toJson ListenRequest.ofSource?_toJson
      fun depth _ _ => ListenRequest.ofSource?_gist depth

/-- A request in which not everything counts. -/
def wordyRequest : Json :=
  .obj [("body", .null),
    ("mask", .arr [.obj [("mask", .arr []), ("name", .str "team"),
      ("params", .obj [("max", .int 18446744073709551615)]), ("onError", .obj [("catch", .null)])]]),
    ("method", .str "demo.UserService.GetUser"), ("tag", .int 1)]

/-- The same request without the members that do not count, the mask field given by position. -/
def briefRequest : Json :=
  .obj [("mask", .arr [.arr [.str "team", .obj [("max", .int 18446744073709551615)], .arr [],
      .obj [("catch", .null)]]]),
    ("method", .str "demo.UserService.GetUser")]

theorem wordy_request_round_trips : ∃ r, ofText? Request.ofSource? wordyRequest.print = some r ∧
    r.IsWhole ∧ ofText? Request.ofSource? r.toJson.print = some r ∧
    ofText? Request.ofSource? briefRequest.print = some r := by
  have read : ofText? Request.ofSource? wordyRequest.print = _ := ofText?_print (by decide)
  have read' : ofText? Request.ofSource? briefRequest.print = _ := ofText?_print (by decide)
  have whole : ∀ r ∈ Request.ofSource? Json.maxDepth wordyRequest.source, r.IsWhole := by
    decide +kernel
  have accepted : (Request.ofSource? Json.maxDepth wordyRequest.source).isSome := by
    decide +kernel
  have accepted' : (Request.ofSource? Json.maxDepth briefRequest.source).isSome := by
    decide +kernel
  obtain ⟨r, given⟩ := Option.isSome_iff_exists.mp accepted
  obtain ⟨r', given'⟩ := Option.isSome_iff_exists.mp accepted'
  have again := (requests_round_trip.2.1.again (read.trans given) (whole r given)).1
  have parsed := Json.parse?_print (j := wordyRequest) (by decide)
  have parsed' := Json.parse?_print (j := briefRequest) (by decide)
  have gist : Request.gist 2 wordyRequest.source = Request.gist 2 briefRequest.source := rfl
  have same := requests_round_trip.2.1.alike 2 parsed parsed' gist (read.trans given) (read'.trans given')
  exact ⟨r, read.trans given, whole r given, again, same ▸ read'.trans given'⟩

end Patchwork
