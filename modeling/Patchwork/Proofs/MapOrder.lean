import Patchwork.Proofs.KeyOrder
import Patchwork.Proofs.Waves

/-!
# The order of maps does not show

Two messages that are the same but for the order in which the entries of their maps are given are
formatted into the same tree and leave the same patches in the same order, and their bodies go through
the same waves to the same end. In a tree the entries of a map are in the ascending order of their keys.
-/

namespace Patchwork
open Proto

/-! ## Steps -/

/-- Two failures are the same, but for why a message has no JSON form, which the printer tells of the value
it comes by first. -/
inductive Failure.Alike : Failure → Failure → Prop
  | refl (e : Failure) : Alike e e
  | unprintable (c c' : Unprintable) : Alike (.serialization c) (.serialization c')

/-- Two steps end with the same result or fail alike, in related states. -/
inductive EndAlike {σ α : Type} (S : σ → σ → Prop) :
    EStateM.Result Failure σ α → EStateM.Result Failure σ α → Prop
  | ok (a : α) {s s' : σ} (same : S s s') : EndAlike S (.ok a s) (.ok a s')
  | error {e e' : Failure} {s s' : σ} (alike : e.Alike e') (same : S s s') :
      EndAlike S (.error e s) (.error e' s')

/-- From related states two steps end alike. -/
def StepAlike {σ α : Type} (S : σ → σ → Prop) (x x' : EStateM Failure σ α) : Prop :=
  ∀ s s', S s s' → EndAlike S (x s) (x' s')

namespace StepAlike

variable {σ α β : Type} {S : σ → σ → Prop}

theorem pure (a : α) : StepAlike S (Pure.pure a) (Pure.pure a) := fun _ _ same => .ok a same

theorem throw {e e' : Failure} (alike : e.Alike e') :
    StepAlike S (throw e : EStateM Failure σ α) (throw e') := fun _ _ same => .error alike same

theorem bind {x x' : EStateM Failure σ α} {f f' : α → EStateM Failure σ β} (hx : StepAlike S x x')
    (hf : ∀ a, StepAlike S (f a) (f' a)) : StepAlike S (x >>= f) (x' >>= f') := by
  intro s s' same
  have first := hx s s' same
  simp only [Bind.bind, EStateM.bind]
  generalize x s = r at first ⊢
  generalize x' s' = r' at first ⊢
  cases first with
  | ok a same => exact hf a _ _ same
  | error alike same => exact .error alike same

theorem mapM {γ : Type} {R : γ → γ → Prop} {f : γ → EStateM Failure σ α}
    (hf : ∀ a b, R a b → StepAlike S (f a) (f b)) {xs ys : List γ} (h : List.Forall₂ R xs ys) :
    StepAlike S (xs.mapM f) (ys.mapM f) := by
  induction h with
  | nil => exact .pure []
  | cons related _ ih =>
    rw [List.mapM_cons, List.mapM_cons]
    exact (hf _ _ related).bind fun b => ih.bind fun bs => .pure (b :: bs)

end StepAlike

/-! ## Formatting -/

/-- The same patch, but for the order of maps in its base. -/
structure Patch.Reorders (p p' : Patch) : Prop where
  base : p.base.Reorders p'.base
  slot : p.slot = p'.slot
  target : p.target = p'.target
  field : p.field = p'.field

structure Draft.Reorders (d d' : Draft) : Prop where
  slots : d.slots = d'.slots
  patches : List.Forall₂ Patch.Reorders d.patches d'.patches

namespace Formatting

/-- Two ways to format end alike, with the same slots reserved for the same patches. -/
abbrev Agree {α : Type} (x x' : Formatting α) : Prop := StepAlike Draft.Reorders x x'

theorem agree_wellKnown {m m' : Message} (h : m.Reorders m') : Agree (wellKnown m) (wellKnown m') := by
  have same := h.print
  unfold wellKnown
  cases printed : m.print with
  | ok j =>
    rw [printed] at same
    cases printed' : m'.print with
    | ok j' =>
      rw [printed'] at same
      cases same
      exact .pure _
    | error c =>
      rw [printed'] at same
      cases same
  | error c =>
    rw [printed] at same
    cases printed' : m'.print with
    | ok j' =>
      rw [printed'] at same
      cases same
    | error c' => exact .throw (.unprintable c c')

theorem agree_reserve {m m' : Message} (h : m.Reorders m') (field : Selected) (fallback : Bool)
    (target : Option Nat) : Agree (reserve m field fallback target) (reserve m' field fallback target) := by
  intro d d' same
  unfold reserve
  rw [same.slots]
  exact .ok _ ⟨rfl, List.rel_append same.patches (.cons ⟨h, rfl, rfl, rfl⟩ .nil)⟩

theorem describe_reorders {v w : Value} (h : v.Reorders w) : describe v = describe w := by
  cases h with
  | scalar s => rfl
  | message h => exact congrArg MessageType.name h.type
  | list h => rfl
  | map one h perm => rfl

/-- A map comes to the entries in the order of their keys, in whatever order they are given. -/
theorem agree_contain (container : Container) (f : Field) {element : Bool → Value → Formatting Node}
    (inner : ∀ inside v w, v.Reorders w → Agree (element inside v) (element inside w)) {v w : Value}
    (h : v.Reorders w) : Agree (contain container f v element) (contain container f w element) := by
  cases container with
  | one => exact inner false v w h
  | list =>
    cases h with
    | list h => exact (StepAlike.mapM (inner true) h.forall₂).bind fun nodes => .pure _
    | scalar s => exact .throw (.refl _)
    | message h => exact .throw (.refl _)
    | map one h perm => exact .throw (.refl _)
  | map t =>
    cases h with
    | map one h perm =>
      refine (StepAlike.mapM ?_ (sortEntries_reorders one h perm)).bind fun nodes => .pure _
      rintro ⟨k, v⟩ ⟨l, w⟩ ⟨rfl, h⟩
      exact (inner true v w h).bind fun node => .pure _
    | scalar s => exact .throw (.refl _)
    | message h => exact .throw (.refl _)
    | list h => exact .throw (.refl _)

section

variable (fallback : Bool) (target : Option Nat)

mutual
theorem agree_element (pool : Pool) (k : Kind) : ∀ (shape : Shape) (inside : Bool) (v w : Value),
    v.Reorders w → Agree (element fallback target pool k shape inside v)
      (element fallback target pool k shape inside w)
  | .scalar t, inside, v, w, h => by
    have word := describe_reorders h
    cases h with
    | scalar s => exact .pure _
    | message h | list h | map one h perm =>
      simp only [element, word]
      exact .throw (.refl _)
  | .message name fields, inside, v, w, h => by
    have word := describe_reorders h
    cases h with
    | message h =>
      simp only [element, h.type]
      split
      · exact agree_wellKnown h
      · exact (agree_members fields h).bind fun ms => .pure _
    | scalar s | list h | map one h perm =>
      simp only [element, word]
      exact .throw (.refl _)

theorem agree_members : ∀ (fields : List Selected) {m m' : Message}, m.Reorders m' →
    Agree (members fallback target m fields) (members fallback target m' fields)
  | [], _, _, _ => .pure []
  | f :: rest, m, m', h => by
    rw [members, members]
    exact (agree_member f h).bind fun here => (agree_members rest h).bind fun others => .pure _

theorem agree_member : ∀ (selected : Selected) {m m' : Message}, m.Reorders m' →
    Agree (member fallback target m selected) (member fallback target m' selected)
  | .mk info shape, m, m', h => by
    rw [member, member, h.type]
    split
    · exact (agree_reserve h _ fallback target).bind fun node => .pure _
    · cases m'.type.field? info.name with
      | none => exact .throw (.refl _)
      | some f =>
        have value := h.value? f
        dsimp only
        generalize m.value? f = x at value ⊢
        generalize m'.value? f = y at value ⊢
        cases value with
        | none => exact .pure _
        | some h =>
          exact (agree_contain info.container f (agree_element m'.type.pool f.kind shape) h).bind
            fun node => .pure _
end

end
end Formatting

theorem formatMessage_agree {m m' : Message} (h : m.Reorders m') (schema : Schema) (target : Option Nat)
    (fallback : Bool) : Formatting.Agree (formatMessage m schema target fallback)
      (formatMessage m' schema target fallback) := by
  unfold formatMessage
  rw [h.type]
  split
  · exact Formatting.agree_wellKnown h
  · exact (Formatting.agree_members fallback target schema.fields h).bind fun ms => .pure _

theorem formatRelationValue_agree {v w : Value} (h : v.Reorders w) (selected : Selected)
    (target : Option Nat) (fallback : Bool) : Formatting.Agree
      (formatRelationValue selected v target fallback) (formatRelationValue selected w target fallback) := by
  unfold formatRelationValue
  cases selected.info.relation with
  | none => exact .throw (.refl _)
  | some r =>
    exact Formatting.agree_contain _ _
      (Formatting.agree_element fallback target r.method.pool r.field.kind selected.shape) h

/-- Outcomes are related when both are failures that look alike, or both are results that are related. -/
inductive Outcome.Alike {α : Type} (R : α → α → Prop) : Outcome α → Outcome α → Prop
  | ok {a b : α} (related : R a b) : Alike R (.ok a) (.ok b)
  | error {e e' : Failure} (alike : e.Alike e') : Alike R (.error e) (.error e')

/-- The same tree, and patches that are the same one by one, but for the order of maps in their bases. -/
structure SameFormat (x y : Node × List Patch) : Prop where
  node : x.1 = y.1
  patches : List.Forall₂ Patch.Reorders x.2 y.2

/-- Two ways to format into a document give the same tree and reserve the same slots. -/
structure Document.FormatAlike (d : Document) (x x' : Formatting Node) : Prop where
  outcome : Outcome.Alike SameFormat (d.format x).1 (d.format x').1
  document : (d.format x).2 = (d.format x').2

theorem Formatting.Agree.format {x x' : Formatting Node} (h : Formatting.Agree x x') (d : Document) :
    d.FormatAlike x x' := by
  have results := h ⟨d.size, []⟩ ⟨d.size, []⟩ ⟨rfl, .nil⟩
  constructor
  · unfold Document.format
    generalize x ⟨d.size, []⟩ = r at results ⊢
    generalize x' ⟨d.size, []⟩ = r' at results ⊢
    cases results with
    | ok node same => exact .ok ⟨rfl, same.patches⟩
    | error alike same => exact .error alike
  · unfold Document.format
    generalize x ⟨d.size, []⟩ = r at results ⊢
    generalize x' ⟨d.size, []⟩ = r' at results ⊢
    cases results with
    | ok node same => exact congrArg d.grow same.slots
    | error alike same => exact congrArg d.grow same.slots

/-! ## Stitching -/

structure Batch.Reorders (b b' : Batch) : Prop where
  relation : b.relation = b'.relation
  params : b.params = b'.params
  entries : List.Forall₂ Patch.Reorders b.entries b'.entries

/-- Resolvers reply alike when they give the same values, but for the order of maps, or fail in the same
way. -/
inductive Resolution.Reorders : Resolution → Resolution → Prop
  | ok {values values' : List (Option Value)}
      (same : List.Forall₂ (Option.Rel Value.Reorders) values values') : Reorders (.ok values) (.ok values')
  | error (e : Failure) : Reorders (.error e) (.error e)

inductive Action.Reorders : Action → Action → Prop
  | absent {p p' : Patch} (entry : p.Reorders p') : Reorders (.value p none) (.value p' none)
  | value {p p' : Patch} {v v' : Value} (entry : p.Reorders p') (same : v.Reorders v') :
      Reorders (.value p (some v)) (.value p' (some v'))
  | failure {b b' : Batch} (batch : b.Reorders b') (e : Failure) : Reorders (.failure b e) (.failure b' e)

/-- Waves of the same batches with the same replies, but for the order of maps. -/
def Wave.Reorders (w w' : Wave) : Prop :=
  List.Forall₂ (fun x x' => x.1.Reorders x'.1 ∧ Resolution.Reorders x.2 x'.2) w w'

structure Stitched.Reorders (s s' : Stitched) : Prop where
  document : s.document = s'.document
  pending : List.Forall₂ Patch.Reorders s.pending s'.pending

theorem Batch.Reorders.errors {b b' : Batch} (h : b.Reorders b') (e : Failure) :
    b.errors e = b'.errors e := by
  have entries := h.entries
  unfold Batch.errors
  rw [h.relation]
  generalize b.entries = ps at entries ⊢
  generalize b'.entries = ps' at entries ⊢
  induction entries with
  | nil => rfl
  | cons entry _ ih => rw [List.filterMap_cons, List.filterMap_cons, ih, entry.target, entry.field]

theorem Batch.Reorders.targets {b b' : Batch} (h : b.Reorders b') :
    b.entries.mapM (·.target) = b'.entries.mapM (·.target) := by
  have entries := h.entries
  generalize b.entries = ps at entries ⊢
  generalize b'.entries = ps' at entries ⊢
  induction entries with
  | nil => rfl
  | cons entry _ ih => rw [List.mapM_cons, List.mapM_cons, ih, entry.target]

theorem forall₂_values {ps ps' : List Patch} {values values' : List (Option Value)}
    (entries : List.Forall₂ Patch.Reorders ps ps')
    (same : List.Forall₂ (Option.Rel Value.Reorders) values values') :
    List.Forall₂ Action.Reorders ((ps.zip values).map fun (p, v) => .value p v)
      ((ps'.zip values').map fun (p, v) => .value p v) := by
  induction entries generalizing values values' with
  | nil => exact .nil
  | cons entry _ ih =>
    cases same with
    | nil => exact .nil
    | cons value rest =>
      cases value with
      | none => exact .cons (.absent entry) (ih rest)
      | some value => exact .cons (.value entry value) (ih rest)

theorem Batch.Reorders.actions {b b' : Batch} (h : b.Reorders b') {r r' : Resolution}
    (same : Resolution.Reorders r r') :
    List.Forall₂ Action.Reorders (b.actions r) (b'.actions r') := by
  cases same with
  | error e => exact .cons (.failure h e) .nil
  | @ok values values' same =>
    have check : ∀ {b : Batch} {vs : List (Option Value)}, ((.ok vs : Resolution) >>= b.check) = b.check vs :=
      rfl
    unfold Batch.actions
    rw [check, check]
    unfold Batch.check
    rw [← same.length_eq, ← h.entries.length_eq, ← h.relation]
    by_cases count : values.length = b.entries.length
    · simp only [if_pos count]
      exact forall₂_values h.entries same
    · simp only [if_neg count]
      exact .cons (.failure h _) .nil

namespace Stitching

theorem act_alike (fallback : Bool) {a a' : Action} (h : a.Reorders a') :
    StepAlike Stitched.Reorders (act fallback a) (act fallback a') := by
  intro s s' same
  cases h with
  | absent entry => exact .ok () same
  | @value p p' v v' entry values =>
    obtain ⟨outcome, document⟩ :=
      (formatRelationValue_agree values p.field p.target fallback).format s.document
    change EndAlike _ (place fallback p v s) (place fallback p' v' s')
    unfold place
    rw [← same.document, ← entry.field, ← entry.target, ← entry.slot]
    generalize s.document.format (formatRelationValue p.field v p.target fallback) = x at outcome document ⊢
    generalize s.document.format (formatRelationValue p.field v' p.target fallback) = x' at outcome document ⊢
    obtain ⟨r, d⟩ := x
    obtain ⟨r', d'⟩ := x'
    cases document
    cases outcome with
    | ok related =>
      exact .ok () ⟨congrArg (d.fill p.slot) related.node, List.rel_append same.pending related.patches⟩
    | error alike => exact .error alike ⟨rfl, same.pending⟩
  | @failure b b' batch e =>
    change EndAlike _ ((embed b e).run s) ((embed b' e).run s')
    cases targets : b.entries.mapM (·.target) with
    | none =>
      rw [run_embed_none e s targets, run_embed_none e s' (batch.targets ▸ targets)]
      exact .error (.refl e) same
    | some ts =>
      rw [run_embed_some e s targets, run_embed_some e s' (batch.targets ▸ targets), batch.errors e,
        same.document]
      exact .ok () ⟨rfl, same.pending⟩

theorem actAll_alike (fallback : Bool) {as as' : List Action} (h : List.Forall₂ Action.Reorders as as') :
    StepAlike Stitched.Reorders (actAll fallback as) (actAll fallback as') := by
  induction h with
  | nil => exact .pure ()
  | cons action _ ih => exact (act_alike fallback action).bind fun _ => ih

end Stitching

/-! ## Waves -/

theorem Batch.insert_reorders {p p' : Patch} (entry : p.Reorders p') (r : Relation) {bs bs' : List Batch}
    (batches : List.Forall₂ Batch.Reorders bs bs') :
    List.Forall₂ Batch.Reorders (insert p r bs) (insert p' r bs') := by
  induction batches with
  | nil => exact .cons ⟨rfl, by rw [entry.field], .cons entry .nil⟩ .nil
  | @cons b b' bs bs' batch rest ih =>
    have taken : b.takes r p.field.info.params = b'.takes r p'.field.info.params := by
      rw [Batch.takes, Batch.takes, batch.relation, batch.params, entry.field]
    unfold insert
    rw [taken]
    split
    · exact .cons ⟨batch.relation, batch.params, List.rel_append batch.entries (.cons entry .nil)⟩ rest
    · exact .cons batch ih

/-- Folds that go alike step by step come to alike ends. -/
theorem Outcome.foldlM_alike {α β : Type} {R : α → α → Prop} {S : β → β → Prop}
    {f : β → α → Outcome β} (step : ∀ {b b' a a'}, S b b' → R a a' → Outcome.Alike S (f b a) (f b' a'))
    {xs ys : List α} (h : List.Forall₂ R xs ys) {b b' : β} (start : S b b') :
    Outcome.Alike S (xs.foldlM f b) (ys.foldlM f b') := by
  induction h generalizing b b' with
  | nil => exact .ok start
  | @cons x y xs ys related _ ih =>
    have first := step start related
    rw [List.foldlM_cons, List.foldlM_cons]
    generalize f b x = r at first ⊢
    generalize f b' y = r' at first ⊢
    cases first with
    | ok next => exact ih next
    | error alike => exact .error alike

theorem Batch.group_reorders {ps ps' : List Patch} (entries : List.Forall₂ Patch.Reorders ps ps') :
    Outcome.Alike (List.Forall₂ Batch.Reorders) (group ps) (group ps') := by
  refine Outcome.foldlM_alike (fun {bs bs' p p'} batches entry => ?_) entries .nil
  rw [← entry.field]
  cases p.field.info.relation with
  | none => exact .error (.refl _)
  | some r => exact .ok (insert_reorders entry r batches)

namespace Progress

/-- Two bodies have come equally far. -/
inductive Reorders : Progress → Progress → Prop
  | wave (d : Document) {bs bs' : List Batch} (batches : List.Forall₂ Batch.Reorders bs bs') :
      Reorders (.wave d bs) (.wave d bs')
  | finished (d : Document) : Reorders (.finished d none) (.finished d none)
  | failed (d : Document) {e e' : Failure} (alike : e.Alike e') :
      Reorders (.finished d (some e)) (.finished d (some e'))

/-- The body at the end, if there was no failure. -/
def body? : Progress → Option Json
  | .finished d none => some (d.toJson 0)
  | _ => none

theorem Reorders.body?_eq {p p' : Progress} (h : p.Reorders p') : p.body? = p'.body? := by
  cases h <;> rfl

theorem enter_reorders {s s' : Stitched} (h : s.Reorders s') : (enter s).Reorders (enter s') := by
  obtain ⟨d, pending⟩ := s
  obtain ⟨d', pending'⟩ := s'
  obtain ⟨document, pending⟩ := h
  cases document
  cases pending with
  | nil => exact .finished d
  | @cons p p' ps ps' entry rest =>
    have grouped := Batch.group_reorders (.cons entry rest)
    simp only [enter]
    generalize Batch.group (p :: ps) = r at grouped ⊢
    generalize Batch.group (p' :: ps') = r' at grouped ⊢
    cases grouped with
    | ok batches => exact .wave d batches
    | error alike => exact .failed d alike

theorem ofMessage_reorders {m m' : Message} (h : m.Reorders m') (schema : Schema)
    (policy : Option ErrorPolicy) (fallback : Bool) :
    (ofMessage m schema policy fallback).Reorders (ofMessage m' schema policy fallback) := by
  have formatted := (formatMessage_agree h schema (if shouldCatch policy fallback then some 0 else none)
    fallback).format (Document.grow {} 1)
  obtain ⟨outcome, document⟩ := formatted
  simp only [ofMessage]
  generalize Document.format _ (formatMessage m _ _ _) = x at outcome document ⊢
  generalize Document.format _ (formatMessage m' _ _ _) = x' at outcome document ⊢
  obtain ⟨r, d⟩ := x
  obtain ⟨r', d'⟩ := x'
  cases document
  cases outcome with
  | ok same => exact enter_reorders ⟨congrArg (d.fill 0) same.node, same.patches⟩
  | error alike => exact .failed d alike

end Progress

theorem Wave.Reorders.actions {w w' : Wave} (h : w.Reorders w') :
    List.Forall₂ Action.Reorders w.actions w'.actions := by
  induction h with
  | nil => exact .nil
  | cons related _ ih => exact List.rel_append (related.1.actions related.2) ih

theorem Progress.advance_reorders (fallback : Bool) (d : Document) {w w' : Wave} (h : w.Reorders w') :
    (advance fallback d w.results).Reorders (advance fallback d w'.results) := by
  have results := Stitching.actAll_alike fallback h.actions ⟨d, []⟩ ⟨d, []⟩ ⟨rfl, .nil⟩
  unfold advance
  rw [Stitching.absorbAll_eq, Stitching.absorbAll_eq]
  generalize Stitching.actAll fallback w.actions ⟨d, []⟩ = r at results ⊢
  generalize Stitching.actAll fallback w'.actions ⟨d, []⟩ = r' at results ⊢
  cases results with
  | ok u same => exact enter_reorders same
  | @error e e' s s' alike same =>
    dsimp only
    rw [same.document]
    exact .failed _ alike

/-- The replies of a wave. -/
def Wave.replies (w : Wave) : List Resolution := w.map (·.2)

/-- The same batches with replies that are alike make up the same wave. -/
theorem Wave.exists_reorders {w : Wave} {bs : List Batch} {rs : List Resolution}
    (batches : List.Forall₂ Batch.Reorders w.batches bs)
    (replies : List.Forall₂ Resolution.Reorders w.replies rs) :
    ∃ w' : Wave, w'.batches = bs ∧ w'.replies = rs ∧ w.Reorders w' := by
  induction w generalizing bs rs with
  | nil =>
    cases batches
    cases replies
    exact ⟨[], rfl, rfl, .nil⟩
  | cons x rest ih =>
    cases batches with
    | cons batch batches =>
      cases replies with
      | @cons _ r _ _ reply replies =>
        obtain ⟨w', rfl, rfl, same⟩ := ih batches replies
        exact ⟨(_, r) :: w', rfl, rfl, .cons ⟨batch, reply⟩ same⟩

/-- Where resolvers reply alike, bodies that have come equally far go through the same waves and stay
equally far. -/
theorem Progress.Runs.reorders {fallback : Bool} {p p' q : Progress} {ws : List Wave}
    (h : p.Runs fallback ws q) (same : p.Reorders p') {replies : List (List Resolution)}
    (alike : List.Forall₂ (List.Forall₂ Resolution.Reorders) (ws.map Wave.replies) replies) :
    ∃ ws' q', p'.Runs fallback ws' q' ∧ ws'.map Wave.replies = replies ∧
      List.Forall₂ Wave.Reorders ws ws' ∧ q.Reorders q' := by
  induction h generalizing p' replies with
  | stop p =>
    cases alike
    exact ⟨[], p', .stop p', rfl, .nil, same⟩
  | @wave d batches w ws q answered rest ih =>
    subst answered
    cases alike with
    | cons reply others =>
      cases same with
      | wave d batches =>
        obtain ⟨w', rfl, rfl, wave⟩ := Wave.exists_reorders batches reply
        obtain ⟨ws', q', run, rfl, waves, far⟩ := ih (advance_reorders fallback d wave) others
        exact ⟨w' :: ws', q', .wave rfl run, rfl, .cons wave waves, far⟩

/-! ## Entries in a tree -/

/-- What a list of items is taken to, each item is taken to in turn. -/
theorem Formatting.forall₂_of_mapM {α β : Type} {f : α → Formatting β} {xs : List α} {ys : List β}
    {d d' : Draft} (h : (xs.mapM f).run d = .ok ys d') :
    List.Forall₂ (fun x y => ∃ c c', (f x).run c = .ok y c') xs ys := by
  induction xs generalizing d ys with
  | nil =>
    cases h
    exact .nil
  | cons x xs ih =>
    rw [List.mapM_cons] at h
    obtain ⟨y, c, first, h⟩ := run_bind_ok h
    obtain ⟨zs, c', others, h⟩ := run_bind_ok h
    cases h
    exact .cons ⟨d, c, first⟩ (ih others)

/-- A node is an object of the entries of a map, each under the text of its key and with what its value
is formatted to. The keys ascend, and no two of them have the same text. -/
inductive Node.Lists (entries : List (Key × Value)) (element : Value → Formatting Node) : Node → Prop
  | object {sorted : List (Key × Value)} {members : List (String × Node)} (perm : sorted.Perm entries)
      (ascending : (sorted.map (·.1)).Pairwise Key.Ascends)
      (each : List.Forall₂ (fun e x => e.1.text = x.1 ∧ ∃ c c', (element e.2).run c = .ok x.2 c')
        sorted members)
      (apart : (members.map (·.1)).Nodup) : Lists entries element (.object members)

/-- A map is formatted to an object of its entries. -/
theorem Formatting.contain_lists {t : ScalarType} {f : Field} {entries : List (Key × Value)}
    {element : Bool → Value → Formatting Node} {d d' : Draft} {node : Node} (one : OneMap entries)
    (h : (contain (.map t) f (.map entries) element).run d = .ok node d') :
    node.Lists entries (element true) := by
  obtain ⟨members, c, gone, h⟩ := run_bind_ok h
  cases h
  have each : List.Forall₂ (fun e x => e.1.text = x.1 ∧
      ∃ c c', (element true e.2).run c = .ok x.2 c') (sortEntries entries) members := by
    refine (forall₂_of_mapM gone).imp ?_
    rintro e x ⟨c, c', there⟩
    obtain ⟨node, c₁, inner, same⟩ := run_bind_ok there
    cases same
    exact ⟨rfl, c, c', inner⟩
  have perm := sortEntries_perm entries
  have names : members.map (·.1) = (sortEntries entries).map (·.1.text) := by
    rw [← List.forall₂_eq_eq_eq, List.forall₂_map_left_iff, List.forall₂_map_right_iff]
    exact each.flip.imp fun x e there => there.1.symm
  refine .object perm (ascending_sortEntries one) each ?_
  rw [names]
  exact (perm.map (·.1.text)).nodup_iff.mpr one.nodup_texts

/-! ## Messages -/

/-- However resolvers reply, two bodies go through the same waves and come equally far. -/
def Progress.RunsAlike (fallback : Bool) (p p' : Progress) : Prop :=
  ∀ ws q, p.Runs fallback ws q →
    ∀ replies, List.Forall₂ (List.Forall₂ Resolution.Reorders) (ws.map Wave.replies) replies →
      ∃ ws' q', p'.Runs fallback ws' q' ∧ ws'.map Wave.replies = replies ∧
        List.Forall₂ Wave.Reorders ws ws' ∧ q.Reorders q' ∧ q.body? = q'.body?

/-- No schema tells two messages apart: they are formatted to the same tree, with the same slots and
patches, and their bodies run alike. -/
structure Proto.Message.LooksLike (m m' : Message) : Prop where
  format (d : Document) (schema : Schema) (target : Option Nat) (fallback : Bool) :
    d.FormatAlike (formatMessage m schema target fallback) (formatMessage m' schema target fallback)
  run (schema : Schema) (policy : Option ErrorPolicy) (fallback : Bool) :
    Progress.RunsAlike fallback (.ofMessage m schema policy fallback)
      (.ofMessage m' schema policy fallback)

theorem Proto.Message.Reorders.looksLike {m m' : Message} (h : m.Reorders m') : m.LooksLike m' where
  format d schema target fallback := (formatMessage_agree h schema target fallback).format d
  run schema policy fallback ws q run replies alike := by
    have start := Progress.ofMessage_reorders h schema policy fallback
    obtain ⟨ws', q', run', replied, waves, far⟩ := run.reorders start alike
    exact ⟨ws', q', run', replied, waves, far, far.body?_eq⟩

/-- The order in which the entries of maps are given does not show, and a map is formatted to an object
of its entries by ascending keys, whose texts differ. -/
theorem map_order_is_hidden :
    (∀ m m' : Message, m.Reorders m' → m.LooksLike m' ∧ m'.LooksLike m) ∧
    ∀ (t : ScalarType) (f : Field) (entries : List (Key × Value))
      (element : Bool → Value → Formatting Node) (d d' : Draft) (node : Node), OneMap entries →
      (Formatting.contain (.map t) f (.map entries) element).run d = .ok node d' →
      node.Lists entries (element true) := by
  constructor
  · intro m m' same
    exact ⟨same.looksLike, same.symm.looksLike⟩
  · intro t f entries element d d' node one h
    exact Formatting.contain_lists one h

namespace Sample

def books : Field where
  name := "books"
  jsonName := "books"
  number := 1
  kind := .message "Item"
  arity := .map .int32 true

def library : Pool where
  messages := pool.messages ++ [⟨"Shelf", [books]⟩]

def book (text : String) : Message :=
  .mk (library.message "Item") [(1, .scalar (.string text))] []

def ninth : Key × Value := (.int32 9, .message (book "knots"))

def tenth : Key × Value := (.int32 10, .message (book "hitches"))

def shelf (entries : List (Key × Value)) : Message :=
  .mk (library.message "Shelf") [(1, .map entries)] []

/-- How a book is formatted with its title and its parent. -/
def formatBook (inside : Bool) (v : Value) : Formatting Node :=
  Formatting.element false none library (.message "Item") (.message "Item" schema.fields) inside v

theorem oneMap_shelf : OneMap [tenth, ninth] where
  distinct := by decide
  typed := by decide

theorem sortEntries_shelf : Formatting.sortEntries [tenth, ninth] = [ninth, tenth] := by
  simp [Formatting.sortEntries, List.mergeSort, tenth, ninth, Key.le]

theorem book_reorders (text : String) : (book text).Reorders (book text) :=
  .mk _ _ (.cons 1 (.scalar _) .nil)

theorem shelf_reorders : (shelf [tenth, ninth]).Reorders (shelf [ninth, tenth]) :=
  .mk _ _ (.cons 1 (.map oneMap_shelf
    (.cons _ (.message (book_reorders _)) (.cons _ (.message (book_reorders _)) .nil))
    (.swap ..)) .nil)

end Sample

/-- The ninth book of a shelf comes before the tenth, however they are given. -/
theorem shelf_order_is_hidden :
    Sample.shelf [Sample.tenth, Sample.ninth] ≠ Sample.shelf [Sample.ninth, Sample.tenth] ∧
    (Sample.shelf [Sample.tenth, Sample.ninth]).LooksLike (Sample.shelf [Sample.ninth, Sample.tenth]) ∧
    ∃ members d', (Formatting.contain (.map .int32) Sample.books (.map [Sample.tenth, Sample.ninth])
        Sample.formatBook).run ⟨1, []⟩ = .ok (.object members) d' ∧
      members.map (·.1) = ["9", "10"] ∧ d'.slots = 3 ∧
      Node.Lists [Sample.tenth, Sample.ninth] (Sample.formatBook true) (.object members) := by
  have formatted : ∃ members d', (Formatting.contain (.map .int32) Sample.books
      (.map [Sample.tenth, Sample.ninth]) Sample.formatBook).run ⟨1, []⟩ = .ok (.object members) d' ∧
      members.map (·.1) = ["9", "10"] ∧ d'.slots = 3 := by
    unfold Formatting.contain
    simp only [Sample.sortEntries_shelf]
    exact ⟨_, _, rfl, rfl, rfl⟩
  obtain ⟨members, d', run, names, slots⟩ := formatted
  refine ⟨?_, (map_order_is_hidden.1 _ _ Sample.shelf_reorders).1, members, d', run, names, slots,
    map_order_is_hidden.2 _ _ _ _ _ _ _ Sample.oneMap_shelf run⟩
  simp [Sample.shelf, Sample.ninth, Sample.tenth]

end Patchwork
