import Patchwork.Proofs.Batches
import Patchwork.Schedule

/-!
# Policies of ordinary fields

Only relations fail on their own. The policies of other fields, at any depth of a schema, make no
difference to a run: without them each step does the same, and the batch ends in the same way.
-/

namespace Patchwork
open Proto

/-! ## Schemas without policies of ordinary fields -/

/-- A selection that keeps its policy only if it is of a relation. -/
def Selection.plain (i : Selection) : Selection :=
  if i.relation.isSome then i else { i with onError := none }

mutual
/-- Drops the policies of ordinary fields at any depth. -/
def Shape.plain : Shape → Shape
  | .scalar s => .scalar s
  | .message name fields => .message name (plainAll fields)

def plainAll : List Selected → List Selected
  | [] => []
  | s :: rest => s.plain :: plainAll rest

def Selected.plain : Selected → Selected
  | .mk info shape => .mk info.plain shape.plain
end

def Schema.plain (s : Schema) : Schema := { s with fields := plainAll s.fields }

namespace Selection

@[simp] theorem plain_name (i : Selection) : i.plain.name = i.name := by
  unfold plain
  split <;> rfl

@[simp] theorem plain_container (i : Selection) : i.plain.container = i.container := by
  unfold plain
  split <;> rfl

@[simp] theorem plain_relation (i : Selection) : i.plain.relation = i.relation := by
  unfold plain
  split <;> rfl

@[simp] theorem plain_params (i : Selection) : i.plain.params = i.params := by
  unfold plain
  split <;> rfl

@[simp] theorem plain_path (i : Selection) : i.plain.path = i.path := by
  unfold plain
  split <;> rfl

@[simp] theorem plain_operations (i : Selection) : i.plain.operations = i.operations := by
  unfold plain
  split <;> rfl

theorem plain_onError {i : Selection} (h : i.relation.isSome) : i.plain.onError = i.onError := by
  rw [plain, if_pos h]

end Selection

@[simp] theorem Selected.info_plain (s : Selected) : s.plain.info = s.info.plain := by
  obtain ⟨info, shape⟩ := s
  rfl

@[simp] theorem Selected.shape_plain (s : Selected) : s.plain.shape = s.shape.plain := by
  obtain ⟨info, shape⟩ := s
  rfl

mutual
theorem Shape.relationDepth_plain : ∀ shape : Shape, shape.plain.relationDepth = shape.relationDepth
  | .scalar _ => rfl
  | .message _ fields => fieldsDepth_plainAll fields

@[simp] theorem fieldsDepth_plainAll : ∀ fields : List Selected,
    fieldsDepth (plainAll fields) = fieldsDepth fields
  | [] => rfl
  | s :: rest => by
    rw [plainAll, fieldsDepth, fieldsDepth, Selected.relationDepth_plain s, fieldsDepth_plainAll rest]

@[simp] theorem Selected.relationDepth_plain : ∀ s : Selected, s.plain.relationDepth = s.relationDepth
  | .mk info shape => by
    rw [Selected.plain, Selected.relationDepth, Selected.relationDepth, Selection.plain_relation,
      Shape.relationDepth_plain shape]
end

/-! ## Steps that a change of the state goes through -/

/-- Changes the state that a step leaves. -/
def mapState {ε σ α : Type} (φ : σ → σ) : EStateM.Result ε σ α → EStateM.Result ε σ α
  | .ok a s => .ok a (φ s)
  | .error e s => .error e (φ s)

/-- The step `y` does after a change of the state what the step `x` does before it. -/
def Mirrors {ε σ α : Type} (φ : σ → σ) (x y : EStateM ε σ α) : Prop :=
  ∀ s, y.run (φ s) = mapState φ (x.run s)

namespace Mirrors

variable {ε σ α β : Type} {φ : σ → σ}

theorem pure (a : α) : Mirrors φ (Pure.pure a : EStateM ε σ α) (Pure.pure a) := fun _ => rfl

theorem throw (e : ε) : Mirrors φ (MonadExcept.throw e : EStateM ε σ α) (MonadExcept.throw e) :=
  fun _ => rfl

theorem bind {x y : EStateM ε σ α} {f g : α → EStateM ε σ β} (h : Mirrors φ x y)
    (hf : ∀ a, Mirrors φ (f a) (g a)) : Mirrors φ (x >>= f) (y >>= g) := by
  intro s
  rw [EStateM.run_bind, EStateM.run_bind, h s]
  cases x.run s with
  | ok a s' => exact hf a s'
  | error e s' => rfl

theorem mapM {f g : α → EStateM ε σ β} (h : ∀ a, Mirrors φ (f a) (g a)) :
    ∀ xs : List α, Mirrors φ (xs.mapM f) (xs.mapM g)
  | [] => pure []
  | x :: rest => by
    rw [List.mapM_cons, List.mapM_cons]
    exact (h x).bind fun _ => (mapM h rest).bind fun _ => pure _

/-- The steps of a list mirror those of another list, one by one. -/
theorem forM {f g : α → EStateM ε σ PUnit} {p : α → α} (h : ∀ a, Mirrors φ (f a) (g (p a))) :
    ∀ xs : List α, Mirrors φ (xs.forM f) ((xs.map p).forM g)
  | [] => pure _
  | x :: rest => by
    rw [List.map_cons]
    exact (h x).bind fun _ => forM h rest

end Mirrors

/-! ## Formatting -/

def Patch.plain (p : Patch) : Patch := { p with field := p.field.plain }

def Draft.plain (d : Draft) : Draft := { d with patches := d.patches.map Patch.plain }

namespace Formatting

theorem mirrors_reserve (base : Message) {s : Selected} (h : s.info.relation.isSome)
    (fallback : Bool) (target : Option Nat) :
    Mirrors Draft.plain (reserve base s fallback target) (reserve base s.plain fallback target) := by
  intro d
  simp only [reserve, EStateM.run, mapState, Draft.plain, Selected.info_plain,
    Selection.plain_onError h, List.map_append, List.map_cons, List.map_nil, Patch.plain]

theorem mirrors_contain (container : Container) (f : Field) (v : Value)
    {x y : Bool → Value → Formatting Node} (h : ∀ inside v, Mirrors Draft.plain (x inside v) (y inside v)) :
    Mirrors Draft.plain (contain container f v x) (contain container f v y) := by
  unfold contain
  split
  · exact (Mirrors.mapM (h true) _).bind fun _ => .pure _
  · refine (Mirrors.mapM (fun e => ?_) _).bind fun _ => .pure _
    exact (h true e.2).bind fun _ => .pure _
  · exact h false v
  · exact .throw _

theorem mirrors_wellKnown (m : Message) : Mirrors Draft.plain (wellKnown m) (wellKnown m) := by
  unfold wellKnown
  split
  · exact .pure _
  · exact .throw _

section

variable (fallback : Bool) (target : Option Nat)

mutual
theorem mirrors_element (pool : Pool) (k : Kind) : ∀ (shape : Shape) (inside : Bool) (v : Value),
    Mirrors Draft.plain (element fallback target pool k shape inside v)
      (element fallback target pool k shape.plain inside v)
  | .scalar _, inside, v => by
    unfold Shape.plain element
    cases v with
    | scalar x => exact .pure _
    | message m => exact .throw _
    | list items => exact .throw _
    | map entries => exact .throw _
  | .message name fields, inside, v => by
    unfold Shape.plain element
    cases v with
    | message m =>
      dsimp only
      split
      · exact mirrors_wellKnown m
      · exact (mirrors_members m fields).bind fun _ => .pure _
    | scalar x => exact .throw _
    | list items => exact .throw _
    | map entries => exact .throw _

theorem mirrors_members (m : Message) : ∀ fields : List Selected,
    Mirrors Draft.plain (members fallback target m fields)
      (members fallback target m (plainAll fields))
  | [] => by
    unfold plainAll members
    exact .pure _
  | s :: rest => by
    unfold plainAll members
    exact (mirrors_member m s).bind fun _ => (mirrors_members m rest).bind fun _ => .pure _

theorem mirrors_member (m : Message) : ∀ s : Selected,
    Mirrors Draft.plain (member fallback target m s) (member fallback target m s.plain)
  | .mk info shape => by
    unfold Selected.plain member
    simp only [Selection.plain_relation, Selection.plain_name, Selection.plain_container]
    split
    · next hr => exact (mirrors_reserve m (s := .mk info shape) hr fallback target).bind fun _ => .pure _
    · split
      · exact .throw _
      · split
        · exact .pure _
        · exact (mirrors_contain _ _ _ fun inside v => mirrors_element _ _ shape inside v).bind
            fun _ => .pure _
end

end

end Formatting

theorem mirrors_formatMessage (m : Message) (schema : Schema) (target : Option Nat) (fallback : Bool) :
    Mirrors Draft.plain (formatMessage m schema target fallback)
      (formatMessage m schema.plain target fallback) := by
  unfold formatMessage
  split
  · exact Formatting.mirrors_wellKnown m
  · exact (Formatting.mirrors_members fallback target m schema.fields).bind fun _ => .pure _

theorem mirrors_formatRelationValue (s : Selected) (v : Value) (target : Option Nat) (fallback : Bool) :
    Mirrors Draft.plain (formatRelationValue s v target fallback)
      (formatRelationValue s.plain v target fallback) := by
  unfold formatRelationValue
  simp only [Selected.info_plain, Selected.shape_plain, Selection.plain_relation,
    Selection.plain_path, Selection.plain_container]
  split
  · exact .throw _
  · exact Formatting.mirrors_contain _ _ _ fun inside v =>
      Formatting.mirrors_element fallback target _ _ s.shape inside v

/-- A mirrored step of formatting leaves the same document, and the patches changed alike. -/
theorem Document.format_plain (d : Document) {x y : Formatting Node} (h : Mirrors Draft.plain x y) :
    d.format y =
      ((d.format x).1.map fun a => (a.1, a.2.map Patch.plain), (d.format x).2) := by
  have hd : y { slots := d.size } = mapState Draft.plain (x { slots := d.size }) :=
    h { slots := d.size }
  unfold Document.format
  rw [hd]
  cases x { slots := d.size } <;> rfl

/-! ## Stitching -/

def Stitched.plain (s : Stitched) : Stitched := { s with pending := s.pending.map Patch.plain }

def Batch.plain (b : Batch) : Batch := { b with entries := b.entries.map Patch.plain }

/-- A batch with the reply to it. -/
def plainReply (x : Batch × Resolution) : Batch × Resolution := (x.1.plain, x.2)

namespace Stitching

theorem mirrors_place (fallback : Bool) (p : Patch) (v : Value) :
    Mirrors Stitched.plain (place fallback p v) (place fallback p.plain v) := by
  intro s
  have hf : s.plain.document.format
        (formatRelationValue p.plain.field v p.plain.target fallback) = _ :=
    s.document.format_plain (mirrors_formatRelationValue p.field v p.target fallback)
  unfold place
  simp only [EStateM.run, hf]
  rcases s.document.format (formatRelationValue p.field v p.target fallback) with ⟨r, d⟩
  cases r with
  | ok a => simp [Except.map, mapState, Stitched.plain, Patch.plain]
  | error e => rfl

theorem mirrors_placeAll (fallback : Bool) (pairs : List (Patch × Option Value)) :
    Mirrors Stitched.plain (placeAll fallback pairs)
      (placeAll fallback (pairs.map fun x => (x.1.plain, x.2))) := by
  unfold placeAll
  refine Mirrors.forM (fun x => ?_) pairs
  obtain ⟨p, v⟩ := x
  cases v with
  | none => exact .pure _
  | some v => exact mirrors_place fallback p v

theorem mirrors_embed (b : Batch) (e : Failure) :
    Mirrors Stitched.plain (embed b e) (embed b.plain e) := by
  intro s
  have ht : b.plain.entries.mapM (·.target) = b.entries.mapM (·.target) := by
    rw [Batch.plain, List.mapM_map]
    rfl
  unfold embed
  simp only [EStateM.run, ht]
  cases b.entries.mapM (·.target) with
  | none => rfl
  | some targets =>
    simp only [mapState, Stitched.plain, Batch.plain, List.zip_map_left, List.foldl_map, Prod.map,
      Patch.plain, Selected.info_plain, Selection.plain_path, id]

theorem mirrors_absorb (fallback : Bool) (b : Batch) (r : Resolution) :
    Mirrors Stitched.plain (absorb fallback b r) (absorb fallback b.plain r) := by
  cases r with
  | error e => exact mirrors_embed b e
  | ok values =>
    have hz : b.plain.entries.zip values =
        (b.entries.zip values).map fun x => (x.1.plain, x.2) := by
      rw [Batch.plain, List.zip_map_left]
      rfl
    unfold absorb
    dsimp only
    rw [hz]
    exact mirrors_placeAll fallback _

theorem mirrors_absorbAll (fallback : Bool) (w : List (Batch × Resolution)) :
    Mirrors Stitched.plain (absorbAll fallback w) (absorbAll fallback (w.map plainReply)) := by
  unfold absorbAll
  exact Mirrors.forM (fun x => mirrors_absorb fallback x.1 x.2) w

end Stitching

namespace Batch

theorem insert_plain (p : Patch) (r : Relation) : ∀ bs : List Batch,
    insert p.plain r (bs.map plain) = (insert p r bs).map plain
  | [] => by simp [insert, plain, Patch.plain]
  | b :: rest => by
    have ht : b.plain.takes r p.plain.field.info.params = b.takes r p.field.info.params := by
      simp [takes, plain, Patch.plain]
    rw [List.map_cons, insert, insert, ht]
    split
    · simp [plain]
    · rw [insert_plain p r rest, List.map_cons]

theorem add_plain (bs : List Batch) (p : Patch) :
    add (bs.map plain) p.plain = (add bs p).map (List.map plain) := by
  have hr : p.plain.field.info.relation = p.field.info.relation := by simp [Patch.plain]
  have hp : p.plain.field.info.path = p.field.info.path := by simp [Patch.plain]
  unfold add
  rw [hr, hp]
  cases p.field.info.relation with
  | none => rfl
  | some r => exact congrArg Except.ok (insert_plain p r bs)

theorem foldlM_add_plain (patches : List Patch) : ∀ bs : List Batch,
    (patches.map Patch.plain).foldlM add (bs.map plain) =
      (patches.foldlM add bs).map (List.map plain) := by
  induction patches with
  | nil => exact fun _ => rfl
  | cons p rest ih =>
    intro bs
    rw [List.map_cons, List.foldlM_cons, List.foldlM_cons, add_plain]
    cases add bs p with
    | error e => rfl
    | ok bs' => exact ih bs'

theorem group_plain (patches : List Patch) :
    group (patches.map Patch.plain) = (group patches).map (List.map plain) :=
  foldlM_add_plain patches []

theorem check_plain (b : Batch) : b.plain.check = b.check := by
  funext values
  simp [check, plain]

theorem bases_plain (b : Batch) : b.plain.bases = b.bases := by
  simp [bases, plain, Patch.plain]

theorem operations_plain (b : Batch) : b.plain.operations = b.operations := by
  obtain ⟨r, params, entries⟩ := b
  cases entries <;> simp [operations, plain, Patch.plain]

/-- The resolver cannot tell the difference. -/
theorem resolve_plain (b : Batch) : b.plain.resolve = b.resolve := by
  funext world ctx owner now j
  have hl : b.plain.entries.length = b.entries.length := List.length_map ..
  have hr : b.plain.relation = b.relation := rfl
  have hp : b.plain.params = b.params := rfl
  unfold resolve call
  rw [b.check_plain, b.bases_plain, b.operations_plain, hl, hr, hp]

end Batch

namespace Progress

def plain : Progress → Progress
  | wave d batches => wave d (batches.map Batch.plain)
  | finished d failure => finished d failure

theorem enter_plain (s : Stitched) : enter s.plain = (enter s).plain := by
  obtain ⟨d, patches⟩ := s
  cases patches with
  | nil => rfl
  | cons p rest =>
    have hg := Batch.group_plain (p :: rest)
    unfold enter
    simp only [Stitched.plain, List.map_cons] at hg ⊢
    rw [hg]
    cases Batch.group (p :: rest) <;> rfl

theorem advance_plain (fallback : Bool) (d : Document) (w : List (Batch × Resolution)) :
    advance fallback d (w.map plainReply) = (advance fallback d w).plain := by
  have h : Stitching.absorbAll fallback (w.map plainReply) ⟨d, []⟩ =
      mapState Stitched.plain (Stitching.absorbAll fallback w ⟨d, []⟩) :=
    Stitching.mirrors_absorbAll fallback w ⟨d, []⟩
  unfold advance
  rw [h]
  cases Stitching.absorbAll fallback w ⟨d, []⟩ with
  | ok _ s => exact enter_plain s
  | error e s => rfl

theorem ofMessage_plain (m : Message) (schema : Schema) (policy : Option ErrorPolicy)
    (fallback : Bool) :
    ofMessage m schema.plain policy fallback = (ofMessage m schema policy fallback).plain := by
  unfold ofMessage
  dsimp only
  rw [Document.format_plain _ (mirrors_formatMessage m schema _ fallback)]
  rcases (Document.grow {} 1).format (formatMessage m schema
    (if shouldCatch policy fallback then some 0 else none) fallback) with ⟨r, d⟩
  cases r with
  | ok a => exact enter_plain ⟨d.fill 0 a.1, a.2⟩
  | error e => rfl

theorem rank_plain (p : Progress) : p.plain.rank = p.rank := by
  cases p with
  | finished d failure => rfl
  | wave d batches =>
    simp [plain, rank, wavesOf, Batch.plain, Patch.plain, List.flatMap_map, ← List.map_flatMap,
      List.foldr_map]

end Progress

/-! ## Schedules -/

def Prepared.plain (p : Prepared) : Prepared := { p with schema := p.schema.plain }

def Stage.plain : Stage → Stage
  | calling p => calling p.plain
  | stitching p => stitching p.plain

def Process.plain : Process → Process
  | sleeping due place stage => sleeping due place stage.plain
  | done d => done d
  | failed d e => failed d e

def StepResult.plain : StepResult → StepResult
  | waits due stage => waits due stage.plain
  | ends d failure => ends d failure

def Due.plain (d : Due) : Due := { d with stage := d.stage.plain }

/-- A run as it is without the policies of ordinary fields. -/
def Run.plain (r : Run) : Run := { r with processes := r.processes.map Process.plain }

theorem Prepared.receive_plain (p : Prepared) (fallback : Bool) (reply : Reply Message) :
    p.plain.receive fallback reply = (p.receive fallback reply).plain := by
  cases reply with
  | ok m => exact Progress.ofMessage_plain m p.schema p.onError fallback
  | error s =>
    have ho : p.plain.onError = p.onError := rfl
    unfold receive
    by_cases hc : shouldCatch p.onError fallback
    · simp only [ho, hc, if_true]
      rfl
    · simp only [ho, hc, if_false, Bool.false_eq_true]
      rfl

theorem resolveWave_plain (world : Downstream) (ctx : CallContext) (owner now : Nat)
    (batches : List Batch) : ∀ j : Journal,
    resolveWave world ctx owner now (batches.map Batch.plain) j =
      ((resolveWave world ctx owner now batches j).1,
        (resolveWave world ctx owner now batches j).2.1.map plainReply,
        (resolveWave world ctx owner now batches j).2.2) := by
  induction batches with
  | nil => exact fun _ => rfl
  | cons b rest ih =>
    intro j
    rw [List.map_cons, resolveWave, resolveWave, b.resolve_plain, ih]
    rfl

theorem Stage.step_plain (s : Setting) (owner now : Nat) (j : Journal) (stage : Stage) :
    stage.plain.step s owner now j = ((stage.step s owner now j).1.plain, (stage.step s owner now j).2) := by
  cases stage with
  | calling p =>
    unfold step
    dsimp only [Stage.plain]
    rw [p.receive_plain]
    rfl
  | stitching p =>
    cases p with
    | finished d failure => rfl
    | wave d batches =>
      unfold step
      dsimp only [Stage.plain, Progress.plain]
      rw [resolveWave_plain, Progress.advance_plain]
      rfl

theorem nextDue_plain (ps : List Process) : ∀ i : Nat,
    nextDue i (ps.map Process.plain) = (nextDue i ps).map Due.plain := by
  induction ps with
  | nil => exact fun _ => rfl
  | cons p rest ih =>
    intro i
    have hp : p.plain.due? i = (p.due? i).map Due.plain := by
      cases p with
      | sleeping due place stage => cases due <;> rfl
      | done d => rfl
      | failed d e => rfl
    rw [List.map_cons, nextDue, nextDue, hp, ih]
    cases p.due? i with
    | none => cases nextDue (i + 1) rest <;> rfl
    | some a =>
      cases nextDue (i + 1) rest with
      | none => rfl
      | some b =>
        have hab : a.plain.precedes b.plain = a.precedes b := rfl
        simp only [Option.map_some, hab]
        split <;> rfl

namespace Run

theorem failure?_plain (ordered : Bool) (ps : List Process) :
    failure? ordered (ps.map Process.plain) = failure? ordered ps := by
  induction ps with
  | nil => rfl
  | cons p rest ih =>
    cases p with
    | sleeping due place stage =>
      simp only [List.map_cons, Process.plain, failure?, ih]
    | done d => exact ih
    | failed d e => rfl

theorem goOn_plain (s : Setting) (r : Run) (p : Due) :
    r.plain.goOn s p.plain = (r.goOn s p).plain := by
  have ho : (if r.plain.ordered then r.plain.turn else p.plain.place) =
      if r.ordered then r.turn else p.place := rfl
  unfold goOn
  rw [ho]
  generalize (if r.ordered then r.turn else p.place) = owner
  dsimp only
  have hs : p.plain.stage.step s owner p.plain.instant r.plain.journal =
      ((p.stage.step s owner p.instant r.journal).1.plain,
        (p.stage.step s owner p.instant r.journal).2) :=
    Stage.step_plain s owner p.instant r.journal p.stage
  rw [hs]
  rcases p.stage.step s owner p.instant r.journal with ⟨result, j⟩
  cases result with
  | waits due stage =>
    simp only [Run.plain, List.map_set]
    rfl
  | ends d failure =>
    cases failure <;> simp only [Run.plain, List.map_set] <;> rfl

theorem finish_plain (s : Setting) (fuel : Nat) : ∀ r : Run,
    r.plain.finish s fuel = ((r.finish s fuel).1, (r.finish s fuel).2.plain) := by
  induction fuel with
  | zero => exact fun _ => rfl
  | succ fuel ih =>
    intro r
    have hf : failure? r.plain.ordered r.plain.processes = failure? r.ordered r.processes :=
      failure?_plain r.ordered r.processes
    have hn : nextDue 0 r.plain.processes = (nextDue 0 r.processes).map Due.plain :=
      nextDue_plain r.processes 0
    have hs : r.plain.processes.any Process.isSleeping = r.processes.any Process.isSleeping := by
      have hp : Process.isSleeping ∘ Process.plain = Process.isSleeping := by
        funext p
        cases p <;> rfl
      rw [Run.plain, List.any_map, hp]
    rw [finish, finish, hf, hn]
    cases failure? r.ordered r.processes with
    | some x => rfl
    | none =>
      cases nextDue 0 r.processes with
      | none =>
        dsimp only [Option.map_none]
        rw [hs]
      | some p =>
        dsimp only [Option.map_some]
        rw [goOn_plain, ih]

end Run

theorem stepsOf_plain (ps : List Process) : stepsOf (ps.map Process.plain) = stepsOf ps := by
  have h : ∀ p : Process, p.plain.rank = p.rank := by
    intro p
    cases p with
    | sleeping due place stage =>
      cases stage with
      | calling p =>
        exact congrArg (· + 4) (fieldsDepth_plainAll p.schema.fields)
      | stitching p => exact congrArg (· + 2) p.rank_plain
    | done d => rfl
    | failed d e => rfl
  simp only [stepsOf, List.foldr_map, h]

/-- A schedule ends in the same way, after the same events, without the policies of ordinary
fields. -/
theorem runAll_plain (s : Setting) (now : Nat) (before : Journal) (stages : List Stage) :
    runAll s now before (stages.map Stage.plain) =
      ((runAll s now before stages).1, (runAll s now before stages).2.plain) := by
  have hstart : Run.ofStages now before (stages.map Stage.plain) =
      (Run.ofStages now before stages).plain := by
    simp only [Run.ofStages, Run.plain, List.length_map, List.zipIdx_map, List.map_map]
    rfl
  have hsteps : stepsOf (Run.ofStages now before stages).plain.processes =
      stepsOf (Run.ofStages now before stages).processes := stepsOf_plain _
  unfold runAll
  dsimp only
  rw [hstart, hsteps, Run.finish_plain]
  rfl

end Patchwork
