import Patchwork.Proofs.Limits
import Patchwork.Proofs.SideEffects

/-!
# Where calls come from

A call says which operations led to it: the verb, the method that the request names and, for a batch
of a wave, the methods of the relations on the way through the mask to its first entry, the last of
which is the one that is called.
-/

namespace Patchwork
open Proto

/-! ## Metadata -/

theorem Utf8.encode_injective : Function.Injective encode := by
  intro s t h
  rw [← String.toByteArray_inj, ← String.utf8Encode_toList, ← String.utf8Encode_toList]
  exact congrArg List.toByteArray h

namespace Metadata

variable (m : Metadata) (operations : List String) (name : String)

theorem values_append (m' : Metadata) : (m ++ m').values name = m.values name ++ m'.values name :=
  List.filterMap_append ..

theorem values_without : (m.without name).values name = [] := by
  rw [values, without, List.filterMap_eq_nil_iff]
  intro x hx
  have other := (List.mem_filter.mp hx).2
  simpa using other

theorem without_operations : without (operations.filterMap fun o =>
    (operationValue? o).map (operationsName, ·)) operationsName = [] := by
  rw [without, List.filter_eq_nil_iff]
  intro x hx
  obtain ⟨o, _, ho⟩ := List.mem_filterMap.mp hx
  obtain ⟨v, _, rfl⟩ := Option.map_eq_some_iff.mp ho
  simp

theorem values_operations : values (operations.filterMap fun o =>
    (operationValue? o).map (operationsName, ·)) operationsName =
      operations.filterMap operationValue? := by
  rw [values, List.filterMap_filterMap]
  congr 1
  funext o
  cases operationValue? o <;> simp

/-- The chain consists of the names that have a form as values, whatever it was before. -/
theorem values_withOperations :
    (m.withOperations operations).values operationsName = operations.filterMap operationValue? := by
  rw [withOperations, values_append, values_without, values_operations, List.nil_append]

/-- Nothing but the chain is replaced. -/
theorem without_withOperations :
    (m.withOperations operations).without operationsName = m.without operationsName := by
  have append : ∀ a b : Metadata, (a ++ b).without operationsName =
      a.without operationsName ++ b.without operationsName := fun a b => List.filter_append ..
  rw [withOperations, append, without_without, without_operations, List.append_nil]

/-- The last chain replaces all earlier ones. -/
theorem withOperations_withOperations (later : List String) :
    (m.withOperations operations).withOperations later = m.withOperations later := by
  rw [withOperations, without_withOperations]
  rfl

theorem operationValue?_eq_some {operation : String} {value : List UInt8}
    (h : operationValue? operation = some value) : value = Utf8.encode operation := by
  unfold operationValue? at h
  dsimp only at h
  split at h
  · exact (Option.some.inj h).symm
  · cases h

/-- Names that have a form as values are such as they are. -/
theorem filterMap_operationValue? {operations : List String}
    (all : ∀ o ∈ operations, (operationValue? o).isSome) :
    operations.filterMap operationValue? = operations.map Utf8.encode := by
  induction operations with
  | nil => rfl
  | cons o rest ih =>
    obtain ⟨value, form⟩ := Option.isSome_iff_exists.mp (all o (List.mem_cons_self ..))
    rw [List.filterMap_cons, form, List.map_cons, ih fun x hx => all x (List.mem_cons_of_mem _ hx),
      operationValue?_eq_some form]

theorem values_of_ne {name : String} (other : name ≠ operationsName) :
    (m.withOperations operations).values name = m.values name := by
  have same := congrArg (values · name) (m.without_withOperations operations)
  have kept : ∀ m : Metadata, (m.without operationsName).values name = m.values name := by
    intro m
    rw [values, values, without, List.filterMap_filter]
    congr 1
    funext x
    by_cases h : x.1 = name
    · simp [h, other]
    · simp [h]
  rw [← kept, ← kept m]
  exact same

end Metadata

/-! ## Ways through a mask -/

/-- The fields selected inside a shape. -/
def Shape.fields : Shape → List Selected
  | .scalar _ => []
  | .message _ fields => fields

theorem Shape.relations_eq (shape : Shape) : shape.relations = relationsIn shape.fields := by
  cases shape <;> rfl

theorem mem_relationsIn {fields : List Selected} {s : Selected} :
    s ∈ relationsIn fields ↔ ∃ f ∈ fields, s ∈ f.relations := by
  induction fields with
  | nil => simp [relationsIn]
  | cons f rest ih => simp [relationsIn, ih]

/-- Selections of a mask, each inside the one before, with the fields that they stand for. -/
abbrev Way := List (MaskField × Selected)

/-- A way that begins with a selection of a mask. -/
inductive Way.Through : List MaskField → List Selected → Way → Prop
  | stop (mask : List MaskField) (fields : List Selected) : Through mask fields []
  | enter {mask : List MaskField} {fields : List Selected} {m : MaskField} {s : Selected} {way : Way}
      (here : (m, s) ∈ mask.zip fields) (inside : Through m.mask s.shape.fields way) :
      Through mask fields ((m, s) :: way)

namespace Way

/-- The names of the methods of the relations on the way. -/
def operations (way : Way) : List String :=
  way.filterMap fun x => x.2.info.relation.map (·.method.fullName)

/-- The path to the end of the way. -/
def path (start : String) (way : Way) : String :=
  way.foldl (fun path x => Compile.Place.join path x.1.name) start

@[simp] theorem operations_nil : operations [] = [] := rfl

@[simp] theorem operations_append (way later : Way) :
    operations (way ++ later) = operations way ++ operations later :=
  List.filterMap_append ..

theorem operations_cons (x : MaskField × Selected) (way : Way) : operations (x :: way) =
    (x.2.info.relation.map (·.method.fullName)).toList ++ operations way := by
  unfold operations
  rw [List.filterMap_cons]
  cases x.2.info.relation <;> rfl

/-- A way can be gone on with inside its end. -/
theorem Through.append {mask : List MaskField} {fields : List Selected} {m : MaskField}
    {s : Selected} {way later : Way} (h : Through mask fields (way ++ [(m, s)]))
    (inside : Through m.mask s.shape.fields later) :
    Through mask fields (way ++ [(m, s)] ++ later) := by
  induction way generalizing mask fields with
  | nil =>
    cases h with
    | enter here _ => exact .enter here inside
  | cons x way ih =>
    cases h with
    | enter here rest => exact .enter here (ih rest)

end Way

/-- Fields that were selected at a place, each by a selection of a mask. A field has the path to it
and the operations that lead to its value, and so have the fields inside it. -/
inductive Placed : Compile.Place → List MaskField → List Selected → Prop
  | mk {place : Compile.Place} {mask : List MaskField} {fields : List Selected}
      (length : fields.length ≤ mask.length)
      (path : ∀ m s, (m, s) ∈ mask.zip fields → s.info.path = Compile.Place.join place.path m.name)
      (operations : ∀ m s, (m, s) ∈ mask.zip fields → s.info.operations =
        place.operations ++ (s.info.relation.map (·.method.fullName)).toList)
      (inside : ∀ m s, (m, s) ∈ mask.zip fields →
        Placed ⟨place.relations, s.info.path, s.info.operations⟩ m.mask s.shape.fields) :
      Placed place mask fields

namespace Placed

variable {place : Compile.Place} {mask : List MaskField} {fields : List Selected}

/-- A relation with none around it is reached through fields that are not relations. -/
theorem mem_relations (h : Placed place mask fields) {s : Selected} (hs : s ∈ relationsIn fields) :
    ∃ (way : Way) (m : MaskField), Way.Through mask fields (way ++ [(m, s)]) ∧
      way.operations = [] := by
  induction h with
  | @mk place mask fields length path operations inside ih =>
    obtain ⟨f, hf, hs⟩ := mem_relationsIn.mp hs
    obtain ⟨i, hi, rfl⟩ := List.mem_iff_getElem.mp hf
    have here : (mask[i], fields[i]) ∈ mask.zip fields :=
      List.mem_iff_getElem.mpr ⟨i, by simp; omega, by simp⟩
    generalize mask[i] = m, fields[i] = f at here hs
    obtain ⟨info, shape⟩ := f
    unfold Selected.relations at hs
    split at hs
    · next relation =>
      cases List.mem_singleton.mp hs
      exact ⟨[], m, .enter here (.stop _ _), rfl⟩
    · next field =>
      rw [Shape.relations_eq] at hs
      obtain ⟨way, m', through, none⟩ := ih m _ here hs
      refine ⟨(m, .mk info shape) :: way, m', .enter here through, ?_⟩
      have relation : info.relation = Option.none := by simpa using field
      simp [Way.operations_cons, relation, none]

/-- What is known at the end of a way. -/
theorem at_end (h : Placed place mask fields) {way : Way} {m : MaskField} {s : Selected}
    (through : Way.Through mask fields (way ++ [(m, s)])) :
    s.info.path = Way.path place.path (way ++ [(m, s)]) ∧
      s.info.operations = place.operations ++ Way.operations (way ++ [(m, s)]) ∧
      Placed ⟨place.relations, s.info.path, s.info.operations⟩ m.mask s.shape.fields := by
  induction way generalizing place mask fields with
  | nil =>
    cases through with
    | enter here _ =>
      cases h with
      | mk length path operations inside =>
        refine ⟨path m s here, ?_, inside m s here⟩
        rw [operations m s here, List.nil_append, Way.operations_cons]
        simp
  | cons x way ih =>
    cases through with
    | @enter _ _ m₁ s₁ _ here rest =>
      cases h with
      | mk length path operations inside =>
        obtain ⟨path', operations', placed⟩ := ih (inside m₁ s₁ here) rest
        refine ⟨?_, ?_, placed⟩
        · rw [path', path m₁ s₁ here]
          rfl
        · rw [operations', operations m₁ s₁ here, List.cons_append, Way.operations_cons,
            List.append_assoc]

/-- Each relation of a level is reached by a way with as many relations before it. -/
theorem mem_level (h : Placed place mask fields) (k : Nat) {s : Selected}
    (hs : s ∈ level fields k) : ∃ (way : Way) (m : MaskField),
      Way.Through mask fields (way ++ [(m, s)]) ∧ way.operations.length = k := by
  induction k generalizing s with
  | zero =>
    obtain ⟨way, m, through, none⟩ := h.mem_relations hs
    exact ⟨way, m, through, by rw [none]; rfl⟩
  | succ k ih =>
    obtain ⟨t, ht, hs⟩ := List.mem_flatMap.mp hs
    obtain ⟨way, m, through, count⟩ := ih ht
    obtain ⟨_, _, placed⟩ := h.at_end through
    rw [Shape.relations_eq] at hs
    obtain ⟨later, m', through', none⟩ := placed.mem_relations hs
    refine ⟨way ++ [(m, t)] ++ later, m', ?_, ?_⟩
    · rw [List.append_assoc]
      exact through.append through'
    · obtain ⟨r, relation⟩ := Option.isSome_iff_exists.mp (isSome_of_mem_level k ht)
      rw [Way.operations_append, Way.operations_append, none, Way.operations_cons, relation]
      simp [count]

end Placed

namespace Compile

mutual
/-- The field of a selection at its place. -/
theorem selectOne_placed : ∀ (m : MaskField) {place : Place} {c : CatalogType} {x : Selected}
    {s s' : Compilation}, (selectOne place c m).run s = .ok x s' →
    x.info.path = Place.join place.path m.name ∧
      x.info.operations = place.operations ++ (x.info.relation.map (·.method.fullName)).toList ∧
      Placed ⟨place.relations, x.info.path, x.info.operations⟩ m.mask x.shape.fields
  | .mk name given mask onError, place, c, x, s, s', h => by
    unfold selectOne at h
    obtain ⟨f, s₁, hf, h₁⟩ := run_bind_ok h
    dsimp only at h₁
    obtain ⟨o, s₂, _, h₂⟩ := run_bind_ok h₁
    have chain : (place.enter f name).operations =
        place.operations ++ (f.relation.map (·.method.fullName)).toList := by
      unfold Place.enter
      cases f.relation <;> simp
    cases he : f.element with
    | scalar e =>
      rw [he] at h₂
      cases h₂
      refine ⟨rfl, chain, .mk (Nat.zero_le _) ?_ ?_ ?_⟩ <;> simp [Shape.fields]
    | message v =>
      rw [he] at h₂
      obtain ⟨d, s₃, _, h₃⟩ := run_bind_ok h₂
      obtain ⟨fields, s₄, hfields, h₄⟩ := run_bind_ok h₃
      cases h₄
      exact ⟨rfl, chain, select_placed mask hfields⟩

/-- The fields of a mask at their place. -/
theorem select_placed : ∀ (mask : List MaskField) {place : Place} {c : CatalogType}
    {fields : List Selected} {s s' : Compilation}, (select place c mask).run s = .ok fields s' →
    Placed place mask fields
  | [], place, c, fields, s, s', h => by
    unfold select at h
    cases h
    refine .mk (Nat.le_refl _) ?_ ?_ ?_ <;> simp
  | m :: mask, place, c, fields, s, s', h => by
    unfold select at h
    obtain ⟨x, s₁, hx, h₁⟩ := run_bind_ok h
    obtain ⟨xs, s₂, hxs, h₂⟩ := run_bind_ok h₁
    cases h₂
    obtain ⟨path, operations, inside⟩ := selectOne_placed m hx
    cases select_placed mask hxs with
    | mk length paths chains insides =>
      refine .mk (Nat.succ_le_succ length) ?_ ?_ ?_
      · intro m' s' here
        rcases List.mem_cons.mp here with here | here
        · cases here
          exact path
        · exact paths m' s' here
      · intro m' s' here
        rcases List.mem_cons.mp here with here | here
        · cases here
          exact operations
        · exact chains m' s' here
      · intro m' s' here
        rcases List.mem_cons.mp here with here | here
        · cases here
          exact inside
        · exact insides m' s' here
end

end Compile

theorem placed_of_compileMask {t : MessageType} {mask : List MaskField} {place : Compile.Place}
    {schema : Schema} (h : compileMask t mask place = .ok schema) :
    Placed place mask schema.fields := by
  unfold compileMask at h
  split at h
  · next x s' hs =>
    cases h
    obtain ⟨c, s₁, _, h₁⟩ := run_bind_ok hs
    obtain ⟨fields, s₂, hf, h₂⟩ := run_bind_ok h₁
    cases h₂
    exact Compile.select_placed mask hf
  · cases h

/-! ## Calls -/

/-- The first entry of a batch of the `k`-th wave lies at the end of a way through the mask. There are
`k` relations on the way, the last of which is that of the batch. -/
structure Batch.LiesOn (b : Batch) (r : Request) (p : Prepared) (k : Nat) (way : Way) : Prop where
  through : way.Through r.mask p.schema.fields
  first : ∃ x rest m, b.entries = x :: rest ∧ way.getLast? = some (m, x.field) ∧
    x.field.info.path = way.path r.method ∧ x.field.info.relation = some b.relation
  relations : way.operations.length = k
  own : way.operations.getLast? = some b.relation.method.fullName

/-- What a call of a request is made for, with the operations that lead to it. -/
inductive Call.ComesFrom (c : Call) (v : Verb) (r : Request) (p : Prepared) : List String → Prop
  | own (method : c.method = p.entry.method) (message : c.message = p.input) :
      ComesFrom c v r p [v.operation, r.method]
  | relation {k : Nat} {b : Batch} {way : Way} (batch : p.HasBatch v.catchesByDefault k b)
      (method : c.method = b.relation.method)
      (message : b.relation.request b.bases (b.params.map (·.message)) = .ok c.message)
      (lies : b.LiesOn r p k way) : ComesFrom c v r p (v.operation :: r.method :: way.operations)

section

variable {g : Gateway} {v : Verb} {r : Request} {p : Prepared}

/-- A chain is no longer than the relations of the mask are deep. -/
theorem Call.ComesFrom.length_le {c : Call} {chain : List String} (h : c.ComesFrom v r p chain) :
    chain.length ≤ fieldsDepth p.schema.fields + 2 := by
  cases h with
  | own => simp
  | @relation k b way batch _ _ lies =>
    obtain ⟨n, patches, batches, rfl, grouped, hb, fields⟩ := batch.grouped
    obtain ⟨x, hx, _⟩ := grouped.head b hb
    have deep := lt_fieldsDepth_of_mem_level (fields x (grouped.mem_iff.mpr ⟨b, hb, hx⟩))
    simp only [List.length_cons, lies.relations]
    omega

theorem Gateway.operations_of_prepare (h : g.prepare v r = .ok p) :
    p.operations = [v.operation, r.method] := by
  unfold prepare at h
  cases hf : g.entryPoint? r.method with
  | none =>
    rw [hf] at h
    cases h
  | some entry =>
    rw [hf] at h
    obtain ⟨_, _, h⟩ := Outcome.bind_eq_ok.mp h
    obtain ⟨input, _, h⟩ := Outcome.bind_eq_ok.mp h
    obtain ⟨schema, _, h⟩ := Outcome.bind_eq_ok.mp h
    cases h
    rfl

theorem Prepared.HasBatch.liesOn {k : Nat} {b : Batch} (h : p.HasBatch v.catchesByDefault k b)
    (hp : g.prepare v r = .ok p) : ∃ way : Way, b.LiesOn r p k way ∧
      b.operations = v.operation :: r.method :: way.operations := by
  have compiled := (Gateway.isPrepared hp).compiled
  obtain ⟨n, patches, batches, rfl, grouped, hb, fields⟩ := h.grouped
  obtain ⟨y, hy, _⟩ := grouped.head b hb
  obtain ⟨x, rest, entries⟩ := List.exists_cons_of_ne_nil (List.ne_nil_of_mem hy)
  have hx : x ∈ b.entries := entries ▸ List.mem_cons_self ..
  have relation := (grouped.asks (keyed_of_compileMask compiled) fields hb hx).1
  have placed := placed_of_compileMask compiled
  obtain ⟨way, m, through, count⟩ :=
    placed.mem_level n (fields x (grouped.mem_iff.mpr ⟨b, hb, hx⟩))
  obtain ⟨path, operations, _⟩ := placed.at_end through
  have last : Way.operations (way ++ [(m, x.field)]) =
      way.operations ++ [b.relation.method.fullName] := by
    simp [Way.operations_cons, relation]
  refine ⟨way ++ [(m, x.field)], ⟨through, ⟨x, rest, m, entries, ?_, path, relation⟩, ?_, ?_⟩, ?_⟩
  · simp
  · simp [last, count]
  · simp [last]
  · rw [Batch.operations, entries]
    exact operations

/-- The calls of a request come from where their operations say. -/
theorem Prepared.Asks.comesFrom {ctx : CallContext} {now : Nat} {c : Call}
    (h : p.Asks ctx v.catchesByDefault now c) (hp : g.prepare v r = .ok p) :
    ∃ chain, c.ComesFrom v r p chain ∧ chain.getLast? = some c.method.fullName ∧
      c.metadata = ctx.metadata.withOperations chain := by
  cases h with
  | own =>
    refine ⟨_, .own rfl rfl, ?_, ?_⟩
    · have found := List.find?_some (Gateway.isPrepared hp).found
      have named : p.entry.name = r.method := by simpa using found
      exact congrArg some named.symm
    · rw [← Gateway.operations_of_prepare hp]
      rfl
  | @relation k b transport timeout message batch resolver request =>
    obtain ⟨way, lies, operations⟩ := batch.liesOn hp
    refine ⟨_, .relation batch rfl request lies, ?_, ?_⟩
    · have own := lies.own
      cases hw : way.operations with
      | nil => simp [hw] at own
      | cons o rest =>
        rw [hw] at own
        exact own
    · rw [← operations]
      rfl

end

/-- A call says where it comes from. The own call of a request has the operation of the verb and the
name of its method, and a call of the `k`-th wave has after these the names of the `k` methods of the
relations on the way through the mask to the first entry of its batch, the last of which is called.
Names that have no form as a value are left out. What came in under the name of the chain is gone,
however often the chain was replaced, and all other metadata is as it came in. -/
theorem operations_tell_where_calls_come_from {g : Gateway} {ctx : CallContext} {e : Exchange}
    {v : Verb} {requests : List Request} (made : g.Makes ctx e v requests) :
    ∃ r ∈ requests, ∃ p chain, g.prepare v r = .ok p ∧
      e.call.ComesFrom v r p chain ∧ chain.getLast? = some e.call.method.fullName ∧
      e.call.metadata.values Metadata.operationsName = chain.filterMap Metadata.operationValue? ∧
      ((∀ o ∈ chain, (Metadata.operationValue? o).isSome) →
        e.call.metadata.values Metadata.operationsName = chain.map Utf8.encode) ∧
      e.call.metadata.without Metadata.operationsName =
        ctx.metadata.without Metadata.operationsName ∧
      ∀ earlier later, (ctx.withOperations earlier).withOperations later =
        ctx.withOperations later := by
  obtain ⟨r, hr, p, prepared, asks⟩ := made.asks
  obtain ⟨chain, from_, last, metadata⟩ := asks.comesFrom prepared
  refine ⟨r, hr, p, chain, prepared, from_, last, ?_, fun all => ?_, ?_, fun earlier later => ?_⟩
  · rw [metadata, Metadata.values_withOperations]
  · rw [metadata, Metadata.values_withOperations, Metadata.filterMap_operationValue? all]
  · rw [metadata, Metadata.without_withOperations]
  · unfold CallContext.withOperations
    rw [Metadata.withOperations_withOperations]

/-! ## A family of items -/

namespace Sample

def generation : Field :=
  { title with name := "generation", jsonName := "generation", number := 2,
               kind := .scalar .int32, fallback := .int32 0 }

def ancestor : Field := { parent with name := "ancestor", jsonName := "ancestor" }

/-- The types of items, with ancestors of a generation to be given. -/
def family : Pool where
  messages := pool.messages ++ [⟨"Query", [bases, generation]⟩, ⟨"Ancestor", [ancestor]⟩,
    ⟨"Ancestors", [{ values with kind := .message "Ancestor" }]⟩]

def relatives : Service where
  pool := family
  info := ⟨"Items",
    [{ name := "Get", input := "Item", output := "Item", idempotency := some 1 },
     { name := "List", input := "Item", output := "Bases", idempotency := some 1 },
     { name := "Parents", input := "Bases", output := "Parents" },
     { name := "Ancestors", input := "Query", output := "Ancestors" }]⟩

/-- Adds items with their parents and ancestors, one after the other. -/
def setUpFamily : List Builder.Step :=
  [.transport ⟨"http://items"⟩, .service relatives { methods := some ["Get", "List"] },
   .relations relatives [("Parents", { name := "parent" }), ("Ancestors", { name := "ancestor" })]]

def familyBuilder : Builder := (Builder.performAll {} setUpFamily).toOption.getD {}

theorem setsUpFamily : Builder.performAll {} setUpFamily = .ok familyBuilder :=
  Outcome.eq_ok_getD (by decide +kernel)

/-- The ancestor of the second generation, with the fields to be selected of it. -/
def grandparent (mask : List MaskField) : MaskField :=
  .mk "ancestor" (some (.obj [("generation", .int 2)])) mask none

def familyGateway : Gateway := familyBuilder.toGateway

/-- An item of the family by its title. -/
def relative (text : String) : Message := .mk (family.message "Item") [(1, .scalar (.string text))] []

/-- Items of the family by their titles. -/
def relativesOf (texts : List String) : Message :=
  .mk (family.message "Bases") [(1, .list (texts.map fun text => .message (relative text)))] []

/-- The ancestors of the parents of all items and those of their ancestors. -/
def lineages : Request where
  method := "Items.List"
  mask := [.mk "bases" none
    [.mk "parent" none [grandparent [.mk "title" none [] none]] none,
     grandparent [grandparent [.mk "title" none [] none]]] none]

/-- The operations that lead to the ancestors by way of a relation. -/
def chainBy (relation : String) : List String :=
  [Verb.fetch.operation, "Items.List", relation, "Items.Ancestors"]

/-- A server of two items. Whatever it is asked for about both is the first of them. -/
def familyWorld : Downstream where
  unary _ c :=
    let result := if c.method.info.name = "Parents" then "Parent" else "Ancestor"
    let first := Value.message (.mk (family.message result) [(1, .message (relative "knot"))] [])
    ⟨some 0, .ok <| if c.method.info.name = "List" then relativesOf ["knot", "hitch"]
      else .mk c.method.output [(1, .list [first, first])] []⟩
  stream _ _ := ⟨none, .error ⟨.unavailable, "", []⟩⟩
  consult _ := .ok []

/-- A context in which other operations came in. -/
def stale : CallContext := { metadata := [(Metadata.operationsName, Utf8.encode "stale")] }

/-- Some call carries the operations that lead to the ancestors of the parents. -/
theorem lineages_call : ∃ e, familyGateway.Makes stale e .fetch [lineages] ∧
    e.call.metadata.values Metadata.operationsName = (chainBy "Items.Parents").map Utf8.encode := by
  obtain ⟨e, he, known⟩ := Journal.exists_exchange
    (j := (familyGateway.serve familyWorld stale .fetch {} [lineages]).2.journal)
    (p := fun e =>
      e.call.metadata.values Metadata.operationsName == (chainBy "Items.Parents").map Utf8.encode)
    (by decide +kernel)
  exact ⟨e, .batch (List.append_nil _).symm he, beq_iff_eq.mp known⟩

end Sample

/-- The call for the ancestors of the parents of all items, in the second wave, comes from the verb,
the method of the request and both relations, and it says so and nothing else. -/
theorem question_for_ancestors_tells_where_it_comes_from : ∃ e p,
    Sample.familyGateway.Makes Sample.stale e .fetch [Sample.lineages] ∧
    Sample.familyGateway.prepare .fetch Sample.lineages = .ok p ∧
    e.call.ComesFrom .fetch Sample.lineages p (Sample.chainBy "Items.Parents") ∧
    e.call.method.fullName = "Items.Ancestors" ∧
    e.call.metadata.values Metadata.operationsName = (Sample.chainBy "Items.Parents").map Utf8.encode := by
  obtain ⟨e, made, told⟩ := Sample.lineages_call
  obtain ⟨r, hr, p, chain, prepared, from_, last, values, encoded, _⟩ :=
    operations_tell_where_calls_come_from made
  obtain rfl := List.mem_singleton.mp hr
  -- The chain has no more names than values, so that none of them was left out.
  obtain ⟨_, prepared', depth⟩ := Outcome.exists_of_any
    (x := Sample.familyGateway.prepare .fetch Sample.lineages)
    (P := fun p => fieldsDepth p.schema.fields == 2) (by decide +kernel)
  cases prepared.symm.trans prepared'
  have two : fieldsDepth p.schema.fields = 2 := beq_iff_eq.mp depth
  have short : chain.length ≤ 4 := by simpa [two] using from_.length_le
  have all : ∀ o ∈ chain, (Metadata.operationValue? o).isSome := by
    refine List.filterMap_length_eq_length.mp (Nat.le_antisymm (List.length_filterMap_le ..) ?_)
    rw [← values, told]
    exact short
  obtain rfl : chain = Sample.chainBy "Items.Parents" :=
    List.map_injective_iff.mpr Utf8.encode_injective ((encoded all).symm.trans told)
  exact ⟨e, p, made, prepared, from_, (Option.some.inj last).symm, told⟩

namespace Sample

/-- Items with a control character in the name of their method. -/
def oddItems : Service where
  pool := store
  info := ⟨"Items", [{ name := "G\x01et", input := "Item", output := "Item", idempotency := some 1 }]⟩

def assembleOdd : Outcome Gateway := do
  let b ← (({} : Builder).withTransport ⟨"http://items"⟩).registerService oddItems {}
  b.build

def oddGateway : Gateway := assembleOdd.toOption.getD {}

def titleOfOdd : List Request :=
  [{ method := "Items.G\x01et", mask := [.mk "title" none [] none] }]

end Sample

/-- The call of a method with a control character in its name does not say that it comes from it. -/
theorem unprintable_method_is_left_out : Sample.assembleOdd = .ok Sample.oddGateway ∧
    ∃ e, Sample.oddGateway.Makes {} e .fetch Sample.titleOfOdd ∧ e.sent = true ∧
      e.call.method.fullName = "Items.G\x01et" ∧
      e.call.metadata.values Metadata.operationsName = [Utf8.encode Verb.fetch.operation] := by
  obtain ⟨e, he, sent, same⟩ := Journal.exists_called
    (j := (Sample.oddGateway.serve (Sample.knotsAfter fun _ => 0) {} .fetch {}
      Sample.titleOfOdd).2.journal)
    (p := fun c => c.method.fullName == "Items.G\x01et" &&
      c.metadata.values Metadata.operationsName == [Utf8.encode Verb.fetch.operation])
    (by decide +kernel)
  obtain ⟨named, values⟩ := Bool.and_eq_true_iff.mp same
  exact ⟨Outcome.eq_ok_getD (by decide +kernel), e, .batch (List.append_nil _).symm he, sent,
    beq_iff_eq.mp named, beq_iff_eq.mp values⟩

end Patchwork
