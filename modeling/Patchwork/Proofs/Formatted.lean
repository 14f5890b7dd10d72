import Patchwork.Proofs.Direct
import Patchwork.Proofs.Levels
import Patchwork.Proofs.Slots

/-!
# What formatting leaves behind

A step of formatting reserves slots in turn, one for each patch it makes, and its result names
these slots in the same order. Once it is known what the slots show, the result shows what the
direct recursion gives. Formatting fails only where the direct recursion fails.
-/

namespace Patchwork
open Proto

/-- The slots show what the direct recursion gives for the relations that patches stand for. -/
def Agrees (resolve : Direct.Resolver) (env : Nat → Option Json) (patches : List Patch) : Prop :=
  ∀ p ∈ patches, Direct.member resolve p.base p.field = .ok (env p.slot)

theorem Agrees.append {resolve : Direct.Resolver} {env : Nat → Option Json} {ps qs : List Patch} :
    Agrees resolve env (ps ++ qs) ↔ Agrees resolve env ps ∧ Agrees resolve env qs := by
  simp only [Agrees, List.mem_append, or_imp, forall_and]

/-- The direct recursion succeeds for the relations that patches stand for. -/
def Renderable (resolve : Direct.Resolver) (patches : List Patch) : Prop :=
  ∀ p ∈ patches, ∃ o, Direct.member resolve p.base p.field = .ok o

/-- A patch of one of the relations, whose failures go to its own slot if it catches them and
where those around it go if not. -/
structure Patch.Leaf (fallback : Bool) (target : Option Nat) (relations : List Selected)
    (p : Patch) : Prop where
  selected : p.field ∈ relations
  target_eq : p.target = if shouldCatch p.field.info.onError fallback then some p.slot else target

theorem Patch.Leaf.mono {fallback : Bool} {target : Option Nat} {rs ss : List Selected} {p : Patch}
    (h : p.Leaf fallback target rs) (hs : rs ⊆ ss) : p.Leaf fallback target ss :=
  ⟨hs h.selected, h.target_eq⟩

namespace Formatting

/-- How results of formatting are read: the slots they name and what they show. -/
structure Reading (α β : Type) where
  slots : α → List Nat
  shows : (Nat → Option Json) → α → β → Prop

def Reading.node : Reading Node Json where
  slots := Node.slots
  shows env x j := x.eval env = some j

def Reading.items : Reading (List Node) (List Json) where
  slots := itemsSlots
  shows env xs js := evalItems env xs = js

def Reading.members : Reading (List (String × Node)) (List (String × Json)) where
  slots := membersSlots
  shows env ms js := evalMembers env ms = js

/-- The members that one selection of a name gives. -/
def Reading.member (name : String) : Reading (Option (String × Node)) (Option Json) where
  slots o := membersSlots o.toList
  shows env o j := evalMembers env o.toList = j.toList.map (name, ·)

section

variable (resolve : Direct.Resolver) (fallback : Bool) (target : Option Nat)

/-- A result for which new patches were left, which shows what `y` gives if they do. -/
structure Rendered (relations : List Selected) (R : Reading α β) (d : Draft) (a : α) (d' : Draft)
    (y : Outcome β) (new : List Patch) : Prop where
  draft : d' = ⟨d.slots + new.length, d.patches ++ new⟩
  fresh : new.map (·.slot) = List.range' d.slots new.length
  slots : R.slots a = new.map (·.slot)
  leaf : ∀ p ∈ new, p.Leaf fallback target relations
  renderable : ∀ b, y = .ok b → Renderable resolve new
  shows : ∀ env, Agrees resolve env new → ∃ b, y = .ok b ∧ R.shows env a b

/-- A step of formatting that gives what `y` gives and leaves patches of the relations. -/
def Renders (relations : List Selected) (R : Reading α β) (x : Formatting α) (y : Outcome β) :
    Prop :=
  ∀ d : Draft, match x d with
    | .ok a d' => ∃ new, Rendered resolve fallback target relations R d a d' y new
    | .error _ _ => ∃ e, y = .error e

variable {resolve fallback target} {rs ss : List Selected}

theorem Renders.mono {R : Reading α β} {x : Formatting α} {y : Outcome β}
    (h : Renders resolve fallback target rs R x y) (hs : rs ⊆ ss) :
    Renders resolve fallback target ss R x y := by
  intro d
  have hd := h d
  split
  · next a d' he =>
    rw [he] at hd
    obtain ⟨new, hd', hr, hn, hl, ho, hy⟩ := hd
    exact ⟨new, hd', hr, hn, fun p hp => (hl p hp).mono hs, ho, hy⟩
  · next e d' he =>
    rw [he] at hd
    exact hd

theorem Renders.pure {R : Reading α β} {a : α} {b : β} (hs : R.slots a = [])
    (hb : ∀ env, R.shows env a b) :
    Renders resolve fallback target rs R (pure a) (.ok b) := by
  intro d
  refine ⟨[], by simp, by simp, by simpa using hs, by simp, ?_, fun env _ => ⟨b, rfl, hb env⟩⟩
  intro _ _ p hp
  cases hp

theorem Renders.throw {R : Reading α β} {e e' : Failure} :
    Renders resolve fallback target rs R (throw e) (.error e') :=
  fun _ => ⟨e', rfl⟩

/-- A result made of two results, the second one rendered after the first. -/
theorem Rendered.append {R : Reading α β} {S : Reading α' β'} {T : Reading γ δ} {d d' d'' : Draft}
    {a : α} {a' : α'} {y : Outcome β} {y' : Outcome β'} {new more : List Patch}
    (h : Rendered resolve fallback target rs R d a d' y new)
    (h' : Rendered resolve fallback target rs S d' a' d'' y' more) {c : γ} {k : β → β' → δ}
    (hs : T.slots c = R.slots a ++ S.slots a')
    (hk : ∀ env b b', R.shows env a b → S.shows env a' b' → T.shows env c (k b b')) :
    Rendered resolve fallback target rs T d c d''
      (y >>= fun b => y' >>= fun b' => Pure.pure (k b b')) (new ++ more) := by
  obtain ⟨rfl, hr, hn, hl, ho, hy⟩ := h
  obtain ⟨rfl, hr', hn', hl', ho', hy'⟩ := h'
  refine ⟨?_, ?_, ?_, ?_, ?_, ?_⟩
  · simp [Nat.add_assoc]
  · rw [List.map_append, hr, hr', List.length_append, List.range'_append_1]
  · rw [hs, hn, hn', List.map_append]
  · intro p hp
    exact (List.mem_append.mp hp).elim (hl p) (hl' p)
  · intro c hc p hp
    cases y with
    | error e => cases hc
    | ok b =>
      cases y' with
      | error e => cases hc
      | ok b' => exact (List.mem_append.mp hp).elim (ho b rfl p) (ho' b' rfl p)
  · intro env ha
    obtain ⟨ha, ha'⟩ := Agrees.append.mp ha
    obtain ⟨b, rfl, hb⟩ := hy env ha
    obtain ⟨b', rfl, hb'⟩ := hy' env ha'
    exact ⟨k b b', rfl, hk env b b' hb hb'⟩

/-- A result made of the results of two steps. -/
theorem Renders.seq {R : Reading α β} {S : Reading α' β'} {T : Reading γ δ}
    {x : Formatting α} {y : Outcome β} {x' : Formatting α'} {y' : Outcome β'}
    (h : Renders resolve fallback target rs R x y) (h' : Renders resolve fallback target rs S x' y')
    (g : α → α' → γ) (k : β → β' → δ)
    (hs : ∀ a a', T.slots (g a a') = R.slots a ++ S.slots a')
    (hk : ∀ env a a' b b', R.shows env a b → S.shows env a' b' → T.shows env (g a a') (k b b')) :
    Renders resolve fallback target rs T
      (x >>= fun a => x' >>= fun a' => Pure.pure (g a a'))
      (y >>= fun b => y' >>= fun b' => Pure.pure (k b b')) := by
  intro d
  have hd := h d
  cases hx : x d with
  | error e d₁ =>
    rw [hx] at hd
    obtain ⟨e', rfl⟩ := hd
    simp only [bind, EStateM.bind, hx]
    exact ⟨e', rfl⟩
  | ok a d₁ =>
    rw [hx] at hd
    obtain ⟨new, hnew⟩ := hd
    have hd' := h' d₁
    cases hx' : x' d₁ with
    | error e d₂ =>
      rw [hx'] at hd'
      obtain ⟨e', rfl⟩ := hd'
      simp only [bind, EStateM.bind, hx, hx']
      cases y with
      | ok b => exact ⟨e', rfl⟩
      | error e₁ => exact ⟨e₁, rfl⟩
    | ok a' d₂ =>
      rw [hx'] at hd'
      obtain ⟨more, hmore⟩ := hd'
      simp only [bind, EStateM.bind, hx, hx', Pure.pure, EStateM.pure]
      exact ⟨new ++ more, hnew.append hmore (hs a a') fun env b b' => hk env a a' b b'⟩

theorem Renders.map {R : Reading α β} {T : Reading γ δ} {x : Formatting α} {y : Outcome β}
    (h : Renders resolve fallback target rs R x y) (g : α → γ) (k : β → δ)
    (hs : ∀ a, T.slots (g a) = R.slots a)
    (hk : ∀ env a b, R.shows env a b → T.shows env (g a) (k b)) :
    Renders resolve fallback target rs T (x >>= fun a => Pure.pure (g a))
      (y >>= fun b => Pure.pure (k b)) := by
  have h' : Renders resolve fallback target rs
      ⟨fun _ => [], fun _ _ _ => True⟩ (Pure.pure ()) (.ok ()) :=
    Renders.pure rfl fun _ => trivial
  exact h.seq h' (fun a _ => g a) (fun b _ => k b) (fun a _ => by simp [hs])
    (fun env a _ b _ hb _ => hk env a b hb)

theorem Renders.mapM_items {x : α → Formatting Node} {y : α → Outcome Json} {items : List α}
    (h : ∀ i ∈ items, Renders resolve fallback target rs .node (x i) (y i)) :
    Renders resolve fallback target rs .items (items.mapM x) (items.mapM y) := by
  induction items with
  | nil => exact Renders.pure rfl fun _ => rfl
  | cons i rest ih =>
    rw [List.mapM_cons, List.mapM_cons]
    have hr := ih fun j hj => h j (List.mem_cons_of_mem _ hj)
    refine (h i (List.mem_cons_self ..)).seq hr (· :: ·) (· :: ·) (fun _ _ => rfl) ?_
    intro env a as b bs hb hbs
    have hb : a.eval env = some b := hb
    have hbs : evalItems env as = bs := hbs
    change evalItems env (a :: as) = b :: bs
    rw [evalItems, hb, hbs, Option.getD_some]

theorem Renders.mapM_members {x : α → Formatting Node} {y : α → Outcome Json} {name : α → String}
    {items : List α} (h : ∀ i ∈ items, Renders resolve fallback target rs .node (x i) (y i)) :
    Renders resolve fallback target rs .members
      (items.mapM fun i => x i >>= fun n => Pure.pure (name i, n))
      (items.mapM fun i => y i >>= fun j => Pure.pure (name i, j)) := by
  induction items with
  | nil => exact Renders.pure rfl fun _ => rfl
  | cons i rest ih =>
    rw [List.mapM_cons, List.mapM_cons]
    have hr := ih fun j hj => h j (List.mem_cons_of_mem _ hj)
    have hi := h i (List.mem_cons_self ..)
    simp only [bind_assoc, pure_bind]
    refine hi.seq (T := .members) hr (fun n ms => (name i, n) :: ms) (fun j js => (name i, j) :: js)
      (fun _ _ => rfl) ?_
    intro env n ms j js hj hjs
    have hj : n.eval env = some j := hj
    have hjs : evalMembers env ms = js := hjs
    change evalMembers env ((name i, n) :: ms) = (name i, j) :: js
    simp [evalMembers, hj, hjs]

/-- A value in its container is rendered when its elements are. -/
theorem Renders.contain {container : Container} {f : Field} {v : Value}
    {x : Bool → Value → Formatting Node} {y : Bool → Value → Outcome Json}
    (h : ∀ inside v, Renders resolve fallback target rs .node (x inside v) (y inside v)) :
    Renders resolve fallback target rs .node (contain container f v x)
      (Direct.contain container f v y) := by
  unfold Formatting.contain Direct.contain
  cases container with
  | one => exact h false v
  | list =>
    cases v with
    | list items =>
      exact (Renders.mapM_items fun i _ => h true i).map (T := .node) .list .arr (fun _ => rfl)
        fun env xs js hj => congrArg (fun js => some (Json.arr js)) hj
    | scalar s => exact Renders.throw
    | message m => exact Renders.throw
    | map entries => exact Renders.throw
  | map key =>
    cases v with
    | map entries =>
      exact (Renders.mapM_members fun e _ => h true e.2).map (T := .node) .object .object
        (fun _ => rfl) fun env ms js hj => congrArg (fun js => some (Json.object js)) hj
    | scalar s => exact Renders.throw
    | message m => exact Renders.throw
    | list items => exact Renders.throw

theorem Renders.wellKnown (m : Message) :
    Renders resolve fallback target rs .node (wellKnown m) (Direct.wellKnown m) := by
  unfold Formatting.wellKnown Direct.wellKnown
  cases m.print with
  | ok j => exact Renders.pure rfl fun _ => rfl
  | error e => exact Renders.throw

/-- A relation is rendered by its slot, which its patch is to fill. -/
theorem Renders.reserve (m : Message) (s : Selected) :
    Renders resolve fallback target [s] (.member s.name)
      (reserve m s fallback target >>= fun n => Pure.pure (some (s.name, n)))
      (Direct.member resolve m s) := by
  intro d
  refine ⟨[⟨m, d.slots, if shouldCatch s.info.onError fallback then some d.slots else target, s⟩],
    rfl, rfl, rfl, ?_, ?_, ?_⟩
  · intro p hp
    rw [List.mem_singleton.mp hp]
    exact ⟨List.mem_singleton_self _, rfl⟩
  · intro o ho p hp
    rw [List.mem_singleton.mp hp]
    exact ⟨o, ho⟩
  · intro env ha
    refine ⟨env d.slots, ha _ (List.mem_singleton_self _), ?_⟩
    change evalMembers env [(s.name, .slot d.slots)] = _
    simp [evalMembers, Node.eval]

mutual
theorem renders_element (pool : Pool) (k : Kind) : ∀ (shape : Shape) (inside : Bool) (v : Value),
    Renders resolve fallback target shape.relations .node
      (element fallback target pool k shape inside v) (Direct.element resolve pool k shape inside v)
  | .message name fields, inside, v => by
    unfold Formatting.element Direct.element
    cases v with
    | message m =>
      dsimp only
      split
      · exact Renders.wellKnown m
      · exact (renders_members m fields).map (T := .node) .object .object (fun _ => rfl)
          fun env ms js hj => congrArg (fun js => some (Json.object js)) hj
    | scalar s => exact Renders.throw
    | list items => exact Renders.throw
    | map entries => exact Renders.throw
  | .scalar t, inside, v => by
    unfold Formatting.element Direct.element
    cases v with
    | scalar s => exact Renders.pure rfl fun _ => rfl
    | message m => exact Renders.throw
    | list items => exact Renders.throw
    | map entries => exact Renders.throw

theorem renders_members (m : Message) : ∀ fields : List Selected,
    Renders resolve fallback target (relationsIn fields) .members
      (members fallback target m fields) (Direct.members resolve m fields)
  | [] => by
    unfold Formatting.members Direct.members
    exact Renders.pure rfl fun _ => rfl
  | s :: rest => by
    unfold Formatting.members Direct.members
    have hs : Renders resolve fallback target (relationsIn (s :: rest)) (.member s.name)
        (member fallback target m s) (Direct.member resolve m s) :=
      (renders_member m s).mono (List.subset_append_left ..)
    have hr : Renders resolve fallback target (relationsIn (s :: rest)) .members
        (members fallback target m rest) (Direct.members resolve m rest) :=
      (renders_members m rest).mono (List.subset_append_right ..)
    refine hs.seq hr (fun o ms => o.toList ++ ms) (fun o js => o.toList.map (s.name, ·) ++ js) ?_ ?_
    · intro o ms
      exact membersSlots_append o.toList ms
    · intro env o ms j js hj hjs
      have hj : evalMembers env o.toList = j.toList.map (s.name, ·) := hj
      have hjs : evalMembers env ms = js := hjs
      change evalMembers env (o.toList ++ ms) = _
      rw [evalMembers_append, hj, hjs]

theorem renders_member (m : Message) : ∀ s : Selected,
    Renders resolve fallback target s.relations (.member s.name)
      (member fallback target m s) (Direct.member resolve m s)
  | .mk info shape => by
    unfold Formatting.member Selected.relations
    by_cases hr : info.relation.isSome
    · rw [if_pos hr, if_pos hr]
      exact Renders.reserve m (.mk info shape)
    · have hn : info.relation = none := by simpa using hr
      rw [if_neg hr, if_neg hr]
      unfold Direct.member
      rw [hn]
      dsimp only
      cases m.type.field? info.name with
      | none => exact Renders.throw
      | some f =>
        dsimp only
        cases m.value? f with
        | none => exact Renders.pure rfl fun _ => rfl
        | some v =>
          have hv : Renders resolve fallback target shape.relations .node
              (contain info.container f v (element fallback target m.type.pool f.kind shape))
              (Direct.contain info.container f v (Direct.element resolve m.type.pool f.kind shape)) :=
            Renders.contain fun inside v => renders_element m.type.pool f.kind shape inside v
          refine hv.map (T := .member info.name) (fun n => some (info.name, n)) some ?_ ?_
          · intro n
            exact List.append_nil _
          · intro env n j hj
            have hj : n.eval env = some j := hj
            change evalMembers env [(info.name, n)] = _
            simp [evalMembers, hj]
end

theorem renders_message (m : Message) (schema : Schema) :
    Renders resolve fallback target (relationsIn schema.fields) .node
      (formatMessage m schema target fallback) (Direct.body resolve m schema) := by
  unfold formatMessage Direct.body
  split
  · exact Renders.wellKnown m
  · exact (renders_members m schema.fields).map (T := .node) .object .object (fun _ => rfl)
      fun env ms js hj => congrArg (fun js => some (Json.object js)) hj

theorem renders_relationValue (s : Selected) (v : Value) :
    Renders resolve fallback target s.shape.relations .node
      (formatRelationValue s v target fallback) (Direct.relationValue resolve s v) := by
  unfold formatRelationValue Direct.relationValue
  cases s.info.relation with
  | none => exact Renders.throw
  | some r =>
    exact Renders.contain fun inside v => renders_element r.method.pool r.field.kind s.shape inside v

end
end Formatting

/-! ## Formatting into a document -/

/-- A node that was formatted into a document, together with the patches that were left. -/
structure Formatted (resolve : Direct.Resolver) (fallback : Bool) (target : Option Nat)
    (relations : List Selected) (d : Document) (y : Outcome Json) (node : Node)
    (new : List Patch) : Prop where
  slots_eq : new.map (·.slot) = List.range' d.size new.length
  node_slots : node.slots = new.map (·.slot)
  leaf : ∀ p ∈ new, p.Leaf fallback target relations
  renderable : ∀ j, y = .ok j → Renderable resolve new
  shows : ∀ env, Agrees resolve env new → ∃ j, y = .ok j ∧ node.eval env = some j

section

variable {resolve : Direct.Resolver} {fallback : Bool} {target : Option Nat}
  {relations : List Selected} {x : Formatting Node} {y : Outcome Json} {d d' : Document}

theorem Formatting.Renders.format_ok {node : Node} {new : List Patch}
    (h : Renders resolve fallback target relations .node x y)
    (hx : d.format x = (.ok (node, new), d')) :
    d' = d.grow (d.size + new.length) ∧ Formatted resolve fallback target relations d y node new := by
  have hd := h { slots := d.size }
  unfold Document.format at hx
  cases hr : x { slots := d.size } with
  | error e draft => simp [hr] at hx
  | ok a draft =>
    rw [hr] at hd
    simp only [hr, Prod.mk.injEq, Except.ok.injEq] at hx
    obtain ⟨⟨rfl, rfl⟩, rfl⟩ := hx
    obtain ⟨new, rfl, hs, hn, hl, ho, hy⟩ := hd
    exact ⟨rfl, hs, hn, hl, ho, hy⟩

theorem Formatting.Renders.format_error {e : Failure}
    (h : Renders resolve fallback target relations .node x y)
    (hx : d.format x = (.error e, d')) : ∃ e', y = .error e' := by
  have hd := h { slots := d.size }
  unfold Document.format at hx
  cases hr : x { slots := d.size } with
  | error e draft =>
    rw [hr] at hd
    exact hd
  | ok a draft => simp [hr] at hx

/-- A message that was formatted into a document. -/
theorem Document.format_message (resolve : Direct.Resolver) {m : Message} {schema : Schema}
    {node : Node} {new : List Patch}
    (h : d.format (formatMessage m schema target fallback) = (.ok (node, new), d')) :
    d' = d.grow (d.size + new.length) ∧ Formatted resolve fallback target (relationsIn schema.fields) d
      (Direct.body resolve m schema) node new :=
  (Formatting.renders_message m schema).format_ok h

/-- The value of a relation that was formatted into a document. -/
theorem Document.format_relationValue (resolve : Direct.Resolver) {s : Selected} {v : Value}
    {node : Node} {new : List Patch}
    (h : d.format (formatRelationValue s v target fallback) = (.ok (node, new), d')) :
    d' = d.grow (d.size + new.length) ∧ Formatted resolve fallback target s.shape.relations d
      (Direct.relationValue resolve s v) node new :=
  (Formatting.renders_relationValue s v).format_ok h

/-- A value is formatted if the direct recursion renders it. -/
theorem Document.format_relationValue_isOk {resolve : Direct.Resolver} {s : Selected} {v : Value}
    {j : Json} (h : Direct.relationValue resolve s v = .ok j) (d : Document) (target : Option Nat)
    (fallback : Bool) :
    ∃ node new d', d.format (formatRelationValue s v target fallback) = (.ok (node, new), d') := by
  rcases hf : d.format (formatRelationValue s v target fallback) with ⟨r, d'⟩
  cases r with
  | ok a => exact ⟨a.1, a.2, d', rfl⟩
  | error e =>
    obtain ⟨e', he⟩ := (Formatting.renders_relationValue s v).format_error hf
    rw [h] at he
    cases he

/-- A step of formatting that fails reserves slots at most. -/
theorem Document.grow_of_format_error {e : Failure} (h : d.format x = (.error e, d')) :
    ∃ s, d' = d.grow s := by
  unfold Document.format at h
  cases hx : x { slots := d.size } with
  | ok a draft => simp [hx] at h
  | error e' draft =>
    simp only [hx, Prod.mk.injEq] at h
    exact ⟨draft.slots, h.2.symm⟩

/-- Formatting depends on the size of a document only. -/
theorem Document.format_congr (x : Formatting Node) (h : d.size = d'.size) :
    (d.format x).1 = (d'.format x).1 := by
  unfold Document.format
  rw [h]
  split <;> rfl

end
end Patchwork
