import Patchwork.Proofs.Accounts

/-!
# Rendering

Rendering takes the content out of each slot that it comes by. As the slots of a document that was
stitched form a forest, no slot is come by twice, and rendering gives what the slots show.
-/

namespace Patchwork
open Proto

/-- The slots that contents name lie ahead, and none is named twice. -/
structure Document.Linked (d : Document) : Prop where
  ahead : ∀ {n : Nat} {c : Node}, d.slot? n = some (.filled c) → ∀ k ∈ c.slots, n < k ∧ k < d.size
  nodup : ∀ {n : Nat} {c : Node}, d.slot? n = some (.filled c) → c.slots.Nodup
  parent : ∀ {n n' k : Nat} {c c' : Node}, d.slot? n = some (.filled c) →
    d.slot? n' = some (.filled c') → k ∈ c.slots → k ∈ c'.slots → n = n'

/-- What a slot shows when it is known what the others show. -/
def Slot.shown (env : Nat → Option Json) : Slot → Option Json
  | .pending => none
  | .filled c => c.eval env
  | .failed j => some j

/-- The slots of a document show what `env` says. -/
def Document.Shows (d : Document) (env : Nat → Option Json) : Prop :=
  ∀ n, env n = (d.slot? n).bind (Slot.shown env)

/-- The slot `x` is reached from the slot `n` through contents. -/
inductive Document.Under (d : Document) (n : Nat) : Nat → Prop
  | root : Under d n n
  | child {y x : Nat} {c : Node} (above : Under d n y) (content : d.slot? y = some (.filled c))
      (named : x ∈ c.slots) : Under d n x

namespace Document

variable {d : Document} {env : Nat → Option Json}

theorem Under.trans {n k x : Nat} (hk : d.Under n k) (hx : d.Under k x) : d.Under n x := by
  induction hx with
  | root => exact hk
  | child above content named ih => exact .child ih content named

namespace Linked

theorem le_of_under (h : d.Linked) {n x : Nat} (hx : d.Under n x) : n ≤ x := by
  induction hx with
  | root => exact Nat.le_refl _
  | child above content named ih =>
    have hl := (h.ahead content _ named).1
    omega

/-- What two slots of one content reach is different. -/
theorem not_under_both (h : d.Linked) {n k k' x : Nat} {c : Node} (hc : d.slot? n = some (.filled c))
    (hk : k ∈ c.slots) (hk' : k' ∈ c.slots) (hne : k ≠ k') (hx : d.Under k x) :
    ¬d.Under k' x := by
  induction hx with
  | root =>
    intro hx'
    cases hx' with
    | root => exact hne rfl
    | child above content named =>
      obtain rfl := h.parent hc content hk named
      have hle := h.le_of_under above
      have hlt := (h.ahead hc k' hk').1
      omega
  | child above content named ih =>
    intro hx'
    cases hx' with
    | root =>
      obtain rfl := h.parent hc content hk' named
      have hle := h.le_of_under above
      have hlt := (h.ahead hc k hk).1
      omega
    | child above' content' named' =>
      obtain rfl := h.parent content content' named named'
      exact ih above'

end Linked

/-- Taking the content of the slot `n` shows what it should and leaves alone what is not reached. -/
def Takes (d : Document) (env : Nat → Option Json) (take : Nat → Document → Option Json × Document)
    (n : Nat) : Prop :=
  ∀ d' : Document, (∀ x, d.Under n x → d'.slot? x = d.slot? x) →
    (take n d').1 = env n ∧ ∀ x, ¬d.Under n x → (take n d').2.slot? x = d'.slot? x

/-- Slots that reach nothing in common. -/
def Apart (d : Document) (ns : List Nat) : Prop :=
  ns.Pairwise fun n n' => ∀ x, d.Under n x → ¬d.Under n' x

/-- A rendering shows what it should and leaves alone what is not reached from the slots named. -/
structure Renders (d : Document) (ns : List Nat) (d' d'' : Document) (x y : α) : Prop where
  shows : x = y
  frame : ∀ x, (∀ n ∈ ns, ¬d.Under n x) → d''.slot? x = d'.slot? x

/-- What one part takes is not reached from the other one. -/
theorem Renders.rest {ns ms : List Nat} {d' d'' : Document} {x y : α}
    (h : d.Renders ns d' d'' x y) (ha : d.Apart (ns ++ ms))
    (hd : ∀ n ∈ ns ++ ms, ∀ x, d.Under n x → d'.slot? x = d.slot? x) :
    ∀ n ∈ ms, ∀ x, d.Under n x → d''.slot? x = d.slot? x := by
  intro n hn x hx
  have hp := (List.pairwise_append.mp ha).2.2
  rw [h.frame x fun m hm hu => hp m hm n hn x hu hx]
  exact hd n (List.mem_append_right _ hn) x hx

section

variable {T : Nat → Document → Option Json × Document}

mutual
theorem renders_node : ∀ (c : Node) (d' : Document), (∀ n ∈ c.slots, d.Takes env T n) →
    d.Apart c.slots → (∀ n ∈ c.slots, ∀ x, d.Under n x → d'.slot? x = d.slot? x) →
    d.Renders c.slots d' (renderNode T d' c).2 (renderNode T d' c).1 (c.eval env)
  | .value j, d', _, _, _ => ⟨rfl, fun _ _ => rfl⟩
  | .slot n, d', ht, _, hd => by
    have hm : n ∈ (Node.slot n).slots := by simp [Node.slots]
    obtain ⟨hs, hf⟩ := ht n hm d' (hd n hm)
    exact ⟨hs, fun x hx => hf x (hx n hm)⟩
  | .object members, d', ht, ha, hd => by
    obtain ⟨hs, hf⟩ := renders_members members d' ht ha hd
    exact ⟨congrArg (fun ms => some (Json.object ms)) hs, hf⟩
  | .list items, d', ht, ha, hd => by
    obtain ⟨hs, hf⟩ := renders_items items d' ht ha hd
    exact ⟨congrArg (fun xs => some (Json.arr xs)) hs, hf⟩

theorem renders_members : ∀ (ms : List (String × Node)) (d' : Document),
    (∀ n ∈ membersSlots ms, d.Takes env T n) → d.Apart (membersSlots ms) →
    (∀ n ∈ membersSlots ms, ∀ x, d.Under n x → d'.slot? x = d.slot? x) →
    d.Renders (membersSlots ms) d' (renderMembers T d' ms).2 (renderMembers T d' ms).1
      (evalMembers env ms)
  | [], d', _, _, _ => ⟨rfl, fun _ _ => rfl⟩
  | (name, c) :: rest, d', ht, ha, hd => by
    have hc := renders_node c d' (fun n hn => ht n (List.mem_append_left _ hn))
      (List.pairwise_append.mp ha).1 fun n hn => hd n (List.mem_append_left _ hn)
    have hr := renders_members rest (renderNode T d' c).2
      (fun n hn => ht n (List.mem_append_right _ hn)) (List.pairwise_append.mp ha).2.1 (hc.rest ha hd)
    refine ⟨?_, fun x hx => ?_⟩
    · simp only [renderMembers, evalMembers, hc.shows, hr.shows]
    · exact (hr.frame x fun n hn => hx n (List.mem_append_right _ hn)).trans
        (hc.frame x fun n hn => hx n (List.mem_append_left _ hn))

theorem renders_items : ∀ (items : List Node) (d' : Document),
    (∀ n ∈ itemsSlots items, d.Takes env T n) → d.Apart (itemsSlots items) →
    (∀ n ∈ itemsSlots items, ∀ x, d.Under n x → d'.slot? x = d.slot? x) →
    d.Renders (itemsSlots items) d' (renderItems T d' items).2 (renderItems T d' items).1
      (evalItems env items)
  | [], d', _, _, _ => ⟨rfl, fun _ _ => rfl⟩
  | c :: rest, d', ht, ha, hd => by
    have hc := renders_node c d' (fun n hn => ht n (List.mem_append_left _ hn))
      (List.pairwise_append.mp ha).1 fun n hn => hd n (List.mem_append_left _ hn)
    have hr := renders_items rest (renderNode T d' c).2
      (fun n hn => ht n (List.mem_append_right _ hn)) (List.pairwise_append.mp ha).2.1 (hc.rest ha hd)
    refine ⟨?_, fun x hx => ?_⟩
    · simp only [renderItems, evalItems, hc.shows, hr.shows]
    · exact (hr.frame x fun n hn => hx n (List.mem_append_right _ hn)).trans
        (hc.frame x fun n hn => hx n (List.mem_append_left _ hn))
end

end

theorem Linked.apart (h : d.Linked) {n : Nat} {c : Node} (hc : d.slot? n = some (.filled c)) :
    d.Apart c.slots := by
  have hn := h.nodup hc
  refine List.Pairwise.imp_of_mem ?_ hn
  intro k k' hk hk' hne x hx
  exact h.not_under_both hc hk hk' hne hx

/-- As many levels of slots as lie ahead are enough to take a slot whole. -/
theorem Linked.takes (h : d.Linked) (hs : d.Shows env) : ∀ (depth n : Nat), d.size ≤ depth + n →
    d.Takes env (take depth) n := by
  intro depth
  induction depth with
  | zero =>
    intro n hn d' _
    refine ⟨?_, fun _ _ => rfl⟩
    rw [hs n, d.slot?_of_le n (by omega)]
    rfl
  | succ depth ih =>
    intro n hn d' hd
    have hslot := hd n .root
    have ho : ∀ x, x ≠ n → (d'.openSlot n).slot? x = d'.slot? x := by
      intro x hx
      rw [slot?_openSlot, if_neg fun h => hx h.1]
    unfold take
    rw [hslot, hs n]
    cases hc : d.slot? n with
    | none => exact ⟨rfl, fun _ _ => rfl⟩
    | some s =>
      cases s with
      | pending => exact ⟨rfl, fun _ _ => rfl⟩
      | failed j => exact ⟨rfl, fun x hx => ho x fun he => hx (he ▸ .root)⟩
      | filled c =>
        have ht : ∀ k ∈ c.slots, d.Takes env (take depth) k := by
          intro k hk
          have hlt := (h.ahead hc k hk).1
          exact ih k (by omega)
        have hopen : ∀ k ∈ c.slots, ∀ x, d.Under k x → (d'.openSlot n).slot? x = d.slot? x := by
          intro k hk x hx
          have hlt := (h.ahead hc k hk).1
          have hle := h.le_of_under hx
          rw [ho x (by omega)]
          exact hd x (Under.trans (.child .root hc hk) hx)
        obtain ⟨hv, hf⟩ := renders_node c (d'.openSlot n) ht (h.apart hc) hopen
        refine ⟨hv, fun x hx => ?_⟩
        rw [← ho x fun he => hx (he ▸ .root)]
        exact hf x fun k hk hu => hx (Under.trans (.child .root hc hk) hu)

/-- Rendering a linked document gives what its slots show. -/
theorem Linked.toJson_eq (h : d.Linked) (hs : d.Shows env) (n : Nat) :
    d.toJson n = (env n).getD .null := by
  have ht := h.takes hs (d.size + 1) n (by omega) d fun _ _ => rfl
  rw [toJson, ht.1]

end Document

/-! ## What slots show -/

/-- What a slot of a document shows, at most `depth` slots deep. -/
def Document.shown (d : Document) : Nat → Nat → Option Json
  | 0, _ => none
  | depth + 1, n => (d.slot? n).bind (Slot.shown (d.shown depth))

namespace Document

variable {d : Document}

theorem shown_of_le {n : Nat} (h : d.size ≤ n) (depth : Nat) : d.shown depth n = none := by
  cases depth with
  | zero => rfl
  | succ depth =>
    rw [shown, d.slot?_of_le n h]
    rfl

/-- As many levels as there are slots ahead are enough. -/
theorem Linked.shown_congr (h : d.Linked) {depth depth' n : Nat} (hn : d.size ≤ depth + n)
    (hn' : d.size ≤ depth' + n) : d.shown depth n = d.shown depth' n := by
  induction depth generalizing depth' n with
  | zero => rw [shown_of_le (by omega), shown_of_le (by omega)]
  | succ depth ih =>
    cases depth' with
    | zero => rw [shown_of_le (by omega), shown_of_le (by omega)]
    | succ depth' =>
      rw [shown, shown]
      cases hs : d.slot? n with
      | none => rfl
      | some s =>
        cases s with
        | pending => rfl
        | failed j => rfl
        | filled c =>
          refine c.eval_congr fun k hk => ?_
          have hlt := (h.ahead hs k hk).1
          exact ih (by omega) (by omega)

/-- All slots of a linked document show something definite. -/
theorem Linked.exists_shows (h : d.Linked) : ∃ env, d.Shows env := by
  refine ⟨d.shown (d.size + 1), fun n => ?_⟩
  rw [shown]
  cases hs : d.slot? n with
  | none => rfl
  | some s =>
    cases s with
    | pending => rfl
    | failed j => rfl
    | filled c =>
      refine c.eval_congr fun k hk => ?_
      exact h.shown_congr (by omega) (by omega)

end Document

/-! ## Stitched documents are linked -/

namespace Document

variable {fallback : Bool} {d d' : Document} {n m : Nat} {c c' : Node}

theorem filled_of_grow {s : Nat} (h : (d.grow s).slot? n = some (.filled c)) :
    d.slot? n = some (.filled c) := by
  rw [slot?_grow] at h
  split at h
  · exact h
  · split at h <;> cases h

theorem filled_of_failAll {errors : List (Nat × Json)}
    (h : (d.failAll errors).slot? n = some (.filled c)) : d.slot? n = some (.filled c) := by
  rw [slot?_failAll] at h
  split at h
  · cases hl : lastError errors n with
    | some j =>
      rw [hl] at h
      cases h
    | none =>
      rw [hl] at h
      exact h
  · cases h

theorem filled_of_fill (h : (d.fill m c).slot? n = some (.filled c')) :
    (n = m ∧ c' = c) ∨ d.slot? n = some (.filled c') := by
  rw [slot?_fill] at h
  split at h
  · next hnm =>
    cases h
    exact .inl ⟨hnm.1, rfl⟩
  · exact .inr h

theorem linked_empty : Document.Linked {} := by
  constructor <;> intro n <;> intros <;> contradiction

/-- Content that may go into the slot `n`: it names slots that lie ahead and that nothing else
names. -/
structure Fits (d : Document) (n : Nat) (c : Node) : Prop where
  ahead : ∀ k ∈ c.slots, n < k ∧ k < d.size
  nodup : c.slots.Nodup
  fresh : ∀ {n' : Nat} {c' : Node}, d.slot? n' = some (.filled c') → ∀ k ∈ c'.slots, k ∉ c.slots

theorem Fits.grow (h : d.Fits m c) (s : Nat) : (d.grow s).Fits m c where
  ahead k hk := by
    have hb := h.ahead k hk
    have hle := d.le_size_grow s
    omega
  nodup := h.nodup
  fresh hn := h.fresh (filled_of_grow hn)

namespace Linked

/-- A document without new contents stays linked. -/
theorem mono (h : d.Linked) (hsize : d.size ≤ d'.size)
    (hc : ∀ {n c}, d'.slot? n = some (.filled c) → d.slot? n = some (.filled c)) : d'.Linked where
  ahead hn k hk := by
    have hb := h.ahead (hc hn) k hk
    omega
  nodup hn := h.nodup (hc hn)
  parent hn hn' := h.parent (hc hn) (hc hn')

theorem grow (h : d.Linked) (s : Nat) : (d.grow s).Linked := h.mono (d.le_size_grow s) filled_of_grow

theorem failAll (h : d.Linked) (errors : List (Nat × Json)) : (d.failAll errors).Linked :=
  h.mono (Nat.le_of_eq (d.size_failAll errors).symm) filled_of_failAll

theorem fill (h : d.Linked) (hf : d.Fits m c) : (d.fill m c).Linked where
  ahead hn k hk := by
    rw [size_fill]
    rcases filled_of_fill hn with ⟨rfl, rfl⟩ | hn
    · exact hf.ahead k hk
    · exact h.ahead hn k hk
  nodup hn := by
    rcases filled_of_fill hn with ⟨rfl, rfl⟩ | hn
    · exact hf.nodup
    · exact h.nodup hn
  parent hn hn' hk hk' := by
    rcases filled_of_fill hn with ⟨h₁, rfl⟩ | h₁
    · rcases filled_of_fill hn' with ⟨h₂, rfl⟩ | h₂
      · exact h₁.trans h₂.symm
      · exact absurd hk (hf.fresh h₂ _ hk')
    · rcases filled_of_fill hn' with ⟨h₂, rfl⟩ | h₂
      · exact absurd hk' (hf.fresh h₁ _ hk)
      · exact h.parent h₁ h₂ hk hk'

/-- Content that names new slots only may go into any slot that was there before. -/
theorem fits_grow (h : d.Linked) {k : Nat} (hm : m < d.size) (hc : c.slots = List.range' d.size k) :
    (d.grow (d.size + k)).Fits m c where
  ahead x hx := by
    have hb := List.mem_range'_1.mp (hc ▸ hx)
    rw [size_grow _ _ (Nat.le_add_right ..)]
    omega
  nodup := hc ▸ List.nodup_range'
  fresh hn x hx hx' := by
    have hb := List.mem_range'_1.mp (hc ▸ hx')
    have hlt := (h.ahead (filled_of_grow hn) x hx).2
    omega

theorem fill_grow (h : d.Linked) {k : Nat} (hm : m < d.size) (hc : c.slots = List.range' d.size k) :
    ((d.grow (d.size + k)).fill m c).Linked :=
  (h.grow _).fill (h.fits_grow hm hc)

theorem step {a : Action} {next : List Patch} (h : d.Linked) (hs : Step fallback d a d' next)
    (ha : ∀ p ∈ a.entries, p.slot < d.size) : d'.Linked := by
  cases hs with
  | absent p => exact h
  | embedded caught => exact h.failAll _
  | @placed p v node next d' hf =>
    obtain ⟨rfl, hn⟩ := Document.format_relationValue Direct.absent hf
    exact h.fill_grow (ha p (List.mem_singleton_self _)) (hn.node_slots.trans hn.slots_eq)

end Linked
end Document

/-- Stitching keeps an account of the document and keeps it linked. -/
theorem Account.kept_linked (fallback : Bool) (root : Node) :
    Kept fallback fun log d left => Account fallback root log d left ∧ d.Linked where
  perm hl h := ⟨h.1.perm hl, h.2⟩
  step hs h := by
    refine ⟨h.1.step hs, h.2.step hs fun p hp => ?_⟩
    exact h.1.slot_lt (List.mem_append_right _ (List.mem_append_left _ hp))

namespace Rooted

variable {fallback : Bool} {m : Message} {schema : Schema} {target : Option Nat} {root : Node}
  {patches : List Patch} {d : Document}

theorem linked (h : Rooted fallback m schema target root patches d) : d.Linked := by
  obtain ⟨d', hf, rfl⟩ := h.formatted
  obtain ⟨rfl, hn⟩ := Document.format_message Direct.absent hf
  have h1 : 0 < (Document.grow {} 1).size := Nat.zero_lt_one
  exact (Document.linked_empty.grow 1).fill_grow h1 (hn.node_slots.trans hn.slots_eq)

theorem linked_of_runs (h : Rooted fallback m schema target root patches d) {ws : List Wave}
    {d' : Document} (hr : (Progress.enter ⟨d, patches⟩).Runs fallback ws (.finished d' none)) :
    Account fallback root (actionsOf ws) d' [] ∧ d'.Linked := by
  have hk := Account.kept_linked fallback root
  have he : (Progress.enter ⟨d, patches⟩).Has
      fun d left => Account fallback root [] d left ∧ d.Linked := hk.enter ⟨h.account, h.linked⟩
  exact hk.runs hr he

end Rooted
end Patchwork
