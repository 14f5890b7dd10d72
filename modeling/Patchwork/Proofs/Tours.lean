import Mathlib.Data.List.Nodup
import Patchwork.Proofs.Rendering

/-!
# Tours through a document

Rendering goes from slot to slot and leaves each one open behind it. Its tour is the list of the
slots it takes, each with the document as it was at that moment. In a linked document no slot is
taken twice, and each one still holds what it held in the beginning.
-/

namespace Patchwork
open Proto

namespace Document

section

variable (take : Nat → Document → Option Json × Document)

mutual
/-- The slots that rendering a node takes itself, each with the document at that moment. -/
def nodeStops (d : Document) : Node → List (Nat × Document)
  | .value _ => []
  | .slot n => [(n, d)]
  | .object members => memberStops d members
  | .list items => itemStops d items

def memberStops (d : Document) : List (String × Node) → List (Nat × Document)
  | [] => []
  | (_, x) :: rest => nodeStops d x ++ memberStops (renderNode take d x).2 rest

def itemStops (d : Document) : List Node → List (Nat × Document)
  | [] => []
  | x :: rest => nodeStops d x ++ itemStops (renderNode take d x).2 rest
end

end

/-- All slots that are taken when the slot `n` is, at most `depth` slots deep, in order. -/
def tour : Nat → Nat → Document → List (Nat × Document)
  | 0, _, _ => []
  | depth + 1, n, d =>
    (n, d) :: match d.slot? n with
      | some (.filled content) =>
        (nodeStops (take depth) (d.openSlot n) content).flatMap fun s => tour depth s.1 s.2
      | _ => []

/-! ## Stops -/

section

variable {T T' : Nat → Document → Option Json × Document}

mutual
/-- Rendering a node depends on what is taken at its stops and on nothing else. -/
theorem renderNode_congr : ∀ (c : Node) (d : Document),
    (∀ s ∈ nodeStops T d c, T s.1 s.2 = T' s.1 s.2) →
    renderNode T d c = renderNode T' d c ∧ nodeStops T d c = nodeStops T' d c
  | .value _, _, _ => ⟨rfl, rfl⟩
  | .slot n, d, h => ⟨h (n, d) (List.mem_singleton_self _), rfl⟩
  | .object members, d, h => by
    obtain ⟨hr, hs⟩ := renderMembers_congr members d h
    exact ⟨by simp only [renderNode, hr], hs⟩
  | .list items, d, h => by
    obtain ⟨hr, hs⟩ := renderItems_congr items d h
    exact ⟨by simp only [renderNode, hr], hs⟩

theorem renderMembers_congr : ∀ (ms : List (String × Node)) (d : Document),
    (∀ s ∈ memberStops T d ms, T s.1 s.2 = T' s.1 s.2) →
    renderMembers T d ms = renderMembers T' d ms ∧ memberStops T d ms = memberStops T' d ms
  | [], _, _ => ⟨rfl, rfl⟩
  | (name, c) :: rest, d, h => by
    obtain ⟨hc, hcs⟩ := renderNode_congr c d fun s hs => h s (List.mem_append_left _ hs)
    obtain ⟨hr, hrs⟩ := renderMembers_congr rest (renderNode T d c).2
      fun s hs => h s (List.mem_append_right _ hs)
    constructor
    · simp only [renderMembers, ← hc, hr]
    · simp only [memberStops, ← hc, hcs, hrs]

theorem renderItems_congr : ∀ (items : List Node) (d : Document),
    (∀ s ∈ itemStops T d items, T s.1 s.2 = T' s.1 s.2) →
    renderItems T d items = renderItems T' d items ∧ itemStops T d items = itemStops T' d items
  | [], _, _ => ⟨rfl, rfl⟩
  | c :: rest, d, h => by
    obtain ⟨hc, hcs⟩ := renderNode_congr c d fun s hs => h s (List.mem_append_left _ hs)
    obtain ⟨hr, hrs⟩ := renderItems_congr rest (renderNode T d c).2
      fun s hs => h s (List.mem_append_right _ hs)
    constructor
    · simp only [renderItems, ← hc, hr]
    · simp only [itemStops, ← hc, hcs, hrs]
end

end

/-- The slots `ns` are taken one after the other, and what each of them reaches is as it was. -/
structure StopsAt (d : Document) (ns : List Nat) (stops : List (Nat × Document)) : Prop where
  slots : stops.map (·.1) = ns
  same : ∀ s ∈ stops, ∀ x, d.Under s.1 x → s.2.slot? x = d.slot? x

theorem StopsAt.append {d : Document} {ns ms : List Nat} {xs ys : List (Nat × Document)}
    (hx : d.StopsAt ns xs) (hy : d.StopsAt ms ys) : d.StopsAt (ns ++ ms) (xs ++ ys) where
  slots := by rw [List.map_append, hx.slots, hy.slots]
  same s hs := (List.mem_append.mp hs).elim (hx.same s) (hy.same s)

section

variable {d : Document} {env : Nat → Option Json} {T : Nat → Document → Option Json × Document}

mutual
theorem stopsAt_node : ∀ (c : Node) (d' : Document), (∀ n ∈ c.slots, d.Takes env T n) →
    d.Apart c.slots → (∀ n ∈ c.slots, ∀ x, d.Under n x → d'.slot? x = d.slot? x) →
    d.StopsAt c.slots (nodeStops T d' c)
  | .value _, _, _, _, _ => ⟨rfl, by simp [nodeStops]⟩
  | .slot n, d', _, _, hd => by
    refine ⟨rfl, fun s hs => ?_⟩
    rw [List.mem_singleton.mp hs]
    exact hd n (List.mem_singleton_self _)
  | .object members, d', ht, ha, hd => stopsAt_members members d' ht ha hd
  | .list items, d', ht, ha, hd => stopsAt_items items d' ht ha hd

theorem stopsAt_members : ∀ (ms : List (String × Node)) (d' : Document),
    (∀ n ∈ membersSlots ms, d.Takes env T n) → d.Apart (membersSlots ms) →
    (∀ n ∈ membersSlots ms, ∀ x, d.Under n x → d'.slot? x = d.slot? x) →
    d.StopsAt (membersSlots ms) (memberStops T d' ms)
  | [], _, _, _, _ => ⟨rfl, by simp [memberStops]⟩
  | (name, c) :: rest, d', ht, ha, hd => by
    have htc : ∀ n ∈ c.slots, d.Takes env T n := fun n hn => ht n (List.mem_append_left _ hn)
    have hac := (List.pairwise_append.mp ha).1
    have hdc : ∀ n ∈ c.slots, ∀ x, d.Under n x → d'.slot? x = d.slot? x :=
      fun n hn => hd n (List.mem_append_left _ hn)
    have hr := renders_node c d' htc hac hdc
    exact (stopsAt_node c d' htc hac hdc).append <| stopsAt_members rest (renderNode T d' c).2
      (fun n hn => ht n (List.mem_append_right _ hn)) (List.pairwise_append.mp ha).2.1 (hr.rest ha hd)

theorem stopsAt_items : ∀ (items : List Node) (d' : Document),
    (∀ n ∈ itemsSlots items, d.Takes env T n) → d.Apart (itemsSlots items) →
    (∀ n ∈ itemsSlots items, ∀ x, d.Under n x → d'.slot? x = d.slot? x) →
    d.StopsAt (itemsSlots items) (itemStops T d' items)
  | [], _, _, _, _ => ⟨rfl, by simp [itemStops]⟩
  | c :: rest, d', ht, ha, hd => by
    have htc : ∀ n ∈ c.slots, d.Takes env T n := fun n hn => ht n (List.mem_append_left _ hn)
    have hac := (List.pairwise_append.mp ha).1
    have hdc : ∀ n ∈ c.slots, ∀ x, d.Under n x → d'.slot? x = d.slot? x :=
      fun n hn => hd n (List.mem_append_left _ hn)
    have hr := renders_node c d' htc hac hdc
    exact (stopsAt_node c d' htc hac hdc).append <| stopsAt_items rest (renderNode T d' c).2
      (fun n hn => ht n (List.mem_append_right _ hn)) (List.pairwise_append.mp ha).2.1 (hr.rest ha hd)
end

end

/-! ## Tours -/

/-- A tour of `d` from the slot `n`: it takes what is reached, each slot once, and finds in it what
`d` holds there. -/
structure Covers (d : Document) (n : Nat) (stops : List (Nat × Document)) : Prop where
  once : (stops.map (·.1)).Nodup
  mem_iff : ∀ x, x ∈ stops.map (·.1) ↔ d.Under n x
  found : ∀ s ∈ stops, s.2.slot? s.1 = d.slot? s.1

section

variable {d d' : Document} {n : Nat}

/-- What a slot reaches is itself or reached from a slot that its content names. -/
theorem Under.eq_or {x : Nat} (h : d.Under n x) :
    x = n ∨ ∃ c, d.slot? n = some (.filled c) ∧ ∃ k ∈ c.slots, d.Under k x := by
  induction h with
  | root => exact .inl rfl
  | @child y x c above content named ih =>
    rcases ih with rfl | ⟨c', hc', k, hk, hu⟩
    · exact .inr ⟨c, content, x, named, .root⟩
    · exact .inr ⟨c', hc', k, hk, .child hu content named⟩

theorem Under.eq_of_not_filled {x : Nat} (h : d.Under n x)
    (hn : ∀ c, d.slot? n ≠ some (.filled c)) : x = n := by
  rcases h.eq_or with rfl | ⟨c, hc, _⟩
  · rfl
  · exact absurd hc (hn c)

/-- The tour of a slot without content ends there. -/
theorem covers_self (hn : ∀ c, d.slot? n ≠ some (.filled c)) (h : d'.slot? n = d.slot? n) :
    d.Covers n [(n, d')] where
  once := List.nodup_singleton n
  mem_iff x := by
    rw [List.map_singleton, List.mem_singleton]
    exact ⟨fun hx => hx ▸ .root, fun hx => hx.eq_of_not_filled hn⟩
  found s hs := by
    rw [List.mem_singleton.mp hs]
    exact h

/-- The tour of a slot goes on to those that its content names, whose tours have nothing in common. -/
theorem Linked.covers_cons (h : d.Linked) {c : Node} (hc : d.slot? n = some (.filled c))
    {stops : List (Nat × Document)} (hs : stops.map (·.1) = c.slots)
    {T : Nat × Document → List (Nat × Document)} (ht : ∀ s ∈ stops, d.Covers s.1 (T s))
    (hn : d'.slot? n = d.slot? n) : d.Covers n ((n, d') :: stops.flatMap T) := by
  have hmem : ∀ s ∈ stops, s.1 ∈ c.slots := fun s hm => hs ▸ List.mem_map_of_mem hm
  have hunder : ∀ x, x ∈ (stops.flatMap T).map (·.1) ↔ ∃ k ∈ c.slots, d.Under k x := by
    intro x
    rw [List.map_flatMap, List.mem_flatMap, ← hs]
    constructor
    · rintro ⟨s, hm, hx⟩
      exact ⟨s.1, List.mem_map_of_mem hm, ((ht s hm).mem_iff x).mp hx⟩
    · rintro ⟨k, hk, hx⟩
      obtain ⟨s, hm, rfl⟩ := List.mem_map.mp hk
      exact ⟨s, hm, ((ht s hm).mem_iff x).mpr hx⟩
  refine ⟨?_, fun x => ?_, fun s hm => ?_⟩
  · rw [List.map_cons, List.nodup_cons]
    constructor
    · intro hm
      obtain ⟨k, hk, hu⟩ := (hunder n).mp hm
      have hle := h.le_of_under hu
      have hlt := (h.ahead hc k hk).1
      omega
    · rw [List.map_flatMap, List.nodup_flatMap]
      refine ⟨fun s hm => (ht s hm).once, ?_⟩
      -- nothing is reached from two slots of one content
      have hne : stops.Pairwise fun s s' => s.1 ≠ s'.1 := List.pairwise_map.mp (hs ▸ h.nodup hc)
      refine hne.imp_of_mem fun {s s'} hm hm' hne => ?_
      intro x hx hx'
      exact h.not_under_both hc (hmem s hm) (hmem s' hm') hne (((ht s hm).mem_iff x).mp hx)
        (((ht s' hm').mem_iff x).mp hx')
  · rw [List.map_cons, List.mem_cons, hunder]
    constructor
    · rintro (rfl | ⟨k, hk, hu⟩)
      · exact .root
      · exact Under.trans (.child .root hc hk) hu
    · intro hu
      rcases hu.eq_or with rfl | ⟨c', hc', k, hk, hu⟩
      · exact .inl rfl
      · rw [hc] at hc'
        cases hc'
        exact .inr ⟨k, hk, hu⟩
  · rcases List.mem_cons.mp hm with rfl | hm
    · exact hn
    · obtain ⟨s', hm', hx⟩ := List.mem_flatMap.mp hm
      exact (ht s' hm').found s hx

end

namespace Linked

variable {d d' : Document} {n depth depth' : Nat}

/-- Of the slots that a content names each one is taken in turn. -/
theorem stopsAt (h : d.Linked) {c : Node} (hc : d.slot? n = some (.filled c))
    (hn : d.size < depth + 1 + n) (hd : ∀ x, d.Under n x → d'.slot? x = d.slot? x) :
    d.StopsAt c.slots (nodeStops (take depth) (d'.openSlot n) c) := by
  obtain ⟨env, shows⟩ := h.exists_shows
  have ht : ∀ k ∈ c.slots, d.Takes env (take depth) k := by
    intro k hk
    have hlt := (h.ahead hc k hk).1
    exact h.takes shows depth k (by omega)
  refine stopsAt_node c _ ht (h.apart hc) fun k hk x hx => ?_
  have hlt := (h.ahead hc k hk).1
  have hle := h.le_of_under hx
  rw [slot?_openSlot, if_neg (by omega)]
  exact hd x (Under.trans (.child .root hc hk) hx)

/-- More levels than there are slots ahead make no difference. -/
theorem take_congr (h : d.Linked) (hn : d.size < depth + n) (hn' : d.size < depth' + n)
    (h0 : 0 < depth) (h0' : 0 < depth') (hd : ∀ x, d.Under n x → d'.slot? x = d.slot? x) :
    take depth n d' = take depth' n d' ∧ tour depth n d' = tour depth' n d' := by
  induction depth generalizing depth' n d' with
  | zero => omega
  | succ depth ih =>
    obtain ⟨depth', rfl⟩ : ∃ k, depth' = k + 1 := ⟨depth' - 1, by omega⟩
    have hslot := hd n .root
    unfold take tour
    rw [hslot]
    cases hc : d.slot? n with
    | none => exact ⟨rfl, rfl⟩
    | some s =>
      cases s with
      | pending => exact ⟨rfl, rfl⟩
      | failed j => exact ⟨rfl, rfl⟩
      | filled c =>
        have hstops := h.stopsAt hc hn hd
        -- the stops lie ahead, so that either bound is still large enough there
        have hs : ∀ s ∈ nodeStops (take depth) (d'.openSlot n) c,
            take depth s.1 s.2 = take depth' s.1 s.2 ∧ tour depth s.1 s.2 = tour depth' s.1 s.2 := by
          intro s hm
          have hk := h.ahead hc s.1 (hstops.slots ▸ List.mem_map_of_mem hm)
          exact ih (by omega) (by omega) (by omega) (by omega) (hstops.same s hm)
        obtain ⟨hr, he⟩ := renderNode_congr c (d'.openSlot n) fun s hm => (hs s hm).1
        refine ⟨hr, ?_⟩
        dsimp only
        rw [← he]
        exact congrArg _ (List.flatMap_congr fun s hm => (hs s hm).2)

/-- A tour of a linked document takes what is reached, each slot once. -/
theorem covers (h : d.Linked) (hn : d.size < depth + n) (h0 : 0 < depth)
    (hd : ∀ x, d.Under n x → d'.slot? x = d.slot? x) : d.Covers n (tour depth n d') := by
  induction depth generalizing n d' with
  | zero => omega
  | succ depth ih =>
    have hslot := hd n .root
    unfold tour
    rw [hslot]
    cases hc : d.slot? n with
    | none => exact covers_self (by simp [hc]) hslot
    | some s =>
      cases s with
      | pending => exact covers_self (by simp [hc]) hslot
      | failed j => exact covers_self (by simp [hc]) hslot
      | filled c =>
        have hstops := h.stopsAt hc hn hd
        refine h.covers_cons hc hstops.slots (fun s hm => ?_) hslot
        have hk := h.ahead hc s.1 (hstops.slots ▸ List.mem_map_of_mem hm)
        exact ih (by omega) (by omega) (hstops.same s hm)

end Linked

/-- Rendering from the slot `n` gives what `env` says that the slots show. It ends by itself, its bound
on the depth playing no part, after a tour that takes each slot it reaches once. -/
structure RendersWhole (d : Document) (env : Nat → Option Json) (n : Nat) : Prop where
  toJson_eq : d.toJson n = (env n).getD .null
  ends : ∀ depth, d.size < depth →
    take depth n d = take (d.size + 1) n d ∧ tour depth n d = tour (d.size + 1) n d
  covers : d.Covers n (tour (d.size + 1) n d)

theorem Linked.rendersWhole {d : Document} {env : Nat → Option Json} (h : d.Linked)
    (shows : d.Shows env) (n : Nat) : d.RendersWhole env n where
  toJson_eq := h.toJson_eq shows n
  ends depth hd :=
    h.take_congr (by omega) (by omega) (by omega) (by omega) fun _ _ => rfl
  covers := h.covers (by omega) (by omega) fun _ _ => rfl

/-- What the slots of a linked document show is determined. -/
theorem Linked.shows_unique {d : Document} {env env' : Nat → Option Json} (h : d.Linked)
    (shows : d.Shows env) (shows' : d.Shows env') : env' = env := by
  funext n
  have ht := (h.takes shows d.size n (by omega) d fun _ _ => rfl).1
  have ht' := (h.takes shows' d.size n (by omega) d fun _ _ => rfl).1
  exact ht'.symm.trans ht

end Document
end Patchwork
