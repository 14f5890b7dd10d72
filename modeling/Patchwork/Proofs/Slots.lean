import Patchwork.Document

/-!
# Slots of a document

What each operation on a document does to each of its slots, which slots a node names, and what a
node shows once it is known what its slots show.
-/

namespace Patchwork

mutual
/-- The slots that a node names, in order. -/
def Node.slots : Node → List Nat
  | .value _ => []
  | .object members => membersSlots members
  | .list items => itemsSlots items
  | .slot n => [n]

def membersSlots : List (String × Node) → List Nat
  | [] => []
  | (_, x) :: rest => x.slots ++ membersSlots rest

def itemsSlots : List Node → List Nat
  | [] => []
  | x :: rest => x.slots ++ itemsSlots rest
end

mutual
/-- The JSON form of a node whose slots show what `env` says. -/
def Node.eval (env : Nat → Option Json) : Node → Option Json
  | .value j => some j
  | .object members => some (.object (evalMembers env members))
  | .list items => some (.arr (evalItems env items))
  | .slot n => env n

def evalMembers (env : Nat → Option Json) : List (String × Node) → List (String × Json)
  | [] => []
  | (name, x) :: rest => (x.eval env).toList.map (name, ·) ++ evalMembers env rest

def evalItems (env : Nat → Option Json) : List Node → List Json
  | [] => []
  | x :: rest => (x.eval env).getD .null :: evalItems env rest
end

theorem membersSlots_append (xs ys : List (String × Node)) :
    membersSlots (xs ++ ys) = membersSlots xs ++ membersSlots ys := by
  induction xs with
  | nil => rfl
  | cons x xs ih => simp [membersSlots, ih]

theorem evalMembers_append (env : Nat → Option Json) (xs ys : List (String × Node)) :
    evalMembers env (xs ++ ys) = evalMembers env xs ++ evalMembers env ys := by
  induction xs with
  | nil => rfl
  | cons x xs ih => simp [evalMembers, ih]

mutual
/-- A node reads its environment at its own slots only. -/
theorem Node.eval_congr {env env' : Nat → Option Json} :
    ∀ x : Node, (∀ n ∈ x.slots, env n = env' n) → x.eval env = x.eval env'
  | .value _, _ => rfl
  | .slot n, h => h n (by simp [Node.slots])
  | .object members, h => by
    simp only [Node.eval, evalMembers_congr members h]
  | .list items, h => by
    simp only [Node.eval, evalItems_congr items h]

theorem evalMembers_congr {env env' : Nat → Option Json} :
    ∀ ms : List (String × Node), (∀ n ∈ membersSlots ms, env n = env' n) →
      evalMembers env ms = evalMembers env' ms
  | [], _ => rfl
  | (name, x) :: rest, h => by
    have hx := Node.eval_congr x fun n hn => h n (by simp [membersSlots, hn])
    have hr := evalMembers_congr rest fun n hn => h n (by simp [membersSlots, hn])
    simp only [evalMembers, hx, hr]

theorem evalItems_congr {env env' : Nat → Option Json} :
    ∀ xs : List Node, (∀ n ∈ itemsSlots xs, env n = env' n) →
      evalItems env xs = evalItems env' xs
  | [], _ => rfl
  | x :: rest, h => by
    have hx := Node.eval_congr x fun n hn => h n (by simp [itemsSlots, hn])
    have hr := evalItems_congr rest fun n hn => h n (by simp [itemsSlots, hn])
    simp only [evalItems, hx, hr]
end

namespace Document

variable (d : Document) (n m : Nat)

@[simp] theorem size_grow (s : Nat) (h : d.size ≤ s) : (d.grow s).size = s := by
  simp only [size, grow, List.length_append, List.length_replicate] at *
  omega

theorem le_size_grow (s : Nat) : d.size ≤ (d.grow s).size := by
  simp [size, grow]

theorem grow_of_le {s : Nat} (h : s ≤ d.size) : d.grow s = d := by
  rw [grow, Nat.sub_eq_zero_of_le h]
  exact congrArg Document.mk (List.append_nil d.slots)

theorem grow_succ {s : Nat} (h : d.size ≤ s) : (d.grow s).grow (s + 1) = d.grow (s + 1) := by
  have hs : s + 1 - d.size = (s - d.size) + 1 := by omega
  rw [grow, d.size_grow s h, grow, grow, hs, List.append_assoc, List.replicate_append_replicate,
    Nat.add_sub_cancel_left]

@[simp] theorem size_fill (c : Node) : (d.fill n c).size = d.size := by
  simp only [fill]
  split <;> simp [size]

@[simp] theorem size_fail (e : Json) : (d.fail n e).size = d.size := by simp [size, fail]

theorem slot?_of_le (h : d.size ≤ n) : d.slot? n = none := by
  simpa [slot?, size] using h

theorem lt_of_slot? {s : Slot} (h : d.slot? n = some s) : n < d.size :=
  (List.getElem?_eq_some_iff.mp h).1

theorem slot?_grow (s : Nat) : (d.grow s).slot? n =
    if n < d.size then d.slot? n else if n < s then some .pending else none := by
  by_cases h : n < d.size
  · rw [if_pos h]
    exact List.getElem?_append_left h
  · have ha : (d.grow s).slot? n = (List.replicate (s - d.size) Slot.pending)[n - d.size]? :=
      List.getElem?_append_right (Nat.le_of_not_lt h)
    rw [if_neg h, ha, List.getElem?_replicate]
    by_cases hs : n < s
    · rw [if_pos hs, if_pos (by omega)]
    · rw [if_neg hs, if_neg (by omega)]

theorem slot?_set (s : Slot) : (⟨d.slots.set m s⟩ : Document).slot? n =
    if n = m ∧ n < d.size then some s else d.slot? n := by
  simp only [slot?, List.getElem?_set]
  by_cases h : m = n
  · subst h
    by_cases hs : m < d.size
    · simp [hs, show m < d.slots.length from hs]
    · simp [hs, show ¬m < d.slots.length from hs]
  · simp [h, Ne.symm h]

theorem slot?_fail (e : Json) : (d.fail m e).slot? n =
    if n = m ∧ n < d.size then some (.failed e) else d.slot? n := slot?_set ..

theorem slot?_openSlot : (d.openSlot m).slot? n =
    if n = m ∧ n < d.size then some .pending else d.slot? n := slot?_set ..

theorem slot?_fill (c : Node) : (d.fill m c).slot? n =
    if n = m ∧ n < d.size ∧ ¬d.isFailed n then some (.filled c) else d.slot? n := by
  by_cases hf : d.isFailed m = true
  · have hn : ¬(n = m ∧ n < d.size ∧ ¬d.isFailed n) := fun h => h.2.2 (h.1 ▸ hf)
    simp only [fill, if_pos hf, if_neg hn]
  · rw [fill, if_neg hf, slot?_set]
    by_cases h : n = m
    · simp [h, hf]
    · simp [h]

end Document
end Patchwork
