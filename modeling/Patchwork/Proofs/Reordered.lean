import Patchwork.Proofs.DocumentOrder

/-!
# Maps in any order

The entries of a map have no order of their own. Messages that differ in nothing but the order in which
the entries of their maps are given, at whatever depth, have the same fields, the same depth and the same
JSON form, and their maps have the same entries in the order of the keys.
-/

namespace Patchwork
open Proto

namespace Proto

mutual
/-- Two values are the same but for the order in which the entries of maps are given. -/
inductive Value.Reorders : Value → Value → Prop
  | scalar (s : Scalar) : Value.Reorders (.scalar s) (.scalar s)
  | message {m m' : Message} (h : Message.Reorders m m') : Value.Reorders (.message m) (.message m')
  | list {xs ys : List Value} (h : ItemsReorder xs ys) : Value.Reorders (.list xs) (.list ys)
  | map {es fs es' : List (Key × Value)} (one : OneMap es) (h : EntriesReorder es fs)
      (perm : fs.Perm es') : Value.Reorders (.map es) (.map es')

inductive ItemsReorder : List Value → List Value → Prop
  | nil : ItemsReorder [] []
  | cons {v w : Value} {xs ys : List Value} (h : Value.Reorders v w) (rest : ItemsReorder xs ys) :
      ItemsReorder (v :: xs) (w :: ys)

/-- Here the keys are in one order, so that only what is inside of the values may be in another. -/
inductive EntriesReorder : List (Key × Value) → List (Key × Value) → Prop
  | nil : EntriesReorder [] []
  | cons (k : Key) {v w : Value} {es fs : List (Key × Value)} (h : Value.Reorders v w)
      (rest : EntriesReorder es fs) : EntriesReorder ((k, v) :: es) ((k, w) :: fs)

inductive FieldsReorder : List (Nat × Value) → List (Nat × Value) → Prop
  | nil : FieldsReorder [] []
  | cons (n : Nat) {v w : Value} {es fs : List (Nat × Value)} (h : Value.Reorders v w)
      (rest : FieldsReorder es fs) : FieldsReorder ((n, v) :: es) ((n, w) :: fs)

inductive Message.Reorders : Message → Message → Prop
  | mk (t : MessageType) {fields fields' : List (Nat × Value)} (unknown : List Wire.Record)
      (h : FieldsReorder fields fields') :
      Message.Reorders (.mk t fields unknown) (.mk t fields' unknown)
end

/-- Two entries have the same key and the same value, but for the order of maps inside. -/
def EntryReorders (e f : Key × Value) : Prop := e.1 = f.1 ∧ e.2.Reorders f.2

theorem ItemsReorder.forall₂ {xs ys : List Value} : ItemsReorder xs ys →
    List.Forall₂ Value.Reorders xs ys
  | .nil => .nil
  | .cons h rest => .cons h rest.forall₂

theorem EntriesReorder.forall₂ {es fs : List (Key × Value)} : EntriesReorder es fs →
    List.Forall₂ EntryReorders es fs
  | .nil => .nil
  | .cons _ h rest => .cons ⟨rfl, h⟩ rest.forall₂

theorem EntriesReorder.keys {es fs : List (Key × Value)} : EntriesReorder es fs →
    es.map (·.1) = fs.map (·.1)
  | .nil => rfl
  | .cons k _ rest => congrArg (k :: ·) rest.keys

theorem Message.Reorders.type {m m' : Message} (h : m.Reorders m') : m.type = m'.type := by
  cases h
  rfl

theorem OneMap.of_keys {es fs : List (Key × Value)} (one : OneMap es) (keys : es.map (·.1) = fs.map (·.1)) :
    OneMap fs := by
  refine ⟨keys ▸ one.distinct, fun e he e' he' => ?_⟩
  have listed : ∀ e ∈ fs, ∃ d ∈ es, d.1 = e.1 := by
    intro e he
    exact List.mem_map.mp (keys ▸ List.mem_map_of_mem he)
  obtain ⟨d, hd, same⟩ := listed e he
  obtain ⟨d', hd', same'⟩ := listed e' he'
  rw [← same, ← same']
  exact one.typed d hd d' hd'

theorem OneMap.of_perm {es es' : List (Key × Value)} (one : OneMap es) (perm : es.Perm es') :
    OneMap es' where
  distinct := (perm.map Prod.fst).nodup_iff.mp one.distinct
  typed e he e' he' := one.typed e (perm.mem_iff.mpr he) e' (perm.mem_iff.mpr he')

/-- Where the entries on one side are given in another order, those on the other side can be, too. -/
theorem EntriesReorder.exists_perm {es fs es' : List (Key × Value)} (h : EntriesReorder es fs)
    (perm : es.Perm es') : ∃ fs', EntriesReorder es' fs' ∧ fs'.Perm fs := by
  induction perm generalizing fs with
  | nil => exact ⟨fs, h, .refl fs⟩
  | cons e _ ih =>
    cases h with
    | cons k h rest =>
      obtain ⟨fs', rest', perm⟩ := ih rest
      exact ⟨_, .cons k h rest', perm.cons _⟩
  | swap e f es =>
    cases h with
    | cons k h rest =>
      cases rest with
      | cons l h' rest => exact ⟨_, .cons l h' (.cons k h rest), .swap ..⟩
  | trans _ _ ih ih' =>
    obtain ⟨fs', h', perm⟩ := ih h
    obtain ⟨fs'', h'', perm'⟩ := ih' h'
    exact ⟨fs'', h'', perm'.trans perm⟩

mutual
theorem Value.Reorders.symm : ∀ {v w : Value}, v.Reorders w → w.Reorders v
  | _, _, .scalar s => .scalar s
  | _, _, .message h => .message h.symm
  | _, _, .list h => .list h.symm
  | _, _, .map one h perm => by
    obtain ⟨es, h', perm'⟩ := h.symm.exists_perm perm
    exact .map ((one.of_keys h.keys).of_perm perm) h' perm'

theorem ItemsReorder.symm : ∀ {xs ys : List Value}, ItemsReorder xs ys → ItemsReorder ys xs
  | _, _, .nil => .nil
  | _, _, .cons h rest => .cons h.symm rest.symm

theorem EntriesReorder.symm : ∀ {es fs : List (Key × Value)}, EntriesReorder es fs →
    EntriesReorder fs es
  | _, _, .nil => .nil
  | _, _, .cons k h rest => .cons k h.symm rest.symm

theorem FieldsReorder.symm : ∀ {fs gs : List (Nat × Value)}, FieldsReorder fs gs → FieldsReorder gs fs
  | _, _, .nil => .nil
  | _, _, .cons n h rest => .cons n h.symm rest.symm

theorem Message.Reorders.symm : ∀ {m m' : Message}, m.Reorders m' → m'.Reorders m
  | _, _, .mk t unknown h => .mk t unknown h.symm
end

/-! ## Fields -/

theorem FieldsReorder.lookup (n : Nat) {fs gs : List (Nat × Value)} : FieldsReorder fs gs →
    Option.Rel Value.Reorders (fs.lookup n) (gs.lookup n)
  | .nil => .none
  | .cons k h rest => by
    by_cases same : n = k
    · subst same
      simpa using Option.Rel.some h
    · simpa [List.lookup_cons, beq_eq_false_iff_ne.mpr same] using rest.lookup n

theorem Value.Reorders.counts (f : Field) {v w : Value} (h : v.Reorders w) : f.counts v = f.counts w := by
  cases h with
  | scalar s => rfl
  | message h => rfl
  | list h => cases h <;> rfl
  | @map es fs es' one h perm =>
    have same : es.isEmpty = fs.isEmpty := by
      cases h <;> rfl
    simp only [Field.counts, same, perm.isEmpty_eq]

theorem Field.default_reorders (f : Field) (pool : Pool) : (f.default pool).Reorders (f.default pool) := by
  unfold Field.default
  split
  · exact .list .nil
  · exact .map ⟨.nil, by simp⟩ .nil .nil
  · exact .message (.mk _ _ .nil)
  · exact .scalar _

/-- A field has the same value in both, but for the order of maps. -/
theorem Message.Reorders.value? {m m' : Message} (h : m.Reorders m') (f : Field) :
    Option.Rel Value.Reorders (m.value? f) (m'.value? f) := by
  cases h with
  | @mk t fields fields' unknown h =>
    have stored : Option.Rel Value.Reorders ((Message.mk t fields unknown).stored? f)
        ((Message.mk t fields' unknown).stored? f) := h.lookup f.number
    unfold Message.value? Message.has Message.get
    generalize (Message.mk t fields unknown).stored? f = x at stored ⊢
    generalize (Message.mk t fields' unknown).stored? f = y at stored ⊢
    cases stored with
    | none =>
      split
      · exact .some (f.default_reorders t.pool)
      · exact .none
    | some h =>
      simp only [Option.any_some, h.counts f, Option.getD_some]
      split
      · exact .some h
      · exact .none

/-! ## Depth -/

theorem levelsOfEntries_perm (entry : Nat) {es es' : List (Key × Value)} (perm : es.Perm es') :
    levelsOfEntries entry es = levelsOfEntries entry es' := by
  induction perm with
  | nil => rfl
  | cons e _ ih => simp [levelsOfEntries, ih]
  | swap e f es =>
    simp only [levelsOfEntries]
    omega
  | trans _ _ ih ih' => exact ih.trans ih'

mutual
theorem Value.Reorders.levels_eq (entry : Nat) : ∀ {v w : Value}, v.Reorders w →
    v.levels entry = w.levels entry
  | _, _, .scalar _ => rfl
  | _, _, .message h => congrArg (· + 1) (h.levels_eq entry)
  | _, _, .list h => h.levels_eq entry
  | _, _, .map _ h perm => (h.levels_eq entry).trans (levelsOfEntries_perm entry perm)

theorem ItemsReorder.levels_eq (entry : Nat) : ∀ {xs ys : List Value}, ItemsReorder xs ys →
    levelsOfItems entry xs = levelsOfItems entry ys
  | _, _, .nil => rfl
  | _, _, .cons h rest => by rw [levelsOfItems, levelsOfItems, h.levels_eq entry, rest.levels_eq entry]

theorem EntriesReorder.levels_eq (entry : Nat) : ∀ {es fs : List (Key × Value)}, EntriesReorder es fs →
    levelsOfEntries entry es = levelsOfEntries entry fs
  | _, _, .nil => rfl
  | _, _, .cons _ h rest => by
    rw [levelsOfEntries, levelsOfEntries, h.levels_eq entry, rest.levels_eq entry]

theorem FieldsReorder.levels_eq (entry : Nat) : ∀ {es fs : List (Nat × Value)}, FieldsReorder es fs →
    levelsOfFields entry es = levelsOfFields entry fs
  | _, _, .nil => rfl
  | _, _, .cons _ h rest => by
    rw [levelsOfFields, levelsOfFields, h.levels_eq entry, rest.levels_eq entry]

theorem Message.Reorders.levels_eq (entry : Nat) : ∀ {m m' : Message}, m.Reorders m' →
    m.levels entry = m'.levels entry
  | _, _, .mk _ _ h => by rw [Message.levels, Message.levels, h.levels_eq entry]
end

/-! ## JSON forms -/

theorem toOption_bind {ε α β : Type} (x : Except ε α) (f : α → Except ε β) :
    (x >>= f).toOption = x.toOption.bind fun a => (f a).toOption := by
  cases x <;> rfl

theorem toOption_map {ε α β : Type} (f : α → β) (x : Except ε α) :
    (x.map f).toOption = x.toOption.map f := by
  cases x <;> rfl

section

variable {payload : Pool → String → List UInt8 → Except Unprintable Json} {pool : Pool} {k : Kind}

theorem toOption_printEntries_cons (l : Key) (v : Value) (es : List (Key × Value)) :
    (printEntries payload pool k ((l, v) :: es)).toOption =
      (v.printWith payload pool k).toOption.bind fun x =>
        (printEntries payload pool k es).toOption.map ((l.text, x) :: ·) := by
  rw [printEntries]
  cases v.printWith payload pool k with
  | error e => rfl
  | ok x => cases printEntries payload pool k es <;> rfl

theorem names_of_printEntries {es : List (Key × Value)} {ms : List (String × Json)}
    (h : (printEntries payload pool k es).toOption = some ms) :
    ms.map (·.1) = es.map (·.1.text) := by
  induction es generalizing ms with
  | nil =>
    cases h
    rfl
  | cons e es ih =>
    rw [toOption_printEntries_cons] at h
    obtain ⟨x, _, rest⟩ := Option.bind_eq_some_iff.mp h
    obtain ⟨ms, others, rfl⟩ := Option.map_eq_some_iff.mp rest
    simp [ih others]

theorem printEntries_perm {es es' : List (Key × Value)} (perm : es.Perm es') {ms : List (String × Json)}
    (h : (printEntries payload pool k es).toOption = some ms) :
    ∃ ms', (printEntries payload pool k es').toOption = some ms' ∧ ms.Perm ms' := by
  induction perm generalizing ms with
  | nil => exact ⟨ms, h, .refl ms⟩
  | cons e _ ih =>
    rw [toOption_printEntries_cons] at h ⊢
    obtain ⟨x, first, rest⟩ := Option.bind_eq_some_iff.mp h
    obtain ⟨ms, others, rfl⟩ := Option.map_eq_some_iff.mp rest
    obtain ⟨ms', others', perm⟩ := ih others
    exact ⟨_, by simp [first, others'], perm.cons _⟩
  | swap e f es =>
    rw [toOption_printEntries_cons, toOption_printEntries_cons] at h ⊢
    obtain ⟨x, first, rest⟩ := Option.bind_eq_some_iff.mp h
    obtain ⟨ms, others, rfl⟩ := Option.map_eq_some_iff.mp rest
    obtain ⟨y, second, rest⟩ := Option.bind_eq_some_iff.mp others
    obtain ⟨ms, last, rfl⟩ := Option.map_eq_some_iff.mp rest
    exact ⟨_, by simp [first, second, last], .swap _ _ _⟩
  | trans _ _ ih ih' =>
    obtain ⟨ms', h', perm⟩ := ih h
    obtain ⟨ms'', h'', perm'⟩ := ih' h'
    exact ⟨ms'', h'', perm.trans perm'⟩

/-- The object of a map is the same in whatever order the entries are given. -/
theorem object_of_printEntries {es es' : List (Key × Value)} (one : OneMap es) (perm : es.Perm es') :
    (printEntries payload pool k es).toOption.map Json.object =
      (printEntries payload pool k es').toOption.map Json.object := by
  cases h : (printEntries payload pool k es).toOption with
  | some ms =>
    obtain ⟨ms', h', same⟩ := printEntries_perm perm h
    have distinct : (ms.map (·.1)).Nodup := names_of_printEntries h ▸ one.nodup_texts
    rw [h', Option.map_some, Option.map_some, Json.object_of_perm distinct same]
  | none =>
    cases h' : (printEntries payload pool k es').toOption with
    | none => rfl
    | some ms =>
      obtain ⟨ms', h'', _⟩ := printEntries_perm perm.symm h'
      rw [h] at h''
      cases h''

theorem ItemsReorder.fieldMaskText {xs ys : List Value} (h : ItemsReorder xs ys) :
    fieldMaskText xs = fieldMaskText ys := by
  have texts : ∀ {α : Type} (f : Value → Except Unprintable α), (∀ v w, v.Reorders w → f v = f w) →
      xs.mapM f = ys.mapM f := by
    intro α f same
    have each := h.forall₂
    clear h
    induction each with
    | nil => rfl
    | cons h _ ih => rw [List.mapM_cons, List.mapM_cons, same _ _ h, ih]
  unfold Proto.fieldMaskText
  rw [texts]
  intro v w h
  cases h <;> rfl

/-- What well-known types are printed from is the same in both. -/
theorem FieldsReorder.reads {fs gs : List (Nat × Value)} (h : FieldsReorder fs gs) (n : Nat) :
    wildNumber n fs = wildNumber n gs ∧ intAt n fs = intAt n gs ∧ textAt n fs = textAt n gs ∧
      bytesAt n fs = bytesAt n gs ∧ ItemsReorder (itemsAt n fs) (itemsAt n gs) := by
  have found := h.lookup n
  unfold wildNumber intAt textAt bytesAt itemsAt
  generalize fs.lookup n = x at found ⊢
  generalize gs.lookup n = y at found ⊢
  cases found with
  | none => exact ⟨rfl, rfl, rfl, rfl, .nil⟩
  | some h =>
    cases h with
    | scalar s => exact ⟨rfl, rfl, rfl, rfl, .nil⟩
    | message h => exact ⟨rfl, rfl, rfl, rfl, .nil⟩
    | list h => exact ⟨rfl, rfl, rfl, rfl, h⟩
    | map one h perm => exact ⟨rfl, rfl, rfl, rfl, .nil⟩

theorem FieldsReorder.assemble (t : MessageType) {fs gs : List (Nat × Value)} (h : FieldsReorder fs gs)
    (members : List (String × Json)) : assemble payload t fs members = assemble payload t gs members := by
  obtain ⟨wild, int, text, _, paths⟩ := h.reads 1
  obtain ⟨wild', int', _, bytes, _⟩ := h.reads 2
  unfold Proto.assemble timeOf
  rw [wild, wild', int, int', text, bytes, paths.fieldMaskText]

mutual
theorem Value.Reorders.printWith (pool : Pool) (k : Kind) : ∀ {v w : Value}, v.Reorders w →
    (v.printWith payload pool k).toOption = (w.printWith payload pool k).toOption
  | _, _, .scalar _ => rfl
  | _, _, .message h => by
    rw [Value.printWith, Value.printWith]
    exact h.printWith
  | _, _, .list h => by
    rw [Value.printWith, Value.printWith, toOption_map, toOption_map, h.printItems pool k]
  | _, _, .map one h perm => by
    rw [Value.printWith, Value.printWith, toOption_map, toOption_map, h.printEntries pool k]
    exact object_of_printEntries (one.of_keys h.keys) perm

theorem ItemsReorder.printItems (pool : Pool) (k : Kind) : ∀ {xs ys : List Value}, ItemsReorder xs ys →
    (printItems payload pool k xs).toOption = (printItems payload pool k ys).toOption
  | _, _, .nil => rfl
  | _, _, .cons h rest => by
    simp only [Proto.printItems, toOption_bind, h.printWith pool k, rest.printItems pool k]

theorem EntriesReorder.printEntries (pool : Pool) (k : Kind) : ∀ {es fs : List (Key × Value)},
    EntriesReorder es fs →
    (printEntries payload pool k es).toOption = (printEntries payload pool k fs).toOption
  | _, _, .nil => rfl
  | _, _, .cons l h rest => by
    rw [toOption_printEntries_cons, toOption_printEntries_cons, h.printWith pool k,
      rest.printEntries pool k]

theorem FieldsReorder.printFields (t : MessageType) : ∀ {fs gs : List (Nat × Value)},
    FieldsReorder fs gs → (printFields payload t fs).toOption = (printFields payload t gs).toOption
  | _, _, .nil => rfl
  | _, _, .cons n h rest => by
    rw [Proto.printFields, Proto.printFields]
    cases t.fieldAt? n with
    | none => exact rest.printFields t
    | some f =>
      simp only [h.counts f]
      split
      · simp only [toOption_bind, h.printWith t.pool f.kind, rest.printFields t]
      · exact rest.printFields t

/-- Messages that are the same but for the order of maps have the same JSON form, or none. -/
theorem Message.Reorders.printWith : ∀ {m m' : Message}, m.Reorders m' →
    (m.printWith payload).toOption = (m'.printWith payload).toOption
  | .mk t fields unknown, .mk _ fields' _, .mk _ _ h => by
    have shallow : (Message.mk t fields unknown).isShallow = (Message.mk t fields' unknown).isShallow :=
      congrArg (fun n => decide (n ≤ maxNesting)) (Message.Reorders.levels_eq 1 (.mk t unknown h))
    rw [Message.printWith, Message.printWith]
    simp only [toOption_bind, h.printFields t, shallow, h.assemble t]
end

theorem Message.Reorders.print {m m' : Message} (h : m.Reorders m') :
    m.print.toOption = m'.print.toOption :=
  h.printWith

end

/-! ## The order of keys -/

theorem Key.le_antisymm {k l : Key} (hkl : k.le l) (hlk : l.le k) : k = l := by
  cases k <;> cases l <;> simp_all [Key.le, Key.shape]
  case bool.bool a b => cases a <;> cases b <;> simp_all
  case int32.int32 a b => exact Int32.le_antisymm hkl hlk
  case int64.int64 a b => exact Int64.le_antisymm hkl hlk
  case uint32.uint32 a b => exact UInt32.le_antisymm hkl hlk
  case uint64.uint64 a b => exact UInt64.le_antisymm hkl hlk
  case string.string a b => exact String.le_antisymm hkl hlk

end Proto

namespace Formatting

/-- Entries of different keys are sorted in one way only. -/
theorem sortEntries_of_perm {es es' : List (Key × Value)} (distinct : (es.map (·.1)).Nodup)
    (perm : es.Perm es') : sortEntries es = sortEntries es' := by
  have same : (sortEntries es).Perm (sortEntries es') :=
    (sortEntries_perm es).trans (perm.trans (sortEntries_perm es').symm)
  apply same.eq_of_pairwise _ (sorted_sortEntries es) (sorted_sortEntries es')
  intro a b ha hb hab hba
  have ha : a ∈ es := (sortEntries_perm es).mem_iff.mp ha
  have hb : b ∈ es := perm.mem_iff.mpr ((sortEntries_perm es').mem_iff.mp hb)
  exact List.inj_on_of_nodup_map distinct ha hb (Key.le_antisymm hab hba)

/-- Entries of the same keys are sorted alike. -/
theorem forall₂_sortEntries {es fs : List (Key × Value)} (h : List.Forall₂ EntryReorders es fs) :
    List.Forall₂ EntryReorders (sortEntries es) (sortEntries fs) := by
  obtain ⟨length, related⟩ := List.forall₂_iff_zip.mp h
  -- Both lists are sorted at once, as pairs of entries of one key.
  let pairs := (es.zip fs).mergeSort fun x y => x.1.1.le y.1.1
  have listed : ∀ x ∈ pairs, x ∈ es.zip fs := fun x hx => (List.mergeSort_perm _ _).mem_iff.mp hx
  have left : pairs.map Prod.fst = sortEntries es := by
    have sorted : pairs.map Prod.fst = ((es.zip fs).map Prod.fst).mergeSort fun a b => a.1.le b.1 :=
      List.map_mergeSort fun x _ y _ => rfl
    rw [sorted, List.map_fst_zip length.le, sortEntries]
  have right : pairs.map Prod.snd = sortEntries fs := by
    have sorted : pairs.map Prod.snd = ((es.zip fs).map Prod.snd).mergeSort fun a b => a.1.le b.1 := by
      apply List.map_mergeSort
      intro x hx y hy
      rw [(related hx).1, (related hy).1]
    rw [sorted, List.map_snd_zip length.ge, sortEntries]
  rw [← left, ← right, List.forall₂_map_left_iff, List.forall₂_map_right_iff, List.forall₂_same]
  exact fun x hx => related (listed x hx)

/-- The entries of a map come in one order, whatever the order in which they are given. -/
theorem sortEntries_reorders {es fs es' : List (Key × Value)} (one : OneMap es) (h : EntriesReorder es fs)
    (perm : fs.Perm es') : List.Forall₂ EntryReorders (sortEntries es) (sortEntries es') := by
  rw [← sortEntries_of_perm (one.of_keys h.keys).distinct perm]
  exact forall₂_sortEntries h.forall₂

end Formatting
end Patchwork
