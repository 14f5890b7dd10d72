import Mathlib
import Patchwork.Json.Parser
import Patchwork.Json.Printer
import Patchwork.Proofs.Numerals
import Patchwork.Proofs.Objects

/-!
# JSON texts

The text of a value is read as the source that it spells, and this source has the value again. The
reader takes exactly the text of the value, so that values can stand one behind the other. Of numbers,
integers of 64 bits are considered, and the zeros among the doubles.
-/

namespace Patchwork.Json
open Patchwork.Json.Parser
open Patchwork.Numeral (isDigit_eq accumulate_eq spells_repr repr_eq_cons_zero)

/-! ## Characters -/

theorem skipBlank_cons {c : Char} (h : isBlank (some c) = false) (rest : List Glyph) :
    skipBlank (some c :: rest) = some c :: rest :=
  List.dropWhile_cons_of_neg (by simp [h])

theorem codeUnit?_control {c : Char} (h : c < ' ') (rest : List Glyph) :
    codeUnit? (some '0' :: some '0' :: some (Hex.digit (c.toNat / 16)) ::
      some (Hex.digit (c.toNat % 16)) :: rest) = some (c.toNat, rest) := by
  have small : c.toNat < 32 := h
  have zero : Hex.digit? '0' = some 0 := by decide
  have value : c.toNat / 16 * 16 + c.toNat % 16 = c.toNat := by omega
  simp [codeUnit?, zero, Hex.digit?_digit (c.toNat / 16) (by omega),
    Hex.digit?_digit (c.toNat % 16) (by omega), value]

/-- A character is read from its escape, or from itself. -/
theorem characters?_escaped (c : Char) (fuel : Nat) (rest : List Glyph) :
    characters? (fuel + 1) ((escaped c).map some ++ rest) =
      (characters? fuel rest).bind fun (gs, after) => some (some c :: gs, after) := by
  unfold escaped
  split
  · rfl
  · rfl
  · rfl
  · rfl
  · rfl
  · rfl
  · rfl
  · next quote backslash _ _ _ _ _ =>
    by_cases control : c < ' '
    · have small : c.toNat < 32 := control
      have high : isHighSurrogate c.toNat = false := by simp [isHighSurrogate]; omega
      have low : isLowSurrogate c.toNat = false := by simp [isLowSurrogate]; omega
      simp [control, characters?, escape?, codeUnit?_control control, high, low, Char.ofNat_toNat]
    · rw [if_neg control]
      have plain : (some c : Glyph).any (· < ' ') = false := by simp [control]
      rw [List.map_singleton, List.singleton_append, characters?]
      · rw [plain]
        rfl
      · simpa using quote
      · simpa using backslash

theorem escaped_length_pos (c : Char) : 0 < (escaped c).length := by
  unfold escaped
  split
  all_goals first | exact Nat.succ_pos _ | split <;> exact Nat.succ_pos _

theorem characters?_text (cs : List Char) {fuel : Nat} (h : (cs.flatMap escaped).length < fuel)
    (rest : List Glyph) :
    characters? fuel ((cs.flatMap escaped).map some ++ some '"' :: rest) = some (cs.map some, rest) := by
  induction cs generalizing fuel with
  | nil =>
    cases fuel with
    | zero => simp at h
    | succ fuel => rfl
  | cons c cs ih =>
    cases fuel with
    | zero => simp at h
    | succ fuel =>
      have step := escaped_length_pos c
      rw [List.flatMap_cons, List.length_append] at h
      rw [List.flatMap_cons, List.map_append, List.append_assoc, characters?_escaped, ih (by omega)]
      rfl

theorem mapM_some (cs : List Char) : (cs.map some).mapM id = some cs := by
  induction cs with
  | nil => rfl
  | cons c cs ih => simp [ih]

/-- A text is read up to its closing quote. -/
theorem text?_quoted (s : String) (rest : List Glyph) :
    Parser.text? (((s.toList.flatMap escaped).map some ++ some '"' :: rest).length + 1)
      ((s.toList.flatMap escaped).map some ++ some '"' :: rest) = some (some s, rest) := by
  have enough : (s.toList.flatMap escaped).length <
      ((s.toList.flatMap escaped).map some ++ some '"' :: rest).length + 1 := by
    simp
  rw [Parser.text?, characters?_text _ enough]
  simp only [Option.bind_eq_bind, Option.bind_some, mapM_some, Option.map_some, String.ofList_toList,
    Option.pure_def]

/-! ## Numbers -/

/-- What may follow a value: a separator, a closing sign or nothing. -/
def Ends (rest : List Glyph) : Prop :=
  ∀ g, rest.head? = some g → g = some ',' ∨ g = some ']' ∨ g = some '}'

theorem digits_append {ds : List Char} (h : ∀ c ∈ ds, c.isDigit) {rest : List Glyph}
    (stop : ∀ c, rest.head? = some (some c) → c.isDigit = false) :
    digits (ds.map some ++ rest) = (ds, rest) := by
  induction ds with
  | nil =>
    cases rest with
    | nil => rfl
    | cons g rest =>
      cases g with
      | none => rfl
      | some c => simp [digits, isDigit_eq, stop c rfl]
  | cons c ds ih =>
    obtain ⟨first, others⟩ := List.forall_mem_cons.mp h
    simp [digits, isDigit_eq, first, ih others]

theorem whole?_repr (n : Nat) {rest : List Glyph}
    (stop : ∀ c, rest.head? = some (some c) → c.isDigit = false) :
    whole? ((Nat.repr n).toList.map some ++ rest) = some ((Nat.repr n).toList, rest) := by
  have spells := spells_repr n
  rw [whole?, digits_append spells.digits stop]
  split
  · next empty => exact absurd (Prod.mk.inj empty).1 spells.some_digit
  · next zero =>
    have alone := repr_eq_cons_zero (Prod.mk.inj zero).1
    cases alone
  · rfl

theorem Ends.stops {rest : List Glyph} (h : Ends rest) {c : Char} (head : rest.head? = some (some c)) :
    c.isDigit = false ∧ c ≠ '.' ∧ c ≠ 'e' ∧ c ≠ 'E' := by
  have sign := h _ head
  simp only [Option.some.injEq] at sign
  rcases sign with rfl | rfl | rfl <;> decide

theorem part?_ends {rest : List Glyph} (h : Ends rest) : part? rest = some (none, rest) := by
  unfold part?
  split
  · next rest => exact absurd rfl (h.stops (c := '.') rfl).2.1
  · rfl

theorem exponent?_ends {rest : List Glyph} (h : Ends rest) : exponent? rest = some (none, rest) := by
  unfold exponent?
  split
  · next c rest =>
    obtain ⟨_, _, small, large⟩ := h.stops (c := c) rfl
    simp [small, large]
  · rfl

/-- The parts of an integer's text. -/
def Numeral.ofInt (n : Int) : Numeral := ⟨n < 0, (Nat.repr n.natAbs).toList, none, none⟩

theorem numeral?_repr (negative : Bool) (n : Nat) {rest : List Glyph} (h : Ends rest) :
    numeral? negative ((Nat.repr n).toList.map some ++ rest) =
      some (⟨negative, (Nat.repr n).toList, none, none⟩, rest) := by
  rw [numeral?, whole?_repr n fun c head => (h.stops head).1]
  simp [part?_ends h, exponent?_ends h]

theorem toList_toString (n : Int) :
    (toString n).toList = if n < 0 then '-' :: (Nat.repr n.natAbs).toList
      else (Nat.repr n.natAbs).toList := by
  cases n with
  | ofNat n => rfl
  | negSucc n => simp [toString, Int.repr]

/-! ## Sources -/

mutual
/-- What the text of a value spells. Of the doubles only the zeros are considered. -/
def source : Json → Source
  | .null => .null
  | .bool b => .bool b
  | .int n => .num (.ofInt n)
  | .float bits => .num ⟨Binary.double.isNegative bits.toNat, ['0'], some ['0'], none⟩
  | .str s => .str (some s)
  | .arr items => .arr (itemSources items)
  | .obj members => .obj (memberSources members)

def itemSources : List Json → List Source
  | [] => []
  | x :: rest => x.source :: itemSources rest

def memberSources : List (String × Json) → List (Option String × Source)
  | [] => []
  | (name, x) :: rest => (some name, x.source) :: memberSources rest
end

mutual
/-- The numbers in a value are integers of 64 bits, or zeros. -/
def IsWhole : Json → Prop
  | .int n => -2 ^ 63 ≤ n ∧ n < 2 ^ 64
  | .float bits => Binary.double.isZero bits.toNat
  | .arr items => areWhole items
  | .obj members => membersAreWhole members
  | _ => True

def areWhole : List Json → Prop
  | [] => True
  | x :: rest => x.IsWhole ∧ areWhole rest

def membersAreWhole : List (String × Json) → Prop
  | [] => True
  | (_, x) :: rest => x.IsWhole ∧ membersAreWhole rest
end

mutual
def decideIsWhole : (j : Json) → Decidable j.IsWhole
  | .null => isTrue trivial
  | .bool _ => isTrue trivial
  | .int n => inferInstanceAs (Decidable (-2 ^ 63 ≤ n ∧ n < 2 ^ 64))
  | .float bits => inferInstanceAs (Decidable (Binary.double.isZero bits.toNat = true))
  | .str _ => isTrue trivial
  | .arr items => decideAreWhole items
  | .obj members => decideMembersAreWhole members

def decideAreWhole : (items : List Json) → Decidable (areWhole items)
  | [] => isTrue trivial
  | x :: rest => @instDecidableAnd _ _ x.decideIsWhole (decideAreWhole rest)

def decideMembersAreWhole : (members : List (String × Json)) → Decidable (membersAreWhole members)
  | [] => isTrue trivial
  | (_, x) :: rest => @instDecidableAnd _ _ x.decideIsWhole (decideMembersAreWhole rest)
end

instance : DecidablePred IsWhole := decideIsWhole

theorem membersAreWhole_iff {ms : List (String × Json)} : membersAreWhole ms ↔ ∀ e ∈ ms, e.2.IsWhole := by
  induction ms with
  | nil => simp [membersAreWhole]
  | cons e ms ih =>
    obtain ⟨name, x⟩ := e
    simp only [membersAreWhole, ih, List.forall_mem_cons]

theorem isWhole_object {ms : List (String × Json)} (h : ∀ e ∈ ms, e.2.IsWhole) : (object ms).IsWhole :=
  membersAreWhole_iff.mpr fun e he => h e (ofMembers_subset ms he)

/-- The zeros among the doubles. -/
theorem zero_cases {bits : UInt64} (h : Binary.double.isZero bits.toNat) :
    bits = 0 ∨ bits = 0x8000000000000000 := by
  have rest : bits.toNat % 0x8000000000000000 = 0 := by
    simpa [Binary.Format.isZero, Binary.Format.magnitude, Binary.double] using h
  have limit := bits.toNat_lt
  simp only [← UInt64.toNat_inj]
  simp
  omega

/-! ## Values -/

theorem value?_digit {c : Char} (digit : c.isDigit) (fuel : Nat) (rest : List Glyph) :
    value? (fuel + 1) (some c :: rest) =
      (numeral? false (some c :: rest)).bind fun (x, after) => some (.num x, after) := by
  have other : ∀ d : Char, d.isDigit = false → c ≠ d := by
    rintro d none rfl
    simp [none] at digit
  have blank : isBlank (some c) = false := by simp [isBlank, other]
  rw [value?, skipBlank_cons blank]
  split
  all_goals first
    | rfl
    | next same =>
      obtain ⟨same, _⟩ := List.cons.inj same
      exact absurd (Option.some.inj same) (other _ rfl)

theorem value?_minus (fuel : Nat) (rest : List Glyph) :
    value? (fuel + 1) (some '-' :: rest) =
      (numeral? true rest).bind fun (x, after) => some (.num x, after) := rfl

theorem value?_int (n : Int) (fuel : Nat) {rest : List Glyph} (h : Ends rest) :
    value? (fuel + 1) ((toString n).toList.map some ++ rest) = some (.num (.ofInt n), rest) := by
  rw [toList_toString]
  by_cases negative : n < 0
  · rw [if_pos negative, List.map_cons, List.cons_append, value?_minus, numeral?_repr true _ h]
    simp [Numeral.ofInt, negative]
  · rw [if_neg negative]
    have spells := spells_repr n.natAbs
    have read := numeral?_repr false n.natAbs h
    cases digits : (Nat.repr n.natAbs).toList with
    | nil => exact absurd digits spells.some_digit
    | cons c ds =>
      have first : c.isDigit := spells.digits c (by simp [digits])
      rw [digits] at read
      rw [List.map_cons, List.cons_append, value?_digit first, ← List.cons_append, ← List.map_cons, read]
      simp [Numeral.ofInt, negative, digits]

theorem value?_zero {bits : UInt64} (zero : Binary.double.isZero bits.toNat) (fuel : Nat)
    {rest : List Glyph} (h : Ends rest) :
    value? (fuel + 1) ((floatText bits.toNat).toList.map some ++ rest) =
      some ((Json.float bits).source, rest) := by
  have stop : ∀ c, rest.head? = some (some c) → c.isDigit = false := fun c head => (h.stops head).1
  have zero_digit : ∀ c ∈ ['0'], c.isDigit := by
    intro c hc
    rw [List.mem_singleton.mp hc]
    rfl
  have fraction : digits (some '0' :: rest) = (['0'], rest) := digits_append zero_digit stop
  have whole : whole? (some '0' :: some '.' :: some '0' :: rest) =
      some (['0'], some '.' :: some '0' :: rest) := rfl
  have read : ∀ negative, numeral? negative (some '0' :: some '.' :: some '0' :: rest) =
      some (⟨negative, ['0'], some ['0'], none⟩, rest) := by
    intro negative
    simp [numeral?, whole, part?, fraction, exponent?_ends h]
  cases zero_cases zero with
  | inl same =>
    subst same
    have text : (floatText (0 : UInt64).toNat).toList = ['0', '.', '0'] := by decide +kernel
    rw [text]
    change value? (fuel + 1) (some '0' :: some '.' :: some '0' :: rest) = _
    rw [value?_digit rfl, read]
    rfl
  | inr same =>
    subst same
    have text : (floatText (0x8000000000000000 : UInt64).toNat).toList = ['-', '0', '.', '0'] := by
      decide +kernel
    rw [text]
    change value? (fuel + 1) (some '-' :: some '0' :: some '.' :: some '0' :: rest) = _
    rw [value?_minus, read]
    rfl

/-- A sign that a value can begin with: no blank and no closing bracket. -/
def Starts (c : Char) : Prop := isBlank (some c) = false ∧ c ≠ ']'

instance (c : Char) : Decidable (Starts c) := inferInstanceAs (Decidable (_ ∧ _))

theorem starts_of_isDigit {c : Char} (digit : c.isDigit) : Starts c := by
  have other : ∀ d : Char, d.isDigit = false → c ≠ d := by
    rintro d none rfl
    simp [none] at digit
  simp [Starts, isBlank, other]

theorem symbols_starts {j : Json} (whole : j.IsWhole) : ∃ c rest, j.symbols = c :: rest ∧ Starts c := by
  cases j with
  | null => exact ⟨_, _, rfl, by decide⟩
  | bool b => cases b <;> exact ⟨_, _, rfl, by decide⟩
  | int n =>
    have text : symbols (.int n) = _ := toList_toString n
    by_cases negative : n < 0
    · rw [text, if_pos negative]
      exact ⟨_, _, rfl, by decide⟩
    · rw [text, if_neg negative]
      have spells := spells_repr n.natAbs
      cases digits : (Nat.repr n.natAbs).toList with
      | nil => exact absurd digits spells.some_digit
      | cons c ds => exact ⟨c, ds, rfl, starts_of_isDigit (spells.digits c (by simp [digits]))⟩
  | float bits =>
    cases zero_cases whole with
    | inl same =>
      subst same
      exact ⟨'0', ['.', '0'], by decide +kernel, by decide⟩
    | inr same =>
      subst same
      exact ⟨'-', ['0', '.', '0'], by decide +kernel, by decide⟩
  | str s => exact ⟨_, _, rfl, by decide⟩
  | arr items => exact ⟨_, _, rfl, by decide⟩
  | obj members => exact ⟨_, _, rfl, by decide⟩

theorem itemSymbols_starts {x : Json} (whole : x.IsWhole) (items : List Json) :
    ∃ c rest, itemSymbols (x :: items) = c :: rest ∧ Starts c := by
  obtain ⟨c, rest, symbols, starts⟩ := symbols_starts whole
  cases items with
  | nil => exact ⟨c, rest, symbols, starts⟩
  | cons y items => exact ⟨c, _, by rw [itemSymbols, symbols, List.cons_append]; simp, starts⟩

theorem memberSymbols_quoted (name : String) (x : Json) (members : List (String × Json)) :
    ∃ rest, memberSymbols ((name, x) :: members) = '"' :: rest := by
  cases members with
  | nil => exact ⟨_, rfl⟩
  | cons e members =>
    exact ⟨name.toList.flatMap escaped ++ '"' :: ':' :: (x.symbols ++ ',' :: memberSymbols (e :: members)),
      by simp [memberSymbols, quoted]⟩

/-- Before the closing sign of a list and before a separator a value ends. -/
theorem ends_cons {c : Char} (h : c = ',' ∨ c = ']' ∨ c = '\x7d') (rest : List Glyph) :
    Ends (some c :: rest) := by
  intro g head
  obtain rfl : some c = g := Option.some.inj head
  simpa using h

theorem value?_quote (fuel : Nat) (s : String) (rest : List Glyph) :
    value? (fuel + 1) ((quoted s).map some ++ rest) = some (.str (some s), rest) := by
  have parts : (quoted s).map some ++ rest =
      some '"' :: ((s.toList.flatMap escaped).map some ++ some '"' :: rest) := by
    simp [quoted]
  rw [parts]
  change (Parser.text? _ _).bind _ = _
  rw [text?_quoted]
  rfl

theorem value?_bracket {c : Char} (starts : Starts c) (fuel : Nat) (rest : List Glyph) :
    value? (fuel + 1) (some '[' :: some c :: rest) =
      (items? fuel (some c :: rest)).bind fun x => some (.arr x.1, x.2) := by
  have here : skipBlank (some '[' :: some c :: rest) = some '[' :: some c :: rest := rfl
  have other : c ≠ ']' := starts.2
  simp [value?, here, skipBlank_cons starts.1, other]

theorem value?_brace (fuel : Nat) (rest : List Glyph) :
    value? (fuel + 1) (some '\x7b' :: some '"' :: rest) =
      (members? fuel (some '"' :: rest)).bind fun x => some (.obj x.1, x.2) := rfl

theorem items?_step (fuel : Nat) (input : List Glyph) :
    items? (fuel + 1) input = (value? fuel input).bind fun x => match skipBlank x.2 with
      | some ']' :: rest => some ([x.1], rest)
      | some ',' :: rest => (items? fuel rest).bind fun xs => some (x.1 :: xs.1, xs.2)
      | _ => none := rfl

/-- A member's name, then its value. -/
theorem members?_step (fuel : Nat) (name : String) (input : List Glyph) :
    members? (fuel + 1) ((quoted name).map some ++ some ':' :: input) =
      (value? fuel input).bind fun x => match skipBlank x.2 with
        | some '\x7d' :: rest => some ([(some name, x.1)], rest)
        | some ',' :: rest => (members? fuel rest).bind fun ms => some ((some name, x.1) :: ms.1, ms.2)
        | _ => none := by
  have parts : (quoted name).map some ++ some ':' :: input =
      some '"' :: ((name.toList.flatMap escaped).map some ++ some '"' :: some ':' :: input) := by
    simp [quoted]
  rw [parts]
  change (Parser.text? _ _).bind _ = _
  rw [text?_quoted]
  rfl

mutual
/-- The reader takes the text of a value, whatever follows. -/
theorem value?_symbols : ∀ (j : Json) {fuel : Nat} {rest : List Glyph}, j.IsWhole →
    j.symbols.length ≤ fuel → Ends rest →
    value? fuel (j.symbols.map some ++ rest) = some (j.source, rest)
  | j, 0, rest, whole, short, _ => by
    obtain ⟨c, cs, symbols, _⟩ := symbols_starts whole
    simp [symbols] at short
  | .null, fuel + 1, rest, _, _, _ => rfl
  | .bool true, fuel + 1, rest, _, _, _ => rfl
  | .bool false, fuel + 1, rest, _, _, _ => rfl
  | .int n, fuel + 1, rest, _, _, ends => value?_int n fuel ends
  | .float bits, fuel + 1, rest, zero, _, ends => value?_zero zero fuel ends
  | .str s, fuel + 1, rest, _, _, _ => value?_quote fuel s rest
  | .arr [], fuel + 1, rest, _, _, _ => rfl
  | .arr (x :: items), fuel + 1, rest, whole, short, _ => by
    obtain ⟨c, cs, symbols, starts⟩ := itemSymbols_starts whole.1 items
    have shorter : (itemSymbols (x :: items)).length < fuel := by
      simp [Json.symbols] at short
      omega
    have inner : items? fuel ((itemSymbols (x :: items)).map some ++ some ']' :: rest) = _ :=
      items?_symbols x items whole shorter
    have parts : (Json.arr (x :: items)).symbols.map some ++ rest =
        some '[' :: ((itemSymbols (x :: items)).map some ++ some ']' :: rest) := by
      simp [Json.symbols]
    rw [symbols, List.map_cons, List.cons_append] at inner
    rw [parts, symbols, List.map_cons, List.cons_append, value?_bracket starts, inner]
    rfl
  | .obj [], fuel + 1, rest, _, _, _ => rfl
  | .obj ((name, x) :: members), fuel + 1, rest, whole, short, _ => by
    have shorter : (memberSymbols ((name, x) :: members)).length < fuel := by
      simp [Json.symbols] at short
      omega
    have inner : members? fuel ((memberSymbols ((name, x) :: members)).map some ++
        some '\x7d' :: rest) = _ := members?_symbols name x members whole shorter
    have parts : (Json.obj ((name, x) :: members)).symbols.map some ++ rest =
        some '\x7b' :: ((memberSymbols ((name, x) :: members)).map some ++ some '\x7d' :: rest) := by
      simp [Json.symbols]
    obtain ⟨cs, quoted⟩ := memberSymbols_quoted name x members
    rw [quoted, List.map_cons, List.cons_append] at inner
    rw [parts, quoted, List.map_cons, List.cons_append, value?_brace, inner]
    rfl

theorem items?_symbols : ∀ (x : Json) (items : List Json) {fuel : Nat} {rest : List Glyph},
    areWhole (x :: items) → (itemSymbols (x :: items)).length < fuel →
    items? fuel ((itemSymbols (x :: items)).map some ++ some ']' :: rest) =
      some (itemSources (x :: items), rest)
  | x, [], fuel + 1, rest, whole, short => by
    have first := value?_symbols x whole.1 (Nat.le_of_lt_succ short) (ends_cons (.inr (.inl rfl)) rest)
    rw [items?_step, itemSymbols, first]
    rfl
  | x, y :: items, fuel + 1, rest, whole, short => by
    have length : x.symbols.length + ((itemSymbols (y :: items)).length + 1) < fuel + 1 := by
      simpa [itemSymbols] using short
    have parts : (itemSymbols (x :: y :: items)).map some ++ some ']' :: rest =
        x.symbols.map some ++ some ',' :: ((itemSymbols (y :: items)).map some ++ some ']' :: rest) := by
      simp [itemSymbols]
    have enough : x.symbols.length ≤ fuel := by omega
    have first := value?_symbols x whole.1 enough (ends_cons (.inl rfl)
      ((itemSymbols (y :: items)).map some ++ some ']' :: rest))
    have others : items? fuel ((itemSymbols (y :: items)).map some ++ some ']' :: rest) = _ :=
      items?_symbols y items whole.2 (by omega)
    rw [items?_step, parts, first]
    simp [skipBlank_cons (c := ',') rfl, others, itemSources]

theorem members?_symbols : ∀ (name : String) (x : Json) (members : List (String × Json)) {fuel : Nat}
    {rest : List Glyph},
    membersAreWhole ((name, x) :: members) → (memberSymbols ((name, x) :: members)).length < fuel →
    members? fuel ((memberSymbols ((name, x) :: members)).map some ++ some '\x7d' :: rest) =
      some (memberSources ((name, x) :: members), rest)
  | name, x, [], fuel + 1, rest, whole, short => by
    have length : x.symbols.length ≤ fuel := by
      simp [memberSymbols] at short
      omega
    have parts : (memberSymbols [(name, x)]).map some ++ some '\x7d' :: rest =
        (quoted name).map some ++ some ':' :: (x.symbols.map some ++ some '\x7d' :: rest) := by
      simp [memberSymbols]
    have value := value?_symbols x whole.1 length (ends_cons (.inr (.inr rfl)) rest)
    rw [parts, members?_step, value]
    rfl
  | name, x, (name', y) :: members, fuel + 1, rest, whole, short => by
    have length : x.symbols.length + (memberSymbols ((name', y) :: members)).length < fuel := by
      simp [memberSymbols] at short
      omega
    have parts : (memberSymbols ((name, x) :: (name', y) :: members)).map some ++ some '\x7d' :: rest =
        (quoted name).map some ++ some ':' :: (x.symbols.map some ++ some ',' ::
          ((memberSymbols ((name', y) :: members)).map some ++ some '\x7d' :: rest)) := by
      simp [memberSymbols]
    have enough : x.symbols.length ≤ fuel := by omega
    have value := value?_symbols x whole.1 enough (ends_cons (.inl rfl)
      ((memberSymbols ((name', y) :: members)).map some ++ some '\x7d' :: rest))
    have others : members? fuel ((memberSymbols ((name', y) :: members)).map some ++
        some '\x7d' :: rest) = _ := members?_symbols name' y members whole.2 (by omega)
    rw [parts, members?_step, value]
    simp [skipBlank_cons (c := ',') rfl, others, memberSources]
end

/-- The text of a value is read as the source that it spells. -/
theorem parse?_print {j : Json} (whole : j.IsWhole) : Source.parse? j.print = some j.source := by
  have read : value? (2 * (j.symbols.map some).length + 1) (j.symbols.map some ++ []) =
      some (j.source, []) :=
    value?_symbols j whole (by simp; omega) (by simp [Ends])
  rw [List.append_nil] at read
  rw [Source.parse?, print, String.toList_ofList, Source.ofGlyphs?, read]
  rfl

/-! ## Meaning -/

mutual
/-- Arrays and objects are nested at most `room` deep, and the members of objects are sorted. -/
def Fits (room : Nat) : Json → Prop
  | .arr items => 0 < room ∧ itemsFit (room - 1) items
  | .obj members => 0 < room ∧ IsSorted members ∧ membersFit (room - 1) members
  | _ => True

def itemsFit (room : Nat) : List Json → Prop
  | [] => True
  | x :: rest => x.Fits room ∧ itemsFit room rest

def membersFit (room : Nat) : List (String × Json) → Prop
  | [] => True
  | (_, x) :: rest => x.Fits room ∧ membersFit room rest
end

theorem membersFit_iff {room : Nat} {ms : List (String × Json)} :
    membersFit room ms ↔ ∀ e ∈ ms, e.2.Fits room := by
  induction ms with
  | nil => simp [membersFit]
  | cons e ms ih =>
    obtain ⟨name, x⟩ := e
    simp only [membersFit, ih, List.forall_mem_cons]

theorem fits_object {room : Nat} {ms : List (String × Json)} (positive : 0 < room)
    (h : membersFit (room - 1) ms) : (object ms).Fits room := by
  have inside : membersFit (room - 1) (ofMembers ms) :=
    membersFit_iff.mpr fun e he => membersFit_iff.mp h e (ofMembers_subset ms he)
  exact ⟨positive, isSorted_ofMembers ms, inside⟩

theorem fits_of_value? {x : Numeral} {j : Json} (h : x.value? = some j) (room : Nat) : j.Fits room := by
  unfold Numeral.value? at h
  simp only at h
  split at h
  · cases h
    trivial
  · split at h
    · cases h
      trivial
    · obtain ⟨bits, _, rfl⟩ := Option.map_eq_some_iff.mp h
      trivial

mutual
/-- A value that was read is nested no deeper than there was room. -/
theorem fits_of_toJson? : ∀ {x : Source} {room : Nat} {j : Json}, x.toJson? room = some j → j.Fits room
  | .null, room, j, h => by
    cases h
    trivial
  | .bool b, room, j, h => by
    cases h
    trivial
  | .num x, room, j, h => fits_of_value? h room
  | .str s, room, j, h => by
    obtain ⟨t, _, rfl⟩ := Option.map_eq_some_iff.mp h
    trivial
  | .arr items, room, j, h => by
    rw [Source.toJson?] at h
    split at h
    · cases h
    · next positive =>
      obtain ⟨js, read, rfl⟩ := Option.map_eq_some_iff.mp h
      exact ⟨Nat.pos_of_ne_zero positive, itemsFit_of_toJson? read⟩
  | .obj members, room, j, h => by
    rw [Source.toJson?] at h
    split at h
    · cases h
    · next positive =>
      obtain ⟨ms, read, rfl⟩ := Option.map_eq_some_iff.mp h
      exact fits_object (Nat.pos_of_ne_zero positive) (membersFit_of_toJson? read)

theorem itemsFit_of_toJson? : ∀ {items : List Source} {room : Nat} {js : List Json},
    Source.itemsToJson? room items = some js → itemsFit room js
  | [], room, js, h => by
    cases h
    trivial
  | x :: items, room, js, h => by
    simp [Source.itemsToJson?, Option.bind_eq_some_iff] at h
    obtain ⟨j, first, rest, others, rfl⟩ := h
    exact ⟨fits_of_toJson? first, itemsFit_of_toJson? others⟩

theorem membersFit_of_toJson? : ∀ {members : List (Option String × Source)} {room : Nat}
    {ms : List (String × Json)}, Source.membersToJson? room members = some ms → membersFit room ms
  | [], room, ms, h => by
    cases h
    trivial
  | (name, x) :: members, room, ms, h => by
    simp [Source.membersToJson?, Option.bind_eq_some_iff] at h
    obtain ⟨k, _, j, first, rest, others, rfl⟩ := h
    exact ⟨fits_of_toJson? first, membersFit_of_toJson? others⟩
end

/-- The parts of an integer's text stand for it. -/
theorem value?_ofInt {n : Int} (range : -2 ^ 63 ≤ n ∧ n < 2 ^ 64) :
    (Numeral.ofInt n).value? = some (.int n) := by
  have spells := spells_repr n.natAbs
  have value : Patchwork.Numeral.accumulate 0 (Nat.repr n.natAbs).toList = n.natAbs := by
    rw [accumulate_eq spells.digits, spells.value]
  have limit : Numeral.wordLimit = 2 ^ 64 := rfl
  by_cases negative : n < 0
  · have small : 0 < n.natAbs ∧ n.natAbs ≤ Numeral.wordLimit / 2 := by omega
    simp only [Numeral.value?, Numeral.ofInt, value]
    simp [negative, small, abs_of_neg negative]
  · have small : n.natAbs < Numeral.wordLimit := by omega
    simp only [Numeral.value?, Numeral.ofInt, value]
    simp [negative, small, abs_of_nonneg (not_lt.mp negative)]

theorem value?_ofZero {bits : UInt64} (zero : Binary.double.isZero bits.toNat) :
    Numeral.value? ⟨Binary.double.isNegative bits.toNat, ['0'], some ['0'], none⟩ =
      some (.float bits) := by
  cases zero_cases zero with
  | inl same =>
    subst same
    decide +kernel
  | inr same =>
    subst same
    decide +kernel

mutual
/-- The source that the text of a value spells has this value. -/
theorem toJson?_source : ∀ {j : Json} {room : Nat}, j.Fits room → j.IsWhole →
    j.source.toJson? room = some j
  | .null, _, _, _ => rfl
  | .bool b, _, _, _ => rfl
  | .int n, _, _, range => value?_ofInt range
  | .float bits, _, _, zero => value?_ofZero zero
  | .str s, _, _, _ => rfl
  | .arr items, room, fits, whole => by
    obtain ⟨positive, inside⟩ := fits
    rw [source, Source.toJson?, if_neg positive.ne', itemsToJson?_sources inside whole]
    rfl
  | .obj members, room, fits, whole => by
    obtain ⟨positive, sorted, inside⟩ := fits
    rw [source, Source.toJson?, if_neg positive.ne', membersToJson?_sources inside whole, Option.map_some,
      object_eq, ofMembers_of_isSorted sorted]

theorem itemsToJson?_sources : ∀ {items : List Json} {room : Nat}, itemsFit room items →
    areWhole items → Source.itemsToJson? room (itemSources items) = some items
  | [], _, _, _ => rfl
  | x :: items, room, fits, whole => by
    simp [itemSources, Source.itemsToJson?, toJson?_source fits.1 whole.1,
      itemsToJson?_sources fits.2 whole.2]

theorem membersToJson?_sources : ∀ {members : List (String × Json)} {room : Nat},
    membersFit room members → membersAreWhole members →
    Source.membersToJson? room (memberSources members) = some members
  | [], _, _, _ => rfl
  | (name, x) :: members, room, fits, whole => by
    simp [memberSources, Source.membersToJson?, toJson?_source fits.1 whole.1,
      membersToJson?_sources fits.2 whole.2]
end

end Patchwork.Json
