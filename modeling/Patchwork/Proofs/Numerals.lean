import Mathlib
import Patchwork.Text.Numeral

/-!
# Decimal numerals

What the readers of numerals accept: a text of digits that is not empty, by the number it stands for.
The text of a number reads back as that number, and its length tells how large the number is.
-/

namespace Patchwork.Numeral

theorem isDigit_eq (c : Char) : isDigit c = c.isDigit := by
  have digit : isDigit c = true ↔ c.isDigit = true := by
    simp [isDigit, digit?, Char.isDigit, Char.le_def]
  exact Bool.eq_iff_iff.mpr digit

theorem getD_digit? {c : Char} (h : c.isDigit) : (digit? c).getD 0 = c.toNat - '0'.toNat := by
  have range : '0' ≤ c ∧ c ≤ '9' := by simpa [Char.isDigit, Char.le_def] using h
  simp [digit?, range]

theorem accumulate_eq {digits : List Char} (h : ∀ c ∈ digits, c.isDigit) (n : Nat) :
    accumulate n digits = Nat.ofDigitChars 10 digits n := by
  induction digits generalizing n with
  | nil => rfl
  | cons c rest ih =>
    obtain ⟨first, others⟩ := List.forall_mem_cons.mp h
    rw [Nat.ofDigitChars_cons, ← ih others, ← getD_digit? first, Nat.mul_comm 10]
    rfl

theorem getD_digit?_le (c : Char) : (digit? c).getD 0 ≤ 9 := by
  by_cases range : '0' ≤ c ∧ c ≤ '9'
  · have upper : c.toNat ≤ '9'.toNat := range.2
    have nine : '9'.toNat = 57 := rfl
    have zero : '0'.toNat = 48 := rfl
    rw [digit?, if_pos range, Option.getD_some]
    omega
  · simp [digit?, range]

theorem accumulate_lt (n : Nat) (digits : List Char) :
    accumulate n digits < (n + 1) * 10 ^ digits.length := by
  induction digits generalizing n with
  | nil => simp [accumulate]
  | cons c rest ih =>
    have step : accumulate n (c :: rest) = accumulate (n * 10 + (digit? c).getD 0) rest := rfl
    have digit := getD_digit?_le c
    calc accumulate n (c :: rest)
        < (n * 10 + (digit? c).getD 0 + 1) * 10 ^ rest.length := step ▸ ih _
      _ ≤ (n + 1) * 10 * 10 ^ rest.length := Nat.mul_le_mul_right _ (by omega)
      _ = (n + 1) * 10 ^ (c :: rest).length := by
        rw [List.length_cons, Nat.pow_succ, Nat.mul_assoc, Nat.mul_comm 10]

/-- Digits that stand for a number. -/
structure Spells (text : List Char) (n : Nat) : Prop where
  some_digit : text ≠ []
  digits : ∀ c ∈ text, c.isDigit
  value : Nat.ofDigitChars 10 text 0 = n

theorem Spells.lt {text : List Char} {n : Nat} (h : Spells text n) : n < 10 ^ text.length := by
  have bound := accumulate_lt 0 text
  rw [accumulate_eq h.digits, h.value] at bound
  simpa using bound

theorem natural?_eq_some_iff {text : List Char} {n : Nat} : natural? text = some n ↔ Spells text n := by
  have all : text.all isDigit = true ↔ ∀ c ∈ text, c.isDigit := by
    simp only [List.all_eq_true, isDigit_eq]
  unfold natural?
  by_cases h : text ≠ [] ∧ text.all isDigit
  · have digits := all.mp h.2
    rw [if_pos h, Option.some.injEq, accumulate_eq digits]
    exact ⟨fun value => ⟨h.1, digits, value⟩, Spells.value⟩
  · rw [if_neg h]
    have none : ¬Spells text n := fun spells => h ⟨spells.some_digit, all.mpr spells.digits⟩
    simp [none]

/-- The text of a number stands for it. -/
theorem spells_repr (n : Nat) : Spells (Nat.repr n).toList n := by
  rw [Nat.repr_eq_ofList_toDigits, String.toList_ofList]
  constructor
  · exact Nat.toDigits_ne_nil
  · intro c hc
    exact Nat.isDigit_of_mem_toDigits (by decide) (by decide) hc
  · exact Nat.ofDigitChars_ten_toDigits

theorem length_repr_le_iff {n k : Nat} (hk : 0 < k) : (Nat.repr n).toList.length ≤ k ↔ n < 10 ^ k := by
  rw [Nat.repr_eq_ofList_toDigits, String.toList_ofList]
  exact Nat.length_toDigits_le_iff (by decide) hk

/-- It begins with a zero only if the number is zero. -/
theorem repr_eq_cons_zero {n : Nat} {rest : List Char} (h : (Nat.repr n).toList = '0' :: rest) :
    rest = [] := by
  by_contra longer
  have spells : Spells ('0' :: rest) n := h ▸ spells_repr n
  have digits : ∀ c ∈ rest, c.isDigit := fun c hc => spells.digits c (List.mem_cons_of_mem _ hc)
  have value : Nat.ofDigitChars 10 rest 0 = n := by
    simpa [Nat.ofDigitChars_cons] using spells.value
  have short : n < 10 ^ rest.length := Spells.lt ⟨longer, digits, value⟩
  have length := (length_repr_le_iff (List.length_pos_iff.mpr longer)).mpr short
  simp [h] at length

/-! ## Signs -/

/-- Digits, or a plus sign and digits, that stand for a number. -/
def Counts (text : List Char) (n : Nat) : Prop :=
  Spells text n ∨ ∃ digits, text = '+' :: digits ∧ Spells digits n

theorem Counts.ne_nil {text : List Char} {n : Nat} (h : Counts text n) : text ≠ [] := by
  cases h with
  | inl spells => exact spells.some_digit
  | inr signed =>
    obtain ⟨digits, rfl, _⟩ := signed
    simp

theorem Spells.head_ne_plus {text : List Char} {n : Nat} (h : Spells text n) :
    text.head? ≠ some '+' := by
  intro plus
  have digit := h.digits '+' (List.mem_of_mem_head? plus)
  revert digit
  decide

theorem unsigned?_eq_some_iff {text : List Char} {n : Nat} :
    unsigned? text = some n ↔ Counts text n := by
  by_cases plus : ∃ digits, text = '+' :: digits
  · obtain ⟨digits, rfl⟩ := plus
    have signed : ¬Spells ('+' :: digits) n := fun h => h.head_ne_plus rfl
    simp [unsigned?, Counts, signed, natural?_eq_some_iff]
  · have unsigned : unsigned? text = natural? text := by
      unfold unsigned?
      split
      · next rest => exact absurd ⟨rest, rfl⟩ plus
      · rfl
    rw [unsigned, natural?_eq_some_iff]
    refine ⟨.inl, fun h => h.resolve_right ?_⟩
    rintro ⟨digits, rfl, _⟩
    exact plus ⟨digits, rfl⟩

theorem Counts.lt {text : List Char} {n : Nat} (h : Counts text n) : n < 10 ^ text.length := by
  cases h with
  | inl spells => exact spells.lt
  | inr signed =>
    obtain ⟨digits, rfl, spells⟩ := signed
    calc n < 10 ^ digits.length := spells.lt
      _ ≤ 10 ^ ('+' :: digits).length := Nat.pow_le_pow_right (by decide) (by simp)

end Patchwork.Numeral
