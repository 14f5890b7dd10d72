import Mathlib
import Patchwork.Proofs.Forwarding
import Patchwork.Proofs.Numerals
import Patchwork.Proofs.Written

/-!
# The texts of timeouts

Which headers ask for a timeout, and for which. The first value of a name counts, without the blanks
around it. A plain count of milliseconds fits 64 bits; a count with a unit has eight characters at
most. A count may have a plus sign, which is one of its characters. Everything else is passed over.
-/

namespace Patchwork.Timeout
open Numeral

/-! ## Blanks -/

def IsBlank (c : Char) : Prop := c = ' ' ∨ c = '\t'

theorem isSpace_iff (c : Char) : isSpace c = true ↔ IsBlank c := by
  simp [isSpace, IsBlank]

/-- A text that neither begins nor ends with a blank. -/
def IsBare (text : List Char) : Prop :=
  ∀ c, text.head? = some c ∨ text.getLast? = some c → isSpace c = false

theorem head?_dropWhile_isSpace {text : List Char} {c : Char}
    (h : (text.dropWhile isSpace).head? = some c) : isSpace c = false := by
  have first := List.head?_dropWhile_not isSpace text
  rw [h] at first
  simpa using first

theorem dropWhile_blanks {before text : List Char} (blank : ∀ c ∈ before, isSpace c)
    (bare : ∀ c, text.head? = some c → isSpace c = false) :
    (before ++ text).dropWhile isSpace = text := by
  rw [List.dropWhile_append_of_pos blank]
  cases text with
  | nil => rfl
  | cons c rest => exact List.dropWhile_cons_of_neg (by simp [bare c rfl])

theorem trim_of_blanks {before text after : List Char} (blank : ∀ c ∈ before ++ after, isSpace c)
    (bare : IsBare text) : trim (before ++ text ++ after) = text := by
  obtain ⟨left, right⟩ := List.forall_mem_append.mp blank
  have blanks : ∀ c ∈ after.reverse, isSpace c := by simpa using right
  cases text with
  | nil =>
    have all : (before ++ [] ++ after).dropWhile isSpace = [] := by
      rw [List.dropWhile_eq_nil_iff]
      simpa using blank
    rw [trim, all]
    rfl
  | cons c rest =>
    have first : (before ++ (c :: rest ++ after)).dropWhile isSpace = c :: rest ++ after :=
      dropWhile_blanks left fun d hd => bare d (.inl (by simpa using hd))
    have last : (after.reverse ++ (c :: rest).reverse).dropWhile isSpace = (c :: rest).reverse := by
      apply dropWhile_blanks blanks
      intro d hd
      rw [List.head?_reverse] at hd
      exact bare d (.inr hd)
    rw [trim, List.append_assoc, first, List.reverse_append, last, List.reverse_reverse]

theorem trim_spec (text : List Char) : IsBare (trim text) ∧
    ∃ before after, text = before ++ trim text ++ after ∧ ∀ c ∈ before ++ after, isSpace c := by
  let middle := text.dropWhile isSpace
  have left : text = text.takeWhile isSpace ++ middle := List.takeWhile_append_dropWhile.symm
  have right : middle = trim text ++ (middle.reverse.takeWhile isSpace).reverse := by
    have parts := List.takeWhile_append_dropWhile (p := isSpace) (l := middle.reverse)
    rw [trim, ← List.reverse_append, parts, List.reverse_reverse]
  constructor
  · intro c ends
    cases ends with
    | inl first =>
      have head : middle.head? = some c := by
        rw [right, List.head?_append, first, Option.some_or]
      exact head?_dropWhile_isSpace head
    | inr last =>
      rw [trim, List.getLast?_reverse] at last
      exact head?_dropWhile_isSpace last
  · refine ⟨text.takeWhile isSpace, (middle.reverse.takeWhile isSpace).reverse, ?_, ?_⟩
    · rw [List.append_assoc, ← right]
      exact left
    · intro c hc
      cases List.mem_append.mp hc with
      | inl front => exact List.mem_takeWhile_imp front
      | inr back => exact List.mem_takeWhile_imp (List.mem_reverse.mp back)

/-! ## Headers -/

/-- The first value of a name is visible text, which is `text` without the blanks around it. -/
structure Shows (headers : Fields) (name : String) (text : List Char) : Prop where
  bare : ∀ c, text.head? = some c ∨ text.getLast? = some c → ¬IsBlank c
  first : ∃ value, headers.lookup name = some value ∧ (∀ b ∈ value, b = 9 ∨ 32 ≤ b ∧ b ≤ 126) ∧
    ∃ before after, value.map (fun b => Char.ofNat b.toNat) = before ++ text ++ after ∧
      ∀ c ∈ before ++ after, IsBlank c

theorem headerText?_eq_some_iff {value : List UInt8} {text : List Char} :
    headerText? value = some text ↔ (∀ b ∈ value, b = 9 ∨ 32 ≤ b ∧ b ≤ 126) ∧
      value.map (fun b => Char.ofNat b.toNat) = text := by
  have visible : value.all isVisible = true ↔ ∀ b ∈ value, b = 9 ∨ 32 ≤ b ∧ b ≤ 126 := by
    simp only [List.all_eq_true, isVisible_iff]
  rw [← visible]
  by_cases h : value.all isVisible = true <;> simp [headerText?, h]

theorem firstText?_eq_some_iff {headers : Fields} {name : String} {text : List Char} :
    firstText? headers name = some text ↔ Shows headers name text := by
  have blank : ∀ c, isSpace c = false ↔ ¬IsBlank c := by simp [← isSpace_iff]
  constructor
  · intro h
    obtain ⟨value, found, h⟩ := Option.bind_eq_some_iff.mp h
    obtain ⟨whole, read, rfl⟩ := Option.map_eq_some_iff.mp h
    obtain ⟨visible, same⟩ := headerText?_eq_some_iff.mp read
    obtain ⟨bare, before, after, parts, blanks⟩ := trim_spec whole
    refine ⟨fun c ends => (blank c).mp (bare c ends), value, found, visible, before, after, ?_, ?_⟩
    · exact same.trans parts
    · exact fun c hc => (isSpace_iff c).mp (blanks c hc)
  · rintro ⟨bare, value, found, visible, before, after, parts, blanks⟩
    have read := headerText?_eq_some_iff.mpr ⟨visible, parts⟩
    have trimmed : trim (before ++ text ++ after) = text :=
      trim_of_blanks (fun c hc => (isSpace_iff c).mpr (blanks c hc)) fun c ends =>
        (blank c).mpr (bare c ends)
    rw [firstText?, found, Option.bind_some, read, Option.map_some, trimmed]

/-! ## Counts and units -/

/-- A count of milliseconds that fits 64 bits. -/
structure AsksMillis (headers : Fields) (n : Nat) : Prop where
  fits : n < 2 ^ 64
  text : ∃ count, Shows headers "connect-timeout-ms" count ∧ Counts count n

/-- A count of eight characters at most, followed by one of the letters H, M, S, m, u and n. -/
structure AsksUnits (headers : Fields) (n : Nat) (unit : TimeUnit) : Prop where
  text : ∃ count, Shows headers "grpc-timeout" (count ++ [unit.symbol]) ∧ Counts count n ∧
    count.length ≤ 8

theorem count?_eq_some_iff {text : List Char} {n : Nat} :
    count? text = some n ↔ Counts text n ∧ n < 2 ^ 64 := by
  have limit : countLimit = 2 ^ 64 := rfl
  simp only [count?, Option.bind_eq_some_iff, unsigned?_eq_some_iff, limit,
    Option.ite_none_right_eq_some, Option.some.injEq]
  constructor
  · rintro ⟨m, counts, fits, rfl⟩
    exact ⟨counts, fits⟩
  · rintro ⟨counts, fits⟩
    exact ⟨n, counts, fits, rfl⟩

theorem millis?_eq_some_iff {headers : Fields} {n : Nat} :
    (firstText? headers millisName).bind count? = some n ↔ AsksMillis headers n := by
  simp only [Option.bind_eq_some_iff, firstText?_eq_some_iff, count?_eq_some_iff]
  constructor
  · rintro ⟨text, shows, counts, fits⟩
    exact ⟨fits, text, shows, counts⟩
  · rintro ⟨fits, text, shows, counts⟩
    exact ⟨text, shows, counts, fits⟩

@[simp] theorem ofSymbol?_symbol (u : TimeUnit) : TimeUnit.ofSymbol? u.symbol = some u := by
  cases u <;> rfl

theorem symbol_of_ofSymbol? {c : Char} {u : TimeUnit} (h : TimeUnit.ofSymbol? c = some u) :
    u.symbol = c := by
  simpa using List.find?_some h

/-- What is read is a count and a unit, and stands for their product. -/
theorem read?_eq_some_iff {text : List Char} {t : Nat} :
    read? text = some t ↔ ∃ count n u, text = count ++ [TimeUnit.symbol u] ∧ Counts count n ∧
      count.length ≤ 8 ∧ t = n * u.nanoseconds := by
  constructor
  · intro h
    unfold read? at h
    split at h
    · cases h
    · next bounds =>
      split at h
      · cases h
      · next c last =>
        obtain ⟨n, count, h⟩ := Option.bind_eq_some_iff.mp h
        obtain ⟨u, unit, h⟩ := Option.bind_eq_some_iff.mp h
        cases h
        obtain ⟨rest, rfl⟩ := List.getLast?_eq_some_iff.mp last
        rw [List.dropLast_concat] at count
        rw [List.length_append, List.length_singleton] at bounds
        exact ⟨rest, n, u, by rw [symbol_of_ofSymbol? unit], (count?_eq_some_iff.mp count).1, by omega, rfl⟩
  · rintro ⟨count, n, u, rfl, counts, short, rfl⟩
    have length : 0 < count.length := List.length_pos_iff.mpr counts.ne_nil
    have bounds : ¬((count ++ [u.symbol]).length < 2 ∨ 9 < (count ++ [u.symbol]).length) := by
      rw [List.length_append, List.length_singleton]
      omega
    have fits : n < 2 ^ 64 :=
      calc n < 10 ^ count.length := counts.lt
        _ ≤ 10 ^ 8 := Nat.pow_le_pow_right (by decide) short
        _ < 2 ^ 64 := by decide
    have number : count? count = some n := count?_eq_some_iff.mpr ⟨counts, fits⟩
    rw [read?, if_neg bounds, List.getLast?_concat, List.dropLast_concat]
    simp [number]

theorem units_iff {headers : Fields} {t : Nat} :
    (firstText? headers unitsName).bind read? = some t ↔
      ∃ n u, AsksUnits headers n u ∧ t = n * u.nanoseconds := by
  simp only [Option.bind_eq_some_iff, firstText?_eq_some_iff, read?_eq_some_iff]
  constructor
  · rintro ⟨text, shows, count, n, u, rfl, counts, short, value⟩
    exact ⟨n, u, ⟨count, shows, counts, short⟩, value⟩
  · rintro ⟨n, u, ⟨count, shows, counts, short⟩, value⟩
    exact ⟨_, shows, count, n, u, rfl, counts, short, value⟩

theorem ofHeaders?_of_no_millis {headers : Fields} (none : ∀ n, ¬AsksMillis headers n) :
    ofHeaders? headers = (firstText? headers unitsName).bind read? := by
  have unread : (firstText? headers millisName).bind count? = .none := by
    apply Option.eq_none_iff_forall_ne_some.mpr
    exact fun n found => none n (millis?_eq_some_iff.mp found)
  rw [ofHeaders?, unread]

/-- A timeout is read exactly from the texts of the grammar, and is the product of count and unit: from
a count of milliseconds if there is one, else from a count with a unit. Its whole seconds fit 64 bits. -/
theorem timeouts_are_read_by_grammar (headers : Fields) :
    (∀ n, AsksMillis headers n → ofHeaders? headers = some (n * 1000000)) ∧
    ((∀ n, ¬AsksMillis headers n) → ∀ t, ofHeaders? headers = some t ↔
      ∃ n u, AsksUnits headers n u ∧ t = n * u.nanoseconds) ∧
    ∀ t, ofHeaders? headers = some t → t / 1000000000 < 2 ^ 64 := by
  have millis : ∀ n, AsksMillis headers n → ofHeaders? headers = some (n * 1000000) := by
    intro n asks
    rw [ofHeaders?, millis?_eq_some_iff.mpr asks]
    rfl
  refine ⟨millis, fun none t => ofHeaders?_of_no_millis none ▸ units_iff, fun t asked => ?_⟩
  by_cases asks : ∃ n, AsksMillis headers n
  · obtain ⟨n, asks⟩ := asks
    have fits := asks.fits
    obtain rfl : n * 1000000 = t := Option.some.inj ((millis n asks).symm.trans asked)
    omega
  · rw [ofHeaders?_of_no_millis (not_exists.mp asks)] at asked
    obtain ⟨text, _, read⟩ := Option.bind_eq_some_iff.mp asked
    have short : t < 100000000 * 3600000000000 := read?_lt read
    omega

/-- A plus sign is read in both headers, although it is no digit. -/
theorem plus_sign_is_read :
    (ofHeaders? [("grpc-timeout", Utf8.encode "+5S")] = some 5000000000 ∧
      ¬∃ digits n u, Shows [("grpc-timeout", Utf8.encode "+5S")] "grpc-timeout"
        (digits ++ [TimeUnit.symbol u]) ∧ Spells digits n) ∧
    ofHeaders? [("connect-timeout-ms", Utf8.encode "+5")] = some 5000000 ∧
      ¬∃ digits n, Shows [("connect-timeout-ms", Utf8.encode "+5")] "connect-timeout-ms" digits ∧
        Spells digits n := by
  have units : firstText? [("grpc-timeout", Utf8.encode "+5S")] "grpc-timeout" =
      some ['+', '5', 'S'] := by decide +kernel
  have millis : firstText? [("connect-timeout-ms", Utf8.encode "+5")] "connect-timeout-ms" =
      some ['+', '5'] := by decide +kernel
  refine ⟨⟨by decide +kernel, ?_⟩, by decide +kernel, ?_⟩
  · rintro ⟨digits, n, u, shows, spells⟩
    have text := units.symm.trans (firstText?_eq_some_iff.mpr shows)
    apply spells.head_ne_plus
    cases digits with
    | nil => exact absurd rfl spells.some_digit
    | cons c rest => simpa using (List.cons.inj (Option.some.inj text)).1.symm
  · rintro ⟨digits, n, shows, spells⟩
    have text := millis.symm.trans (firstText?_eq_some_iff.mpr shows)
    apply spells.head_ne_plus
    rw [← Option.some.inj text]
    rfl

end Patchwork.Timeout
