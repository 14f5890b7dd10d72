import Patchwork.Decimal.Binary

/-!
# Numerals

Decimal integers and fractions as they stand inside strings. Digits are ASCII, there is no space
and no grouping; a sign is allowed where a reader says so.
-/

namespace Patchwork.Numeral

def digit? (c : Char) : Option Nat :=
  if '0' ≤ c ∧ c ≤ '9' then some (c.toNat - '0'.toNat) else none

def isDigit (c : Char) : Bool := (digit? c).isSome

/-- The value of a run of digits, most significant first, on top of `n`. -/
def accumulate (n : Nat) (digits : List Char) : Nat :=
  digits.foldl (fun n c => n * 10 + (digit? c).getD 0) n

def natural? (text : List Char) : Option Nat :=
  if text ≠ [] ∧ text.all isDigit then some (accumulate 0 text) else none

/-- A natural number that may carry a plus sign. -/
def unsigned? : List Char → Option Nat
  | '+' :: rest => natural? rest
  | text => natural? text

def signed? : List Char → Option Int
  | '-' :: rest => (natural? rest).map fun n => -(n : Int)
  | text => (unsigned? text).map Int.ofNat

/-- What a fraction's text denotes: `digits * 10 ^ exponent`, or one of the special words. -/
inductive Literal where
  | nan (negative : Bool)
  | infinity (negative : Bool)
  | decimal (negative : Bool) (digits : Nat) (exponent : Int)
  deriving DecidableEq, Repr

def exponent? : List Char → Option Int
  | [] => some 0
  | c :: rest => if c = 'e' ∨ c = 'E' then signed? rest else none

/-- A fraction without its sign: digits on at least one side of an optional point, then an
optional power of ten, or a word in any case. -/
def magnitude? (negative : Bool) (text : List Char) : Option Literal := do
  let word := text.map Char.toLower
  if word = "nan".toList then return .nan negative
  if word = "inf".toList ∨ word = "infinity".toList then return .infinity negative
  let whole := text.takeWhile isDigit
  let (part, rest) := match text.dropWhile isDigit with
    | '.' :: rest => (rest.takeWhile isDigit, rest.dropWhile isDigit)
    | rest => ([], rest)
  if whole = [] ∧ part = [] then none
  let e ← exponent? rest
  return .decimal negative (accumulate (accumulate 0 whole) part) (e - part.length)

def fraction? : List Char → Option Literal
  | '-' :: rest => magnitude? true rest
  | '+' :: rest => magnitude? false rest
  | text => magnitude? false text

/-- The bits of a literal in a format. A NaN is a quiet one of its sign. -/
def Literal.bits (f : Binary.Format) : Literal → Nat
  | .nan negative => f.signed negative f.quietNaN
  | .infinity negative => f.signed negative f.infinity
  | .decimal negative digits exponent => f.signed negative (f.ofDecimal digits exponent)

end Patchwork.Numeral
