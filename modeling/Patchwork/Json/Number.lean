import Patchwork.Decimal.Binary
import Patchwork.Json.Value
import Patchwork.Text.Numeral

/-!
# JSON numbers

A number without fraction and exponent that fits 64 bits, signed or unsigned, is an integer. Any
other number is a double: its leading digits, as many as fit 64 bits, are rounded to a double and
then scaled by a power of ten that is itself rounded. A number too large for a double is none.
-/

namespace Patchwork.Json

/-- The parts of a number's text. -/
structure Numeral where
  negative : Bool
  whole : List Char
  part : Option (List Char)
  /-- Sign, true for negative, and digits of the exponent. -/
  exponent : Option (Bool × List Char)
  deriving DecidableEq, Repr

namespace Numeral
open Patchwork.Numeral Patchwork.Binary

def wordLimit : Nat := 18446744073709551616

/-- The digits up to the first that would leave 64 bits, and the digits from there on. -/
def leading (n : Nat) : List Char → Nat × List Char
  | [] => (n, [])
  | c :: rest =>
    let n' := n * 10 + (digit? c).getD 0
    if wordLimit ≤ n' then (n, c :: rest) else leading n' rest

/-- The bits of the power of ten, for exponents in reach of a double. -/
def powerOfTen (k : Nat) : Nat := double.ofDecimal 1 k

def maxPower : Nat := 308

/-- Divides by the largest power of ten until the exponent is in reach. Three such divisions
leave nothing of any 64-bit number. -/
def scaleDown : Nat → Nat → Int → Nat
  | 0, _, _ => 0
  | steps + 1, bits, e =>
    if e < -maxPower then
      if bits = 0 then 0 else scaleDown steps (double.div bits (powerOfTen maxPower)) (e + maxPower)
    else double.div bits (powerOfTen (-e).toNat)

/-- The bits of `significand * 10 ^ e`, none when it is too large. -/
def scaled? (significand : Nat) (e : Int) : Option Nat :=
  let bits := double.ofNat significand
  if e < 0 then some (scaleDown 4 bits e)
  else if maxPower < e then if bits = 0 then some 0 else none
  else
    let product := double.mul bits (powerOfTen e.toNat)
    if double.infinity ≤ product then none else some product

/-- Exponents beyond 32 bits. -/
def exponentLimit : Nat := 2147483648

/-- The significand and the power of ten that the digits alone give. -/
def parts (x : Numeral) : Nat × Int :=
  let (n, dropped) := leading 0 x.whole
  let (m, rest) := leading n (x.part.getD [])
  (m, (dropped.length : Int) - ((x.part.getD []).length - rest.length : Nat))

def double? (x : Numeral) : Option Nat :=
  let (significand, e) := x.parts
  match x.exponent with
  | none => scaled? significand e
  | some (negative, digits) =>
    let k := accumulate 0 digits
    if exponentLimit ≤ k then
      if significand ≠ 0 ∧ ¬negative then none else some 0
    else scaled? significand (if negative then e - k else e + k)

/-- The value of a number's text. -/
def value? (x : Numeral) : Option Json :=
  let n := accumulate 0 x.whole
  if x.part = none ∧ x.exponent = none ∧ ¬x.negative ∧ n < wordLimit then some (.int n)
  else if x.part = none ∧ x.exponent = none ∧ x.negative ∧ 0 < n ∧ n ≤ wordLimit / 2 then
    some (.int (-n))
  else x.double?.map fun bits => .ofDouble (double.signed x.negative bits)

end Numeral
end Patchwork.Json
