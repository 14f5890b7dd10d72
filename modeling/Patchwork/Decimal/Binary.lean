/-!
# Binary floating-point numbers

A number is given by the bits of an IEEE 754 interchange format, as a natural number. All
arithmetic goes through exact fractions and is rounded once, to the nearest number and from
halfway to the even one.
-/

namespace Patchwork.Binary

structure Format where
  /-- Bits of the significand, the leading one included. -/
  precision : Nat
  /-- Weight of the last place of the smallest numbers, as a power of two. -/
  least : Int
  /-- Bits of positive infinity. -/
  infinity : Nat
  /-- The bit that makes a number negative. -/
  signBit : Nat

def single : Format := ⟨24, -149, 0x7F800000, 0x80000000⟩

def double : Format := ⟨53, -1074, 0x7FF0000000000000, 0x8000000000000000⟩

inductive Number where
  | nan
  | infinite (negative : Bool)
  /-- The value `significand * 2 ^ exponent`. -/
  | finite (negative : Bool) (significand : Nat) (exponent : Int)
  deriving DecidableEq, Repr

variable (f : Format)

/-- The weight of the leading bit of a full significand. -/
def Format.hidden : Nat := Nat.pow 2 (f.precision - 1)

def Format.isNegative (bits : Nat) : Bool := f.signBit ≤ bits

def Format.magnitude (bits : Nat) : Nat := bits % f.signBit

def Format.isZero (bits : Nat) : Bool := f.magnitude bits == 0

def Format.isFinite (bits : Nat) : Bool := f.magnitude bits < f.infinity

def Format.isNaN (bits : Nat) : Bool := f.infinity < f.magnitude bits

def Format.signed (negative : Bool) (magnitude : Nat) : Nat :=
  if negative then f.signBit + magnitude else magnitude

def Format.decode (bits : Nat) : Number :=
  let negative := f.isNegative bits
  let m := f.magnitude bits
  if f.infinity < m then .nan
  else if m = f.infinity then .infinite negative
  else if m < f.hidden then .finite negative m f.least
  else .finite negative (m % f.hidden + f.hidden) (f.least + (m / f.hidden : Nat) - 1)

/-- `n / d` at the scale `2 ^ e`, as a numerator and a denominator. -/
def scale (n d : Nat) (e : Int) : Nat × Nat :=
  if 0 ≤ e then (n, d * Nat.pow 2 e.toNat) else (n * Nat.pow 2 (-e).toNat, d)

/-- The quotient to the nearest natural number, halves to the even one. -/
def roundDiv (n d : Nat) : Nat :=
  let q := n / d
  let r := n % d
  if 2 * r < d then q else if d < 2 * r then q + 1 else q + q % 2

/-- The exponent at which `n / d` has a full significand, but no less than the least. -/
def Format.place (n d : Nat) : Int :=
  let guess : Int := (n.log2 : Int) - d.log2 - (f.precision - 1 : Nat)
  let (n', d') := scale n d guess
  let exact := if n' / d' < f.hidden then guess - 1 else guess
  max f.least exact

/-- The magnitude nearest to `n / d`, infinity when the fraction is too large. -/
def Format.round (n d : Nat) : Nat :=
  if n = 0 then 0
  else
    let e := f.place n d
    let (n', d') := scale n d e
    let bits := (e - f.least).toNat * f.hidden + roundDiv n' d'
    min f.infinity bits

/-- The magnitude nearest to `m * 2 ^ e`. -/
def Format.ofScaled (m : Nat) (e : Int) : Nat :=
  if 0 ≤ e then f.round (m * Nat.pow 2 e.toNat) 1 else f.round m (Nat.pow 2 (-e).toNat)

/-- The magnitude nearest to `digits * 10 ^ exponent`. No format here reaches beyond
`10 ^ 400` or below `10 ^ -400`. -/
def Format.ofDecimal (digits : Nat) (exponent : Int) : Nat :=
  if digits = 0 then 0
  else
    let top : Int := (Nat.toDigits 10 digits).length + exponent
    if 400 < top then f.infinity
    else if top < -400 then 0
    else if 0 ≤ exponent then f.round (digits * Nat.pow 10 exponent.toNat) 1
    else f.round digits (Nat.pow 10 (-exponent).toNat)

def Format.ofNat (n : Nat) : Nat := f.round n 1

def Format.ofInt (n : Int) : Nat := f.signed (n < 0) (f.round n.natAbs 1)

/-- The bits of a quiet NaN. -/
def Format.quietNaN : Nat := f.infinity + f.hidden / 2

/-- The same number in the format `target`. -/
def Format.convert (target : Format) (bits : Nat) : Nat :=
  match f.decode bits with
  | .nan => target.signed (f.isNegative bits) target.quietNaN
  | .infinite negative => target.signed negative target.infinity
  | .finite negative m e => target.signed negative (target.ofScaled m e)

/-- The product of two finite magnitudes. -/
def Format.mul (a b : Nat) : Nat :=
  match f.decode a, f.decode b with
  | .finite _ m e, .finite _ n k => f.ofScaled (m * n) (e + k)
  | _, _ => f.infinity

/-- The quotient of two finite magnitudes. -/
def Format.div (a b : Nat) : Nat :=
  match f.decode a, f.decode b with
  | .finite _ m e, .finite _ n k =>
    let (n', d') := scale m n (k - e)
    f.round n' d'
  | _, _ => f.infinity

/-- The integer a number stands for, if it is finite and whole. -/
def Format.toInt? (bits : Nat) : Option Int :=
  match f.decode bits with
  | .finite negative m e =>
    let (n, d) := scale m 1 (-e)
    if n % d = 0 then some (if negative then -(n / d : Nat) else (n / d : Nat)) else none
  | _ => none

end Patchwork.Binary
