import Patchwork.Decimal.Binary

/-!
# Shortest decimals

The fewest decimal digits that read back as a given binary number, and of those the nearest to
it. The decimals that read back as `v` are those between the midpoints to its two neighbours,
the midpoints included when the significand of `v` is even.
-/

namespace Patchwork.Binary

/-- The decimal `digits * 10 ^ exponent`. -/
structure Decimal where
  digits : Nat
  exponent : Int
  deriving DecidableEq, Repr

/-- The power of ten with `10 ^ k ≤ n / d < 10 ^ (k + 1)`, for a positive fraction. -/
def floorLog10 (n d : Nat) : Int :=
  if d ≤ n then (Nat.toDigits 10 (n / d)).length - 1
  else
    let q := d / n
    let k := (Nat.toDigits 10 q).length
    if d % n = 0 ∧ q = Nat.pow 10 (k - 1) then 1 - (k : Int) else -(k : Int)

/-- The midpoints to the neighbours of `m * 2 ^ e`, in units of `2 ^ (e - 2)`. -/
def Format.bounds (f : Format) (m : Nat) (e : Int) : Nat × Nat :=
  (if m = f.hidden ∧ f.least < e then 4 * m - 1 else 4 * m - 2, 4 * m + 2)

/-- Whether `n / d` lies between the bounds, both over the denominator `u`. -/
def within (low high u : Nat) (ends : Bool) (n d : Nat) : Bool :=
  if ends then low * d ≤ n * u && n * u ≤ high * d else low * d < n * u && n * u < high * d

/-- The better of the two decimals with `places` digits on either side of `n / d`. -/
def neighbour? (n d low high : Nat) (ends : Bool) (places : Nat) : Option Decimal :=
  let x := floorLog10 n d - places + 1
  let (num, den) := if 0 ≤ x then (n, d * Nat.pow 10 x.toNat) else (n * Nat.pow 10 (-x).toNat, d)
  let below := num / den
  let at? (k : Nat) : Bool :=
    if 0 ≤ x then within low high d ends (k * Nat.pow 10 x.toNat) 1
    else within low high d ends k (Nat.pow 10 (-x).toNat)
  match at? below, at? (below + 1) with
  | true, true => some ⟨if 2 * (num % den) ≤ den then below else below + 1, x⟩
  | true, false => some ⟨below, x⟩
  | false, true => some ⟨below + 1, x⟩
  | false, false => none

def firstFit (fit : Nat → Option Decimal) : Nat → Nat → Decimal
  | 0, places => (fit places).getD ⟨0, 0⟩
  | fuel + 1, places => (fit places).getD (firstFit fit fuel (places + 1))

def Decimal.trim : Nat → Decimal → Decimal
  | 0, x => x
  | fuel + 1, x =>
    if x.digits ≠ 0 ∧ x.digits % 10 = 0 then trim fuel ⟨x.digits / 10, x.exponent + 1⟩ else x

/-- Seventeen digits tell any two numbers of these formats apart. -/
def maxPlaces : Nat := 17

def Format.shortest (f : Format) (magnitude : Nat) : Decimal :=
  match f.decode magnitude with
  | .finite _ m e =>
    if m = 0 then ⟨0, 0⟩
    else
      let (low, high) := f.bounds m e
      let e' := e - 2
      let k := if 0 ≤ e' then Nat.pow 2 e'.toNat else 1
      let u := if 0 ≤ e' then 1 else Nat.pow 2 (-e').toNat
      let fit := neighbour? (4 * m * k) u (low * k) (high * k) (m % 2 = 0)
      (firstFit fit maxPlaces 1).trim (maxPlaces + 1)
  | _ => ⟨0, 0⟩

/-- The double that the shortest decimal of a single stands for. -/
def widenShortest (bits : Nat) : Nat :=
  let x := single.shortest (single.magnitude bits)
  double.signed (single.isNegative bits) (double.ofDecimal x.digits x.exponent)

end Patchwork.Binary
