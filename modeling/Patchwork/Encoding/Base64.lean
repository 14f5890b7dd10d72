/-!
# Base64

Bytes as text over 64 symbols, three bytes to four symbols. The standard alphabet ends in `+/`,
the one for addresses in `-_`. A reader fixes how much padding it wants and whether the unused
bits of the last symbol have to be zero.
-/

namespace Patchwork.Base64

/-- Which two characters stand for 62 and 63. -/
inductive Alphabet where
  | standard
  | address
  deriving DecidableEq, Repr

/-- How much padding a reader accepts behind an incomplete last group. -/
inductive Padding where
  | full
  | absent
  | any
  deriving DecidableEq, Repr

structure Reader where
  alphabet : Alphabet := .standard
  padding : Padding := .full
  /-- Whether unused bits of the last symbol may be set. -/
  slack : Bool := false

/-- The symbol of a value below 64. -/
def Alphabet.symbol (a : Alphabet) (n : Nat) : Char :=
  if n < 26 then Char.ofNat ('A'.toNat + n)
  else if n < 52 then Char.ofNat ('a'.toNat + (n - 26))
  else if n < 62 then Char.ofNat ('0'.toNat + (n - 52))
  else match a, n with
    | .standard, 62 => '+'
    | .standard, _ => '/'
    | .address, 62 => '-'
    | .address, _ => '_'

def Alphabet.value? (a : Alphabet) (c : Char) : Option Nat :=
  if 'A' ≤ c ∧ c ≤ 'Z' then some (c.toNat - 'A'.toNat)
  else if 'a' ≤ c ∧ c ≤ 'z' then some (c.toNat - 'a'.toNat + 26)
  else if '0' ≤ c ∧ c ≤ '9' then some (c.toNat - '0'.toNat + 52)
  else match a, c with
    | .standard, '+' => some 62
    | .standard, '/' => some 63
    | .address, '-' => some 62
    | .address, '_' => some 63
    | _, _ => none

/-- The symbols of a byte sequence, padded to a multiple of four. -/
def symbols : List UInt8 → List Char
  | [] => []
  | [x] =>
    let n := x.toNat * 16
    [s (n / 64), s (n % 64), '=', '=']
  | [x, y] =>
    let n := (x.toNat * 256 + y.toNat) * 4
    [s (n / 4096), s (n / 64 % 64), s (n % 64), '=']
  | x :: y :: z :: rest =>
    let n := x.toNat * 65536 + y.toNat * 256 + z.toNat
    s (n / 262144) :: s (n / 4096 % 64) :: s (n / 64 % 64) :: s (n % 64) :: symbols rest
where s := Alphabet.standard.symbol

def encode (bytes : List UInt8) : String := String.ofList (symbols bytes)

/-- The bytes of the last group: its symbols' values and the number of padding characters. -/
def Reader.last (r : Reader) (values : List Nat) (pads : Nat) : Option (List UInt8) :=
  let padded := match r.padding with
    | .full => values.length + pads == 4
    | .absent => pads == 0
    | .any => values.length + pads ≤ 4
  if !padded then none
  else match values with
    | [a, b, c, d] =>
      let n := a * 262144 + b * 4096 + c * 64 + d
      some [.ofNat (n / 65536), .ofNat (n / 256), .ofNat n]
    | [a, b, c] =>
      let n := a * 4096 + b * 64 + c
      if n % 4 = 0 ∨ r.slack then some [.ofNat (n / 1024), .ofNat (n / 4)] else none
    | [a, b] =>
      let n := a * 64 + b
      if n % 16 = 0 ∨ r.slack then some [.ofNat (n / 16)] else none
    | _ => none

/-- Reads complete groups up to the last one, which may be padded or cut short. -/
def Reader.decode (r : Reader) : List Char → Option (List UInt8)
  | [] => some []
  | c₁ :: c₂ :: c₃ :: c₄ :: c₅ :: rest => do
    let group ← [c₁, c₂, c₃, c₄].mapM r.alphabet.value?
    let bytes ← { r with padding := .any }.last group 0
    return bytes ++ (← r.decode (c₅ :: rest))
  | group => do
    let body := group.takeWhile (· ≠ '=')
    let pads := group.dropWhile (· ≠ '=')
    if pads.any (· ≠ '=') then none
    r.last (← body.mapM r.alphabet.value?) pads.length

/-- The strict form, with all of its padding or with none. -/
def decodeExact (text : List Char) : Option (List UInt8) :=
  Reader.decode {} text <|> Reader.decode { padding := .absent } text

/-- The forgiving form: either alphabet, any padding, stray bits dropped. -/
def decodeLenient (text : List Char) : Option (List UInt8) :=
  Reader.decode { padding := .any, slack := true } text
    <|> Reader.decode { alphabet := .address, padding := .any, slack := true } text

end Patchwork.Base64
