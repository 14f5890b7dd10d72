import Patchwork.Decimal.Shortest
import Patchwork.Encoding.Hex
import Patchwork.Json.Value

/-!
# Writing JSON text

Compact text: no blanks, only the quote, the backslash and control characters escaped, doubles by
their shortest digits with a fraction or an exponent so that they read back as doubles.
-/

namespace Patchwork.Json

/-- How the shortest digits of a double are laid out. -/
structure FloatLayout where
  /-- Numbers of at most this many digits before the point are written without exponent. -/
  wholeDigits : Int := 16
  /-- So are fractions with fewer zeros than this after the point. -/
  leadingZeros : Int := 5

def zeros (n : Nat) : String := String.ofList (List.replicate n '0')

def FloatLayout.write (layout : FloatLayout) (x : Binary.Decimal) : String :=
  let digits := Nat.repr x.digits
  let count := digits.length
  let point : Int := count + x.exponent
  if 0 ≤ x.exponent ∧ point ≤ layout.wholeDigits then digits ++ zeros x.exponent.toNat ++ ".0"
  else if 0 < point ∧ point ≤ layout.wholeDigits then
    (digits.take point.toNat).toString ++ "." ++ (digits.drop point.toNat).toString
  else if -layout.leadingZeros < point ∧ point ≤ 0 then "0." ++ zeros (-point).toNat ++ digits
  else
    let tail := (digits.drop 1).toString
    (digits.take 1).toString ++ (if tail.isEmpty then "" else "." ++ tail) ++ "e" ++ toString (point - 1)

def floatText (bits : Nat) : String :=
  let sign := if Binary.double.isNegative bits then "-" else ""
  sign ++ FloatLayout.write {} (Binary.double.shortest (Binary.double.magnitude bits))

def escaped (c : Char) : List Char :=
  match c with
  | '"' => ['\\', '"']
  | '\\' => ['\\', '\\']
  | '\x08' => ['\\', 'b']
  | '\x0c' => ['\\', 'f']
  | '\n' => ['\\', 'n']
  | '\r' => ['\\', 'r']
  | '\t' => ['\\', 't']
  | c =>
    if c < ' ' then ['\\', 'u', '0', '0', Hex.digit (c.toNat / 16), Hex.digit (c.toNat % 16)] else [c]

def quoted (s : String) : List Char := '"' :: s.toList.flatMap escaped ++ ['"']

mutual
def symbols : Json → List Char
  | .null => "null".toList
  | .bool b => (if b then "true" else "false").toList
  | .int n => (toString n).toList
  | .float bits => (floatText bits.toNat).toList
  | .str s => quoted s
  | .arr items => '[' :: itemSymbols items ++ [']']
  | .obj members => '\x7b' :: memberSymbols members ++ ['\x7d']

def itemSymbols : List Json → List Char
  | [] => []
  | [x] => symbols x
  | x :: rest => symbols x ++ ',' :: itemSymbols rest

def memberSymbols : List (String × Json) → List Char
  | [] => []
  | [(k, x)] => quoted k ++ ':' :: symbols x
  | (k, x) :: rest => quoted k ++ ':' :: symbols x ++ ',' :: memberSymbols rest
end

def print (x : Json) : String := String.ofList x.symbols

end Patchwork.Json
