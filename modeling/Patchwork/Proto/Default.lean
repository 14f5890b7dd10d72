import Patchwork.Encoding.Hex
import Patchwork.Encoding.Utf8
import Patchwork.Proto.Scalar
import Patchwork.Text.Numeral

/-!
# Defaults as text

How a declaration writes the default of a scalar field. Integers have to fit the kind. Texts stand
as they are; bytes are written with escapes after backslashes.
-/

namespace Patchwork.Proto.Default

/-- The escapes of one letter. -/
def letters : List (Char × Nat) :=
  [('a', 7), ('b', 8), ('t', 9), ('n', 10), ('v', 11), ('f', 12), ('r', 13), ('"', 34), ('\'', 39),
   ('?', 63), ('\\', 92)]

def isOctal (c : Char) : Bool := '0' ≤ c && c ≤ '7'

/-- The number that two hexadecimal digits spell; a plus sign may stand for the first. -/
def hexPair? (high low : Char) : Option Nat := do
  let high ← if high = '+' then some 0 else Hex.digit? high
  return high * 16 + (← Hex.digit? low)

/-- What an escape stands for, and the number of its characters behind the backslash: two
hexadecimal digits after an x, up to three octal digits, or a letter. -/
def escape? : List Char → Option (Nat × Nat)
  | 'x' :: high :: low :: _ | 'X' :: high :: low :: _ => (hexPair? high low).map (·, 3)
  | rest =>
    match (rest.take 3).takeWhile isOctal with
    | [] => (rest.head?.bind fun c => letters.lookup c).map (·, 1)
    | digits => some (digits.foldl (fun n c => n * 8 + (c.toNat - '0'.toNat)) 0, digits.length)

/-- The bytes of a text with escapes after its first `skip` characters. -/
def unescapeFrom (skip : Nat) : List Char → Option (List UInt8)
  | [] => some []
  | c :: rest => match skip with
    | n + 1 => unescapeFrom n rest
    | 0 =>
      if c = '\\' then do
        let (n, width) ← escape? rest
        return .ofNat n :: (← unescapeFrom width rest)
      else return String.utf8EncodeChar c ++ (← unescapeFrom 0 rest)

def unescape? (text : String) : Option (List UInt8) := unescapeFrom 0 text.toList

/-- A whole number from `low` to `high`, with a sign where numbers may be negative. -/
def between? (low high : Int) (text : String) : Option Int := do
  let n ← if low < 0 then Numeral.signed? text.toList
    else (Numeral.unsigned? text.toList).map Int.ofNat
  if low ≤ n ∧ n ≤ high then some n else none

def int32? (text : String) : Option Scalar :=
  (between? (-2147483648) 2147483647 text).map fun n => .int32 (.ofInt n)

def int64? (text : String) : Option Scalar :=
  (between? (-9223372036854775808) 9223372036854775807 text).map fun n => .int64 (.ofInt n)

def uint32? (text : String) : Option Scalar :=
  (between? 0 4294967295 text).map fun n => .uint32 (.ofNat n.toNat)

def uint64? (text : String) : Option Scalar :=
  (between? 0 18446744073709551615 text).map fun n => .uint64 (.ofNat n.toNat)

def bool? (text : String) : Option Scalar :=
  if text = "true" then some (.bool true) else if text = "false" then some (.bool false) else none

/-- The bits of a floating-point number. -/
def bits? (f : Binary.Format) (text : String) : Option Nat :=
  (Numeral.fraction? text.toList).map (·.bits f)

/-- A default, read by the kind of its field. -/
def read? (k : ScalarKind) (text : String) : Option Scalar :=
  match k with
  | .string => some (.string text)
  | .bytes => (unescape? text).map .bytes
  | .bool => bool? text
  | .double => (bits? Binary.double text).map fun n => .double (.ofNat n)
  | .float => (bits? Binary.single text).map fun n => .float (.ofNat n)
  | .int32 | .sint32 | .sfixed32 => int32? text
  | .int64 | .sint64 | .sfixed64 => int64? text
  | .uint32 | .fixed32 => uint32? text
  | .uint64 | .fixed64 => uint64? text

end Patchwork.Proto.Default
