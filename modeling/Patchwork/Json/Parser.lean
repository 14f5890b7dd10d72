import Patchwork.Encoding.Hex
import Patchwork.Encoding.Utf8
import Patchwork.Json.Source

/-!
# Reading JSON text

The grammar of JSON over characters, in which `none` stands for a byte that belongs to no
character. Such a byte may only stand inside a text, which then is unreadable.
-/

namespace Patchwork.Json.Parser
open Patchwork.Numeral

abbrev Glyph := Option Char

def isBlank (g : Glyph) : Bool := g == some ' ' || g == some '\n' || g == some '\t' || g == some '\r'

def skipBlank (input : List Glyph) : List Glyph := input.dropWhile isBlank

/-- The digits at the head of the input. -/
def digits : List Glyph → List Char × List Glyph
  | some c :: rest =>
    if isDigit c then let (ds, rest') := digits rest; (c :: ds, rest') else ([], some c :: rest)
  | input => ([], input)

/-- Four hexadecimal digits. -/
def codeUnit? : List Glyph → Option (Nat × List Glyph)
  | some a :: some b :: some c :: some d :: rest => do
    return ((← Hex.digit? a) * 4096 + (← Hex.digit? b) * 256 + (← Hex.digit? c) * 16 + (← Hex.digit? d),
      rest)
  | _ => none

def isHighSurrogate (n : Nat) : Bool := 0xD800 ≤ n && n < 0xDC00

def isLowSurrogate (n : Nat) : Bool := 0xDC00 ≤ n && n < 0xE000

def combine (high low : Nat) : Char := Char.ofNat (0x10000 + (high - 0xD800) * 0x400 + (low - 0xDC00))

def simpleEscape? : Char → Option Char
  | '"' => some '"'
  | '\\' => some '\\'
  | '/' => some '/'
  | 'b' => some '\x08'
  | 'f' => some '\x0c'
  | 'n' => some '\n'
  | 'r' => some '\r'
  | 't' => some '\t'
  | _ => none

/-- What follows a backslash: the character, `none` for half of a surrogate pair, and the rest. -/
def escape? : List Glyph → Option (Glyph × List Glyph)
  | some 'u' :: rest => do
    let (n, rest) ← codeUnit? rest
    if isHighSurrogate n then
      match rest with
      | some '\\' :: some 'u' :: rest' =>
        let (m, rest'') ← codeUnit? rest'
        return if isLowSurrogate m then (some (combine n m), rest'') else (none, rest)
      | _ => return (none, rest)
    else if isLowSurrogate n then return (none, rest)
    else return (some (Char.ofNat n), rest)
  | some c :: rest => do return (some (← simpleEscape? c), rest)
  | _ => none

/-- The characters of a text after its opening quote, and what follows the closing one. -/
def characters? : Nat → List Glyph → Option (List Glyph × List Glyph)
  | 0, _ => none
  | fuel + 1, input =>
    match input with
    | [] => none
    | some '"' :: rest => some ([], rest)
    | some '\\' :: rest => do
      let (g, rest) ← escape? rest
      let (gs, rest) ← characters? fuel rest
      return (g :: gs, rest)
    | g :: rest => do
      if g.any (· < ' ') then none
      let (gs, rest) ← characters? fuel rest
      return (g :: gs, rest)

def text? (fuel : Nat) (input : List Glyph) : Option (Option String × List Glyph) := do
  let (gs, rest) ← characters? fuel input
  return ((gs.mapM id).map String.ofList, rest)

/-- A whole number has no leading zero unless it is zero. -/
def whole? (input : List Glyph) : Option (List Char × List Glyph) :=
  match digits input with
  | ([], _) => none
  | ('0' :: _ :: _, _) => none
  | found => some found

def part? : List Glyph → Option (Option (List Char) × List Glyph)
  | some '.' :: rest =>
    match digits rest with
    | ([], _) => none
    | (ds, rest) => some (some ds, rest)
  | input => some (none, input)

def exponentSign : List Glyph → Bool × List Glyph
  | some '-' :: rest => (true, rest)
  | some '+' :: rest => (false, rest)
  | input => (false, input)

def exponent? : List Glyph → Option (Option (Bool × List Char) × List Glyph)
  | some c :: rest =>
    if c = 'e' ∨ c = 'E' then
      let (negative, rest) := exponentSign rest
      match digits rest with
      | ([], _) => none
      | (ds, rest) => some (some (negative, ds), rest)
    else some (none, some c :: rest)
  | input => some (none, input)

def numeral? (negative : Bool) (input : List Glyph) : Option (Numeral × List Glyph) := do
  let (whole, rest) ← whole? input
  let (part, rest) ← part? rest
  let (exponent, rest) ← exponent? rest
  return (⟨negative, whole, part, exponent⟩, rest)

/-- The input after a given word. -/
def word? : List Char → List Glyph → Option (List Glyph)
  | [], input => some input
  | c :: cs, some d :: rest => if c = d then word? cs rest else none
  | _ :: _, _ => none

mutual
/-- A value and what follows it; `fuel` bounds the number of values and separators. -/
def value? : Nat → List Glyph → Option (Source × List Glyph)
  | 0, _ => none
  | fuel + 1, input =>
    match skipBlank input with
    | some 'n' :: rest => do return (.null, ← word? "ull".toList rest)
    | some 't' :: rest => do return (.bool true, ← word? "rue".toList rest)
    | some 'f' :: rest => do return (.bool false, ← word? "alse".toList rest)
    | some '"' :: rest => do
      let (s, rest) ← text? (rest.length + 1) rest
      return (.str s, rest)
    | some '[' :: rest =>
      match skipBlank rest with
      | some ']' :: rest => some (.arr [], rest)
      | rest => do
        let (items, rest) ← items? fuel rest
        return (.arr items, rest)
    | some '{' :: rest =>
      match skipBlank rest with
      | some '}' :: rest => some (.obj [], rest)
      | rest => do
        let (members, rest) ← members? fuel rest
        return (.obj members, rest)
    | some '-' :: rest => do
      let (x, rest) ← numeral? true rest
      return (.num x, rest)
    | rest => do
      let (x, rest) ← numeral? false rest
      return (.num x, rest)

/-- The items of an array up to its closing bracket. -/
def items? : Nat → List Glyph → Option (List Source × List Glyph)
  | 0, _ => none
  | fuel + 1, input => do
    let (x, rest) ← value? fuel input
    match skipBlank rest with
    | some ']' :: rest => return ([x], rest)
    | some ',' :: rest =>
      let (xs, rest) ← items? fuel rest
      return (x :: xs, rest)
    | _ => none

/-- The members of an object up to its closing brace. -/
def members? : Nat → List Glyph → Option (List (Option String × Source) × List Glyph)
  | 0, _ => none
  | fuel + 1, input =>
    match skipBlank input with
    | some '"' :: rest => do
      let (name, rest) ← text? (rest.length + 1) rest
      match skipBlank rest with
      | some ':' :: rest =>
        let (x, rest) ← value? fuel rest
        match skipBlank rest with
        | some '}' :: rest => return ([(name, x)], rest)
        | some ',' :: rest =>
          let (ms, rest) ← members? fuel rest
          return ((name, x) :: ms, rest)
        | _ => none
      | _ => none
    | _ => none
end

end Parser

open Patchwork.Json.Parser

/-- A text that is one value, blanks around it apart. -/
def Source.ofGlyphs? (input : List Glyph) : Option Source :=
  match value? (2 * input.length + 1) input with
  | some (x, rest) => if skipBlank rest = [] then some x else none
  | none => none

def Source.parse? (text : String) : Option Source := ofGlyphs? (text.toList.map some)

def Source.parseBytes? (bytes : List UInt8) : Option Source := ofGlyphs? (Utf8.glyphs bytes)

def parse? (text : String) : Option Json := do (← Source.parse? text).toJson? maxDepth

end Patchwork.Json
