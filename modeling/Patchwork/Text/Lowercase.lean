import Patchwork.Text.CaseTable

/-!
# Lower case

The lower-case form of a text. Two characters are special: the dotted capital I becomes two
characters, and a capital sigma takes its final form at the end of a word.
-/

namespace Patchwork.Case

def Row.covers (r : Row) (n : Nat) : Bool := r.first ≤ n && n ≤ r.last && (n - r.first) % r.step == 0

/-- The lower-case form of a character on its own. -/
def lowerChar (c : Char) : Char :=
  match lowerRows.find? (·.covers c.toNat) with
  | some r => Char.ofNat (c.toNat + r.offset).toNat
  | none => c

def capitalSigma : Char := 'Σ'

def dottedI : Char := 'İ'

/-- Whether the next character that matters has case. -/
def meetsCased (text : List Char) : Bool :=
  match text.dropWhile isIgnorable with
  | c :: _ => isCased c
  | [] => false

/-- Lower-cases a text, given in reverse the part that stands before it. -/
def lowerFrom (before : List Char) : List Char → List Char
  | [] => []
  | c :: rest =>
    let here :=
      if c = capitalSigma then [if meetsCased before && !meetsCased rest then 'ς' else 'σ']
      else if c = dottedI then ['i', Char.ofNat 0x307]
      else [lowerChar c]
    here ++ lowerFrom (c :: before) rest

def lower (text : String) : String := String.ofList (lowerFrom [] text.toList)

end Patchwork.Case
