import Patchwork.Json.Value
import Patchwork.Proto.Message

/-!
# Templates

Texts with references to fields of messages: each message goes by a letter, and the letter, a
point and the name of a field in braces stand for the field's text.
-/

namespace Patchwork.Script
open Proto

/-- The messages that a template may refer to. -/
abbrev Subjects := List (Char × Message)

/-- The text of a field: itself, a decimal for an integer of 32 bits, nothing for any other. -/
def fieldText (m : Message) (name : String) : String :=
  match (m.type.field? name).map m.get with
  | some (.scalar (.string s)) => s
  | some (.scalar (.int32 n)) => toString n.toInt
  | _ => ""

def openBrace : Char := '\x7b'

def closeBrace : Char := '\x7d'

/-- What follows an opening brace: a reference is replaced, anything else is left as it was. -/
def fillPiece (subjects : Subjects) (piece : List Char) : List Char :=
  match piece with
  | letter :: '.' :: rest =>
    let name := rest.takeWhile (· ≠ closeBrace)
    match subjects.lookup letter, rest.drop name.length with
    | some m, _ :: after => (fieldText m (String.ofList name)).toList ++ after
    | _, _ => openBrace :: piece
  | _ => openBrace :: piece

def fill (subjects : Subjects) (text : String) : String :=
  match text.splitOn (String.singleton openBrace) with
  | [] => ""
  | head :: pieces =>
    head ++ String.join (pieces.map fun p => String.ofList (fillPiece subjects p.toList))

mutual
/-- Fills in all texts of a value but the names of members. -/
def fillJson (subjects : Subjects) : Json → Json
  | .str s => .str (fill subjects s)
  | .arr xs => .arr (fillItems subjects xs)
  | .obj ms => .obj (fillMembers subjects ms)
  | x => x

def fillItems (subjects : Subjects) : List Json → List Json
  | [] => []
  | x :: rest => fillJson subjects x :: fillItems subjects rest

def fillMembers (subjects : Subjects) : List (String × Json) → List (String × Json)
  | [] => []
  | (k, x) :: rest => (k, fillJson subjects x) :: fillMembers subjects rest
end

end Patchwork.Script
