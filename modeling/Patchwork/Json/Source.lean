import Patchwork.Json.Number

/-!
# JSON as written

What a JSON text holds before it is given a meaning: members in order and with repetitions,
numbers by their digits, and texts that may turn out unreadable. A reader that skips a value
needs no more than this; one that wants it asks for `toJson?`, which fixes how deep arrays and
objects may nest.
-/

namespace Patchwork.Json

inductive Source where
  | null
  | bool (b : Bool)
  | num (x : Numeral)
  /-- A text, or none when its escapes or bytes spell no text. -/
  | str (s : Option String)
  | arr (items : List Source)
  | obj (members : List (Option String × Source))
  deriving Inhabited

/-- Arrays and objects may be nested this deep. -/
def maxDepth : Nat := 127

namespace Source

mutual
/-- The value of a source, with `room` levels of nesting left. -/
def toJson? (room : Nat) : Source → Option Json
  | .null => some .null
  | .bool b => some (.bool b)
  | .num x => x.value?
  | .str s => s.map .str
  | .arr items => if room = 0 then none else (itemsToJson? (room - 1) items).map .arr
  | .obj members => if room = 0 then none else (membersToJson? (room - 1) members).map .object

def itemsToJson? (room : Nat) : List Source → Option (List Json)
  | [] => some []
  | x :: rest => do return (← x.toJson? room) :: (← itemsToJson? room rest)

def membersToJson? (room : Nat) : List (Option String × Source) → Option (List (String × Json))
  | [] => some []
  | (k, x) :: rest => do return (← k, ← x.toJson? room) :: (← membersToJson? room rest)
end

def isNull : Source → Bool
  | .null => true
  | _ => false

/-- The member `name` of an object, the last one if there are several. -/
def get? (name : String) : Source → Option Source
  | .obj members => members.reverse.lookup (some name)
  | _ => none

end Source
end Patchwork.Json
