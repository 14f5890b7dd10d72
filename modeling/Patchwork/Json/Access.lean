import Patchwork.Json.Value

/-!
# Access by name

Loose access to the parts of a value: a member that is absent or null is none, and something of
another kind than asked for is none or empty.
-/

namespace Patchwork.Json

/-- The member `name`, unless it is null. -/
def member? (name : String) (x : Json) : Option Json :=
  match x.get? name with
  | some .null => none
  | r => r

def string? : Json → Option String
  | .str s => some s
  | _ => none

def integer? : Json → Option Int
  | .int n => some n
  | _ => none

def items : Json → List Json
  | .arr xs => xs
  | _ => []

def members : Json → List (String × Json)
  | .obj ms => ms
  | _ => []

def memberOrNull (name : String) (x : Json) : Json := (x.member? name).getD .null

def text? (name : String) (x : Json) : Option String := (x.member? name).bind string?

def text (name : String) (x : Json) : String := (x.text? name).getD ""

def int? (name : String) (x : Json) : Option Int := (x.member? name).bind integer?

def nat? (name : String) (x : Json) : Option Nat := (x.int? name).map Int.toNat

def flag (name : String) (x : Json) : Bool := x.member? name == some (.bool true)

def itemsAt (name : String) (x : Json) : List Json := (x.memberOrNull name).items

def membersAt (name : String) (x : Json) : List (String × Json) := (x.memberOrNull name).members

/-- The texts among the items of an array. -/
def texts (x : Json) : List String := x.items.filterMap string?

def texts? (name : String) (x : Json) : Option (List String) := (x.member? name).map texts

def textsAt (name : String) (x : Json) : List String := (x.memberOrNull name).texts

end Patchwork.Json
