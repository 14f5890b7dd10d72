import Patchwork.Json.Source

/-!
# Records in JSON

A record is an object whose members may come in any order or an array of their values by position,
trailing ones left out. A member of the record may not be repeated; members of other names are
passed over, unless the record is closed.
-/

namespace Patchwork.Json

/-- How the members of a record are read. -/
structure RecordForm where
  names : List String
  /-- Whether members of other names are refused. -/
  closed : Bool := false

namespace RecordForm

/-- The sources of the members of a name, if all names can be read. -/
def membersOf (name : String) (members : List (Option String × Source)) : List Source :=
  members.filterMap fun (n, x) => if n = some name then some x else none

def ofMembers? (form : RecordForm) (members : List (Option String × Source)) :
    Option (List (Option Source)) :=
  if members.any (·.1.isNone) then none
  else if form.closed ∧ members.any (fun m => m.1.any fun n => !form.names.contains n) then none
  else form.names.mapM fun name =>
    match membersOf name members with
    | [] => some none
    | [x] => some (some x)
    | _ => none

/-- The members of a record, by position in the form. -/
def open? (form : RecordForm) : Source → Option (List (Option Source))
  | .obj members => form.ofMembers? members
  | .arr items =>
    if form.names.length < items.length then none
    else some (items.map some ++ List.replicate (form.names.length - items.length) none)
  | _ => none

end RecordForm

namespace Source

/-- A member that may be absent or null. -/
def optional? (read : Source → Option α) : Option Source → Option (Option α)
  | none => some none
  | some .null => some none
  | some x => (read x).map some

/-- A member that may be absent. -/
def withDefault? (fallback : α) (read : Source → Option α) : Option Source → Option α
  | none => some fallback
  | some x => read x

def string? : Source → Option String
  | .str s => s
  | _ => none

/-- An array, `room` levels of nesting being left for it and its items. -/
def list? (read : Nat → Source → Option α) (room : Nat) : Source → Option (List α)
  | .arr items => match room with
    | 0 => none
    | room + 1 => items.mapM (read room)
  | _ => none

end Source

end Patchwork.Json
