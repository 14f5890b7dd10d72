import Patchwork.Json.Value

/-!
# Documents

The body of a response under construction: a row of slots, each of which is open, filled with a
tree whose leaves may name other slots, or failed. A failed slot stays failed, whatever is filled
in later. Rendering reads each slot once and leaves open slots out.
-/

namespace Patchwork

/-- A part of a body. -/
inductive Node where
  | value (j : Json)
  | object (members : List (String × Node))
  | list (items : List Node)
  /-- The content of a slot. -/
  | slot (n : Nat)
  deriving Inhabited

inductive Slot where
  | pending
  | filled (content : Node)
  | failed (error : Json)

structure Document where
  slots : List Slot := []

namespace Document

def size (d : Document) : Nat := d.slots.length

def slot? (d : Document) (n : Nat) : Option Slot := d.slots[n]?

/-- Adds open slots up to a size. -/
def grow (d : Document) (size : Nat) : Document :=
  ⟨d.slots ++ List.replicate (size - d.size) .pending⟩

/-- Adds an open slot. -/
def reserve (d : Document) : Nat × Document := (d.size, d.grow (d.size + 1))

def isFailed (d : Document) (n : Nat) : Bool := d.slot? n matches some (.failed _)

def fill (d : Document) (n : Nat) (content : Node) : Document :=
  if d.isFailed n then d else ⟨d.slots.set n (.filled content)⟩

def fail (d : Document) (n : Nat) (error : Json) : Document := ⟨d.slots.set n (.failed error)⟩

def openSlot (d : Document) (n : Nat) : Document := ⟨d.slots.set n .pending⟩

/-! ## Rendering -/

section

variable (take : Nat → Document → Option Json × Document)

mutual
def renderNode (d : Document) : Node → Option Json × Document
  | .value j => (some j, d)
  | .slot n => take n d
  | .object members =>
    let (ms, d) := renderMembers d members
    (some (.object ms), d)
  | .list items =>
    let (xs, d) := renderItems d items
    (some (.arr xs), d)

/-- Members without a value are left out. -/
def renderMembers (d : Document) : List (String × Node) → List (String × Json) × Document
  | [] => ([], d)
  | (name, x) :: rest =>
    let (j, d) := renderNode d x
    let (ms, d) := renderMembers d rest
    ((j.toList.map (name, ·)) ++ ms, d)

/-- Items without a value are null. -/
def renderItems (d : Document) : List Node → List Json × Document
  | [] => ([], d)
  | x :: rest =>
    let (j, d) := renderNode d x
    let (xs, d) := renderItems d rest
    (j.getD .null :: xs, d)
end

end

/-- Takes the content out of a slot and renders it, at most `depth` slots deep. -/
def take : Nat → Nat → Document → Option Json × Document
  | 0, _, d => (none, d)
  | depth + 1, n, d =>
    match d.slot? n with
    | some (.filled content) => renderNode (take depth) (d.openSlot n) content
    | some (.failed error) => (some error, d.openSlot n)
    | _ => (none, d)

/-- The value of a slot, null when it is open. No chain of slots is longer than their number. -/
def toJson (d : Document) (root : Nat) : Json := ((take (d.size + 1) root d).1).getD .null

end Document
end Patchwork
