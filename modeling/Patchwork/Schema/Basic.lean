import Patchwork.Request
import Patchwork.Schema.Catalog

/-!
# Schemas

The shape of one response: a message type narrowed to what a mask selects. A client gets it along
with the first body, so that it can read the narrowed values.
-/

namespace Patchwork
open Proto

/-- Params of one selection. Selections are numbered, so that params that are equal but were given
at two places stay apart. -/
structure Params where
  selection : Nat
  message : Message

/-- What is known of a selected field besides its shape. -/
structure Selection where
  name : String
  /-- The JSON name, empty when it is the name. -/
  jsonName : String
  container : Container
  relation : Option Relation := none
  params : Option Params := none
  /-- The names that lead to the field, from the method on, with points between them. -/
  path : String
  onError : Option ErrorPolicy := none
  /-- The operations that lead to the field's value. -/
  operations : List String

mutual
/-- The shape of what a field holds. -/
inductive Shape where
  | scalar (s : ScalarType)
  | message (name : String) (fields : List Selected)

inductive Selected where
  | mk (info : Selection) (shape : Shape)
end

/-- A message type as far as it is selected. -/
structure Schema where
  name : String
  fields : List Selected

instance : Inhabited Shape := ⟨.scalar .null⟩

namespace Selected

def info : Selected → Selection
  | mk i _ => i

def shape : Selected → Shape
  | mk _ s => s

def name (s : Selected) : String := s.info.name

@[simp] theorem info_mk (i : Selection) (s : Shape) : (mk i s).info = i := rfl
@[simp] theorem shape_mk (i : Selection) (s : Shape) : (mk i s).shape = s := rfl

end Selected

/-- The field of a name, the last one if it was selected repeatedly. -/
def Schema.field? (s : Schema) (name : String) : Option Selected :=
  s.fields.reverse.find? (·.name == name)

/-! ## Depth in relations -/

mutual
/-- The most relations that lie one inside the other in a shape. -/
def Shape.relationDepth : Shape → Nat
  | .scalar _ => 0
  | .message _ fields => fieldsDepth fields

def fieldsDepth : List Selected → Nat
  | [] => 0
  | f :: rest => max f.relationDepth (fieldsDepth rest)

/-- The same for a field, itself included. -/
def Selected.relationDepth : Selected → Nat
  | .mk info shape => (if info.relation.isSome then 1 else 0) + shape.relationDepth
end

/-! ## JSON form -/

/-- The JSON form of a type, wrapped by its container. -/
def Container.toJson (element : Json) : Container → Json
  | one => element
  | list => .object [("repeated", .object [("element", element)])]
  | map key => .object [("map", .object [("key", .str key.name), ("value", element)])]

mutual
def Shape.toJson : Shape → Json
  | .scalar s => .object [("scalar", .str s.name)]
  | .message name fields =>
    .object [("message", .object [("name", .str name), ("fields", .arr (fieldsToJson fields))])]

def fieldsToJson : List Selected → List Json
  | [] => []
  | f :: rest => f.toJson :: fieldsToJson rest

def Selected.toJson : Selected → Json
  | .mk info shape =>
    .object ([("name", .str info.name), ("type", info.container.toJson shape.toJson)]
      ++ if info.jsonName.isEmpty then [] else [("jsonName", .str info.jsonName)])
end

def Schema.toJson (s : Schema) : Json :=
  .object [("name", .str s.name), ("fields", .arr (fieldsToJson s.fields))]

end Patchwork
