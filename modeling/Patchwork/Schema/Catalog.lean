import Patchwork.Proto.WellKnown
import Patchwork.Registry

/-!
# Catalog of types

What can be selected of a message type: its own fields and the relations that extend it. A field's
type names the message types inside it without describing them, so that recursive types need no
special care. Each type is described once per request and the description kept.
-/

namespace Patchwork
open Proto

/-- The kinds of scalars that clients tell apart. -/
inductive ScalarType where
  | int32 | uint32 | int64 | uint64 | float | double | bool | string | bytes | enum | null
  deriving DecidableEq, Repr

def ScalarType.name : ScalarType → String
  | int32 => "SCALAR_TYPE_INT32"
  | uint32 => "SCALAR_TYPE_UINT32"
  | int64 => "SCALAR_TYPE_INT64"
  | uint64 => "SCALAR_TYPE_UINT64"
  | float => "SCALAR_TYPE_FLOAT"
  | double => "SCALAR_TYPE_DOUBLE"
  | bool => "SCALAR_TYPE_BOOL"
  | string => "SCALAR_TYPE_STRING"
  | bytes => "SCALAR_TYPE_BYTES"
  | enum => "SCALAR_TYPE_ENUM"
  | null => "SCALAR_TYPE_NULL"

def ScalarType.ofKind : ScalarKind → ScalarType
  | .double => double
  | .float => float
  | .int32 | .sint32 | .sfixed32 => int32
  | .int64 | .sint64 | .sfixed64 => int64
  | .uint32 | .fixed32 => uint32
  | .uint64 | .fixed64 => uint64
  | .bool => bool
  | .string => string
  | .bytes => bytes

/-- How many values a field holds. -/
inductive Container where
  | one
  | list
  | map (key : ScalarType)
  deriving DecidableEq, Repr

def Container.ofArity : Arity → Container
  | .single _ => one
  | .list _ => list
  | .map key _ => map (ScalarType.ofKind key)

/-- What a field holds: a scalar or a message of some type. -/
inductive Element where
  | scalar (s : ScalarType)
  | message (t : MessageType)

def Element.ofKind (pool : Pool) : Kind → Element
  | .scalar k => scalar (.ofKind k)
  | .enum name => scalar (if name = nullValue then .null else .enum)
  | .message name => message (pool.message name)

/-- A field that can be selected. -/
structure CatalogField where
  name : String
  /-- The JSON name, empty when it is the name. -/
  jsonName : String
  container : Container
  element : Element
  relation : Option Relation := none

/-- The JSON name of a field where it says something new. -/
def aliasOf (f : Field) : String := if f.jsonName = f.name then "" else f.jsonName

def CatalogField.ofField (pool : Pool) (f : Field) : CatalogField where
  name := f.name
  jsonName := aliasOf f
  container := .ofArity f.arity
  element := .ofKind pool f.kind

def CatalogField.ofRelation (r : Relation) : CatalogField :=
  { CatalogField.ofField r.method.pool r.field with name := r.name, relation := some r }

structure CatalogType where
  name : String
  fields : List CatalogField

namespace CatalogType

/-- Nothing can be selected of a well-known type. -/
def ofType (relations : List Relation) (t : MessageType) : CatalogType where
  name := t.name
  fields :=
    if isWellKnown t.name then []
    else t.fields.map (CatalogField.ofField t.pool)
      ++ (relationsOf relations t.name).map CatalogField.ofRelation

/-- The field of a name, the last one if there are several. -/
def field? (c : CatalogType) (name : String) : Option CatalogField :=
  c.fields.reverse.find? (·.name == name)

end CatalogType

/-- The types described so far, by name. -/
abbrev Catalog := List CatalogType

namespace Catalog

def type? (c : Catalog) (name : String) : Option CatalogType := c.find? (·.name == name)

/-- The description of a type, kept if it is new. -/
def describe (c : Catalog) (relations : List Relation) (t : MessageType) : CatalogType × Catalog :=
  match c.type? t.name with
  | some d => (d, c)
  | none => (.ofType relations t, c ++ [.ofType relations t])

end Catalog
end Patchwork
