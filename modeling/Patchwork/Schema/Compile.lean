import Patchwork.Schema.Basic

/-!
# Masks to schemas

A mask is followed through a type, selection by selection. The state is the catalog of the types
met so far and the number of the next selection with params; it remains when a mask is refused.
-/

namespace Patchwork
open Proto

structure Compilation where
  catalog : Catalog := []
  /-- How many selections have params so far. -/
  selections : Nat := 0

/-- A step of compilation, which keeps its state on failure. -/
abbrev Compile := EStateM Failure Compilation

namespace Compile

/-- Where a mask applies. -/
structure Place where
  relations : List Relation
  path : String
  operations : List String

def Place.join (path name : String) : String := path ++ "." ++ name

/-- The place of a field's value. -/
def Place.enter (p : Place) (f : CatalogField) (name : String) : Place where
  relations := p.relations
  path := Place.join p.path name
  operations := match f.relation with
    | some r => p.operations ++ [r.method.fullName]
    | none => p.operations

def describe (relations : List Relation) (t : MessageType) : Compile CatalogType := fun s =>
  let (d, catalog) := s.catalog.describe relations t
  .ok d { s with catalog }

/-- Numbers the params of a selection. -/
def number (m : Message) : Compile Params := fun s =>
  .ok ⟨s.selections, m⟩ { s with selections := s.selections + 1 }

/-- The params of a selected field: none for a field that takes none, whatever was given. -/
def paramsOf (f : CatalogField) (given : Option Json) (path : String) : Compile (Option Params) :=
  match f.relation with
  | none => pure none
  | some r =>
    if r.params.isNone then pure none
    else match given with
      | none => throw (.invalidArgument (.missingParams path))
      | some json => match r.readParams json with
        | .error e => throw (.invalidArgument (.params path e))
        | .ok m => do return some (← number m)

/-- A field of a type by name. -/
def find (c : CatalogType) (name path : String) : Compile CatalogField :=
  match c.field? name with
  | some f => pure f
  | none => throw (.invalidArgument (.noField path))

mutual
/-- What a mask selects of a type. -/
def select (place : Place) (c : CatalogType) : List MaskField → Compile (List Selected)
  | [] => pure []
  | m :: rest => do
    let s ← selectOne place c m
    return s :: (← select place c rest)

def selectOne (place : Place) (c : CatalogType) : MaskField → Compile Selected
  | .mk name given mask onError => do
    let f ← find c name (Place.join place.path name)
    let inner := place.enter f name
    let params ← paramsOf f given inner.path
    let shape ← match f.element with
      | .scalar s => pure (Shape.scalar s)
      | .message t => do
        let d ← describe inner.relations t
        pure (Shape.message d.name (← select inner d mask))
    return .mk { name := f.name, jsonName := f.jsonName, container := f.container,
                 relation := f.relation, params, path := inner.path, onError,
                 operations := inner.operations } shape
end

/-- The schema of a type narrowed to a mask. -/
def schema (t : MessageType) (mask : List MaskField) (place : Place) : Compile Schema := do
  let c ← describe place.relations t
  return ⟨c.name, ← select place c mask⟩

end Compile

/-- Compiles one mask with a catalog of its own. -/
def compileMask (t : MessageType) (mask : List MaskField) (place : Compile.Place) : Outcome Schema :=
  match Compile.schema t mask place {} with
  | .ok s _ => .ok s
  | .error e _ => .error e

end Patchwork
