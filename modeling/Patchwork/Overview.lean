import Patchwork.Registry

/-!
# Overview of a gateway

What a gateway offers: its methods in the order of their names, and the types with relations in the
order in which the first one of each was registered. The single items have JSON forms.
-/

namespace Patchwork

def EntryPoint.toJson (e : EntryPoint) : Json :=
  .object [("name", .str e.name), ("full_name", .str e.method.fullName),
    ("timeout_ns", (e.timeout.map fun t => Json.str (Nat.repr t)).getD .null),
    ("streaming", .bool e.method.info.serverStreaming), ("side_effect_free", .bool e.method.isSafe)]

/-- The full name of the field that holds a relation's value. -/
def Relation.valueName (r : Relation) : String :=
  match RelationShape.messageOf? r.method.output r.values with
  | some result => result.name ++ "." ++ r.field.name
  | none => r.field.name

def Relation.toJson (r : Relation) : Json :=
  .object [("name", .str r.name), ("base", .str r.base.name), ("method", .str r.method.fullName),
    ("field", .str r.valueName), ("params", (r.params.map fun t => Json.str t.name).getD .null)]

namespace Gateway

/-- The types that relations extend. -/
def bases (g : Gateway) : List String := (g.relations.map (·.base.name)).eraseDups

def sortedEntryPoints (g : Gateway) : List EntryPoint :=
  g.entryPoints.mergeSort fun a b => !(b.name < a.name)

end Gateway
end Patchwork
