import Patchwork.Failure
import Patchwork.Proto.Reader

/-!
# Relations

A relation is a field that a type does not have itself: its value is computed by a method from a
list of objects of the type, the bases. The method takes the bases, and perhaps params besides, and
returns one result for each base, whose only field is the value.
-/

namespace Patchwork
open Proto

/-- A connection to a downstream server, by its address. -/
structure Transport where
  address : String
  deriving DecidableEq, Repr

/-- What computes the values of a relation. -/
inductive Resolver where
  /-- A call to the relation's method. -/
  | method (transport : Transport) (timeout : Option Nat)
  /-- Code of the gateway's owner, by name. -/
  | custom (name : String)
  deriving DecidableEq, Repr

/-- The parts that a method needs to serve as a relation. -/
structure RelationShape where
  base : MessageType
  /-- The list of bases in the method's input. -/
  bases : Field
  /-- The list of results in the method's output. -/
  values : Field
  /-- The one field of a result. -/
  field : Field
  /-- The input type, if it has fields other than the bases. -/
  params : Option MessageType

structure Relation extends RelationShape where
  name : String
  method : Method
  resolver : Resolver

namespace RelationShape

def basesName : String := "bases"

def valuesName : String := "values"

/-- The list `name` that has to be the field 1 of a type. -/
def firstList? (t : MessageType) (name : String) : Option Field :=
  (t.fieldAt? 1).filter fun f => f.name == name && f.isList

/-- The message type of a field. -/
def messageOf? (t : MessageType) (f : Field) : Option MessageType :=
  match f.kind with
  | .message name => some (t.pool.message name)
  | _ => none

def orMisconfigured (cause : Misconfigured) : Option α → Outcome α
  | some x => .ok x
  | none => .error (.config cause)

/-- The only field of a result, which has to be named after the relation and have the number 1. -/
def onlyField? (result : MessageType) (name : String) : Option Field :=
  match result.fields with
  | [f] => if f.number = 1 ∧ f.name = name then some f else none
  | _ => none

/-- The shape of a method that is to serve as the relation `name`. -/
def ofMethod (m : Method) (name : String) : Outcome RelationShape := do
  if !m.isUnary then throw (.config (.notUnary m.fullName))
  let bases ← orMisconfigured (.noBases m.fullName) (firstList? m.input basesName)
  let base ← orMisconfigured (.plainBases m.fullName) (messageOf? m.input bases)
  let values ← orMisconfigured (.noValues m.fullName) (firstList? m.output valuesName)
  let result ← orMisconfigured (.plainValues m.fullName) (messageOf? m.output values)
  let field ← orMisconfigured (.wrongResult m.fullName result.name name) (onlyField? result name)
  return { base, bases, values, field,
           params := if m.input.fields.any (·.number != 1) then some m.input else none }

end RelationShape

namespace Relation

/-- The relation `name` that a method computes. -/
def ofMethod (m : Method) (name : String) (resolver : Resolver) : Outcome Relation := do
  return { ← RelationShape.ofMethod m name with name, method := m, resolver }

/-- A gateway holds one relation of a name for each base type. -/
def same (r s : Relation) : Bool := r.base.name == s.base.name && r.name == s.name

/-- Reads params, which may hold anything but bases. -/
def readParams (r : Relation) (json : Json) : Except ParamsError Message :=
  match r.params with
  | none => .error (.notTaken r.name)
  | some t => match readMessage t json with
    | .error e => .error (.unreadable e)
    | .ok m => if m.has r.bases then .error .basesGiven else .ok m

/-- The type of the elements of the list of bases. -/
def basesType (r : Relation) : MessageType :=
  (RelationShape.messageOf? r.method.input r.bases).getD r.base

/-- The message that asks for the values of the given bases. -/
def request (r : Relation) (bases : List Message) (params : Option Message) : Outcome Message := do
  let converted ← bases.mapM fun b => match b.convert? r.basesType with
    | some b => .ok (Value.message b)
    | none => .error (.internal (.unconvertible r.basesType.name))
  return (params.getD (.empty r.method.input)).set r.bases (.list converted)

/-- The value in one result, none if it is a single value that is unset. -/
def valueOf? (r : Relation) : Value → Outcome (Option Value)
  | .message m => .ok (m.value? r.field)
  | _ => .error (.internal (.notValues r.method.fullName))

/-- The values in a reply, in order. -/
def valuesOf (r : Relation) (reply : Message) : Outcome (List (Option Value)) :=
  match reply.get r.values with
  | .list results => results.mapM r.valueOf?
  | _ => .error (.internal (.notValues r.method.fullName))

end Relation
end Patchwork
