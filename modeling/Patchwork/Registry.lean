import Patchwork.HeaderPolicy
import Patchwork.Relation

/-!
# Registry

The methods that clients can call, the relations that extend the types of their results, and the
steps by which both are registered. A step is refused as a whole when one of its methods is.
-/

namespace Patchwork
open Proto

/-- A method that clients can call. -/
structure EntryPoint where
  method : Method
  transport : Transport
  timeout : Option Nat

def EntryPoint.name (e : EntryPoint) : String := e.method.fullName

structure Gateway where
  entryPoints : List EntryPoint := []
  /-- In order of registration. -/
  relations : List Relation := []
  policy : HeaderPolicy := {}
  metrics : Bool := false

namespace Gateway

def entryPoint? (g : Gateway) (method : String) : Option EntryPoint :=
  g.entryPoints.find? (·.name == method)

end Gateway

/-- The relations that extend the type of a name. -/
def relationsOf (relations : List Relation) (base : String) : List Relation :=
  relations.filter (·.base.name == base)

def Gateway.relation? (g : Gateway) (base name : String) : Option Relation :=
  (relationsOf g.relations base).find? (·.name == name)

/-- What is set for one service. -/
structure ServiceOptions where
  transport : Option Transport := none
  /-- The names of the methods to be registered, all of them if absent. -/
  methods : Option (List String) := none
  timeout : Option Nat := none

/-- What is set for one method that serves as a relation. -/
structure RelationOptions where
  name : String
  transport : Option Transport := none
  timeout : Option Nat := none

/-- A gateway under construction, with the defaults for what is registered next. -/
structure Builder extends Gateway where
  transport : Option Transport := none
  timeout : Option Nat := none

namespace Builder

def withTransport (b : Builder) (t : Transport) : Builder := { b with transport := some t }

def withTimeout (b : Builder) (timeout : Nat) : Builder := { b with timeout := some timeout }

def withPolicy (b : Builder) (p : HeaderPolicy) : Builder := { b with policy := p }

def enableMetrics (b : Builder) : Builder := { b with metrics := true }

def transportFor (b : Builder) (explicit : Option Transport) (user : String) : Outcome Transport :=
  match explicit <|> b.transport with
  | some t => .ok t
  | none => .error (.config (.noTransport user))

/-- Adds a method, whose name may not be taken. -/
def addEntryPoint (b : Builder) (e : EntryPoint) : Outcome Builder :=
  if (b.entryPoint? e.name).isSome then .error (.config (.methodTaken e.name))
  else .ok { b with entryPoints := b.entryPoints ++ [e] }

/-- The first of the names that no method of a service has. -/
def missingMethod? (s : Service) (names : List String) : Option String :=
  names.find? fun n => (s.method? n).isNone

/-- The methods of a service that become entry points: those asked for, without those that take a
stream. -/
def servedMethods (s : Service) (names : Option (List String)) : List Method :=
  s.methods.filter fun m => names.all (·.contains m.name) && !m.info.clientStreaming

def registerService (b : Builder) (s : Service) (options : ServiceOptions) : Outcome Builder := do
  let transport ← b.transportFor options.transport s.name
  let timeout := options.timeout <|> b.timeout
  if let some name := missingMethod? s (options.methods.getD []) then
    throw (.config (.noMethod name s.name))
  (servedMethods s options.methods).foldlM (fun b m => b.addEntryPoint ⟨m, transport, timeout⟩) b

/-- Adds a relation, which may be named neither like a field of its base nor like another relation
of it. -/
def addRelation (b : Builder) (r : Relation) : Outcome Builder :=
  if (r.base.field? r.name).isSome then
    .error (.config (.collision r.method.fullName r.base.name r.name))
  else if (b.relation? r.base.name r.name).isSome then
    .error (.config (.relationTaken r.base.name r.name))
  else .ok { b with relations := b.relations ++ [r] }

def registerRelation (b : Builder) (s : Service) (method : String) (options : RelationOptions) :
    Outcome Builder := do
  match s.method? method with
  | none => throw (.config (.noMethod method s.name))
  | some m =>
    let transport ← b.transportFor options.transport m.fullName
    let timeout := options.timeout <|> b.timeout
    b.addRelation (← Relation.ofMethod m options.name (.method transport timeout))

def registerRelations (b : Builder) (s : Service) (relations : List (String × RelationOptions)) :
    Outcome Builder :=
  relations.foldlM (fun b (method, options) => b.registerRelation s method options) b

/-- The finished gateway, which has to serve something. -/
def build (b : Builder) : Outcome Gateway :=
  if b.entryPoints.isEmpty then .error (.config .noMethods) else .ok b.toGateway

end Builder
end Patchwork
