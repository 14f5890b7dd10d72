import Patchwork.Proto.Scalar

/-!
# Type descriptions

A pool holds the messages, enums and services of a set of files, by full name. Types refer to one
another by name, so a recursive type needs no special care; a name that the pool does not hold is
taken for an empty type of that name.
-/

namespace Patchwork.Proto

/-- What a field holds once, or in each element or map value. -/
inductive Kind where
  | scalar (k : ScalarKind)
  | enum (name : String)
  | message (name : String)
  deriving DecidableEq, Repr

inductive Arity where
  /-- One value; `tracked` when set and unset differ even for the default value. -/
  | single (tracked : Bool)
  | list (packed : Bool)
  /-- One value for each key; `tracked` when entries are written with their defaults. -/
  | map (key : ScalarKind) (tracked : Bool)
  deriving DecidableEq, Repr

structure Field where
  name : String
  jsonName : String
  number : Nat
  kind : Kind
  arity : Arity
  oneof : Option String := none
  /-- What an unset scalar field reads as. -/
  fallback : Scalar := .bool false
  deriving DecidableEq, Repr

def Field.isList (f : Field) : Bool := f.arity matches .list _

def Field.isMap (f : Field) : Bool := f.arity matches .map ..

structure MessageInfo where
  name : String
  /-- In ascending order of their numbers. -/
  fields : List Field
  deriving DecidableEq, Repr

structure EnumInfo where
  name : String
  values : List (String × Int32)
  deriving DecidableEq, Repr

structure MethodInfo where
  name : String
  input : String
  output : String
  clientStreaming : Bool := false
  serverStreaming : Bool := false
  /-- The declared idempotency level: 1 promises no side effects, 2 that repeating is harmless. -/
  idempotency : Option Nat := none
  deriving DecidableEq, Repr

structure ServiceInfo where
  name : String
  methods : List MethodInfo
  deriving DecidableEq, Repr

structure Pool where
  /-- Tells pools apart: types of one name in two pools are two types. -/
  tag : Nat := 0
  messages : List MessageInfo := []
  enums : List EnumInfo := []
  services : List ServiceInfo := []
  deriving DecidableEq, Inhabited, Repr

/-- A message type together with the pool that its fields' types are found in. -/
structure MessageType where
  pool : Pool
  info : MessageInfo
  deriving DecidableEq, Repr

structure Service where
  pool : Pool
  info : ServiceInfo
  deriving Repr

structure Method where
  pool : Pool
  service : String
  info : MethodInfo
  deriving DecidableEq, Repr

/-- A name without the dot that says in front of it that it is a full name. -/
def fullName (name : String) : String :=
  if name.startsWith "." then (name.drop 1).toString else name

namespace Pool

def message? (p : Pool) (name : String) : Option MessageType :=
  (p.messages.find? (·.name == name)).map (⟨p, ·⟩)

def message (p : Pool) (name : String) : MessageType := (p.message? name).getD ⟨p, ⟨name, []⟩⟩

def enum (p : Pool) (name : String) : EnumInfo :=
  (p.enums.find? (·.name == name)).getD ⟨name, []⟩

def service? (p : Pool) (name : String) : Option Service :=
  (p.services.find? (·.name == name)).map (⟨p, ·⟩)

/-- The message of a name that may have a dot in front. -/
def messageNamed? (p : Pool) (name : String) : Option MessageType := p.message? (fullName name)

/-- The service of a name that may have a dot in front. -/
def serviceNamed? (p : Pool) (name : String) : Option Service := p.service? (fullName name)

end Pool

def EnumInfo.name? (e : EnumInfo) (number : Int32) : Option String :=
  (e.values.find? (·.2 == number)).map (·.1)

def EnumInfo.number? (e : EnumInfo) (name : String) : Option Int32 := e.values.lookup name

namespace MessageType

def name (t : MessageType) : String := t.info.name

def fields (t : MessageType) : List Field := t.info.fields

def field? (t : MessageType) (name : String) : Option Field := t.fields.find? (·.name == name)

def fieldAt? (t : MessageType) (number : Nat) : Option Field := t.fields.find? (·.number == number)

/-- The field of a JSON name or, failing that, of a plain name. -/
def fieldOfJson? (t : MessageType) (name : String) : Option Field :=
  t.fields.find? (·.jsonName == name) <|> t.field? name

/-- Whether two types are one and the same. -/
def same (a b : MessageType) : Bool := a.pool.tag == b.pool.tag && a.name == b.name

end MessageType

namespace Service

def name (s : Service) : String := s.info.name

def methods (s : Service) : List Method := s.info.methods.map fun m => ⟨s.pool, s.info.name, m⟩

def method? (s : Service) (name : String) : Option Method :=
  s.methods.find? (·.info.name == name)

end Service

namespace Method

def name (m : Method) : String := m.info.name

def fullName (m : Method) : String := m.service ++ "." ++ m.info.name

def input (m : Method) : MessageType := m.pool.message m.info.input

def output (m : Method) : MessageType := m.pool.message m.info.output

def isUnary (m : Method) : Bool := !m.info.clientStreaming && !m.info.serverStreaming

/-- Whether the method is declared free of side effects. -/
def isSafe (m : Method) : Bool := m.info.idempotency == some 1

end Method
end Patchwork.Proto
