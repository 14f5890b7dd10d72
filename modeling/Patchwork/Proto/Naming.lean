import Patchwork.Proto.File

/-!
# Names of declarations

All declarations share one space of names, packages included, in which a package alone may occur
again. A name that is used is looked for from the place of use outwards: the scope that has its
first part decides, whether it has the rest or not.
-/

namespace Patchwork.Proto

/-- What a name stands for. -/
inductive Meaning where
  | message | enum | service | extension
  /-- A field, a oneof, an enum value or a method. -/
  | member
  deriving DecidableEq, Repr

/-- Whether there may be names inside a name of the meaning. -/
def Meaning.isOpen : Meaning → Bool
  | .message | .enum | .service => true
  | .extension | .member => false

structure Definition where
  name : String
  meaning : Meaning
  /-- The name of the file that it is in. -/
  file : String
  deriving DecidableEq, Repr

/-- The scopes from the outermost to `scope` itself, the one without a name apart. -/
def scopesOf (scope : String) : List String :=
  let parts := scope.splitOn "."
  (List.range parts.length).map fun n => ".".intercalate (parts.take (n + 1))

/-- The scopes from `scope` to the one without a name. -/
def outwards (scope : String) : List String :=
  if scope.isEmpty then [""] else (scopesOf scope).reverse ++ [""]

namespace File

def packages (f : File) : List String := if f.package.isEmpty then [] else scopesOf f.package

/-- What a file declares. Enum values stand beside their enum. -/
def definitions (f : File) : List Definition :=
  let within (scope : String) (m : Meaning) (name : String) : Definition :=
    ⟨qualify scope name, m, f.name⟩
  f.allMessages.flatMap (fun d =>
      within "" .message d.name ::
        (d.body.fields.map (·.name) ++ d.body.oneofs).map (within d.name .member))
    ++ f.allEnums.flatMap (fun (scope, e) =>
      within scope .enum e.name :: e.values.map fun (value, _) => within scope .member value)
    ++ f.services.flatMap (fun s =>
      within f.package .service s.name ::
        s.methods.map fun m => within (qualify f.package s.name) .member m.name)
    ++ f.allExtensions.map fun (scope, e) => within scope .extension e.field.name

end File

/-- The names of a list of files. -/
structure Names where
  packages : List String
  definitions : List Definition

def Names.ofFiles (files : List File) : Names :=
  ⟨files.flatMap File.packages, files.flatMap File.definitions⟩

/-- The first name that occurs again later. -/
def repeated? : List String → Option String
  | [] => none
  | x :: rest => if rest.contains x then some x else repeated? rest

/-- A name with two meanings. -/
def Names.clash? (n : Names) : Option String :=
  let names := n.definitions.map (·.name)
  repeated? names <|> names.find? n.packages.contains

/-- A place from which names are looked up. -/
structure Scope where
  names : Names
  /-- The files whose declarations can be seen. -/
  visible : List String
  name : String

namespace Scope

def find? (s : Scope) (name : String) : Option Definition :=
  s.names.definitions.find? fun d => d.name == name && s.visible.contains d.file

/-- Whether there may be names inside a name. -/
def isOpen (s : Scope) (name : String) : Bool :=
  s.names.packages.contains name || (s.find? name).any (·.meaning.isOpen)

/-- The definition that a name refers to, if it has one of the meanings asked for. -/
def resolve? (s : Scope) (accepts : Meaning → Bool) (name : String) : Option Definition :=
  let find (full : String) := (s.find? full).filter fun d => accepts d.meaning
  if name.startsWith "." then find (fullName name)
  else match name.splitOn "." with
    | [] | [""] => none
    | [_] => (outwards s.name).findSome? fun scope => find (qualify scope name)
    | first :: _ => do
      let scope ← (outwards s.name).find? fun scope => s.isOpen (qualify scope first)
      find (qualify scope name)

/-- The full name of a message that a name refers to. -/
def message? (s : Scope) (name : String) : Option String :=
  (s.resolve? (· == .message) name).map (·.name)

/-- The full name of an extension that a name refers to. -/
def extension? (s : Scope) (name : String) : Option String :=
  (s.resolve? (· == .extension) name).map (·.name)

/-- The message or enum that a name refers to. -/
def type? (s : Scope) (name : String) : Option Kind :=
  (s.resolve? (fun m => m == .message || m == .enum) name).map fun d =>
    if d.meaning == .enum then .enum d.name else .message d.name

end Scope
end Patchwork.Proto
