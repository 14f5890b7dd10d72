import Patchwork.Proto.Message

/-!
# Files of type declarations

What a file declares, with nested types inside the messages that hold them, as it is written: the
name of a type is relative to the place where it stands or has a dot in front, and nothing is said
yet about whether the declarations fit together.
-/

namespace Patchwork.Proto

/-- The dialect that a file is written in. -/
inductive Dialect where
  | proto2 | proto3
  | unknown (name : String)
  deriving DecidableEq, Repr

/-- The type of a field. What a name stands for is settled by the type of that name. -/
inductive TypeRef where
  | scalar (k : ScalarKind)
  | enum (name : String)
  | message (name : String)
  deriving DecidableEq, Repr

inductive Label where
  | optional | required | repeated
  deriving DecidableEq, Repr

/-- The numbers from `low` to `high`. -/
structure NumberRange where
  low : Int
  high : Int
  deriving DecidableEq, Repr

def NumberRange.contains (r : NumberRange) (n : Int) : Bool := r.low ≤ n && n ≤ r.high

structure FieldDecl where
  name : String
  number : Nat
  type : TypeRef
  label : Label := .optional
  /-- The place of the field's oneof among those of the message. -/
  oneof : Option Int := none
  jsonName : Option String := none
  fallback : Option String := none
  packed : Option Bool := none
  deriving DecidableEq, Repr

/-- A field that is added to a message from elsewhere. -/
structure ExtensionDecl where
  extendee : String
  field : FieldDecl
  deriving DecidableEq, Repr

structure EnumDecl where
  name : String
  values : List (String × Int32)
  /-- Whether values may share a number. -/
  aliases : Bool := false
  reserved : List NumberRange := []
  deriving DecidableEq, Repr

/-- What a message declares, the messages inside it apart. -/
structure MessageBody where
  name : String
  fields : List FieldDecl := []
  oneofs : List String := []
  enums : List EnumDecl := []
  extensions : List ExtensionDecl := []
  /-- The numbers that are left to extensions. -/
  extensible : List NumberRange := []
  reserved : List NumberRange := []
  /-- Whether the message stands for the entries of a map. -/
  mapEntry : Bool := false
  deriving DecidableEq, Repr

inductive MessageDecl where
  | mk (body : MessageBody) (nested : List MessageDecl)

/-- A step on the path to an option: a field by its name, or an extension by its own. -/
inductive OptionStep where
  | field (name : String)
  | extension (name : String)
  deriving DecidableEq, Repr

/-- An option that is set by name. Its value is a word, a number or a text. -/
structure OptionDecl where
  path : List OptionStep
  word : Option String := none
  natural : Option Nat := none
  negative : Option Int := none
  /-- The bits of a number with a fraction. -/
  double : Option UInt64 := none
  text : Option (List UInt8) := none
  deriving DecidableEq, Repr

/-- The options of a declaration. -/
structure OptionSet where
  /-- The full name of the declaration; for a file, its package. -/
  owner : String
  /-- The options that are set by number. -/
  message : Message
  named : List OptionDecl := []

structure File where
  name : String
  package : String
  dialect : Dialect := .proto3
  /-- The names of the files whose declarations are used. -/
  imports : List String := []
  /-- Which of the imports are passed on to those who import the file. -/
  publicImports : List Int := []
  weakImports : List Int := []
  messages : List MessageDecl := []
  enums : List EnumDecl := []
  services : List ServiceInfo := []
  extensions : List ExtensionDecl := []
  /-- The options of all declarations of the file. -/
  options : List OptionSet := []

/-- A name inside a scope. -/
def qualify (scope name : String) : String := if scope.isEmpty then name else scope ++ "." ++ name

/-- The name without underscores, the letter after each one in upper case. -/
def camelName (name : String) : String := String.ofList (go false name.toList)
where
  go (raise : Bool) : List Char → List Char
    | [] => []
    | '_' :: rest => go true rest
    | c :: rest => (if raise then c.toUpper else c) :: go false rest

/-- A message under its full name. -/
structure Declared where
  name : String
  body : MessageBody

mutual
/-- A message and those inside it. -/
def MessageDecl.flatten (scope : String) : MessageDecl → List Declared
  | .mk body nested =>
    let name := qualify scope body.name
    ⟨name, body⟩ :: flattenAll name nested

def flattenAll (scope : String) : List MessageDecl → List Declared
  | [] => []
  | m :: rest => m.flatten scope ++ flattenAll scope rest
end

namespace File

/-- All messages of a file. -/
def allMessages (f : File) : List Declared := flattenAll f.package f.messages

/-- All enums of a file, each with the scope that it and its values belong to. -/
def allEnums (f : File) : List (String × EnumDecl) :=
  f.enums.map (f.package, ·) ++ f.allMessages.flatMap fun d => d.body.enums.map (d.name, ·)

/-- All extensions of a file, each with the scope that it is declared in. -/
def allExtensions (f : File) : List (String × ExtensionDecl) :=
  f.extensions.map (f.package, ·) ++ f.allMessages.flatMap fun d => d.body.extensions.map (d.name, ·)

end File

end Patchwork.Proto
