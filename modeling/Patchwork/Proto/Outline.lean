import Patchwork.Json.Access
import Patchwork.Proto.File

/-!
# Outlines of files

Type declarations in short. An outline is an object with the package, the syntax and tables of
messages, enums and services by name; a dotted name stands for a type inside another one. Each
field, enum value and method is one line of words:

* a field is `[label] type name = number [json=NAME] [default=TEXT]`, its type a scalar, a message
  after a point, an enum after `#` or a map;
* an enum value is `NAME=number`;
* a method is `Name input output` and then any of the flags `nse`, `idem`, `cs` and `ss`.
-/

namespace Patchwork.Proto.Outline

def scalarKinds : List (String × ScalarKind) :=
  [("double", .double), ("float", .float), ("int32", .int32), ("int64", .int64),
   ("uint32", .uint32), ("uint64", .uint64), ("sint32", .sint32), ("sint64", .sint64),
   ("fixed32", .fixed32), ("fixed64", .fixed64), ("sfixed32", .sfixed32), ("sfixed64", .sfixed64),
   ("bool", .bool), ("string", .string), ("bytes", .bytes)]

/-- What follows the start of a text. -/
def after? (start text : String) : Option String :=
  if text.startsWith start then some (text.drop start.length).toString else none

def words (text : String) : List String := (text.splitOn " ").filter fun w => !w.isEmpty

def type? (word : String) : Option TypeRef :=
  match after? "." word, after? "#" word with
  | some name, _ => some (.message ("." ++ name))
  | none, some name => some (.enum ("." ++ name))
  | none, none => (scalarKinds.lookup word).map .scalar

/-- The key and value types of a map. -/
def map? (word : String) : Option (TypeRef × TypeRef) := do
  let inner ← after? "map<" word
  match (inner.dropEnd 1).toString.splitOn "," with
  | [key, value] => return (← type? key, ← type? value)
  | _ => none

/-- The name of the entry type of a map field. -/
def entryName (field : String) : String := (camelName field).capitalize ++ "Entry"

def entry (field : String) (key value : TypeRef) : MessageDecl :=
  .mk { name := entryName field, mapEntry := true
        fields := [{ name := "key", number := 1, type := key },
                   { name := "value", number := 2, type := value }] } []

/-- The label at the head of a field's words, and the oneof that the field belongs to. A field that
is optional in a file without optional fields is the only member of a oneof of its own. -/
def label (proto3 : Bool) : List String → Label × (String → Option String) × List String
  | "repeated" :: rest => (.repeated, fun _ => none, rest)
  | "required" :: rest => (.required, fun _ => none, rest)
  | "optional" :: rest => (.optional, fun name => if proto3 then some ("_" ++ name) else none, rest)
  | word :: rest => match after? "oneof:" word with
    | some oneof => (.optional, fun _ => some oneof, rest)
    | none => (.optional, fun _ => none, word :: rest)
  | [] => (.optional, fun _ => none, [])

/-- The value of the option of a name. -/
def option? (name : String) (words : List String) : Option String :=
  words.findSome? (after? (name ++ "="))

/-- A field together with its oneof and, for a map, the type of its entries. -/
structure FieldLine where
  decl : FieldDecl
  oneof : Option String := none
  entry : Option MessageDecl := none

/-- A field of the message `scope`. -/
def field? (proto3 : Bool) (scope text : String) : Option FieldLine := do
  let (label, oneof, rest) := label proto3 (words text)
  match rest with
  | type :: name :: "=" :: number :: options =>
    let number ← number.toNat?
    let jsonName := option? "json" options
    let fallback := option? "default" options
    match map? type with
    | some (key, value) =>
      let type := TypeRef.message ("." ++ qualify scope (entryName name))
      return { decl := { name, number, type, label := .repeated, jsonName }
               entry := some (entry name key value) }
    | none =>
      return { decl := { name, number, type := ← type? type, label, jsonName, fallback }
               oneof := oneof name }
  | _ => none

/-- The declaration of a field whose oneof is one of `oneofs`. -/
def FieldLine.field (l : FieldLine) (oneofs : List String) : FieldDecl :=
  { l.decl with oneof := l.oneof.map fun o => (oneofs.idxOf o : Int) }

def enumValue? (text : String) : Option (String × Int32) :=
  match text.splitOn "=" with
  | [name, number] => do return (name, .ofInt (← number.toInt?))
  | _ => none

def enum? (name : String) (values : List String) : Option EnumDecl :=
  do return { name, values := ← values.mapM enumValue? }

def method? (text : String) : Option MethodInfo :=
  match words text with
  | name :: input :: output :: flags =>
    some { name, input := "." ++ input, output := "." ++ output
           clientStreaming := flags.contains "cs"
           serverStreaming := flags.contains "ss"
           idempotency :=
             if flags.contains "nse" then some 1 else if flags.contains "idem" then some 2 else none }
  | _ => none

/-- Things by name. -/
abbrev Table := List (String × List String)

/-- The things whose names have just one part more than `scope`, by this part and the whole name. -/
def Table.within (table : Table) (scope : String) : List (String × String × List String) :=
  table.filterMap fun (name, lines) => do
    let short ← if scope.isEmpty then some name else after? (scope ++ ".") name
    if short.contains '.' then none else some (short, name, lines)

def enums? (enums : Table) (scope : String) : Option (List EnumDecl) :=
  (enums.within scope).mapM fun (short, _, values) => enum? short values

/-- An outline, taken apart. -/
structure Declarations where
  package : String
  dialect : Dialect := .proto3
  imports : List String := []
  messages : Table := []
  enums : Table := []
  services : Table := []

/-- The messages directly inside a scope, with `depth` levels below it. -/
def messages? (d : Declarations) : Nat → String → Option (List MessageDecl)
  | 0, _ => some []
  | depth + 1, scope => (d.messages.within scope).mapM fun (short, name, lines) => do
    let fields ← lines.mapM (field? (d.dialect == .proto3) (qualify d.package name))
    let oneofs := (fields.filterMap (·.oneof)).eraseDups
    return .mk { name := short, fields := fields.map (·.field oneofs), oneofs
                 enums := ← enums? d.enums name }
      ((← messages? d depth name) ++ fields.filterMap (·.entry))

/-- The file of a name that an outline describes. -/
def Declarations.file? (d : Declarations) (name : String) : Option File := do
  return {
    name, package := d.package, dialect := d.dialect, imports := d.imports
    messages := ← messages? d d.messages.length ""
    enums := ← enums? d.enums ""
    services := ← d.services.mapM fun (service, lines) =>
      do return ⟨service, ← lines.mapM method?⟩ }

def tableOf (name : String) (outline : Json) : Table :=
  (outline.membersAt name).map fun (k, lines) => (k, lines.texts)

/-- The outline of a file that uses the declarations of `imports`. -/
def declarations (imports : List String) (outline : Json) : Declarations where
  package := outline.text "package"
  dialect := if outline.text? "syntax" = some "proto2" then .proto2 else .proto3
  imports := imports
  messages := tableOf "messages" outline
  enums := tableOf "enums" outline
  services := tableOf "services" outline

end Patchwork.Proto.Outline
