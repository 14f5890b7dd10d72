import Patchwork.Proto.Options

/-!
# Files that fit together

Libraries to which sets of files are added one after another, and the pools that they make. Each
file sees its own declarations, those of its imports, and those that its imports pass on. Names are
distinct and have a meaning where they are used; numbers of fields and of enum values are where they
may be; defaults are of the kind of their fields, and so are options.
-/

namespace Patchwork.Proto

/-- Why files make no pool. -/
inductive Unlinked where
  | dialect (file : String)
  | duplicateFile (file : String)
  | missingFile (file : String)
  | badImport (file : String)
  | duplicate (name : String)
  | undeclared (name : String)
  | badNumber (name : String)
  | badOneof (field : String)
  | badDefault (field : String)
  | emptyEnum (name : String)
  | badFirstValue (enum : String)
  | badOption (owner : String)
  deriving DecidableEq, Repr

def Unlinked.message : Unlinked → String
  | .dialect file => "the dialect of file '" ++ file ++ "' is not known"
  | .duplicateFile file => "file '" ++ file ++ "' occurs twice"
  | .missingFile file => "file '" ++ file ++ "' is missing"
  | .badImport file => "file '" ++ file ++ "' passes on an import that it does not have"
  | .duplicate name => "name '" ++ name ++ "' is declared twice"
  | .undeclared name => "name '" ++ name ++ "' is not declared"
  | .badNumber name => "the number of '" ++ name ++ "' is not allowed"
  | .badOneof field => "field '" ++ field ++ "' belongs to no oneof of its message"
  | .badDefault field => "field '" ++ field ++ "' has a malformed default"
  | .emptyEnum name => "enum '" ++ name ++ "' has no values"
  | .badFirstValue enum => "the first value of enum '" ++ enum ++ "' is not zero"
  | .badOption owner => "'" ++ owner ++ "' has an option that is not allowed"

namespace Link

abbrev Linked := Except Unlinked

def require (ok : Bool) (e : Unlinked) : Linked Unit := if ok then .ok () else .error e

def orUnlinked (e : Unlinked) : Option α → Linked α
  | some x => .ok x
  | none => .error e

/-- Requires that no name occurs twice. -/
def requireDistinct (names : List String) (e : String → Unlinked) : Linked Unit :=
  match repeated? names with
  | some name => .error (e name)
  | none => .ok ()

/-! ## Files -/

/-- The imports that a file passes on. -/
def passedOn (f : File) : List String :=
  f.publicImports.filterMap fun i => if i < 0 then none else f.imports[i.toNat]?

/-- Adds to a list of files what those in it pass on. -/
def widen (files : List File) (seen : List String) : List String :=
  (seen ++ (files.filter fun f => seen.contains f.name).flatMap passedOn).eraseDups

/-- The files that a file sees. -/
def visibleFrom (files : List File) (f : File) : List String :=
  f.name :: Nat.repeat (widen files) files.length f.imports

def checkFile (files : List File) (f : File) : Linked Unit := do
  require (f.dialect == .proto2 || f.dialect == .proto3) (.dialect f.name)
  f.imports.forM fun name => require (files.any (·.name == name)) (.missingFile name)
  require ((f.publicImports ++ f.weakImports).all fun i => 0 ≤ i && i < f.imports.length)
    (.badImport f.name)

/-! ## Enums -/

def checkEnum (proto3 : Bool) (e : EnumDecl) : Linked Unit := do
  match e.values with
  | [] => throw (.emptyEnum e.name)
  | (_, n) :: _ => require (!proto3 || n == 0) (.badFirstValue e.name)
  unless e.aliases do
    requireDistinct (e.values.map fun (_, n) => toString n.toInt) fun _ => .badNumber e.name
  e.values.forM fun (name, n) =>
    require (!e.reserved.any (·.contains n.toInt)) (.badNumber name)

/-! ## Fields -/

/-- A message together with what can be seen from it. -/
structure Site where
  declared : Declared
  scope : Scope
  proto3 : Bool

structure Types where
  messages : List Site := []
  enums : List EnumInfo := []

def Types.enum? (ts : Types) (name : String) : Option EnumInfo := ts.enums.find? (·.name == name)

def Types.message? (ts : Types) (name : String) : Option Site :=
  ts.messages.find? (·.declared.name == name)

def kind (scope : Scope) : TypeRef → Linked Kind
  | .scalar k => .ok (.scalar k)
  | .enum name | .message name => orUnlinked (.undeclared name) (scope.type? name)

/-- The number of an enum's first value, which unset fields read as. -/
def firstValue (ts : Types) (name : String) : Int32 :=
  match (ts.enum? name).map (·.values) with
  | some ((_, n) :: _) => n
  | _ => 0

def defaultOf? (ts : Types) (k : Kind) (text : String) : Option Scalar :=
  match k with
  | .scalar k => Default.read? k text
  | .enum name => (ts.enum? name).bind fun e => (e.number? text).map .enum
  | .message _ => none

/-- What an unset field reads as. -/
def fallback (ts : Types) (k : Kind) (d : FieldDecl) : Linked Scalar :=
  match d.fallback, k with
  | some text, k => orUnlinked (.badDefault d.name) (defaultOf? ts k text)
  | none, .scalar k => .ok k.zero
  | none, .enum name => .ok (.enum (firstValue ts name))
  | none, .message _ => .ok (.bool false)

/-- The entry type of a map field, with its key and its value. What an entry does not declare is
taken for a text. -/
def entryTypes? (ts : Types) (d : FieldDecl) (k : Kind) : Option (Site × ScalarKind × FieldDecl) := do
  if d.label ≠ .repeated then none
  let .message name := k | none
  let entry ← ts.message? name
  if !entry.declared.body.mapEntry then none
  let part (name : String) (number : Nat) : FieldDecl :=
    (entry.declared.body.fields.find? (·.number == number)).getD
      { name, number, type := .scalar .string }
  let key := match (part "key" 1).type with
    | .scalar k => k
    | _ => .string
  return (entry, key, part "value" 2)

def isMessage : Kind → Bool
  | .message _ => true
  | _ => false

def jsonName (d : FieldDecl) : String := d.jsonName.getD (camelName d.name)

/-- The name of the oneof that a field belongs to. -/
def oneofOf (body : MessageBody) (d : FieldDecl) : Linked (Option String) :=
  match d.oneof with
  | none => .ok none
  | some i =>
    if i < 0 then .error (.badOneof d.name)
    else (orUnlinked (.badOneof d.name) body.oneofs[i.toNat]?).map some

def field (ts : Types) (s : Site) (d : FieldDecl) : Linked Field := do
  let k ← kind s.scope d.type
  let fallback ← Link.fallback ts k d
  let oneof ← oneofOf s.declared.body d
  let arity := if d.label = .repeated then Arity.list (d.packed.getD s.proto3)
    else .single (!s.proto3 || oneof.isSome || isMessage k)
  let plain : Field :=
    { name := d.name, jsonName := jsonName d, number := d.number, kind := k, arity, oneof, fallback }
  match entryTypes? ts d k with
  | none => return plain
  | some (entry, key, value) =>
    let k ← kind entry.scope value.type
    return { plain with kind := k, arity := .map key !entry.proto3, oneof := none
                        fallback := ← Link.fallback ts k value }

/-! ## Messages -/

def maxNumber : Nat := 536870911

/-- Numbers that no field may have. -/
def withheld : NumberRange := ⟨19000, 19999⟩

def isNumber (n : Nat) : Bool := 0 < n && n ≤ maxNumber && !withheld.contains n

/-- A name without regard to underscores and case. -/
def foldedName (d : FieldDecl) : String :=
  String.ofList ((d.name.toList.filter (· ≠ '_')).map Char.toLower)

def checkMessage (s : Site) : Linked Unit := do
  let body := s.declared.body
  let taken := body.extensible ++ body.reserved
  body.fields.forM fun d =>
    require (isNumber d.number && !taken.any (·.contains d.number)) (.badNumber d.name)
  requireDistinct (body.fields.map fun d => toString d.number) fun _ => .badNumber body.name
  requireDistinct (body.fields.map jsonName) .duplicate
  if s.proto3 then requireDistinct (body.fields.map foldedName) .duplicate

def messageInfo (ts : Types) (s : Site) : Linked MessageInfo := do
  checkMessage s
  let fields ← s.declared.body.fields.mapM (field ts s)
  return ⟨s.declared.name, fields.mergeSort fun a b => a.number ≤ b.number⟩

/-- An extension, whose number its message has to have left to extensions. Whether it is set is kept
track of in any dialect. -/
def extension (ts : Types) (scope : Scope) (e : ExtensionDecl) : Linked Extension := do
  let extendee ← orUnlinked (.undeclared e.extendee) (scope.message? e.extendee)
  let ranges := ((ts.message? extendee).map (·.declared.body.extensible)).getD []
  require (ranges.any (·.contains e.field.number)) (.badNumber e.field.name)
  let site : Site := ⟨⟨scope.name, { name := "" }⟩, scope, false⟩
  let field ← Link.field ts site { e.field with oneof := none }
  return ⟨extendee, { field with name := bracketed (qualify scope.name e.field.name) }⟩

/-- The options of the declarations of a file, by the names of the declarations. -/
def options (pool : Pool) (scope : Scope) (f : File) : Linked (List (String × Message)) :=
  f.options.mapM fun o => do
    let m ← orUnlinked (.badOption o.owner) (o.resolve? pool { scope with name := o.owner })
    return (o.owner, m)

/-! ## Services -/

/-- The idempotency level among the options of a method. -/
def idempotency? (options : Message) : Option Nat := do
  match options.get (← options.type.field? "idempotency_level") with
  | .scalar (.enum n) => some n.toInt.toNat
  | _ => none

def method (options : List (String × Message)) (scope : Scope) (m : MethodInfo) :
    Linked MethodInfo := do
  let message (name : String) := orUnlinked (.undeclared name) (scope.message? name)
  let own := options.lookup (qualify scope.name m.name)
  return { m with input := ← message m.input, output := ← message m.output
                  idempotency := own.bind idempotency? <|> m.idempotency }

def service (options : List (String × Message)) (scope : Scope) (s : ServiceInfo) :
    Linked ServiceInfo := do
  let name := qualify scope.name s.name
  return ⟨name, ← s.methods.mapM (method options { scope with name })⟩

end Link

/-- Files that fit together, and what their declarations come to. -/
structure Library where
  files : List File := []
  types : Link.Types := {}
  messages : List MessageInfo := []
  services : List ServiceInfo := []
  extensions : List Extension := []

/-- The pool of a library. -/
def Library.pool (l : Library) (tag : Nat) : Pool :=
  { tag, messages := l.messages, enums := l.types.enums, services := l.services }

open Link in
/-- Adds a set of files. Those whose names are known already are passed over. -/
def Library.add (l : Library) (set : List File) : Except Unlinked Library := do
  let new := set.filter fun f => !l.files.any (·.name == f.name)
  requireDistinct (new.map (·.name)) .duplicateFile
  let files := l.files ++ new
  let names := Names.ofFiles files
  if let some name := names.clash? then throw (.duplicate name)
  let scopes := new.map fun f => (f, Scope.mk names (visibleFrom files f) f.package)
  let sites := scopes.flatMap fun (f, scope) =>
    f.allMessages.map fun d => Site.mk d { scope with name := d.name } (f.dialect == .proto3)
  let enums := new.flatMap fun f => f.allEnums.map fun (scope, e) => ⟨qualify scope e.name, e.values⟩
  let types : Types := ⟨l.types.messages ++ sites, l.types.enums ++ enums⟩
  new.forM (checkFile files)
  new.forM fun f => f.allEnums.forM fun (_, e) => checkEnum (f.dialect == .proto3) e
  let extensions ← scopes.mapM fun (f, scope) =>
    f.allExtensions.mapM fun (name, e) => extension types { scope with name } e
  let messages ← sites.mapM (messageInfo types)
  let l := { l with files, types, messages := l.messages ++ messages
                    extensions := l.extensions ++ extensions.flatten }
  let pool := (l.pool 0).extended l.extensions
  let services ← scopes.mapM fun (f, scope) => do
    f.services.mapM (service (← options pool scope f) scope)
  return { l with services := l.services ++ services.flatten }

/-- The pool of a list of files. -/
def Pool.ofFiles (tag : Nat) (files : List File) : Except Unlinked Pool :=
  (Library.add {} files).map (·.pool tag)

end Patchwork.Proto
