import Patchwork.Proto.Codec
import Patchwork.Proto.Link
import Patchwork.Proto.Standard

/-!
# Serialized descriptor sets

Files of type declarations in their own binary form. The messages of that form are declared like any
others, so that the general reader and writer of messages do the work; a set is then taken apart, or
put together, by field numbers.
-/

namespace Patchwork.Proto.DescriptorSet

/-- The types of the binary form. -/
def schema : Pool := (Pool.ofFiles 0 [descriptorFile]).toOption.getD {}

def schemaType (name : String) : MessageType := schema.message (wellKnownPackage ++ "." ++ name)

/-! ## Taking apart -/

def text? (m : Message) (n : Nat) : Option String :=
  match m.fields.lookup n with
  | some (.scalar (.string s)) => some s
  | _ => none

def textAt (m : Message) (n : Nat) : String := (text? m n).getD ""

def texts (m : Message) (n : Nat) : List String :=
  match m.fields.lookup n with
  | some (.list items) => items.filterMap fun | .scalar (.string s) => some s | _ => none
  | _ => []

/-- A number, or the number of an enum value. -/
def number? (m : Message) (n : Nat) : Option Int :=
  match m.fields.lookup n with
  | some (.scalar (.int32 k)) | some (.scalar (.enum k)) => some k.toInt
  | _ => none

def numberAt (m : Message) (n : Nat) : Int := (number? m n).getD 0

def numbers (m : Message) (n : Nat) : List Int :=
  match m.fields.lookup n with
  | some (.list items) => items.filterMap fun | .scalar (.int32 k) => some k.toInt | _ => none
  | _ => []

def flag? (m : Message) (n : Nat) : Option Bool :=
  match m.fields.lookup n with
  | some (.scalar (.bool b)) => some b
  | _ => none

def flagAt (m : Message) (n : Nat) : Bool := (flag? m n).getD false

def part? (m : Message) (n : Nat) : Option Message :=
  match m.fields.lookup n with
  | some (.message p) => some p
  | _ => none

def parts (m : Message) (n : Nat) : List Message :=
  match m.fields.lookup n with
  | some (.list items) => items.filterMap fun | .message p => some p | _ => none
  | _ => []

/-- A scalar that is set. -/
def scalar? (m : Message) (n : Nat) : Option Scalar :=
  match m.fields.lookup n with
  | some (.scalar s) => some s
  | _ => none

/-! ### Declarations -/

/-- The scalar kinds by their numbers in a field declaration. -/
def scalarKinds : List (Int × ScalarKind) :=
  [(1, .double), (2, .float), (3, .int64), (4, .uint64), (5, .int32), (6, .fixed64), (7, .fixed32),
   (8, .bool), (9, .string), (12, .bytes), (13, .uint32), (15, .sfixed32), (16, .sfixed64),
   (17, .sint32), (18, .sint64)]

/-- A range whose end is not part of it. -/
def halfOpen (m : Message) : NumberRange := ⟨numberAt m 1, numberAt m 2 - 1⟩

def closed (m : Message) : NumberRange := ⟨numberAt m 1, numberAt m 2⟩

def enumDecl (m : Message) : EnumDecl :=
  { name := textAt m 1
    values := (parts m 2).map fun v => (textAt v 1, .ofInt (numberAt v 2))
    aliases := (part? m 3).any fun o => flagAt o 2
    reserved := (parts m 4).map closed }

/-- The type of a field. The name of a type settles it, whatever the code says. Without a name the
code has to be that of a scalar, and one without a meaning stands for doubles. -/
def typeRef (m : Message) : TypeRef :=
  match text? m 6, number? m 5 with
  | some name, some 14 => .enum name
  | some name, _ => .message name
  | none, some 10 | none, some 11 | none, some 14 => .message ""
  | none, code => .scalar ((code.bind fun c => scalarKinds.lookup c).getD .double)

def label (m : Message) : Label :=
  match number? m 4 with
  | some 2 => .required
  | some 3 => .repeated
  | _ => .optional

/-- A field. A negative number becomes one that is too large, so that no field can have it. -/
def fieldDecl (m : Message) : FieldDecl :=
  { name := textAt m 1, number := (Int32.ofInt (numberAt m 3)).toUInt32.toNat
    type := typeRef m, label := label m, oneof := number? m 9
    jsonName := text? m 10, fallback := text? m 7
    packed := (part? m 8).bind fun o => flag? o 2 }

def extensionDecl (m : Message) : ExtensionDecl := ⟨textAt m 2, fieldDecl m⟩

def optionStep (m : Message) : OptionStep :=
  if flagAt m 2 then .extension (textAt m 1) else .field (textAt m 1)

def optionDecl (m : Message) : OptionDecl :=
  { path := (parts m 2).map optionStep
    word := text? m 3
    natural := (scalar? m 4).bind fun | .uint64 n => some n.toNat | _ => none
    negative := (scalar? m 5).bind fun | .int64 n => some n.toInt | _ => none
    double := (scalar? m 6).bind fun | .double bits => some bits | _ => none
    text := (scalar? m 7).bind fun | .bytes bs => some bs | _ => none }

/-- Whether options mark a message as the entries of a map, by number or by name. -/
def isMapEntry (m : Message) : Bool :=
  flagAt m 7 || ((parts m 999).map optionDecl).any fun o =>
    o.path = [.field "map_entry"] && o.word = some "true"

/-- A message declaration with at most `depth` levels of nested ones. -/
def messageDecl : Nat → Message → Option MessageDecl
  | 0, _ => none
  | depth + 1, m => do
    return .mk
      { name := textAt m 1, fields := (parts m 2).map fieldDecl
        oneofs := (parts m 8).map fun o => textAt o 1
        enums := (parts m 4).map enumDecl
        extensions := (parts m 6).map extensionDecl
        extensible := (parts m 5).map halfOpen
        reserved := (parts m 9).map halfOpen
        mapEntry := (part? m 7).any isMapEntry }
      (← (parts m 3).mapM (messageDecl depth))

def methodInfo (m : Message) : MethodInfo :=
  { name := textAt m 1, input := textAt m 2, output := textAt m 3
    clientStreaming := flagAt m 5, serverStreaming := flagAt m 6 }

/-! ### Options of declarations -/

/-- The options that a declaration has as its field `n`. -/
def optionsAt (n : Nat) (owner : String) (m : Message) : List OptionSet :=
  (part? m n).toList.map fun o => ⟨owner, o, (parts o 999).map optionDecl⟩

/-- The options of a declaration inside a scope. -/
def optionsIn (n : Nat) (scope : String) (m : Message) : List OptionSet :=
  optionsAt n (qualify scope (textAt m 1)) m

def enumOptions (scope : String) (m : Message) : List OptionSet :=
  optionsIn 3 scope m ++ (parts m 2).flatMap (optionsIn 3 scope)

def serviceOptions (scope : String) (m : Message) : List OptionSet :=
  optionsIn 3 scope m ++ (parts m 2).flatMap (optionsIn 4 (qualify scope (textAt m 1)))

/-- The options in a message declaration with at most `depth` levels of nested ones. -/
def messageOptions : Nat → String → Message → List OptionSet
  | 0, _, _ => []
  | depth + 1, scope, m =>
    let name := qualify scope (textAt m 1)
    optionsAt 7 name m
      ++ (parts m 2).flatMap (optionsIn 8 name) ++ (parts m 3).flatMap (messageOptions depth name)
      ++ (parts m 4).flatMap (enumOptions name) ++ (parts m 5).flatMap (optionsAt 3 name)
      ++ (parts m 6).flatMap (optionsIn 8 name) ++ (parts m 8).flatMap (optionsIn 2 name)

def fileOptions (package : String) (m : Message) : List OptionSet :=
  optionsAt 8 package m
    ++ (parts m 4).flatMap (messageOptions maxNesting package)
    ++ (parts m 5).flatMap (enumOptions package) ++ (parts m 6).flatMap (serviceOptions package)
    ++ (parts m 7).flatMap (optionsIn 8 package)

/-! ### Files -/

def dialect (m : Message) : Dialect :=
  match text? m 12 with
  | none | some "proto2" => .proto2
  | some "proto3" => .proto3
  | some name => .unknown name

def fileOf (m : Message) : Option File := do
  return { name := textAt m 1, package := textAt m 2, dialect := dialect m
           imports := texts m 3, publicImports := numbers m 10, weakImports := numbers m 11
           messages := ← (parts m 4).mapM (messageDecl maxNesting)
           enums := (parts m 5).map enumDecl
           services := (parts m 6).map fun s => ⟨textAt s 1, (parts s 2).map methodInfo⟩
           extensions := (parts m 7).map extensionDecl
           options := fileOptions (textAt m 2) m }

/-- The files of a serialized set. -/
def decode? (bytes : List UInt8) : Option (List File) := do
  let set ← Message.decodeStrict? (schemaType "FileDescriptorSet") bytes
  (parts set 1).mapM fileOf

/-! ## Putting together -/

def build (type : String) (fields : List (Nat × Option Value)) : Message :=
  .mk (schemaType type) (fields.filterMap fun (n, v) => v.map (n, ·)) []

def ofText (s : String) : Option Value := some (.scalar (.string s))

def ofNumber (n : Int) : Option Value := some (.scalar (.int32 (.ofInt n)))

def ofEnum (n : Int) : Option Value := some (.scalar (.enum (.ofInt n)))

def ofFlag (b : Bool) : Option Value := if b then some (.scalar (.bool true)) else none

def ofList (items : List α) (value : α → Option Value) : Option Value :=
  if items.isEmpty then none else some (.list (items.filterMap value))

def ofPart (m : Message) : Option Value := some (.message m)

/-- Options with one of them set. -/
def ofOption (type : String) (number : Nat) (v : Value) : Option Value :=
  ofPart (build type [(number, some v)])

def encodeHalfOpen (type : String) (r : NumberRange) : Option Value :=
  ofPart (build type [(1, ofNumber r.low), (2, ofNumber (r.high + 1))])

def encodeClosed (r : NumberRange) : Option Value :=
  ofPart (build "EnumDescriptorProto.EnumReservedRange" [(1, ofNumber r.low), (2, ofNumber r.high)])

def encodeEnumValue (v : String × Int32) : Option Value :=
  ofPart (build "EnumValueDescriptorProto" [(1, ofText v.1), (2, ofNumber v.2.toInt)])

def encodeEnum (e : EnumDecl) : Option Value :=
  ofPart (build "EnumDescriptorProto"
    [(1, ofText e.name), (2, ofList e.values encodeEnumValue),
     (3, if e.aliases then ofOption "EnumOptions" 2 (.scalar (.bool true)) else none),
     (4, ofList e.reserved encodeClosed)])

def typeCode : TypeRef → Int
  | .scalar k => ((scalarKinds.find? (·.2 == k)).map (·.1)).getD 0
  | .message _ => 11
  | .enum _ => 14

def typeName? : TypeRef → Option String
  | .scalar _ => none
  | .message name | .enum name => some name

def labelCode : Label → Int
  | .optional => 1
  | .required => 2
  | .repeated => 3

def fieldOf (extendee : Option String) (d : FieldDecl) : Option Value :=
  ofPart (build "FieldDescriptorProto"
    [(1, ofText d.name), (2, extendee.bind ofText), (3, ofNumber d.number),
     (4, ofEnum (labelCode d.label)), (5, ofEnum (typeCode d.type)),
     (6, (typeName? d.type).bind ofText), (7, d.fallback.bind ofText),
     (8, d.packed.bind fun b => ofOption "FieldOptions" 2 (.scalar (.bool b))),
     (9, d.oneof.bind ofNumber), (10, d.jsonName.bind ofText)])

def encodeExtension (e : ExtensionDecl) : Option Value := fieldOf (some e.extendee) e.field

def encodeOneof (name : String) : Option Value :=
  ofPart (build "OneofDescriptorProto" [(1, ofText name)])

mutual
def encodeMessage : MessageDecl → Message
  | .mk body nested =>
    build "DescriptorProto"
      [(1, ofText body.name), (2, ofList body.fields (fieldOf none)),
       (3, ofList (encodeMessages nested) ofPart), (4, ofList body.enums encodeEnum),
       (5, ofList body.extensible (encodeHalfOpen "DescriptorProto.ExtensionRange")),
       (6, ofList body.extensions encodeExtension),
       (7, if body.mapEntry then ofOption "MessageOptions" 7 (.scalar (.bool true)) else none),
       (8, ofList body.oneofs encodeOneof),
       (9, ofList body.reserved (encodeHalfOpen "DescriptorProto.ReservedRange"))]

def encodeMessages : List MessageDecl → List Message
  | [] => []
  | m :: rest => encodeMessage m :: encodeMessages rest
end

def encodeMethod (m : MethodInfo) : Option Value :=
  ofPart (build "MethodDescriptorProto"
    [(1, ofText m.name), (2, ofText m.input), (3, ofText m.output),
     (4, m.idempotency.bind fun n => ofOption "MethodOptions" 34 (.scalar (.enum (.ofNat n)))),
     (5, ofFlag m.clientStreaming), (6, ofFlag m.serverStreaming)])

def encodeService (s : ServiceInfo) : Option Value :=
  ofPart (build "ServiceDescriptorProto" [(1, ofText s.name), (2, ofList s.methods encodeMethod)])

def dialectName : Dialect → String
  | .proto2 => "proto2"
  | .proto3 => "proto3"
  | .unknown name => name

def encodeFile (f : File) : Option Value :=
  ofPart (build "FileDescriptorProto"
    [(1, ofText f.name), (2, ofText f.package), (3, ofList f.imports ofText),
     (4, ofList (encodeMessages f.messages) ofPart), (5, ofList f.enums encodeEnum),
     (6, ofList f.services encodeService), (7, ofList f.extensions encodeExtension),
     (10, ofList f.publicImports ofNumber), (11, ofList f.weakImports ofNumber),
     (12, ofText (dialectName f.dialect))])

/-- A serialized set of files. -/
def encode (files : List File) : List UInt8 :=
  (build "FileDescriptorSet" [(1, ofList files encodeFile)]).encode

end Patchwork.Proto.DescriptorSet
