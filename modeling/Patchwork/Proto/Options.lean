import Patchwork.Proto.Codec
import Patchwork.Proto.Default
import Patchwork.Proto.Naming

/-!
# Options

The options of a declaration are a message, whose fields extensions add to. Those that are set by
number are there from the beginning; those that are set by name follow in order. The path to one
goes through messages to a field that can be written as a word, a number or a text. A single field
can be set only once.
-/

namespace Patchwork.Proto

/-- An extension as a field of the message that it is added to. -/
structure Extension where
  extendee : String
  field : Field

/-- The name that an extension has among the fields of its message. -/
def bracketed (name : String) : String := "[" ++ name ++ "]"

/-- The message with its extensions among its fields. -/
def MessageInfo.extended (m : MessageInfo) (extensions : List Extension) : MessageInfo :=
  let own := (extensions.filter (·.extendee == m.name)).map (·.field)
  { m with fields := (m.fields ++ own).mergeSort fun a b => a.number ≤ b.number }

def Pool.extended (p : Pool) (extensions : List Extension) : Pool :=
  { p with messages := p.messages.map (·.extended extensions) }

namespace OptionDecl

def integer? (o : OptionDecl) : Option Int := o.natural.map Int.ofNat <|> o.negative

/-- The bits of a floating-point number, which may be a word. -/
def double? (o : OptionDecl) : Option UInt64 :=
  o.double
    <|> o.integer?.map (fun n => .ofNat (Binary.double.ofInt n))
    <|> match o.word with
      | some "inf" => some (.ofNat Binary.double.infinity)
      | some "nan" => some (.ofNat Binary.double.quietNaN)
      | _ => none

/-- The value of an option whose field has the kind `k`. -/
def scalar? (o : OptionDecl) (k : ScalarKind) : Option Scalar :=
  match k with
  | .bool => o.word.bind Default.bool?
  | .string => (o.text.bind Utf8.decode?).map .string
  | .bytes => o.text.map .bytes
  | .double => o.double?.map .double
  | .float => o.double?.map fun n => .float (.ofNat (Binary.double.convert Binary.single n.toNat))
  | k => o.integer?.bind fun n => Default.read? k (toString n)

def value? (o : OptionDecl) (pool : Pool) : Kind → Option Scalar
  | .scalar k => o.scalar? k
  | .enum name => o.word.bind fun word => ((pool.enum name).number? word).map .enum
  | .message _ => none

/-- Sets a field to the value of an option, or adds it to a list. -/
def assign? (o : OptionDecl) (m : Message) (f : Field) : Option Message := do
  let v ← o.value? m.type.pool f.kind
  match f.arity, m.get f with
  | .single _, _ => if m.has f then none else return m.set f (.scalar v)
  | .list _, .list items => return m.set f (.list (items ++ [.scalar v]))
  | _, _ => none

/-- Sets the option at the end of a path of field names. -/
def put? (o : OptionDecl) (m : Message) : List String → Option Message
  | [] => some m
  | [name] => do o.assign? m (← m.type.field? name)
  | name :: rest => do
    let f ← m.type.field? name
    match m.get f with
    | .message inner => return m.set f (.message (← o.put? inner rest))
    | _ => none

/-- The path of an option as names of fields. -/
def names? (o : OptionDecl) (s : Scope) : Option (List String) :=
  o.path.mapM fun
    | .field name => some name
    | .extension name => (s.extension? name).map bracketed

end OptionDecl

/-- All options of a declaration that stands in the scope `s`, by the types of `pool`. -/
def OptionSet.resolve? (o : OptionSet) (pool : Pool) (s : Scope) : Option Message := do
  let type := (pool.message? o.message.type.name).getD o.message.type
  let m ← Message.decode? type o.message.encode
  o.named.foldlM (fun m d => do d.put? m (← d.names? s)) m

end Patchwork.Proto
