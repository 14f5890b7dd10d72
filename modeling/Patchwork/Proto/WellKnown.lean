import Patchwork.Proto.Pool

/-!
# Well-known types

The message types that every pool is expected to hold and whose JSON form is their own: instants,
spans, wrapped scalars, free-form values, and messages that carry their type with them.
-/

namespace Patchwork.Proto

/-- How the JSON form of a message is made. -/
inductive Form where
  | any
  | wrapper (k : ScalarKind)
  | duration
  | empty
  | fieldMask
  | listValue
  | struct
  | timestamp
  | value
  | plain
  deriving DecidableEq, Repr

def wellKnownForms : List (String × Form) :=
  [("google.protobuf.Any", .any),
   ("google.protobuf.BoolValue", .wrapper .bool),
   ("google.protobuf.BytesValue", .wrapper .bytes),
   ("google.protobuf.DoubleValue", .wrapper .double),
   ("google.protobuf.Duration", .duration),
   ("google.protobuf.Empty", .empty),
   ("google.protobuf.FieldMask", .fieldMask),
   ("google.protobuf.FloatValue", .wrapper .float),
   ("google.protobuf.Int32Value", .wrapper .int32),
   ("google.protobuf.Int64Value", .wrapper .int64),
   ("google.protobuf.ListValue", .listValue),
   ("google.protobuf.StringValue", .wrapper .string),
   ("google.protobuf.Struct", .struct),
   ("google.protobuf.Timestamp", .timestamp),
   ("google.protobuf.UInt32Value", .wrapper .uint32),
   ("google.protobuf.UInt64Value", .wrapper .uint64),
   ("google.protobuf.Value", .value)]

def isWellKnown (name : String) : Bool := wellKnownForms.any (·.1 == name)

def Form.of (name : String) : Form := (wellKnownForms.lookup name).getD .plain

/-- The enum with the one value null. -/
def nullValue : String := "google.protobuf.NullValue"

def valueType : String := "google.protobuf.Value"

def structType : String := "google.protobuf.Struct"

def listValueType : String := "google.protobuf.ListValue"

end Patchwork.Proto
