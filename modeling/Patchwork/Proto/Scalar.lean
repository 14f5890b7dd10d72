import Patchwork.Decimal.Binary

/-!
# Scalars

The fifteen scalar kinds of fields, the ten shapes of values they hold, and the six shapes that
may be keys of a map. Several kinds share a shape and differ only on the wire.
-/

namespace Patchwork.Proto

inductive ScalarKind where
  | double | float
  | int32 | int64 | uint32 | uint64
  | sint32 | sint64
  | fixed32 | fixed64 | sfixed32 | sfixed64
  | bool | string | bytes
  deriving DecidableEq, Repr

/-- A scalar; floating-point numbers are given by their bits, enum values by their number. -/
inductive Scalar where
  | bool (b : Bool)
  | int32 (n : Int32)
  | int64 (n : Int64)
  | uint32 (n : UInt32)
  | uint64 (n : UInt64)
  | float (bits : UInt32)
  | double (bits : UInt64)
  | string (s : String)
  | bytes (bs : List UInt8)
  | enum (number : Int32)
  deriving DecidableEq, Inhabited, Repr

inductive Key where
  | bool (b : Bool)
  | int32 (n : Int32)
  | int64 (n : Int64)
  | uint32 (n : UInt32)
  | uint64 (n : UInt64)
  | string (s : String)
  deriving DecidableEq, Inhabited, Repr

/-- The value of a kind that stands for nothing set. -/
def ScalarKind.zero : ScalarKind → Scalar
  | .double => .double 0
  | .float => .float 0
  | .int32 | .sint32 | .sfixed32 => .int32 0
  | .int64 | .sint64 | .sfixed64 => .int64 0
  | .uint32 | .fixed32 => .uint32 0
  | .uint64 | .fixed64 => .uint64 0
  | .bool => .bool false
  | .string => .string ""
  | .bytes => .bytes []

/-- Equality of floating-point numbers: the two zeros are equal and a NaN is not equal to itself. -/
def sameNumber (f : Binary.Format) (a b : Nat) : Bool :=
  !f.isNaN a && !f.isNaN b && (a == b || f.isZero a && f.isZero b)

/-- Equality of values, by number for floating-point numbers. -/
def Scalar.same : Scalar → Scalar → Bool
  | .float a, .float b => sameNumber Binary.single a.toNat b.toNat
  | .double a, .double b => sameNumber Binary.double a.toNat b.toNat
  | a, b => a == b

namespace Key

def toScalar : Key → Scalar
  | .bool b => .bool b
  | .int32 n => .int32 n
  | .int64 n => .int64 n
  | .uint32 n => .uint32 n
  | .uint64 n => .uint64 n
  | .string s => .string s

def ofScalar? : Scalar → Option Key
  | .bool b => some (.bool b)
  | .int32 n => some (.int32 n)
  | .int64 n => some (.int64 n)
  | .uint32 n => some (.uint32 n)
  | .uint64 n => some (.uint64 n)
  | .string s => some (.string s)
  | _ => none

/-- The name of a map's member. -/
def text : Key → String
  | .bool b => if b then "true" else "false"
  | .int32 n => toString n.toInt
  | .int64 n => toString n.toInt
  | .uint32 n => toString n.toNat
  | .uint64 n => toString n.toNat
  | .string s => s

/-- The shape of a key, as a number. -/
def shape : Key → Nat
  | .bool _ => 0
  | .int32 _ => 1
  | .int64 _ => 2
  | .uint32 _ => 3
  | .uint64 _ => 4
  | .string _ => 5

/-- The order of keys of one shape: false first, numbers by size, texts by their characters. -/
def le : Key → Key → Bool
  | .bool a, .bool b => !a || b
  | .int32 a, .int32 b => a ≤ b
  | .int64 a, .int64 b => a ≤ b
  | .uint32 a, .uint32 b => a ≤ b
  | .uint64 a, .uint64 b => a ≤ b
  | .string a, .string b => a ≤ b
  | a, b => a.shape ≤ b.shape

end Key
end Patchwork.Proto
