import Patchwork.Encoding.Base64
import Patchwork.Encoding.Utf8

/-!
# Metadata

The named values that travel with a downstream call, in order and with repetitions. Values are
bytes; those under a name that ends in `-bin` may be any bytes, the others are printable text.
-/

namespace Patchwork

/-- Names with their values, as they came in or as they go out. -/
abbrev Fields := List (String × List UInt8)

abbrev Metadata := Fields

namespace Metadata

/-- The name under which a call carries the chain of operations that led to it. -/
def operationsName : String := "stitch-operations"

def isBinary (name : String) : Bool := name.endsWith "-bin"

def values (m : Metadata) (name : String) : List (List UInt8) :=
  m.filterMap fun (n, v) => if n = name then some v else none

def without (m : Metadata) (name : String) : Metadata := m.filter (·.1 ≠ name)

/-- The names in order of their first values. -/
def names (m : Metadata) : List String := (m.map (·.1)).eraseDups

/-- Bytes that a text value may hold: no control characters but the tab. -/
def isTextByte (b : UInt8) : Bool := (32 ≤ b && b != 127) || b == 9

/-- The value of an operation's name, if it is one. -/
def operationValue? (operation : String) : Option (List UInt8) :=
  let bytes := Utf8.encode operation
  if bytes.all isTextByte then some bytes else none

/-- Replaces the chain of operations. -/
def withOperations (m : Metadata) (operations : List String) : Metadata :=
  m.without operationsName
    ++ operations.filterMap fun o => (operationValue? o).map (operationsName, ·)

/-- Adds metadata to what a call already carries. -/
def addTo (m : Metadata) (carried : Metadata) : Metadata := carried ++ m

@[simp] theorem without_without (m : Metadata) (name : String) :
    (m.without name).without name = m.without name := by
  simp [without]

end Metadata
end Patchwork
