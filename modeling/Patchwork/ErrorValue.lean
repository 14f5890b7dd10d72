import Patchwork.Encoding.Base64
import Patchwork.Failure

/-!
# Error values

The JSON value that stands in a body where a failure was caught. Messages that the failure carries
are shown in full when the pool knows their types.
-/

namespace Patchwork
open Proto

/-- The JSON form of a carried message, null when there is none. -/
def Detail.debug (pool : Option Pool) (d : Detail) : Json :=
  let shown? : Option Json := do
    let t ← (← pool).messageNamed? d.typeName
    let m ← Message.decode? t d.value
    m.print.toOption
  shown?.getD .null

def Detail.toJson (pool : Option Pool) (d : Detail) : Json :=
  .object [("type", .str d.typeName), ("value", .str (Base64.encode d.value)),
    ("debug", d.debug pool)]

/-- The error value of a failure at a path. -/
def errorValue (f : Failure) (path : String) (pool : Option Pool) : Json :=
  .object [("[@error]", .obj []), ("code", .str f.code.name), ("message", .str f.message),
    ("details", .arr (f.details.map (Detail.toJson pool))), ("path", .str path)]

end Patchwork
