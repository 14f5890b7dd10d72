import Patchwork.Decimal.Shortest
import Patchwork.Document
import Patchwork.Proto.Printer
import Patchwork.Schema.Basic

/-!
# Formatting

A message becomes a tree of what its schema selects. A relation cannot be computed yet: a slot is
reserved for it, and a patch says which message it is computed from, where its value goes and
where a failure goes.
-/

namespace Patchwork
open Proto

/-- A relation of one message that is still to be computed. -/
structure Patch where
  base : Message
  /-- Where the value goes. -/
  slot : Nat
  /-- Where a failure goes; if nowhere, it fails the response. -/
  target : Option Nat
  field : Selected

/-- The slots reserved and the patches made so far. -/
structure Draft where
  slots : Nat
  patches : List Patch := []

/-- A step of formatting, which keeps its draft on failure. -/
abbrev Formatting := EStateM Failure Draft

namespace Formatting

/-- Whether a scalar is the default of its kind; enum values never are. -/
def isDefault : Scalar → Bool
  | .bool b => !b
  | .int32 n => n == 0
  | .int64 n => n == 0
  | .uint32 n => n == 0
  | .uint64 n => n == 0
  | .float bits => Binary.single.isZero bits.toNat
  | .double bits => Binary.double.isZero bits.toNat
  | .string s => s.isEmpty
  | .bytes bs => bs.isEmpty
  | .enum _ => false

/-- The JSON form of a scalar. A single is written by its own shortest digits. -/
def scalarJson (pool : Pool) (k : Kind) : Scalar → Json
  | .float bits =>
    if Binary.single.isFinite bits.toNat then doubleJson (Binary.widenShortest bits.toNat)
    else floatJson bits.toNat
  | s => s.print pool k

/-- The entries of a map in the order of their keys. -/
def sortEntries (entries : List (Key × Value)) : List (Key × Value) :=
  entries.mergeSort fun a b => a.1.le b.1

/-- The shape of a value in a word. -/
def describe : Value → String
  | .scalar _ => "scalar"
  | .message m => m.type.name
  | .list _ => "list"
  | .map .. => "map"

/-- Reserves the slot of a relation and leaves a patch for it. -/
def reserve (base : Message) (field : Selected) (fallback : Bool) (target : Option Nat) :
    Formatting Node := fun d =>
  let target := if shouldCatch field.info.onError fallback then some d.slots else target
  .ok (.slot d.slots)
    ⟨d.slots + 1, d.patches ++ [{ base, slot := d.slots, target, field }]⟩

/-- A field's value by its container, the elements being formatted by `element`. -/
def contain (container : Container) (f : Field) (v : Value)
    (element : Bool → Value → Formatting Node) : Formatting Node :=
  match container, v with
  | .list, .list items => do return .list (← items.mapM (element true))
  | .map .., .map entries => do
    return .object (← (sortEntries entries).mapM fun (k, v) => do return (k.text, ← element true v))
  | .one, v => element false v
  | _, _ => throw (.internal (.wrongContainer f.name))

def wellKnown (m : Message) : Formatting Node :=
  match m.print with
  | .ok j => pure (.value j)
  | .error e => throw (.serialization e)

mutual
/-- Formats one value. Inside a list or map a default scalar is null. -/
def element (fallback : Bool) (target : Option Nat) (pool : Pool) (k : Kind) (shape : Shape)
    (inside : Bool) (v : Value) : Formatting Node :=
  match shape, v with
  | .message _ fields, .message m =>
    if isWellKnown m.type.name then wellKnown m
    else do return .object (← members fallback target m fields)
  | .message .., v => throw (.internal (.wrongElement (describe v)))
  | .scalar _, .scalar s =>
    pure (.value (if inside && isDefault s then .null else scalarJson pool k s))
  | .scalar _, v => throw (.internal (.notScalar (describe v)))

/-- The selected fields of a message that have a value. -/
def members (fallback : Bool) (target : Option Nat) (m : Message) (fields : List Selected) :
    Formatting (List (String × Node)) :=
  match fields with
  | [] => pure []
  | f :: rest => do
    let here ← member fallback target m f
    return here.toList ++ (← members fallback target m rest)

def member (fallback : Bool) (target : Option Nat) (m : Message) (selected : Selected) :
    Formatting (Option (String × Node)) :=
  match selected with
  | .mk info shape =>
    if info.relation.isSome then do
      return some (info.name, ← reserve m (.mk info shape) fallback target)
    else match m.type.field? info.name with
      | none => throw (.internal (.noField info.name m.type.name))
      | some f => match m.value? f with
        | none => pure none
        | some v => do
          return some (info.name,
            ← contain info.container f v (element fallback target m.type.pool f.kind shape))
end

end Formatting

/-- Formats a message; `target` is where failures go that no field catches. -/
def formatMessage (m : Message) (schema : Schema) (target : Option Nat) (fallback : Bool) :
    Formatting Node :=
  if isWellKnown m.type.name then Formatting.wellKnown m
  else do return .object (← Formatting.members fallback target m schema.fields)

/-- Formats the value computed for a relation. -/
def formatRelationValue (selected : Selected) (v : Value) (target : Option Nat) (fallback : Bool) :
    Formatting Node :=
  match selected.info.relation with
  | none => throw (.internal (.notRelation selected.info.path))
  | some r =>
    Formatting.contain selected.info.container r.field v
      (Formatting.element fallback target r.method.pool r.field.kind selected.shape)

/-- Formats into a document. Slots that a failing step reserved stay reserved. -/
def Document.format (d : Document) (step : Formatting Node) :
    Outcome (Node × List Patch) × Document :=
  match step { slots := d.size } with
  | .ok node draft => (.ok (node, draft.patches), d.grow draft.slots)
  | .error e draft => (.error e, d.grow draft.slots)

end Patchwork
