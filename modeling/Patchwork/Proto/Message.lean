import Patchwork.Proto.Pool
import Patchwork.Proto.Wire

/-!
# Messages

A message is a type, the values of the fields that were set, in order of their numbers, and the
records of fields that the type does not know. Map entries stand in no particular order, one for
each key.
-/

namespace Patchwork.Proto

mutual
inductive Value where
  | scalar (s : Scalar)
  | message (m : Message)
  | list (items : List Value)
  | map (entries : List (Key × Value))

inductive Message where
  | mk (type : MessageType) (fields : List (Nat × Value)) (unknown : List Wire.Record)
end

instance : Inhabited Value := ⟨.scalar default⟩

namespace Message

def type : Message → MessageType
  | mk t _ _ => t

/-- The values set, with the numbers of their fields. -/
def fields : Message → List (Nat × Value)
  | mk _ fs _ => fs

def unknown : Message → List Wire.Record
  | mk _ _ us => us

def empty (t : MessageType) : Message := mk t [] []

instance : Inhabited Message := ⟨empty ⟨{}, ⟨"", []⟩⟩⟩

@[simp] theorem type_mk (t fs us) : (mk t fs us).type = t := rfl
@[simp] theorem fields_mk (t fs us) : (mk t fs us).fields = fs := rfl
@[simp] theorem unknown_mk (t fs us) : (mk t fs us).unknown = us := rfl
@[simp] theorem type_empty (t) : (empty t).type = t := rfl
@[simp] theorem fields_empty (t) : (empty t).fields = [] := rfl

end Message

/-- Whether a stored value counts as set: always where presence is tracked, else only when it
differs from the default. -/
def Field.counts (f : Field) : Value → Bool
  | .scalar s => match f.arity with
    | .single false => !s.same f.fallback
    | _ => true
  | .message _ => true
  | .list items => !items.isEmpty
  | .map entries => !entries.isEmpty

/-- What an unset field of the pool's type reads as. -/
def Field.default (f : Field) (pool : Pool) : Value :=
  match f.arity, f.kind with
  | .list _, _ => .list []
  | .map .., _ => .map []
  | .single _, .message name => .message (.empty (pool.message name))
  | .single _, _ => .scalar f.fallback

/-- Puts the value of field `number` in its place. -/
def putField (number : Nat) (v : Value) : List (Nat × Value) → List (Nat × Value)
  | [] => [(number, v)]
  | (n, w) :: rest =>
    if number = n then (number, v) :: rest
    else if number < n then (number, v) :: (n, w) :: rest
    else (n, w) :: putField number v rest

/-- Adds an entry to a map, replacing the one of the same key. -/
def putEntry (k : Key) (v : Value) : List (Key × Value) → List (Key × Value)
  | [] => [(k, v)]
  | (l, w) :: rest => if k = l then (k, v) :: rest else (l, w) :: putEntry k v rest

namespace Message

def stored? (m : Message) (f : Field) : Option Value := m.fields.lookup f.number

def has (m : Message) (f : Field) : Bool := (m.stored? f).any f.counts

def get (m : Message) (f : Field) : Value := (m.stored? f).getD (f.default m.type.pool)

/-- The value of a field, or none when a single one is unset. -/
def value? (m : Message) (f : Field) : Option Value :=
  if f.isList || f.isMap || m.has f then some (m.get f) else none

/-- The numbers of the other members of a field's oneof. -/
def rivals (t : MessageType) (f : Field) : List Nat :=
  match f.oneof with
  | none => []
  | some o => (t.fields.filter fun g => g.oneof == some o && g.number != f.number).map (·.number)

/-- Unsets the other members of the field's oneof. -/
def claim (m : Message) (f : Field) : Message :=
  mk m.type (m.fields.filter fun (n, _) => !(rivals m.type f).contains n) m.unknown

def set (m : Message) (f : Field) (v : Value) : Message :=
  let m := m.claim f
  mk m.type (putField f.number v m.fields) m.unknown

def addUnknown (m : Message) (r : Wire.Record) : Message := mk m.type m.fields (m.unknown ++ [r])

end Message

end Patchwork.Proto
