import Patchwork.Proto.Message

/-!
# Binary encoding of messages

Reading merges records into a message, later ones over earlier ones: a single value is replaced, a
message is merged into, a list grows, a map gains the entry. A record of an unknown field is kept.
Writing emits the fields that count, in order of their numbers, and then the kept records, in order
of theirs.
-/

namespace Patchwork.Proto
open Wire

/-- Messages may be nested this deep in a binary message. -/
def maxNesting : Nat := 100

namespace ScalarKind

def zigzag32 (n : Int32) : UInt32 := ((n <<< 1) ^^^ (n >>> 31)).toUInt32

def zigzag64 (n : Int64) : UInt64 := ((n <<< 1) ^^^ (n >>> 63)).toUInt64

def unzigzag32 (n : UInt32) : Int32 := (n >>> 1).toInt32 ^^^ -(n &&& 1).toInt32

def unzigzag64 (n : UInt64) : Int64 := (n >>> 1).toInt64 ^^^ -(n &&& 1).toInt64

/-- The form of a kind's records. -/
def form : ScalarKind → Nat
  | .double | .fixed64 | .sfixed64 => 1
  | .string | .bytes => 2
  | .float | .fixed32 | .sfixed32 => 5
  | _ => 0

def read? : ScalarKind → Payload → Option Scalar
  | .double, .fixed64 n => some (.double n)
  | .float, .fixed32 n => some (.float n)
  | .int32, .varint n => some (.int32 n.toUInt32.toInt32)
  | .int64, .varint n => some (.int64 n.toInt64)
  | .uint32, .varint n => some (.uint32 n.toUInt32)
  | .uint64, .varint n => some (.uint64 n)
  | .sint32, .varint n => some (.int32 (unzigzag32 n.toUInt32))
  | .sint64, .varint n => some (.int64 (unzigzag64 n))
  | .fixed32, .fixed32 n => some (.uint32 n)
  | .fixed64, .fixed64 n => some (.uint64 n)
  | .sfixed32, .fixed32 n => some (.int32 n.toInt32)
  | .sfixed64, .fixed64 n => some (.int64 n.toInt64)
  | .bool, .varint n => some (.bool (n != 0))
  | .string, .bytes bs => (Utf8.decode? bs).map .string
  | .bytes, .bytes bs => some (.bytes bs)
  | _, _ => none

def payload (k : ScalarKind) : Scalar → Payload
  | .bool b => .varint (if b then 1 else 0)
  | .int32 n => match k with
    | .sint32 => .varint (zigzag32 n).toUInt64
    | .sfixed32 => .fixed32 n.toUInt32
    | _ => .varint n.toInt64.toUInt64
  | .int64 n => match k with
    | .sint64 => .varint (zigzag64 n)
    | .sfixed64 => .fixed64 n.toUInt64
    | _ => .varint n.toUInt64
  | .uint32 n => if k = .fixed32 then .fixed32 n else .varint n.toUInt64
  | .uint64 n => if k = .fixed64 then .fixed64 n else .varint n
  | .float bits => .fixed32 bits
  | .double bits => .fixed64 bits
  | .string s => .bytes (Utf8.encode s)
  | .bytes bs => .bytes bs
  | .enum n => .varint n.toInt64.toUInt64

end ScalarKind

namespace Kind

def form : Kind → Nat
  | .scalar k => k.form
  | .enum _ => 0
  | .message _ => 2

/-- Whether lists of the kind may be written as one record. -/
def isPackable (k : Kind) : Bool := k.form != 2

def readScalar? : Kind → Payload → Option Scalar
  | .scalar k, p => k.read? p
  | .enum _, .varint n => some (.enum n.toUInt32.toInt32)
  | _, _ => none

def payload : Kind → Scalar → Payload
  | .scalar k, s => k.payload s
  | _, s => ScalarKind.payload .int32 s

end Kind

/-- The elements of a list written as one record. -/
def packed? (k : Kind) : Nat → List UInt8 → Option (List Value)
  | _, [] => some []
  | 0, _ => none
  | fuel + 1, input => do
    let (p, rest) ← payload? 0 0 0 k.form input
    return .scalar (← k.readScalar? p) :: (← packed? k fuel rest)

section Reading

variable (nested : Message → List UInt8 → Option Message) (room : Nat)

/-- One value of the kind; a message is merged into `old` if that is one. -/
def readValue? (pool : Pool) (k : Kind) (old : Option Value) (p : Payload) : Option Value :=
  match k, p with
  | .message name, .bytes bs =>
    let start := match old with
      | some (.message m) => m
      | _ => .empty (pool.message name)
    (nested start bs).map .message
  | k, p => (k.readScalar? p).map .scalar

/-- A map's entry: key and value, each the last of its records or the default. It is no level of its
own, but other records in it count against the levels that are left. -/
def readPair? (pool : Pool) (key : ScalarKind) (f : Field) (bs : List UInt8) :
    Option (Key × Value) := do
  let unset := { f with arity := .single true }.default pool
  let step (kv : Scalar × Value) (r : Record) : Option (Scalar × Value) :=
    match r.1 with
    | 1 => do return (← key.read? r.2, kv.2)
    | 2 => do return (kv.1, ← readValue? nested pool f.kind (some kv.2) r.2)
    | _ => if r.2.levels ≤ room then some kv else none
  let (k, v) ← (← records? room bs).foldlM step (key.zero, unset)
  return (← Key.ofScalar? k, v)

/-- Merges one record into a message. -/
def mergeRecord? (m : Message) (r : Record) : Option Message :=
  match m.type.fieldAt? r.1 with
  | none => some (m.addUnknown r)
  | some f =>
    let pool := m.type.pool
    match f.arity, r.2, m.stored? f with
    | .map key _, .bytes bs, old => do
      let (k, v) ← readPair? nested room pool key f bs
      let entries := match old with | some (.map es) => es | _ => []
      return m.set f (.map (putEntry k v entries))
    | .map .., _, _ => none
    | .list _, p, old => do
      let items := match old with | some (.list items) => items | _ => []
      let more ← match p with
        | .bytes bs =>
          if f.kind.isPackable then packed? f.kind bs.length bs
          else (readValue? nested pool f.kind none p).map ([·])
        | p => (readValue? nested pool f.kind none p).map ([·])
      return m.set f (.list (items ++ more))
    | .single _, p, old => do return m.set f (← readValue? nested pool f.kind old p)

/-- Merges the records of `input` into a message. -/
def mergeAll? (m : Message) (input : List UInt8) : Option Message := do
  (← records? room input).foldlM (mergeRecord? nested room) m

end Reading

/-- Merges a binary message with `room` further levels of nesting. -/
def merge? : Nat → Message → List UInt8 → Option Message
  | 0 => mergeAll? (fun _ _ => none) 0
  | room + 1 => mergeAll? (merge? room) (room + 1)

def Message.decode? (t : MessageType) (input : List UInt8) : Option Message :=
  merge? maxNesting (.empty t) input

/-- A payload without its tag, as it stands in a packed list. -/
def bare : Payload → List UInt8
  | .varint n => varint n
  | .fixed64 n => littleEndian 8 n.toNat
  | .fixed32 n => littleEndian 4 n.toNat
  | .bytes bs => bs
  | .group _ => []

/-- Records in the order of their numbers. -/
def inOrder (records : List Record) : List Record := records.mergeSort fun a b => a.1 ≤ b.1

/-- The key of a map's entry; a default is left out unless presence is tracked. -/
def encodeKey (key : ScalarKind) (tracked : Bool) (k : Key) : List UInt8 :=
  if !tracked && k.toScalar.same key.zero then [] else (key.payload k.toScalar).encode 1

/-- Whether a value is left out of a map's entry. -/
def isOmitted (f : Field) (tracked : Bool) : Value → Bool
  | .scalar s => !tracked && s.same f.fallback
  | _ => false

mutual
/-- A value as a record of field `number`. -/
def Value.encodeAs (number : Nat) (k : Kind) : Value → List UInt8
  | .scalar s => (k.payload s).encode number
  | .message m => delimited number m.encode
  | .list items => encodeItems number k items
  | .map _ => []

def encodeItems (number : Nat) (k : Kind) : List Value → List UInt8
  | [] => []
  | v :: rest => v.encodeAs number k ++ encodeItems number k rest

def packItems (k : Kind) : List Value → List UInt8
  | [] => []
  | .scalar s :: rest => bare (k.payload s) ++ packItems k rest
  | _ :: rest => packItems k rest

def encodeEntries (f : Field) (key : ScalarKind) (tracked : Bool) :
    List (Key × Value) → List UInt8
  | [] => []
  | (k, v) :: rest =>
    delimited f.number
        (encodeKey key tracked k ++ if isOmitted f tracked v then [] else v.encodeAs 2 f.kind)
      ++ encodeEntries f key tracked rest

def encodeField (f : Field) : Value → List UInt8
  | .list items =>
    if f.arity = .list true ∧ f.kind.isPackable then delimited f.number (packItems f.kind items)
    else encodeItems f.number f.kind items
  | .map entries => match f.arity with
    | .map key tracked => encodeEntries f key tracked entries
    | _ => []
  | .scalar s => (f.kind.payload s).encode f.number
  | .message m => delimited f.number m.encode

/-- The encodings of the fields that count. -/
def encodeFields (t : MessageType) : List (Nat × Value) → List UInt8
  | [] => []
  | (n, v) :: rest =>
    match t.fieldAt? n with
    | some f => if f.counts v then encodeField f v ++ encodeFields t rest else encodeFields t rest
    | none => encodeFields t rest

def Message.encode : Message → List UInt8
  | .mk t fields unknown => encodeFields t fields ++ encodeAll (inOrder unknown)
end

/-! ## Depth -/

mutual
/-- The levels of nesting below a value, where each entry of a map counts for `entry` of them. -/
def Value.levels (entry : Nat) : Value → Nat
  | .scalar _ => 0
  | .message m => m.levels entry + 1
  | .list items => levelsOfItems entry items
  | .map entries => levelsOfEntries entry entries

def levelsOfItems (entry : Nat) : List Value → Nat
  | [] => 0
  | v :: rest => max (v.levels entry) (levelsOfItems entry rest)

def levelsOfEntries (entry : Nat) : List (Key × Value) → Nat
  | [] => 0
  | (_, v) :: rest => max (v.levels entry + entry) (levelsOfEntries entry rest)

def levelsOfFields (entry : Nat) : List (Nat × Value) → Nat
  | [] => 0
  | (_, v) :: rest => max (v.levels entry) (levelsOfFields entry rest)

/-- The levels that a reader needs for a message and for the kept records in it. -/
def Message.levels (entry : Nat) : Message → Nat
  | .mk _ fields unknown => max (levelsOfFields entry fields) (levelsOf unknown)
end

/-- Whether a message is not nested too deep for a reader that counts map entries as levels. -/
def Message.isShallow (m : Message) : Bool := m.levels 1 ≤ maxNesting

/-- Reads a message with a reader that counts map entries as levels. -/
def Message.decodeStrict? (t : MessageType) (input : List UInt8) : Option Message :=
  (decode? t input).filter isShallow

/-- The message read as another type of the same encoding, itself when the types are the same. -/
def Message.convert? (m : Message) (t : MessageType) : Option Message :=
  if m.type.same t then some m else decode? t m.encode

end Patchwork.Proto
