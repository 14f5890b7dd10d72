import Patchwork.Encoding.Utf8

/-!
# Wire records

The untyped layer of the binary encoding: a message is a sequence of records, each a field number
and a payload of one of five forms. What a payload means is settled by the field's type.
-/

namespace Patchwork.Proto.Wire

inductive Payload where
  | varint (n : UInt64)
  | fixed64 (n : UInt64)
  | bytes (bs : List UInt8)
  | group (records : List (Nat × Payload))
  | fixed32 (n : UInt32)
  deriving Inhabited

abbrev Record := Nat × Payload

/-- The seven-bit groups of a number, least significant first. -/
def varintOf : Nat → Nat → List UInt8
  | 0, n => [.ofNat (n % 128)]
  | fuel + 1, n => if n < 128 then [.ofNat n] else .ofNat (n % 128 + 128) :: varintOf fuel (n / 128)

/-- Ten groups hold 64 bits. -/
def varint (n : UInt64) : List UInt8 := varintOf 9 n.toNat

/-- Reads groups from place `k` on; the tenth group holds one bit. -/
def varintFrom (k : Nat) : List UInt8 → Option (Nat × List UInt8)
  | [] => none
  | b :: rest =>
    if 9 < k ∨ k = 9 ∧ 1 < b then none
    else if b < 128 then some (b.toNat * Nat.pow 128 k, rest)
    else do
      let (n, rest) ← varintFrom (k + 1) rest
      return ((b.toNat - 128) * Nat.pow 128 k + n, rest)

def varint? (input : List UInt8) : Option (UInt64 × List UInt8) :=
  (varintFrom 0 input).map fun (n, rest) => (.ofNat n, rest)

/-- The `width` low bytes of a number, least significant first. -/
def littleEndian : Nat → Nat → List UInt8
  | 0, _ => []
  | width + 1, n => .ofNat n :: littleEndian width (n / 256)

def ofLittleEndian (bytes : List UInt8) : Nat := bytes.foldr (fun b n => b.toNat + 256 * n) 0

def split? (n : Nat) (input : List UInt8) : Option (List UInt8 × List UInt8) :=
  if n ≤ input.length then some (input.splitAt n) else none

/-- The field number and the form at the head of a record. -/
def tag? (input : List UInt8) : Option (Nat × Nat × List UInt8) := do
  let (key, rest) ← varint? input
  let number := key.toNat / 8
  if key.toNat < 4294967296 ∧ 0 < number then some (number, key.toNat % 8, rest) else none

mutual
/-- The payload of form `form`, after its tag. Groups may be nested `room` levels deep. -/
def payload? (fuel room number form : Nat) (input : List UInt8) : Option (Payload × List UInt8) :=
  match fuel, form with
  | _, 0 => do
    let (n, rest) ← varint? input
    return (.varint n, rest)
  | _, 1 => do
    let (bs, rest) ← split? 8 input
    return (.fixed64 (.ofNat (ofLittleEndian bs)), rest)
  | _, 2 => do
    let (n, rest) ← varint? input
    let (bs, rest) ← split? n.toNat rest
    return (.bytes bs, rest)
  | _, 5 => do
    let (bs, rest) ← split? 4 input
    return (.fixed32 (.ofNat (ofLittleEndian bs)), rest)
  | fuel + 1, 3 => do
    if room = 0 then none
    let (records, rest) ← groupRecords? fuel (room - 1) number input
    return (.group records, rest)
  | _, _ => none

/-- The records of a group up to its end tag. -/
def groupRecords? (fuel room group : Nat) (input : List UInt8) :
    Option (List Record × List UInt8) :=
  match fuel with
  | 0 => none
  | fuel + 1 => do
    let (number, form, rest) ← tag? input
    if form = 4 then
      if number = group then return ([], rest) else none
    else
      let (p, rest) ← payload? fuel room number form rest
      let (records, rest) ← groupRecords? fuel room group rest
      return ((number, p) :: records, rest)
end

/-- Reads records to the end of the input, `fuel` of them at most. -/
def recordsFrom? (room : Nat) : Nat → List UInt8 → Option (List Record)
  | _, [] => some []
  | 0, _ => none
  | fuel + 1, input => do
    let (number, form, rest) ← tag? input
    let (p, rest) ← payload? input.length room number form rest
    return (number, p) :: (← recordsFrom? room fuel rest)

/-- The records of a message with `room` further levels of nesting. -/
def records? (room : Nat) (input : List UInt8) : Option (List Record) :=
  recordsFrom? room input.length input

mutual
/-- The levels of nesting that a strict reader of a payload goes through. -/
def Payload.levels : Payload → Nat
  | .group records => levelsOf records + 1
  | _ => 1

/-- The levels of the deepest record. -/
def levelsOf : List Record → Nat
  | [] => 0
  | (_, p) :: rest => max p.levels (levelsOf rest)
end

def tag (number form : Nat) : List UInt8 := varint (.ofNat (number * 8 + form))

def delimited (number : Nat) (bs : List UInt8) : List UInt8 :=
  tag number 2 ++ varint (.ofNat bs.length) ++ bs

mutual
def Payload.encode (number : Nat) : Payload → List UInt8
  | .varint n => tag number 0 ++ varint n
  | .fixed64 n => tag number 1 ++ littleEndian 8 n.toNat
  | .bytes bs => delimited number bs
  | .group records => tag number 3 ++ encodeAll records ++ tag number 4
  | .fixed32 n => tag number 5 ++ littleEndian 4 n.toNat

def encodeAll : List Record → List UInt8
  | [] => []
  | (number, p) :: rest => p.encode number ++ encodeAll rest
end

end Patchwork.Proto.Wire
