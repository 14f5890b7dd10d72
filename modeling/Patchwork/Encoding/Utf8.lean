/-!
# UTF-8

Byte sequences and the characters they spell. A byte that belongs to no well-formed character
is kept as a gap, so that a reader of a larger text can decide whether the damage matters. A reader
of a whole text says where the damage is.
-/

namespace Patchwork.Utf8

def encode (text : String) : List UInt8 := text.toList.flatMap String.utf8EncodeChar

/-- The low six bits of a continuation byte. -/
def tail? (b : UInt8) : Option Nat := if 0x80 ≤ b ∧ b ≤ 0xBF then some (b.toNat - 0x80) else none

/-- The character `code`, if it is one and needs `width` bytes. -/
def scalar? (least code width : Nat) : Option (Char × Nat) :=
  if least ≤ code ∧ code.isValidChar then some (Char.ofNat code, width) else none

/-- The character at the head of a byte sequence and the number of its bytes. -/
def head? : List UInt8 → Option (Char × Nat)
  | [] => none
  | b :: rest => do
    if b < 0x80 then scalar? 0 b.toNat 1
    else if 0xC0 ≤ b ∧ b < 0xE0 then
      let b₁ ← rest[0]?
      scalar? 0x80 ((b.toNat - 0xC0) * 64 + (← tail? b₁)) 2
    else if 0xE0 ≤ b ∧ b < 0xF0 then
      let b₁ ← rest[0]?
      let b₂ ← rest[1]?
      scalar? 0x800 ((b.toNat - 0xE0) * 4096 + (← tail? b₁) * 64 + (← tail? b₂)) 3
    else if 0xF0 ≤ b ∧ b < 0xF8 then
      let b₁ ← rest[0]?
      let b₂ ← rest[1]?
      let b₃ ← rest[2]?
      scalar? 0x10000
        ((b.toNat - 0xF0) * 262144 + (← tail? b₁) * 4096 + (← tail? b₂) * 64 + (← tail? b₃)) 4
    else none

/-- The characters after the first `taken` bytes, `none` for each byte that is part of none. -/
def glyphsFrom (taken : Nat) : List UInt8 → List (Option Char)
  | [] => []
  | b :: rest =>
    match taken with
    | n + 1 => glyphsFrom n rest
    | 0 => match head? (b :: rest) with
      | some (c, width) => some c :: glyphsFrom (width - 1) rest
      | none => none :: glyphsFrom 0 rest

def glyphs (bytes : List UInt8) : List (Option Char) := glyphsFrom 0 bytes

/-- The text that a byte sequence spells, if all of it is well formed. -/
def decode? (bytes : List UInt8) : Option String :=
  ((glyphs bytes).mapM id).map String.ofList

/-! ## Damage -/

/-- Where bytes stop spelling characters, and how many of them are to blame: none when they end
inside of a character. -/
structure Damage where
  index : Nat
  length : Option Nat
  deriving DecidableEq, Repr

def Damage.message (d : Damage) : String :=
  let place := " from index " ++ toString d.index
  match d.length with
  | some n => "invalid utf-8 sequence of " ++ toString n ++ " bytes" ++ place
  | none => "incomplete utf-8 byte sequence" ++ place

/-- The least value of the second byte of a character after the first. -/
def low (b : UInt8) : UInt8 := if b = 0xE0 then 0xA0 else if b = 0xF0 then 0x90 else 0x80

/-- The greatest value of the second byte of a character after the first. -/
def high (b : UInt8) : UInt8 := if b = 0xED then 0x9F else if b = 0xF4 then 0x8F else 0xBF

/-- Whether bytes are the start of a character that needs more of them. -/
def isStart : List UInt8 → Bool
  | [b] => 0xC2 ≤ b && b ≤ 0xF4
  | [b, b₁] => 0xE0 ≤ b && b ≤ 0xF4 && low b ≤ b₁ && b₁ ≤ high b
  | [b, b₁, b₂] => 0xF0 ≤ b && b ≤ 0xF4 && low b ≤ b₁ && b₁ ≤ high b && (tail? b₂).isSome
  | _ => false

/-- The number of bytes up to the first that belongs to no character. -/
def soundLength (bytes : List UInt8) : Nat :=
  ((glyphs bytes).takeWhile (·.isSome)).foldl (fun n c => n + (c.map Char.utf8Size).getD 0) 0

/-- The first damage of bytes that spell no text. -/
def damage (bytes : List UInt8) : Damage :=
  let index := soundLength bytes
  let rest := bytes.drop index
  if isStart rest then ⟨index, none⟩
  else if isStart (rest.take 3) then ⟨index, some 3⟩
  else if isStart (rest.take 2) then ⟨index, some 2⟩
  else ⟨index, some 1⟩

/-- The text that a byte sequence spells, or what is wrong with it. -/
def read (bytes : List UInt8) : Except Damage String :=
  match decode? bytes with
  | some text => .ok text
  | none => .error (damage bytes)

end Patchwork.Utf8
