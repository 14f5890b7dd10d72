/-!
# Hexadecimal text

Two digits stand for a byte, that of the upper half first. Digits are written in lower case and
read in either case.
-/

namespace Patchwork.Hex

def digit (n : Nat) : Char :=
  if n < 10 then Char.ofNat ('0'.toNat + n) else Char.ofNat ('a'.toNat + (n - 10))

def digit? (c : Char) : Option Nat :=
  if '0' ≤ c ∧ c ≤ '9' then some (c.toNat - '0'.toNat)
  else if 'a' ≤ c ∧ c ≤ 'f' then some (c.toNat - 'a'.toNat + 10)
  else if 'A' ≤ c ∧ c ≤ 'F' then some (c.toNat - 'A'.toNat + 10)
  else none

theorem digit?_digit : ∀ n < 16, digit? (digit n) = some n := by decide

def byteDigits (b : UInt8) : List Char := [digit (b.toNat / 16), digit (b.toNat % 16)]

def encode (bytes : List UInt8) : String := String.ofList (bytes.flatMap byteDigits)

def bytes? : List Char → Option (List UInt8)
  | [] => some []
  | [_] => none
  | a :: b :: rest => do return .ofNat ((← digit? a) * 16 + (← digit? b)) :: (← bytes? rest)

def decode? (text : String) : Option (List UInt8) := bytes? text.toList

theorem bytes?_byteDigits (b : UInt8) (text : List Char) :
    bytes? (byteDigits b ++ text) = (bytes? text).map (b :: ·) := by
  have hb := b.toNat_lt
  have h : UInt8.ofNat (b.toNat / 16 * 16 + b.toNat % 16) = b := by
    rw [show b.toNat / 16 * 16 + b.toNat % 16 = b.toNat by omega, UInt8.ofNat_toNat]
  simp only [byteDigits, List.cons_append, List.nil_append, bytes?,
    digit?_digit (b.toNat / 16) (by omega), digit?_digit (b.toNat % 16) (by omega)]
  cases bytes? text <;> simp only [bind, Option.bind, pure, Option.map, h]

theorem bytes?_flatMap (bytes : List UInt8) : bytes? (bytes.flatMap byteDigits) = some bytes := by
  induction bytes with
  | nil => rfl
  | cons b rest ih => simp [bytes?_byteDigits, ih]

@[simp] theorem decode?_encode (bytes : List UInt8) : decode? (encode bytes) = some bytes := by
  simp [decode?, encode, bytes?_flatMap]

/-- The number that some digits spell. -/
def number? (text : String) : Option Nat :=
  text.toList.foldlM (fun n c => (digit? c).map (n * 16 + ·)) 0

end Patchwork.Hex
