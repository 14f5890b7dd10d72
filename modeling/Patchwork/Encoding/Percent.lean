import Patchwork.Encoding.Hex

/-!
# Percent encoding

A percent sign and two hexadecimal digits stand for a byte. A percent sign without two digits after
it stands for itself, as all other bytes do.
-/

namespace Patchwork.Percent

/-- The byte whose two digits are given as bytes. -/
def byte? (high low : UInt8) : Option UInt8 := do
  return .ofNat ((← Hex.digit? (.ofNat high.toNat)) * 16 + (← Hex.digit? (.ofNat low.toNat)))

/-- Reads bytes from left to right; what a percent sign stands for is not read again. -/
def decode : List UInt8 → List UInt8
  | [] => []
  | 37 :: high :: low :: rest => match byte? high low with
    | some b => b :: decode rest
    | none => 37 :: decode (high :: low :: rest)
  | b :: rest => b :: decode rest

@[simp] theorem decode_nil : decode [] = [] := by simp [decode]

/-- Bytes without a percent sign among them stand for themselves. -/
theorem decode_of_notMem (bytes : List UInt8) (h : 37 ∉ bytes) : decode bytes = bytes := by
  fun_induction decode bytes with
  | case1 => rfl
  | case2 => simp at h
  | case3 => simp at h
  | case4 b rest _ ih => rw [ih fun m => h (.tail _ m)]

end Patchwork.Percent
