import Patchwork.Encoding.Utf8
import Patchwork.Proofs.Reordered

/-!
# Ascending keys

The keys of a map come in ascending order: numbers by their size, false before true and texts by the
bytes of their UTF-8 form. Characters of smaller numbers have smaller bytes, so that it does not matter
whether texts are compared by characters or by bytes.
-/

namespace Patchwork
open Proto

namespace Utf8

/-- One sequence of bytes comes before another one. -/
abbrev Before : List UInt8 → List UInt8 → Prop := List.Lex (· < ·)

theorem ofNat_lt {a b : Nat} (small : b < 256) (lt : a < b) : UInt8.ofNat a < UInt8.ofNat b := by
  rw [UInt8.lt_iff_toNat_lt]
  simp
  omega

/-- The first byte decides, or the bytes after it. -/
theorem before_cons {a b : Nat} {as bs : List UInt8} (small : b < 256) (le : a ≤ b)
    (after : a = b → Before as bs) : Before (UInt8.ofNat a :: as) (UInt8.ofNat b :: bs) := by
  by_cases same : a = b
  · subst same
    exact .cons (after rfl)
  · exact .rel (ofNat_lt small (by omega))

/-- The bytes of a smaller character are smaller, whatever follows. -/
theorem encodeChar_before {c d : Char} (lt : c < d) (after after' : List UInt8) :
    Before (String.utf8EncodeChar c ++ after) (String.utf8EncodeChar d ++ after') := by
  have lt : c.val.toNat < d.val.toNat := lt
  have limit : d.val.toNat < 0x110000 := by
    have valid := d.valid
    simp only [UInt32.isValidChar, Nat.isValidChar] at valid
    omega
  unfold String.utf8EncodeChar
  dsimp only
  generalize c.val.toNat = v at lt ⊢
  generalize d.val.toNat = w at lt limit ⊢
  -- Where the numbers of bytes differ, the first bytes do.
  by_cases v1 : v ≤ 127
  · simp only [v1, if_true]
    split_ifs <;> exact before_cons (by omega) (by omega) (by omega)
  by_cases v2 : v ≤ 2047
  · simp only [v1, v2, if_true, if_false]
    split_ifs with w1 w2 w3
    · omega
    · refine before_cons (by omega) (by omega) fun _ => ?_
      exact before_cons (by omega) (by omega) (by omega)
    · exact before_cons (by omega) (by omega) (by omega)
    · exact before_cons (by omega) (by omega) (by omega)
  by_cases v3 : v ≤ 65535
  · simp only [v1, v2, v3, if_true, if_false]
    split_ifs with w1 w2 w3
    · omega
    · omega
    · refine before_cons (by omega) (by omega) fun _ => ?_
      refine before_cons (by omega) (by omega) fun _ => ?_
      exact before_cons (by omega) (by omega) (by omega)
    · exact before_cons (by omega) (by omega) (by omega)
  · simp only [v1, v2, v3, if_false]
    split_ifs with w1 w2 w3
    · omega
    · omega
    · omega
    · refine before_cons (by omega) (by omega) fun _ => ?_
      refine before_cons (by omega) (by omega) fun _ => ?_
      refine before_cons (by omega) (by omega) fun _ => ?_
      exact before_cons (by omega) (by omega) (by omega)

theorem before_append {as bs : List UInt8} (h : Before as bs) (front : List UInt8) :
    Before (front ++ as) (front ++ bs) := by
  induction front with
  | nil => exact h
  | cons b front ih => exact .cons ih

theorem encodeChar_ne_nil (c : Char) : String.utf8EncodeChar c ≠ [] := by
  have length := String.length_utf8EncodeChar c
  have width := c.utf8Size_pos
  intro empty
  simp [empty] at length
  omega

/-- Texts are in the order of their bytes. -/
theorem encode_before {s t : String} (lt : s < t) : Before (encode s) (encode t) := by
  have chars : List.Lex (· < ·) s.toList t.toList := String.lt_iff_toList_lt.mp lt
  unfold encode
  generalize s.toList = cs at chars ⊢
  generalize t.toList = ds at chars ⊢
  induction chars with
  | @nil c cs =>
    rw [List.flatMap_nil, List.flatMap_cons]
    cases bytes : String.utf8EncodeChar c with
    | nil => exact absurd bytes (encodeChar_ne_nil c)
    | cons b bs => exact .nil
  | @cons c cs ds _ ih => exact before_append ih (String.utf8EncodeChar c)
  | @rel c cs d ds lt => exact encodeChar_before lt _ _

end Utf8

/-- One key comes before another one of its type: the smaller number, false before true, and the text
whose bytes come first. -/
def Proto.Key.Ascends : Key → Key → Prop
  | .bool a, .bool b => a = false ∧ b = true
  | .int32 a, .int32 b => a.toInt < b.toInt
  | .int64 a, .int64 b => a.toInt < b.toInt
  | .uint32 a, .uint32 b => a.toNat < b.toNat
  | .uint64 a, .uint64 b => a.toNat < b.toNat
  | .string a, .string b => Utf8.Before (Utf8.encode a) (Utf8.encode b)
  | _, _ => False

theorem Proto.Key.ascends {k l : Key} (type : k.toScalar.type = l.toScalar.type) (le : k.le l)
    (ne : k ≠ l) : k.Ascends l := by
  have apart : ¬l.le k := fun le' => ne (Key.le_antisymm le le')
  cases k with
  | bool a =>
    cases l with
    | bool b => cases a <;> cases b <;> simp_all [Key.le, Key.Ascends]
    | int32 n | int64 n | uint32 n | uint64 n | string s => cases type
  | int32 a =>
    cases l with
    | int32 b => simpa [Key.le, Key.Ascends, Int32.le_iff_toInt_le] using apart
    | bool b | int64 n | uint32 n | uint64 n | string s => cases type
  | int64 a =>
    cases l with
    | int64 b => simpa [Key.le, Key.Ascends, Int64.le_iff_toInt_le] using apart
    | bool b | int32 n | uint32 n | uint64 n | string s => cases type
  | uint32 a =>
    cases l with
    | uint32 b => simpa [Key.le, Key.Ascends, UInt32.le_iff_toNat_le] using apart
    | bool b | int32 n | int64 n | uint64 n | string s => cases type
  | uint64 a =>
    cases l with
    | uint64 b => simpa [Key.le, Key.Ascends, UInt64.le_iff_toNat_le] using apart
    | bool b | int32 n | int64 n | uint32 n | string s => cases type
  | string a =>
    cases l with
    | string b =>
      have lt : a < b := by simpa [Key.le] using apart
      exact Utf8.encode_before lt
    | bool b | int32 n | int64 n | uint32 n | uint64 n => cases type

/-- The entries of a map come in the ascending order of their keys. -/
theorem Formatting.ascending_sortEntries {entries : List (Key × Value)} (one : OneMap entries) :
    ((sortEntries entries).map (·.1)).Pairwise Key.Ascends := by
  have perm := sortEntries_perm entries
  apply List.pairwise_map.mpr
  apply (pairwise_sortEntries one.distinct).imp_of_mem
  intro a b ha hb before
  cases before with
  | entry le ne =>
    exact Key.ascends (one.typed a (perm.mem_iff.mp ha) b (perm.mem_iff.mp hb)) le ne

end Patchwork
