import Patchwork.Proofs.Base64
import Patchwork.Proofs.Conforming
import Patchwork.Proofs.OnePool

/-!
# Scalars by their JSON forms

Different scalars of one kind have different JSON forms, and none of these is null, which can stand for
the default in lists and maps. Floating-point numbers are left out, since all NaNs are written alike,
and so is the enum whose values are all null.
-/

namespace Patchwork
open Proto

/-! ## Bytes -/

/-- Different byte sequences have different texts. -/
theorem Base64.encode_injective {bs bs' : List UInt8} (h : encode bs = encode bs') : bs = bs' := by
  have same : spelled true bs = spelled true bs' := by
    rw [spelled_true, spelled_true]
    exact String.ofList_injective h
  have read := decode_spelled true bs
  rw [same, decode_spelled] at read
  exact (Option.some.inj read).symm

/-! ## Enum values -/

theorem Proto.Pool.NamesValues.enum {pool : Pool} (h : pool.NamesValues) (name : String) :
    ((pool.enum name).values.map (·.1)).Nodup := by
  unfold Pool.enum
  cases found : pool.enums.find? (·.name == name) with
  | none => exact .nil
  | some e => exact h e (List.mem_of_find?_eq_some found)

/-- A number that has no name is written as it is, and a name is that of one number. -/
theorem enumJson_injective {e : EnumInfo} {n n' : Int32} (names : (e.values.map (·.1)).Nodup)
    (h : enumJson e n = enumJson e n') : n = n' := by
  unfold enumJson at h
  cases hn : e.name? n with
  | none =>
    cases hn' : e.name? n' with
    | none =>
      rw [hn, hn'] at h
      exact Int32.toInt_inj.mp (Json.int.inj h)
    | some name' => simp [hn, hn'] at h
  | some name =>
    cases hn' : e.name? n' with
    | none => simp [hn, hn'] at h
    | some name' =>
      obtain rfl : name = name' := by simpa [hn, hn'] using h
      have same := List.inj_on_of_nodup_map names (EnumInfo.mem_of_name? hn)
        (EnumInfo.mem_of_name? hn') rfl
      exact congrArg Prod.snd same

/-! ## Plain scalars -/

/-- The scalars of a type can be told apart by their forms. -/
def ScalarType.IsDiscrete (t : ScalarType) : Prop := t ≠ .float ∧ t ≠ .double ∧ t ≠ .null

instance (t : ScalarType) : Decidable t.IsDiscrete :=
  inferInstanceAs (Decidable (t ≠ .float ∧ t ≠ .double ∧ t ≠ .null))

theorem plainJson_injective {s s' : Scalar} (discrete : s.type.IsDiscrete) (type : s.type = s'.type)
    (h : plainJson s = plainJson s') : s = s' := by
  obtain ⟨single, double, _⟩ := discrete
  cases s with
  | bool b =>
    cases s' with
    | bool b' => rw [Json.bool.inj h]
    | _ => cases type
  | int32 n =>
    cases s' with
    | int32 n' => rw [Int32.toInt_inj.mp (Json.int.inj h)]
    | _ => cases type
  | int64 n =>
    cases s' with
    | int64 n' => rw [Int64.toInt_inj.mp (Int.repr_injective (Json.str.inj h))]
    | _ => cases type
  | uint32 n =>
    cases s' with
    | uint32 n' => rw [UInt32.toNat_inj.mp (Int.ofNat.inj (Json.int.inj h))]
    | _ => cases type
  | uint64 n =>
    cases s' with
    | uint64 n' => rw [UInt64.toNat_inj.mp (Nat.repr_injective (Json.str.inj h))]
    | _ => cases type
  | float bits => cases single rfl
  | double bits => cases double rfl
  | string s =>
    cases s' with
    | string s' => rw [Json.str.inj h]
    | _ => cases type
  | bytes bs =>
    cases s' with
    | bytes bs' => rw [Base64.encode_injective (Json.str.inj h)]
    | _ => cases type
  | enum n =>
    cases s' with
    | enum n' => rw [Int32.toInt_inj.mp (Json.int.inj h)]
    | _ => cases type

theorem plainJson_ne_null {s : Scalar} (discrete : s.type.IsDiscrete) : plainJson s ≠ .null := by
  obtain ⟨single, double, _⟩ := discrete
  cases s with
  | float bits => cases single rfl
  | double bits => cases double rfl
  | _ => simp [plainJson]

namespace Formatting

/-- A scalar type has one default. -/
theorem eq_of_isDefault {s s' : Scalar} (discrete : s.type.IsDiscrete) (type : s.type = s'.type)
    (h : isDefault s) (h' : isDefault s') : s = s' := by
  obtain ⟨single, double, _⟩ := discrete
  cases s <;> cases s' <;> cases type <;> simp_all [isDefault, Scalar.type]

end Formatting

/-! ## Scalars of a kind -/

section

variable {pool : Pool} {k : Kind} {e : ScalarType} {s s' : Scalar}

theorem Proto.Scalar.IsOf.type_eq (h : s.IsOf k) (h' : s'.IsOf k) : s.type = s'.type := by
  cases k with
  | scalar kind => exact Eq.trans h (Eq.symm h')
  | enum name => exact Eq.trans h (Eq.symm h')
  | message name => exact h.elim

theorem Proto.Scalar.IsOf.isDiscrete (h : s.IsOf k) (element : Element.ofKind pool k = .scalar e)
    (discrete : e.IsDiscrete) : s.type.IsDiscrete := by
  cases k with
  | scalar kind =>
    have type : s.type = .ofKind kind := h
    rw [type, Element.scalar.inj element]
    exact discrete
  | enum name =>
    have type : s.type = .enum := h
    rw [type]
    decide
  | message name => exact h.elim

namespace Formatting

theorem scalarJson_scalar {kind : ScalarKind} (discrete : s.type.IsDiscrete) :
    scalarJson pool (.scalar kind) s = plainJson s := by
  cases s with
  | float bits => exact absurd rfl discrete.1
  | _ => rfl

/-- An enum value that is not null is written by its name or number. -/
theorem scalarJson_enum {name : String} (h : s.IsOf (.enum name))
    (element : Element.ofKind pool (.enum name) = .scalar e) (discrete : e.IsDiscrete) :
    ∃ n, s = .enum n ∧ scalarJson pool (.enum name) s = enumJson (pool.enum name) n := by
  have named : name ≠ nullValue := by
    rintro rfl
    exact discrete.2.2 (Element.scalar.inj element).symm
  cases s with
  | enum n => exact ⟨n, rfl, if_neg named⟩
  | _ => cases h

theorem scalarJson_ne_null (h : s.IsOf k) (element : Element.ofKind pool k = .scalar e)
    (discrete : e.IsDiscrete) : scalarJson pool k s ≠ .null := by
  cases k with
  | scalar kind =>
    have own := h.isDiscrete element discrete
    rw [scalarJson_scalar own]
    exact plainJson_ne_null own
  | enum name =>
    obtain ⟨n, rfl, form⟩ := scalarJson_enum h element discrete
    rw [form]
    unfold enumJson
    split <;> simp
  | message name => exact h.elim

theorem scalarJson_injective (names : pool.NamesValues) (h : s.IsOf k) (h' : s'.IsOf k)
    (element : Element.ofKind pool k = .scalar e) (discrete : e.IsDiscrete)
    (same : scalarJson pool k s = scalarJson pool k s') : s = s' := by
  cases k with
  | scalar kind =>
    have own := h.isDiscrete element discrete
    rw [scalarJson_scalar own, scalarJson_scalar (h'.isDiscrete element discrete)] at same
    exact plainJson_injective own (h.type_eq h') same
  | enum name =>
    obtain ⟨n, rfl, form⟩ := scalarJson_enum h element discrete
    obtain ⟨n', rfl, form'⟩ := scalarJson_enum h' element discrete
    rw [form, form'] at same
    rw [enumJson_injective (names.enum name) same]
  | message name => exact h.elim

/-- So null in a list or map stands for one scalar only. -/
theorem scalarForm_injective (names : pool.NamesValues) (h : s.IsOf k) (h' : s'.IsOf k)
    (element : Element.ofKind pool k = .scalar e) (discrete : e.IsDiscrete) {inside : Bool}
    (same : (if inside && isDefault s then Json.null else scalarJson pool k s) =
      if inside && isDefault s' then Json.null else scalarJson pool k s') : s = s' := by
  have null := scalarJson_ne_null h element discrete
  have null' := scalarJson_ne_null h' element discrete
  by_cases hd : inside && isDefault s
  · by_cases hd' : inside && isDefault s'
    · simp only [Bool.and_eq_true] at hd hd'
      exact eq_of_isDefault (h.isDiscrete element discrete) (h.type_eq h') hd.2 hd'.2
    · rw [if_pos hd, if_neg hd'] at same
      exact absurd same.symm null'
  · by_cases hd' : inside && isDefault s'
    · rw [if_neg hd, if_pos hd'] at same
      exact absurd same null
    · rw [if_neg hd, if_neg hd'] at same
      exact scalarJson_injective names h h' element discrete same

end Formatting

end

end Patchwork
