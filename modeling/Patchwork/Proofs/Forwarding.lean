import Patchwork.Proofs.Base64
import Patchwork.Proofs.Operations
import Patchwork.Proofs.Sending

/-!
# Which headers go on

The metadata of a call has, under each name, the values of the headers of that name that are let
through and have a form as metadata, in the order in which they came in. The names of the headers
that are not let through, and the forms, are stated here on their own.
-/

namespace Patchwork
open Metadata (isBinary operationsName)

/-- Whether headers of a name go on under a policy that excludes further names. -/
structure Admits (names : List String) (name : String) : Prop where
  notDenied : Case.lower name ∉ deniedNames
  notStarted : ∀ start ∈ deniedPrefixes, ¬start.toList <+: (Case.lower name).toList
  notExcluded : ∀ excluded ∈ names, Case.lower excluded ≠ Case.lower name
  notOperations : Case.lower name ≠ operationsName

theorem HeaderPolicy.excluded_foldl (names : List String) (p : HeaderPolicy) :
    (names.foldl exclude p).excluded = p.excluded ++ names.map Case.lower := by
  induction names generalizing p with
  | nil => simp
  | cons name rest ih => simp [ih, exclude]

theorem HeaderPolicy.excluded_excluding (names : List String) :
    (excluding names).excluded = names.map Case.lower := by
  rw [excluding, excluded_foldl, List.nil_append]

theorem HeaderPolicy.forwards_iff (names : List String) (name : String) :
    (excluding names).forwards name = true ↔ Admits names name := by
  have flat : (excluding names).forwards name = true ↔ ((Case.lower name ∉ deniedNames ∧
      Case.lower name ∉ names.map Case.lower) ∧ Case.lower name ≠ operationsName) ∧
      ∀ start ∈ deniedPrefixes, ¬start.toList <+: (Case.lower name).toList := by
    simp [forwards, excluded_excluding]
  rw [flat]
  constructor
  · rintro ⟨⟨⟨denied, excluded⟩, operations⟩, started⟩
    exact ⟨denied, started, fun x hx same => excluded (List.mem_map.mpr ⟨x, hx, same⟩), operations⟩
  · rintro ⟨denied, started, excluded, operations⟩
    refine ⟨⟨⟨denied, fun same => ?_⟩, operations⟩, started⟩
    obtain ⟨x, hx, same⟩ := List.mem_map.mp same
    exact excluded x hx same

/-- What a header value stands for as metadata: visible text for itself, and base64, with its
padding or without, for bytes. -/
inductive Represents (name : String) (value : List UInt8) : List UInt8 → Prop
  | text (notBinary : ¬"-bin".toList <:+ name.toList)
      (visible : ∀ b ∈ value, b = 9 ∨ 32 ≤ b ∧ b ≤ 126) : Represents name value value
  | bytes {bytes : List UInt8} (binary : "-bin".toList <:+ name.toList)
      (symbols : value.map (fun b => Char.ofNat b.toNat) = Base64.symbols bytes ∨
        value.map (fun b => Char.ofNat b.toNat) = (Base64.symbols bytes).filter (· ≠ '=')) :
      Represents name value bytes

theorem isVisible_iff (b : UInt8) : isVisible b = true ↔ b = 9 ∨ 32 ≤ b ∧ b ≤ 126 := by
  simp only [isVisible, Bool.or_eq_true, Bool.and_eq_true, decide_eq_true_eq, beq_iff_eq,
    ← UInt8.toNat_inj, UInt8.le_iff_toNat_le, UInt8.lt_iff_toNat_lt, UInt8.reduceToNat]
  omega

theorem metadataValue?_eq_some_iff {name : String} {value v : List UInt8} :
    metadataValue? name value = some v ↔ Represents name value v := by
  have kind : isBinary name = true ↔ "-bin".toList <:+ name.toList := by
    rw [isBinary, ← String.endsWith_toSlice, String.Slice.endsWith_string_iff, String.copy_toSlice]
  unfold metadataValue?
  by_cases binary : isBinary name = true
  · rw [if_pos binary, Base64.decodeExact_eq_some_iff]
    refine ⟨.bytes (kind.mp binary), fun h => ?_⟩
    cases h with
    | text notBinary => exact absurd (kind.mp binary) notBinary
    | bytes _ symbols => exact symbols
  · rw [if_neg binary]
    have visible : value.all isVisible = true ↔ ∀ b ∈ value, b = 9 ∨ 32 ≤ b ∧ b ≤ 126 := by
      simp only [List.all_eq_true, isVisible_iff]
    constructor
    · intro h
      split at h
      · next all =>
        cases h
        exact .text (mt kind.mpr binary) (visible.mp all)
      · cases h
    · intro h
      cases h with
      | text _ all => rw [if_pos (visible.mpr all)]
      | bytes yes => exact absurd (kind.mpr yes) binary

theorem Represents.unique {name : String} {value v w : List UInt8} (h : Represents name value v)
    (h' : Represents name value w) : v = w :=
  Option.some.inj
    ((metadataValue?_eq_some_iff.mpr h).symm.trans (metadataValue?_eq_some_iff.mpr h'))

/-- The values under a name that headers give, in order: those of the headers of the name that go on
and have a form. -/
inductive Forwarded (names : List String) (name : String) : Fields → List (List UInt8) → Prop
  | nil : Forwarded names name [] []
  | kept {value v : List UInt8} {rest : Fields} {values : List (List UInt8)}
      (admits : Admits names name) (form : Represents name value v)
      (h : Forwarded names name rest values) :
      Forwarded names name ((name, value) :: rest) (v :: values)
  | passed {field : String × List UInt8} {rest : Fields} {values : List (List UInt8)}
      (dropped : ¬(field.1 = name ∧ Admits names name ∧ ∃ v, Represents name field.2 v))
      (h : Forwarded names name rest values) : Forwarded names name (field :: rest) values

/-- Headers give one list of values under a name. -/
theorem Forwarded.unique {names : List String} {name : String} {headers : Fields}
    {values values' : List (List UInt8)} (h : Forwarded names name headers values)
    (h' : Forwarded names name headers values') : values = values' := by
  induction h generalizing values' with
  | nil =>
    cases h'
    rfl
  | kept admits form _ ih =>
    cases h' with
    | kept _ form' rest => rw [form.unique form', ih rest]
    | passed dropped _ => exact absurd ⟨rfl, admits, _, form⟩ dropped
  | passed dropped _ ih =>
    cases h' with
    | kept admits form _ => exact absurd ⟨rfl, admits, _, form⟩ dropped
    | passed _ rest => exact ih rest

/-- Whether a header goes on depends on its name, and in what form, on its name and its value. -/
theorem HeaderPolicy.values_metadata (p : HeaderPolicy) (headers : Fields) (name : String) :
    (p.metadata headers).values name =
      if p.forwards name then (Metadata.values headers name).filterMap (metadataValue? name)
      else [] := by
  simp only [metadata, Metadata.values, List.filterMap_filterMap, List.filterMap_filter]
  by_cases admitted : p.forwards name = true
  · rw [if_pos admitted]
    congr 1
    funext field
    obtain ⟨n, value⟩ := field
    by_cases same : n = name
    · subst same
      cases form : metadataValue? n value <;> simp [admitted, form]
    · cases metadataValue? n value <;> simp [same]
  · rw [if_neg admitted, List.filterMap_eq_nil_iff]
    rintro ⟨n, value⟩ _
    by_cases same : n = name
    · simp [same, admitted]
    · cases metadataValue? n value <;> simp [same]

/-- The values that headers give under a name. -/
theorem forwarded_metadata (names : List String) (name : String) (headers : Fields) :
    Forwarded names name headers
      (((HeaderPolicy.excluding names).metadata headers).values name) := by
  rw [HeaderPolicy.values_metadata]
  induction headers with
  | nil =>
    split <;> exact .nil
  | cons field rest ih =>
    obtain ⟨n, value⟩ := field
    by_cases goesOn : n = name ∧ Admits names name ∧ ∃ v, Represents name value v
    · obtain ⟨rfl, admits, v, form⟩ := goesOn
      have admitted := (HeaderPolicy.forwards_iff names n).mpr admits
      have here : Metadata.values ((n, value) :: rest) n = value :: Metadata.values rest n := by
        simp [Metadata.values]
      rw [if_pos admitted] at ih ⊢
      rw [here, List.filterMap_cons, metadataValue?_eq_some_iff.mpr form]
      exact .kept admits form ih
    · refine .passed goesOn ?_
      split at ih
      · next admitted =>
        rw [if_pos admitted]
        by_cases same : n = name
        · subst same
          have formless : metadataValue? n value = none := by
            refine Option.eq_none_iff_forall_not_mem.mpr fun v form => goesOn ⟨rfl, ?_, v, ?_⟩
            · exact (HeaderPolicy.forwards_iff names n).mp admitted
            · exact metadataValue?_eq_some_iff.mp form
          simpa [Metadata.values, formless] using ih
        · simpa [Metadata.values, same] using ih
      · next denied => rwa [if_neg denied]

end Patchwork
