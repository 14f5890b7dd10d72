import Mathlib.Data.List.Basic
import Patchwork.Encoding.Base64

/-!
# Texts in base64

The strict reader accepts the symbols of a byte sequence, with all padding or with none, and gives
that sequence. It accepts nothing else.
-/

namespace Patchwork.Base64

/-! ## Symbols -/

abbrev symbol (n : Nat) : Char := Alphabet.standard.symbol n

theorem value?_symbol : ∀ n < 64, Alphabet.standard.value? (symbol n) = some n := by decide

theorem symbol_ne_pad : ∀ n < 64, symbol n ≠ '=' := by decide

theorem symbol_of_value? {c : Char} {n : Nat} (h : Alphabet.standard.value? c = some n) :
    n < 64 ∧ symbol n = c := by
  have bounds : ∀ first last : Char, first ≤ c ∧ c ≤ last →
      first.toNat ≤ c.toNat ∧ c.toNat ≤ last.toNat := fun _ _ h => h
  have upper : 'A'.toNat = 65 ∧ 'Z'.toNat = 90 := ⟨rfl, rfl⟩
  have lower : 'a'.toNat = 97 ∧ 'z'.toNat = 122 := ⟨rfl, rfl⟩
  have digits : '0'.toNat = 48 ∧ '9'.toNat = 57 := ⟨rfl, rfl⟩
  unfold Alphabet.value? at h
  split at h
  · next range =>
    have range := bounds _ _ range
    cases h
    refine ⟨by omega, ?_⟩
    unfold symbol Alphabet.symbol
    rw [if_pos (by omega), Nat.add_sub_cancel' range.1, Char.ofNat_toNat]
  · split at h
    · next range =>
      have range := bounds _ _ range
      cases h
      refine ⟨by omega, ?_⟩
      unfold symbol Alphabet.symbol
      rw [if_neg (by omega), if_pos (by omega), Nat.add_sub_cancel,
        Nat.add_sub_cancel' range.1, Char.ofNat_toNat]
    · split at h
      · next range =>
        have range := bounds _ _ range
        cases h
        refine ⟨by omega, ?_⟩
        unfold symbol Alphabet.symbol
        rw [if_neg (by omega), if_neg (by omega), if_pos (by omega), Nat.add_sub_cancel,
          Nat.add_sub_cancel' range.1, Char.ofNat_toNat]
      · split at h
        · cases h
          decide
        · cases h
          decide
        · next other _ _ _ => cases other
        · next other _ _ _ => cases other
        · cases h

/-- Symbols are read back. -/
theorem mapM_value? {values : List Nat} (h : ∀ n ∈ values, n < 64) :
    (values.map symbol).mapM Alphabet.standard.value? = some values := by
  induction values with
  | nil => rfl
  | cons n rest ih =>
    rw [List.map_cons, List.mapM_cons, value?_symbol n (h n (List.mem_cons_self ..)),
      ih fun m hm => h m (List.mem_cons_of_mem _ hm)]
    rfl

theorem of_mapM_value? {text : List Char} {values : List Nat}
    (h : text.mapM Alphabet.standard.value? = some values) :
    text = values.map symbol ∧ ∀ n ∈ values, n < 64 := by
  induction text generalizing values with
  | nil =>
    cases h
    exact ⟨rfl, by simp⟩
  | cons c rest ih =>
    rw [List.mapM_cons] at h
    obtain ⟨n, hn, h⟩ := Option.bind_eq_some_iff.mp h
    obtain ⟨ns, hns, h⟩ := Option.bind_eq_some_iff.mp h
    cases h
    obtain ⟨small, same⟩ := symbol_of_value? hn
    obtain ⟨rfl, smalls⟩ := ih hns
    exact ⟨by rw [List.map_cons, same], by simpa using ⟨small, smalls⟩⟩

/-! ## Spelling -/

/-- The symbols of a byte sequence, with its padding or without. -/
def spelled (padded : Bool) : List UInt8 → List Char
  | [] => []
  | [x] =>
    let n := x.toNat * 16
    [n / 64, n % 64].map symbol ++ if padded then ['=', '='] else []
  | [x, y] =>
    let n := (x.toNat * 256 + y.toNat) * 4
    [n / 4096, n / 64 % 64, n % 64].map symbol ++ if padded then ['='] else []
  | x :: y :: z :: rest =>
    let n := x.toNat * 65536 + y.toNat * 256 + z.toNat
    [n / 262144, n / 4096 % 64, n / 64 % 64, n % 64].map symbol ++ spelled padded rest

theorem spelled_true (bytes : List UInt8) : spelled true bytes = symbols bytes := by
  induction bytes using symbols.induct with
  | case1 => rfl
  | case2 x => rfl
  | case3 x y => rfl
  | case4 x y z rest ih =>
    rw [spelled, symbols, ih]
    rfl

/-- Without the padding all symbols are left. -/
theorem spelled_false (bytes : List UInt8) :
    spelled false bytes = (spelled true bytes).filter (· ≠ '=') := by
  have kept : ∀ values : List Nat, (∀ n ∈ values, n < 64) →
      (values.map symbol).filter (· ≠ '=') = values.map symbol := by
    intro values h
    refine List.filter_eq_self.mpr fun c hc => ?_
    obtain ⟨n, hn, rfl⟩ := List.mem_map.mp hc
    simpa using symbol_ne_pad n (h n hn)
  induction bytes using spelled.induct with
  | case1 => rfl
  | case2 x =>
    have := x.toNat_lt
    rw [spelled, spelled, List.filter_append, kept _ (by simp; omega)]
    rfl
  | case3 x y =>
    have := x.toNat_lt
    have := y.toNat_lt
    rw [spelled, spelled, List.filter_append, kept _ (by simp; omega)]
    rfl
  | case4 x y z rest ih =>
    have := x.toNat_lt
    have := y.toNat_lt
    have := z.toNat_lt
    rw [spelled, spelled, List.filter_append, kept _ (by simp; omega), ih]

/-! ## Groups -/

theorem bytes_of_number (x y z : UInt8) :
    ([.ofNat ((x.toNat * 65536 + y.toNat * 256 + z.toNat) / 65536),
      .ofNat ((x.toNat * 65536 + y.toNat * 256 + z.toNat) / 256),
      .ofNat (x.toNat * 65536 + y.toNat * 256 + z.toNat)] : List UInt8) = [x, y, z] := by
  have hx := x.toNat_lt
  have hy := y.toNat_lt
  have hz := z.toNat_lt
  simp only [List.cons.injEq, ← UInt8.toNat_inj, UInt8.toNat_ofNat', and_true]
  omega

/-- The strict reader that wants all padding or none. -/
def strict (padded : Bool) : Reader := { padding := if padded then .full else .absent }

theorem last_four (r : Reader) (a b c d : Nat) :
    r.last [a, b, c, d] 0 = some
      [.ofNat ((a * 262144 + b * 4096 + c * 64 + d) / 65536),
       .ofNat ((a * 262144 + b * 4096 + c * 64 + d) / 256),
       .ofNat (a * 262144 + b * 4096 + c * 64 + d)] := by
  unfold Reader.last
  cases r.padding <;> rfl

theorem last_three {padded : Bool} {a b c pads : Nat} {bytes : List UInt8} :
    (strict padded).last [a, b, c] pads = some bytes ↔
      pads = (if padded then 1 else 0) ∧ (a * 4096 + b * 64 + c) % 4 = 0 ∧
        bytes =
          [.ofNat ((a * 4096 + b * 64 + c) / 1024), .ofNat ((a * 4096 + b * 64 + c) / 4)] := by
  rw [eq_comm (a := bytes)]
  cases padded <;> simp [strict, Reader.last]; omega

theorem last_two {padded : Bool} {a b pads : Nat} {bytes : List UInt8} :
    (strict padded).last [a, b] pads = some bytes ↔
      pads = (if padded then 2 else 0) ∧ (a * 64 + b) % 16 = 0 ∧
        bytes = [.ofNat ((a * 64 + b) / 16)] := by
  rw [eq_comm (a := bytes)]
  cases padded <;> simp [strict, Reader.last]; omega

/-- A complete group in front of others. -/
theorem spelled_of_values (padded : Bool) {a b c d : Nat} (rest : List UInt8)
    (small : ∀ n ∈ [a, b, c, d], n < 64) :
    spelled padded (.ofNat ((a * 262144 + b * 4096 + c * 64 + d) / 65536) ::
      .ofNat ((a * 262144 + b * 4096 + c * 64 + d) / 256) ::
      .ofNat (a * 262144 + b * 4096 + c * 64 + d) :: rest) =
        [a, b, c, d].map symbol ++ spelled padded rest := by
  simp only [List.forall_mem_cons] at small
  have number : (a * 262144 + b * 4096 + c * 64 + d) / 65536 % 256 * 65536
      + (a * 262144 + b * 4096 + c * 64 + d) / 256 % 256 * 256
      + (a * 262144 + b * 4096 + c * 64 + d) % 256 = a * 262144 + b * 4096 + c * 64 + d := by
    omega
  have first : (a * 262144 + b * 4096 + c * 64 + d) / 262144 = a := by omega
  have second : (a * 262144 + b * 4096 + c * 64 + d) / 4096 % 64 = b := by omega
  have third : (a * 262144 + b * 4096 + c * 64 + d) / 64 % 64 = c := by omega
  have fourth : (a * 262144 + b * 4096 + c * 64 + d) % 64 = d := by omega
  simp only [spelled, UInt8.toNat_ofNat', Nat.reducePow, number, first, second, third, fourth]

/-- What a last group spells. -/
theorem spelled_of_last {padded : Bool} {values : List Nat} {pads : Nat} {bytes : List UInt8}
    (h : (strict padded).last values pads = some bytes) (small : ∀ n ∈ values, n < 64) :
    values.map symbol ++ List.replicate pads '=' = spelled padded bytes := by
  rcases values with _ | ⟨a, _ | ⟨b, _ | ⟨c, _ | ⟨d, _ | ⟨e, rest⟩⟩⟩⟩⟩
  · cases padded <;> simp [strict, Reader.last] at h
  · cases padded <;> simp [strict, Reader.last] at h
  · obtain ⟨rfl, even, rfl⟩ := last_two.mp h
    simp only [List.forall_mem_cons] at small
    have first : (a * 64 + b) / 16 % 256 * 16 / 64 = a := by omega
    have second : (a * 64 + b) / 16 % 256 * 16 % 64 = b := by omega
    cases padded <;> simp [spelled, first, second]
  · obtain ⟨rfl, even, rfl⟩ := last_three.mp h
    simp only [List.forall_mem_cons] at small
    have first : ((a * 4096 + b * 64 + c) / 1024 % 256 * 256
        + (a * 4096 + b * 64 + c) / 4 % 256) * 4 / 4096 = a := by omega
    have second : ((a * 4096 + b * 64 + c) / 1024 % 256 * 256
        + (a * 4096 + b * 64 + c) / 4 % 256) * 4 / 64 % 64 = b := by omega
    have third : ((a * 4096 + b * 64 + c) / 1024 % 256 * 256
        + (a * 4096 + b * 64 + c) / 4 % 256) * 4 % 64 = c := by omega
    cases padded <;> simp [spelled, first, second, third]
  · have complete : pads = 0 := by
      cases padded <;> simp [strict, Reader.last] at h <;> exact h.1
    subst complete
    rw [last_four] at h
    cases h
    rw [spelled_of_values padded [] small]
    rfl
  · cases padded <;> simp [strict, Reader.last] at h

theorem last_of_spelled_one (padded : Bool) (x : UInt8) :
    (strict padded).last [x.toNat * 16 / 64, x.toNat * 16 % 64] (if padded then 2 else 0) =
      some [x] := by
  have := x.toNat_lt
  refine last_two.mpr ⟨rfl, by omega, ?_⟩
  simp only [List.cons.injEq, ← UInt8.toNat_inj, UInt8.toNat_ofNat', and_true]
  omega

theorem last_of_spelled_two (padded : Bool) (x y : UInt8) :
    (strict padded).last [(x.toNat * 256 + y.toNat) * 4 / 4096,
      (x.toNat * 256 + y.toNat) * 4 / 64 % 64, (x.toNat * 256 + y.toNat) * 4 % 64]
        (if padded then 1 else 0) = some [x, y] := by
  have := x.toNat_lt
  have := y.toNat_lt
  refine last_three.mpr ⟨rfl, by omega, ?_⟩
  simp only [List.cons.injEq, ← UInt8.toNat_inj, UInt8.toNat_ofNat', and_true]
  omega

/-! ## Reading -/

/-- A group that nothing follows is read as the last one. -/
theorem decode_group (r : Reader) {group : List Char} (held : group = [] → False)
    (short : ∀ c₁ c₂ c₃ c₄ c₅ rest, group = c₁ :: c₂ :: c₃ :: c₄ :: c₅ :: rest → False) :
    r.decode group =
      if (group.dropWhile (· ≠ '=')).any (· ≠ '=') then none
      else ((group.takeWhile (· ≠ '=')).mapM r.alphabet.value?).bind fun values =>
        r.last values (group.dropWhile (· ≠ '=')).length := by
  rw [Reader.decode.eq_3 r group held short]
  rfl

/-- A group that is followed by others is complete. -/
theorem decode_groups (r : Reader) (c₁ c₂ c₃ c₄ c₅ : Char) (rest : List Char) :
    r.decode (c₁ :: c₂ :: c₃ :: c₄ :: c₅ :: rest) =
      ([c₁, c₂, c₃, c₄].mapM r.alphabet.value?).bind fun values =>
        (Reader.last { r with padding := .any } values 0).bind fun bytes =>
          (r.decode (c₅ :: rest)).bind fun more => some (bytes ++ more) := rfl

/-- Symbols and padding make up a last group. -/
theorem decode_last (padded : Bool) {values : List Nat} {pads : Nat} (held : values ≠ [])
    (short : values.length + pads ≤ 4) (small : ∀ n ∈ values, n < 64) :
    (strict padded).decode (values.map symbol ++ List.replicate pads '=') =
      (strict padded).last values pads := by
  have kept : ∀ c ∈ values.map symbol, decide (c ≠ '=') = true := by
    intro c hc
    obtain ⟨n, hn, rfl⟩ := List.mem_map.mp hc
    simpa using symbol_ne_pad n (small n hn)
  have front : (values.map symbol ++ List.replicate pads '=').takeWhile (· ≠ '=') =
      values.map symbol := by
    rw [List.takeWhile_append_of_pos kept]
    simp
  have back : (values.map symbol ++ List.replicate pads '=').dropWhile (· ≠ '=') =
      List.replicate pads '=' := by
    rw [List.dropWhile_append_of_pos kept]
    simp
  have bound : (values.map symbol ++ List.replicate pads '=').length ≤ 4 := by simpa using short
  have standard : (strict padded).alphabet = .standard := rfl
  rw [decode_group, back, front, if_neg (by simp), standard, mapM_value? small,
    List.length_replicate]
  · rfl
  · simp [held]
  · intro _ _ _ _ _ _ long
    rw [long] at bound
    simp only [List.length_cons] at bound
    omega

theorem decode_spelled (padded : Bool) (bytes : List UInt8) :
    (strict padded).decode (spelled padded bytes) = some bytes := by
  induction bytes using spelled.induct with
  | case1 => rfl
  | case2 x =>
    have := x.toNat_lt
    have text : spelled padded [x] = [x.toNat * 16 / 64, x.toNat * 16 % 64].map symbol ++
        List.replicate (if padded then 2 else 0) '=' := by cases padded <;> rfl
    rw [text, decode_last padded (by simp) (by cases padded <;> simp) (by simp; omega)]
    exact last_of_spelled_one padded x
  | case3 x y =>
    have := x.toNat_lt
    have := y.toNat_lt
    have text : spelled padded [x, y] = [(x.toNat * 256 + y.toNat) * 4 / 4096,
        (x.toNat * 256 + y.toNat) * 4 / 64 % 64, (x.toNat * 256 + y.toNat) * 4 % 64].map symbol ++
        List.replicate (if padded then 1 else 0) '=' := by cases padded <;> rfl
    rw [text, decode_last padded (by simp) (by cases padded <;> simp) (by simp; omega)]
    exact last_of_spelled_two padded x y
  | case4 x y z rest ih =>
    have := x.toNat_lt
    have := y.toNat_lt
    have := z.toNat_lt
    let n := x.toNat * 65536 + y.toNat * 256 + z.toNat
    let values := [n / 262144, n / 4096 % 64, n / 64 % 64, n % 64]
    have small : ∀ v ∈ values, v < 64 := by simp [values, n]; omega
    have group : ∀ r : Reader, r.last values 0 = some [x, y, z] := by
      intro r
      have number : n / 262144 * 262144 + n / 4096 % 64 * 4096 + n / 64 % 64 * 64 + n % 64 = n := by
        omega
      rw [last_four, number, bytes_of_number]
    have text : spelled padded (x :: y :: z :: rest) = values.map symbol ++ spelled padded rest :=
      rfl
    -- nothing is spelled only by nothing, so the group is the last one exactly if nothing follows
    cases following : spelled padded rest with
    | nil =>
      rw [following] at ih
      cases ih
      have bound : values.length + 0 ≤ 4 := Nat.le_refl 4
      rw [text, following, ← group]
      exact decode_last padded (by simp [values]) bound small
    | cons c more =>
      rw [following] at ih
      have front : List.mapM (strict padded).alphabet.value? [symbol (n / 262144),
          symbol (n / 4096 % 64), symbol (n / 64 % 64), symbol (n % 64)] = some values :=
        mapM_value? small
      rw [text, following]
      refine (decode_groups ..).trans ?_
      rw [front, Option.bind_some, group, Option.bind_some, ih]
      rfl

theorem spelled_of_group {padded : Bool} {group : List Char} {bytes : List UInt8}
    (held : group = [] → False)
    (short : ∀ c₁ c₂ c₃ c₄ c₅ rest, group = c₁ :: c₂ :: c₃ :: c₄ :: c₅ :: rest → False)
    (h : (strict padded).decode group = some bytes) : group = spelled padded bytes := by
  rw [decode_group _ held short] at h
  split at h
  · contradiction
  · next right =>
    obtain ⟨values, hvalues, h⟩ := Option.bind_eq_some_iff.mp h
    obtain ⟨front, small⟩ := of_mapM_value? hvalues
    let pads := group.dropWhile (· ≠ '=')
    have back : pads = List.replicate pads.length '=' := by
      simpa [List.eq_replicate_iff, pads] using right
    calc group
      _ = group.takeWhile (· ≠ '=') ++ pads := List.takeWhile_append_dropWhile.symm
      _ = values.map symbol ++ List.replicate pads.length '=' := by rw [front, ← back]
      _ = spelled padded bytes := spelled_of_last h small

theorem spelled_of_decode {padded : Bool} {text : List Char} {bytes : List UInt8}
    (h : (strict padded).decode text = some bytes) : text = spelled padded bytes := by
  induction text using Reader.decode.induct (strict padded) generalizing bytes with
  | case1 =>
    cases h
    rfl
  | case2 c₁ c₂ c₃ c₄ c₅ rest ih =>
    rw [decode_groups] at h
    obtain ⟨values, hvalues, h⟩ := Option.bind_eq_some_iff.mp h
    obtain ⟨group, hgroup, h⟩ := Option.bind_eq_some_iff.mp h
    obtain ⟨more, hmore, h⟩ := Option.bind_eq_some_iff.mp h
    cases h
    obtain ⟨text, small⟩ := of_mapM_value? hvalues
    have four : values.length = 4 := by simpa using (congrArg List.length text).symm
    obtain ⟨a, b, c, d, rfl⟩ := List.length_eq_four.mp four
    rw [last_four] at hgroup
    cases hgroup
    calc c₁ :: c₂ :: c₃ :: c₄ :: c₅ :: rest
      _ = [c₁, c₂, c₃, c₄] ++ (c₅ :: rest) := rfl
      _ = [a, b, c, d].map symbol ++ spelled padded more := by rw [text, ih hmore]
      _ = _ := (spelled_of_values padded more small).symm
  | case3 group held short => exact spelled_of_group held short h
  | case4 group held short => exact spelled_of_group held short h

/-- The exact reader accepts the symbols of a byte sequence, with all padding or with none, and
nothing else. -/
theorem decodeExact_eq_some_iff {text : List Char} {bytes : List UInt8} :
    decodeExact text = some bytes ↔
      text = symbols bytes ∨ text = (symbols bytes).filter (· ≠ '=') := by
  have read : ∀ padded bytes,
      (strict padded).decode text = some bytes ↔ text = spelled padded bytes :=
    fun padded bytes => ⟨spelled_of_decode, fun h => h ▸ decode_spelled padded bytes⟩
  have either : decodeExact text = ((strict true).decode text <|> (strict false).decode text) := rfl
  rw [← spelled_true, ← spelled_false, ← read true, ← read false, either]
  cases full : (strict true).decode text with
  | none => simp
  | some first =>
    -- a text without padding that both forms accept spells one sequence in both
    have same : ∀ {second}, (strict false).decode text = some second → first = second := by
      intro second h
      have plain := (read false second).mp h
      have bare : text.filter (· ≠ '=') = text := by
        rw [plain, spelled_false, List.filter_filter]
        simp
      have full := (read true first).mp full
      have again : text = spelled false first := by rw [spelled_false, ← full, bare]
      rw [(read false first).mpr again] at h
      exact Option.some.inj h
    simpa using fun h => same h

end Patchwork.Base64
