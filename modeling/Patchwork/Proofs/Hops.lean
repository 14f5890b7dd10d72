import Mathlib
import Patchwork.Proofs.TimeoutTexts

/-!
# Timeouts on their way through gateways

A gateway writes what is left of a timeout in whole units, and the next one reads it. The first hop
rounds down, by less than a unit. What it leaves is written without a remainder from then on, in the
same unit or in a finer one, so that further hops change nothing.
-/

namespace Patchwork.Timeout
open Numeral

namespace TimeUnit

theorem nanoseconds_pos (u : TimeUnit) : 0 < u.nanoseconds := by
  cases u <;> decide

/-- A coarser unit is a multiple of each finer one. -/
theorem dvd_of_le {u v : TimeUnit} (h : v.nanoseconds ≤ u.nanoseconds) :
    v.nanoseconds ∣ u.nanoseconds := by
  revert h
  cases u <;> cases v <;> decide

/-- The units stand in the order of their size. -/
theorem pairwise_all : all.Pairwise fun u v => u.nanoseconds < v.nanoseconds := by decide

theorem mem_all (u : TimeUnit) : u ∈ all := by
  cases u <;> decide

/-- A unit is the finest, or too small a step from a finer one for counts to skip. -/
theorem finest_or_next (u : TimeUnit) : u = nanos ∨
    ∃ v : TimeUnit, v.nanoseconds < u.nanoseconds ∧ u.nanoseconds ≤ (maxCount + 1) * v.nanoseconds := by
  cases u with
  | nanos => exact .inl rfl
  | micros => exact .inr ⟨nanos, by decide⟩
  | millis => exact .inr ⟨micros, by decide⟩
  | seconds => exact .inr ⟨millis, by decide⟩
  | minutes => exact .inr ⟨seconds, by decide⟩
  | hours => exact .inr ⟨minutes, by decide⟩

end TimeUnit

/-! ## Writing -/

/-- The count has at most eight digits in the unit that is written, and more in all finer ones. -/
theorem writtenUnit?_spec {t : Nat} {u : TimeUnit} (h : writtenUnit? t = some u) :
    t / u.nanoseconds ≤ maxCount ∧
      ∀ v : TimeUnit, v.nanoseconds < u.nanoseconds → maxCount < t / v.nanoseconds := by
  obtain ⟨fits, before, after, all, beyond⟩ := List.find?_eq_some_iff_append.mp h
  refine ⟨by simpa using fits, fun v finer => ?_⟩
  have order := TimeUnit.pairwise_all
  rw [all] at order
  obtain ⟨_, order, _⟩ := List.pairwise_append.mp order
  have place := TimeUnit.mem_all v
  rw [all] at place
  cases List.mem_append.mp place with
  | inl ahead => simpa using beyond v ahead
  | inr behind =>
    cases List.mem_cons.mp behind with
    | inl same =>
      subst same
      omega
    | inr behind =>
      have coarser := List.rel_of_pairwise_cons order behind
      omega

theorem writtenUnit?_of_le {t : Nat} {u : TimeUnit} (h : t / u.nanoseconds ≤ maxCount) :
    ∃ v, writtenUnit? t = some v ∧ v.nanoseconds ≤ u.nanoseconds := by
  cases found : writtenUnit? t with
  | none =>
    have beyond := List.find?_eq_none.mp found u (TimeUnit.mem_all u)
    simp at beyond
    omega
  | some v =>
    refine ⟨v, rfl, ?_⟩
    by_contra coarser
    have beyond := (writtenUnit?_spec found).2 u (by omega)
    omega

/-- What is left of a timeout in whole units. -/
theorem read?_write? {t : Nat} {u : TimeUnit} (h : writtenUnit? t = some u) :
    read? ((Nat.repr (t / u.nanoseconds)).toList ++ [u.symbol]) =
      some (t / u.nanoseconds * u.nanoseconds) := by
  have short : t / u.nanoseconds < 10 ^ 8 := Nat.lt_succ_of_le (writtenUnit?_spec h).1
  apply read?_eq_some_iff.mpr
  exact ⟨_, _, u, rfl, .inl (spells_repr _), (length_repr_le_iff (by decide)).mpr short, rfl⟩

/-- A timeout is not rounded down to nothing. -/
theorem count_pos {t : Nat} {u : TimeUnit} (positive : 0 < t) (h : writtenUnit? t = some u) :
    0 < t / u.nanoseconds := by
  cases TimeUnit.finest_or_next u with
  | inl finest =>
    subst finest
    simpa [TimeUnit.nanoseconds] using positive
  | inr next =>
    obtain ⟨v, finer, step⟩ := next
    have beyond : (maxCount + 1) * v.nanoseconds ≤ t :=
      (Nat.le_div_iff_mul_le v.nanoseconds_pos).mp ((writtenUnit?_spec h).2 v finer)
    exact Nat.div_pos (step.trans beyond) u.nanoseconds_pos

/-- Whole units of a timeout are whole in the unit that they are written in. -/
theorem whole_of_written {t : Nat} {u : TimeUnit} (h : writtenUnit? t = some u) :
    ∃ v, writtenUnit? (t / u.nanoseconds * u.nanoseconds) = some v ∧
      v.nanoseconds ∣ t / u.nanoseconds * u.nanoseconds := by
  have same : t / u.nanoseconds * u.nanoseconds / u.nanoseconds = t / u.nanoseconds :=
    Nat.mul_div_cancel _ u.nanoseconds_pos
  obtain ⟨v, written, finer⟩ := writtenUnit?_of_le (same ▸ (writtenUnit?_spec h).1)
  exact ⟨v, written, (TimeUnit.dvd_of_le finer).mul_left _⟩

/-! ## Headers that carry timeouts -/

theorem encode_visible {text : List Char} (visible : ∀ c ∈ text, 32 < c.toNat ∧ c.toNat < 127) :
    Utf8.encode (String.ofList text) = text.map fun c => c.toNat.toUInt8 := by
  rw [Utf8.encode, String.toList_ofList]
  induction text with
  | nil => rfl
  | cons c rest ih =>
    obtain ⟨first, others⟩ := List.forall_mem_cons.mp visible
    have byte : String.utf8EncodeChar c = [c.toNat.toUInt8] := by
      apply String.utf8EncodeChar_eq_singleton
      rw [Char.utf8Size_eq_one_iff, UInt32.le_iff_toNat_le]
      change c.toNat ≤ 127
      omega
    rw [List.flatMap_cons, byte, ih others]
    rfl

/-- A text without blanks is shown by the header that has its bytes. -/
theorem shows_encoded {text : List Char} (visible : ∀ c ∈ text, 32 < c.toNat ∧ c.toNat < 127)
    (name : String) : Shows [(name, Utf8.encode (String.ofList text))] name text := by
  have code : ∀ c ∈ text, c.toNat.toUInt8.toNat = c.toNat := by
    intro c hc
    have small := visible c hc
    simp
    omega
  constructor
  · intro c ends blank
    have hc : c ∈ text := ends.elim List.mem_of_mem_head? List.mem_of_getLast?
    have small := visible c hc
    cases blank with
    | inl space => subst space; revert small; decide
    | inr tab => subst tab; revert small; decide
  · refine ⟨_, List.lookup_cons_self, ?_, [], [], ?_, by simp⟩
    · rw [encode_visible visible]
      intro b hb
      obtain ⟨c, hc, rfl⟩ := List.mem_map.mp hb
      have small := visible c hc
      have same := code c hc
      right
      rw [UInt8.le_iff_toNat_le, UInt8.le_iff_toNat_le, same]
      simp
      omega
    · rw [encode_visible visible, List.map_map, List.append_nil, List.nil_append]
      conv_rhs => rw [← List.map_id text]
      apply List.map_congr_left
      intro c hc
      simp [code c hc]

/-- The header in which a call states its timeout, if that has a text. -/
def header? (t : Nat) : Option Fields :=
  (write? t).map fun text => [(unitsName, Utf8.encode (String.ofList text))]

/-- What the next gateway reads of a timeout. -/
def hop (t : Nat) : Option Nat := (header? t).bind ofHeaders?

/-- What is read of a timeout behind a number of gateways. -/
def hops : Nat → Nat → Option Nat
  | 0, t => some t
  | n + 1, t => (hop t).bind (hops n)

theorem visible_of_write? {t : Nat} {text : List Char} (h : write? t = some text) :
    ∀ c ∈ text, 32 < c.toNat ∧ c.toNat < 127 := by
  obtain ⟨u, _, rfl⟩ := Option.map_eq_some_iff.mp h
  intro c hc
  cases List.mem_append.mp hc with
  | inl digit =>
    have digit := Char.isDigit_iff_toNat.mp ((spells_repr _).digits c digit)
    have zero : '0'.toNat = 48 := rfl
    have nine : '9'.toNat = 57 := rfl
    omega
  | inr symbol =>
    rw [List.mem_singleton.mp symbol]
    cases u <;> decide

/-- A hop leaves the whole units of a timeout. -/
theorem hop_eq {t : Nat} {u : TimeUnit} (h : writtenUnit? t = some u) :
    hop t = some (t / u.nanoseconds * u.nanoseconds) := by
  have written : write? t = some ((Nat.repr (t / u.nanoseconds)).toList ++ [u.symbol]) := by
    rw [write?, h, Option.map_some]
  have shows := firstText?_eq_some_iff.mpr (shows_encoded (visible_of_write? written) unitsName)
  have unread : ∀ bytes, firstText? [(unitsName, bytes)] millisName = none := fun bytes => rfl
  rw [hop, header?, written, Option.map_some, Option.bind_some, ofHeaders?, unread, Option.bind_none,
    shows, Option.bind_some, read?_write? h]

theorem hop_hop {t t' : Nat} (h : hop t = some t') : hop t' = some t' := by
  cases written : writtenUnit? t with
  | none => simp [hop, header?, write?, written] at h
  | some u =>
    obtain rfl := Option.some.inj ((hop_eq written).symm.trans h)
    obtain ⟨v, again, whole⟩ := whole_of_written written
    rw [hop_eq again, Nat.div_mul_cancel whole]

theorem hops_succ {t t' : Nat} (h : hop t = some t') (n : Nat) : hops (n + 1) t = some t' := by
  induction n generalizing t with
  | zero => rw [hops, h, Option.bind_some, hops]
  | succ n ih => rw [hops, h, Option.bind_some, ih (hop_hop h)]

/-- A timeout that has a text is rounded down once, by less than the unit of the text, and never to
nothing. The text is a count of at most eight digits in the finest unit in which there are so few. Every
header that carries it is read as what is left, and a chain of gateways passes that on as it is. -/
theorem chains_round_timeouts_once {t : Nat} {text : List Char} (positive : 0 < t)
    (written : write? t = some text) :
    ∃ (u : TimeUnit) (t' : Nat),
      (text = (Nat.repr (t / u.nanoseconds)).toList ++ [u.symbol] ∧
        (Nat.repr (t / u.nanoseconds)).toList.length ≤ 8 ∧
        ∀ v : TimeUnit, v.nanoseconds < u.nanoseconds →
          8 < (Nat.repr (t / v.nanoseconds)).toList.length) ∧
      (∀ headers, Shows headers "grpc-timeout" text → (∀ n, ¬AsksMillis headers n) →
        ofHeaders? headers = some t') ∧
      0 < t' ∧ t' ≤ t ∧ t - t' < u.nanoseconds ∧
      hop t' = some t' ∧ ∀ n, hops (n + 1) t = some t' := by
  obtain ⟨u, unit, rfl⟩ := Option.map_eq_some_iff.mp written
  obtain ⟨fits, finer⟩ := writtenUnit?_spec unit
  have digits : ∀ n, (Nat.repr n).toList.length ≤ 8 ↔ n ≤ maxCount := by
    intro n
    rw [length_repr_le_iff (by decide)]
    exact Nat.lt_succ_iff
  have rest := Nat.div_add_mod' t u.nanoseconds
  have less := Nat.mod_lt t u.nanoseconds_pos
  refine ⟨u, t / u.nanoseconds * u.nanoseconds, ⟨rfl, (digits _).mpr fits, fun v hv => ?_⟩,
    fun headers shows none => ?_, ?_, by omega, by omega, hop_hop (hop_eq unit), hops_succ (hop_eq unit)⟩
  · exact Nat.lt_of_not_le fun short => Nat.not_lt.mpr ((digits _).mp short) (finer v hv)
  · rw [ofHeaders?_of_no_millis none, unitsName, firstText?_eq_some_iff.mpr shows, Option.bind_some,
      read?_write? unit]
  · exact Nat.mul_pos (count_pos positive unit) u.nanoseconds_pos

/-- A hundred million seconds go on in minutes, and from there on in seconds. -/
theorem hundred_million_seconds_lose_forty :
    write? 100000000000000000 = some "1666666M".toList ∧
    write? 99999960000000000 = some "99999960S".toList ∧
    ∀ n, hops (n + 1) 100000000000000000 = some 99999960000000000 := by
  have written : write? 100000000000000000 = some "1666666M".toList := by decide +kernel
  obtain ⟨u, t', _, _, _, _, _, _, chain⟩ := chains_round_timeouts_once (by decide) written
  have first : hops 1 100000000000000000 = some 99999960000000000 := by decide +kernel
  obtain rfl : t' = 99999960000000000 := Option.some.inj ((chain 0).symm.trans first)
  exact ⟨written, by decide +kernel, chain⟩

end Patchwork.Timeout
