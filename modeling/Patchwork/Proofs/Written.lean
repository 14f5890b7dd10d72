import Patchwork.Proofs.Limits
import Patchwork.Proofs.Numerals
import Patchwork.Proofs.Sending

/-!
# Timeouts that can be written

A timeout has a text if it is shorter than a hundred million hours. What a request asks for with a
unit is, and so is what is left of it. A count of milliseconds may be longer, and then a call goes
out with a timeout that has no text, unless a shorter one is configured.
-/

namespace Patchwork
open Proto

namespace Timeout

/-- The least timeout that has no text, a hundred million hours. -/
def leastUnwritten : Nat := (maxCount + 1) * TimeUnit.hours.nanoseconds

theorem nanoseconds_le (u : TimeUnit) : u.nanoseconds ≤ TimeUnit.hours.nanoseconds := by
  cases u <;> decide

/-- The hours are fewer than any other unit, so that they decide. -/
theorem writtenUnit?_eq_none_iff {t : Nat} : writtenUnit? t = none ↔ leastUnwritten ≤ t := by
  have hours : leastUnwritten ≤ t ↔ maxCount < t / TimeUnit.hours.nanoseconds :=
    (Nat.le_div_iff_mul_le (by decide)).symm
  rw [hours, writtenUnit?, List.find?_eq_none]
  simp only [decide_eq_true_eq, Nat.not_le]
  constructor
  · intro h
    exact h .hours (by decide)
  · intro h u _
    have positive : 0 < u.nanoseconds := by cases u <;> decide
    exact Nat.lt_of_lt_of_le h (Nat.div_le_div_left (nanoseconds_le u) positive)

/-- A timeout has a text when its whole hours are at most eight digits. -/
theorem isSome_write?_iff {t : Nat} :
    (write? t).isSome ↔ t / TimeUnit.hours.nanoseconds ≤ maxCount := by
  have hours : 0 < TimeUnit.hours.nanoseconds := by decide
  rw [write?, Option.isSome_map, Option.isSome_iff_ne_none, Ne, writtenUnit?_eq_none_iff,
    leastUnwritten, Nat.not_le, ← Nat.div_lt_iff_lt_mul hours, Nat.lt_succ_iff]

/-- A count with a unit is too short to be without a text. -/
theorem read?_lt {text : List Char} {t : Nat} (h : read? text = some t) : t < leastUnwritten := by
  unfold read? at h
  split at h
  · cases h
  · next bounds =>
    split at h
    · cases h
    · next c _ =>
      obtain ⟨n, hn, h⟩ := Option.bind_eq_some_iff.mp h
      obtain ⟨u, _, h⟩ := Option.bind_eq_some_iff.mp h
      cases h
      obtain ⟨n', hn', hlt⟩ := Option.bind_eq_some_iff.mp hn
      split at hlt
      · cases hlt
        have digits := (Numeral.unsigned?_eq_some_iff.mp hn').lt
        have short : text.dropLast.length ≤ 8 := by
          rw [List.length_dropLast]
          omega
        have count : n < maxCount + 1 :=
          Nat.lt_of_lt_of_le digits (Nat.pow_le_pow_right (by decide) short)
        calc n * u.nanoseconds ≤ n * TimeUnit.hours.nanoseconds :=
              Nat.mul_le_mul_left _ (nanoseconds_le u)
          _ < (maxCount + 1) * TimeUnit.hours.nanoseconds :=
              Nat.mul_lt_mul_of_pos_right count (by decide)
      · cases hlt

/-- The count of milliseconds that a request asks for. -/
def millis? (headers : Fields) : Option Nat := (firstText? headers millisName).bind count?

/-- The fewest milliseconds that have no text. -/
def leastMillis : Nat := leastUnwritten / perMilli

/-- Only a count of milliseconds asks for more than has a text. -/
theorem millis_of_unwritten {headers : Fields} {t : Nat} (h : ofHeaders? headers = some t)
    (long : leastUnwritten ≤ t) : ∃ n, millis? headers = some n ∧ leastMillis ≤ n := by
  unfold ofHeaders? at h
  split at h
  · next n hn =>
    cases h
    refine ⟨n, hn, ?_⟩
    exact Nat.div_le_of_le_mul (by rwa [Nat.mul_comm])
  · obtain ⟨text, _, h⟩ := Option.bind_eq_some_iff.mp h
    exact absurd (read?_lt h) (Nat.not_lt.mpr long)

end Timeout

/-! ## Calls -/

theorem Call.isWritable_iff {c : Call} : c.isWritable ↔ ∀ t, c.timeout = some t →
    t / Timeout.TimeUnit.hours.nanoseconds ≤ Timeout.maxCount := by
  simp [isWritable, Option.all_eq_true, Timeout.isSome_write?_iff]

theorem Call.isWritable_eq_false {c : Call} :
    c.isWritable = false ↔ ∃ t, c.timeout = some t ∧ Timeout.leastUnwritten ≤ t := by
  unfold isWritable
  cases c.timeout with
  | none => simp
  | some t => simp [Timeout.write?, Timeout.writtenUnit?_eq_none_iff]

/-- The timeout of a call is as long as the limits that there are. -/
theorem CallContext.exists_le_callTimeout {ctx : CallContext} {now least : Nat} {limit : Option Nat} :
    (∃ t, ctx.callTimeout now limit = some t ∧ least ≤ t) ↔
      ((ctx.remaining now).isSome ∨ limit.isSome) ∧
        (∀ l, limit = some l → least ≤ l) ∧ ∀ left, ctx.remaining now = some left → least ≤ left := by
  unfold callTimeout
  cases ctx.remaining now with
  | none => cases limit <;> simp
  | some left =>
    cases limit with
    | none => simp
    | some l => simp [and_comm]

theorem Server.remaining_context (s : Server) (headers : Fields) (now : Nat) :
    (s.context headers).remaining now =
      (Timeout.ofHeaders? headers).map fun t => s.moment.now + t - now := by
  unfold context
  cases Timeout.ofHeaders? headers <;> rfl

/-- A call that has limits, all of them too long to be written: the configured timeout, if there is
one, and what is left of the time that the headers give, if they give one. -/
structure Exchange.Overlong (e : Exchange) (s : Server) (r : HttpRequest) (x : Caller) : Prop where
  limited : (Timeout.ofHeaders? r.headers).isSome ∨ x.timeout.isSome
  configured : ∀ limit, x.timeout = some limit → Timeout.leastUnwritten ≤ limit
  asked : ∀ t, Timeout.ofHeaders? r.headers = some t →
    Timeout.leastUnwritten + (e.sentAt - s.moment.now) ≤ t

/-- The timeout of a call that a server makes has a text if its whole hours are at most eight digits.
It has none exactly when all limits of the call are too long, the configured one and what is left of
what the request asks for. Such a request asks in milliseconds: what it asks for with a unit always
has a text. -/
theorem timeouts_have_texts_unless_all_limits_are_overlong {s : Server} {r : HttpRequest}
    {e : Exchange} (sends : s.Sends r e) :
    ∃ x : Caller, x.IsOf s.gateway ∧ e.call.method = x.method ∧
      (e.call.isWritable ↔ ∀ t, e.call.timeout = some t →
        t / Timeout.TimeUnit.hours.nanoseconds ≤ Timeout.maxCount) ∧
      (e.call.isWritable = false ↔ e.Overlong s r x) ∧
      (e.call.isWritable = false → ∀ t, Timeout.ofHeaders? r.headers = some t →
        ∃ n, Timeout.millis? r.headers = some n ∧ Timeout.leastMillis ≤ n) := by
  obtain ⟨v, request, p, prepared, asks, since⟩ := sends.asks
  obtain ⟨x, isFor, timeout⟩ := asks.isFor
  have started : (Timeout.ofHeaders? r.headers).isSome → s.moment.now ≤ e.sentAt := by
    intro asked
    obtain ⟨t, ht⟩ := Option.isSome_iff_exists.mp asked
    exact since (by simp [Server.context, ht, CallContext.withTimeout])
  have overlong : e.call.isWritable = false ↔ e.Overlong s r x := by
    rw [Call.isWritable_eq_false, timeout, CallContext.exists_le_callTimeout,
      Server.remaining_context, Option.isSome_map]
    constructor
    · rintro ⟨limited, configured, asked⟩
      refine ⟨limited, configured, fun t ht => ?_⟩
      have left := asked _ (congrArg (Option.map _) ht)
      dsimp only at left
      have since := started (Option.isSome_of_eq_some ht)
      have positive : 0 < Timeout.leastUnwritten := by decide
      omega
    · rintro ⟨limited, configured, asked⟩
      refine ⟨limited, configured, fun left hl => ?_⟩
      obtain ⟨t, ht, rfl⟩ := Option.map_eq_some_iff.mp hl
      have long := asked t ht
      have since := started (Option.isSome_of_eq_some ht)
      omega
  refine ⟨x, (Gateway.isPrepared prepared).isOf_of_needs isFor.needs, isFor.method,
    Call.isWritable_iff, overlong, fun unwritable t ht => ?_⟩
  have long := (overlong.mp unwritable).asked t ht
  exact Timeout.millis_of_unwritten ht (Nat.le_trans (Nat.le_add_right ..) long)

namespace Sample

/-- A server of items. -/
def itemServer : Server := { gateway, world := knotsAfter fun _ => 0 }

/-- A fetch of an item's title. -/
def titleRequest (headers : Fields) : HttpRequest where
  method := "POST"
  path := verbPath .fetch
  headers := headers
  body := Utf8.encode
    "\x7b\"requests\":[\x7b\"method\":\"Items.Get\",\"mask\":[\x7b\"name\":\"title\"\x7d]\x7d]\x7d"

/-- A fetch within a hundred million hours. -/
def patientRequest : HttpRequest :=
  titleRequest [("connect-timeout-ms", Utf8.encode "360000000000000")]

theorem patientRequest_breaks :
    (itemServer.answer patientRequest).2.moment.journal.isBroken = true := by decide +kernel

theorem patientRequest_sends : ∃ e, itemServer.Sends patientRequest e ∧ e.sent = true ∧
    e.call.isWritable = false := by
  obtain ⟨e, he, sent, unwritable⟩ := Journal.exists_called patientRequest_breaks
  exact ⟨e, .answering (List.append_nil _).symm he, sent, by simpa using unwritable⟩

end Sample

/-- The call for an item is left without a text, and the fetch asks for a hundred million hours in
milliseconds. -/
theorem patient_fetch_asks_in_milliseconds : ∃ e, Sample.itemServer.Sends Sample.patientRequest e ∧
    e.call.isWritable = false ∧
      ∃ n, Timeout.millis? Sample.patientRequest.headers = some n ∧ Timeout.leastMillis ≤ n := by
  obtain ⟨e, sends, _, unwritable⟩ := Sample.patientRequest_sends
  obtain ⟨x, _, _, _, _, millis⟩ := timeouts_have_texts_unless_all_limits_are_overlong sends
  have asked : Timeout.ofHeaders? Sample.patientRequest.headers = some 360000000000000000000 := by
    decide +kernel
  exact ⟨e, sends, unwritable, millis unwritable _ asked⟩

/-- A header makes a gateway, which the builder accepts, send a call whose timeout cannot be
written. -/
theorem header_leaves_timeout_without_text : Sample.assemble = .ok Sample.itemServer.gateway ∧
    (∃ e, Sample.itemServer.Sends Sample.patientRequest e ∧ e.sent = true ∧
      e.call.isWritable = false) ∧
    (Sample.itemServer.answer Sample.patientRequest).2.moment.journal.isBroken = true :=
  ⟨Sample.assembles, Sample.patientRequest_sends, Sample.patientRequest_breaks⟩

end Patchwork
