import Mathlib.Algebra.BigOperators.Group.List.Basic
import Mathlib.Algebra.GroupWithZero.Nat
import Patchwork.Serve

/-!
# What meters show

A counter shows how far all observations together have moved it, whatever their order. Each counter
of the gateway is moved by one kind of observation.
-/

namespace Patchwork
open Proto

namespace Meter

/-- How far an observation moves a counter. -/
def weight (s : Sample) (o : Observation) : Nat :=
  (o.samples.map fun x => if x.1 = s then x.2 else 0).sum

theorem value_add (m : Meter) (s t : Sample) (n : Nat) :
    (m.add s n).value t = m.value t + if s = t then n else 0 := by
  induction m with
  | nil =>
    by_cases h : s = t
    · simp [add, value, h]
    · simp [add, value, List.lookup_cons, h, beq_eq_false_iff_ne.mpr (Ne.symm h)]
  | cons x rest ih =>
    obtain ⟨u, k⟩ := x
    unfold value at ih ⊢
    unfold add
    by_cases hs : s = u
    · subst hs
      by_cases ht : t = s
      · simp [ht]
      · simp [List.lookup_cons, beq_eq_false_iff_ne.mpr ht, Ne.symm ht]
    · by_cases ht : t = u
      · subst ht
        simp [hs]
      · simpa [List.lookup_cons, hs, beq_eq_false_iff_ne.mpr ht] using ih

theorem value_observe (m : Meter) (o : Observation) (s : Sample) :
    (m.observe o).value s = m.value s + weight s o := by
  unfold observe weight
  induction o.samples generalizing m with
  | nil => rfl
  | cons x rest ih => rw [List.foldl_cons, ih, value_add, List.map_cons, List.sum_cons, Nat.add_assoc]

theorem value_foldl (os : List Observation) (m : Meter) (s : Sample) :
    (os.foldl observe m).value s = m.value s + (os.map (weight s)).sum := by
  induction os generalizing m with
  | nil => rfl
  | cons o rest ih => rw [List.foldl_cons, ih, value_observe, List.map_cons, List.sum_cons, Nat.add_assoc]

theorem value_ofObservations (os : List Observation) (s : Sample) :
    (ofObservations os).value s = (os.map (weight s)).sum := by
  rw [ofObservations, value_foldl]
  exact Nat.zero_add _

end Meter

namespace Moment

/-- All that the meters have counted. -/
def observations (m : Moment) : List Observation :=
  m.counted ++ m.journal.flatMap Event.observations

theorem value_meter (m : Moment) (s : Sample) :
    m.meter.value s = (m.observations.map (Meter.weight s)).sum := by
  rw [meter, Meter.value_ofObservations, observations]
  have order : (m.counted.reverse ++ m.journal.reverse.flatMap Event.observations).Perm
      (m.counted ++ m.journal.flatMap Event.observations) :=
    (List.reverse_perm _).append ((List.reverse_perm _).flatMap_right _)
  exact (order.map _).sum_eq

/-! ## The counters -/

section

variable (m : Moment) (v : Verb) (service method code relation : String)

/-- Calls of a verb. -/
def requests : Nat := m.meter.value ⟨"stitch_requests_total", [("verb", v.label)]⟩

/-- Calls of a verb that have come to their end. -/
def durations : Nat :=
  m.meter.value ⟨"stitch_request_duration_seconds_count", [("verb", v.label)]⟩

/-- Failures of a verb with a code. -/
def errors : Nat := m.meter.value ⟨"stitch_errors_total", [("code", code), ("verb", v.label)]⟩

/-- Downstream calls of a method. -/
def calls : Nat :=
  m.meter.value ⟨"stitch_upstream_requests_total", [("method", method), ("service", service)]⟩

/-- Failures of a method with a code. -/
def callErrors : Nat :=
  m.meter.value ⟨"stitch_upstream_errors_total",
    [("code", code), ("method", method), ("service", service)]⟩

/-- Batches resolved by the method of a relation. -/
def batches : Nat := m.meter.value ⟨"stitch_relation_batch_size_count", [("relation", relation)]⟩

/-- Bases in all these batches. -/
def bases : Nat := m.meter.value ⟨"stitch_relation_batch_size_sum", [("relation", relation)]⟩

end

end Moment

namespace Meter

theorem sum_of_ne {s : Sample} {xs : List (Sample × Nat)} (other : ∀ x ∈ xs, x.1 ≠ s) :
    (xs.map fun x => if x.1 = s then x.2 else 0).sum = 0 := by
  induction xs with
  | nil => rfl
  | cons x rest ih =>
    rw [List.map_cons, List.sum_cons, if_neg (other x (List.mem_cons_self ..)), Nat.zero_add]
    exact ih fun y hy => other y (List.mem_cons_of_mem _ hy)

/-- Besides the classes of sizes a batch moves the sum of the sizes and the number of batches. -/
theorem weight_batch {s : Sample} (plain : s.name ≠ "stitch_relation_batch_size_bucket")
    (relation : String) (size : Nat) : weight s (.batch relation size) =
      (if ⟨"stitch_relation_batch_size_sum", [("relation", relation)]⟩ = s then size else 0) +
      if ⟨"stitch_relation_batch_size_count", [("relation", relation)]⟩ = s then 1 else 0 := by
  have bucket : ∀ labels, (⟨"stitch_relation_batch_size_bucket", labels⟩ : Sample) ≠ s := by
    rintro labels rfl
    exact plain rfl
  have classes : ∀ x ∈ (batchBounds.filter (size ≤ ·)).map (fun b =>
      ((⟨"stitch_relation_batch_size_bucket", [("relation", relation), ("le", toString b)]⟩ : Sample),
        1)), x.1 ≠ s := by
    intro x hx
    obtain ⟨b, _, rfl⟩ := List.mem_map.mp hx
    exact bucket _
  have samples : (Observation.batch relation size).samples =
      (batchBounds.filter (size ≤ ·)).map (fun b =>
        ((⟨"stitch_relation_batch_size_bucket", [("relation", relation), ("le", toString b)]⟩ :
          Sample), 1)) ++
      [(⟨"stitch_relation_batch_size_bucket", [("relation", relation), ("le", "+Inf")]⟩, 1),
       (⟨"stitch_relation_batch_size_sum", [("relation", relation)]⟩, size),
       (⟨"stitch_relation_batch_size_count", [("relation", relation)]⟩, 1)] := rfl
  rw [weight, samples, List.map_append, List.sum_append, sum_of_ne classes]
  simp [bucket]

/-- A counter that one observation moves by one is moved by no other. -/
theorem weight_of_single {x : Observation} {s : Sample} (single : x.samples = [(s, 1)])
    (o : Observation) : weight s o = if o = x then 1 else 0 := by
  cases x with
  | batch relation size =>
    have several := congrArg List.length single
    simp [Observation.samples, histogramSamples] at several
  | _ =>
    simp only [Observation.samples, List.cons.injEq, Prod.mk.injEq, and_true] at single
    subst single
    cases o with
    | batch relation size =>
      rw [weight_batch (by simp)]
      simp
    | _ => simp [weight, Observation.samples, and_comm, and_assoc]

end Meter

/-- The size of a batch of a relation, and nothing for any other observation. -/
def Observation.sizeFor (relation : String) : Observation → Nat
  | batch r size => if r = relation then size else 0
  | _ => 0

/-- Whether a batch of a relation was observed. -/
def Observation.isBatchOf (relation : String) : Observation → Bool
  | batch r _ => r == relation
  | _ => false

theorem sum_indicator {p : α → Bool} (xs : List α) :
    (xs.map fun x => if p x then 1 else 0).sum = xs.countP p := by
  induction xs with
  | nil => rfl
  | cons x rest ih =>
    rw [List.map_cons, List.sum_cons, ih, List.countP_cons, Nat.add_comm]

namespace Moment

variable (m : Moment) (v : Verb) (service method code relation : String)

/-- A counter that one observation moves by one shows how often this was observed. -/
theorem value_of_single {x : Observation} {s : Sample} (single : x.samples = [(s, 1)]) :
    m.meter.value s = m.observations.count x := by
  rw [value_meter, List.count, ← sum_indicator]
  congr 2
  funext o
  rw [Meter.weight_of_single single]
  simp

theorem requests_eq : m.requests v = m.observations.count (.request v.label) :=
  m.value_of_single rfl

theorem durations_eq : m.durations v = m.observations.count (.duration v.label) :=
  m.value_of_single rfl

theorem errors_eq : m.errors v code = m.observations.count (.error v.label code) :=
  m.value_of_single rfl

theorem calls_eq : m.calls service method = m.observations.count (.call service method) :=
  m.value_of_single rfl

theorem callErrors_eq :
    m.callErrors service method code = m.observations.count (.callError service method code) :=
  m.value_of_single rfl

theorem batches_eq : m.batches relation = m.observations.countP (Observation.isBatchOf relation) := by
  rw [batches, value_meter, ← sum_indicator]
  congr 2
  funext o
  cases o with
  | batch r size =>
    rw [Meter.weight_batch (by simp)]
    simp [Observation.isBatchOf]
  | _ => simp [Meter.weight, Observation.samples, Observation.isBatchOf]

theorem bases_eq : m.bases relation = (m.observations.map (Observation.sizeFor relation)).sum := by
  rw [bases, value_meter]
  congr 2
  funext o
  cases o with
  | batch r size =>
    rw [Meter.weight_batch (by simp)]
    simp [Observation.sizeFor]
  | _ => simp [Meter.weight, Observation.samples, Observation.sizeFor]

end Moment

/-! ## What is counted of events -/

/-- Whether a call of the gateway itself is counted, not what is done for it. -/
def Observation.isOwn : Observation → Bool
  | request _ | duration _ | error .. => true
  | _ => false

namespace Exchange

/-- Whether a method is called. -/
def isOf (service method : String) (e : Exchange) : Bool :=
  e.call.method.service == service && e.call.method.name == method

/-- Whether a call came to its end with a failure of a code. -/
def failsWith (code : String) (e : Exchange) : Bool :=
  !e.dropped && e.failure.any fun c => c.name == code

end Exchange

namespace Event

/-- The method of a relation that resolves a batch, and the size of the batch. -/
def batch? : Event → Option (String × Nat)
  | resolved method bases => some (method, bases)
  | _ => none

/-- A call is counted with its end, and with its failure if it came to that. -/
theorem observations_called (e : Exchange) : (called e).observations =
    .call e.call.method.service e.call.method.name ::
      ((if e.dropped then none else e.failure).toList.map fun c =>
        .callError e.call.method.service e.call.method.name c.name) ++
      [.callDuration e.call.method.service e.call.method.name] := by
  obtain ⟨_, _, _, _, _, _, failure, dropped⟩ := e
  cases failure <;> cases dropped <;> rfl

theorem isOwn_of_mem {e : Event} {o : Observation} (h : o ∈ e.observations) : o.isOwn = false := by
  cases e with
  | called e =>
    rw [observations_called] at h
    rcases List.mem_append.mp h with h | h
    · rcases List.mem_cons.mp h with rfl | h
      · rfl
      · obtain ⟨c, _, rfl⟩ := List.mem_map.mp h
        rfl
    · rw [List.mem_singleton.mp h]
      rfl
  | consulted => cases h
  | resolved method bases =>
    rw [List.mem_singleton.mp h]
    rfl

variable (es : List Event) (service method code relation : String)

theorem count_call : (es.flatMap observations).count (.call service method) =
    (es.filterMap exchange?).countP (·.isOf service method) := by
  rw [List.filterMap_eq_flatMap_toList, List.count_flatMap, List.countP_flatMap]
  congr 2
  funext e
  cases e with
  | called e =>
    rw [Function.comp_apply, observations_called]
    cases e.dropped <;> cases e.failure <;> simp [exchange?, Exchange.isOf, List.count_cons]
  | _ => simp [observations, exchange?]

theorem count_callError : (es.flatMap observations).count (.callError service method code) =
    (es.filterMap exchange?).countP fun e => e.isOf service method && e.failsWith code := by
  rw [List.filterMap_eq_flatMap_toList, List.count_flatMap, List.countP_flatMap]
  congr 2
  funext e
  cases e with
  | called e =>
    rw [Function.comp_apply, observations_called]
    cases hd : e.dropped <;> cases hf : e.failure <;>
      simp [exchange?, Exchange.isOf, Exchange.failsWith, hd, hf, List.count_cons, and_assoc]
  | _ => simp [observations, exchange?]

theorem countP_isBatchOf : (es.flatMap observations).countP (Observation.isBatchOf relation) =
    (es.filterMap batch?).countP (·.1 == relation) := by
  rw [List.filterMap_eq_flatMap_toList, List.countP_flatMap, List.countP_flatMap]
  congr 2
  funext e
  cases e with
  | called e =>
    rw [Function.comp_apply, observations_called]
    cases e.dropped <;> cases e.failure <;> simp [batch?, Observation.isBatchOf]
  | _ => simp [observations, batch?, Observation.isBatchOf]

theorem sum_sizeFor : ((es.flatMap observations).map (Observation.sizeFor relation)).sum =
    (((es.filterMap batch?).filter (·.1 == relation)).map Prod.snd).sum := by
  induction es with
  | nil => rfl
  | cons e rest ih =>
    rw [List.flatMap_cons, List.map_append, List.sum_append, ih, List.filterMap_cons]
    cases e with
    | called e =>
      rw [observations_called]
      cases e.dropped <;> cases e.failure <;> simp [batch?, Observation.sizeFor]
    | consulted => simp [observations, batch?]
    | resolved r size =>
      by_cases h : r = relation <;> simp [observations, batch?, Observation.sizeFor, h]

end Event
end Patchwork
