import Patchwork.Proofs.Meters
import Patchwork.Proofs.Patience

/-!
# What is done downstream

The journal of any work, dropped or not, is that of single acts: requests that call their methods and
batches that are resolved. What the acts are is not changed when the work ends; it is only then known
which calls were dropped.
-/

namespace Patchwork
open Proto

/-- Something that is done downstream, with the events that it leaves, the last first. -/
inductive Act where
  /-- A request calls its method. -/
  | ask (e : Exchange)
  /-- A batch is resolved. -/
  | resolve (b : Batch) (events : List Event)

namespace Act

def events : Act → List Event
  | ask e => [.called e]
  | resolve _ events => events

/-- An act that has just begun: the call of a method, the opening of a stream or the resolution of a
batch, whatever happened before. -/
inductive Made (world : Downstream) : Act → Prop
  | asked {p : Prepared} {ctx : CallContext} {history : List Call} {owner now : Nat} {due : Option Nat}
      {reply : Reply Message} {e : Exchange}
      (attempted : attempt (world.unary history) owner now (p.call ctx now) = (due, reply, e)) :
      Made world (.ask e)
  | opened {p : Prepared} {ctx : CallContext} {history : List Call} {owner now : Nat} {due : Option Nat}
      {reply : Reply Items} {e : Exchange}
      (attempted : attempt (world.stream history) owner now (p.call ctx now) = (due, reply, e)) :
      Made world (.ask e)
  | resolved (b : Batch) (ctx : CallContext) (owner now : Nat) (before : Journal) :
      Made world (.resolve b (b.resolve world ctx owner now before).events)

end Act

/-- How an event is kept of work that ended at an instant. A call that had settled by then is not
dropped, and one that settles later is. -/
inductive Event.KeptAs (ended : Nat) : Event → Event → Prop
  | called {raw e : Exchange} (same : e = { raw with dropped := e.dropped })
      (settled : e.dropped = false → ∃ t, e.settledAt = some t ∧ t ≤ ended)
      (pending : e.dropped = true → ∀ t, e.settledAt = some t → ended ≤ t) :
      KeptAs ended (.called raw) (.called e)
  | consulted (owner instant : Nat) (c : Consultation) :
      KeptAs ended (.consulted owner instant c) (.consulted owner instant c)
  | resolved (method : String) (bases : Nat) :
      KeptAs ended (.resolved method bases) (.resolved method bases)

/-- How an act is kept of work that ended at an instant. -/
inductive Act.KeptAs (ended : Nat) : Act → Act → Prop
  | ask {raw e : Exchange} (kept : Event.KeptAs ended (.called raw) (.called e)) :
      KeptAs ended (.ask raw) (.ask e)
  | resolve {b : Batch} {raw events : List Event}
      (kept : List.Forall₂ (Event.KeptAs ended) raw events) :
      KeptAs ended (.resolve b raw) (.resolve b events)

/-- An act of work that ended at an instant. -/
def Act.Done (world : Downstream) (ended : Nat) (a : Act) : Prop :=
  ∃ raw : Act, raw.Made world ∧ raw.KeptAs ended a

/-! ## Acts of a batch -/

theorem resolveWave_acts (world : Downstream) (ctx : CallContext) (owner now : Nat)
    (batches : List Batch) (j : Journal) : ∃ acts : List Act,
      (resolveWave world ctx owner now batches j).2.2 = acts.flatMap Act.events ++ j ∧
      ∀ a ∈ acts, a.Made world := by
  induction batches generalizing j with
  | nil => exact ⟨[], rfl, by simp⟩
  | cons b rest ih =>
    obtain ⟨acts, journal, made⟩ := ih ((b.resolve world ctx owner now j).events ++ j)
    refine ⟨acts ++ [.resolve b (b.resolve world ctx owner now j).events], ?_, ?_⟩
    · rw [resolveWave, journal]
      simp [Act.events]
    · intro a ha
      rcases List.mem_append.mp ha with ha | ha
      · exact made a ha
      · rw [List.mem_singleton.mp ha]
        exact .resolved b ctx owner now j

theorem Stage.step_acts (s : Setting) (owner now : Nat) (j : Journal) (stage : Stage) :
    ∃ acts : List Act, (stage.step s owner now j).2 = acts.flatMap Act.events ++ j ∧
      ∀ a ∈ acts, a.Made s.world := by
  cases stage with
  | calling p =>
    rcases ha : attempt (s.world.unary j.calls) owner now (p.call s.ctx now) with ⟨due, reply, e⟩
    refine ⟨[.ask e], by simp [step, ha, Act.events], fun a hm => ?_⟩
    rw [List.mem_singleton.mp hm]
    exact .asked ha
  | stitching q =>
    cases q with
    | wave d batches => exact resolveWave_acts s.world s.ctx owner now batches j
    | finished d failure => exact ⟨[], rfl, by simp⟩

/-- However far a batch runs, its journal is that of acts. -/
theorem Run.finishBy_acts (s : Setting) (limit : Option Nat) (fuel : Nat) (r : Run) :
    ∃ acts : List Act, (r.finishBy s limit fuel).2.journal = acts.flatMap Act.events ++ r.journal ∧
      ∀ a ∈ acts, a.Made s.world := by
  induction fuel generalizing r with
  | zero => exact ⟨[], rfl, by simp⟩
  | succ fuel ih =>
    unfold finishBy
    split
    · exact ⟨[], rfl, by simp⟩
    · next p _ _ =>
      split
      · obtain ⟨acts, journal, made⟩ := ih (r.goOn s p)
        obtain ⟨first, step, made'⟩ :=
          p.stage.step_acts s (if r.ordered then r.turn else p.place) p.instant r.journal
        refine ⟨acts ++ first, ?_, fun a ha => ?_⟩
        · rw [journal, Run.journal_goOn, step, List.flatMap_append, List.append_assoc]
        · exact (List.mem_append.mp ha).elim (made a) (made' a)
      · exact ⟨[], rfl, by simp⟩
    · exact ⟨[], rfl, by simp⟩

/-- What is kept of acts, event by event. -/
theorem exists_acts_kept {ended : Nat} {mark : Event → Event}
    (kept : ∀ e, Event.KeptAs ended e (mark e)) (acts : List Act) : ∃ acts' : List Act,
      acts'.flatMap Act.events = (acts.flatMap Act.events).map mark ∧
      List.Forall₂ (Act.KeptAs ended) acts acts' := by
  induction acts with
  | nil => exact ⟨[], rfl, .nil⟩
  | cons a rest ih =>
    obtain ⟨acts', events, kept'⟩ := ih
    have one : ∃ a' : Act, a'.events = a.events.map mark ∧ a.KeptAs ended a' := by
      cases a with
      | ask raw =>
        have h := kept (.called raw)
        generalize hm : mark (.called raw) = x at h
        cases h with
        | called same settled pending => exact ⟨.ask _, by simp [Act.events, hm],
            .ask (.called same settled pending)⟩
      | resolve b events =>
        refine ⟨.resolve b (events.map mark), rfl, .resolve ?_⟩
        rw [List.forall₂_map_right_iff]
        exact List.forall₂_same.mpr fun e _ => kept e
    obtain ⟨a', events', kept''⟩ := one
    exact ⟨a' :: acts', by rw [List.flatMap_cons, List.flatMap_cons, events, events', List.map_append],
      .cons kept'' kept'⟩

theorem Run.keptAs_close (r : Run) (ending : Ending) (e : Event) :
    Event.KeptAs r.now e (r.close ending e) := by
  cases e with
  | called raw =>
    refine .called rfl (fun kept => ?_) fun dropped t ht => ?_
    · have settled : r.hasSettled ending raw = true := by simpa using kept
      exact settled_of_hasSettled settled
    · have pending : r.hasSettled ending raw = false := by simpa using dropped
      rcases le_of_hasSettled pending ht with ⟨_, hle⟩ | hlt
      · exact hle
      · exact Nat.le_of_lt hlt
  | consulted owner instant c => exact .consulted owner instant c
  | resolved method bases => exact .resolved method bases

/-- The journal of a batch that has ended or was dropped. -/
theorem runBy_acts (s : Setting) (limit : Option Nat) (now : Nat) (before : Journal)
    (stages : List Stage) : ∃ acts : List Act,
      (runBy s limit now before stages).2.journal = acts.flatMap Act.events ++ before ∧
      ∀ a ∈ acts, a.Done s.world (runBy s limit now before stages).2.now := by
  obtain ⟨raw, journal, made⟩ := (Run.ofStages now before stages).finishBy_acts s limit
    (stepsOf (Run.ofStages now before stages).processes + 1)
  unfold runBy
  dsimp only
  generalize (Run.ofStages now before stages).finishBy s limit
    (stepsOf (Run.ofStages now before stages).processes + 1) = result at journal ⊢
  obtain ⟨ending, r⟩ := result
  dsimp only at journal ⊢
  have waited : (r.waitFor limit ending).journal = raw.flatMap Act.events ++ before := by
    cases ending <;> exact journal
  obtain ⟨acts, events, kept⟩ := exists_acts_kept ((r.waitFor limit ending).keptAs_close ending) raw
  refine ⟨acts, ?_, fun a ha => ?_⟩
  · -- only what is new is marked, and the journal of before stays
    rw [waited, List.length_append, Nat.add_sub_cancel, List.take_left, List.drop_left, events]
  · obtain ⟨a', ha', h⟩ := forall₂_exists_left kept ha
    exact ⟨a', made a' ha', h⟩

/-! ## What acts are counted as -/

/-- Whether the method of a relation resolves a batch. -/
def Batch.isOf (relation : String) (b : Batch) : Bool := b.relation.method.fullName == relation

namespace Act

/-- The attempts to call that an act makes. -/
def exchanges (a : Act) : List Exchange := a.events.filterMap Event.exchange?

/-- The batch that an act resolves. -/
def batch? : Act → Option Batch
  | ask _ => none
  | resolve b _ => some b

theorem flatMap_exchanges (acts : List Act) :
    (acts.flatMap events).filterMap Event.exchange? = acts.flatMap exchanges :=
  List.filterMap_flatMap ..

end Act

/-- A batch is counted once when it is resolved, whatever comes of it. -/
theorem Batch.batches_resolve (b : Batch) (world : Downstream) (ctx : CallContext) (owner now : Nat)
    (before : Journal) : (b.resolve world ctx owner now before).events.filterMap Event.batch? =
      [(b.relation.method.fullName, b.entries.length)] := by
  unfold resolve
  cases b.relation.resolver with
  | custom name => rfl
  | method transport timeout =>
    dsimp only
    cases b.relation.request b.bases (b.params.map (·.message)) with
    | error e => rfl
    | ok message => rfl

theorem Event.KeptAs.batch?_eq {ended : Nat} {raw e : Event} (h : raw.KeptAs ended e) :
    e.batch? = raw.batch? := by
  cases h <;> rfl

theorem Event.KeptAs.batches_eq {ended : Nat} {raw es : List Event}
    (h : List.Forall₂ (Event.KeptAs ended) raw es) : es.filterMap batch? = raw.filterMap batch? := by
  induction h with
  | nil => rfl
  | cons first rest ih => rw [List.filterMap_cons, List.filterMap_cons, first.batch?_eq, ih]

namespace Act

variable {world : Downstream} {ended : Nat}

theorem Done.batches_events {a : Act} (h : a.Done world ended) : a.events.filterMap Event.batch? =
    a.batch?.toList.map fun b => (b.relation.method.fullName, b.entries.length) := by
  obtain ⟨raw, made, kept⟩ := h
  cases kept with
  | ask => rfl
  | resolve kept =>
    cases made with
    | resolved =>
      exact (Event.KeptAs.batches_eq kept).trans (Batch.batches_resolve ..)

theorem batches_flatMap {acts : List Act} (done : ∀ a ∈ acts, ∃ ended, a.Done world ended) :
    (acts.flatMap events).filterMap Event.batch? =
      (acts.filterMap batch?).map fun b => (b.relation.method.fullName, b.entries.length) := by
  induction acts with
  | nil => rfl
  | cons a rest ih =>
    obtain ⟨ended, ha⟩ := done a (List.mem_cons_self ..)
    rw [List.flatMap_cons, List.filterMap_append, ha.batches_events,
      ih fun b hb => done b (List.mem_cons_of_mem _ hb), List.filterMap_cons]
    cases a.batch? <;> rfl

/-! ### The counters of acts -/

variable (acts : List Act) (service method code relation : String)

/-- What is counted of acts. -/
def observations (acts : List Act) : List Observation :=
  (acts.flatMap events).flatMap Event.observations

theorem count_call : (observations acts).count (.call service method) =
    (acts.flatMap exchanges).countP (·.isOf service method) := by
  rw [observations, Event.count_call, flatMap_exchanges]

theorem count_callError : (observations acts).count (.callError service method code) =
    (acts.flatMap exchanges).countP fun e => e.isOf service method && e.failsWith code := by
  rw [observations, Event.count_callError, flatMap_exchanges]

variable {acts}

theorem countP_isBatchOf (done : ∀ a ∈ acts, ∃ ended, a.Done world ended) :
    (observations acts).countP (Observation.isBatchOf relation) =
      (acts.filterMap batch?).countP (·.isOf relation) := by
  rw [observations, Event.countP_isBatchOf, batches_flatMap done, List.countP_map]
  rfl

theorem sum_sizeFor (done : ∀ a ∈ acts, ∃ ended, a.Done world ended) :
    ((observations acts).map (Observation.sizeFor relation)).sum =
      (((acts.filterMap batch?).filter (·.isOf relation)).map (·.entries.length)).sum := by
  rw [observations, Event.sum_sizeFor, batches_flatMap done, List.filter_map, List.map_map]
  rfl

end Act
end Patchwork
