import Patchwork.Proofs.Uncovered
import Patchwork.Schedule

/-!
# A body on its own

A schedule with one body in it goes through waves with the replies of the world behind the gateway.
It ends with the body, unless some reply never comes.
-/

namespace Patchwork
open Proto

/-- Whether an event is that a batch was given to its resolver. -/
def Event.isResolved : Event → Bool
  | .resolved .. => true
  | _ => false

/-- Whether an event is a question to a server or to code of the gateway's owner. -/
def Event.isQuestion : Event → Bool
  | .called _ => true
  | .consulted .. => true
  | .resolved .. => false

/-- A body goes through waves with the replies of the world. A wave starts when the last reply to
the one before has come, and not at all if that never comes. -/
inductive Alone (s : Setting) : Option Nat → Progress → Journal → List Wave →
    Option Nat → Progress → Journal → Prop
  | stop (due : Option Nat) (p : Progress) (j : Journal) : Alone s due p j [] due p j
  | wave {now : Nat} {d : Document} {batches : List Batch} {j j' j'' : Journal} {due due' : Option Nat}
      {w : Wave} {ws : List Wave} {q : Progress}
      (resolved : resolveWave s.world s.ctx 0 now batches j = (due, w, j'))
      (rest : Alone s due (.advance s.fallback d w) j' ws due' q j'') :
      Alone s (some now) (.wave d batches) j (w :: ws) due' q j''

/-- A process that has come to its end. -/
def Process.ended (d : Document) : Option Failure → Process
  | none => .done d
  | some e => .failed d e

/-- How a schedule ends whose only body has come to `q`. -/
def Progress.Ends (due : Option Nat) (q : Progress) (ending : Ending) (processes : List Process) :
    Prop :=
  match due, q with
  | none, _ => ending = .stuck
  | some _, .finished d none => ending = .complete ∧ processes = [.done d]
  | some _, .finished d (some e) => ending = .failed d e
  | some _, .wave .. => False

/-! ## Replies -/

theorem Batch.check_check (b : Batch) (r : Resolution) :
    ((r >>= b.check) >>= b.check) = (r >>= b.check) := by
  cases h : r >>= b.check with
  | error e => rfl
  | ok values =>
    obtain ⟨rfl, _⟩ := Batch.length_eq_of_check h
    exact h

/-- A resolved batch was checked for the number of its values. -/
theorem Batch.resolve_check (b : Batch) (world : Downstream) (ctx : CallContext) (owner now : Nat)
    (j : Journal) : ((b.resolve world ctx owner now j).result >>= b.check) =
      (b.resolve world ctx owner now j).result := by
  unfold Batch.resolve
  cases b.relation.resolver with
  | custom name => exact b.check_check _
  | method transport timeout =>
    dsimp only
    split
    · rfl
    · dsimp only
      split
      · exact b.check_check _
      · rfl

theorem Batch.resolve_events (b : Batch) (world : Downstream) (ctx : CallContext) (owner now : Nat)
    (j : Journal) : (b.resolve world ctx owner now j).events.countP Event.isResolved = 1 ∧
      (b.resolve world ctx owner now j).events.countP Event.isQuestion ≤ 1 := by
  unfold Batch.resolve
  cases b.relation.resolver with
  | custom name => exact ⟨rfl, Nat.le_refl _⟩
  | method transport timeout =>
    dsimp only
    split
    · exact ⟨rfl, Nat.zero_le _⟩
    · exact ⟨rfl, Nat.le_refl _⟩

/-- The replies to a wave, and the events that they leave. -/
theorem resolveWave_spec {world : Downstream} {ctx : CallContext} {owner now : Nat}
    {batches : List Batch} {j j' : Journal} {due : Option Nat} {w : Wave}
    (h : resolveWave world ctx owner now batches j = (due, w, j')) :
    w.batches = batches ∧ w.results = w ∧
      (∃ events, j' = events ++ j ∧ events.countP Event.isResolved = w.length ∧
        events.countP Event.isQuestion ≤ w.length) ∧
      ∀ x ∈ w, ∃ before, x.2 = (x.1.resolve world ctx owner now before).result := by
  induction batches generalizing j due w with
  | nil =>
    cases h
    exact ⟨rfl, rfl, ⟨[], rfl, rfl, Nat.le_refl _⟩, by simp⟩
  | cons b rest ih =>
    unfold resolveWave at h
    rcases hr : resolveWave world ctx owner now rest
      ((b.resolve world ctx owner now j).events ++ j) with ⟨due₁, w₁, j₁⟩
    simp only [hr, Prod.mk.injEq] at h
    obtain ⟨rfl, rfl, rfl⟩ := h
    obtain ⟨hb, hs, ⟨events, rfl, he, hq⟩, hx⟩ := ih hr
    have hc := b.resolve_check world ctx owner now j
    obtain ⟨he₁, hq₁⟩ := b.resolve_events world ctx owner now j
    refine ⟨congrArg (b :: ·) hb, ?_, ⟨events ++ (b.resolve world ctx owner now j).events, ?_, ?_, ?_⟩,
      ?_⟩
    · simp only [Wave.results, List.map_cons, hc]
      exact congrArg (_ :: ·) hs
    · rw [List.append_assoc]
    · rw [List.countP_append, he, he₁, List.length_cons]
    · rw [List.countP_append, List.length_cons]
      omega
    · intro x hm
      rcases List.mem_cons.mp hm with rfl | hm
      · exact ⟨j, rfl⟩
      · exact hx x hm

theorem resolveWave_isSome {world : Downstream} {ctx : CallContext} {owner now : Nat}
    {batches : List Batch} {j j' : Journal} {due : Option Nat} {w : Wave}
    (h : resolveWave world ctx owner now batches j = (due, w, j'))
    (hb : ∀ b ∈ batches, ∀ before, (b.resolve world ctx owner now before).instant.isSome) :
    due.isSome := by
  induction batches generalizing j due w with
  | nil =>
    cases h
    rfl
  | cons b rest ih =>
    unfold resolveWave at h
    rcases hr : resolveWave world ctx owner now rest
      ((b.resolve world ctx owner now j).events ++ j) with ⟨due₁, w₁, j₁⟩
    simp only [hr, Prod.mk.injEq] at h
    obtain ⟨rfl, rfl, rfl⟩ := h
    have hrest := ih hr fun x hx => hb x (List.mem_cons_of_mem _ hx)
    obtain ⟨x, hx⟩ := Option.isSome_iff_exists.mp hrest
    obtain ⟨y, hy⟩ := Option.isSome_iff_exists.mp (hb b (List.mem_cons_self ..) j)
    rw [hx, hy]
    rfl

section

variable {s : Setting} {owner now : Nat} {d : Document} {batches : List Batch} {j j' : Journal}
  {due : Option Nat} {w : Wave}

/-- A run goes on with the replies to its next wave. -/
theorem Progress.Runs.snoc_resolved {p : Progress} {ws : List Wave}
    (h : p.Runs s.fallback ws (.wave d batches))
    (resolved : resolveWave s.world s.ctx owner now batches j = (due, w, j')) :
    p.Runs s.fallback (ws ++ [w]) (.advance s.fallback d w) := by
  obtain ⟨rfl, hr, _⟩ := resolveWave_spec resolved
  have hs := h.snoc
  rwa [hr] at hs

theorem Progress.rank_advance_resolved (fallback : Bool) (d : Document)
    (resolved : resolveWave s.world s.ctx owner now batches j = (due, w, j')) :
    (advance fallback d w).rank < (wave d batches).rank := by
  obtain ⟨rfl, hr, _⟩ := resolveWave_spec resolved
  have hlt := rank_advance fallback d w
  rwa [hr] at hlt

end

namespace Alone

variable {s : Setting} {due due' : Option Nat} {p q : Progress} {j j' : Journal} {ws : List Wave}

theorem runs (h : Alone s due p j ws due' q j') : p.Runs s.fallback ws q := by
  induction h with
  | stop due p j => exact .stop p
  | wave resolved rest ih =>
    obtain ⟨hb, hr, _⟩ := resolveWave_spec resolved
    rw [← hr] at ih
    exact .wave hb ih

theorem events (h : Alone s due p j ws due' q j') :
    ∃ events, j' = events ++ j ∧ events.countP Event.isResolved = ws.flatten.length ∧
      events.countP Event.isQuestion ≤ ws.flatten.length := by
  induction h with
  | stop due p j => exact ⟨[], rfl, rfl, Nat.le_refl _⟩
  | wave resolved rest ih =>
    obtain ⟨_, _, ⟨events, rfl, he, hq⟩, _⟩ := resolveWave_spec resolved
    obtain ⟨events', rfl, he', hq'⟩ := ih
    refine ⟨events' ++ events, (List.append_assoc ..).symm, ?_, ?_⟩
    · rw [List.countP_append, he, he', List.flatten_cons, List.length_append, Nat.add_comm]
    · rw [List.countP_append, List.flatten_cons, List.length_append]
      omega

/-- A body that has come to its end, or that waits for a reply that never comes. -/
def Over (due : Option Nat) (q : Progress) : Prop :=
  due = none ∨ ∃ d failure, q = .finished d failure

end Alone

/-- The waves of a body on its own, `fuel` at most, with what it comes to. -/
def Setting.waves (s : Setting) :
    Nat → Option Nat → Progress → Journal → List Wave × Option Nat × Progress × Journal
  | fuel + 1, some now, .wave d batches, j =>
    let (due, w, j) := resolveWave s.world s.ctx 0 now batches j
    let (ws, rest) := s.waves fuel due (.advance s.fallback d w) j
    (w :: ws, rest)
  | _, due, p, j => ([], due, p, j)

namespace Alone

variable {s : Setting} {due due' : Option Nat} {p q : Progress} {j j' : Journal} {ws : List Wave}

/-- A body that is over has gone through its waves, of which there are no more than its rank. -/
theorem waves_eq (h : Alone s due p j ws due' q j') (ended : Over due' q) (fuel : Nat)
    (enough : p.rank ≤ fuel) : s.waves fuel due p j = (ws, due', q, j') := by
  induction h generalizing fuel with
  | stop due p j =>
    rcases ended with rfl | ⟨d, failure, rfl⟩
    · cases fuel <;> rfl
    · cases fuel <;> cases due <;> rfl
  | @wave now d batches j j' j'' due due' w ws q resolved rest ih =>
    have less := Progress.rank_advance_resolved s.fallback d resolved
    cases fuel with
    | zero => omega
    | succ fuel =>
      rw [Setting.waves, resolved]
      dsimp only
      rw [ih ended fuel (by omega)]

/-- What a body on its own comes to is determined by where it starts. -/
theorem unique {due₁ due₂ : Option Nat} {q₁ q₂ : Progress} {j₁ j₂ : Journal} {ws' : List Wave}
    (h : Alone s due p j ws due₁ q₁ j₁) (ended : Over due₁ q₁) (h' : Alone s due p j ws' due₂ q₂ j₂)
    (ended' : Over due₂ q₂) : due₁ = due₂ ∧ q₁ = q₂ := by
  cases (h.waves_eq ended _ (Nat.le_refl _)).symm.trans (h'.waves_eq ended' _ (Nat.le_refl _))
  exact ⟨rfl, rfl⟩

end Alone

theorem Progress.Ends.isOver {due : Option Nat} {q : Progress} {ending : Ending}
    {processes : List Process} (h : q.Ends due ending processes) : Alone.Over due q := by
  cases due with
  | none => exact .inl rfl
  | some t =>
    cases q with
    | wave d batches => exact h.elim
    | finished d failure => exact .inr ⟨d, failure, rfl⟩

/-! ## The schedule of one body -/

namespace Run

theorem finish_waiting (s : Setting) {r : Run} {p : Progress} (fuel : Nat)
    (hp : r.processes = [.sleeping none 0 (.stitching p)]) : r.finish s fuel = (.stuck, r) := by
  cases fuel with
  | zero => rfl
  | succ fuel =>
    unfold finish
    simp only [hp]
    cases r.ordered <;> rfl

theorem finish_due (s : Setting) {r : Run} {p : Progress} {now : Nat} (fuel : Nat)
    (ho : r.ordered = false) (hp : r.processes = [.sleeping (some now) 0 (.stitching p)]) :
    r.finish s (fuel + 1) = (r.goOn s ⟨0, now, 0, .stitching p⟩).finish s fuel := by
  rw [finish]
  simp only [ho, hp]
  rfl

theorem finish_ended (s : Setting) {r : Run} {d : Document} {failure : Option Failure} (fuel : Nat)
    (ho : r.ordered = false)
    (hp : r.processes = [.ended d failure]) :
    (r.finish s (fuel + 1)).2 = r ∧
      Progress.Ends (some r.now) (.finished d failure) (r.finish s (fuel + 1)).1 r.processes := by
  rw [finish]
  cases failure with
  | none =>
    simp only [ho, hp]
    exact ⟨rfl, rfl, rfl⟩
  | some e =>
    simp only [ho, hp]
    exact ⟨rfl, rfl⟩

/-- The fuel of a schedule is enough for the waves of its body. The schedule ends when the last reply
has come. -/
theorem finish_alone (s : Setting) {r : Run} {due : Option Nat} {p : Progress} {fuel : Nat}
    (ho : r.ordered = false) (hp : r.processes = [.sleeping due 0 (.stitching p)])
    (hf : p.rank + 2 ≤ fuel) :
    ∃ ws due' q, Alone s due p r.journal ws due' q (r.finish s fuel).2.journal ∧
      q.Ends due' (r.finish s fuel).1 (r.finish s fuel).2.processes ∧
      ∀ t, due' = some t → (r.finish s fuel).2.now = t := by
  induction fuel generalizing r due p with
  | zero => omega
  | succ fuel ih =>
    cases due with
    | none =>
      rw [finish_waiting s _ hp]
      exact ⟨[], none, p, .stop .., rfl, by simp⟩
    | some now =>
      rw [finish_due s fuel ho hp]
      cases p with
      | finished d failure =>
        cases fuel with
        | zero => omega
        | succ fuel =>
          have hg : (r.goOn s ⟨0, now, 0, .stitching (.finished d failure)⟩).processes =
              [.ended d failure] := by
            simp only [goOn, Stage.step, hp]
            cases failure <;> rfl
          obtain ⟨hr, he⟩ := finish_ended s fuel (by exact ho) hg
          rw [hr]
          exact ⟨[], some now, .finished d failure, .stop .., he, fun t ht => Option.some.inj ht⟩
      | wave d batches =>
        rcases hw : resolveWave s.world s.ctx 0 now batches r.journal with ⟨due₁, w, j₁⟩
        have hg : (r.goOn s ⟨0, now, 0, .stitching (.wave d batches)⟩).processes =
            [.sleeping due₁ 0 (.stitching (.advance s.fallback d w))] := by
          simp only [goOn, Stage.step, hp, ho, Bool.false_eq_true, if_false, hw, ite_self]
          rfl
        have hj : (r.goOn s ⟨0, now, 0, .stitching (.wave d batches)⟩).journal = j₁ := by
          simp only [goOn, Stage.step, ho, Bool.false_eq_true, if_false, hw]
        have hlt := Progress.rank_advance_resolved s.fallback d hw
        obtain ⟨ws, due', q, ha, he⟩ := ih (by exact ho) hg (by omega)
        rw [hj] at ha
        exact ⟨w :: ws, due', q, .wave hw ha, he⟩

end Run

theorem Run.isResolved_close (r : Run) (ending : Ending) :
    Event.isResolved ∘ r.close ending = Event.isResolved := by
  funext e
  cases e <;> rfl

theorem Run.isQuestion_close (r : Run) (ending : Ending) :
    Event.isQuestion ∘ r.close ending = Event.isQuestion := by
  funext e
  cases e <;> rfl

/-- Only what happened in a schedule is closed, not what happened before. -/
theorem runAll_journal (s : Setting) (now : Nat) (before : Journal) (stages : List Stage)
    {events : Journal}
    (h : ((Run.ofStages now before stages).finish s
      (stepsOf (Run.ofStages now before stages).processes + 1)).2.journal = events ++ before) :
    (runAll s now before stages).2.journal =
      events.map (((Run.ofStages now before stages).finish s
        (stepsOf (Run.ofStages now before stages).processes + 1)).2.close
          (runAll s now before stages).1) ++ before := by
  unfold runAll
  dsimp only
  rw [h, List.length_append, Nat.add_sub_cancel, List.take_left, List.drop_left]

/-- A body alone in a schedule goes through waves with the replies of the world. The schedule ends
with it, and its events are logged. -/
theorem runAll_alone_at (s : Setting) (now : Nat) (before : Journal) (p : Progress) :
    ∃ ws due q events, Alone s (some now) p before ws due q (events ++ before) ∧
      q.Ends due (runAll s now before [.stitching p]).1
        (runAll s now before [.stitching p]).2.processes ∧
      (∀ t, due = some t → (runAll s now before [.stitching p]).2.now = t) ∧
      ∃ r ending, (runAll s now before [.stitching p]).2.journal =
        events.map (Run.close r ending) ++ before := by
  have hf : p.rank + 2 ≤ stepsOf (Run.ofStages now before [.stitching p]).processes + 1 := by
    have hs : stepsOf (Run.ofStages now before [.stitching p]).processes = p.rank + 2 + 0 := rfl
    omega
  obtain ⟨ws, due, q, ha, he, ht⟩ := Run.finish_alone s
    (r := Run.ofStages now before [.stitching p]) rfl rfl hf
  obtain ⟨events, hj, _⟩ := ha.events
  have hb : (Run.ofStages now before [.stitching p]).journal = before := rfl
  rw [hb] at ha hj
  rw [hj] at ha
  exact ⟨ws, due, q, events, ha, he, ht, _, _, runAll_journal s now before _ hj⟩

/-- A body alone in a schedule goes through waves with the replies of the world, and each batch
leaves one event. -/
theorem runAll_alone (s : Setting) (now : Nat) (before : Journal) (p : Progress) :
    ∃ ws due q j, Alone s (some now) p before ws due q j ∧
      q.Ends due (runAll s now before [.stitching p]).1
        (runAll s now before [.stitching p]).2.processes ∧
      ∃ events, (runAll s now before [.stitching p]).2.journal = events ++ before ∧
        events.countP Event.isResolved = ws.flatten.length ∧
        events.countP Event.isQuestion ≤ ws.flatten.length := by
  obtain ⟨ws, due, q, events, ha, he, _, r, ending, hj⟩ := runAll_alone_at s now before p
  obtain ⟨events', hj', hr, hq⟩ := ha.events
  obtain rfl := List.append_cancel_right hj'
  refine ⟨ws, due, q, _, ha, he, _, hj, ?_, ?_⟩
  · rw [List.countP_map, Run.isResolved_close, hr]
  · rw [List.countP_map, Run.isQuestion_close]
    exact hq

namespace Sample

/-- A gateway with no servers behind it, whose own code gives each object as the value of each of its
relations. -/
def mirror : Setting where
  world :=
    { unary := fun _ _ => ⟨none, .error ⟨.unavailable, "", []⟩⟩
      stream := fun _ _ => ⟨none, .error ⟨.unavailable, "", []⟩⟩
      consult := fun c => .ok (c.bases.map fun b => some (.message b)) }
  ctx := {}
  fallback := false

end Sample
end Patchwork
