import Patchwork.Proofs.Acts
import Patchwork.Proofs.Streams

/-!
# Conservation of events

Someone calls a gateway again and again: has batches served, listens to streams, reads items of them,
drops them, and loses patience with any of this. Each call is an errand, which is open as long as its
stream is, and then ends with a failure or without one. When no errand is left open, the meters have
counted each errand, its end and its failure once, and of what was done for them each attempt to call,
each call that failed and each batch.
-/

namespace Patchwork
open Proto

/-- A call of the gateway. -/
inductive Errand where
  /-- Its stream is being listened to. -/
  | listening (l : Listening) (ctx : CallContext)
  /-- It has come to its end or was dropped. The caller was told of the failure, if there is one. -/
  | ended (v : Verb) (failure : Option Failure)

namespace Errand

def verb : Errand → Verb
  | listening .. => .listen
  | ended v _ => v

def isEnded : Errand → Bool
  | listening .. => false
  | ended .. => true

/-- Whether the caller was told of a failure of a code. -/
def failsWith (v : Verb) (code : String) : Errand → Bool
  | ended w (some e) => w == v && e.code.name == code
  | _ => false

/-- What comes of a call to listen. -/
def ofListen (ctx : CallContext) : Option (Outcome Listening) → Errand
  | some (.ok l) => listening l ctx
  | some (.error e) => ended .listen (some e)
  | none => ended .listen none

@[simp] theorem verb_ofListen (ctx : CallContext) (result : Option (Outcome Listening)) :
    (ofListen ctx result).verb = .listen := by
  rcases result with _ | e | l <;> rfl

/-- What is counted of an errand, the last first. -/
def observations : Errand → List Observation
  | listening .. => [.request Verb.listen.label]
  | ended v failure =>
    .duration v.label :: (failure.toList.map fun e => .error v.label e.code.name) ++ [.request v.label]

end Errand

/-- What someone does with a gateway, and for how long he waits for it. -/
inductive Deed where
  | fetch (ctx : CallContext) (requests : List Request) (patience : Option Nat)
  | act (ctx : CallContext) (requests : List Request) (patience : Option Nat)
  | listen (ctx : CallContext) (request : Option Request) (patience : Option Nat)
  /-- Reads the next item of the stream of an errand. -/
  | read (errand : Nat) (patience : Option Nat)
  /-- Drops the stream of an errand. -/
  | drop (errand : Nat)
  | wait (span : Nat)

/-- The verb of a deed that is a call of the gateway. -/
def Deed.verb? : Deed → Option Verb
  | fetch .. => some .fetch
  | act .. => some .act
  | listen .. => some .listen
  | _ => none

/-- What happened, and how each errand stands. -/
structure Use where
  moment : Moment
  errands : List Errand := []

namespace Use

def serve (u : Use) (g : Gateway) (world : Downstream) (v : Verb) (ctx : CallContext)
    (requests : List Request) (patience : Option Nat) : Use :=
  let (result, m) := g.serveBy world ctx v patience u.moment requests
  ⟨m, u.errands ++ [.ended v (result.bind Outcome.failure?)]⟩

def listen (u : Use) (g : Gateway) (world : Downstream) (ctx : CallContext) (request : Option Request)
    (patience : Option Nat) : Use :=
  let (result, m) := g.listenBy world ctx patience u.moment request
  ⟨m, u.errands ++ [.ofListen ctx result]⟩

/-- A stream that has nothing more to say, or that is waited for in vain, is dropped. -/
def read (u : Use) (world : Downstream) (i : Nat) (patience : Option Nat) : Use :=
  match u.errands[i]? with
  | some (.listening l ctx) =>
    match l.nextBy world ctx patience u.moment with
    | (.response _ rest, m) => ⟨m, u.errands.set i (.listening rest ctx)⟩
    | (.failed e, m) => ⟨m.conclude .listen (some e), u.errands.set i (.ended .listen (some e))⟩
    | (_, m) => ⟨m.conclude .listen none, u.errands.set i (.ended .listen none)⟩
  | _ => u

def drop (u : Use) (i : Nat) : Use :=
  match u.errands[i]? with
  | some (.listening ..) =>
    ⟨u.moment.conclude .listen none, u.errands.set i (.ended .listen none)⟩
  | _ => u

def perform (g : Gateway) (world : Downstream) (u : Use) : Deed → Use
  | .fetch ctx requests patience => u.serve g world .fetch ctx requests patience
  | .act ctx requests patience => u.serve g world .act ctx requests patience
  | .listen ctx request patience => u.listen g world ctx request patience
  | .read i patience => u.read world i patience
  | .drop i => u.drop i
  | .wait span => { u with moment := u.moment.wait span }

def run (g : Gateway) (world : Downstream) (deeds : List Deed) (u : Use) : Use :=
  deeds.foldl (perform g world) u

end Use

/-! ## Without haste -/

namespace Use

theorem run_closed (g : Gateway) (world : Downstream) (m : Moment) (v : Verb)
    (failure : Option Failure) (count : Nat) :
    run g world (List.replicate count (.read 0 none) ++ [.drop 0]) ⟨m, [.ended v failure]⟩ =
      ⟨m, [.ended v failure]⟩ := by
  induction count with
  | zero => rfl
  | succ count ih => exact ih

/-- Who reads one item after the other, and then drops the stream, does what reading does. -/
theorem run_reads (g : Gateway) (world : Downstream) (ctx : CallContext) (count : Nat) (l : Listening)
    (m : Moment) :
    (run g world (List.replicate count (.read 0 none) ++ [.drop 0]) ⟨m, [.listening l ctx]⟩).moment =
      (l.readFor world ctx count m).2 := by
  induction count generalizing l m with
  | zero => rfl
  | succ count ih =>
    rw [List.replicate_succ, List.cons_append, run, List.foldl_cons]
    change (run g world _ (read ⟨m, [.listening l ctx]⟩ world 0 none)).moment = _
    unfold read Listening.readFor
    dsimp only [List.getElem?_cons_zero]
    rw [l.nextBy_none]
    rcases l.next world ctx m with ⟨heard, m'⟩
    cases heard with
    | response r rest => exact ih rest m'
    | failed e => exact congrArg moment (run_closed ..)
    | ended => exact congrArg moment (run_closed ..)
    | silent => exact congrArg moment (run_closed ..)

end Use

/-! ## From moment to moment -/

/-- A moment is reached from another one by acts that are over by then, and these are counted of calls
of the gateway, the last first. -/
structure Moment.Comes (world : Downstream) (m : Moment) (counted : List Observation) (m' : Moment) :
    Prop where
  counted : m'.counted = counted ++ m.counted
  acts : ∃ acts : List Act, m'.journal = acts.flatMap Act.events ++ m.journal ∧
    ∀ a ∈ acts, a.Done world m'.now

namespace Moment.Comes

variable {world : Downstream} {m m' : Moment} {counted : List Observation}

theorem refl (m : Moment) : m.Comes world [] m := ⟨rfl, [], rfl, by simp⟩

theorem wait (m : Moment) (span : Nat) : m.Comes world [] (m.wait span) := ⟨rfl, [], rfl, by simp⟩

theorem of_wait {span : Nat} (h : (m.wait span).Comes world counted m') : m.Comes world counted m' :=
  ⟨h.counted, h.acts⟩

theorem of_observe {o : Observation} (h : (m.observe o).Comes world counted m') :
    m.Comes world (counted ++ [o]) m' :=
  ⟨h.counted.trans (List.append_cons ..), h.acts⟩

theorem conclude (h : m.Comes world counted m') (v : Verb) (failure : Option Failure) :
    m.Comes world ((.duration v.label :: failure.toList.map fun e => .error v.label e.code.name) ++
      counted) (m'.conclude v failure) := by
  obtain ⟨same, acts⟩ := h
  refine ⟨?_, ?_⟩
  · cases failure with
    | none => exact congrArg (_ :: ·) same
    | some e => exact congrArg (_ :: _ :: ·) same
  · rwa [now_conclude, journal_conclude]

/-- A call that was begun and that has come to its end is counted as an errand. -/
theorem errand {v : Verb} (h : (m.observe (.request v.label)).Comes world [] m')
    (failure : Option Failure) :
    m.Comes world (Errand.ended v failure).observations (m'.conclude v failure) :=
  h.of_observe.conclude v failure

/-- Stages that run to their end, or until they are dropped. -/
theorem ofRun (world : Downstream) (ctx : CallContext) (v : Verb) (limit : Option Nat) (m : Moment)
    (stages : List Stage) : m.Comes world [] { m with
      now := (runBy (Gateway.setting world ctx v) limit m.now m.journal stages).2.now
      journal := (runBy (Gateway.setting world ctx v) limit m.now m.journal stages).2.journal } :=
  ⟨rfl, runBy_acts (Gateway.setting world ctx v) limit m.now m.journal stages⟩

end Moment.Comes

/-- Who waited in vain for something did not wait for longer than it takes. -/
theorem le_of_not_inTime {limit : Option Nat} {now t : Nat} (late : ¬inTime limit t = true)
    (ahead : now ≤ t) : max now (limit.getD now) ≤ t := by
  cases limit with
  | none => exact absurd rfl late
  | some limit =>
    have passed : ¬t ≤ limit := by simpa [inTime] using late
    exact Nat.max_le.mpr ⟨ahead, Nat.le_of_not_le passed⟩

namespace Gateway

variable (g : Gateway) (world : Downstream) (ctx : CallContext) (patience : Option Nat) (m : Moment)

theorem comes_runBatchBy (v : Verb) (prepared : List Prepared) :
    m.Comes world [] (runBatchBy world ctx v patience m prepared).2 := by
  have run := Moment.Comes.ofRun world ctx v (m.after patience) m
    (prepared.map Stage.calling)
  unfold runBatchBy
  generalize runBy (setting world ctx v) (m.after patience) m.now m.journal
    (prepared.map Stage.calling) = result at run ⊢
  obtain ⟨ending, r⟩ := result
  cases ending <;> exact run

theorem comes_serveBy (v : Verb) (requests : List Request) : m.Comes world
    (Errand.ended v ((g.serveBy world ctx v patience m requests).1.bind Outcome.failure?)).observations
    (g.serveBy world ctx v patience m requests).2 := by
  unfold serveBy
  cases g.prepareAll v requests with
  | error e => exact (Moment.Comes.refl _).errand (some e)
  | ok prepared =>
    have run := comes_runBatchBy world ctx patience (m.observe (.request v.label)) v prepared
    dsimp only
    generalize runBatchBy world ctx v patience (m.observe (.request v.label)) prepared = result
      at run ⊢
    obtain ⟨result, m'⟩ := result
    rcases result with _ | e | responses
    · exact run.errand none
    · exact run.errand (some _)
    · exact run.errand none

theorem comes_openBy (request : Option Request) :
    m.Comes world [] (g.openBy world ctx patience m request).2 := by
  unfold openBy
  cases request with
  | none => exact .refl m
  | some r =>
    dsimp only
    cases g.prepare .listen r with
    | error e => exact .refl m
    | ok p =>
      dsimp only
      rcases ha : attempt (world.stream m.journal.calls) 0 m.now (p.call ctx m.now) with
        ⟨settled, reply, e⟩
      have made : (Act.ask e).Made world := .opened ha
      have settledAt := (attempted ha).settledAt
      have kept := (exchange_of_attempt ha).2.2.2.1
      dsimp only
      rcases hs : settled.filter (inTime (m.after patience)) with _ | t
      · -- who does not wait until the stream opens drops the call
        refine ⟨rfl, [.ask { e with dropped := true }], rfl, fun a hm => ?_⟩
        rw [List.mem_singleton.mp hm]
        refine ⟨_, made, .ask (.called rfl (fun h => by cases h) fun _ t ht => ?_)⟩
        have comes : settled = some t := settledAt.symm.trans ht
        have late : ¬inTime (m.after patience) t = true := Option.filter_eq_none_iff.mp hs t comes
        exact le_of_not_inTime late ((attempted ha).ahead t comes)
      · have opened : settled = some t := (Option.filter_eq_some_iff.mp hs).1
        have act : ∀ a ∈ [Act.ask e], a.Done world t := by
          intro a hm
          rw [List.mem_singleton.mp hm]
          refine ⟨_, made, .ask (.called rfl (fun _ => ⟨t, settledAt.trans opened, Nat.le_refl t⟩)
            fun dropped => ?_)⟩
          rw [kept] at dropped
          cases dropped
        cases reply <;> exact ⟨rfl, _, rfl, act⟩

theorem comes_listenBy (request : Option Request) : m.Comes world
    (Errand.ofListen ctx (g.listenBy world ctx patience m request).1).observations
    (g.listenBy world ctx patience m request).2 := by
  have opened := g.comes_openBy world ctx patience (m.observe (.request Verb.listen.label)) request
  unfold listenBy
  generalize g.openBy world ctx patience (m.observe (.request Verb.listen.label)) request = result
    at opened ⊢
  obtain ⟨result, m'⟩ := result
  rcases result with _ | e | l
  · exact opened.errand none
  · exact opened.errand (some e)
  · exact opened.of_observe

end Gateway

namespace Listening

variable (l : Listening) (world : Downstream) (ctx : CallContext) (patience : Option Nat) (m : Moment)

theorem comes_respondBy (item : Message) (rest : Items) :
    m.Comes world [] (l.respondBy world ctx patience m item rest).2 := by
  have run := Moment.Comes.ofRun world ctx .listen (m.after patience) m
    [.stitching (.ofMessage item l.request.schema l.request.onError
      (Gateway.setting world ctx .listen).fallback)]
  unfold respondBy
  dsimp only
  split <;> exact run

theorem comes_nextBy : m.Comes world [] (l.nextBy world ctx patience m).2 := by
  unfold nextBy
  cases l.items with
  | nil => exact .refl m
  | cons item rest =>
    dsimp only
    rcases item.after.filter (inTime patience) with _ | d
    · exact .wait m _
    · dsimp only
      cases item.value with
      | error s => exact .wait m d
      | ok message => exact (l.comes_respondBy ..).of_wait

end Listening

/-! ## From deed to deed -/

/-- Where one element of a list gives more than before, the list gives this more. -/
theorem flatMap_set_perm {f : α → List β} {xs : List α} {i : Nat} {x y : α} {more : List β}
    (found : xs[i]? = some x) (grows : f y = more ++ f x) :
    (more ++ xs.flatMap f).Perm ((xs.set i y).flatMap f) := by
  induction xs generalizing i with
  | nil => cases found
  | cons z rest ih =>
    cases i with
    | zero =>
      obtain rfl : z = x := by simpa using found
      rw [List.set_cons_zero, List.flatMap_cons, List.flatMap_cons, grows, List.append_assoc]
    | succ i =>
      rw [List.set_cons_succ, List.flatMap_cons, List.flatMap_cons]
      have tail := ih (by simpa using found)
      exact (List.perm_append_comm_assoc ..).trans (tail.append_left (f z))

namespace Use

/-- One use leads to another one by acts, and what is counted meanwhile is what more there is of
errands. -/
def Leads (world : Downstream) (u u' : Use) : Prop :=
  ∃ more : List Observation, u.moment.Comes world more u'.moment ∧
    (more ++ u.errands.flatMap Errand.observations).Perm (u'.errands.flatMap Errand.observations)

variable {world : Downstream} {u : Use} {m' : Moment}

/-- One more errand. -/
theorem leads_add {x : Errand} (h : u.moment.Comes world x.observations m') :
    u.Leads world ⟨m', u.errands ++ [x]⟩ := by
  refine ⟨_, h, ?_⟩
  rw [List.flatMap_append, List.flatMap_singleton]
  exact List.perm_append_comm

/-- An errand goes on. -/
theorem leads_set {i : Nat} {x y : Errand} {more : List Observation} (found : u.errands[i]? = some x)
    (grows : y.observations = more ++ x.observations) (h : u.moment.Comes world more m') :
    u.Leads world ⟨m', u.errands.set i y⟩ :=
  ⟨_, h, flatMap_set_perm found grows⟩

theorem leads_quiet (h : u.moment.Comes world [] m') : u.Leads world { u with moment := m' } :=
  ⟨[], h, .refl _⟩

variable (u) (g : Gateway)

theorem leads_read (i : Nat) (patience : Option Nat) : u.Leads world (u.read world i patience) := by
  unfold read
  split
  · next l ctx found =>
    have comes := l.comes_nextBy world ctx patience u.moment
    generalize l.nextBy world ctx patience u.moment = result at comes ⊢
    obtain ⟨heard, m'⟩ := result
    cases heard with
    | response r rest => exact leads_set found rfl comes
    | failed e => exact leads_set found rfl (comes.conclude .listen (some e))
    | ended => exact leads_set found rfl (comes.conclude .listen none)
    | silent => exact leads_set found rfl (comes.conclude .listen none)
  · exact leads_quiet (.refl _)

theorem leads_drop (i : Nat) : u.Leads world (u.drop i) := by
  unfold drop
  split
  · next found => exact leads_set found rfl ((Moment.Comes.refl u.moment).conclude .listen none)
  · exact leads_quiet (.refl _)

theorem leads_perform (deed : Deed) : u.Leads world (u.perform g world deed) := by
  cases deed with
  | fetch ctx requests patience =>
    exact leads_add (g.comes_serveBy world ctx patience u.moment .fetch requests)
  | act ctx requests patience =>
    exact leads_add (g.comes_serveBy world ctx patience u.moment .act requests)
  | listen ctx request patience =>
    exact leads_add (g.comes_listenBy world ctx patience u.moment request)
  | read i patience => exact u.leads_read i patience
  | drop i => exact u.leads_drop i
  | wait span => exact leads_quiet (.wait u.moment span)

end Use

/-- What deeds do downstream, one after the other: the acts, the last first. When a deed is over, so
is all that it does. -/
inductive Use.Does (g : Gateway) (world : Downstream) : Use → List Deed → List Act → Prop
  | nil (u : Use) : Does g world u [] []
  | cons {u : Use} {deed : Deed} {deeds : List Deed} {acts later : List Act}
      (journal : (u.perform g world deed).moment.journal = acts.flatMap Act.events ++ u.moment.journal)
      (done : ∀ a ∈ acts, a.Done world (u.perform g world deed).moment.now)
      (rest : Does g world (u.perform g world deed) deeds later) :
      Does g world u (deed :: deeds) (later ++ acts)

namespace Use.Does

variable {g : Gateway} {world : Downstream} {u : Use} {deeds : List Deed} {acts : List Act}

theorem journal (h : Does g world u deeds acts) :
    (u.run g world deeds).moment.journal = acts.flatMap Act.events ++ u.moment.journal := by
  induction h with
  | nil u => rfl
  | cons journal _ _ ih =>
    rw [List.flatMap_append, List.append_assoc, ← journal]
    exact ih

theorem done (h : Does g world u deeds acts) : ∀ a ∈ acts, ∃ ended, a.Done world ended := by
  induction h with
  | nil u => simp
  | cons _ done _ ih =>
    intro a ha
    exact (List.mem_append.mp ha).elim (ih a) fun ha => ⟨_, done a ha⟩

end Use.Does

/-- Whatever is done, what is counted of calls of the gateway is what there is of errands. -/
theorem Use.exists_does (g : Gateway) (world : Downstream) (deeds : List Deed) (u : Use) :
    ∃ (acts : List Act) (more : List Observation), Does g world u deeds acts ∧
      (u.run g world deeds).moment.counted = more ++ u.moment.counted ∧
      (more ++ u.errands.flatMap Errand.observations).Perm
        ((u.run g world deeds).errands.flatMap Errand.observations) := by
  -- errands that are already there take part, so that the induction may go on from any use
  induction deeds generalizing u with
  | nil => exact ⟨[], [], .nil u, rfl, .refl _⟩
  | cons deed rest ih =>
    obtain ⟨more, comes, perm⟩ := u.leads_perform g deed
    obtain ⟨acts, journal, done⟩ := comes.acts
    obtain ⟨later, more', does, counted, perm'⟩ := ih (u.perform g world deed)
    refine ⟨later ++ acts, more' ++ more, .cons journal done does, ?_, ?_⟩
    · rw [List.append_assoc, ← comes.counted]
      exact counted
    · rw [List.append_assoc]
      exact (perm.append_left more').trans perm'

/-! ## The errands of deeds -/

namespace Use

theorem map_set_of_eq {f : α → β} {xs : List α} {i : Nat} {x y : α} (found : xs[i]? = some x)
    (same : f y = f x) : (xs.set i y).map f = xs.map f := by
  obtain ⟨inside, rfl⟩ := List.getElem?_eq_some_iff.mp found
  rw [List.map_set, same, ← List.getElem_map f, List.set_getElem_self]
  rwa [List.length_map]

variable (g : Gateway) (world : Downstream)

theorem verbs_read (u : Use) (i : Nat) (patience : Option Nat) :
    (u.read world i patience).errands.map Errand.verb = u.errands.map Errand.verb := by
  unfold read
  split
  · next l ctx found => split <;> exact map_set_of_eq found rfl
  · rfl

theorem verbs_drop (u : Use) (i : Nat) :
    (u.drop i).errands.map Errand.verb = u.errands.map Errand.verb := by
  unfold drop
  split
  · next found => exact map_set_of_eq found rfl
  · rfl

/-- Each call of the gateway is one errand. -/
theorem verbs_perform (u : Use) (deed : Deed) : (u.perform g world deed).errands.map Errand.verb =
    u.errands.map Errand.verb ++ deed.verb?.toList := by
  cases deed with
  | fetch ctx requests patience => exact List.map_append
  | act ctx requests patience => exact List.map_append
  | listen ctx request patience =>
    refine List.map_append.trans (congrArg _ ?_)
    exact congrArg (· :: []) (Errand.verb_ofListen ..)
  | read i patience => exact (u.verbs_read world i patience).trans (List.append_nil _).symm
  | drop i => exact (u.verbs_drop i).trans (List.append_nil _).symm
  | wait span => exact (List.append_nil _).symm

theorem verbs_run (deeds : List Deed) (u : Use) : (u.run g world deeds).errands.map Errand.verb =
    u.errands.map Errand.verb ++ deeds.filterMap Deed.verb? := by
  induction deeds generalizing u with
  | nil => exact (List.append_nil _).symm
  | cons deed rest ih =>
    refine (ih (u.perform g world deed)).trans ?_
    rw [verbs_perform, List.append_assoc, List.filterMap_cons]
    cases deed.verb? <;> rfl

end Use

/-! ## What the meters show -/

theorem Verb.label_inj {v w : Verb} : v.label = w.label ↔ v = w := by
  cases v <;> cases w <;> decide

theorem count_flatMap_indicator [BEq β] {f : α → List β} {p : α → Bool} {b : β}
    (one : ∀ x, (f x).count b = if p x then 1 else 0) (xs : List α) :
    (xs.flatMap f).count b = xs.countP p := by
  rw [List.count_flatMap, ← sum_indicator]
  exact congrArg List.sum (List.map_congr_left fun x _ => one x)

namespace Errand

theorem isOwn_of_mem {x : Errand} {o : Observation} (h : o ∈ x.observations) : o.isOwn = true := by
  cases x with
  | listening l ctx =>
    rw [List.mem_singleton.mp h]
    rfl
  | ended v failure =>
    rcases List.mem_append.mp h with h | h
    · rcases List.mem_cons.mp h with rfl | h
      · rfl
      · obtain ⟨e, _, rfl⟩ := List.mem_map.mp h
        rfl
    · rw [List.mem_singleton.mp h]
      rfl

variable (x : Errand) (v : Verb) (code : String)

theorem count_request : x.observations.count (.request v.label) = if x.verb == v then 1 else 0 := by
  cases x with
  | listening l ctx => simp [observations, verb, List.count_cons, Verb.label_inj]
  | ended w failure => cases failure <;> simp [observations, verb, List.count_cons, Verb.label_inj]

theorem count_duration :
    x.observations.count (.duration v.label) = if x.isEnded && x.verb == v then 1 else 0 := by
  cases x with
  | listening l ctx => simp [observations, isEnded]
  | ended w failure =>
    cases failure <;> simp [observations, verb, isEnded, List.count_cons, Verb.label_inj]

theorem count_error :
    x.observations.count (.error v.label code) = if x.failsWith v code then 1 else 0 := by
  cases x with
  | listening l ctx => simp [observations, failsWith]
  | ended w failure =>
    cases failure <;> simp [observations, failsWith, List.count_cons, Verb.label_inj]

end Errand

namespace Use

/-- All that the meters have counted since a moment is what was counted of errands and of acts. -/
theorem exists_observations (g : Gateway) (world : Downstream) (m : Moment) (deeds : List Deed) :
    ∃ acts : List Act, Does g world ⟨m, []⟩ deeds acts ∧
      (run g world deeds ⟨m, []⟩).moment.observations.Perm (m.observations ++
        (run g world deeds ⟨m, []⟩).errands.flatMap Errand.observations ++ Act.observations acts) := by
  obtain ⟨acts, more, does, counted, perm⟩ := exists_does g world deeds ⟨m, []⟩
  refine ⟨acts, does, ?_⟩
  unfold Moment.observations
  rw [counted, does.journal, List.flatMap_append]
  have parted : (more ++ m.counted ++ (Act.observations acts ++
      m.journal.flatMap Event.observations)).Perm
      (m.counted ++ m.journal.flatMap Event.observations ++ more ++ Act.observations acts) := by
    rw [List.perm_iff_count]
    intro o
    simp only [List.count_append]
    omega
  have all : more.Perm ((run g world deeds ⟨m, []⟩).errands.flatMap Errand.observations) := by
    simpa using perm
  exact parted.trans ((all.append_left _).append_right _)

variable {acts : List Act} {errands : List Errand}

/-- What is counted of calls of the gateway is counted of errands. -/
theorem count_own {os before : List Observation} {o : Observation} (own : o.isOwn = true)
    (h : os.Perm (before ++ errands.flatMap Errand.observations ++ Act.observations acts)) :
    os.count o = before.count o + (errands.flatMap Errand.observations).count o := by
  have foreign : o ∉ Act.observations acts := by
    intro hm
    obtain ⟨e, _, he⟩ := List.mem_flatMap.mp hm
    rw [Event.isOwn_of_mem he] at own
    cases own
  rw [h.count_eq, List.count_append, List.count_append, List.count_eq_zero.mpr foreign, Nat.add_zero]

/-- What else is counted is counted of acts. -/
theorem countP_foreign {os before : List Observation} {p : Observation → Bool}
    (foreign : ∀ o, o.isOwn = true → p o = false)
    (h : os.Perm (before ++ errands.flatMap Errand.observations ++ Act.observations acts)) :
    os.countP p = before.countP p + (Act.observations acts).countP p := by
  have none : (errands.flatMap Errand.observations).countP p = 0 := by
    refine List.countP_eq_zero.mpr fun o ho => ?_
    obtain ⟨x, _, hx⟩ := List.mem_flatMap.mp ho
    rw [foreign o (Errand.isOwn_of_mem hx)]
    decide
  rw [h.countP_eq, List.countP_append, List.countP_append, none, Nat.add_zero]

theorem sum_foreign {os before : List Observation} {f : Observation → Nat}
    (foreign : ∀ o, o.isOwn = true → f o = 0)
    (h : os.Perm (before ++ errands.flatMap Errand.observations ++ Act.observations acts)) :
    (os.map f).sum = (before.map f).sum + ((Act.observations acts).map f).sum := by
  have none : ((errands.flatMap Errand.observations).map f).sum = 0 := by
    refine List.sum_eq_zero fun n hn => ?_
    obtain ⟨o, ho, rfl⟩ := List.mem_map.mp hn
    obtain ⟨x, _, hx⟩ := List.mem_flatMap.mp ho
    exact foreign o (Errand.isOwn_of_mem hx)
  rw [(h.map f).sum_eq, List.map_append, List.map_append, List.sum_append, List.sum_append, none,
    Nat.add_zero]

end Use

/-- Calls of the gateway that have all come to their end or were dropped are counted, each with its
end, and each with its failure if the caller was told of one. What was done for them were acts, and of
these each attempt to call is counted, each call that failed, and each batch with its size. -/
theorem meters_conserve_events {g : Gateway} {world : Downstream} {m : Moment} {deeds : List Deed}
    {u : Use} (came : Use.run g world deeds ⟨m, []⟩ = u) (ended : ∀ x ∈ u.errands, x.isEnded) :
    u.errands.map Errand.verb = deeds.filterMap Deed.verb? ∧
    (∀ v, u.moment.requests v = m.requests v + (deeds.filterMap Deed.verb?).count v ∧
      u.moment.durations v = m.durations v + (deeds.filterMap Deed.verb?).count v ∧
      ∀ code, u.moment.errors v code = m.errors v code + u.errands.countP (·.failsWith v code)) ∧
    ∃ acts : List Act, Use.Does g world ⟨m, []⟩ deeds acts ∧
      (∀ service method, u.moment.calls service method =
          m.calls service method + (acts.flatMap Act.exchanges).countP (·.isOf service method) ∧
        ∀ code, u.moment.callErrors service method code = m.callErrors service method code +
          (acts.flatMap Act.exchanges).countP fun e => e.isOf service method && e.failsWith code) ∧
      ∀ relation, u.moment.batches relation =
          m.batches relation + (acts.filterMap Act.batch?).countP (·.isOf relation) ∧
        u.moment.bases relation = m.bases relation +
          (((acts.filterMap Act.batch?).filter (·.isOf relation)).map (·.entries.length)).sum := by
  have verbs : u.errands.map Errand.verb = deeds.filterMap Deed.verb? := by
    rw [← came, Use.verbs_run]
    rfl
  obtain ⟨acts, does, all⟩ := Use.exists_observations g world m deeds
  rw [came] at all
  have calls (v : Verb) : u.errands.countP (·.verb == v) = (deeds.filterMap Deed.verb?).count v := by
    rw [← verbs, List.count, List.countP_map]
    rfl
  have ends (v : Verb) : u.errands.countP (fun x => x.isEnded && x.verb == v) =
      u.errands.countP (·.verb == v) :=
    List.countP_congr fun x hx => by simp [ended x hx]
  refine ⟨verbs, fun v => ⟨?_, ?_, fun code => ?_⟩, acts, does,
    fun service method => ⟨?_, fun code => ?_⟩, fun relation => ⟨?_, ?_⟩⟩
  · rw [Moment.requests_eq, Moment.requests_eq, Use.count_own rfl all,
      count_flatMap_indicator (Errand.count_request · v), calls]
  · rw [Moment.durations_eq, Moment.durations_eq, Use.count_own rfl all,
      count_flatMap_indicator (Errand.count_duration · v), ends, calls]
  · rw [Moment.errors_eq, Moment.errors_eq, Use.count_own rfl all,
      count_flatMap_indicator (Errand.count_error · v code)]
  · rw [Moment.calls_eq, Moment.calls_eq, ← Act.count_call]
    exact Use.countP_foreign (fun o own => by cases o <;> simp_all [Observation.isOwn]) all
  · rw [Moment.callErrors_eq, Moment.callErrors_eq, ← Act.count_callError]
    exact Use.countP_foreign (fun o own => by cases o <;> simp_all [Observation.isOwn]) all
  · rw [Moment.batches_eq, Moment.batches_eq, ← Act.countP_isBatchOf relation does.done]
    exact Use.countP_foreign (fun o own => by cases o <;> first | rfl | cases own) all
  · rw [Moment.bases_eq, Moment.bases_eq, ← Act.sum_sizeFor relation does.done]
    exact Use.sum_foreign (fun o own => by cases o <;> first | rfl | cases own) all

namespace Sample

/-- A gateway to items that can be asked for and watched. -/
def market : Gateway :=
  Except.toOption (do
    let b := ({} : Builder).withTransport ⟨"http://items"⟩
    let b ← b.registerService items { methods := some ["Get", "Stamp"] }
    let b ← b.registerService feed {}
    let b ← b.registerRelation items "Parents" { name := "parent" }
    b.build) |>.getD {}

/-- The sender, which takes two instants to answer and does not say twice what items are part of. -/
def forgetful : Downstream :=
  { sender with
    unary := fun history c => ⟨some 2,
      if c.method.info.name = "Parents" && history.any (·.method.info.name == "Parents") then
        .error ⟨.unavailable, "", []⟩
      else knot c.method⟩ }

/-- An item with its parent is fetched, then without much patience, then in a batch that is refused. One
stream is read until it fails, and another is dropped. -/
def marketDay : List Deed :=
  [.fetch {} [{ method := "Items.Get", mask }] none,
   .fetch {} [{ method := "Items.Get", mask }] (some 1),
   .fetch {} spoiled none,
   .act {} [{ method := "Items.Get", mask }] none,
   .listen {} (some watch) none, .listen {} (some watch) none,
   .read 4 none, .read 5 none, .wait 7, .read 4 none, .read 4 none, .drop 5]

end Sample

/-- On a market day four parents are not said, and of these failures no caller is told. -/
theorem market_day_is_counted : ∃ (u : Use) (acts : List Act),
    Use.run Sample.market Sample.forgetful Sample.marketDay ⟨{}, []⟩ = u ∧
    (∀ x ∈ u.errands, x.isEnded) ∧
    u.moment.requests .fetch = 3 ∧ u.moment.durations .fetch = 3 ∧
    u.moment.errors .fetch "INVALID_ARGUMENT" = 1 ∧ u.moment.errors .act "UNAVAILABLE" = 0 ∧
    u.moment.durations .listen = 2 ∧ u.moment.errors .listen "UNAVAILABLE" = 1 ∧
    Use.Does Sample.market Sample.forgetful ⟨{}, []⟩ Sample.marketDay acts ∧
    (acts.flatMap Act.exchanges).countP
      (fun e => e.isOf "Items" "Parents" && e.failsWith "UNAVAILABLE") = 4 ∧
    (acts.filterMap Act.batch?).countP (·.isOf "Items.Parents") = 5 := by
  have ended : ∀ x ∈ (Use.run Sample.market Sample.forgetful Sample.marketDay ⟨{}, []⟩).errands,
      x.isEnded := List.all_eq_true.mp (by decide +kernel)
  obtain ⟨verbs, counted, acts, does, calls, batches⟩ := meters_conserve_events rfl ended
  have failed : (Use.run Sample.market Sample.forgetful Sample.marketDay ⟨{}, []⟩).moment.callErrors
      "Items" "Parents" "UNAVAILABLE" = 4 := by decide +kernel
  have resolved : (Use.run Sample.market Sample.forgetful Sample.marketDay ⟨{}, []⟩).moment.batches
      "Items.Parents" = 5 := by decide +kernel
  refine ⟨_, acts, rfl, ended, (counted .fetch).1, (counted .fetch).2.1,
    ((counted .fetch).2.2 _).trans (by decide +kernel), ((counted .act).2.2 _).trans (by decide +kernel),
    (counted .listen).2.1, ((counted .listen).2.2 _).trans (by decide +kernel),
    does, ?_, ?_⟩
  · rw [(calls "Items" "Parents").2 "UNAVAILABLE"] at failed
    exact (Nat.zero_add _).symm.trans failed
  · rw [(batches "Items.Parents").1] at resolved
    exact (Nat.zero_add _).symm.trans resolved

end Patchwork
