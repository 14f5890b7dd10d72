import Patchwork.Proofs.Independence

/-!
# Streams

A stream is read item by item. Each message is settled on its own, before the next item is asked for.
The responses are those to the items before the first one that has none, which ends the stream.
-/

namespace Patchwork
open Proto

/-! ## A body and its events -/

/-- What is known of the events that a body on its own leaves behind, and of its waves. -/
structure Alone.History (s : Setting) (due due' : Option Nat) (ws : List Wave) (events : Journal) :
    Prop where
  ahead : ∀ t t', due = some t → due' = some t' → t ≤ t'
  waited : ∀ t, due' = some t → ∀ e, .called e ∈ events → ∃ t', e.settledAt = some t' ∧ t' ≤ t
  replies : ∀ f, s.world.Follows f → (∀ e, .called e ∈ events → e.answeredAt = e.settledAt) →
    ∀ w ∈ ws, ∀ x ∈ w, x.2 = x.1.replyBy f s.ctx

namespace Alone

variable {s : Setting} {due due' : Option Nat} {p q : Progress} {j j' : Journal} {ws : List Wave}

theorem starts (h : Alone s due p j ws due' q j') (hs : due'.isSome) : due.isSome := by
  cases h with
  | stop => exact hs
  | wave => rfl

theorem history (h : Alone s due p j ws due' q j') :
    ∃ events, j' = events ++ j ∧ History s due due' ws events := by
  induction h with
  | stop due p j =>
    refine ⟨[], rfl, fun t t' ht ht' => ?_, by simp, by simp⟩
    cases ht.symm.trans ht'
    exact Nat.le_refl t
  | @wave now d batches j j' j'' due due' w ws q resolved rest ih =>
    obtain ⟨first, rfl, hw⟩ := waveResolved resolved
    have started := rest.starts
    obtain ⟨later, rfl, hl⟩ := ih
    -- a wave is waited for before the next one starts
    have bound : ∀ t, due' = some t → ∃ t₁, due = some t₁ ∧ t₁ ≤ t := by
      intro t ht
      obtain ⟨t₁, ht₁⟩ := Option.isSome_iff_exists.mp (started (ht ▸ rfl))
      exact ⟨t₁, ht₁, hl.ahead t₁ t ht₁ ht⟩
    refine ⟨later ++ first, (List.append_assoc ..).symm, fun t t' ht ht' => ?_, fun t ht e he => ?_,
      fun f follows kept v hv x hx => ?_⟩
    · cases ht
      obtain ⟨t₁, ht₁, hle⟩ := bound t' ht'
      exact Nat.le_trans (hw.ahead t₁ ht₁) hle
    · rcases List.mem_append.mp he with he | he
      · exact hl.waited t ht e he
      · obtain ⟨t₁, ht₁, hle⟩ := bound t ht
        obtain ⟨b, _, r, hr, he⟩ := hw.event _ he
        obtain ⟨before, rfl⟩ := hr.resolved
        obtain ⟨t₂, ht₂, hle'⟩ := hr.waited t₁ ht₁
        exact ⟨t₂, (((b.asked ..).called e he).2).trans ht₂, Nat.le_trans hle' hle⟩
    · rcases List.mem_cons.mp hv with rfl | hv
      · obtain ⟨r, hin, hxr⟩ := hw.result x hx
        obtain ⟨before, rfl⟩ := hin.resolved
        rw [hxr]
        exact x.1.result_resolve follows fun e he => kept e (List.mem_append_right _ (hin.events he))
      · exact hl.replies f follows (fun e he => kept e (List.mem_append_left _ he)) v hv x hx

end Alone

/-! ## One item -/

/-- A message is settled on its own from an instant on, by its body or by a failure. This takes until
the instant `t` and leaves the events. -/
inductive Prepared.Settles (p : Prepared) (s : Setting) (now : Nat) (before : Journal)
    (message : Message) : Outcome Json → Nat → Journal → Prop
  | body {ws : List Wave} {t : Nat} {d : Document} {events : Journal}
      (alone : Alone s (some now) (.ofMessage message p.schema p.onError s.fallback) before ws
        (some t) (.finished d none) (events ++ before)) :
      Settles p s now before message (.ok (d.toJson 0)) t events
  | failure {ws : List Wave} {t : Nat} {d : Document} {e : Failure} {events : Journal}
      (alone : Alone s (some now) (.ofMessage message p.schema p.onError s.fallback) before ws
        (some t) (.finished d (some e)) (events ++ before)) :
      Settles p s now before message (.error e) t events

/-- What an item of a stream comes to. A status is a failure. -/
inductive Prepared.Hears (p : Prepared) (s : Setting) (now : Nat) (before : Journal) :
    Delayed (Reply Message) → Outcome Json → Nat → Journal → Prop
  | status (delay : Nat) (status : Status) :
      Hears p s now before ⟨some delay, .error status⟩ (.error (.downstream status)) (now + delay) []
  | message {delay : Nat} {message : Message} {o : Outcome Json} {t : Nat} {events : Journal}
      (settles : p.Settles s (now + delay) before message o t events) :
      Hears p s now before ⟨some delay, .ok message⟩ o t events

/-- An item never comes, or some call for it is never answered. -/
inductive Prepared.Waits (p : Prepared) (s : Setting) (now : Nat) (before : Journal) :
    Delayed (Reply Message) → Prop
  | item (value : Reply Message) : Waits p s now before ⟨none, value⟩
  | call {delay : Nat} {message : Message} {ws : List Wave} {q : Progress} {j : Journal}
      (alone : Alone s (some (now + delay)) (.ofMessage message p.schema p.onError s.fallback) before
        ws none q j) : Waits p s now before ⟨some delay, .ok message⟩

namespace Prepared

variable {p : Prepared} {s : Setting} {now : Nat} {before : Journal} {message : Message}
  {item : Delayed (Reply Message)}

theorem Settles.alone {o : Outcome Json} {t : Nat} {events : Journal}
    (h : p.Settles s now before message o t events) :
    ∃ ws d failure, Alone s (some now) (.ofMessage message p.schema p.onError s.fallback) before ws
      (some t) (.finished d failure) (events ++ before) ∧
      o = match failure with
        | none => .ok (d.toJson 0)
        | some e => .error e := by
  cases h with
  | body alone => exact ⟨_, _, none, alone, rfl⟩
  | failure alone => exact ⟨_, _, some _, alone, rfl⟩

/-- An item comes to one outcome, or is waited for. -/
theorem Hears.unique {o o' : Outcome Json} {t t' : Nat} {events events' : Journal}
    (h : p.Hears s now before item o t events) (h' : p.Hears s now before item o' t' events') :
    o = o' := by
  cases h with
  | status => cases h'; rfl
  | message settles =>
    cases h' with
    | message settles' =>
      obtain ⟨ws, d, failure, alone, rfl⟩ := settles.alone
      obtain ⟨ws', d', failure', alone', rfl⟩ := settles'.alone
      cases (alone.unique (.inr ⟨_, _, rfl⟩) alone' (.inr ⟨_, _, rfl⟩)).2
      rfl

theorem Hears.not_waits {o : Outcome Json} {t : Nat} {events : Journal}
    (h : p.Hears s now before item o t events) : ¬p.Waits s now before item := by
  intro hw
  cases h with
  | status => cases hw
  | message settles =>
    cases hw with
    | call alone =>
      obtain ⟨ws, d, failure, alone', _⟩ := settles.alone
      cases (alone'.unique (.inr ⟨_, _, rfl⟩) alone (.inl rfl)).1

theorem Hears.ahead {o : Outcome Json} {t : Nat} {events : Journal}
    (h : p.Hears s now before item o t events) : now ≤ t := by
  cases h with
  | status => exact Nat.le_add_right ..
  | message settles =>
    obtain ⟨ws, d, failure, alone, _⟩ := settles.alone
    obtain ⟨_, _, history⟩ := alone.history
    exact Nat.le_trans (Nat.le_add_right ..) (history.ahead _ t rfl rfl)

theorem Hears.waited {o : Outcome Json} {t : Nat} {events : Journal}
    (h : p.Hears s now before item o t events) :
    ∀ e, .called e ∈ events → ∃ t', e.settledAt = some t' ∧ t' ≤ t := by
  cases h with
  | status => simp
  | message settles =>
    obtain ⟨ws, d, failure, alone, _⟩ := settles.alone
    obtain ⟨_, hj, history⟩ := alone.history
    obtain rfl := List.append_cancel_right hj
    exact history.waited t rfl

/-- What a reply comes to by what handlers answer, at any time. -/
inductive HearsBy (p : Prepared) (f : Handlers) (ctx : CallContext) (fallback : Bool) :
    Reply Message → Outcome Json → Prop
  | status (status : Status) : HearsBy p f ctx fallback (.error status) (.error (.downstream status))
  | body {message : Message} {ws : List Wave} {d : Document}
      (runs : (Progress.ofMessage message p.schema p.onError fallback).Runs fallback ws
        (.finished d none)) (asked : ∀ w ∈ ws, ∀ x ∈ w, x.2 = x.1.replyBy f ctx) :
      HearsBy p f ctx fallback (.ok message) (.ok (d.toJson 0))
  | failure {message : Message} {ws : List Wave} {d : Document} {e : Failure}
      (runs : (Progress.ofMessage message p.schema p.onError fallback).Runs fallback ws
        (.finished d (some e))) (asked : ∀ w ∈ ws, ∀ x ∈ w, x.2 = x.1.replyBy f ctx) :
      HearsBy p f ctx fallback (.ok message) (.error e)

/-- Handlers determine what a reply comes to. -/
theorem HearsBy.unique {f : Handlers} {ctx : CallContext} {fallback : Bool} {reply : Reply Message}
    {o o' : Outcome Json} (h : p.HearsBy f ctx fallback reply o)
    (h' : p.HearsBy f ctx fallback reply o') : o = o' := by
  cases h with
  | status => cases h'; rfl
  | body runs asked =>
    cases h' with
    | body runs' asked' => rw [(runs.unique (g := (·.replyBy f ctx)) asked runs' asked').1]
    | failure runs' asked' => cases (runs.unique (g := (·.replyBy f ctx)) asked runs' asked').2
  | failure runs asked =>
    cases h' with
    | body runs' asked' => cases (runs.unique (g := (·.replyBy f ctx)) asked runs' asked').2
    | failure runs' asked' =>
      cases (runs.unique (g := (·.replyBy f ctx)) asked runs' asked').2
      rfl

/-- An item whose calls were settled by their answers comes to what the handlers answer. -/
theorem Hears.by_handlers {f : Handlers} {o : Outcome Json} {t : Nat} {events : Journal}
    (h : p.Hears s now before item o t events) (follows : s.world.Follows f)
    (kept : ∀ e, .called e ∈ events → e.answeredAt = e.settledAt) :
    p.HearsBy f s.ctx s.fallback item.value o := by
  cases h with
  | status => exact .status _
  | message settles =>
    obtain ⟨ws, d, failure, alone, rfl⟩ := settles.alone
    obtain ⟨_, hj, history⟩ := alone.history
    obtain rfl := List.append_cancel_right hj
    have asked := history.replies f follows kept
    cases failure with
    | none => exact .body alone.runs asked
    | some e => exact .failure alone.runs asked

/-- Where all answers come only an item that never comes is waited for. -/
theorem Waits.after_eq_none (h : p.Waits s now before item) (answers : s.world.Answers) :
    item.after = none := by
  cases h with
  | item => rfl
  | call alone => cases alone.comes answers rfl

end Prepared

/-- A moment that another one is reached from. -/
structure Moment.Precedes (m m' : Moment) : Prop where
  now : m.now ≤ m'.now
  journal : ∃ fresh, m'.journal = fresh ++ m.journal

namespace Moment.Precedes

theorem refl (m : Moment) : m.Precedes m := ⟨Nat.le_refl _, [], rfl⟩

theorem trans {m m' m'' : Moment} (h : m.Precedes m') (h' : m'.Precedes m'') : m.Precedes m'' := by
  obtain ⟨fresh, hj⟩ := h.journal
  obtain ⟨fresh', hj'⟩ := h'.journal
  exact ⟨Nat.le_trans h.now h'.now, fresh' ++ fresh, by rw [hj', hj, List.append_assoc]⟩

theorem conclude {m m' : Moment} (h : m.Precedes m') (v : Verb) (failure : Option Failure) :
    m.Precedes (m'.conclude v failure) := by
  refine ⟨?_, ?_⟩
  · rw [now_conclude]
    exact h.now
  · rw [journal_conclude]
    exact h.journal

end Moment.Precedes

namespace Listening

/-- The response with a body. Only the first one that is read has the schema. -/
def toResponse (l : Listening) (index : Nat) (body : Json) : Response :=
  ⟨l.request.method, body, if l.first && index == 0 then some l.request.schema else none⟩

/-- The stream after its first item. -/
def tail (l : Listening) (rest : Items) : Listening := { l with items := rest, first := false }

/-- What is read next from a stream, and where this leads. -/
inductive Reads (l : Listening) (s : Setting) (m : Moment) : Heard → Moment → Prop
  | ended (items : l.items = []) : Reads l s m .ended m
  | response {item : Delayed (Reply Message)} {rest : Items} {body : Json} {m' : Moment}
      {fresh events : Journal} (items : l.items = item :: rest)
      (hears : l.request.Hears s m.now m.journal item (.ok body) m'.now events)
      (journal : m'.journal = fresh ++ m.journal) (logs : fresh.Logs events) :
      Reads l s m (.response (l.toResponse 0 body) (l.tail rest)) m'
  | failed {item : Delayed (Reply Message)} {rest : Items} {e : Failure} {m' : Moment}
      {fresh events : Journal} (items : l.items = item :: rest)
      (hears : l.request.Hears s m.now m.journal item (.error e) m'.now events)
      (journal : m'.journal = fresh ++ m.journal) (logs : fresh.Logs events) :
      Reads l s m (.failed e) m'
  | silent {item : Delayed (Reply Message)} {rest : Items} {m' : Moment}
      (items : l.items = item :: rest) (waits : l.request.Waits s m.now m.journal item)
      (journal : ∃ fresh, m'.journal = fresh ++ m.journal) : Reads l s m .silent m'

theorem reads_respond (l : Listening) (world : Downstream) (ctx : CallContext) (m : Moment)
    {delay : Nat} {message : Message} {rest : Items}
    (items : l.items = ⟨some delay, .ok message⟩ :: rest) :
    l.Reads (Gateway.setting world ctx .listen) m
      (l.respond world ctx (m.wait delay) message rest).1
      (l.respond world ctx (m.wait delay) message rest).2 := by
  obtain ⟨ws, due, q, events, alone, ends, now, r, ending, journal⟩ :=
    runAll_alone_at (Gateway.setting world ctx .listen) (m.wait delay).now (m.wait delay).journal
      (.ofMessage message l.request.schema l.request.onError
        (Gateway.setting world ctx .listen).fallback)
  have logs : Journal.Logs (events.map (Run.close r ending)) events := ⟨_, Run.logs_close r ending, rfl⟩
  unfold respond
  dsimp only
  generalize runAll (Gateway.setting world ctx .listen) (m.wait delay).now (m.wait delay).journal _ =
    result at ends now journal
  obtain ⟨ending, run⟩ := result
  dsimp only at ends now journal
  cases due with
  | none =>
    obtain rfl : ending = .stuck := ends
    exact .silent items (.call alone) ⟨_, journal⟩
  | some t =>
    obtain rfl := now t rfl
    cases q with
    | wave d batches => exact ends.elim
    | finished d failure =>
      cases failure with
      | none =>
        obtain ⟨rfl, hp⟩ := ends
        have first : Gateway.response l.request d l.first = l.toResponse 0 (d.toJson 0) := by
          simp [Gateway.response, toResponse]
        simp only [hp, first]
        exact .response items (.message (.body alone)) journal logs
      | some e =>
        obtain rfl : ending = .failed d e := ends
        exact .failed items (.message (.failure alone)) journal logs

theorem reads_next (l : Listening) (world : Downstream) (ctx : CallContext) (m : Moment) :
    l.Reads (Gateway.setting world ctx .listen) m (l.next world ctx m).1 (l.next world ctx m).2 := by
  unfold next
  split
  · next items => exact .ended items
  · next item rest items =>
    obtain ⟨after, value⟩ := item
    cases after with
    | none => exact .silent items (.item value) ⟨[], rfl⟩
    | some delay =>
      cases value with
      | error status =>
        have logs : Journal.Logs [] [] := ⟨id, fun e => by cases e <;> rfl, rfl⟩
        exact .failed items (.status delay status) rfl logs
      | ok message => exact l.reads_respond world ctx m items

/-! ## A whole stream -/

section

variable {world : Downstream} {ctx : CallContext}

/-- What the item of an index comes to on its own, from where reading has come before it. -/
def HearsAt (l : Listening) (world : Downstream) (ctx : CallContext) (m : Moment) (k : Nat)
    (o : Outcome Json) : Prop :=
  ∃ item fresh events, l.items[k]? = some item ∧
    l.request.Hears (Gateway.setting world ctx .listen) (readFor world ctx k l m).2.now
      (readFor world ctx k l m).2.journal item o (readFor world ctx (k + 1) l m).2.now events ∧
    (readFor world ctx (k + 1) l m).2.journal = fresh ++ (readFor world ctx k l m).2.journal ∧
    fresh.Logs events

/-- The item of an index is waited for without end. -/
def WaitsAt (l : Listening) (world : Downstream) (ctx : CallContext) (m : Moment) (k : Nat) : Prop :=
  ∃ item, l.items[k]? = some item ∧
    l.request.Waits (Gateway.setting world ctx .listen) (readFor world ctx k l m).2.now
      (readFor world ctx k l m).2.journal item

/-- What is read of a stream, `count` items at most: responses with the bodies of the first items, and
then the failure of the next one, if that fails. -/
structure Transcript (l : Listening) (world : Downstream) (ctx : CallContext) (m : Moment)
    (count : Nat) (bodies : List Json) (failure : Option Failure) : Prop where
  read : (readFor world ctx count l m).1 =
    bodies.mapIdx (fun i body => .ok (l.toResponse i body)) ++ failure.toList.map .error
  heard : ∀ k body, bodies[k]? = some body → l.HearsAt world ctx m k (.ok body)
  failed : ∀ e, failure = some e → l.HearsAt world ctx m bodies.length (.error e)
  stopped : failure = none → bodies.length = count ∨ bodies.length = l.items.length ∨
    l.WaitsAt world ctx m bodies.length
  /-- The items after the one that ends the stream are not asked for. -/
  unasked : bodies.length < count → bodies.length < l.items.length →
    ∀ count' others, bodies.length < count' →
      readFor world ctx count' { l with items := l.items.take (bodies.length + 1) ++ others } m =
        readFor world ctx count l m

theorem readFor_response {l rest : Listening} {m m' : Moment} {r : Response} (count : Nat)
    (h : l.next world ctx m = (.response r rest, m')) :
    readFor world ctx (count + 1) l m =
      (.ok r :: (readFor world ctx count rest m').1, (readFor world ctx count rest m').2) := by
  rw [readFor, h]

/-- What is read next does not depend on what comes after it. -/
theorem next_others (world : Downstream) (ctx : CallContext) (m : Moment) {l : Listening}
    {item : Delayed (Reply Message)} {rest : Items} (items : l.items = item :: rest) (others : Items) :
    ({ l with items := item :: others } : Listening).next world ctx m =
      match l.next world ctx m with
      | (.response r _, m') => (.response r (l.tail others), m')
      | h => h := by
  unfold next
  rw [items]
  obtain ⟨after, value⟩ := item
  cases after with
  | none => rfl
  | some delay =>
    cases value with
    | error status => rfl
    | ok message =>
      dsimp only
      unfold respond
      dsimp only
      split <;> rfl

theorem toResponse_tail (l : Listening) (rest : Items) (index : Nat) (body : Json) :
    (l.tail rest).toResponse index body = l.toResponse (index + 1) body := by
  simp [toResponse, tail]

theorem getElem?_items {l : Listening} {item : Delayed (Reply Message)} {rest : Items}
    (items : l.items = item :: rest) (k : Nat) : (l.tail rest).items[k]? = l.items[k + 1]? := by
  rw [items, List.getElem?_cons_succ]
  rfl

section

variable {l : Listening} {m m' : Moment} {item : Delayed (Reply Message)} {rest : Items} {r : Response}

theorem HearsAt.tail (items : l.items = item :: rest)
    (h : l.next world ctx m = (.response r (l.tail rest), m')) {k : Nat} {o : Outcome Json}
    (hk : (l.tail rest).HearsAt world ctx m' k o) : l.HearsAt world ctx m (k + 1) o := by
  unfold HearsAt
  rw [readFor_response k h, readFor_response (k + 1) h, ← getElem?_items items k]
  exact hk

theorem WaitsAt.tail (items : l.items = item :: rest)
    (h : l.next world ctx m = (.response r (l.tail rest), m')) {k : Nat}
    (hk : (l.tail rest).WaitsAt world ctx m' k) : l.WaitsAt world ctx m (k + 1) := by
  unfold WaitsAt
  rw [readFor_response k h, ← getElem?_items items k]
  exact hk

/-- The transcript of a stream goes on with that of its rest. -/
theorem Transcript.cons {count : Nat} {body : Json} {bodies : List Json} {failure : Option Failure}
    (items : l.items = item :: rest)
    (hn : l.next world ctx m = (.response (l.toResponse 0 body) (l.tail rest), m'))
    (first : l.HearsAt world ctx m 0 (.ok body))
    (h : (l.tail rest).Transcript world ctx m' count bodies failure) :
    l.Transcript world ctx m (count + 1) (body :: bodies) failure where
  read := by
    rw [readFor_response count hn, h.read, List.mapIdx_cons]
    simp only [toResponse_tail, List.cons_append]
  heard k b hb := by
    cases k with
    | zero =>
      cases hb
      exact first
    | succ k => exact (h.heard k b hb).tail items hn
  failed e he := (h.failed e he).tail items hn
  stopped hf := by
    rcases h.stopped hf with hs | hs | hs
    · exact .inl (congrArg (· + 1) hs)
    · refine .inr (.inl ?_)
      rw [items, List.length_cons, List.length_cons, hs]
      rfl
    · exact .inr (.inr (hs.tail items hn))
  unasked hc hl count' others hc' := by
    obtain ⟨c, rfl⟩ := Nat.exists_eq_succ_of_ne_zero (Nat.ne_of_gt (Nat.zero_lt_of_lt hc'))
    have hl : bodies.length < (l.tail rest).items.length := by
      rw [items] at hl
      exact Nat.lt_of_succ_lt_succ hl
    have he : ({ l with items := l.items.take ((body :: bodies).length + 1) ++ others } : Listening) =
        { l with items := item :: (rest.take (bodies.length + 1) ++ others) } := by
      rw [items]
      rfl
    have hn' := next_others world ctx m items
      (rest.take (bodies.length + 1) ++ others)
    rw [hn] at hn'
    have hr := h.unasked (Nat.lt_of_succ_lt_succ hc) hl c others (Nat.lt_of_succ_lt_succ hc')
    rw [he, readFor_response count hn, readFor_response c hn', ← hr]
    rfl

/-- The transcript of a stream whose next item ends it. -/
theorem Transcript.last {count : Nat} {failure : Option Failure} {heard : Heard}
    (items : l.items = item :: rest) (hn : l.next world ctx m = (heard, m'))
    (read : (readFor world ctx (count + 1) l m).1 = failure.toList.map .error)
    (ends : ∀ r rest, heard ≠ .response r rest)
    (failed : ∀ e, failure = some e → l.HearsAt world ctx m 0 (.error e))
    (waits : failure = none → l.WaitsAt world ctx m 0) :
    l.Transcript world ctx m (count + 1) [] failure where
  read := read
  heard k body hk := by simp at hk
  failed := failed
  stopped hf := .inr (.inr (waits hf))
  unasked _ _ count' others hc' := by
    obtain ⟨c, rfl⟩ := Nat.exists_eq_succ_of_ne_zero (Nat.ne_of_gt hc')
    have he : ({ l with items := l.items.take 1 ++ others } : Listening) =
        { l with items := item :: others } := by
      rw [items]
      rfl
    have hn' := next_others world ctx m items others
    rw [hn] at hn'
    change readFor world ctx (c + 1) { l with items := l.items.take 1 ++ others } m = _
    rw [he, readFor, readFor, hn, hn']
    cases heard with
    | response r rest => exact absurd rfl (ends r rest)
    | failed e => rfl
    | ended => rfl
    | silent => rfl

end

/-- Reading one item leads to where the next one is asked for. -/
theorem readFor_one (world : Downstream) (ctx : CallContext) (l : Listening) (m : Moment) :
    (readFor world ctx 1 l m).2.now = (l.next world ctx m).2.now ∧
      (readFor world ctx 1 l m).2.journal = (l.next world ctx m).2.journal := by
  rw [readFor]
  rcases l.next world ctx m with ⟨heard, m'⟩
  cases heard <;> simp [readFor]

theorem hearsAt_zero {l : Listening} {m m' : Moment} {heard : Heard} {item : Delayed (Reply Message)}
    {rest : Items} {o : Outcome Json} {fresh events : Journal}
    (hn : l.next world ctx m = (heard, m')) (items : l.items = item :: rest)
    (hears : l.request.Hears (Gateway.setting world ctx .listen) m.now m.journal item o m'.now events)
    (journal : m'.journal = fresh ++ m.journal) (logs : fresh.Logs events) :
    l.HearsAt world ctx m 0 o := by
  obtain ⟨now, after⟩ := readFor_one world ctx l m
  rw [hn] at now after
  refine ⟨item, fresh, events, by rw [items]; rfl, ?_, ?_, logs⟩
  · rw [now]
    exact hears
  · rw [after]
    exact journal

/-- Each stream has a transcript. -/
theorem exists_transcript (world : Downstream) (ctx : CallContext) (count : Nat) (l : Listening)
    (m : Moment) : ∃ bodies failure, l.Transcript world ctx m count bodies failure := by
  induction count generalizing l m with
  | zero => exact ⟨[], none, rfl, by simp, by simp, fun _ => .inl rfl, by simp⟩
  | succ count ih =>
    rcases hn : l.next world ctx m with ⟨heard, m'⟩
    have hr := l.reads_next world ctx m
    simp only [hn] at hr
    cases hr with
    | ended items =>
      refine ⟨[], none, ?_, by simp, by simp, fun _ => .inr (.inl ?_), fun _ hl => ?_⟩
      · rw [readFor, hn]
        rfl
      · rw [items]
        rfl
      · rw [items] at hl
        exact absurd hl (Nat.lt_irrefl 0)
    | response items hears journal logs =>
      obtain ⟨bodies, failure, h⟩ := ih (l.tail _) m'
      exact ⟨_ :: bodies, failure, h.cons items hn (hearsAt_zero hn items hears journal logs)⟩
    | @failed item rest e _ fresh events items hears journal logs =>
      refine ⟨[], some e, .last items hn ?_ (by simp) ?_ (by simp)⟩
      · rw [readFor, hn]
        rfl
      · intro e' he
        cases he
        exact hearsAt_zero hn items hears journal logs
    | silent items waits journal =>
      refine ⟨[], none, .last items hn ?_ (by simp) (by simp) fun _ => ⟨_, ?_, waits⟩⟩
      · rw [readFor, hn]
        rfl
      · rw [items]
        rfl

/-- The responses of a transcript are as many as there are items that come to a body one after the
other. -/
theorem Transcript.longest {l : Listening} {m : Moment} {count : Nat} {bodies : List Json}
    {failure : Option Failure} (h : l.Transcript world ctx m count bodies failure) {n : Nat}
    (hc : n ≤ count) (hn : ∀ k < n, ∃ body, l.HearsAt world ctx m k (.ok body)) :
    n ≤ bodies.length := by
  by_contra hlt
  obtain ⟨body, item, fresh, events, hi, hears, _⟩ := hn bodies.length (by omega)
  cases failure with
  | some e =>
    obtain ⟨item', _, _, hi', hears', _⟩ := h.failed e rfl
    cases hi.symm.trans hi'
    cases hears.unique hears'
  | none =>
    rcases h.stopped rfl with hs | hs | ⟨item', hi', waits⟩
    · omega
    · rw [hs, List.getElem?_length] at hi
      cases hi
    · cases hi.symm.trans hi'
      exact hears.not_waits waits

section

variable (ctx : CallContext) (m : Moment) {l : Listening} (answers : world.Answers)

include answers

theorem precedes_next (comes : ∀ item ∈ l.items, item.after.isSome) :
    m.Precedes (l.next world ctx m).2 := by
  have hr := l.reads_next world ctx m
  rcases hn : l.next world ctx m with ⟨heard, m'⟩
  rw [hn] at hr
  dsimp only at hr ⊢
  cases hr with
  | ended items => exact .refl m
  | response items hears journal logs => exact ⟨hears.ahead, _, journal⟩
  | failed items hears journal logs => exact ⟨hears.ahead, _, journal⟩
  | silent items waits journal =>
    have hs := comes _ (items ▸ List.mem_cons_self ..)
    rw [waits.after_eq_none answers] at hs
    cases hs

theorem precedes_readFor (count : Nat) (comes : ∀ item ∈ l.items, item.after.isSome) :
    m.Precedes (readFor world ctx count l m).2 := by
  induction count generalizing l m with
  | zero => exact (Moment.Precedes.refl m).conclude .listen none
  | succ count ih =>
    have first := precedes_next ctx m answers comes
    have hr := l.reads_next world ctx m
    rcases hn : l.next world ctx m with ⟨heard, m'⟩
    rw [hn] at hr first
    dsimp only at hr first
    cases hr with
    | response items hears journal logs =>
      rw [readFor_response count hn]
      exact first.trans (ih m' fun x hx => comes x (items ▸ List.mem_cons_of_mem _ hx))
    | ended | silent =>
      rw [readFor, hn]
      exact first.conclude .listen none
    | failed =>
      rw [readFor, hn]
      exact first.conclude .listen (some _)

/-- Where reading of some items leads is on the way of reading more. -/
theorem readFor_precedes {k count : Nat} (hk : k ≤ count)
    (comes : ∀ item ∈ l.items, item.after.isSome) :
    (readFor world ctx k l m).2.Precedes (readFor world ctx count l m).2 := by
  induction k generalizing l m count with
  | zero =>
    obtain ⟨now, journal⟩ := precedes_readFor ctx m answers count comes
    exact ⟨by simpa [readFor] using now, by simpa [readFor] using journal⟩
  | succ k ih =>
    obtain ⟨count, rfl⟩ := Nat.exists_eq_succ_of_ne_zero (Nat.ne_of_gt (Nat.zero_lt_of_lt hk))
    have hr := l.reads_next world ctx m
    rcases hn : l.next world ctx m with ⟨heard, m'⟩
    rw [hn] at hr
    dsimp only at hr
    cases hr with
    | response items hears journal logs =>
      rw [readFor_response k hn, readFor_response count hn]
      exact ih m' (Nat.le_of_succ_le_succ hk) fun x hx => comes x (items ▸ List.mem_cons_of_mem _ hx)
    | ended | failed | silent =>
      rw [readFor, readFor, hn]
      exact .refl _

end

/-- What the item of an index comes to by what handlers answer. -/
def HandledAt (l : Listening) (f : Handlers) (ctx : CallContext) (k : Nat) (o : Outcome Json) :
    Prop :=
  ∃ item, l.items[k]? = some item ∧
    l.request.HearsBy f ctx Verb.listen.catchesByDefault item.value o

/-- In a world that follows handlers an item comes to what these answer, unless some timeout expires
before the stream has been read. -/
theorem HearsAt.by_handlers {l : Listening} {m : Moment} {k count : Nat} {o : Outcome Json}
    {f : Handlers} (h : l.HearsAt world ctx m k o) (hk : k < count) (follows : world.Follows f)
    (comes : ∀ item ∈ l.items, item.after.isSome)
    (timely : m.Timely (readFor world ctx count l m).2) :
    l.HandledAt f ctx k o := by
  obtain ⟨item, fresh, events, hi, hears, journal, logs⟩ := h
  obtain ⟨_, earlier, before⟩ := precedes_readFor ctx m follows.comes k comes
  obtain ⟨now, later, after⟩ := readFor_precedes ctx m follows.comes
    (Nat.succ_le_of_lt hk) comes
  refine ⟨item, hi, hears.by_handlers follows fun e he => ?_⟩
  obtain ⟨e', he', hl⟩ := logs.logged he
  cases e' with
  | consulted owner instant c => cases hl
  | resolved method bases => cases hl
  | called e' =>
    have heq : e' = { e with dropped := e'.dropped } := hl
    have hn := timely (later ++ (fresh ++ earlier)) e'
      (by rw [after, journal, before, List.append_assoc, List.append_assoc])
      (List.mem_append_right _ (List.mem_append_left _ he'))
    rw [heq] at hn
    obtain ⟨t', hs, hle⟩ := hears.waited e he
    rw [hs]
    by_contra hne
    exact hn ⟨t', hs, Nat.le_trans hle now, hne⟩

theorem Transcript.length_le {l : Listening} {m : Moment} {count : Nat} {bodies : List Json}
    {failure : Option Failure} (h : l.Transcript world ctx m count bodies failure) :
    bodies.length ≤ l.items.length := by
  by_contra hlt
  obtain ⟨item, _, _, hi, _⟩ := h.heard l.items.length _ (List.getElem?_eq_getElem (by omega))
  rw [List.getElem?_length] at hi
  cases hi

/-- Reading fewer items gives the first responses. -/
theorem readFor_take (l : Listening) (m : Moment) {n count : Nat} (hn : n ≤ count) :
    (readFor world ctx n l m).1 = (readFor world ctx count l m).1.take n := by
  induction n generalizing l m count with
  | zero => rfl
  | succ n ih =>
    obtain ⟨count, rfl⟩ := Nat.exists_eq_succ_of_ne_zero (Nat.ne_of_gt (Nat.zero_lt_of_lt hn))
    rw [readFor, readFor]
    rcases l.next world ctx m with ⟨heard, m'⟩
    cases heard with
    | response r rest => exact congrArg (.ok r :: ·) (ih rest m' (Nat.le_of_succ_le_succ hn))
    | failed e => simp
    | ended => rfl
    | silent => rfl

end

end Listening

namespace Gateway

/-- The stream that the reply to a request's own call opens, if it comes. -/
def opening (p : Prepared) (due : Option Nat) : Reply Items → Option (Outcome Listening)
  | .ok items => due.map fun _ => .ok { request := p, items }
  | .error s => due.map fun _ => .error (.downstream s)

/-- How listening begins: the request is refused at once, or its own call is made and opens the
stream. -/
inductive Listens (g : Gateway) (world : Downstream) (ctx : CallContext) (m : Moment)
    (request : Option Request) : Option (Outcome Listening) → Moment → Prop
  | refused {e : Failure} {m' : Moment} (now : m'.now = m.now) (journal : m'.journal = m.journal) :
      Listens g world ctx m request (some (.error e)) m'
  | called {r : Request} {p : Prepared} {due : Option Nat} {reply : Reply Items} {e : Exchange}
      {m' : Moment} (asked : request = some r) (prepared : g.prepare .listen r = .ok p)
      (settled : attempt (world.stream m.journal.calls) 0 m.now (p.call ctx m.now) = (due, reply, e))
      (now : m'.now = due.getD m.now) (journal : m'.journal = .called e :: m.journal) :
      Listens g world ctx m request (opening p due reply) m'

theorem listens {g : Gateway} {world : Downstream} {ctx : CallContext} {m m' : Moment}
    {request : Option Request} {o : Option (Outcome Listening)}
    (h : g.listen world ctx m request = (o, m')) : Listens g world ctx m request o m' := by
  unfold listen openStream at h
  cases request with
  | none =>
    cases h
    exact .refused rfl rfl
  | some r =>
    dsimp only at h
    cases hp : g.prepare .listen r with
    | error e =>
      rw [hp] at h
      cases h
      exact .refused rfl rfl
    | ok p =>
      rw [hp] at h
      dsimp only [Moment.now_observe, Moment.journal_observe] at h
      rcases ha : attempt (world.stream m.journal.calls) 0 m.now (p.call ctx m.now)
        with ⟨due, reply, exchange⟩
      rw [ha] at h
      cases due with
      | none =>
        cases h
        cases reply <;> exact .called rfl hp ha rfl rfl
      | some t =>
        cases reply with
        | error status =>
          cases h
          exact .called rfl hp ha rfl rfl
        | ok items =>
          cases h
          exact .called rfl hp ha rfl rfl

/-- Opening a stream takes time, and what happened before stays. -/
theorem precedes_listen (g : Gateway) (world : Downstream) (ctx : CallContext) (m : Moment)
    (request : Option Request) : m.Precedes (g.listen world ctx m request).2 := by
  rcases h : g.listen world ctx m request with ⟨o, m'⟩
  cases listens h with
  | refused now journal => exact ⟨Nat.le_of_eq now.symm, [], journal⟩
  | @called _ _ due _ e _ _ _ settled now journal =>
    refine ⟨?_, [.called e], journal⟩
    cases due with
    | none => exact Nat.le_of_eq now.symm
    | some t => exact Nat.le_trans ((attempted settled).ahead t rfl) (Nat.le_of_eq now.symm)

/-- What is known of a stream that was opened. -/
structure Opened (g : Gateway) (world : Downstream) (ctx : CallContext) (m : Moment) (r : Request)
    (l : Listening) : Prop where
  prepared : IsPrepared g .listen r l.request
  items : (world.stream m.journal.calls (l.request.call ctx m.now)).value = .ok l.items
  first : l.first = true

/-- A stream that was opened is that of a request that was prepared. -/
theorem listen_eq_ok {g : Gateway} {world : Downstream} {ctx : CallContext} {m m' : Moment}
    {r : Request} {l : Listening} (h : g.listen world ctx m (some r) = (some (.ok l), m')) :
    g.prepare .listen r = .ok l.request ∧ l.first = true ∧ ∃ due e,
      attempt (world.stream m.journal.calls) 0 m.now (l.request.call ctx m.now) =
        (due, .ok l.items, e) := by
  have listens := listens h
  generalize ho : some (Except.ok l) = o at listens
  cases listens with
  | refused => cases ho
  | @called r' p due reply e _ asked prepared settled =>
    cases asked
    cases reply with
    | error status => cases due <;> cases ho
    | ok items =>
      cases due with
      | none => cases ho
      | some t =>
        cases ho
        exact ⟨prepared, rfl, some t, e, settled⟩

theorem opened_of_listen {g : Gateway} {world : Downstream} {ctx : CallContext} {m m' : Moment}
    {r : Request} {l : Listening} (h : g.listen world ctx m (some r) = (some (.ok l), m')) :
    Opened g world ctx m r l := by
  obtain ⟨prepared, first, due, e, settled⟩ := listen_eq_ok h
  exact ⟨isPrepared prepared, (attempted settled).said _ rfl, first⟩

end Gateway

/-- A stream that was opened is answered by responses to its first items, in order, as long as these
are messages that come to a body on their own. The schema goes with the first one. The next item, if
it fails, is answered by its failure, and no item after it is asked for; if nothing fails, all items
have been read, or some reply is waited for without end. Where handlers answer and no timeout
expires, the outcome of each item is determined by the item. -/
theorem stream_is_answered_item_by_item {g : Gateway} {world : Downstream} {ctx : CallContext}
    {m m₀ : Moment} {r : Request} {l : Listening}
    (opened : g.listen world ctx m (some r) = (some (.ok l), m₀)) :
    Gateway.IsPrepared g .listen r l.request ∧
    (world.stream m.journal.calls (l.request.call ctx m.now)).value = .ok l.items ∧
    (∀ n, (l.read world ctx m₀ (some n)).1 = (l.read world ctx m₀ none).1.take n) ∧
    ∃ (bodies : List Json) (failure : Option Failure),
      (l.read world ctx m₀ none).1 = bodies.mapIdx (fun i body =>
        .ok ⟨r.method, body, if i = 0 then some l.request.schema else none⟩) ++
        failure.toList.map .error ∧
      (∀ k body, bodies[k]? = some body → l.HearsAt world ctx m₀ k (.ok body)) ∧
      (∀ n, (∀ k < n, ∃ body, l.HearsAt world ctx m₀ k (.ok body)) → n ≤ bodies.length) ∧
      (∀ e, failure = some e → l.HearsAt world ctx m₀ bodies.length (.error e) ∧
        ∀ others, ({ l with items := l.items.take (bodies.length + 1) ++ others } : Listening).read
          world ctx m₀ none = l.read world ctx m₀ none) ∧
      (failure = none → bodies.length = l.items.length ∨ l.WaitsAt world ctx m₀ bodies.length) ∧
      ∀ f, world.Follows f → (∀ item ∈ l.items, item.after.isSome) →
        m₀.Timely (l.read world ctx m₀ none).2 →
        (∀ k body, bodies[k]? = some body → l.HandledAt f ctx k (.ok body)) ∧
        (∀ e, failure = some e → l.HandledAt f ctx bodies.length (.error e)) ∧
        (failure = none → bodies.length = l.items.length) ∧
        ∀ reply o o', l.request.HearsBy f ctx Verb.listen.catchesByDefault reply o →
          l.request.HearsBy f ctx Verb.listen.catchesByDefault reply o' → o = o' := by
  have known := Gateway.opened_of_listen opened
  have whole : ∀ l' : Listening, l'.read world ctx m₀ none =
      Listening.readFor world ctx (l'.items.length + 1) l' m₀ := by
    intro l'
    rw [Listening.read, Option.getD_none, Nat.min_self]
  obtain ⟨bodies, failure, h⟩ := Listening.exists_transcript world ctx (l.items.length + 1) l m₀
  have hle := h.length_le
  have count : bodies.length < l.items.length + 1 := Nat.lt_succ_of_le hle
  have index : ∀ {k o}, l.HearsAt world ctx m₀ k o → k < l.items.length := by
    rintro k o ⟨item, _, _, hi, _⟩
    exact (List.getElem?_eq_some_iff.mp hi).1
  refine ⟨known.prepared, known.items, fun n => ?_, bodies, failure, ?_, h.heard, fun n hn => ?_,
    fun e he => ⟨h.failed e he, fun others => ?_⟩, fun hf => ?_, fun f follows comes timely => ?_⟩
  · have hl : (Listening.readFor world ctx (l.items.length + 1) l m₀).1.length ≤
        l.items.length + 1 := by
      rw [h.read, List.length_append, List.length_mapIdx, List.length_map, Option.length_toList]
      split <;> omega
    rw [whole, Listening.read, Option.getD_some]
    rcases Nat.le_total n (l.items.length + 1) with hn | hn
    · rw [Nat.min_eq_right hn, Listening.readFor_take l m₀ hn]
    · rw [Nat.min_eq_left hn, List.take_of_length_le (Nat.le_trans hl hn)]
  · rw [whole, h.read]
    simp only [Listening.toResponse, known.first, known.prepared.method, Bool.true_and, beq_iff_eq]
  · refine h.longest (Nat.le_of_not_lt fun hlt => ?_) hn
    obtain ⟨body, hb⟩ := hn l.items.length (by omega)
    exact absurd (index hb) (Nat.lt_irrefl _)
  · rw [whole, whole]
    exact h.unasked count (index (h.failed e he)) _ others (by simp; omega)
  · rcases h.stopped hf with hs | hs | hs
    · omega
    · exact .inl hs
    · exact .inr hs
  · rw [whole] at timely
    refine ⟨fun k body hb => (h.heard k body hb).by_handlers ?_ follows comes timely,
      fun e he => (h.failed e he).by_handlers count follows comes timely, fun hf => ?_,
      fun reply o o' ho ho' => ho.unique ho'⟩
    · exact Nat.lt_of_lt_of_le (index (h.heard k body hb)) (Nat.le_succ _)
    · rcases h.stopped hf with hs | hs | ⟨item, hi, waits⟩
      · omega
      · exact hs
      · have hs := comes item (List.mem_of_getElem? hi)
        rw [waits.after_eq_none follows.comes] at hs
        cases hs

namespace Sample

/-- Items that can be watched. -/
def feed : Service where
  pool := store
  info := ⟨"Feed", [{ name := "Watch", input := "Item", output := "Item", serverStreaming := true }]⟩

def watchman : Gateway :=
  Except.toOption (do
    let b := ({} : Builder).withTransport ⟨"http://items"⟩
    let b ← b.registerService feed {}
    let b ← b.registerRelation items "Parents" { name := "parent" }
    b.build) |>.getD {}

/-- A server of knots that sends two items, then a status, then one more item. -/
def sender : Downstream :=
  { knotsAfter (fun _ => 0) with
    stream := fun _ _ => ⟨some 0, .ok
      [⟨some 1, .ok (storedItem "first")⟩, ⟨some 1, .ok (storedItem "second")⟩,
       ⟨some 1, .error ⟨.unavailable, "", []⟩⟩, ⟨some 1, .ok (storedItem "third")⟩]⟩ }

def watch : Request := { method := "Feed.Watch", mask }

/-- The title of an item whose parent is a knot. -/
def ofKnot (text : String) : Json :=
  .object [("title", .str text), ("parent", .object [("title", .str "knot")])]

end Sample

/-- Two items are answered and the status after them ends the stream. -/
theorem watched_until_status : ∃ l m₀,
    Sample.watchman.listen Sample.sender {} {} (some Sample.watch) = (some (.ok l), m₀) ∧
    (l.read Sample.sender {} m₀ none).1 =
      [.ok ⟨"Feed.Watch", Sample.ofKnot "first", some l.request.schema⟩,
       .ok ⟨"Feed.Watch", Sample.ofKnot "second", none⟩,
       .error (.downstream ⟨.unavailable, "", []⟩)] := by
  have outline : (Sample.watchman.listen Sample.sender {} {} (some Sample.watch)).1.map
      (fun o => o.toOption.map fun l => (l.read Sample.sender {}
        (Sample.watchman.listen Sample.sender {} {} (some Sample.watch)).2 none).1.map fun x =>
          (x.toOption.map (·.body), Outcome.failure? x)) =
      some (some [(some (Sample.ofKnot "first"), none), (some (Sample.ofKnot "second"), none),
        (none, some (.downstream ⟨.unavailable, "", []⟩))]) := by
    decide +kernel
  rcases h : Sample.watchman.listen Sample.sender {} {} (some Sample.watch) with ⟨o, m₀⟩
  rw [h] at outline
  obtain ⟨o, rfl, outline⟩ := Option.map_eq_some_iff.mp outline
  cases o with
  | error e => cases outline
  | ok l =>
    obtain ⟨_, _, _, bodies, failure, hr, _⟩ := stream_is_answered_item_by_item h
    refine ⟨l, m₀, rfl, ?_⟩
    have outline := Option.some.inj outline
    dsimp only at outline
    rw [hr] at outline ⊢
    rcases bodies with _ | ⟨a, _ | ⟨b, _ | ⟨c, rest⟩⟩⟩ <;> rcases failure with _ | e <;>
      simp [Outcome.failure?, Except.toOption] at outline
    obtain ⟨rfl, rfl, rfl⟩ := outline
    rfl

end Patchwork
