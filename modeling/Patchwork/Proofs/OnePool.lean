import Patchwork.Proofs.Registered
import Patchwork.Settings

/-!
# One pool

A gateway whose methods all come from one pool meets types of this pool only. There types of one name
are one type, and the fields of each are told apart by their names. The gateways that are set up from
settings are of this sort.
-/

namespace Patchwork
open Proto

/-! ## Types of one pool -/

/-- The type is the one that the pool has under its name. -/
def Proto.Pool.Has (pool : Pool) (t : MessageType) : Prop := t = pool.message t.name

theorem Proto.Pool.has_message (pool : Pool) (name : String) : pool.Has (pool.message name) := by
  unfold Has
  rw [name_message]

theorem Proto.Pool.Has.pool {pool : Pool} {t : MessageType} (h : pool.Has t) : t.pool = pool := by
  rw [h]
  exact Pool.pool_message ..

theorem Proto.Pool.Has.eq {pool : Pool} {t u : MessageType} (ht : pool.Has t) (hu : pool.Has u)
    (named : t.name = u.name) : t = u := by
  rw [ht, hu, named]

/-- Fields and relations of a pool's types lead to types of the pool. -/
theorem Proto.Pool.closed_has {pool : Pool} {relations : List Relation}
    (h : ∀ r ∈ relations, r.method.pool = pool) : Closed relations pool.Has := by
  have element : ∀ p k u, p = pool → Element.ofKind p k = .message u → pool.Has u := by
    intro p k u hp hu
    cases k with
    | scalar => cases hu
    | enum => cases hu
    | message name =>
      cases hu
      rw [hp]
      exact pool.has_message name
  intro t ht f hf u hu
  obtain ⟨_, ⟨g, _, rfl⟩ | ⟨r, hr, rfl⟩⟩ := CatalogType.mem_fields hf
  · exact element _ _ u ht.pool hu
  · exact element _ _ u (h r (List.mem_filter.mp hr).1) hu

/-- The fields of each message are told apart by their names. -/
def Proto.Pool.IsDistinct (pool : Pool) : Prop :=
  ∀ info ∈ pool.messages, (info.fields.map (·.name)).Nodup

theorem Proto.Pool.IsDistinct.names {pool : Pool} (h : pool.IsDistinct) {t : MessageType}
    (ht : pool.Has t) : (t.fields.map (·.name)).Nodup := by
  rw [ht]
  unfold Pool.message Pool.message?
  cases hi : pool.messages.find? (·.name == t.name) with
  | none => exact List.nodup_nil
  | some info => exact h info (List.mem_of_find?_eq_some hi)

/-! ## Gateways over one pool -/

/-- A gateway whose methods, those of its relations included, all come from one pool. -/
structure Gateway.IsOver (g : Gateway) (pool : Pool) : Prop where
  built : g.IsBuilt
  entryPoints : ∀ e ∈ g.entryPoints, e.method.pool = pool
  relations : ∀ r ∈ g.relations, r.method.pool = pool
  distinct : pool.IsDistinct

/-- The base of a relation is the type of the bases that its method takes. -/
theorem RelationShape.ofMethod_input {m : Method} {name : String} {shape : RelationShape}
    (h : ofMethod m name = .ok shape) : messageOf? m.input shape.bases = some shape.base ∧
      m.pool.Has shape.base := by
  unfold ofMethod at h
  dsimp only at h
  split at h
  · cases h
  obtain ⟨bases, _, h⟩ := Outcome.bind_eq_ok.mp h
  obtain ⟨base, hb, h⟩ := Outcome.bind_eq_ok.mp h
  obtain ⟨values, _, h⟩ := Outcome.bind_eq_ok.mp h
  obtain ⟨result, _, h⟩ := Outcome.bind_eq_ok.mp h
  obtain ⟨field, _, h⟩ := Outcome.bind_eq_ok.mp h
  cases h
  have hb := orMisconfigured_eq_ok hb
  obtain ⟨n, _, hn⟩ := messageOf?_eq_some hb
  have pool : m.input.pool = m.pool := Pool.pool_message ..
  exact ⟨hb, hn ▸ pool ▸ Pool.has_message ..⟩

namespace Gateway.IsOver

variable {g : Gateway} {pool : Pool}

theorem unambiguous (h : g.IsOver pool) : Unambiguous g.relations pool.Has where
  closed := Pool.closed_has h.relations
  same t u ht hu named := by rw [ht.eq hu named]
  names t ht := h.distinct.names ht

theorem has_output (h : g.IsOver pool) {e : EntryPoint} (he : e ∈ g.entryPoints) :
    pool.Has e.method.output := h.entryPoints e he ▸ Pool.has_message ..

/-- A typed patch has an object of its relation's base type. -/
theorem base_type (h : g.IsOver pool) {p : Patch} (typed : p.IsTyped g.relations pool.Has)
    {r : Relation} (hr : p.field.info.relation = some r) :
    p.base.type = r.base ∧ r ∈ g.relations := by
  obtain ⟨t, m, ht, one, hx⟩ := typed
  obtain ⟨c, isOf, _⟩ := one.prints h.unambiguous m
  cases isOf.stands h.unambiguous ht hx with
  | own plain => cases hr.symm.trans plain
  | relation relation member base =>
    cases hr.symm.trans relation
    have shaped := (RelationShape.ofMethod_input (h.built.isShaped r member)).2
    rw [h.relations r member] at shaped
    exact ⟨hx.known.eq shaped base.symm, member⟩

end Gateway.IsOver

/-! ## Names of fields in files that fit together -/

namespace Proto

theorem nodup_of_repeated? {names : List String} (h : repeated? names = none) : names.Nodup := by
  induction names with
  | nil => exact List.nodup_nil
  | cons x rest ih =>
    unfold repeated? at h
    split at h
    · cases h
    · next hx => exact List.nodup_cons.mpr ⟨by simpa using hx, ih h⟩

/-- Where no name has two meanings, each file declares different names. -/
theorem nodup_definitions {files : List File} (h : (Names.ofFiles files).clash? = none) {f : File}
    (hf : f ∈ files) : (f.definitions.map (·.name)).Nodup := by
  have all : repeated? ((Names.ofFiles files).definitions.map (·.name)) = none := by
    unfold Names.clash? at h
    dsimp only at h
    cases hr : repeated? ((Names.ofFiles files).definitions.map (·.name)) with
    | none => rfl
    | some name =>
      rw [hr] at h
      cases h
  have all := nodup_of_repeated? all
  simp only [Names.ofFiles, List.map_flatMap] at all
  exact (List.nodup_flatMap.mp all).1 f hf

/-- So the fields of a message are told apart by their names. -/
theorem nodup_fields {files : List File} (h : (Names.ofFiles files).clash? = none) {f : File}
    (hf : f ∈ files) {d : Declared} (hd : d ∈ f.allMessages) :
    (d.body.fields.map (·.name)).Nodup := by
  have inFile := nodup_definitions h hf
  simp only [File.definitions, List.map_append, List.map_flatMap, List.append_assoc] at inFile
  have inMessages := (List.nodup_append.mp inFile).1
  have inMessage := (List.nodup_flatMap.mp inMessages).1 d hd
  simp only [List.map_cons, List.map_append, List.map_map] at inMessage
  have inFields := (List.nodup_append.mp (List.nodup_cons.mp inMessage).2).1
  have named : (d.body.fields.map (·.name)).map (qualify d.name) = _ := List.map_map ..
  exact .of_map _ (named ▸ inFields)

/-- And so are the values of an enum. -/
theorem nodup_values {files : List File} (h : (Names.ofFiles files).clash? = none) {f : File}
    (hf : f ∈ files) {x : String × EnumDecl} (hx : x ∈ f.allEnums) :
    (x.2.values.map (·.1)).Nodup := by
  have inFile := nodup_definitions h hf
  simp only [File.definitions, List.map_append, List.map_flatMap, List.append_assoc] at inFile
  have inEnums := (List.nodup_append.mp (List.nodup_append.mp inFile).2.1).1
  have inEnum := (List.nodup_flatMap.mp inEnums).1 x hx
  simp only [List.map_cons, List.map_map] at inEnum
  have named : (x.2.values.map (·.1)).map (qualify x.1) = _ := List.map_map ..
  exact .of_map _ (named ▸ (List.nodup_cons.mp inEnum).2)

namespace Link

theorem name_field {ts : Types} {s : Site} {d : FieldDecl} {f : Field}
    (h : field ts s d = .ok f) : f.name = d.name := by
  obtain ⟨k, _, h⟩ := Outcome.bind_eq_ok.mp h
  obtain ⟨fallback, _, h⟩ := Outcome.bind_eq_ok.mp h
  obtain ⟨oneof, _, h⟩ := Outcome.bind_eq_ok.mp h
  dsimp only at h
  split at h
  · cases h
    rfl
  · obtain ⟨k', _, h⟩ := Outcome.bind_eq_ok.mp h
    obtain ⟨fallback', _, h⟩ := Outcome.bind_eq_ok.mp h
    cases h
    rfl

theorem nodup_messageInfo {ts : Types} {s : Site} {info : MessageInfo}
    (h : messageInfo ts s = .ok info) (hd : (s.declared.body.fields.map (·.name)).Nodup) :
    (info.fields.map (·.name)).Nodup := by
  obtain ⟨_, _, h⟩ := Outcome.bind_eq_ok.mp h
  obtain ⟨fields, hf, h⟩ := Outcome.bind_eq_ok.mp h
  cases h
  have names : fields.map (·.name) = s.declared.body.fields.map (·.name) := by
    have hf := Outcome.mapM_eq_ok.mp hf
    rw [← List.forall₂_eq_eq_eq, List.forall₂_map_left_iff, List.forall₂_map_right_iff]
    exact hf.flip.imp fun f d hd => name_field hd
  have perm := (List.mergeSort_perm fields fun a b => decide (a.number ≤ b.number)).map
    fun f : Field => f.name
  exact perm.nodup_iff.mpr (names ▸ hd)

end Link

/-- What comes to a library with a set of files, some of which are new. No name has two meanings
then. -/
theorem Library.add_eq_ok {l l' : Library} {set : List File} (h : l.add set = .ok l') :
    ∃ new messages, (Names.ofFiles (l.files ++ new)).clash? = none ∧
      l'.messages = l.messages ++ messages ∧
      (∀ info ∈ messages, ∃ f ∈ new, ∃ s : Link.Site, s.declared ∈ f.allMessages ∧
        Link.messageInfo l'.types s = .ok info) ∧
      l'.types.enums = l.types.enums ++
        new.flatMap fun f => f.allEnums.map fun x => ⟨qualify x.1 x.2.name, x.2.values⟩ := by
  obtain ⟨_, _, h⟩ := Outcome.bind_eq_ok.mp h
  dsimp only at h
  split at h
  · cases h
  · next hc =>
    obtain ⟨_, _, h⟩ := Outcome.bind_eq_ok.mp h
    obtain ⟨_, _, h⟩ := Outcome.bind_eq_ok.mp h
    obtain ⟨_, _, h⟩ := Outcome.bind_eq_ok.mp h
    obtain ⟨messages, hm, h⟩ := Outcome.bind_eq_ok.mp h
    obtain ⟨_, _, h⟩ := Outcome.bind_eq_ok.mp h
    cases h
    refine ⟨_, messages, Option.eq_none_iff_forall_ne_some.mpr hc, rfl, ?_, rfl⟩
    intro info hi
    obtain ⟨site, hs, hinfo⟩ := forall₂_exists_left (Outcome.mapM_eq_ok.mp hm) hi
    obtain ⟨_, hscope, hs⟩ := List.mem_flatMap.mp hs
    obtain ⟨f, hf, rfl⟩ := List.mem_map.mp hscope
    obtain ⟨d, hd, rfl⟩ := List.mem_map.mp hs
    exact ⟨f, hf, _, hd, hinfo⟩

/-- Adding files keeps the fields of each message apart. -/
theorem Library.IsDistinct.add {l l' : Library} {set : List File} {tag : Nat}
    (h : (l.pool tag).IsDistinct) (added : l.add set = .ok l') : (l'.pool tag).IsDistinct := by
  obtain ⟨new, messages, noClash, all, infos, _⟩ := Library.add_eq_ok added
  intro info hi
  change info ∈ l'.messages at hi
  rw [all] at hi
  rcases List.mem_append.mp hi with hi | hi
  · exact h info hi
  · obtain ⟨f, hf, s, hd, hinfo⟩ := infos info hi
    exact Link.nodup_messageInfo hinfo (nodup_fields noClash (List.mem_append_right _ hf) hd)

/-- The values of each enum are told apart by their names. -/
def Pool.NamesValues (pool : Pool) : Prop :=
  ∀ e ∈ pool.enums, (e.values.map (·.1)).Nodup

/-- Adding files keeps the values of each enum apart. -/
theorem Library.NamesValues.add {l l' : Library} {set : List File} {tag : Nat}
    (h : (l.pool tag).NamesValues) (added : l.add set = .ok l') : (l'.pool tag).NamesValues := by
  obtain ⟨new, messages, noClash, _, _, all⟩ := Library.add_eq_ok added
  intro e he
  change e ∈ l'.types.enums at he
  rw [all] at he
  rcases List.mem_append.mp he with he | he
  · exact h e he
  · obtain ⟨f, hf, he⟩ := List.mem_flatMap.mp he
    obtain ⟨x, hx, rfl⟩ := List.mem_map.mp he
    exact nodup_values noClash (List.mem_append_right _ hf) hx

end Proto

/-! ## Gateways from settings -/

/-- A builder with methods of one pool only, whose relations are computed by their methods. -/
structure Builder.IsOver (b : Builder) (pool : Pool) : Prop where
  made : b.Made
  entryPoints : ∀ e ∈ b.entryPoints, e.method.pool = pool
  relations : ∀ r ∈ b.relations, r.method.pool = pool ∧
    ∃ transport timeout, r.resolver = .method transport timeout

namespace Builder.IsOver

variable {b b' : Builder} {pool : Pool} {s : Service}

theorem entryPoint {e : EntryPoint} (h : ∀ x ∈ b.entryPoints, x.method.pool = pool)
    (he : e.method.pool = pool) (added : b.addEntryPoint e = .ok b') :
    ∀ x ∈ b'.entryPoints, x.method.pool = pool := by
  unfold addEntryPoint at added
  split at added
  · cases added
  · cases added
    intro x hx
    rcases List.mem_append.mp hx with hx | hx
    · exact h x hx
    · rw [List.mem_singleton.mp hx]
      exact he

theorem service (h : b.IsOver pool) {options : ServiceOptions} (hs : s.pool = pool)
    (registered : b.registerService s options = .ok b') : b'.IsOver pool := by
  refine ⟨.registerService h.made registered, ?_, ?_⟩
  · obtain ⟨transport, _, registered⟩ := Outcome.bind_eq_ok.mp registered
    dsimp only at registered
    split at registered
    · cases registered
    · refine Outcome.foldlM_keeps (P := fun b => ∀ e ∈ b.entryPoints, e.method.pool = pool) registered
        (fun m hm b b' hb added => ?_) h.entryPoints
      obtain ⟨info, _, rfl⟩ := List.mem_map.mp (List.mem_filter.mp hm).1
      exact entryPoint hb hs added
  · rw [relations_registerService registered]
    exact h.relations

theorem relation (h : b.IsOver pool) {method : String} {options : RelationOptions}
    (hs : s.pool = pool) (registered : b.registerRelation s method options = .ok b') :
    b'.IsOver pool := by
  obtain ⟨m, transport, timeout, r, known, hr, added⟩ := registerRelation_eq_ok registered
  refine ⟨.registerRelation h.made registered, ?_, ?_⟩
  · rw [entryPoints_addRelation added]
    exact h.entryPoints
  · intro x hx
    rw [relations_addRelation added] at hx
    rcases List.mem_append.mp hx with hx | hx
    · exact h.relations x hx
    · obtain ⟨shape, _, hr⟩ := Outcome.bind_eq_ok.mp hr
      cases hr
      rw [List.mem_singleton.mp hx]
      obtain ⟨info, _, rfl⟩ := List.mem_map.mp known
      exact ⟨hs, transport, timeout, rfl⟩

end Builder.IsOver

namespace Settings

theorem pool_of_findService {pool : Pool} {name : String} {s : Service}
    (h : findService pool name = .ok s) : s.pool = pool := by
  unfold findService at h
  split at h
  · next s' hs =>
    cases h
    obtain ⟨info, _, rfl⟩ := Option.map_eq_some_iff.mp hs
    rfl
  · cases h

/-- The pool of all declarations that are read has what adding files keeps. -/
theorem pool_of_descriptors {P : Pool → Prop} {s : Settings} {files : Files} {pool : Pool}
    (h : s.descriptors files = .ok pool) (empty : P (Library.pool {} 0))
    (add : ∀ l l' set, P (Library.pool l 0) → l.add set = .ok l' → P (l'.pool 0)) : P pool := by
  unfold descriptors at h
  split at h
  · cases h
  obtain ⟨l, hl, h⟩ := Outcome.bind_eq_ok.mp h
  cases h
  refine Outcome.foldlM_keeps (P := fun l => P (l.pool 0)) hl (fun path _ l l' hd added => ?_) empty
  unfold addDescriptors at added
  dsimp only at added
  split at added
  · cases added
  · split at added
    · cases added
    · next set _ =>
      cases hs : l.add set with
      | error e =>
        rw [hs] at added
        cases added
      | ok l₁ =>
        rw [hs] at added
        cases added
        exact add _ _ _ hd hs

/-- It tells the fields of each message apart. -/
theorem isDistinct_of_descriptors {s : Settings} {files : Files} {pool : Pool}
    (h : s.descriptors files = .ok pool) : pool.IsDistinct :=
  pool_of_descriptors h (fun _ hi => absurd hi List.not_mem_nil) fun _ _ _ => Library.IsDistinct.add

/-- And the values of each enum, so that a name stands for one number. -/
theorem namesValues_of_descriptors {s : Settings} {files : Files} {pool : Pool}
    (h : s.descriptors files = .ok pool) : pool.NamesValues :=
  pool_of_descriptors h (fun _ he => absurd he List.not_mem_nil) fun _ _ _ => Library.NamesValues.add

/-- What settings start from, before any service is added. -/
def start (s : Settings) : Builder :=
  { timeout := ofMillis s.timeoutMs, metrics := s.metrics, policy := .excluding s.excludeHeaders }

theorem made_start (s : Settings) : s.start.Made := by
  have policy : (Builder.withPolicy {} (.excluding s.excludeHeaders)).Made := .withPolicy .start _
  have timeout : Builder.Made { timeout := ofMillis s.timeoutMs,
                                policy := .excluding s.excludeHeaders } := by
    cases ofMillis s.timeoutMs with
    | none => exact policy
    | some t => exact .withTimeout policy t
  unfold start
  cases s.metrics with
  | false => exact timeout
  | true => exact .enableMetrics timeout

/-- The gateway that is set up from settings is over the pool of the settings, and each relation of it
is computed by a method. -/
theorem gateway_isOver {s : Settings} {files : Files} {pool : Pool} {g : Gateway}
    (described : s.descriptors files = .ok pool) (built : s.gateway pool = .ok g) :
    g.IsOver pool ∧ ∀ r ∈ g.relations, ∃ transport timeout, r.resolver = .method transport timeout := by
  obtain ⟨b, hb, built⟩ := Outcome.bind_eq_ok.mp built
  obtain ⟨b₁, h₁, h₂⟩ := Outcome.bind_eq_ok.mp hb
  have started : s.start.IsOver pool := ⟨s.made_start, by simp [start], by simp [start]⟩
  have services : b₁.IsOver pool := by
    refine Outcome.foldlM_keeps (P := (·.IsOver pool)) h₁ (fun service _ b b' hb added => ?_) started
    obtain ⟨found, hf, added⟩ := Outcome.bind_eq_ok.mp added
    obtain ⟨_, _, added⟩ := Outcome.bind_eq_ok.mp added
    exact hb.service (pool_of_findService hf) added
  have relations : b.IsOver pool := by
    refine Outcome.foldlM_keeps (P := (·.IsOver pool)) h₂ (fun service _ b b' hb added => ?_) services
    obtain ⟨found, hf, added⟩ := Outcome.bind_eq_ok.mp added
    obtain ⟨_, _, added⟩ := Outcome.bind_eq_ok.mp added
    refine Outcome.foldlM_keeps (P := (·.IsOver pool)) added (fun _ _ b b' hb registered => ?_) hb
    exact hb.relation (pool_of_findService hf) registered
  have isBuilt : g.IsBuilt := ⟨b, relations.made, built⟩
  unfold Builder.build at built
  split at built
  · cases built
  · cases built
    exact ⟨⟨isBuilt, relations.entryPoints, fun r hr => (relations.relations r hr).1,
      isDistinct_of_descriptors described⟩, fun r hr => (relations.relations r hr).2⟩

end Settings
end Patchwork
