import Mathlib.Data.List.Lex
import Patchwork.Proofs.Mirrored

/-!
# Which masks are accepted

Over one pool a mask is accepted exactly when each selection that it leads to is: when it names a field
or a relation of the type that it is made for, and gives the params that the relation declares.
Otherwise the mask is refused for the first selection that is not, where a selection comes before those
inside it and these before those after it.
-/

namespace Patchwork
open Proto

/-! ## One selection -/

/-- A field of a type: one of its own or a relation that extends it. Well-known types have none. -/
inductive Gateway.Offers (g : Gateway) (t : MessageType) : String → CatalogField → Prop
  | own {f : Field} (plain : isWellKnown t.name = false) (member : f ∈ t.fields) :
      Offers g t f.name (.ofField t.pool f)
  | relation {r : Relation} (plain : isWellKnown t.name = false) (member : r ∈ g.relations)
      (base : r.base.name = t.name) : Offers g t r.name (.ofRelation r)

/-- A selection for a type is a good one. -/
structure Gateway.Admits (g : Gateway) (t : MessageType) (m : MaskField) : Prop where
  named : ∃ f, g.Offers t m.name f
  given : ∀ r, g.Offers t m.name (.ofRelation r) → r.params.isSome → ∃ json message,
    m.params = some json ∧ readMessage r.method.input json = .ok message ∧
      message.has r.bases = false

/-- What a selection for a type is refused with, at its path. -/
inductive Gateway.Refuses (g : Gateway) (t : MessageType) (m : MaskField) (path : String) :
    Failure → Prop
  | unknown (missing : ∀ f, ¬g.Offers t m.name f) :
      Refuses g t m path (.invalidArgument (.noField path))
  | missing {r : Relation} (named : g.Offers t m.name (.ofRelation r)) (declares : r.params.isSome)
      (none : m.params = none) : Refuses g t m path (.invalidArgument (.missingParams path))
  | unreadable {r : Relation} {json : Json} {cause : Unreadable}
      (named : g.Offers t m.name (.ofRelation r)) (declares : r.params.isSome)
      (given : m.params = some json) (error : readMessage r.method.input json = .error cause) :
      Refuses g t m path (.invalidArgument (.params path (.unreadable cause)))
  | basesGiven {r : Relation} {json : Json} {message : Message}
      (named : g.Offers t m.name (.ofRelation r)) (declares : r.params.isSome)
      (given : m.params = some json) (read : readMessage r.method.input json = .ok message)
      (has : message.has r.bases = true) :
      Refuses g t m path (.invalidArgument (.params path .basesGiven))

/-! ## Selections of a mask -/

/-- The selections that a mask for a type leads to, each with its position, the names on the way to it
and the type that it is made for. Masks inside scalar fields lead nowhere. -/
inductive Gateway.Meets (g : Gateway) :
    MessageType → List MaskField → List Nat → List String → MessageType → MaskField → Prop
  | here {t : MessageType} {mask : List MaskField} {i : Nat} {m : MaskField}
      (selected : mask[i]? = some m) : Meets g t mask [i] [m.name] t m
  | inside {t u v : MessageType} {mask : List MaskField} {i : Nat} {m x : MaskField}
      {f : CatalogField} {position : List Nat} {names : List String}
      (selected : mask[i]? = some m) (named : g.Offers t m.name f) (element : f.element = .message u)
      (further : Meets g u m.mask position names v x) :
      Meets g t mask (i :: position) (m.name :: names) v x

/-- Each selection of a mask is a good one. -/
def Gateway.AdmitsAll (g : Gateway) (t : MessageType) (mask : List MaskField) : Prop :=
  ∀ position names u m, g.Meets t mask position names u m → g.Admits u m

/-- What a mask is refused with: the error of the first selection that is not good. Of two positions
the first is that of a selection around the other one, or else that of the earlier selection where
they part. -/
def Gateway.RefusesFirst (g : Gateway) (t : MessageType) (mask : List MaskField) (path : String)
    (e : Failure) : Prop :=
  ∃ position names u m, g.Meets t mask position names u m ∧
    g.Refuses u m (names.foldl Compile.Place.join path) e ∧
    ∀ position' names' u' m', g.Meets t mask position' names' u' m' → position' < position →
      g.Admits u' m'

/-- A sound registry whose relations are all of one pool. -/
structure Gateway.IsSoundOver (g : Gateway) (pool : Pool) : Prop where
  sound : g.IsSound
  pools : ∀ r ∈ g.relations, r.method.pool = pool
  distinct : pool.IsDistinct

namespace Gateway

variable {g : Gateway} {pool : Pool} {t u v : MessageType} {m x : MaskField} {mask : List MaskField}
  {path : String}

theorem Offers.mem_relation {name : String} {r : Relation} (h : g.Offers t name (.ofRelation r)) :
    r ∈ g.relations := by
  generalize hf : CatalogField.ofRelation r = f at h
  have tagged : f.relation = some r := hf ▸ rfl
  cases h with
  | own => cases tagged
  | relation _ member _ =>
    cases tagged
    exact member

theorem Offers.eq_ofRelation {name : String} {f : CatalogField} {r : Relation}
    (h : g.Offers t name f) (relation : f.relation = some r) : f = .ofRelation r := by
  cases h with
  | own => cases relation
  | relation =>
    cases relation
    rfl

theorem Refuses.not_admits {e : Failure} (h : g.Refuses t m path e) : ¬g.Admits t m := by
  intro good
  cases h with
  | unknown missing =>
    obtain ⟨f, named⟩ := good.named
    exact missing f named
  | missing named declares none =>
    obtain ⟨json, _, given, _⟩ := good.given _ named declares
    cases none.symm.trans given
  | unreadable named declares given error =>
    obtain ⟨json, _, given', read, _⟩ := good.given _ named declares
    cases given.symm.trans given'
    cases error.symm.trans read
  | basesGiven named declares given read has =>
    obtain ⟨json, _, given', read', free⟩ := good.given _ named declares
    cases given.symm.trans given'
    cases read.symm.trans read'
    cases has.symm.trans free

namespace IsSoundOver

variable (hg : g.IsSoundOver pool)
include hg

/-- What is offered under a name is what the description of the type has there. -/
theorem offers_iff (ht : pool.Has t) {name : String} {f : CatalogField} :
    g.Offers t name f ↔ (CatalogType.ofType g.relations t).field? name = some f := by
  have known := knowsFields_of_pool hg.sound
    (fun r hr => hg.pools r (List.mem_filter.mp hr).1) ht
  constructor
  · rintro (⟨plain, member⟩ | ⟨plain, member, base⟩)
    · refine (CatalogType.field?_field hg.sound plain (hg.distinct.names ht) member).mpr ?_
      intro r hr same
      -- The name was free in the base, which is the type itself.
      have there := known r hr _ member
      rw [← same, hg.sound.free r (List.mem_filter.mp hr).1] at there
      cases there
    · exact CatalogType.field?_relation hg.sound plain
        (List.mem_filter.mpr ⟨member, beq_iff_eq.mpr base⟩)
  · intro found
    have named := CatalogType.name_of_field? found
    obtain ⟨plain, ⟨f, member, rfl⟩ | ⟨r, hr, rfl⟩⟩ := CatalogType.mem_fields
      (List.mem_reverse.mp (List.mem_of_find?_eq_some found))
    · exact named ▸ .own plain member
    · obtain ⟨member, base⟩ := List.mem_filter.mp hr
      exact named ▸ .relation plain member (beq_iff_eq.mp base)

theorem offers_unique (ht : pool.Has t) {name : String} {f f' : CatalogField}
    (h : g.Offers t name f) (h' : g.Offers t name f') : f = f' :=
  Option.some.inj (((hg.offers_iff ht).mp h).symm.trans ((hg.offers_iff ht).mp h'))

theorem has_element (ht : pool.Has t) {name : String} {f : CatalogField} (h : g.Offers t name f)
    (element : f.element = .message u) : pool.Has u :=
  Pool.closed_has hg.pools t ht f
    (List.mem_reverse.mp (List.mem_of_find?_eq_some ((hg.offers_iff ht).mp h))) u element

/-- The params of a relation are its method's input. -/
theorem readParams {r : Relation} (member : r ∈ g.relations) (declares : r.params.isSome)
    (json : Json) : r.readParams json = match readMessage r.method.input json with
      | .error e => .error (.unreadable e)
      | .ok m => if m.has r.bases then .error .basesGiven else .ok m := by
  have params := (hg.sound.fits r member).params
  split at params
  · unfold Relation.readParams
    exact params ▸ rfl
  · rw [params] at declares
    cases declares

/-- A selection is refused if its name is unknown or if the params given for its field are bad. -/
theorem refuses_iff (ht : pool.Has t) {e : Failure} : g.Refuses t m path e ↔
    ((CatalogType.ofType g.relations t).field? m.name = none ∧
      e = .invalidArgument (.noField path)) ∨
    ∃ f, (CatalogType.ofType g.relations t).field? m.name = some f ∧
      Compile.BadParams f path m.params e := by
  constructor
  · rintro (missing | ⟨named, declares, none⟩ | ⟨named, declares, given, error⟩ |
      ⟨named, declares, given, read, has⟩)
    · refine .inl ⟨?_, rfl⟩
      cases found : (CatalogType.ofType g.relations t).field? m.name with
      | none => rfl
      | some f => exact absurd ((hg.offers_iff ht).mpr found) (missing f)
    · exact .inr ⟨_, (hg.offers_iff ht).mp named, none ▸ .missing rfl declares⟩
    · refine .inr ⟨_, (hg.offers_iff ht).mp named, given ▸ .unreadable rfl declares ?_⟩
      rw [hg.readParams named.mem_relation declares, error]
    · refine .inr ⟨_, (hg.offers_iff ht).mp named, given ▸ .unreadable rfl declares ?_⟩
      rw [hg.readParams named.mem_relation declares, read]
      simp [has]
  · rintro (⟨missing, rfl⟩ | ⟨f, found, bad⟩)
    · refine .unknown fun f named => ?_
      cases missing.symm.trans ((hg.offers_iff ht).mp named)
    · have named := (hg.offers_iff ht).mpr found
      generalize given : m.params = o at bad
      cases bad with
      | missing relation declares =>
        obtain rfl := named.eq_ofRelation relation
        exact .missing named declares given
      | unreadable relation declares error =>
        obtain rfl := named.eq_ofRelation relation
        rw [hg.readParams named.mem_relation declares] at error
        split at error
        · next unreadable =>
          cases error
          exact .unreadable named declares given unreadable
        · next read =>
          split at error
          · next has =>
            cases error
            exact .basesGiven named declares given read has
          · cases error

/-- A selection is refused with one error only. -/
theorem refuses_unique (ht : pool.Has t) {e e' : Failure} (h : g.Refuses t m path e)
    (h' : g.Refuses t m path e') : e = e' := by
  rcases (hg.refuses_iff ht).mp h with ⟨missing, rfl⟩ | ⟨f, found, bad⟩
  · rcases (hg.refuses_iff ht).mp h' with ⟨_, rfl⟩ | ⟨f', found, _⟩
    · rfl
    · cases missing.symm.trans found
  · rcases (hg.refuses_iff ht).mp h' with ⟨missing, _⟩ | ⟨f', found', bad'⟩
    · cases missing.symm.trans found
    · cases found.symm.trans found'
      obtain ⟨s, fails⟩ := Compile.fails_paramsOf (s := {}) |>.mpr bad
      obtain ⟨s', fails'⟩ := Compile.fails_paramsOf (s := {}) |>.mpr bad'
      cases fails.symm.trans fails'
      rfl

/-- A selection whose params were read is a good one. -/
theorem admits_of_paramsOf (ht : pool.Has t) {f : CatalogField} {o : Option Params}
    (found : (CatalogType.ofType g.relations t).field? m.name = some f)
    (declared : o.isSome ↔ ∃ r, f.relation = some r ∧ r.params.isSome)
    (given : ∀ p ∈ o, ∃ r json, f.relation = some r ∧ m.params = some json ∧
      r.readParams json = .ok p.message) : g.Admits t m := by
  have named := (hg.offers_iff ht).mpr found
  refine ⟨⟨f, named⟩, fun r isRelation declares => ?_⟩
  obtain rfl := hg.offers_unique ht isRelation named
  obtain ⟨p, hp⟩ := Option.isSome_iff_exists.mp (declared.mpr ⟨r, rfl, declares⟩)
  obtain ⟨r', json, same, hjson, read⟩ := given p hp
  cases same
  rw [hg.readParams isRelation.mem_relation declares] at read
  split at read
  · cases read
  · next m' read' =>
    split at read
    · cases read
    · next free => exact ⟨json, m', hjson, read', by simpa using free⟩

end IsSoundOver

/-! ## Positions -/

theorem Meets.ne_nil {position : List Nat} {names : List String}
    (h : g.Meets t mask position names v x) : position ≠ [] := by
  cases h <;> exact List.cons_ne_nil _ _

theorem Meets.has (hg : g.IsSoundOver pool) {position : List Nat} {names : List String}
    (h : g.Meets t mask position names v x) (ht : pool.Has t) : pool.Has v := by
  induction h with
  | here => exact ht
  | inside _ named element _ ih => exact ih (hg.has_element ht named element)

/-- At a position lies one selection. -/
theorem Meets.unique (hg : g.IsSoundOver pool) {position : List Nat} {names names' : List String}
    {v' : MessageType} {x' : MaskField} (h : g.Meets t mask position names v x) (ht : pool.Has t)
    (h' : g.Meets t mask position names' v' x') : names = names' ∧ v = v' ∧ x = x' := by
  induction h generalizing names' with
  | here selected =>
    cases h' with
    | here selected' =>
      cases selected.symm.trans selected'
      exact ⟨rfl, rfl, rfl⟩
    | inside _ _ _ further => exact absurd rfl further.ne_nil
  | inside selected named element further ih =>
    cases h' with
    | here => exact absurd rfl further.ne_nil
    | inside selected' named' element' further' =>
      cases selected.symm.trans selected'
      cases hg.offers_unique ht named named'
      cases element.symm.trans element'
      obtain ⟨rfl, rfl, rfl⟩ := ih (hg.has_element ht named element) further'
      exact ⟨rfl, rfl, rfl⟩

/-- A mask leads to its first selection, to those inside that, and to those of its other ones. -/
theorem meets_cons {position : List Nat} {names : List String}
    (h : g.Meets t (m :: mask) position names v x) :
    (position = [0] ∧ v = t ∧ x = m) ∨
    (∃ f u rest inner, position = 0 :: rest ∧ g.Offers t m.name f ∧ f.element = .message u ∧
      g.Meets u m.mask rest inner v x) ∨
    ∃ i rest, position = (i + 1) :: rest ∧ g.Meets t mask (i :: rest) names v x := by
  cases h with
  | @here _ _ i _ selected =>
    cases i with
    | zero =>
      cases selected
      exact .inl ⟨rfl, rfl, rfl⟩
    | succ i => exact .inr (.inr ⟨i, [], rfl, .here selected⟩)
  | @inside _ u _ _ i m' _ f rest inner selected named element further =>
    cases i with
    | zero =>
      cases selected
      exact .inr (.inl ⟨f, u, rest, inner, rfl, named, element, further⟩)
    | succ i => exact .inr (.inr ⟨i, rest, rfl, .inside selected named element further⟩)

theorem Meets.later {i : Nat} {rest : List Nat} {names : List String}
    (h : g.Meets t mask (i :: rest) names v x) :
    g.Meets t (m :: mask) ((i + 1) :: rest) names v x := by
  cases h with
  | here selected => exact .here selected
  | inside selected named element further => exact .inside selected named element further

/-- A mask is good if its first selection is, the mask inside that, and the others. -/
theorem AdmitsAll.cons (one : g.Admits t m) (inside : ∀ f u, g.Offers t m.name f →
      f.element = .message u → g.AdmitsAll u m.mask) (others : g.AdmitsAll t mask) :
    g.AdmitsAll t (m :: mask) := by
  intro position names v x h
  rcases meets_cons h with ⟨-, rfl, rfl⟩ | ⟨f, u, rest, inner, -, named, element, further⟩ |
    ⟨i, rest, -, further⟩
  · exact one
  · exact inside f u named element _ _ _ _ further
  · exact others _ _ _ _ further

theorem AdmitsAll.head (h : g.AdmitsAll t (m :: mask)) : g.Admits t m :=
  h _ _ _ _ (.here (i := 0) rfl)

theorem AdmitsAll.inside (h : g.AdmitsAll t (m :: mask)) {f : CatalogField}
    (named : g.Offers t m.name f) (element : f.element = .message u) : g.AdmitsAll u m.mask :=
  fun _ _ _ _ further => h _ _ _ _ (.inside (i := 0) rfl named element further)

theorem not_lt_zero {rest : List Nat} (hr : rest ≠ []) : ¬rest < [0] := by
  cases rest with
  | nil => exact absurd rfl hr
  | cons i rest => simp [List.cons_lt_cons_iff]

namespace RefusesFirst

variable {e : Failure}

/-- Nothing comes before the first selection of a mask. -/
theorem here (h : g.Refuses t m (Compile.Place.join path m.name) e) :
    g.RefusesFirst t (m :: mask) path e :=
  ⟨[0], [m.name], t, m, .here rfl, h,
    fun _ _ _ _ met earlier => absurd earlier (not_lt_zero met.ne_nil)⟩

/-- Before the selections inside the first one comes only that one. -/
theorem inside (hg : g.IsSoundOver pool) (ht : pool.Has t) (one : g.Admits t m) {f : CatalogField}
    (named : g.Offers t m.name f) (element : f.element = .message u)
    (h : g.RefusesFirst u m.mask (Compile.Place.join path m.name) e) :
    g.RefusesFirst t (m :: mask) path e := by
  obtain ⟨position, names, v, x, met, refuses, earlier⟩ := h
  refine ⟨0 :: position, m.name :: names, v, x, .inside rfl named element met, refuses, ?_⟩
  intro position' names' v' x' met' before
  rcases meets_cons met' with ⟨-, rfl, rfl⟩ | ⟨f', u', rest, inner, rfl, named', element', further⟩ |
    ⟨i, rest, rfl, _⟩
  · exact one
  · cases hg.offers_unique ht named named'
    cases element.symm.trans element'
    exact earlier _ _ _ _ further (by simpa [List.cons_lt_cons_iff] using before)
  · simp [List.cons_lt_cons_iff] at before

/-- Before the other selections come the first one and those inside it. -/
theorem later (one : g.AdmitsAll t [m]) (h : g.RefusesFirst t mask path e) :
    g.RefusesFirst t (m :: mask) path e := by
  obtain ⟨position, names, v, x, met, refuses, earlier⟩ := h
  obtain ⟨i, rest, rfl⟩ := List.exists_cons_of_ne_nil met.ne_nil
  refine ⟨(i + 1) :: rest, names, v, x, met.later, refuses, ?_⟩
  intro position' names' v' x' met' before
  rcases meets_cons met' with ⟨-, rfl, rfl⟩ | ⟨f, u, rest', inner, rfl, named, element, further⟩ |
    ⟨j, rest', rfl, further⟩
  · exact one.head
  · exact one.inside named element _ _ _ _ further
  · exact earlier _ _ _ _ further (by simpa [List.cons_lt_cons_iff] using before)

/-- A mask is refused with one error only. -/
theorem unique (hg : g.IsSoundOver pool) (ht : pool.Has t) {e' : Failure}
    (h : g.RefusesFirst t mask path e) (h' : g.RefusesFirst t mask path e') : e = e' := by
  obtain ⟨position, names, v, x, met, refuses, earlier⟩ := h
  obtain ⟨position', names', v', x', met', refuses', earlier'⟩ := h'
  rcases lt_trichotomy position position' with before | rfl | before
  · exact absurd (earlier' _ _ _ _ met before) refuses.not_admits
  · obtain ⟨rfl, rfl, rfl⟩ := met.unique hg ht met'
    exact hg.refuses_unique (met.has hg ht) refuses refuses'
  · exact absurd (earlier _ _ _ _ met' before) refuses'.not_admits

end RefusesFirst

/-! ## Compilation -/

/-- What a schema mirrors is a good mask. -/
theorem admitsAll_of_mirrors (hg : g.IsSoundOver pool) {place : Compile.Place} {c : CatalogType}
    {fields : List Selected}
    (h : MirrorsMask (fun u d => d = .ofType g.relations u) place c mask fields) (ht : pool.Has t)
    (hc : c = .ofType g.relations t) : g.AdmitsAll t mask := by
  induction h generalizing t with
  | nil =>
    intro position names v x met
    cases met with
    | here selected => cases selected
    | inside selected => cases selected
  | scalar found info element _ others =>
    subst hc
    refine .cons (hg.admits_of_paramsOf ht found info.declared info.given) ?_ (others ht rfl)
    intro f u named message
    cases hg.offers_unique ht named ((hg.offers_iff ht).mpr found)
    cases element.symm.trans message
  | message found info element known _ _ inside others =>
    subst hc known
    refine .cons (hg.admits_of_paramsOf ht found info.declared info.given) ?_ (others ht rfl)
    intro f u named message
    cases hg.offers_unique ht named ((hg.offers_iff ht).mpr found)
    cases element.symm.trans message
    exact inside (hg.has_element ht named element) rfl

theorem admitsAll_of_selectOne (hg : g.IsSoundOver pool) {place : Compile.Place} {y : Selected}
    {s s' : Compilation} (relations : place.relations = g.relations) (ht : pool.Has t)
    (cataloged : Compile.Cataloged g.relations pool.Has s.catalog)
    (h : (Compile.selectOne place (.ofType g.relations t) m).run s = .ok y s') :
    g.AdmitsAll t [m] ∧ Compile.Cataloged g.relations pool.Has s'.catalog := by
  have kept := (Compile.selectOne_spec (Pool.closed_has hg.pools) m ht relations cataloged h).2.cataloged
  have mirrors := (Compile.selectOne_mirrors m h).2 s'.catalog [] [] (.refl _) .nil
  refine ⟨?_, kept⟩
  rw [← relations] at mirrors kept
  have own := mirrors.of_pool (relations ▸ hg.pools) ht kept
  rw [relations] at own
  exact admitsAll_of_mirrors hg own ht rfl

/-- What is wrong with a selection is wrong with it or, if it is a good one, with the mask inside. -/
def RefusesOne (g : Gateway) (t : MessageType) (m : MaskField) (path : String) (e : Failure) : Prop :=
  g.Refuses t m path e ∨ g.Admits t m ∧ ∃ f u, g.Offers t m.name f ∧ f.element = .message u ∧
    g.RefusesFirst u m.mask path e

section

variable (hg : g.IsSoundOver pool)
include hg

mutual
theorem refusesOne_of_offends {place : Compile.Place} {c : CatalogType} {m : MaskField}
    {s : Compilation} {e : Failure} : Compile.OffendsOne place c m s e → ∀ {t : MessageType},
    pool.Has t → c = .ofType g.relations t → place.relations = g.relations →
    Compile.Cataloged g.relations pool.Has s.catalog →
    g.RefusesOne t m (Compile.Place.join place.path m.name) e
  | .name missing, _, ht, hc, _, _ => .inl ((hg.refuses_iff ht).mpr (.inl ⟨hc ▸ missing, rfl⟩))
  | .params found bad, _, ht, hc, _, _ =>
    .inl ((hg.refuses_iff ht).mpr (.inr ⟨_, hc ▸ found, bad⟩))
  | .inside found params element described inner, t, ht, hc, relations, cataloged => by
    subst hc
    obtain ⟨same, declared, given⟩ := Compile.paramsOf_declared params
    have named := (hg.offers_iff ht).mpr found
    have hu := hg.has_element ht named element
    rw [relations] at described
    obtain ⟨grown, v, hv, called, rfl⟩ := Compile.describe_spec described hu (same ▸ cataloged)
    obtain rfl := hv.eq hu called
    exact .inr ⟨hg.admits_of_paramsOf ht found declared given, _, _, named, element,
      refusesFirst_of_offends inner hu rfl relations grown.cataloged⟩

/-- What is wrong first in a state of compilation is the error of the first selection that is not
good. -/
theorem refusesFirst_of_offends {place : Compile.Place} {c : CatalogType} {mask : List MaskField}
    {s : Compilation} {e : Failure} : Compile.Offends place c mask s e → ∀ {t : MessageType},
    pool.Has t → c = .ofType g.relations t → place.relations = g.relations →
    Compile.Cataloged g.relations pool.Has s.catalog → g.RefusesFirst t mask place.path e
  | .here one, t, ht, hc, relations, cataloged => by
    rcases refusesOne_of_offends one ht hc relations cataloged with h | ⟨good, f, u, named, element, h⟩
    · exact .here h
    · exact .inside hg ht good named element h
  | .later one others, t, ht, hc, relations, cataloged => by
    obtain ⟨good, kept⟩ := admitsAll_of_selectOne hg relations ht cataloged (hc ▸ one)
    exact .later good (refusesFirst_of_offends others ht hc relations kept)
end

end

end Gateway

/-- After steps that were all taken, over one pool, a mask is accepted exactly when each selection
that it leads to is a good one. Otherwise it is refused, and the error is the one of the first
selection that is not good, with the path to it, and no other. -/
theorem mask_is_refused_for_first_bad_selection {steps : List Builder.Step} {b : Builder}
    (h : Builder.performAll {} steps = .ok b) {pool : Pool}
    (pools : ∀ r ∈ b.relations, r.method.pool = pool) (distinct : pool.IsDistinct) {t : MessageType}
    (ht : pool.Has t) (mask : List MaskField) (path : String) (operations : List String) :
    ((∃ schema, compileMask t mask ⟨b.relations, path, operations⟩ = .ok schema) ↔
      b.toGateway.AdmitsAll t mask) ∧
    ∀ e, compileMask t mask ⟨b.relations, path, operations⟩ = .error e ↔
      b.toGateway.RefusesFirst t mask path e := by
  have hg : b.toGateway.IsSoundOver pool := ⟨(Builder.follows_of_performAll h).sound, pools, distinct⟩
  have accepted : ∀ schema, compileMask t mask ⟨b.relations, path, operations⟩ = .ok schema →
      b.toGateway.AdmitsAll t mask := by
    intro schema hs
    obtain ⟨catalog, _, cataloged, mirrors⟩ := mirrors_of_compileMask hs
    exact Gateway.admitsAll_of_mirrors hg
      (mirrors.of_pool pools ht (cataloged _ (Pool.closed_has pools) ht)) ht rfl
  have refused : ∀ e, compileMask t mask ⟨b.relations, path, operations⟩ = .error e →
      b.toGateway.RefusesFirst t mask path e := by
    intro e he
    obtain ⟨c, s, described, offends⟩ := compileMask_eq_error.mp he
    obtain ⟨grown, v, hv, called, rfl⟩ := Compile.describe_spec described ht
      (fun d hd => absurd hd List.not_mem_nil)
    obtain rfl := hv.eq ht called
    exact Gateway.refusesFirst_of_offends hg offends ht rfl rfl grown.cataloged
  have apart : ∀ e, b.toGateway.AdmitsAll t mask → ¬b.toGateway.RefusesFirst t mask path e := by
    rintro e good ⟨_, _, _, _, met, refuses, _⟩
    exact refuses.not_admits (good _ _ _ _ met)
  cases hs : compileMask t mask ⟨b.relations, path, operations⟩ with
  | ok schema =>
    have good := accepted schema hs
    refine ⟨⟨fun _ => good, fun _ => ⟨schema, rfl⟩⟩, fun e => ⟨fun he => (by cases he), ?_⟩⟩
    exact fun first => absurd first (apart e good)
  | error e =>
    have first := refused e hs
    refine ⟨⟨?_, fun good => absurd first (apart e good)⟩, fun e' => ⟨?_, fun first' => ?_⟩⟩
    · rintro ⟨schema, hok⟩
      cases hok
    · intro he
      cases he
      exact first
    · rw [first.unique hg ht first']

namespace Sample

/-- The ancestor of a parent without params, with a color that it does not have, and one more color. -/
def faulty : List MaskField :=
  [.mk "title" none [.mk "color" none [] none] none,
   .mk "parent" none [.mk "ancestor" none [.mk "color" none [] none] none] none,
   .mk "color" none [] none]

end Sample

/-- Items lead to items again. Ancestors with params are accepted at any place, and of what is wrong
with the other mask the first thing is that the params are missing. The color inside the title is no
selection. -/
theorem ancestor_is_refused_without_params :
    Sample.familyBuilder.toGateway.AdmitsAll (Sample.family.message "Item") Sample.ancestry ∧
    Sample.familyBuilder.toGateway.RefusesFirst (Sample.family.message "Item") Sample.faulty "Items.Get"
      (.invalidArgument (.missingParams "Items.Get.parent.ancestor")) := by
  have pools : ∀ r ∈ Sample.familyBuilder.relations, r.method.pool = Sample.family := by
    decide +kernel
  have distinct : Sample.family.IsDistinct := by
    unfold Pool.IsDistinct
    decide +kernel
  have compiled := mask_is_refused_for_first_bad_selection Sample.setsUpFamily pools distinct
    (Sample.family.has_message "Item")
  constructor
  · exact (compiled Sample.ancestry "Items.Get" [Verb.fetch.operation, "Items.Get"]).1.mp
      ⟨_, Sample.compiles_ancestry⟩
  · exact ((compiled Sample.faulty "Items.Get" []).2 _).mp
      (Outcome.failure?_eq_some.mp (by decide +kernel))

end Patchwork
