import Patchwork.ErrorValue
import Patchwork.Format

/-!
# Stitching

The patches that formatting leaves are resolved in waves. Patches of one relation with the params
of one selection form a batch, which is resolved by one call. The values of a wave are formatted
into the document, which may leave patches for the next wave.
-/

namespace Patchwork
open Proto

/-- Patches that are resolved together. -/
structure Batch where
  relation : Relation
  params : Option Params
  entries : List Patch

namespace Batch

/-- Whether a patch of the given relation and params belongs to the batch. -/
def takes (b : Batch) (r : Relation) (params : Option Params) : Bool :=
  b.relation.same r && b.params.map (·.selection) == params.map (·.selection)

/-- Puts a patch into the batch it belongs to, a new one at the end if there is none. -/
def insert (p : Patch) (r : Relation) : List Batch → List Batch
  | [] => [⟨r, p.field.info.params, [p]⟩]
  | b :: rest =>
    if b.takes r p.field.info.params then { b with entries := b.entries ++ [p] } :: rest
    else b :: insert p r rest

/-- Groups patches, batches and entries in the order of the patches. -/
def group (patches : List Patch) : Outcome (List Batch) :=
  patches.foldlM (fun bs p => match p.field.info.relation with
    | some r => .ok (insert p r bs)
    | none => .error (.internal (.notRelation p.field.info.path))) []

/-- The operations that lead to the batch, as the first entry has them. -/
def operations (b : Batch) : List String :=
  match b.entries with
  | p :: _ => p.field.info.operations
  | [] => []

def bases (b : Batch) : List Message := b.entries.map (·.base)

/-- Values have to be as many as the entries. -/
def check (b : Batch) (values : List (Option Value)) : Outcome (List (Option Value)) :=
  if values.length = b.entries.length then .ok values
  else .error (.internal (.valueCount b.relation.method.fullName values.length b.entries.length))

end Batch

/-- What resolving a batch gives: a value, or none, for each entry. -/
abbrev Resolution := Outcome (List (Option Value))

/-- A body between two waves, with the patches for the next one. -/
structure Stitched where
  document : Document
  pending : List Patch := []

/-- A step of stitching, which keeps the body on failure. -/
abbrev Stitching := EStateM Failure Stitched

namespace Stitching

/-- Formats the value of one patch into its slot. -/
def place (fallback : Bool) (p : Patch) (v : Value) : Stitching Unit := fun s =>
  match s.document.format (formatRelationValue p.field v p.target fallback) with
  | (.ok (node, next), d) => .ok () ⟨d.fill p.slot node, s.pending ++ next⟩
  | (.error e, d) => .error e { s with document := d }

def placeAll (fallback : Bool) (pairs : List (Patch × Option Value)) : Stitching Unit :=
  pairs.forM fun (p, v) => match v with
    | some v => place fallback p v
    | none => pure ()

/-- Writes the error value of a failed batch where each entry wants it, if all of them do. -/
def embed (b : Batch) (e : Failure) : Stitching Unit := fun s =>
  match b.entries.mapM (·.target) with
  | none => .error e s
  | some targets =>
    let write (d : Document) (entry : Patch × Nat) : Document :=
      d.fail entry.2 (errorValue e entry.1.field.info.path (some b.relation.method.pool))
    .ok () { s with document := (b.entries.zip targets).foldl write s.document }

def absorb (fallback : Bool) (b : Batch) : Resolution → Stitching Unit
  | .ok values => placeAll fallback (b.entries.zip values)
  | .error e => embed b e

/-- Takes in the results of a whole wave, in the order of its batches. -/
def absorbAll (fallback : Bool) (wave : List (Batch × Resolution)) : Stitching Unit :=
  wave.forM fun (b, r) => absorb fallback b r

end Stitching

/-- The most relations that lie one inside the other in patches, one at least. -/
def wavesOf (patches : List Patch) : Nat :=
  patches.foldr (fun p n => max p.field.relationDepth n) 1

/-- A body on its way: a wave whose batches are to be resolved, or the end. -/
inductive Progress where
  | wave (document : Document) (batches : List Batch)
  | finished (document : Document) (failure : Option Failure)

namespace Progress

/-- The next wave, when patches are left. -/
def enter (s : Stitched) : Progress :=
  match s.pending with
  | [] => finished s.document none
  | patches => match Batch.group patches with
    | .ok batches => wave s.document batches
    | .error e => finished s.document (some e)

/-- Takes in the results of a wave. -/
def advance (fallback : Bool) (d : Document) (results : List (Batch × Resolution)) : Progress :=
  match Stitching.absorbAll fallback results ⟨d, []⟩ with
  | .ok _ s => enter s
  | .error e s => finished s.document (some e)

/-- The body of a message, whose root is slot 0. -/
def ofMessage (m : Message) (schema : Schema) (policy : Option ErrorPolicy) (fallback : Bool) :
    Progress :=
  let d := Document.grow {} 1
  let target := if shouldCatch policy fallback then some 0 else none
  match d.format (formatMessage m schema target fallback) with
  | (.ok (node, patches), d) => enter ⟨d.fill 0 node, patches⟩
  | (.error e, d) => finished d (some e)

/-- How many more waves there can be. -/
def rank : Progress → Nat
  | wave _ batches => wavesOf (batches.flatMap (·.entries))
  | finished _ _ => 0

end Progress
end Patchwork
