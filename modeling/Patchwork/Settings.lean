import Patchwork.Drain
import Patchwork.Json.Parser
import Patchwork.Json.Record
import Patchwork.Proto.DescriptorSet
import Patchwork.Registry
import Patchwork.Text.Address
import Patchwork.Timeout

/-!
# Settings

The file from which a gateway is set up: where it listens, the type declarations it knows, and the
services and relations it offers. The file is a closed record in JSON. Paths in it are relative to
the directory of the file.
-/

namespace Patchwork
open Json (Source RecordForm)
open Proto

structure ServiceSettings where
  name : String
  endpoint : Option String := none
  methods : Option (List String) := none
  timeoutMs : Option Nat := none

structure RelationSettings where
  name : String
  timeoutMs : Option Nat := none

structure RelationServiceSettings where
  service : String
  endpoint : Option String := none
  /-- By method, in order of their names. -/
  methods : List (String × RelationSettings)

structure Settings where
  listen : String := "0.0.0.0:8080"
  descriptorSets : List String
  defaultEndpoint : Option String := none
  timeoutMs : Option Nat := none
  services : List ServiceSettings := []
  relations : List RelationServiceSettings := []
  excludeHeaders : List String := []
  metrics : Bool := false
  shutdownTimeoutSecs : Option Nat := none
  /-- The directory of the file. -/
  directory : Option String := none

/-! ## Reading -/

namespace Settings

def bool? : Source → Option Bool
  | .bool b => some b
  | _ => none

/-- A whole number of 64 bits without sign. -/
def word? : Source → Option Nat
  | .num x => match x.value? with
    | some (.int n) => if 0 ≤ n then some n.toNat else none
    | _ => none
  | _ => none

def strings? (room : Nat) : Source → Option (List String) :=
  Source.list? (fun _ x => x.string?) room

/-- Sets the value of a name, keeping the names sorted. -/
def insertSorted (name : String) (x : α) : List (String × α) → List (String × α)
  | [] => [(name, x)]
  | (k, y) :: rest =>
    if name = k then (name, x) :: rest
    else if name < k then (name, x) :: (k, y) :: rest
    else (k, y) :: insertSorted name x rest

/-- An object of values by name, the last one of a name winning. -/
def table? (read : Nat → Source → Option α) (room : Nat) : Source → Option (List (String × α))
  | .obj members => match room with
    | 0 => none
    | room + 1 => do
      let entries ← members.mapM fun (k, x) => do return (← k, ← read room x)
      return entries.foldl (fun t (k, x) => insertSorted k x t) []
  | _ => none

end Settings

open Settings

def RelationSettings.ofSource? : Nat → Source → Option RelationSettings
  | 0, _ => none
  | room + 1, source => do
    let _ := room
    match ← RecordForm.open? { names := ["name", "timeout_ms"], closed := true } source with
    | [name, timeout] =>
      return { name := ← (← name.map Source.string?), timeoutMs := ← Source.optional? word? timeout }
    | _ => none

def RelationServiceSettings.ofSource? : Nat → Source → Option RelationServiceSettings
  | 0, _ => none
  | room + 1, source => do
    match ← RecordForm.open? { names := ["service", "endpoint", "methods"], closed := true } source with
    | [service, endpoint, methods] =>
      return {
        service := ← (← service.map Source.string?)
        endpoint := ← Source.optional? Source.string? endpoint
        methods := ← (← methods.map (table? RelationSettings.ofSource? room)) }
    | _ => none

def ServiceSettings.ofSource? : Nat → Source → Option ServiceSettings
  | 0, _ => none
  | room + 1, source => do
    match ← RecordForm.open?
        { names := ["name", "endpoint", "methods", "timeout_ms"], closed := true } source with
    | [name, endpoint, methods, timeout] =>
      return {
        name := ← (← name.map Source.string?)
        endpoint := ← Source.optional? Source.string? endpoint
        methods := ← Source.optional? (strings? room) methods
        timeoutMs := ← Source.optional? word? timeout }
    | _ => none

namespace Settings

def form : RecordForm where
  names := ["listen", "descriptor_sets", "default_endpoint", "timeout_ms", "services", "relations",
    "exclude_headers", "metrics", "shutdown_timeout_secs"]
  closed := true

def ofSource? : Nat → Source → Option Settings
  | 0, _ => none
  | room + 1, source => do
    match ← form.open? source with
    | [listen, sets, endpoint, timeout, services, relations, exclude, metrics, shutdown] =>
      return {
        listen := ← Source.withDefault? "0.0.0.0:8080" Source.string? listen
        descriptorSets := ← (← sets.map (strings? room))
        defaultEndpoint := ← Source.optional? Source.string? endpoint
        timeoutMs := ← Source.optional? word? timeout
        services := ← Source.withDefault? [] (Source.list? ServiceSettings.ofSource? room) services
        relations :=
          ← Source.withDefault? [] (Source.list? RelationServiceSettings.ofSource? room) relations
        excludeHeaders := ← Source.withDefault? [] (strings? room) exclude
        metrics := ← Source.withDefault? false bool? metrics
        shutdownTimeoutSecs := ← Source.optional? word? shutdown }
    | _ => none

def parse (text : String) : Outcome Settings :=
  match (Source.parse? text).bind (ofSource? Json.maxDepth) with
  | some s => .ok s
  | none => .error (.config .malformed)

end Settings

/-! ## Writing -/

def textOrNull (s : Option String) : Json := (s.map Json.str).getD .null

def numberOrNull (n : Option Nat) : Json := (n.map Json.ofNat).getD .null

def ServiceSettings.toJson (s : ServiceSettings) : Json :=
  .object [("name", .str s.name), ("endpoint", textOrNull s.endpoint),
    ("methods", (s.methods.map Json.strings).getD .null), ("timeout_ms", numberOrNull s.timeoutMs)]

def RelationSettings.toJson (s : RelationSettings) : Json :=
  .object [("name", .str s.name), ("timeout_ms", numberOrNull s.timeoutMs)]

def RelationServiceSettings.toJson (s : RelationServiceSettings) : Json :=
  .object [("service", .str s.service), ("endpoint", textOrNull s.endpoint),
    ("methods", .object (s.methods.map fun (m, r) => (m, r.toJson)))]

def Settings.toJson (s : Settings) : Json :=
  .object [("listen", .str s.listen), ("descriptor_sets", Json.strings s.descriptorSets),
    ("default_endpoint", textOrNull s.defaultEndpoint), ("timeout_ms", numberOrNull s.timeoutMs),
    ("services", .arr (s.services.map ServiceSettings.toJson)),
    ("relations", .arr (s.relations.map RelationServiceSettings.toJson)),
    ("exclude_headers", Json.strings s.excludeHeaders), ("metrics", .bool s.metrics),
    ("shutdown_timeout_secs", numberOrNull s.shutdownTimeoutSecs)]

/-! ## Files -/

/-- The content of a file by its path, if it can be read. -/
abbrev Files := String → Option (List UInt8)

/-- Leaves out slashes, and dots between them, at the end of a path that is given last sign
first. -/
def trimEnd : List Char → List Char
  | ['/'] => ['/']
  | '/' :: rest => trimEnd rest
  | '.' :: '/' :: rest => trimEnd ('/' :: rest)
  | path => path

/-- The path of the directory that a file is in. -/
def parentPath (path : String) : String :=
  String.ofList (trimEnd (path.toList.reverse.dropWhile (· ≠ '/'))).reverse

def joinPath (directory path : String) : String :=
  if directory.isEmpty then path
  else if directory.endsWith "/" then directory ++ path
  else directory ++ "/" ++ path

namespace Settings

/-- Reads the settings from a file. -/
def load (files : Files) (path : String) : Outcome Settings :=
  match (files path).bind Utf8.decode? with
  | none => .error (.io ("cannot read " ++ path))
  | some text => do return { ← parse text with directory := some (parentPath path) }

/-- The full path of a file that is named in the settings. -/
def resolve (s : Settings) (path : String) : String :=
  match s.directory with
  | some dir => if path.startsWith "/" then path else joinPath dir path
  | none => path

/-- Adds the files of one set to those before it, which have to fit together. -/
def addDescriptors (files : Files) (s : Settings) (known : Library) (path : String) :
    Outcome Library :=
  let path := s.resolve path
  match files path with
  | none => .error (.config (.missingFile path))
  | some bytes => match DescriptorSet.decode? bytes with
    | none => .error (.descriptor .malformed)
    | some set => (known.add set).mapError (.descriptor <| .unlinked ·)

/-- The pool of all declarations. -/
def descriptors (s : Settings) (files : Files) : Outcome Pool := do
  if s.descriptorSets.isEmpty then throw (.config .noDescriptors)
  return (← s.descriptorSets.foldlM (addDescriptors files s) {}).pool 0

/-! ## Setting up -/

/-- How the gateway drains, if it does so. -/
def drain? (s : Settings) : Option Drain :=
  s.shutdownTimeoutSecs.map fun secs => { timeout := secs * Timeout.TimeUnit.seconds.nanoseconds }

def ofMillis (ms : Option Nat) : Option Nat := ms.map (· * Timeout.perMilli)

def findService (pool : Pool) (name : String) : Outcome Service :=
  match pool.serviceNamed? name with
  | some s => .ok s
  | none => .error (.config (.noService name))

/-- The transport of a service: to its own endpoint or else to the default one. -/
def transportOf (s : Settings) (endpoint : Option String) (service : String) : Outcome Transport :=
  match endpoint <|> s.defaultEndpoint with
  | none => .error (.config (.noEndpoint service))
  | some address =>
    if Address.isAddress address then .ok ⟨address⟩ else .error (.transport address)

def addService (s : Settings) (pool : Pool) (b : Builder) (service : ServiceSettings) :
    Outcome Builder := do
  let found ← findService pool service.name
  let transport ← s.transportOf service.endpoint service.name
  b.registerService found
    { transport := some transport, methods := service.methods, timeout := ofMillis service.timeoutMs }

def addRelations (s : Settings) (pool : Pool) (b : Builder) (service : RelationServiceSettings) :
    Outcome Builder := do
  let found ← findService pool service.service
  let transport ← s.transportOf service.endpoint service.service
  b.registerRelations found (service.methods.map fun (method, r) =>
    (method, { name := r.name, transport := some transport, timeout := ofMillis r.timeoutMs }))

/-- A builder to which everything in the settings has been added. -/
def builder (s : Settings) (pool : Pool) : Outcome Builder := do
  let b : Builder :=
    { timeout := ofMillis s.timeoutMs, metrics := s.metrics,
      policy := .excluding s.excludeHeaders }
  let b ← s.services.foldlM (s.addService pool) b
  s.relations.foldlM (s.addRelations pool) b

def gateway (s : Settings) (pool : Pool) : Outcome Gateway := do (← s.builder pool).build

end Settings
end Patchwork
