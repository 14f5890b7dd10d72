import Patchwork.Downstream

/-!
# Meters

Counts of what the gateway does, in the text form that a monitor collects. Of durations only their
number is kept.
-/

namespace Patchwork

/-- Something that is counted. -/
inductive Observation where
  | request (verb : String)
  | duration (verb : String)
  | error (verb code : String)
  | call (service method : String)
  | callDuration (service method : String)
  | callError (service method code : String)
  | batch (relation : String) (size : Nat)
  deriving DecidableEq, Repr

/-- One line of the text form: a name and labels with their values. -/
structure Sample where
  name : String
  labels : List (String × String)
  deriving DecidableEq, Repr

namespace Sample

def escape (value : String) : String :=
  String.ofList (value.toList.flatMap fun c =>
    if c = '\\' then ['\\', '\\'] else if c = '"' then ['\\', '"']
    else if c = '\n' then ['\\', 'n'] else [c])

def labelText (label : String × String) : String := label.1 ++ "=\"" ++ escape label.2 ++ "\""

def text (s : Sample) : String :=
  s.name ++ "\x7b" ++ ",".intercalate (s.labels.map labelText) ++ "\x7d"

end Sample

/-- Upper bounds of the classes by which sizes of batches are counted. -/
def batchBounds : List Nat := [1, 2, 5, 10, 25, 50, 100, 250, 1000]

/-- The counters of a histogram that one value changes: the classes it lies in, the sum and the
count. -/
def histogramSamples (name : String) (labels : List (String × String)) (value : Nat) :
    List (Sample × Nat) :=
  ((batchBounds.filter (value ≤ ·)).map fun b =>
      (⟨name ++ "_bucket", labels ++ [("le", toString b)]⟩, 1))
    ++ [(⟨name ++ "_bucket", labels ++ [("le", "+Inf")]⟩, 1), (⟨name ++ "_sum", labels⟩, value),
        (⟨name ++ "_count", labels⟩, 1)]

/-- How far an observation moves which counters. -/
def Observation.samples : Observation → List (Sample × Nat)
  | request verb => [(⟨"stitch_requests_total", [("verb", verb)]⟩, 1)]
  | duration verb => [(⟨"stitch_request_duration_seconds_count", [("verb", verb)]⟩, 1)]
  | error verb code => [(⟨"stitch_errors_total", [("code", code), ("verb", verb)]⟩, 1)]
  | call service method =>
    [(⟨"stitch_upstream_requests_total", [("method", method), ("service", service)]⟩, 1)]
  | callDuration service method =>
    [(⟨"stitch_upstream_duration_seconds_count", [("method", method), ("service", service)]⟩, 1)]
  | callError service method code =>
    [(⟨"stitch_upstream_errors_total",
      [("code", code), ("method", method), ("service", service)]⟩, 1)]
  | batch relation size =>
    histogramSamples "stitch_relation_batch_size" [("relation", relation)] size

/-- The counters that have moved, with their values. -/
abbrev Meter := List (Sample × Nat)

namespace Meter

def add (s : Sample) (n : Nat) : Meter → Meter
  | [] => [(s, n)]
  | (t, m) :: rest => if s = t then (t, m + n) :: rest else (t, m) :: add s n rest

def observe (m : Meter) (o : Observation) : Meter :=
  o.samples.foldl (fun m (s, n) => m.add s n) m

def ofObservations (os : List Observation) : Meter := os.foldl observe []

def value (m : Meter) (s : Sample) : Nat := (m.lookup s).getD 0

/-- The number of requests of all verbs. -/
def requestsTotal (m : Meter) : Nat :=
  let count (verb : String) := m.value ⟨"stitch_requests_total", [("verb", verb)]⟩
  count "fetch" + count "do" + count "listen"

/-- Name, kind and description of each family of counters, by name. -/
def families : List (String × String × String) :=
  [("stitch_errors_total", "counter", "Total number of failed gateway requests"),
   ("stitch_relation_batch_size", "histogram", "Number of bases resolved per relation call"),
   ("stitch_request_duration_seconds", "histogram", "Gateway request duration in seconds"),
   ("stitch_requests_total", "counter", "Total number of gateway requests"),
   ("stitch_upstream_duration_seconds", "histogram", "Downstream gRPC call duration in seconds"),
   ("stitch_upstream_errors_total", "counter", "Total number of downstream gRPC errors"),
   ("stitch_upstream_requests_total", "counter", "Total number of downstream gRPC calls")]

def render (m : Meter) : String :=
  String.join (families.map fun (name, kind, help) =>
    "# HELP " ++ name ++ " " ++ help ++ "\n# TYPE " ++ name ++ " " ++ kind ++ "\n"
      ++ String.join ((m.filter fun (s, _) => s.name.startsWith name).map fun (s, n) =>
        s.text ++ " " ++ toString n ++ "\n"))

end Meter

/-- What an event adds to the meters. A call that was dropped before it settled did not fail. -/
def Event.observations : Event → List Observation
  | called e =>
    let service := e.call.method.service
    let method := e.call.method.name
    [.call service method]
      ++ (match e.failure with
        | some code => if e.dropped then [] else [.callError service method code.name]
        | none => [])
      ++ [.callDuration service method]
  | consulted .. => []
  | resolved relation size => [.batch relation size]

/-- A call in progress whose end is still to be counted. -/
inductive Timer where
  | request (verb : String)
  | call (service method : String)
  deriving DecidableEq, Repr

namespace Timer

def start : Timer → Observation
  | request verb => .request verb
  | call service method => .call service method

def fail (code : String) : Timer → Observation
  | request verb => .error verb code
  | call service method => .callError service method code

def stop : Timer → Observation
  | request verb => .duration verb
  | call service method => .callDuration service method

end Timer
end Patchwork
