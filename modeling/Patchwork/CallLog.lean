import Patchwork.Encoding.Hex
import Patchwork.Json.Printer
import Patchwork.Serve

/-!
# Log of calls

The calls of a gateway as JSON, for those who want to see what it asked of whom. Values that are
not printable text are shown in hexadecimal. With instants, the calls are in order of time, and
those of one instant in the order of their texts, since they are made side by side.
-/

namespace Patchwork
open Proto

def hexJson (bytes : List UInt8) : Json := .object [("hex", .str (Hex.encode bytes))]

/-- Printable bytes as text, others in hexadecimal. -/
def bytesJson (bytes : List UInt8) : Json :=
  if bytes.all fun b => 0x20 ≤ b && b ≤ 0x7e then
    .str (String.ofList (bytes.map fun b => Char.ofNat b.toNat))
  else hexJson bytes

/-- The values of a name. -/
def Metadata.valuesJson (m : Metadata) (name : String) : Json :=
  .arr ((m.values name).map (if isBinary name then hexJson else bytesJson))

/-- All values by name, some names left out. -/
def Metadata.toJson (m : Metadata) (hidden : List String) : Json :=
  .object ((m.names.filter fun n => !hidden.contains n).map fun n => (n, m.valuesJson n))

def Metadata.operationsJson (m : Metadata) : Json := m.valuesJson operationsName

/-- The JSON form of a message, a word in place of one that has none. -/
def Proto.Message.toJson (m : Message) : Json := m.print.toOption.getD (.str "unprintable")

namespace CallLog

/-- Names that every call has or that are shown elsewhere in its entry. -/
def hiddenNames : List String :=
  [Metadata.operationsName, Timeout.unitsName, "te", "content-type", "user-agent"]

def timeoutJson (timeout : Option Nat) : Json :=
  ((timeout.bind Timeout.write?).map fun text => Json.str (String.ofList text)).getD .null

/-- A call that was received as `message`. -/
def callJson (c : Call) (message : Message) : List (String × Json) :=
  [("method", .str c.method.fullName), ("message", message.toJson),
   ("operations", c.metadata.operationsJson), ("timeout", timeoutJson c.timeout),
   ("metadata", c.metadata.toJson hiddenNames)]

def consultationJson (c : Consultation) : List (String × Json) :=
  [("method", .str ("resolver:" ++ c.relation)),
   ("message", .object [("bases", .arr (c.bases.map Message.toJson)),
      ("params", (c.params.map Message.toJson).getD .null)]),
   ("operations", c.metadata.operationsJson)]

/-- Whether a call was answered while the gateway waited for it. -/
def isCompleted (e : Exchange) : Bool :=
  e.answeredAt.isSome && e.answeredAt == e.settledAt && !e.dropped

/-- An entry: its members, and what is added to them where instants are shown. -/
structure Entry where
  instant : Nat
  completed : Bool
  members : List (String × Json)

/-- The entry of a call that was sent, its message shown as `view` says if it shows the call at
all, or of a consultation. -/
def ofEvent? (view : Call → Option Message) : Event → Option Entry
  | .called e =>
    if e.sent then (view e.call).map fun m => ⟨e.sentAt, isCompleted e, callJson e.call m⟩ else none
  | .consulted _ now c => some ⟨now, true, consultationJson c⟩
  | .resolved .. => none

/-- The texts that order the calls of one instant. -/
def Entry.texts (e : Entry) : List String := (e.members.take 3).map (·.2.print)

/-- The order of lists by their first difference. -/
def textsLe : List String → List String → Bool
  | a :: as, b :: bs => if a = b then textsLe as bs else a < b
  | _, _ => true

def Entry.le (a b : Entry) : Bool :=
  if a.instant = b.instant then textsLe a.texts b.texts else a.instant < b.instant

def Entry.timedJson (e : Entry) : Json :=
  .object (e.members
    ++ [("at_ms", .ofNat (e.instant / Timeout.perMilli)), ("completed", .bool e.completed)])

/-- The log of some events, the first one first. -/
def ofEvents (view : Call → Option Message) (timed : Bool) (events : List Event) : Json :=
  let entries := events.filterMap (ofEvent? view)
  .arr (if timed then (entries.mergeSort Entry.le).map Entry.timedJson
    else entries.map fun e => .object e.members)

end CallLog

/-- What happened after an earlier moment, the first event first. -/
def Moment.since (m earlier : Moment) : List Event :=
  (m.journal.take (m.journal.length - earlier.journal.length)).reverse

end Patchwork
