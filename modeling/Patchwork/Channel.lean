import Patchwork.Downstream
import Patchwork.Encoding.Percent

/-!
# Channels

A transport that carries messages in binary form. What a server sends back is read as the output
of the method; what cannot be read fails the call, or ends the stream. The message of a status
passes in percent encoding.
-/

namespace Patchwork.Channel
open Proto

/-- The failure of a call whose reply cannot be read. -/
def unreadable (t : MessageType) : Status :=
  ⟨.internal, "decode error: malformed message of type " ++ t.name, []⟩

def decode (t : MessageType) (bytes : List UInt8) : Reply Message :=
  match Message.decode? t bytes with
  | some m => .ok m
  | none => .error (unreadable t)

/-- A status as it is read. Servers leave percent signs as they are, so that a message may come to
spell something else, or no text at all. -/
def arrival (s : Status) : Status :=
  match Utf8.read (Percent.decode (Utf8.encode s.message)) with
  | .ok message => { s with message }
  | .error damage =>
    { s with code := .unknown
             message := "Error deserializing status message header: " ++ damage.message }

/-- A reply to a single call. A status that is no failure stands for a reply without a message. -/
def receive (m : Method) : Reply (List UInt8) → Reply Message
  | .ok bytes => decode m.output bytes
  | .error s =>
    let s := arrival s
    if s.code = .ok then .error ⟨.internal, "Missing response message.", []⟩ else .error s

/-- The items of a stream up to the first failure. A status that is no failure ends it. -/
def receiveItems (m : Method) :
    List (Delayed (Reply (List UInt8))) → Items
  | [] => []
  | item :: rest => match item.value with
    | .ok bytes => match decode m.output bytes with
      | .ok message => ⟨item.after, .ok message⟩ :: receiveItems m rest
      | .error s => [⟨item.after, .error s⟩]
    | .error s =>
      let s := arrival s
      if s.code = .ok then [] else [⟨item.after, .error s⟩]

/-- A stream, or the failure to open it. -/
def receiveStream (m : Method) :
    Reply (List (Delayed (Reply (List UInt8)))) → Reply Items
  | .ok items => .ok (receiveItems m items)
  | .error s =>
    let s := arrival s
    if s.code = .ok then .ok [] else .error s

end Patchwork.Channel
