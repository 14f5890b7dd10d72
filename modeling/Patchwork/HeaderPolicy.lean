import Patchwork.Metadata
import Patchwork.Text.Lowercase

/-!
# Forwarding of headers

Which headers of a request go on to downstream calls, and in what form. All do except those that
belong to the incoming connection, those that the gateway writes itself and those that the
settings exclude. A value that has no form as metadata is dropped alone.
-/

namespace Patchwork
open Metadata (isBinary operationsName)

def deniedNames : List String :=
  ["accept", "connect", "connection", "expect", "host", "http2-settings", "keep-alive", "origin",
   "proxy-connection", "te", "trailer", "transfer-encoding", "upgrade"]

def deniedPrefixes : List String := [":", "accept-", "connect-", "content-", "grpc-", "if-"]

structure HeaderPolicy where
  /-- Further names that are not forwarded, in lower case. -/
  excluded : List String := []
  deriving DecidableEq, Repr

namespace HeaderPolicy

def exclude (p : HeaderPolicy) (name : String) : HeaderPolicy :=
  ⟨p.excluded ++ [Case.lower name]⟩

def excluding (names : List String) : HeaderPolicy := names.foldl exclude {}

def forwards (p : HeaderPolicy) (name : String) : Bool :=
  let lower := Case.lower name
  !deniedNames.contains lower && !p.excluded.contains lower && lower != operationsName
    && !deniedPrefixes.any fun start => lower.startsWith start

end HeaderPolicy

/-- Bytes of a header value that can be read as text. -/
def isVisible (b : UInt8) : Bool := (32 ≤ b && b < 127) || b == 9

/-- A header value as text. -/
def headerText? (value : List UInt8) : Option (List Char) :=
  if value.all isVisible then some (value.map fun b => Char.ofNat b.toNat) else none

/-- The form that a header value has as metadata. -/
def metadataValue? (name : String) (value : List UInt8) : Option (List UInt8) :=
  if isBinary name then Base64.decodeExact (value.map fun b => Char.ofNat b.toNat)
  else if value.all isVisible then some value
  else none

/-- The metadata that the headers of a request give. -/
def HeaderPolicy.metadata (p : HeaderPolicy) (headers : Fields) : Metadata :=
  (headers.filter fun (name, _) => p.forwards name).filterMap fun (name, value) =>
    (metadataValue? name value).map (name, ·)

end Patchwork
