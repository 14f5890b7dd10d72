import Patchwork.Proto.Link
import Patchwork.Proto.Printer
import Patchwork.Proto.Reader
import Patchwork.Status

/-!
# Failures

What goes wrong while a gateway is set up or serves a request, by cause. Every failure has a status
code and a message; the messages are all worded here.
-/

namespace Patchwork
open Proto

/-- Why a service, a relation or a settings file is refused. -/
inductive Misconfigured where
  | noTransport (user : String)
  | noEndpoint (service : String)
  | noService (service : String)
  | noMethod (method service : String)
  | methodTaken (method : String)
  | noMethods
  | notUnary (method : String)
  | noBases (method : String)
  | plainBases (method : String)
  | noValues (method : String)
  | plainValues (method : String)
  | wrongResult (method result relation : String)
  | collision (method base relation : String)
  | relationTaken (base relation : String)
  | noDescriptors
  | missingFile (path : String)
  | malformed
  | other (text : String)
  deriving DecidableEq, Repr

def Misconfigured.message : Misconfigured → String
  | noTransport user => "no transport configured for " ++ user
  | noEndpoint service => "no endpoint configured for " ++ service
  | noService service => "service " ++ service ++ " not found in descriptor sets"
  | noMethod method service => "method " ++ method ++ " not found on " ++ service
  | methodTaken method => "method " ++ method ++ " already registered"
  | noMethods => "no methods registered"
  | notUnary method => "relation method " ++ method ++ " must be unary"
  | noBases method =>
    "relation method " ++ method ++ " input must have field 1 `repeated <Base> bases`"
  | plainBases method => "relation method " ++ method ++ " `bases` must be a message list"
  | noValues method =>
    "relation method " ++ method ++ " output must have field 1 `repeated <Result> values`"
  | plainValues method => "relation method " ++ method ++ " `values` must be a message list"
  | wrongResult method result relation =>
    "relation method " ++ method ++ " result " ++ result ++ " must have exactly one field `"
      ++ relation ++ "` = 1"
  | collision method base relation =>
    "relation " ++ method ++ " collides with field " ++ base ++ "." ++ relation
  | relationTaken base relation => "relation " ++ base ++ "." ++ relation ++ " already registered"
  | noDescriptors => "no descriptor_sets configured"
  | missingFile path => "failed to read " ++ path ++ ": no such file"
  | malformed => "invalid config: not of the expected form"
  | other text => text

/-- Why the params of a relation are refused. -/
inductive ParamsError where
  | notTaken (relation : String)
  | unreadable (cause : Unreadable)
  | basesGiven
  deriving DecidableEq, Repr

def ParamsError.message : ParamsError → String
  | notTaken relation => "relation " ++ relation ++ " takes no params"
  | unreadable cause => cause.message
  | basesGiven => "`bases` cannot be passed as a param"

/-- Why a request is refused. -/
inductive Invalid where
  | noRequests
  | missingRequest
  | notUnary (method : String)
  | notStreaming (method : String)
  | sideEffects (method : String)
  | body (method : String) (cause : Unreadable)
  | envelope
  | noField (path : String)
  | missingParams (path : String)
  | params (path : String) (cause : ParamsError)
  /-- Params read on their own, not as part of a mask. -/
  | bareParams (cause : ParamsError)
  | other (text : String)
  deriving DecidableEq, Repr

def Invalid.message : Invalid → String
  | noRequests => "no requests"
  | missingRequest => "missing request"
  | notUnary method => method ++ " is not a unary method"
  | notStreaming method => method ++ " is not a server-streaming method"
  | sideEffects method => method ++ " may have side effects, use Do"
  | body method cause => "invalid body for " ++ method ++ ": " ++ cause.message
  | envelope => "invalid request body: not of the expected form"
  | noField path => "field " ++ path ++ " not found"
  | missingParams path => "params for field " ++ path ++ " not found"
  | params path cause => "Invalid params passed at " ++ path ++ ": " ++ cause.message
  | bareParams cause => cause.message
  | other text => text

/-- Which promise between the parts of the gateway was broken. -/
inductive Broken where
  | notRelation (path : String)
  | noField (field type : String)
  | wrongContainer (field : String)
  | wrongElement (found : String)
  | notScalar (found : String)
  | valueCount (method : String) (values bases : Nat)
  | unconvertible (type : String)
  | notValues (method : String)
  | other (text : String)
  deriving DecidableEq, Repr

def Broken.message : Broken → String
  | notRelation path => path ++ " is not a relation"
  | noField field type => "field '" ++ field ++ "' not found for '" ++ type ++ "'"
  | wrongContainer field => "value of " ++ field ++ " does not match its schema"
  | wrongElement found => "value " ++ found ++ " does not match schema type"
  | notScalar found => found ++ " is not a scalar"
  | valueCount method values bases =>
    "relation " ++ method ++ " returned " ++ toString values ++ " values for " ++ toString bases
      ++ " bases"
  | unconvertible type => "cannot convert base to " ++ type ++ ": malformed message"
  | notValues method => method ++ " returned a non-message value"
  | other text => text

/-- Why a set of type declarations is refused. -/
inductive Undescribed where
  | malformed
  | unlinked (cause : Unlinked)
  deriving DecidableEq, Repr

def Undescribed.message : Undescribed → String
  | malformed => "malformed descriptor set"
  | unlinked cause => cause.message

inductive Failure where
  /-- The status with which a downstream call ended. -/
  | downstream (status : Status)
  /-- An address that no transport can be made for. -/
  | transport (address : String)
  | config (cause : Misconfigured)
  | invalidArgument (cause : Invalid)
  | unknownMethod (method : String)
  | notFound (text : String)
  | internal (cause : Broken)
  | serialization (cause : Unprintable)
  | descriptor (cause : Undescribed)
  | io (text : String)
  deriving DecidableEq, Repr

namespace Failure

def code : Failure → Code
  | downstream status => status.code
  | transport _ => .unavailable
  | config _ => .failedPrecondition
  | invalidArgument _ => .invalidArgument
  | unknownMethod _ | notFound _ => .notFound
  | internal _ | serialization _ | descriptor _ | io _ => .internal

def message : Failure → String
  | downstream status => status.message
  | transport address => "invalid address: " ++ address
  | config cause => cause.message
  | invalidArgument cause => cause.message
  | unknownMethod method => "method " ++ method ++ " not found"
  | notFound text => text
  | internal cause => cause.message
  | serialization cause => cause.message
  | descriptor cause => cause.message
  | io text => text

/-- The kind of a failure in words. -/
def kind : Failure → String
  | downstream _ => "gRPC error"
  | transport _ => "gRPC transport error"
  | config _ => "Configuration error"
  | invalidArgument _ => "Invalid argument"
  | unknownMethod _ | notFound _ => "Not found"
  | internal _ => "Internal error"
  | serialization _ => "Serialization error"
  | descriptor _ => "Descriptor error"
  | io _ => "IO error"

/-- The failure as a line of text. -/
def display (f : Failure) : String := f.kind ++ ": " ++ f.message

/-- The messages that a downstream failure carries. -/
def details : Failure → List Detail
  | downstream status => status.carried
  | _ => []

def toStatus : Failure → Status
  | downstream status => status
  | f => ⟨f.code, f.message, []⟩

/-- The body of an HTTP response that reports a failure. -/
def body (f : Failure) : Json :=
  .object [("code", .str (f.code.name.map Char.toLower)), ("message", .str f.message)]

end Failure

abbrev Outcome := Except Failure

end Patchwork
