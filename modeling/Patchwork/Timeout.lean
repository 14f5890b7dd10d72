import Patchwork.HeaderPolicy
import Patchwork.Text.Numeral

/-!
# Timeouts

Spans of time are counted in nanoseconds. A request states its own in one of two headers; a
downstream call states what is left of it as a count of at most eight digits and a unit.
-/

namespace Patchwork.Timeout
open Numeral (unsigned?)

inductive TimeUnit where
  | hours | minutes | seconds | millis | micros | nanos
  deriving DecidableEq, Repr

namespace TimeUnit

def nanoseconds : TimeUnit → Nat
  | hours => 3600000000000
  | minutes => 60000000000
  | seconds => 1000000000
  | millis => 1000000
  | micros => 1000
  | nanos => 1

def symbol : TimeUnit → Char
  | hours => 'H'
  | minutes => 'M'
  | seconds => 'S'
  | millis => 'm'
  | micros => 'u'
  | nanos => 'n'

/-- The units from the finest to the coarsest. -/
def all : List TimeUnit := [nanos, micros, millis, seconds, minutes, hours]

def ofSymbol? (c : Char) : Option TimeUnit := all.find? fun u => u.symbol = c

end TimeUnit

def perMilli : Nat := 1000000

/-- Counts are below 64 bits. -/
def countLimit : Nat := 18446744073709551616

def isSpace (c : Char) : Bool := c == ' ' || c == '\t'

def trim (text : List Char) : List Char :=
  ((text.dropWhile isSpace).reverse.dropWhile isSpace).reverse

def count? (text : List Char) : Option Nat :=
  (unsigned? text).bind fun n => if n < countLimit then some n else none

/-- Reads a count and a unit, nine characters in all at most. -/
def read? (text : List Char) : Option Nat :=
  if text.length < 2 ∨ 9 < text.length then none
  else match text.getLast? with
    | none => none
    | some c => do return (← count? text.dropLast) * (← TimeUnit.ofSymbol? c).nanoseconds

/-- The trimmed text of the first header of a name. -/
def firstText? (headers : Fields) (name : String) : Option (List Char) :=
  (headers.lookup name).bind fun v => (headerText? v).map trim

def millisName : String := "connect-timeout-ms"

def unitsName : String := "grpc-timeout"

/-- The timeout that a request asks for. A plain count of milliseconds goes before a count with a
unit. -/
def ofHeaders? (headers : Fields) : Option Nat :=
  match (firstText? headers millisName).bind count? with
  | some n => some (n * perMilli)
  | none => (firstText? headers unitsName).bind read?

/-- The largest count that is written. -/
def maxCount : Nat := 99999999

/-- The finest unit in which a timeout can be written. -/
def writtenUnit? (timeout : Nat) : Option TimeUnit :=
  TimeUnit.all.find? fun u => timeout / u.nanoseconds ≤ maxCount

/-- The text of a timeout: whole units, rounded down. -/
def write? (timeout : Nat) : Option (List Char) :=
  (writtenUnit? timeout).map fun u => (Nat.repr (timeout / u.nanoseconds)).toList ++ [u.symbol]

end Patchwork.Timeout
