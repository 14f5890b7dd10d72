import Patchwork.Text.Numeral

/-!
# Instants and spans of time as text

An instant is a number of seconds since 1970-01-01T00:00:00Z with nanoseconds, written by date and
time of day in the proleptic Gregorian calendar. A span is a decimal number of seconds. Fractions
are written with 0, 3, 6 or 9 digits, as few as the nanoseconds allow.
-/

namespace Patchwork.Calendar
open Numeral

structure Date where
  year : Int
  month : Nat
  day : Nat
  deriving DecidableEq, Repr

def isLeap (year : Int) : Bool := year % 4 = 0 ∧ (year % 100 ≠ 0 ∨ year % 400 = 0)

def daysInMonth (year : Int) (month : Nat) : Nat :=
  if month = 2 then if isLeap year then 29 else 28
  else if month = 4 ∨ month = 6 ∨ month = 9 ∨ month = 11 then 30
  else 31

def Date.isValid (d : Date) : Bool :=
  1 ≤ d.month ∧ d.month ≤ 12 ∧ 1 ≤ d.day ∧ d.day ≤ daysInMonth d.year d.month

/-- Days since 1970-01-01. Years are counted from March, so that the leap day comes last. -/
def Date.toDays (d : Date) : Int :=
  let y := if d.month ≤ 2 then d.year - 1 else d.year
  let m := if d.month ≤ 2 then d.month + 9 else d.month - 3
  y * 365 + y / 4 - y / 100 + y / 400 + ((153 * m + 2) / 5 : Nat) + d.day - 1 - 719468

def Date.ofDays (days : Int) : Date :=
  let z := days + 719468
  let era := z / 146097
  let dayOfEra := (z % 146097).toNat
  let yearOfEra := (dayOfEra - dayOfEra / 1460 + dayOfEra / 36524 - dayOfEra / 146096) / 365
  let dayOfYear := dayOfEra - (365 * yearOfEra + yearOfEra / 4 - yearOfEra / 100)
  let m := (5 * dayOfYear + 2) / 153
  let day := dayOfYear - (153 * m + 2) / 5 + 1
  let month := if m < 10 then m + 3 else m - 9
  ⟨yearOfEra + era * 400 + (if month ≤ 2 then 1 else 0), month, day⟩

/-- Seconds and nanoseconds. -/
structure Time where
  seconds : Int
  nanos : Int
  deriving DecidableEq, Repr

def nanosPerSecond : Int := 1000000000

def padded (width n : Nat) : String :=
  let digits := Nat.repr n
  String.ofList (List.replicate (width - digits.length) '0') ++ digits

def fraction (nanos : Nat) : String :=
  if nanos = 0 then ""
  else if nanos % 1000000 = 0 then "." ++ padded 3 (nanos / 1000000)
  else if nanos % 1000 = 0 then "." ++ padded 6 (nanos / 1000)
  else "." ++ padded 9 nanos

def yearText (year : Int) : String :=
  if year < 0 then "-" ++ padded 4 year.natAbs
  else if 9999 < year then "+" ++ toString year
  else padded 4 year.natAbs

/-- The first instant of year 1 and the last second of year 9999. -/
def earliest : Int := -62135596800

def latest : Int := 253402300799

/-- The instant as text, if its seconds lie in the years 1 to 9999. -/
def instantText? (t : Time) : Option String :=
  if t.seconds < earliest ∨ latest < t.seconds then none
  else
    let carried : Time := ⟨t.seconds + t.nanos.tdiv nanosPerSecond, t.nanos.tmod nanosPerSecond⟩
    let t := if carried.nanos < 0 then ⟨carried.seconds - 1, carried.nanos + nanosPerSecond⟩ else carried
    let date := Date.ofDays (t.seconds / 86400)
    let second := (t.seconds % 86400).toNat
    some (yearText date.year ++ "-" ++ padded 2 date.month ++ "-" ++ padded 2 date.day
      ++ "T" ++ padded 2 (second / 3600) ++ ":" ++ padded 2 (second / 60 % 60)
      ++ ":" ++ padded 2 (second % 60) ++ fraction t.nanos.toNat ++ "Z")

/-- The longest span, about ten thousand years. -/
def longest : Int := 315576000000

def Time.isSpan (t : Time) : Bool :=
  -longest ≤ t.seconds ∧ t.seconds ≤ longest ∧ -nanosPerSecond < t.nanos ∧ t.nanos < nanosPerSecond

/-- The span as text, if it is in range. Seconds and nanoseconds of opposite signs are brought to
one sign; a minus stands in front when either was negative. -/
def spanText? (t : Time) : Option String :=
  if !t.isSpan then none
  else
    let n : Time :=
      if t.seconds < 0 ∧ 0 < t.nanos then ⟨t.seconds + 1, t.nanos - nanosPerSecond⟩
      else if 0 < t.seconds ∧ t.nanos < 0 then ⟨t.seconds - 1, t.nanos + nanosPerSecond⟩
      else t
    let sign := if t.seconds < 0 ∨ t.nanos < 0 then "-" else ""
    some (sign ++ toString n.seconds.natAbs ++ fraction n.nanos.natAbs ++ "s")

/-- Exactly `width` digits. -/
def digits? (width : Nat) (input : List Char) : Option (Nat × List Char) :=
  let ds := input.take width
  if ds.length = width ∧ ds.all isDigit then some (accumulate 0 ds, input.drop width) else none

def char? (c : Char) : List Char → Option (List Char)
  | d :: rest => if c = d then some rest else none
  | [] => none

/-- Nanoseconds after a point, digits beyond the ninth dropped; zero without a point. -/
def nanos? : List Char → Option (Nat × List Char)
  | '.' :: rest =>
    let ds := rest.takeWhile isDigit
    if ds = [] then none
    else
      let kept := ds.take 9
      some (accumulate 0 kept * Nat.pow 10 (9 - kept.length), rest.dropWhile isDigit)
  | input => some (0, input)

/-- The offset from UTC in seconds at the end of an instant. `-00:00` is no offset. -/
def offset? : List Char → Option Int
  | ['Z'] => some 0
  | sign :: rest => do
    if sign ≠ '+' ∧ sign ≠ '-' then none
    let (hour, rest) ← digits? 2 rest
    let (minute, rest) ← digits? 2 (← char? ':' rest)
    if rest ≠ [] ∨ 24 ≤ hour ∨ 60 ≤ minute then none
    if sign = '-' ∧ hour = 0 ∧ minute = 0 then none
    let seconds : Int := hour * 3600 + minute * 60
    return if sign = '-' then -seconds else seconds
  | [] => none

/-- Reads an instant with upper-case letters and an offset. A leap second counts as the one
before it. -/
def instant? (text : String) : Option Time := do
  let (year, rest) ← digits? 4 text.toList
  let (month, rest) ← digits? 2 (← char? '-' rest)
  let (day, rest) ← digits? 2 (← char? '-' rest)
  let (hour, rest) ← digits? 2 (← char? 'T' rest)
  let (minute, rest) ← digits? 2 (← char? ':' rest)
  let (second, rest) ← digits? 2 (← char? ':' rest)
  let (nanos, rest) ← nanos? rest
  let offset ← offset? rest
  let date : Date := ⟨year, month, day⟩
  let second := if second = 60 then 59 else second
  if !date.isValid ∨ 24 ≤ hour ∨ 60 ≤ minute ∨ 60 ≤ second then none
  let seconds := date.toDays * 86400 + (hour * 3600 + minute * 60 + second : Nat) - offset
  if seconds < earliest ∨ latest < seconds then none
  return ⟨seconds, nanos⟩

/-- Reads a span: an optional minus, seconds, an optional fraction and the letter `s`. -/
def span? (text : String) : Option Time := do
  let (negative, rest) := match text.toList with
    | '-' :: rest => (true, rest)
    | rest => (false, rest)
  let ds := rest.takeWhile isDigit
  let seconds ← natural? ds
  let (nanos, rest) ← nanos? (rest.dropWhile isDigit)
  if rest ≠ ['s'] then none
  let t : Time := if negative then ⟨-seconds, -nanos⟩ else ⟨seconds, nanos⟩
  if t.isSpan then some t else none

end Patchwork.Calendar
