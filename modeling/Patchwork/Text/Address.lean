import Patchwork.Encoding.Utf8

/-!
# Addresses

Which texts are addresses of servers: a scheme, an authority and perhaps a path; an authority
alone; or a path alone. The authority is a host, perhaps with user information before it and a
number after it.
-/

namespace Patchwork.Address

/-- Characters of an authority, the percent sign apart. -/
def isAuthorityChar (c : Char) : Bool := c.isAlphanum || "!$&'()*+,-.:;=@[]_~".toList.contains c

/-- What ends an authority. -/
def isEnd (c : Char) : Bool := c == '/' || c == '?' || c == '#'

structure Scan where
  colons : Nat := 0
  opened : Bool := false
  closed : Bool := false
  /-- Whether a percent sign was met outside of user information. -/
  percent : Bool := false
  afterAt : Bool := false

/-- Inside brackets there may be this many colons. -/
def maxColons : Nat := 8

def Scan.step? (s : Scan) (c : Char) : Option Scan :=
  let s := { s with afterAt := false }
  if c = ':' then if s.colons < maxColons then some { s with colons := s.colons + 1 } else none
  else if c = '[' then if s.percent || s.opened then none else some { s with opened := true }
  else if c = ']' then
    if !s.opened || s.closed then none else some { s with closed := true, colons := 0, percent := false }
  else if c = '@' then some { s with colons := 0, percent := false, afterAt := true }
  else if c = '%' then some { s with percent := true }
  else if isAuthorityChar c then some s
  else none

def isAuthority (text : List Char) : Bool :=
  match text.foldlM Scan.step? {} with
  | some s => s.opened == s.closed && s.colons ≤ 1 && !s.afterAt && !s.percent
  | none => false

def isPathChar (c : Char) : Bool := 32 < c.toNat && c.toNat ≠ 127 && !"<>`".toList.contains c

def isQueryChar (c : Char) : Bool := 32 < c.toNat && c.toNat ≠ 127 && !"<>\"".toList.contains c

/-- A path and a query, up to a fragment. -/
def isPath (text : List Char) : Bool :=
  let chars := text.takeWhile (· ≠ '#')
  (chars.takeWhile (· ≠ '?')).all isPathChar && (chars.dropWhile (· ≠ '?')).all isQueryChar

def isSchemeChar (c : Char) : Bool := c.isAlphanum || "+-.~".toList.contains c

/-- The text after a scheme, if it has one. -/
def afterScheme? (text : List Char) : Option (List Char) :=
  match text.dropWhile isSchemeChar with
  | ':' :: '/' :: '/' :: rest => some rest
  | _ => none

/-- The greatest length of a scheme. -/
def maxScheme : Nat := 64

/-- The greatest number of bytes in an address. -/
def maxSize : Nat := 65534

/-- A scheme, an authority and perhaps a path, or an authority alone. -/
def isFull (chars : List Char) : Bool :=
  match afterScheme? chars with
  | none => isAuthority chars
  | some rest =>
    let authority := rest.takeWhile (!isEnd ·)
    (chars.takeWhile isSchemeChar).length ≤ maxScheme && !authority.isEmpty
      && isAuthority authority && isPath (rest.dropWhile (!isEnd ·))

def isAddress (text : String) : Bool :=
  text.utf8ByteSize ≤ maxSize && match text.toList with
    | [] => false
    | ['*'] => true
    | '/' :: rest => isPath ('/' :: rest)
    | chars => isFull chars

/-- The path of an address, without query and fragment. -/
def path (text : String) : String :=
  let chars := text.toList
  let rest := match chars with
    | '/' :: _ => chars
    | _ => ((afterScheme? chars).getD []).dropWhile (!isEnd ·)
  String.ofList (rest.takeWhile fun c => c ≠ '?' && c ≠ '#')

end Patchwork.Address
