/-! Targets of requests. A target is a path from the root with a query, the asterisk that
stands for the server as a whole, an authority alone, or all of a scheme, an authority and a
path. -/

namespace EventStream.Http

/-- What of a target decides the answer. -/
structure Target where
  /-- Empty when the target is an authority alone. -/
  path : List Char
  query : List Char := []
  deriving DecidableEq, Repr

namespace Target

/-- The most bytes that a target may have. -/
def maxSize : Nat := 65534

/-! ### Path and query -/

def isPathChar (c : Char) : Bool :=
  let n := c.toNat
  n = 0x21 || n = 0x22 || (0x24 ≤ n && n ≤ 0x3B) || n = 0x3D || (0x40 ≤ n && n ≤ 0x5F) ||
    0x61 ≤ n

def isQueryChar (c : Char) : Bool :=
  let n := c.toNat
  n = 0x21 || (0x24 ≤ n && n ≤ 0x3B) || n = 0x3D || (0x3F ≤ n && n ≠ 0x7F)

/-- A path, which is the root when nothing is written, and a query; a fragment behind them is
not looked at. -/
def located? (s : List Char) : Option Target :=
  let s := s.takeWhile (· ≠ '#')
  let path := s.takeWhile (· ≠ '?')
  let query := (s.dropWhile (· ≠ '?')).drop 1
  if path.all isPathChar && query.all isQueryChar then
    some { path := if path = [] then ['/'] else path, query }
  else none

/-! ### Authority -/

def isAuthorityChar (c : Char) : Bool :=
  c.isAlphanum || "!$&'()*+,-.;=_~".toList.contains c

/-- What the characters of an authority have shown so far. -/
structure Authority where
  /-- Colons of the present part. -/
  colons : Nat := 0
  opened : Bool := false
  closed : Bool := false
  /-- Whether the present part has a percent sign. -/
  percent : Bool := false
  /-- Whether the last character was an at sign. -/
  pending : Bool := false
  deriving DecidableEq, Repr

namespace Authority

/-- An at sign ends the user's part and a closing bracket an address; both let the colons and
percent signs before them pass. -/
def step? (a : Authority) (c : Char) : Option Authority :=
  let a := { a with pending := c = '@' }
  if c = ':' then if a.colons < 8 then some { a with colons := a.colons + 1 } else none
  else if c = '[' then if a.percent || a.opened then none else some { a with opened := true }
  else if c = ']' then
    if a.opened && !a.closed then some { a with closed := true, colons := 0, percent := false }
    else none
  else if c = '@' then some { a with colons := 0, percent := false }
  else if c = '%' then some { a with percent := true }
  else if isAuthorityChar c then some a
  else none

/-- Brackets are closed, at most one colon stands before a port, and a host follows the user. -/
def isComplete (a : Authority) : Bool :=
  a.opened = a.closed && a.colons ≤ 1 && !a.pending && !a.percent

end Authority

def isAuthority (s : List Char) : Bool :=
  s ≠ [] && (s.foldlM Authority.step? {}).any Authority.isComplete

/-! ### Scheme -/

def isSchemeChar (c : Char) : Bool := c.isAlphanum || c = '+' || c = '-' || c = '.'

/-- The most characters that a scheme may have; it may have none. -/
def maxScheme : Nat := 64

/-- A scheme and what follows its colon and two slashes. -/
def scheme? (s : List Char) : Option (List Char × List Char) :=
  match s.dropWhile isSchemeChar with
  | ':' :: '/' :: '/' :: rest => some (s.takeWhile isSchemeChar, rest)
  | _ => none

/-- A target that does not start at the root. -/
def absolute? (s : List Char) : Option Target :=
  match scheme? s with
  | some (scheme, rest) =>
    let inAuthority (c : Char) : Bool := c ≠ '/' && c ≠ '?' && c ≠ '#'
    if scheme.length ≤ maxScheme && isAuthority (rest.takeWhile inAuthority) then
      located? (rest.dropWhile inAuthority)
    else none
  | none => if isAuthority s then some { path := [] } else none

def parse? (uri : String) : Option Target :=
  let s := uri.toList
  if maxSize < uri.utf8ByteSize then none
  else if s = ['*'] then some { path := s }
  else if s.head? = some '/' then located? s
  else absolute? s

end Target

end EventStream.Http
