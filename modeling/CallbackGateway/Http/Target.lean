import CallbackGateway.Text.Utf8

/-!
# Request targets

A target is a path with an optional query, an absolute address, an authority alone, or an
asterisk. A fragment is dropped. Only the path and the query matter here, but an authority that
is not well formed makes the whole target invalid.
-/

namespace CallbackGateway.Http

/-- What a target asks for. -/
structure Target where
  path : List Char
  /-- What follows the question mark, if there is one. -/
  query : Option (List Char)
  deriving DecidableEq, Repr

namespace Target

/-- Whether a character may stand in a path. -/
def isPathChar (c : Char) : Bool :=
  let n := c.toNat
  n == 0x21 || n == 0x22 || (0x24 ≤ n && n ≤ 0x3B) || n == 0x3D || (0x40 ≤ n && n ≤ 0x5F) ||
    (0x61 ≤ n && n ≤ 0x7F) || 0x80 ≤ n

/-- Whether a character may stand in a query. -/
def isQueryChar (c : Char) : Bool :=
  let n := c.toNat
  n == 0x21 || (0x24 ≤ n && n ≤ 0x3B) || n == 0x3D || 0x3F ≤ n

/-- Split at the first of some characters; it belongs to the second part. -/
def breakAtAny (marks text : List Char) : List Char × List Char :=
  (text.takeWhile (!marks.contains ·), text.dropWhile (!marks.contains ·))

/-- A path with an optional query. -/
def ofPath? (text : List Char) : Option Target :=
  let (path, rest) := breakAtAny ['?', '#'] text
  let query : Option (List Char) :=
    match rest with
    | '?' :: tail => some (breakAtAny ['#'] tail).1
    | _ => none
  if path.all isPathChar && query.all (·.all isQueryChar) then
    some ⟨if path = [] then ['/'] else path, query⟩
  else none

/-- What was seen of an authority. -/
structure Authority where
  /-- The colons that could precede a port. -/
  colons : Nat := 0
  opened : Bool := false
  closed : Bool := false
  percent : Bool := false
  /-- Whether the latest character is an at sign. -/
  atEnd : Bool := false

/-- Whether a character may stand in an authority by itself. -/
def isAuthorityChar (c : Char) : Bool :=
  c.isAlphanum || "!$&'()*+,-.;=_~".toList.contains c

/-- Take one more character of an authority. -/
def Authority.step (seen : Authority) (c : Char) : Option Authority :=
  let seen := { seen with atEnd := false }
  if c = ':' then
    if 8 ≤ seen.colons then none else some { seen with colons := seen.colons + 1 }
  else if c = '[' then
    if seen.percent || seen.opened then none else some { seen with opened := true }
  else if c = ']' then
    if !seen.opened || seen.closed then none
    else some { seen with closed := true, colons := 0, percent := false }
  else if c = '@' then some { seen with colons := 0, percent := false, atEnd := true }
  else if c = '%' then some { seen with percent := true }
  else if isAuthorityChar c then some seen
  else none

/-- Whether an authority may end here. -/
def Authority.isComplete (seen : Authority) : Bool :=
  seen.opened == seen.closed && seen.colons ≤ 1 && !seen.atEnd && !seen.percent

/-- Whether a text is an authority. -/
def isAuthority (text : List Char) : Bool :=
  match text.foldlM Authority.step {} with
  | some seen => seen.isComplete
  | none => false

/-- Whether a character may stand in a scheme. -/
def isSchemeChar (c : Char) : Bool := c.isAlphanum || c == '+' || c == '-' || c == '.' || c == '~'

/-- What follows the scheme of an absolute address, with the length of the scheme. -/
def afterScheme? (text : List Char) : Option (Nat × List Char) :=
  match text.dropWhile isSchemeChar with
  | ':' :: '/' :: '/' :: rest => some ((text.takeWhile isSchemeChar).length, rest)
  | _ => none

/-- The longest scheme. -/
def longestScheme : Nat := 64

/-- An absolute address or an authority. -/
def ofAddress? (text : List Char) : Option Target :=
  match afterScheme? text with
  | some (length, rest) =>
    let (authority, path) := breakAtAny ['/', '?', '#'] rest
    if length ≤ longestScheme && authority ≠ [] && isAuthority authority then ofPath? path
    else none
  | none => if isAuthority text then some ⟨[], none⟩ else none

/-- The most bytes that a target can have. -/
def longest : Nat := 65534

/-- Read a target. -/
def parse? (text : List Char) : Option Target :=
  if longest < (Text.Utf8.encode text).length then none
  else
    match text with
    | [] => none
    | ['*'] => some ⟨['*'], none⟩
    | '/' :: rest => ofPath? ('/' :: rest)
    | text => ofAddress? text

end Target

end CallbackGateway.Http
