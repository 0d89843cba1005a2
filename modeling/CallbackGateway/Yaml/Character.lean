/-!
# Characters of a document

Which characters a document may hold, and which of them are blanks, line breaks and letters of
names. The usual line breaks are all read as one; two separators of lines and paragraphs stay
what they are.
-/

namespace CallbackGateway.Yaml

/-- A character that a document may hold. -/
def isAllowed (c : Char) : Bool :=
  let n := c.toNat
  n == 9 || n == 10 || n == 13 || (0x20 ≤ n && n ≤ 0x7E) || n == 0x85 ||
    (0xA0 ≤ n && n ≤ 0xFFFD) || 0x10000 ≤ n

/-- A line break, after the usual ones have been made one. -/
def isBreak (c : Char) : Bool := c == '\n' || c == '\u2028' || c == '\u2029'

/-- A blank within a line. -/
def isBlank (c : Char) : Bool := c == ' ' || c == '\t'

/-- A character of a name. -/
def isNameChar (c : Char) : Bool := c.isAlphanum || c == '_' || c == '-'

/-- Whether a blank, a line break or the end comes next. -/
def endsWord : List Char → Bool
  | [] => true
  | c :: _ => isBlank c || isBreak c

/-- Whether a line break or the end comes next. -/
def endsLine : List Char → Bool
  | [] => true
  | c :: _ => isBreak c

/-- The mark of the byte order, which may stand at the start of a line. -/
def byteOrderMark : Char := '\uFEFF'

/-- Make the usual line breaks one. -/
def oneBreak : List Char → List Char
  | [] => []
  | '\r' :: '\n' :: rest => '\n' :: oneBreak rest
  | c :: rest => (if c == '\r' || c == '\u0085' then '\n' else c) :: oneBreak rest

/-- Whether a line starts with one of the two marks between documents. -/
def isDocumentMark (text : List Char) : Bool :=
  let mark := text.take 3
  (mark == ['-', '-', '-'] || mark == ['.', '.', '.']) && endsWord (text.drop 3)

/-- A position in a text. -/
structure Place where
  line : Nat
  column : Nat
  deriving DecidableEq, Repr

/-- The position after some characters of one line. -/
def Place.right (place : Place) (count : Nat) : Place := ⟨place.line, place.column + count⟩

/-- The position after a line break. -/
def Place.down (place : Place) : Place := ⟨place.line + 1, 0⟩

end CallbackGateway.Yaml
