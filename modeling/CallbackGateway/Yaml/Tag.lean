import CallbackGateway.Text.Hex
import CallbackGateway.Yaml.Character
import CallbackGateway.Yaml.Token

/-!
# Tags, directives and names

A tag is written with a handle and a suffix, or verbatim between angle brackets. A directive
stands in front of a document: it states the version, or what a handle stands for.
-/

namespace CallbackGateway.Yaml

/-- A character of a tag besides those of names. -/
def isTagPunctuation (verbatim : Bool) (c : Char) : Bool :=
  [';', '/', '?', ':', '@', '&', '=', '+', '$', '.', '!', '~', '*', '\'', '(', ')'].contains c ||
    (verbatim && [',', '[', ']'].contains c)

/-- The number of bytes that follow the first byte of a character. -/
def tailLength? (b : UInt8) : Option Nat :=
  if b < 0x80 then some 0
  else if b < 0xC0 then none
  else if b < 0xE0 then some 1
  else if b < 0xF0 then some 2
  else if b < 0xF8 then some 3
  else none

/-- The number of escaped bytes that still have to come after one of them. -/
def missingAfter? (missing : Nat) (b : UInt8) : Option Nat :=
  if missing = 0 then tailLength? b
  else if Text.Utf8.isTail b then some (missing - 1)
  else none

/-- The byte of two hexadecimal digits. -/
def escapedByte? (high low : Char) : Option UInt8 := do
  let h ← Text.Hex.value? high
  let l ← Text.Hex.value? low
  return UInt8.ofNat (h * 16 + l)

/-- The characters of a tag as bytes, and what follows them. -/
def tagBytes? (verbatim : Bool) (missing : Nat) : List Char → Option (Bytes × List Char)
  | '%' :: high :: low :: rest => do
    let b ← escapedByte? high low
    let (bytes, after) ← tagBytes? verbatim (← missingAfter? missing b) rest
    return (b :: bytes, after)
  | c :: rest =>
    if missing ≠ 0 || c == '%' then none
    else if isNameChar c || isTagPunctuation verbatim c then
      (tagBytes? verbatim 0 rest).map fun (bytes, after) => (UInt8.ofNat c.toNat :: bytes, after)
    else some ([], c :: rest)
  | [] => if missing = 0 then some ([], []) else none

/-- Leave out what has nothing in front of its rest. -/
def nonEmpty? (read : Bytes × List Char) : Option (Bytes × List Char) :=
  if read.1.isEmpty then none else some read

/-- The handle after an exclamation mark: a name between two marks. -/
def namedHandle? (text : List Char) : Option (List Char × List Char) :=
  let name := text.takeWhile isNameChar
  match text.dropWhile isNameChar with
  | '!' :: rest => some ('!' :: name ++ ['!'], rest)
  | _ => none

/-- The tag after an exclamation mark that stands in front of it. -/
def tagAfterMark? (text : List Char) : Option (Token × List Char) :=
  match text with
  | '<' :: verbatim => do
    let (bytes, after) ← (tagBytes? true 0 verbatim).bind nonEmpty?
    match after with
    | '>' :: rest => some (.tag [] bytes, rest)
    | _ => none
  | _ =>
    match namedHandle? text with
    | some (handle, rest) => do
      let (bytes, after) ← (tagBytes? false 0 rest).bind nonEmpty?
      return (.tag handle bytes, after)
    | none => do
      let (bytes, after) ← tagBytes? false 0 text
      return (if bytes.isEmpty then .tag [] [0x21] else .tag ['!'] bytes, after)

/-- The tag after an exclamation mark; inside brackets a comma may end it. -/
def tag? (flow : Bool) (text : List Char) : Option (Token × List Char) :=
  (tagAfterMark? text).bind fun (tag, rest) =>
    if endsWord rest || (flow && rest.head? == some ',') then some (tag, rest) else none

/-- The name of an anchor, and what follows it. -/
def anchorName? (text : List Char) : Option (List Char × List Char) :=
  let name := text.takeWhile isNameChar
  let rest := text.dropWhile isNameChar
  let marks := ['?', ':', ',', ']', '\x7d', '%', '@', '\x60']
  if !name.isEmpty && (endsWord rest || rest.head?.any marks.contains) then some (name, rest)
  else none

/-- A part of a version, of at most nine digits. -/
def versionPart? (text : List Char) : Option (Nat × List Char) :=
  let digits := text.takeWhile Char.isDigit
  if digits.isEmpty || 9 < digits.length then none
  else some (Nat.ofDigitChars 10 digits 0, text.dropWhile Char.isDigit)

/-- The version that a directive states. -/
def version? (text : List Char) : Option (Token × List Char) := do
  let (major, rest) ← versionPart? (text.dropWhile isBlank)
  match rest with
  | '.' :: rest =>
    let (minor, rest) ← versionPart? rest
    return (.version major minor, rest)
  | _ => none

/-- The handle that a directive explains. -/
def handle? (text : List Char) : Option (List Char × List Char) :=
  match text with
  | '!' :: rest => (namedHandle? rest).or <|
    if rest.head?.any isNameChar then none else some (['!'], rest)
  | _ => none

/-- A handle and what it stands for. -/
def tagHandle? (text : List Char) : Option (Token × List Char) := do
  let (handle, rest) ← handle? (text.dropWhile isBlank)
  if rest.head?.any isBlank then
    let (start, rest) ← (tagBytes? true 0 (rest.dropWhile isBlank)).bind nonEmpty?
    if endsWord rest then return (.tagHandle handle start, rest) else none
  else none

/-- A directive with a name. -/
def directiveNamed? (name : List Char) (text : List Char) : Option (Token × List Char) :=
  if name = ['Y', 'A', 'M', 'L'] then version? text
  else if name = ['T', 'A', 'G'] then tagHandle? text
  else none

/-- Skip a comment up to the end of its line. -/
def skipComment : List Char → List Char
  | '#' :: rest => rest.dropWhile (!isBreak ·)
  | text => text

/-- What is left of a line that may end in blanks and a comment only. -/
def lineEnd? (text : List Char) : Option (List Char) :=
  let rest := skipComment (text.dropWhile isBlank)
  if endsLine rest then some rest else none

/-- The directive after a percent sign, and the end of its line. -/
def directive? (text : List Char) : Option (Token × List Char) := do
  let rest := text.dropWhile isNameChar
  if endsWord rest then
    let (directive, rest) ← directiveNamed? (text.takeWhile isNameChar) rest
    return (directive, ← lineEnd? rest)
  else none

end CallbackGateway.Yaml
