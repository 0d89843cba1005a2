import CallbackGateway.Yaml.Block
import CallbackGateway.Yaml.Plain
import CallbackGateway.Yaml.Quoted
import CallbackGateway.Yaml.Tag

/-!
# Reading tokens

A reader moves over a text, keeps the indentation of the open sequences and mappings, and
remembers where a key may have started, since a colon shows only later that it was one. Inside
brackets indentation does not count.
-/

namespace CallbackGateway.Yaml

/-- Where a key may have started. -/
structure KeyMark where
  /-- Whether nothing but a key can stand there. -/
  required : Bool
  /-- The number of tokens before it. -/
  number : Nat
  place : Place

/-- The most characters between the start of a key and its colon. -/
def keyReach : Nat := 1024

/-- Whether a place is too far from the start of a key for its colon. -/
def KeyMark.isPassed (mark : KeyMark) (place : Place) : Bool :=
  mark.place.line < place.line || mark.place.column + keyReach < place.column

/-- A reader of tokens. -/
structure Lexer where
  rest : List Char
  place : Place := ⟨0, 0⟩
  /-- Where a key may have started inside the innermost brackets. -/
  mark : Option KeyMark := none
  /-- Where keys may have started around each open bracket. -/
  outer : List (Option KeyMark) := []
  /-- The columns of the open sequences and mappings, the innermost first. -/
  columns : List Nat := []
  /-- Whether a key may start here. -/
  keyAllowed : Bool := true
  /-- The number of tokens so far. -/
  count : Nat := 0
  /-- The tokens so far, the latest first. -/
  latest : List Token := []

/-- Skip white space and comments, and say whether a key may start after them. -/
def skipLayout (flow comment keyAllowed : Bool) (place : Place) :
    List Char → Bool × Place × List Char
  | [] => (keyAllowed, place, [])
  | c :: rest =>
    if isBreak c then skipLayout flow false (keyAllowed || !flow) place.down rest
    else if comment || c == ' ' || (c == '\t' && (flow || !keyAllowed)) ||
        (c == byteOrderMark && place.column == 0) then
      skipLayout flow comment keyAllowed (place.right 1) rest
    else if c == '#' then skipLayout flow true keyAllowed (place.right 1) rest
    else (keyAllowed, place, c :: rest)

namespace Lexer

/-- Whether a bracket is open. -/
def inFlow (lexer : Lexer) : Bool := !lexer.outer.isEmpty

/-- The column of the innermost sequence or mapping, below zero if there is none. -/
def indent (lexer : Lexer) : Int := (lexer.columns.head?.map Int.ofNat).getD (-1)

/-- Put a token behind a number of others. -/
def insert (lexer : Lexer) (number : Nat) (token : Token) : Lexer :=
  let after := lexer.count - number
  { lexer with
    count := lexer.count + 1
    latest := lexer.latest.take after ++ token :: lexer.latest.drop after }

/-- Put a token behind all others. -/
def push (lexer : Lexer) (token : Token) : Lexer :=
  { lexer with count := lexer.count + 1, latest := token :: lexer.latest }

/-- Move over some characters of one line. -/
def advance (lexer : Lexer) (count : Nat) : Lexer :=
  { lexer with rest := lexer.rest.drop count, place := lexer.place.right count }

/-- Move to what is left of the line. -/
def moveTo (lexer : Lexer) (rest : List Char) : Lexer :=
  { lexer with rest := rest, place := lexer.place.right (lexer.rest.length - rest.length) }

/-- Say whether a key may start here. -/
def allowKey (lexer : Lexer) (allowed : Bool) : Lexer := { lexer with keyAllowed := allowed }

/-- Open a sequence or mapping at a column that is further in. -/
def openBlock (lexer : Lexer) (column number : Nat) (token : Token) : Lexer :=
  if lexer.inFlow || (column : Int) ≤ lexer.indent then lexer
  else { lexer.insert number token with columns := column :: lexer.columns }

/-- Close the sequences and mappings that are further in than a column. -/
def closeBlocks (lexer : Lexer) (column : Int) : Lexer :=
  if lexer.inFlow then lexer
  else
    let closed := (lexer.columns.takeWhile fun inner : Nat => column < (inner : Int)).length
    { lexer with
      columns := lexer.columns.drop closed
      count := lexer.count + closed
      latest := List.replicate closed .blockEnd ++ lexer.latest }

/-- Close all sequences and mappings. -/
def closeAll (lexer : Lexer) : Lexer := lexer.closeBlocks (-1)

/-- Give up the key that may have started; it must not be required. -/
def dropMark? (lexer : Lexer) : Option Lexer :=
  if lexer.mark.any (·.required) then none else some { lexer with mark := none }

/-- Note that a key may start here. -/
def setMark? (lexer : Lexer) : Option Lexer :=
  if lexer.keyAllowed then
    let required := !lexer.inFlow && lexer.indent == lexer.place.column
    lexer.dropMark?.map fun cleared =>
      { cleared with mark := some ⟨required, lexer.count, lexer.place⟩ }
  else some lexer

/-- Whether a key that is required did not come. -/
def missesKey (lexer : Lexer) : Bool :=
  (lexer.mark :: lexer.outer).any (·.any fun mark => mark.required && mark.isPassed lexer.place)

/-- Give up the keys that are too far away. -/
def dropPassed? (lexer : Lexer) : Option Lexer :=
  let keep := Option.filter fun mark : KeyMark => !mark.isPassed lexer.place
  if lexer.missesKey then none
  else some { lexer with mark := keep lexer.mark, outer := lexer.outer.map keep }

/-- Move to the next token. -/
def settle? (lexer : Lexer) : Option Lexer :=
  let (keyAllowed, place, rest) :=
    skipLayout lexer.inFlow false lexer.keyAllowed lexer.place lexer.rest
  let moved := { lexer with keyAllowed := keyAllowed, place := place, rest := rest }
  moved.dropPassed?.map (·.closeBlocks place.column)

/-- Read a directive. -/
def directive? (lexer : Lexer) (text : List Char) : Option Lexer := do
  let closed ← lexer.closeAll.dropMark?
  let (token, rest) ← Yaml.directive? text
  return ((closed.allowKey false).push token).moveTo rest

/-- Read a mark between documents. -/
def documentMark? (lexer : Lexer) (token : Token) : Option Lexer :=
  lexer.closeAll.dropMark?.map fun closed => ((closed.allowKey false).push token).advance 3

/-- Read an opening bracket. -/
def openFlow? (lexer : Lexer) (token : Token) : Option Lexer :=
  lexer.setMark?.map fun marked =>
    let inner := { marked with mark := none, outer := marked.mark :: marked.outer }
    ((inner.allowKey true).push token).advance 1

/-- Read a closing bracket. -/
def closeFlow? (lexer : Lexer) (token : Token) : Option Lexer :=
  lexer.dropMark?.map fun cleared =>
    let inner := { cleared with mark := cleared.outer.head?.join, outer := cleared.outer.tail }
    ((inner.allowKey false).push token).advance 1

/-- Read a comma. -/
def flowEntry? (lexer : Lexer) : Option Lexer :=
  lexer.dropMark?.map fun cleared => ((cleared.allowKey true).push .flowEntry).advance 1

/-- Start a sequence or mapping here, unless one has started. -/
def startBlock? (lexer : Lexer) (token : Token) : Option Lexer :=
  if lexer.inFlow || lexer.keyAllowed then
    some (lexer.openBlock lexer.place.column lexer.count token)
  else none

/-- Read the mark of an entry. -/
def blockEntry? (lexer : Lexer) : Option Lexer := do
  let started ← lexer.startBlock? .blockSequenceStart
  let cleared ← started.dropMark?
  return ((cleared.allowKey true).push .blockEntry).advance 1

/-- Read the mark of a key. -/
def key? (lexer : Lexer) : Option Lexer := do
  let started ← lexer.startBlock? .blockMappingStart
  let cleared ← started.dropMark?
  return ((cleared.allowKey !lexer.inFlow).push .key).advance 1

/-- Read the mark of a value. -/
def value? (lexer : Lexer) : Option Lexer :=
  match lexer.mark with
  | some mark =>
    let keyed := (lexer.insert mark.number .key).openBlock mark.place.column mark.number
      .blockMappingStart
    some ((({ keyed with mark := none }.allowKey false).push .value).advance 1)
  | none => (lexer.startBlock? .blockMappingStart).map fun started =>
    ((started.allowKey !lexer.inFlow).push .value).advance 1

/-- Read an anchor or an alias. -/
def anchor? (lexer : Lexer) (token : List Char → Token) (text : List Char) : Option Lexer := do
  let marked ← lexer.setMark?
  let (name, rest) ← anchorName? text
  return ((marked.allowKey false).push (token name)).moveTo rest

/-- Read a tag. -/
def tag? (lexer : Lexer) (text : List Char) : Option Lexer := do
  let marked ← lexer.setMark?
  let (token, rest) ← Yaml.tag? lexer.inFlow text
  return ((marked.allowKey false).push token).moveTo rest

/-- The indentation that the header of a block scalar asks for, zero if it asks for none. -/
def blockIndent (lexer : Lexer) (header : BlockHeader) : Nat :=
  if header.increment = 0 then 0 else header.increment + (max lexer.indent 0).toNat

/-- Read a block scalar. -/
def block? (lexer : Lexer) (folded : Bool) (text : List Char) : Option Lexer := do
  let cleared ← lexer.dropMark?
  let (header, afterHeader) := blockHeader text
  let rest ← lineEnd? afterHeader
  let least := (lexer.indent + 1).toNat
  let start : Block :=
    { folded := folded, chomping := header.chomping, least := least
      indent := lexer.blockIndent header }
  let (block, place, rest) ← start.read? lexer.place.down (rest.drop 1)
  let style := if folded then ScalarStyle.folded else .literal
  let pushed := (cleared.allowKey true).push (.scalar style block.text)
  return { pushed with place := place, rest := rest }

/-- Take a quoted scalar. -/
def quoted? (lexer : Lexer) (style : ScalarStyle) (scalar : Option QuotedEnd) : Option Lexer := do
  let marked ← lexer.setMark?
  let ⟨text, place, rest⟩ ← scalar
  let pushed := (marked.allowKey false).push (.scalar style text)
  return { pushed with place := place, rest := rest }

/-- Read a plain scalar. -/
def plain? (lexer : Lexer) : Option Lexer := do
  let marked ← lexer.setMark?
  let ⟨fold, place, rest⟩ ←
    Yaml.plain? lexer.inFlow (lexer.indent + 1) {} lexer.place lexer.rest
  let pushed := (marked.allowKey fold.broken).push (.scalar .plain fold.text)
  return { pushed with place := place, rest := rest }

/-- Read a token that starts with a character. -/
def tokenOf? (lexer : Lexer) (c : Char) (after : List Char) : Option Lexer :=
  match c with
  | '[' => lexer.openFlow? .flowSequenceStart
  | '\x7b' => lexer.openFlow? .flowMappingStart
  | ']' => lexer.closeFlow? .flowSequenceEnd
  | '\x7d' => lexer.closeFlow? .flowMappingEnd
  | ',' => lexer.flowEntry?
  | '*' => lexer.anchor? .alias after
  | '&' => lexer.anchor? .anchor after
  | '!' => lexer.tag? after
  | '|' => if lexer.inFlow then none else lexer.block? false after
  | '>' => if lexer.inFlow then none else lexer.block? true after
  | '\'' => lexer.quoted? .singleQuoted (singleQuoted? {} (lexer.place.right 1) after)
  | '"' => lexer.quoted? .doubleQuoted (doubleQuoted? none {} (lexer.place.right 1) after)
  | '#' | '%' | '@' | '\x60' => none
  | _ => if isBlank c then none else lexer.plain?

/-- Read the next token. -/
def token? (lexer : Lexer) (c : Char) (after : List Char) : Option Lexer :=
  let atStart := lexer.place.column == 0
  if atStart && c == '%' then lexer.directive? after
  else if atStart && isDocumentMark lexer.rest then
    lexer.documentMark? (if c == '-' then .documentStart else .documentEnd)
  else if c == '-' && endsWord after then lexer.blockEntry?
  else if c == '?' && (lexer.inFlow || endsWord after) then lexer.key?
  else if c == ':' && (lexer.inFlow || endsWord after) then lexer.value?
  else lexer.tokenOf? c after

/-- Read tokens up to the end, at most a number of them. -/
def run? : Nat → Lexer → Option (List Token)
  | 0, _ => none
  | fuel + 1, lexer => do
    let settled ← lexer.settle?
    match settled.rest with
    | [] => settled.closeAll.dropMark?.map (·.latest.reverse)
    | c :: after => run? fuel (← settled.token? c after)

end Lexer

/-- The tokens of a text. -/
def tokens? (text : List Char) : Option (List Token) :=
  if text.all isAllowed then
    let rest := oneBreak text
    Lexer.run? (rest.length + 1) { rest := rest }
  else none

end CallbackGateway.Yaml
