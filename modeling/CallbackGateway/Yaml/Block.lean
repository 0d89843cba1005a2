import CallbackGateway.Yaml.Character

/-!
# Block scalars

A block scalar is a header and the lines below it that are indented enough. Its lines are kept
or folded, and the header says what becomes of the line breaks at its end.
-/

namespace CallbackGateway.Yaml

/-- What becomes of the line breaks at the end. -/
inductive Chomping
  /-- All are dropped. -/
  | strip
  /-- One is kept. -/
  | clip
  /-- All are kept. -/
  | keep
  deriving DecidableEq, Repr

/-- The header of a block scalar. -/
structure BlockHeader where
  chomping : Chomping := .clip
  /-- The indentation relative to what surrounds the scalar, zero if it is not given. -/
  increment : Nat := 0

/-- The chomping that a sign asks for. -/
def chomping? (c : Char) : Option Chomping :=
  if c == '+' then some .keep else if c == '-' then some .strip else none

/-- The indentation that a digit gives; zero is none. -/
def increment? (c : Char) : Option Nat :=
  if '1' ≤ c && c ≤ '9' then some (c.toNat - 48) else none

/-- Read the signs of a header, in either order. -/
def blockHeader : List Char → BlockHeader × List Char
  | [] => ({}, [])
  | a :: rest =>
    match chomping? a, increment? a with
    | some chomping, _ =>
      match rest with
      | b :: after =>
        match increment? b with
        | some increment => (⟨chomping, increment⟩, after)
        | none => (⟨chomping, 0⟩, rest)
      | [] => (⟨chomping, 0⟩, [])
    | none, some increment =>
      match rest with
      | b :: after =>
        match chomping? b with
        | some chomping => (⟨chomping, increment⟩, after)
        | none => (⟨.clip, increment⟩, rest)
      | [] => (⟨.clip, increment⟩, [])
    | none, none => ({}, a :: rest)

/-- A block scalar that is being read. -/
structure Block where
  /-- Whether single line breaks become blanks. -/
  folded : Bool
  chomping : Chomping
  /-- The least indentation that the lines can have. -/
  least : Nat
  /-- The indentation of the lines, zero as long as it is not known. -/
  indent : Nat
  /-- The widest indentation of the lines without text. -/
  widest : Nat := 0
  /-- Whether the current line has text. -/
  inLine : Bool := false
  /-- Whether the last line with text starts with a blank. -/
  startsBlank : Bool := false
  /-- The text so far, the latest character first. -/
  latest : List Char := []
  /-- The line break after the last line with text. -/
  first : List Char := []
  /-- The line breaks after it. -/
  more : List Char := []

namespace Block

/-- The line breaks before a line that starts with a character. -/
def spacing (block : Block) (c : Char) : List Char :=
  if block.folded && block.first == ['\n'] && !block.startsBlank && !isBlank c then
    if block.more = [] then [' '] else block.more
  else block.first ++ block.more

/-- Start a line with a character. -/
def startLine (block : Block) (indent : Nat) (c : Char) : Block :=
  { block with
    indent := indent
    inLine := true
    startsBlank := isBlank c
    latest := c :: (block.spacing c).reverse ++ block.latest
    first := []
    more := [] }

/-- The text of a block scalar that has ended. -/
def text (block : Block) : List Char :=
  block.latest.reverse ++
    match block.chomping with
    | .strip => []
    | .clip => block.first
    | .keep => block.first ++ block.more

/-- The indentation of the lines, once a line has text. -/
def settledIndent (block : Block) : Nat :=
  if block.indent = 0 then max block.widest (max block.least 1) else block.indent

/-- Whether more indentation may come. -/
def isOpen (block : Block) (column : Nat) : Bool := block.indent == 0 || column < block.indent

/-- Read the lines of a block scalar. -/
def read? (block : Block) (place : Place) : List Char → Option (Block × Place × List Char)
  | [] => some (block, place, [])
  | c :: rest =>
    if block.inLine then
      if isBreak c then read? { block with inLine := false, first := [c] } place.down rest
      else read? { block with latest := c :: block.latest } (place.right 1) rest
    else if c == ' ' && block.isOpen place.column then
      read? { block with widest := max block.widest (place.column + 1) } (place.right 1) rest
    else if c == '\t' && block.isOpen place.column then none
    else if isBreak c then read? { block with more := block.more ++ [c] } place.down rest
    else if place.column = block.settledIndent then
      read? (block.startLine block.settledIndent c) (place.right 1) rest
    else some (block, place, c :: rest)

end Block

end CallbackGateway.Yaml
