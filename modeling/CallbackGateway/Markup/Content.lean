import CallbackGateway.Markup.Reference
import CallbackGateway.Markup.Token

/-!
# Document content

Tokens are assembled into elements whose content is a list of items: elements and runs of text.
A run joins neighbouring text and sections; white space at its two ends is layout and dropped,
unless a section holds it. A run with a malformed reference has no value.
-/

namespace CallbackGateway.Markup

/-- One part of an element's content. -/
inductive Item
  /-- An element; an element that the document leaves open is not closed. -/
  | element (tag : Tag) (content : List Item) (closed : Bool)
  /-- A run of text, with no value if a reference in it is malformed. -/
  | text (value : Option (List Char))
  deriving Repr

/-- A piece of a run. -/
inductive Piece
  | text (raw : List Char)
  | cdata (raw : List Char)
  deriving DecidableEq, Repr

/-- The value of a piece. -/
def Piece.value : Piece → Option (List Char)
  | .text raw => unescape raw
  | .cdata raw => some raw

/-- Drop white space at the start of a run. -/
def trimRunStart : List Piece → List Piece
  | [] => []
  | .cdata raw :: rest => .cdata raw :: rest
  | .text raw :: rest =>
    match raw.dropWhile isSpace with
    | [] => trimRunStart rest
    | c :: tail => .text (c :: tail) :: rest

/-- Drop white space at the end of a piece of text. -/
def Piece.trimEnd : Piece → Piece
  | .text raw => .text (raw.reverse.dropWhile isSpace).reverse
  | .cdata raw => .cdata raw

/-- Drop white space at the end of the last piece of a run. -/
def trimRunEnd : List Piece → List Piece
  | [] => []
  | [last] => [last.trimEnd]
  | piece :: rest => piece :: trimRunEnd rest

/-- Join the values of pieces. -/
def joinPieces : List Piece → Option (List Char)
  | [] => some []
  | piece :: rest => do
    let first ← piece.value
    let others ← joinPieces rest
    return first ++ others

/-- The item of a run, if the run is more than layout. -/
def runItem (run : List Piece) : List Item :=
  match trimRunStart run with
  | [] => []
  | pieces => [.text (joinPieces (trimRunEnd pieces))]

/-- What an element holds while its content is collected. -/
inductive Part
  | whole (item : Item)
  | piece (piece : Piece)
  /-- Something that ends a run and is nothing itself. -/
  | boundary

/-- Join the runs among parts; the current run is given with its latest piece first. -/
def joinRuns (run : List Piece) : List Part → List Item
  | [] => runItem run.reverse
  | .whole item :: rest => runItem run.reverse ++ item :: joinRuns [] rest
  | .piece piece :: rest => joinRuns (piece :: run) rest
  | .boundary :: rest => runItem run.reverse ++ joinRuns [] rest

/-- The items of parts that were collected with the latest first. -/
def itemsOf (parts : List Part) : List Item := joinRuns [] parts.reverse

/-- An element that is still open, with the parts before it. -/
structure Opened where
  tag : Tag
  before : List Part

/-- Leave every open element open. -/
def leaveOpen : List Opened → List Part → List Item
  | [], parts => itemsOf parts
  | innermost :: outer, parts =>
    leaveOpen outer (.whole (.element innermost.tag (itemsOf parts) false) :: innermost.before)

/-- Assemble tokens inside the open elements. A closing tag that names another element ends the
document there. -/
def assembleFrom (opened : List Opened) (parts : List Part) : List Token → List Item
  | [] => leaveOpen opened parts
  | .openTag tag :: rest => assembleFrom (⟨tag, parts⟩ :: opened) [] rest
  | .emptyTag tag :: rest => assembleFrom opened (.whole (.element tag [] true) :: parts) rest
  | .closeTag name :: rest =>
    match opened with
    | [] => itemsOf parts
    | innermost :: outer =>
      if name == innermost.tag.name then
        assembleFrom outer
          (.whole (.element innermost.tag (itemsOf parts) true) :: innermost.before) rest
      else leaveOpen opened parts
  | .text raw :: rest => assembleFrom opened (.piece (.text raw) :: parts) rest
  | .cdata raw :: rest => assembleFrom opened (.piece (.cdata raw) :: parts) rest
  | .comment _ :: rest => assembleFrom opened parts rest
  | .instruction _ :: rest => assembleFrom opened parts rest
  | .doctype _ :: rest => assembleFrom opened (.boundary :: parts) rest

/-- The items of a document. -/
def assemble (tokens : List Token) : List Item := assembleFrom [] [] tokens

end CallbackGateway.Markup
