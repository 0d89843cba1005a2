import CallbackGateway.Yaml.Fold

/-!
# Plain scalars

A scalar without quotation marks ends at a comment, at a colon that ends a word, at a mark
between documents and, outside brackets, at a line that is not indented enough; inside brackets
also at punctuation.
-/

namespace CallbackGateway.Yaml

/-- A character that ends a plain scalar inside brackets. -/
def isFlowEnd (c : Char) : Bool := c == ',' || c == '[' || c == ']' || c == '\x7b' || c == '\x7d'

/-- Whether a colon may not stand here inside brackets. -/
def isBadColon (c : Char) (rest : List Char) : Bool :=
  c == ':' && rest.head?.any fun next => isFlowEnd next || next == '?'

/-- Whether a plain scalar that continues after white space ends before a character. -/
def plainStops (flow : Bool) (indent : Int) (place : Place) (text : List Char) : Bool :=
  (!flow && (place.column : Int) < indent) || (place.column == 0 && isDocumentMark text) ||
    text.head? == some '#'

/-- Whether a plain scalar ends before a character in any case. -/
def plainEnds (flow : Bool) (c : Char) (rest : List Char) : Bool :=
  (c == ':' && endsWord rest) || (flow && isFlowEnd c)

/-- What was read of a text: the white space that was held back, and where reading stopped. -/
structure FoldEnd where
  fold : Fold
  place : Place
  rest : List Char

/-- Read the rest of a plain scalar. -/
def plain? (flow : Bool) (indent : Int) (fold : Fold) (place : Place) :
    List Char → Option FoldEnd
  | [] => some ⟨fold, place, []⟩
  | c :: rest =>
    if isBlank c then
      if fold.broken && c == '\t' && (place.column : Int) < indent then none
      else plain? flow indent (fold.blank c) (place.right 1) rest
    else if isBreak c then plain? flow indent (fold.lineBreak c) place.down rest
    else if fold.isPending && plainStops flow indent place (c :: rest) then
      some ⟨fold, place, c :: rest⟩
    else if flow && isBadColon c rest then none
    else if plainEnds flow c rest then some ⟨fold, place, c :: rest⟩
    else plain? flow indent (fold.push c) (place.right 1) rest

end CallbackGateway.Yaml
