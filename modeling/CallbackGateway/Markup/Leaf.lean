import CallbackGateway.Markup.Reference
import CallbackGateway.Markup.Section

/-!
# Verbatim leaf text

Text directly after an opening tag, up to the closing tag or to a section, is leaf text: it is
turned into sections, so that the white space at its ends is kept. All other text stays as it
is, and markup is not touched.
-/

namespace CallbackGateway.Markup

/-- Whether leaf text that a token follows is kept verbatim. -/
def endsLeafText : Token → Bool
  | .closeTag _ => true
  | .cdata _ => true
  | _ => false

/-- The tokens for pending text before the next token. -/
def placePending (pending : Option (List Char)) (next : Option Token) : List Token :=
  match pending with
  | none => []
  | some text => if next.any endsLeafText then sections text else [.text (escape text)]

/-- Whether text after a token is leaf text. -/
def leafAfter (inLeaf : Bool) : Token → Bool
  | .openTag _ => true
  | .closeTag _ => false
  | .emptyTag _ => false
  | _ => inLeaf

/-- Turn the leaf text among tokens into sections; none if a reference in it is malformed. -/
def keepLeafTextFrom (inLeaf : Bool) (pending : Option (List Char)) :
    List Token → Option (List Token)
  | [] => some (placePending pending none)
  | .text raw :: rest =>
    if inLeaf then
      (unescape raw).bind fun text =>
        keepLeafTextFrom inLeaf (some (pending.getD [] ++ text)) rest
    else
      (keepLeafTextFrom inLeaf none rest).map fun others =>
        placePending pending (some (.text raw)) ++ .text raw :: others
  | token :: rest =>
    (keepLeafTextFrom (leafAfter inLeaf token) none rest).map fun others =>
      placePending pending (some token) ++ token :: others

/-- Turn the leaf text of a document into sections. -/
def keepLeafText (tokens : List Token) : Option (List Token) := keepLeafTextFrom false none tokens

/-- Drop one byte order mark in front of the first text. -/
def dropLeadingMark : List Token → List Token
  | .text raw :: rest =>
    match dropMark raw with
    | [] => rest
    | c :: tail => .text (c :: tail) :: rest
  | tokens => tokens

end CallbackGateway.Markup
