import CallbackGateway.Markup.Section

/-!
# Writing markup

Tokens are written one after another; what is written for a list of tokens is the concatenation
of what is written for each.
-/

namespace CallbackGateway.Markup

/-- The written form of a token. -/
def Token.write : Token → List Char
  | .openTag tag => '<' :: tag.name ++ tag.attributes ++ ['>']
  | .emptyTag tag => '<' :: tag.name ++ tag.attributes ++ ['/', '>']
  | .closeTag name => '<' :: '/' :: name ++ ['>']
  | .text raw => raw
  | .cdata raw => writeSection raw
  | .comment body => "<!--".toList ++ body ++ "-->".toList
  | .instruction body => "<?".toList ++ body ++ "?>".toList
  | .doctype body => "<!DOCTYPE ".toList ++ body ++ ['>']

/-- The written form of a list of tokens. -/
def write (tokens : List Token) : List Char := tokens.flatMap Token.write

/-- The tokens of an element without attributes. -/
def element (name : String) (content : List Token) : List Token :=
  .openTag ⟨name.toList, []⟩ :: content ++ [.closeTag name.toList]

/-- Tokens are written one after another. -/
@[simp] theorem write_append (left right : List Token) :
    write (left ++ right) = write left ++ write right := List.flatMap_append

end CallbackGateway.Markup
