import CallbackGateway.Binary64.Shortest
import CallbackGateway.Markup.Writer
import CallbackGateway.Record.Schema

/-!
# Writing records as markup

Every field is an element of its name, a repeated field one element for each item. Texts are
written as sections, so that no character of a text is ever read as markup; numbers are plain.
-/

namespace CallbackGateway.Record

open Markup Text

mutual

/-- The tokens of a field. -/
def fieldTokens (name : String) : Value → List Token
  | .text content => element name (sections content.toList)
  | .integer n => element name [.text (decimal n).toList]
  | .real x => element name [.text (Binary64.render x)]
  | .blank => element name []
  | .record fields => element name (fieldsTokens fields)
  | .records items => itemsTokens name items
termination_by structural value => value

/-- The tokens of the items of a repeated field. -/
def itemsTokens (name : String) : List (List (String × Value)) → List Token
  | [] => []
  | item :: rest => element name (fieldsTokens item) ++ itemsTokens name rest
termination_by structural items => items

/-- The tokens of the fields of a record, in their order. -/
def fieldsTokens : List (String × Value) → List Token
  | [] => []
  | field :: rest => namedTokens field ++ fieldsTokens rest
termination_by structural fields => fields

/-- The tokens of a field with its name. -/
def namedTokens : String × Value → List Token
  | (name, value) => fieldTokens name value
termination_by structural field => field

end

/-- A record as a document with a root of the given name. -/
def Fields.toMarkup (root : String) (fields : Fields) : List Char :=
  write (element root (fieldsTokens fields))

end CallbackGateway.Record
