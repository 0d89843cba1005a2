/-!
# Wire formats

A conversation is held in XML unless the request says JSON.
-/

namespace CallbackGateway

/-- The grammar of a body. -/
inductive WireFormat
  | xml
  | json
  deriving DecidableEq, Repr, Inhabited

namespace WireFormat

/-- The name of a format. -/
def name : WireFormat → String
  | .xml => "xml"
  | .json => "json"

/-- Whether a text occurs in another. -/
def occursIn (sought : List Char) : List Char → Bool
  | [] => sought.isEmpty
  | c :: rest => sought.isPrefixOf (c :: rest) || occursIn sought rest

/-- The format that a content type asks for: JSON if it names it in any letter case. -/
def ofContentType (contentType : Option String) : WireFormat :=
  match contentType with
  | some text =>
    if occursIn ['j', 's', 'o', 'n'] (text.toList.map Char.toLower) then .json else .xml
  | none => .xml

/-- The content type of replies in a format. -/
def contentType : WireFormat → String
  | .xml => "text/xml; charset=utf-8"
  | .json => "application/json; charset=utf-8"

end WireFormat

end CallbackGateway
