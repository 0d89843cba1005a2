import CallbackGateway.Text.Utf8

/-!
# Requests and responses

One request is answered by one response. Of the headers only the content type matters.
-/

namespace CallbackGateway.Http

/-- A request. -/
structure Request where
  method : String
  target : List Char
  headers : List (String × String)
  body : Bytes
  deriving DecidableEq, Repr

/-- A response. -/
structure Response where
  status : Nat
  contentType : Option String
  body : Bytes
  deriving DecidableEq, Repr

/-- A character that may be read in the value of a header. -/
def isHeaderChar (c : Char) : Bool := c == '\t' || (' ' ≤ c && c ≤ '~')

/-- The content type of a request, if it has one that can be read. -/
def Request.contentType (request : Request) : Option String :=
  (List.lookup "content-type"
    (request.headers.map fun (name, value) => (name.map Char.toLower, value))).filter
      fun value => value.toList.all isHeaderChar

/-- A text as a response. -/
def Response.text (status : Nat) (contentType text : String) : Response :=
  ⟨status, some contentType, Text.Utf8.encodeString text⟩

/-- A response without a body. -/
def Response.blank (status : Nat) : Response := ⟨status, none, []⟩

end CallbackGateway.Http
