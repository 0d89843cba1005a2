import CallbackGateway.GatewayError
import CallbackGateway.Json.Value
import CallbackGateway.Record.FromMarkup

/-!
# Wrappers of sealed pushes

A sealed push names the receiving account and holds a ciphertext. In JSON, members that are not
used are skipped without a look at what they say.
-/

namespace CallbackGateway.Envelope

open Record

/-- What a sealed push holds. -/
structure Wrapper where
  toUser : String
  ciphertext : String
  deriving DecidableEq, Repr

/-- The fields of a wrapper. -/
def schema : Schema := [("ToUserName", .text), ("Encrypt", .text)]

/-- The fields in a markup text; what follows the root does not count. -/
def fieldsOfMarkup (text : List Char) : Except RecordError Fields :=
  ofItems schema (Markup.assemble (Markup.scan (Markup.dropMark text)).tokens)

/-- The text of a tree that is a string. -/
def stringOf? : Json.Tree → Option String
  | .string quoted => Json.quotedText? quoted
  | _ => none

/-- The fields among members, after those that were found. -/
def fieldsOfMembers? (found : Fields) : List (Json.Quoted × Json.Tree) → Option Fields
  | [] => some found
  | (key, tree) :: rest =>
    (Json.quotedText? key).bind fun name =>
      if (List.lookup name schema).isSome then
        if found.has name then none
        else
          (stringOf? tree).bind fun text =>
            fieldsOfMembers? (found ++ [(name, .text text)]) rest
      else fieldsOfMembers? found rest

/-- The fields of items in the order of the schema. -/
def fieldsOfItems? : List String → List Json.Tree → Option Fields
  | _, [] => some []
  | [], _ :: _ => none
  | name :: others, tree :: rest => do
    let text ← stringOf? tree
    let fields ← fieldsOfItems? others rest
    return (name, .text text) :: fields

/-- The fields of a tree. -/
def fieldsOfTree? : Json.Tree → Option Fields
  | .object members => fieldsOfMembers? [] members
  | .array items => fieldsOfItems? (schema.map Prod.fst) items
  | _ => none

/-- The fields in a body. -/
def fieldsOf (format : WireFormat) (body : Bytes) : Except DecodeError Fields :=
  match format with
  | .xml =>
    match Text.Utf8.decode body with
    | .ok text => (fieldsOfMarkup text).mapError fun _ => .wrapper .xml
    | .error defect => .error (.notText defect)
  | .json =>
    match (Json.Tree.read? body).bind fieldsOfTree? with
    | some fields => .ok fields
    | none => .error (.wrapper .json)

/-- The wrapper in a body; its ciphertext must not be blank. -/
def Wrapper.decode (format : WireFormat) (body : Bytes) : Except DecodeError Wrapper := do
  let fields ← fieldsOf format body
  let wrapper : Wrapper := ⟨fields.text "ToUserName", fields.text "Encrypt"⟩
  if Text.trim wrapper.ciphertext.toList = [] then throw .noCiphertext
  return wrapper

end CallbackGateway.Envelope
