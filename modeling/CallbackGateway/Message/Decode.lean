import CallbackGateway.GatewayError
import CallbackGateway.Markup.Leaf
import CallbackGateway.Message.OfFields
import CallbackGateway.Message.Schema
import CallbackGateway.Record.FromJson
import CallbackGateway.Record.FromMarkup

/-!
# Reading callbacks

A plain body is read as one record, in either format, and folded into a message. In markup the
text of a leaf is kept verbatim; in JSON a sole popup group or decision may stand without its
array.
-/

namespace CallbackGateway.Message

open Record

/-- The record in a markup text; the whole text must be readable. -/
def fieldsOfMarkup (text : List Char) : Except RecordError Fields :=
  let scan := Markup.scan (Markup.dropMark text)
  if scan.complete && Markup.namesMatch [] scan.tokens then
    match Markup.keepLeafText scan.tokens with
    | some tokens => ofItems schema (Markup.assemble (Markup.dropLeadingMark tokens))
    | none => .error .malformed
  else .error .malformed

/-- An object as the only item of an array. -/
def enlist : Json.Value → Json.Value
  | .object members => .array [.object members]
  | value => value

/-- Change one member of an object. -/
def updateMember (key : String) (update : Json.Value → Json.Value) : Json.Value → Json.Value
  | .object members =>
    .object (members.map fun (name, value) => (name, if name = key then update value else value))
  | value => value

/-- Give the decisions of a popup their arrays. -/
def enlistPopups : Json.Value → Json.Value :=
  updateMember "SubscribeMsgPopupEvent" fun popup =>
    match enlist popup with
    | .array groups => .array (groups.map (updateMember "List" enlist))
    | other => other

/-- The record in a JSON document. -/
def fieldsOfJson (bytes : Bytes) : Except DecodeError Fields :=
  match Json.Value.read? bytes with
  | none => .error (.record .json .malformed)
  | some (.object members) =>
    (ofJson schema (enlistPopups (.object members))).mapError (.record .json)
  | some _ => .error .notAnObject

/-- The record in a body. -/
def fieldsOf (format : WireFormat) (body : Bytes) : Except DecodeError Fields :=
  match format with
  | .xml =>
    match Text.Utf8.decode body with
    | .ok text => (fieldsOfMarkup text).mapError (.record .xml)
    | .error defect => .error (.notText defect)
  | .json => fieldsOfJson body

/-- The message in a body. -/
def decode (format : WireFormat) (body : Bytes) : Except DecodeError Message :=
  (fieldsOf format body).map ofFields

/-- A body whose fields can be read is decoded as their message. -/
theorem decode_of_fieldsOf {format : WireFormat} {body : Bytes} {fields : Fields}
    (h : fieldsOf format body = .ok fields) : decode format body = .ok (ofFields fields) :=
  congrArg (Except.map ofFields) h

/-- A body whose fields cannot be read is refused for the same reason. -/
theorem decode_error_of_fieldsOf {format : WireFormat} {body : Bytes} {cause : DecodeError}
    (h : fieldsOf format body = .error cause) : decode format body = .error cause :=
  congrArg (Except.map ofFields) h

end CallbackGateway.Message
