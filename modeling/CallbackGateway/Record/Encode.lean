import CallbackGateway.Record.ToJson
import CallbackGateway.Record.ToMarkup
import CallbackGateway.WireFormat

/-!
# Writing records in a wire format

The same fields are written in either format; a markup document has the root `xml`.
-/

namespace CallbackGateway.Record

/-- The root of every markup document that is written. -/
def rootName : String := "xml"

/-- The bytes of a record in a format. -/
def Fields.encode (format : WireFormat) (fields : Fields) : Bytes :=
  match format with
  | .xml => Text.Utf8.encode (fields.toMarkup rootName)
  | .json => fields.toJson.toBytes

end CallbackGateway.Record
