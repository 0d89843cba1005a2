import CallbackGateway.Json.Printer
import CallbackGateway.Record.Schema

/-!
# Writing records as JSON

A record is an object with its fields in the order of their names, a repeated field an array.
Texts are strings and numbers are numbers.
-/

namespace CallbackGateway.Record

mutual

/-- A value as JSON. -/
def Value.toJson : Value → Json.Value
  | .text content => .string content
  | .integer n => .number (.integer n)
  | .real x => .number (.real x)
  | .blank => .string ""
  | .record fields => .ofMembers (jsonMembers fields)
  | .records items => .array (jsonItems items)
termination_by structural value => value

/-- The items of a repeated field as JSON. -/
def jsonItems : List (List (String × Value)) → List Json.Value
  | [] => []
  | item :: rest => .ofMembers (jsonMembers item) :: jsonItems rest
termination_by structural items => items

/-- The fields of a record as members. -/
def jsonMembers : List (String × Value) → List (String × Json.Value)
  | [] => []
  | field :: rest => jsonMember field :: jsonMembers rest
termination_by structural fields => fields

/-- A field as a member. -/
def jsonMember : String × Value → String × Json.Value
  | (name, value) => (name, value.toJson)
termination_by structural field => field

end

/-- A record as JSON. -/
def Fields.toJson (fields : Fields) : Json.Value := Value.toJson (.record fields)

end CallbackGateway.Record
