import CallbackGateway.Json.Value
import CallbackGateway.Record.Schema

/-!
# Records in JSON

A record is an object whose members are its fields, or an array of its fields in the order of
their declaration. Members that are null or unknown do not count; texts and numbers may be
given as strings, numbers or booleans.
-/

namespace CallbackGateway.Record

/-- The fields of a nested record; other values have none. -/
def Value.fields : Value → Fields
  | .record fields => fields
  | _ => []

mutual

/-- Read a value as a field of a kind. -/
def readValue (kind : Kind) : Json.Value → Except RecordError Value
  | .null => .error .malformed
  | .boolean value => kind.readLeaf (Json.booleanText value)
  | .number number => kind.readLeaf number.text
  | .string text => kind.readLeaf text.toList
  | .array items =>
    match kind with
    | .record schema => (readPositions schema items).map .record
    | .records schema => (readEach schema items).map .records
    | _ => .error .malformed
  | .object members =>
    match kind with
    | .record schema => (readMembers schema members).map .record
    | _ => .error .malformed
termination_by structural value => value

/-- Read items as the fields of a record, one by one. -/
def readPositions (schema : Schema) : List Json.Value → Except RecordError Fields
  | [] => .ok []
  | item :: rest =>
    match schema with
    | [] => .error .malformed
    | (name, kind) :: others => do
      let value ← readValue kind item
      let fields ← readPositions others rest
      return (name, value) :: fields
termination_by structural items => items

/-- Read items as records of one schema. -/
def readEach (schema : Schema) : List Json.Value → Except RecordError (List Fields)
  | [] => .ok []
  | item :: rest => do
    let value ← readValue (.record schema) item
    let others ← readEach schema rest
    return value.fields :: others
termination_by structural items => items

/-- Read members as the fields of a record. -/
def readMembers (schema : Schema) : List (String × Json.Value) → Except RecordError Fields
  | [] => .ok []
  | member :: rest => do
    let found ← readMember schema member
    let others ← readMembers schema rest
    return found ++ others
termination_by structural members => members

/-- Read a member as at most one field of a record. -/
def readMember (schema : Schema) : String × Json.Value → Except RecordError Fields
  | (_, .null) => .ok []
  | (key, value) =>
    match List.lookup key schema with
    | none => .ok []
    | some kind => (readValue kind value).map fun found => [(key, found)]
termination_by structural member => member

end

variable {schema : Schema} {key : String} {value : Json.Value}

/-- A member that is not declared does not count. -/
theorem readMember_unknown (h : List.lookup key schema = none) (value : Json.Value) :
    readMember schema (key, value) = .ok [] := by
  cases value with
  | null => rfl
  | boolean | number | string | array | object => simp only [readMember, h]

/-- A member that is not null is read by its declared kind. -/
theorem readMember_known {kind : Kind} (h : List.lookup key schema = some kind)
    (hnull : value ≠ .null) :
    readMember schema (key, value) = (readValue kind value).map fun found => [(key, found)] := by
  cases value with
  | null => exact absurd rfl hnull
  | boolean | number | string | array | object => simp only [readMember, h]

/-- Read a value as a record. -/
def ofJson (schema : Schema) (value : Json.Value) : Except RecordError Fields :=
  (readValue (.record schema) value).map Value.fields

end CallbackGateway.Record
