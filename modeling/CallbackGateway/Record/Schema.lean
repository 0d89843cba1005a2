import CallbackGateway.Binary64.Reading
import CallbackGateway.Text.Blank
import CallbackGateway.Text.Quoted

/-!
# Record schemas

A record holds named fields of declared kinds; every field may be absent. Numbers are written
as text: surrounding white space does not count, and a blank number is an absent one.
-/

namespace CallbackGateway.Record

open Text

/-- What a field holds. -/
inductive Kind
  /-- A text, taken as it is. -/
  | text
  /-- An integer of a range. -/
  | integer (range : IntegerRange)
  /-- A floating-point number. -/
  | real
  /-- A nested record. -/
  | record (fields : List (String × Kind))
  /-- Nested records of one kind, in order. -/
  | records (fields : List (String × Kind))

/-- The fields of a record, in the order of their declaration. -/
abbrev Schema := List (String × Kind)

/-- What was found in a field. -/
inductive Value
  | text (content : String)
  | integer (n : Int)
  | real (x : Binary64)
  /-- A number whose text is blank. -/
  | blank
  | record (fields : List (String × Value))
  | records (items : List (List (String × Value)))

/-- The fields that were found. -/
abbrev Fields := List (String × Value)

/-- Why a document is not a record of a schema. -/
inductive RecordError
  /-- The document does not have the shape of the schema. -/
  | malformed
  /-- A number field holds something else. -/
  | notANumber (text : List Char)
  deriving DecidableEq, Repr

/-- What a message says about an error after its summary. -/
def RecordError.detail : RecordError → String
  | .malformed => ""
  | .notANumber text =>
    ": invalid value: string " ++ String.ofList (quoted text) ++ ", expected a number"

/-- Read a number from its text. -/
def numberLeaf (read? : List Char → Option Value) (text : List Char) :
    Except RecordError Value :=
  match trim text with
  | [] => .ok .blank
  | trimmed =>
    match read? trimmed with
    | some value => .ok value
    | none => .error (.notANumber trimmed)

/-- Read a field of a kind that is written as text. -/
def Kind.readLeaf (kind : Kind) (text : List Char) : Except RecordError Value :=
  match kind with
  | .text => .ok (.text (String.ofList text))
  | .integer range => numberLeaf (fun t => (range.read? t).map .integer) text
  | .real => numberLeaf (fun t => (Binary64.read? t).map .real) text
  | .record _ | .records _ => .error .malformed

/-- Whether a field was found. -/
def Fields.has (fields : Fields) (name : String) : Bool := (List.lookup name fields).isSome

/-- The text of a field; an absent one is empty. -/
def Fields.text (fields : Fields) (name : String) : String :=
  match List.lookup name fields with
  | some (.text content) => content
  | _ => ""

/-- The text of a field, unless it is absent or empty. -/
def Fields.text? (fields : Fields) (name : String) : Option String :=
  if fields.text name = "" then none else some (fields.text name)

/-- The integer of a field, unless it is absent or blank. -/
def Fields.integer? (fields : Fields) (name : String) : Option Int :=
  match List.lookup name fields with
  | some (.integer n) => some n
  | _ => none

/-- The integer of a field; an absent one is zero. -/
def Fields.integer (fields : Fields) (name : String) : Int := (fields.integer? name).getD 0

/-- The number of a field; an absent one is zero. -/
def Fields.real (fields : Fields) (name : String) : Binary64 :=
  match List.lookup name fields with
  | some (.real x) => x
  | _ => Binary64.zero

/-- The fields of a nested record; an absent one has none. -/
def Fields.record (fields : Fields) (name : String) : Fields :=
  match List.lookup name fields with
  | some (.record inner) => inner
  | _ => []

/-- The nested records of a field; an absent one has none. -/
def Fields.records (fields : Fields) (name : String) : List Fields :=
  match List.lookup name fields with
  | some (.records items) => items
  | _ => []

end CallbackGateway.Record
