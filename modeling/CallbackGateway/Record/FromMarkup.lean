import CallbackGateway.Markup.Attribute
import CallbackGateway.Markup.Content
import CallbackGateway.Record.Schema

/-!
# Records in markup

A record is an element whose child elements are its fields; a repeated field is a run of
neighbouring elements of one name. Unknown elements are skipped, and so is text between the
elements, but a field that comes twice is an error.
-/

namespace CallbackGateway.Record

open Markup

/-- A run of neighbouring elements that form a repeated field. -/
structure Run where
  /-- The full name of the elements. -/
  tagName : List Char
  key : String
  fields : Schema
  /-- The records so far, the latest first. -/
  latest : List Fields

/-- Add the run that has ended, if there is one. -/
def settle (found : Fields) : Option Run → Fields
  | none => found
  | some run => found ++ [(run.key, .records run.latest.reverse)]

/-- The run that an element continues. -/
def continues? (run : Option Run) (tag : Tag) : Option Run := run.filter (·.tagName == tag.name)

/-- The text of an element that holds nothing else. -/
def leafText? : List Item → Option (List Char)
  | [] => some []
  | [.text value] => value
  | _ => none

/-- Whether an unknown element can be skipped: only its first run of text is looked at. -/
def isSkippable (content : List Item) (closed : Bool) : Bool :=
  match content with
  | .text none :: _ => false
  | _ => closed

/-- The fields of an element that was read as a record; its attributes come before its fields,
and its end after them. -/
def closeRecord (tag : Tag) (closed : Bool) (fields : Except RecordError Fields) :
    Except RecordError Fields := do
  if !tag.isWellFormed then throw .malformed
  let fields ← fields
  if closed then return fields else throw .malformed

/-- Read an element as a field that is written as text. -/
def readLeafElement (kind : Kind) (content : List Item) (closed : Bool) :
    Except RecordError Value :=
  match leafText? content, closed with
  | some text, true => kind.readLeaf text
  | _, _ => .error .malformed

mutual

/-- Read an element as a record. -/
def readRecord (schema : Schema) : Item → Except RecordError Fields
  | .text _ => .error .malformed
  | .element tag content closed => closeRecord tag closed (readItems schema [] none content)
termination_by structural item => item

/-- Read the rest of the content of a record, after the fields that were found and the run that
is still open. -/
def readItems (schema : Schema) (found : Fields) (run : Option Run) :
    List Item → Except RecordError Fields
  | [] => .ok (settle found run)
  | .text value :: rest =>
    if run.isSome || value.isNone then .error .malformed else readItems schema found none rest
  | .element tag content closed :: rest =>
    match continues? run tag with
    | some run => do
      let item ← readRecord run.fields (.element tag content closed)
      readItems schema found (some { run with latest := item :: run.latest }) rest
    | none =>
      let found := settle found run
      let key := String.ofList (localName tag.name)
      match List.lookup key schema with
      | none =>
        if isSkippable content closed then readItems schema found none rest
        else .error .malformed
      | some kind =>
        if found.has key then .error .malformed
        else
          match kind with
          | .records fields => do
            let item ← readRecord fields (.element tag content closed)
            readItems schema found (some ⟨tag.name, key, fields, [item]⟩) rest
          | .record fields => do
            let item ← readRecord fields (.element tag content closed)
            readItems schema (found ++ [(key, .record item)]) none rest
          | leaf => do
            let value ← readLeafElement leaf content closed
            readItems schema (found ++ [(key, value)]) none rest
termination_by structural items => items

end

/-- Read the first element of a document as a record. -/
def ofItems (schema : Schema) : List Item → Except RecordError Fields
  | [] => .error .malformed
  | item :: _ => readRecord schema item

end CallbackGateway.Record
