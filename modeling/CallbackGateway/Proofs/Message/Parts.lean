import CallbackGateway.Message.Decode
import CallbackGateway.Proofs.Record.Restriction
import CallbackGateway.Proofs.Record.Spelling
import CallbackGateway.Proofs.Text.Utf8
import CallbackGateway.Record.Encode

/-!
# Parts of a body

The part of a body under some names is a body with those fields only: in markup the children of
the root with these names, as they are written, and in JSON the members with these names. Whatever
else a body holds, its fields of these names are the fields of the part.
-/

namespace CallbackGateway.Message

open Markup Record Text

/-- The record in the part of a body under some names. -/
def fieldsOfPart (names : List String) (format : WireFormat) (body : Bytes) :
    Except DecodeError Fields :=
  match format with
  | .xml =>
    match Utf8.decode body with
    | .ok text =>
      let children := takeChildren (isNamed names) (scan (dropMark text)).tokens
      match keepLeafText (element rootName children) with
      | some tokens => (ofItems schema (assemble tokens)).mapError (.record .xml)
      | none => .error (.record .xml .malformed)
    | .error defect => .error (.notText defect)
  | .json =>
    match Json.Value.read? body with
    | none => .error (.record .json .malformed)
    | some (.object members) =>
      let part := members.filter fun member => names.contains member.1
      (ofJson schema (enlistPopups (.object part))).mapError (.record .json)
    | some _ => .error .notAnObject

/-- How the record of a body is read. -/
inductive Reads (body : Bytes) (fields : Fields) : WireFormat → Prop
  | xml {text : List Char} {kept : List Token} (htext : Utf8.decode body = .ok text)
      (hkept : keepLeafText (scan (dropMark text)).tokens = some kept)
      (hread : ofItems schema (assemble (dropLeadingMark kept)) = .ok fields) :
      Reads body fields .xml
  | json {members others : List (String × Json.Value)}
      (hbody : Json.Value.read? body = some (.object members))
      (hothers : enlistPopups (.object members) = .object others)
      (hread : readMembers schema others = .ok fields) : Reads body fields .json

/-- A written text is read as a document. -/
theorem fieldsOf_encode (text : List Char) :
    fieldsOf .xml (Utf8.encode text) = (fieldsOfMarkup text).mapError (.record .xml) := by
  rw [fieldsOf, Utf8.decode_encode]

/-- A body with fields is read in one of the two formats. -/
theorem reads_of_fieldsOf {format : WireFormat} {body : Bytes} {fields : Fields}
    (h : fieldsOf format body = .ok fields) : Reads body fields format := by
  cases format with
  | xml =>
    unfold fieldsOf at h
    dsimp only at h
    split at h
    · rename_i text htext
      have hread := eq_ok_of_mapError h
      unfold fieldsOfMarkup at hread
      dsimp only at hread
      split at hread
      · split at hread
        · rename_i kept hkept
          exact .xml htext hkept hread
        · cases hread
      · cases hread
    · cases h
  | json =>
    unfold fieldsOf fieldsOfJson at h
    dsimp only at h
    split at h
    · cases h
    · rename_i members hbody
      have hread := eq_ok_of_mapError h
      have hothers : ∃ others, enlistPopups (.object members) = .object others := ⟨_, rfl⟩
      obtain ⟨others, hothers⟩ := hothers
      rw [hothers, ofJson_object] at hread
      exact .json hbody hothers hread
    · cases h

/-- Popups are given their arrays in a part as in the whole. -/
theorem enlistPopups_filter {members others : List (String × Json.Value)} (names : List String)
    (h : enlistPopups (.object members) = .object others) :
    enlistPopups (.object (members.filter fun member => names.contains member.1)) =
      .object (others.filter fun member => names.contains member.1) := by
  obtain rfl := Json.Value.object.inj h
  rw [enlistPopups, updateMember, List.filter_map]
  rfl

/-- The fields of a part are the fields with its names. -/
theorem fieldsOfPart_eq {format : WireFormat} {body : Bytes} {fields : Fields}
    (names : List String) (h : fieldsOf format body = .ok fields) :
    fieldsOfPart names format body = .ok (fields.only names) := by
  unfold fieldsOfPart
  cases reads_of_fieldsOf h with
  | xml htext hkept hread =>
    obtain ⟨taken, htaken, hfields⟩ := ofItems_takeChildren names rootName hkept hread
    dsimp only
    rw [htext]
    dsimp only
    rw [htaken]
    dsimp only
    rw [hfields]
    rfl
  | json hbody hothers hread =>
    dsimp only
    rw [hbody]
    dsimp only
    rw [enlistPopups_filter names hothers, ofJson_object, readMembers_filter names hread]
    rfl

end CallbackGateway.Message
