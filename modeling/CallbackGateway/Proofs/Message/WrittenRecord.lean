import CallbackGateway.Proofs.Message.TwoFormats
import CallbackGateway.Proofs.Record.ReadBack
import CallbackGateway.Record.Encode

/-!
# Written records as messages

A record that is written in either format is read as the message of the fields that callbacks
declare. It need not be a record of texts, and it may have fields that callbacks do not have.
-/

namespace CallbackGateway.Message

open Markup Record Text

variable {fields : Fields}

/-- Popups are records, so a record that is read back has none. -/
theorem enlistPopups_of_isReadBack (h : IsReadBack schema fields)
    {members : List (String × Json.Value)} (hkeys : NoRepeats members)
    (hmembers : ∀ name, List.lookup name members = (List.lookup name fields).map Value.toJson) :
    enlistPopups (.object members) = .object members := by
  have hpopups : List.lookup "SubscribeMsgPopupEvent" schema = some (.records popupSchema) := rfl
  refine updateMember_eq_self fun json hmem => ?_
  have hlookup := lookup_of_mem hkeys hmem
  rw [hmembers] at hlookup
  obtain ⟨value, hvalue, -⟩ := Option.map_eq_some_iff.mp hlookup
  cases h.belongs _ value (mem_of_lookup hvalue) with
  | text _ hkind => simp [hpopups] at hkind
  | integer hkind => simp [hpopups] at hkind
  | unknown hkind => simp [hpopups] at hkind

/-- In either format, the declared fields of a written record are found. -/
theorem exists_fieldsOf_encode (format : WireFormat) (h : IsReadBack schema fields) :
    ∃ found, fieldsOf format (fields.encode format) = .ok found ∧
      ∀ name, List.lookup name found = List.lookup name (fields.declaredBy schema) := by
  cases format with
  | xml =>
    refine ⟨fields.declaredBy schema, ?_, fun name => rfl⟩
    rw [fieldsOf, Fields.encode, Utf8.decode_encode]
    dsimp only
    rw [fieldsOfMarkup_of_isPlain (by decide) h.isPlain, h.readItems]
    rfl
  | json =>
    obtain ⟨members, hread, hkeys, hmembers⟩ := h.exists_members
    obtain ⟨found, hfound, hlookup⟩ := h.exists_readMembers hkeys hmembers
    refine ⟨found, ?_, hlookup⟩
    rw [fieldsOf, fieldsOfJson, Fields.encode, hread]
    dsimp only
    rw [enlistPopups_of_isReadBack h hkeys hmembers, ofJson_object, hfound]
    rfl

/-- A written record is read as the message of its declared fields. -/
theorem decode_of_isReadBack (format : WireFormat) (h : IsReadBack schema fields) :
    decode format (fields.encode format) = .ok (ofFields (fields.declaredBy schema)) := by
  obtain ⟨found, hfound, hlookup⟩ := exists_fieldsOf_encode format h
  rw [decode, hfound, ← ofFields_eq_of_alike (h.alike_declaredBy hlookup)]
  rfl

end CallbackGateway.Message
