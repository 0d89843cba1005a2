import CallbackGateway.Proofs.Message.OfFields
import CallbackGateway.Proofs.Message.Parts
import CallbackGateway.Proofs.Record.Comparison

/-!
# The fields that reach a message

Of all that a body holds, only the own fields of its message reach the message. Two bodies are
compared by what is read from their parts under one name, so that they may be in different formats
and hold anything else.
-/

namespace CallbackGateway.Message

open Record Text

/-- Two bodies agree on a name just if their records say the same under it. -/
theorem agree_fieldsOfPart_iff {format format' : WireFormat} {body body' : Bytes}
    {fields fields' : Fields} (h : fieldsOf format body = .ok fields)
    (h' : fieldsOf format' body' = .ok fields') (name : String) :
    Agree (SameUnder name) (fieldsOfPart [name] format body) (fieldsOfPart [name] format' body') ↔
      SameUnder name fields fields' := by
  have hname : [name].contains name = true := by simp
  rw [fieldsOfPart_eq [name] h, fieldsOfPart_eq [name] h']
  constructor
  · intro hagree
    cases hagree with
    | ok hsame => exact hsame.congr (Fields.lookup_only hname) (Fields.lookup_only hname)
  · intro hsame
    exact .ok (hsame.congr (Fields.lookup_only hname).symm (Fields.lookup_only hname).symm)

/-- Bodies that agree on the own fields of a message are that message, in whatever formats they
are and whatever else they hold; and the part of a body with these fields is the same message. -/
theorem own_fields_make_message {format : WireFormat} {body : Bytes} {message : Message}
    (h : decode format body = .ok message) :
    (∀ format' body' message', decode format' body' = .ok message' →
      (∀ name ∈ message.ownFields, Agree (SameUnder name) (fieldsOfPart [name] format body)
        (fieldsOfPart [name] format' body')) → message' = message) ∧
    (fieldsOfPart message.ownFields format body).map ofFields = .ok message := by
  obtain ⟨fields, hfields, rfl⟩ := exists_of_map_eq_ok h
  constructor
  · intro format' body' message' h' hagree
    obtain ⟨fields', hfields', rfl⟩ := exists_of_map_eq_ok h'
    exact (ofFields_eq_of_own fun name hname =>
      (agree_fieldsOfPart_iff hfields hfields' name).mp (hagree name hname)).symm
  · rw [fieldsOfPart_eq _ hfields]
    have hown : ofFields fields = ofFields (fields.only (ofFields fields).ownFields) :=
      ofFields_eq_of_own fun name hname =>
        .of_lookup (Fields.lookup_only (by simpa using hname)).symm
    rw [Except.map, ← hown]

/-- A text with a message id in upper case and an index without an article. -/
def plainNote : List Char :=
  "<xml><MsgType>text</MsgType><MsgID>7</MsgID><Content>hi</Content><Idx>2</Idx></xml>".toList

/-- The same text with the label of a place. -/
def labelledNote : List (String × Json.Value) :=
  [("Content", .string "hi"), ("Label", .string "here"), ("MsgType", .string "text")]

/-- The fields of a note in markup. -/
theorem fieldsOf_plainNote : fieldsOf .xml (Utf8.encode plainNote) = .ok [("MsgType", .text "text"),
    ("MsgID", .integer 7), ("Content", .text "hi"), ("Idx", .integer 2)] := by
  decide +kernel

/-- What of them reaches the message. -/
theorem ownFields_plainNote : (ofFields [("MsgType", .text "text"), ("MsgID", .integer 7),
    ("Content", .text "hi"), ("Idx", .integer 2)]).ownFields = ["ToUserName", "FromUserName",
      "CreateTime", "MsgType", "MsgId", "Content", "bizmsgmenuid", "MsgDataId"] := by decide +kernel

/-- The fields of a note in JSON. -/
theorem fieldsOf_labelledNote : fieldsOf .json (Json.Value.object labelledNote).toBytes =
    .ok [("Content", .text "hi"), ("Label", .text "here"), ("MsgType", .text "text")] := by
  decide +kernel

/-- Fields of other kinds do not reach a text. -/
theorem own_fields_make_message_note :
    (∃ message, decode .xml (Utf8.encode plainNote) = .ok message ∧
      message.ownFields = ["ToUserName", "FromUserName", "CreateTime", "MsgType", "MsgId",
        "Content", "bizmsgmenuid", "MsgDataId"] ∧
      decode .json (Json.Value.object labelledNote).toBytes = .ok message ∧
      (fieldsOfPart message.ownFields .xml (Utf8.encode plainNote)).map ofFields =
        .ok message) := by
  have hdecode : decode .xml (Utf8.encode plainNote) = .ok (ofFields _) :=
    decode_of_fieldsOf fieldsOf_plainNote
  have hdecode' : decode .json (Json.Value.object labelledNote).toBytes = .ok (ofFields _) :=
    decode_of_fieldsOf fieldsOf_labelledNote
  obtain ⟨hsame, hpart⟩ := own_fields_make_message hdecode
  have hagree := hsame _ _ _ hdecode' fun name hname => by
    rw [agree_fieldsOfPart_iff fieldsOf_plainNote fieldsOf_labelledNote]
    refine .of_lookup ?_
    rw [ownFields_plainNote] at hname
    simp only [List.mem_cons, List.not_mem_nil, or_false] at hname
    rcases hname with rfl | rfl | rfl | rfl | rfl | rfl | rfl | rfl <;> rfl
  exact ⟨_, hdecode, ownFields_plainNote, hagree ▸ hdecode', hpart⟩

end CallbackGateway.Message
