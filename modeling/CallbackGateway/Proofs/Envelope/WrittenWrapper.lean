import CallbackGateway.Proofs.Envelope.SealedWrapper
import CallbackGateway.Proofs.Record.WrittenSize

/-!
# Written wrappers

A wrapper is written with the account that it is for and its ciphertext. In either format it is
read back as it was written, whatever texts these are, unless the ciphertext is blank. It is not
much longer than its texts.
-/

namespace CallbackGateway.Envelope

open Record Text

namespace Wrapper

/-- The fields of a wrapper. -/
def fields (wrapper : Wrapper) : Fields :=
  [("ToUserName", .text wrapper.toUser), ("Encrypt", .text wrapper.ciphertext)]

/-- The bytes of a wrapper. -/
def encode (format : WireFormat) (wrapper : Wrapper) : Bytes :=
  Fields.encode format wrapper.fields

/-- The fields of a wrapper are plain. -/
theorem arePlainFields (wrapper : Wrapper) : Record.arePlainFields wrapper.fields = true := by
  have hnames : decide (Markup.IsPlainName "ToUserName".toList) = true ∧
      decide (Markup.IsPlainName "Encrypt".toList) = true := by decide
  simp only [fields, Record.arePlainFields, isPlainField, hnames.1, hnames.2, Value.isPlain,
    Bool.and_self]

/-- The elements of a wrapper are read as its fields. -/
theorem readItems_fields (wrapper : Wrapper) :
    readItems schema [] none (fieldsItems wrapper.fields) = .ok wrapper.fields := by
  have hitems : fieldsItems wrapper.fields =
      .element (fieldTag "ToUserName") [.text (some wrapper.toUser.toList)] true ::
      .element (fieldTag "Encrypt") [.text (some wrapper.ciphertext.toList)] true :: [] := rfl
  have huser : List.lookup "ToUserName" schema = some .text := rfl
  have htext : List.lookup "Encrypt" schema = some .text := rfl
  rw [hitems, readItems_leaf (by decide) rfl huser rfl rfl, Kind.readLeaf, String.ofList_toList,
    Except.bind, readItems_leaf (by decide) rfl htext rfl rfl, Kind.readLeaf,
    String.ofList_toList, Except.bind, readItems]
  rfl

/-- In markup, a wrapper is read as its fields. -/
theorem fieldsOfMarkup_toMarkup (wrapper : Wrapper) :
    fieldsOfMarkup (wrapper.fields.toMarkup rootName) = .ok wrapper.fields := by
  have hplain := wrapper.arePlainFields
  rw [fieldsOfMarkup, dropMark_toMarkup, scan_toMarkup (by decide) hplain,
    assemble_fieldsTokens rootName hplain, ofItems, readRecord_element, readItems_fields]

/-- The tree that is written for a wrapper, in the order of the keys. -/
theorem hasTree_fields (wrapper : Wrapper) : Json.HasTree wrapper.fields.toJson (.object
    [(Json.textParts "Encrypt".toList, .string (Json.textParts wrapper.ciphertext.toList)),
      (Json.textParts "ToUserName".toList,
        .string (Json.textParts wrapper.toUser.toList))]) := by
  have horder : "Encrypt" ≠ "ToUserName" ∧ "Encrypt" < "ToUserName" := by decide
  have hjson : wrapper.fields.toJson = .object [("Encrypt", .string wrapper.ciphertext),
      ("ToUserName", .string wrapper.toUser)] := by
    simp [Fields.toJson, Value.toJson, fields, jsonMembers, jsonMember, Json.Value.ofMembers,
      Json.insertMember, horder]
  rw [hjson]
  exact .object (.cons (.string _) (.cons (.string _) .nil))

/-- In either format, the fields of a wrapper are found under their names. -/
theorem exists_fieldsOf_encode (format : WireFormat) (wrapper : Wrapper) :
    ∃ found, fieldsOf format (wrapper.encode format) = .ok found ∧
      found.text "ToUserName" = wrapper.toUser ∧ found.text "Encrypt" = wrapper.ciphertext := by
  cases format with
  | xml =>
    refine ⟨wrapper.fields, ?_, rfl, rfl⟩
    rw [fieldsOf, encode, Fields.encode, Utf8.decode_encode]
    dsimp only
    rw [fieldsOfMarkup_toMarkup]
    rfl
  | json =>
    refine ⟨[("Encrypt", .text wrapper.ciphertext), ("ToUserName", .text wrapper.toUser)], ?_,
      rfl, rfl⟩
    rw [fieldsOf, encode, Fields.encode, Json.read?_toBytes (hasTree_fields wrapper),
      Option.bind_some, fieldsOfTree?, fieldsOfMembers?_known (by decide) rfl,
      fieldsOfMembers?_known (by decide) rfl]
    rfl

/-- A written wrapper is read back. -/
theorem decode_encode (format : WireFormat) (wrapper : Wrapper)
    (h : trim wrapper.ciphertext.toList ≠ []) :
    decode format (wrapper.encode format) = .ok wrapper := by
  obtain ⟨found, hfound, huser, htext⟩ := exists_fieldsOf_encode format wrapper
  rw [decode, hfound]
  simp only [bind, Except.bind]
  rw [huser, htext, if_neg h]
  rfl

/-- A wrapper takes at most sixteen bytes for each character of its texts, and some for the rest. -/
theorem length_encode_le (format : WireFormat) (wrapper : Wrapper) :
    (wrapper.encode format).length ≤
      16 * (wrapper.toUser.length + wrapper.ciphertext.length) + 200 := by
  have hfields : NoRepeats wrapper.fields := by
    show ["ToUserName", "Encrypt"].Nodup
    decide
  have hencoded := (length_encode_range format hfields).2
  have huser := (fieldBytes_text_range format "ToUserName" wrapper.toUser).2
  have htext := (fieldBytes_text_range format "Encrypt" wrapper.ciphertext).2
  have huserText := (byteCount_writtenText_range format wrapper.toUser).2
  have hsealedText := (byteCount_writtenText_range format wrapper.ciphertext).2
  have hnames : "ToUserName".length = 10 ∧ "Encrypt".length = 7 := by decide
  have hsum : sizeSum (fieldBytes format) wrapper.fields =
      fieldBytes format ("ToUserName", .text wrapper.toUser) +
        (fieldBytes format ("Encrypt", .text wrapper.ciphertext) + 0) := rfl
  rw [encode]
  omega

end Wrapper

end CallbackGateway.Envelope
