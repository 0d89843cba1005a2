import CallbackGateway.Envelope.Sealed
import CallbackGateway.Envelope.Wrapper
import CallbackGateway.Proofs.Json.Written
import CallbackGateway.Proofs.Record.MarkupReading

/-!
# A sealed reply is a wrapper

A sealed reply is written with its ciphertext, signature, timestamp and nonce. Read as the
wrapper of a sealed push, in either format, it has that ciphertext and names no account: the
other three fields are skipped, whatever texts they hold.
-/

namespace CallbackGateway.Envelope

open Record Text

/-- The elements of a sealed reply are plain. -/
theorem arePlainFields_fields (reply : Sealed) : arePlainFields reply.markupFields = true := by
  have hnames : decide (Markup.IsPlainName "Encrypt".toList) = true ∧
      decide (Markup.IsPlainName "MsgSignature".toList) = true ∧
      decide (Markup.IsPlainName "TimeStamp".toList) = true ∧
      decide (Markup.IsPlainName "Nonce".toList) = true := by decide
  obtain ⟨h1, h2, h3, h4⟩ := hnames
  simp only [Sealed.markupFields, arePlainFields, isPlainField, h1, h2, h3, h4, Value.isPlain,
    Bool.and_self]

/-- The elements of a sealed reply are read as its ciphertext. -/
theorem readItems_fields (reply : Sealed) :
    readItems schema [] none (fieldsItems reply.markupFields) =
      .ok [("Encrypt", .text reply.ciphertext)] := by
  have hitems : fieldsItems reply.markupFields =
      .element (fieldTag "Encrypt") [.text (some reply.ciphertext.toList)] true ::
      .element (fieldTag "MsgSignature") [.text (some reply.signature.toList)] true ::
      .element (fieldTag "TimeStamp") [.text (some (decimal reply.timestamp).toList)] true ::
      .element (fieldTag "Nonce") [.text (some reply.nonce.toList)] true :: [] := rfl
  have hkind : List.lookup "Encrypt" schema = some .text := rfl
  rw [hitems, readItems_leaf (by decide) rfl hkind rfl rfl,
    Kind.readLeaf, String.ofList_toList, Except.bind,
    readItems_skip (by decide) rfl rfl rfl,
    readItems_skip (by decide) rfl rfl rfl,
    readItems_skip (by decide) rfl rfl rfl, readItems]
  rfl

/-- The markup of a sealed reply is read as its ciphertext. -/
theorem fieldsOfMarkup_toMarkup (reply : Sealed) :
    fieldsOfMarkup (reply.markupFields.toMarkup rootName) =
      .ok [("Encrypt", .text reply.ciphertext)] := by
  have hplain := arePlainFields_fields reply
  rw [fieldsOfMarkup, dropMark_toMarkup, scan_toMarkup (by decide) hplain,
    assemble_fieldsTokens rootName hplain, ofItems, readRecord_element, readItems_fields]

/-- The members that are written for a sealed reply, in the order of their keys. -/
theorem toJson_fields (reply : Sealed) : reply.jsonFields.toJson =
    .object [("Encrypt", .string reply.ciphertext), ("MsgSignature", .string reply.signature),
      ("Nonce", .string reply.nonce), ("TimeStamp", .number (.integer reply.timestamp))] := by
  have h1 : "MsgSignature" ≠ "Encrypt" ∧ ¬ "MsgSignature" < "Encrypt" := by decide
  have h2 : "TimeStamp" ≠ "Encrypt" ∧ ¬ "TimeStamp" < "Encrypt" ∧
      "TimeStamp" ≠ "MsgSignature" ∧ ¬ "TimeStamp" < "MsgSignature" := by decide
  have h3 : "Nonce" ≠ "Encrypt" ∧ ¬ "Nonce" < "Encrypt" ∧ "Nonce" ≠ "MsgSignature" ∧
      ¬ "Nonce" < "MsgSignature" ∧ "Nonce" ≠ "TimeStamp" ∧ "Nonce" < "TimeStamp" := by decide
  simp [Fields.toJson, Value.toJson, Sealed.jsonFields, jsonMembers, jsonMember,
    Json.Value.ofMembers, Json.insertMember, h1, h2, h3]

/-- The tree that is written for a sealed reply. -/
theorem hasTree_fields (reply : Sealed) : Json.HasTree reply.jsonFields.toJson (.object
    [(Json.textParts "Encrypt".toList, .string (Json.textParts reply.ciphertext.toList)),
      (Json.textParts "MsgSignature".toList, .string (Json.textParts reply.signature.toList)),
      (Json.textParts "Nonce".toList, .string (Json.textParts reply.nonce.toList)),
      (Json.textParts "TimeStamp".toList, .number (Json.integerNumeral reply.timestamp))]) := by
  rw [toJson_fields]
  exact .object (.cons (.string _) (.cons (.string _) (.cons (.string _)
    (.cons (.integer _) .nil))))

/-- A member of the schema is read as its text. -/
theorem fieldsOfMembers?_known {name text : String} {found : Fields}
    (hkind : (List.lookup name schema).isSome = true) (hnew : found.has name = false)
    (rest : List (Json.Quoted × Json.Tree)) :
    fieldsOfMembers? found
      ((Json.textParts name.toList, .string (Json.textParts text.toList)) :: rest) =
      fieldsOfMembers? (found ++ [(name, .text text)]) rest := by
  rw [fieldsOfMembers?, Json.quotedText?_textParts, String.ofList_toList, Option.bind_some,
    if_pos hkind, if_neg (by simp [hnew]), stringOf?, Json.quotedText?_textParts,
    String.ofList_toList, Option.bind_some]

/-- Any other member is skipped. -/
theorem fieldsOfMembers?_unknown {name : String} {found : Fields}
    (hkind : ¬ (List.lookup name schema).isSome = true) (tree : Json.Tree)
    (rest : List (Json.Quoted × Json.Tree)) :
    fieldsOfMembers? found ((Json.textParts name.toList, tree) :: rest) =
      fieldsOfMembers? found rest := by
  rw [fieldsOfMembers?, Json.quotedText?_textParts, String.ofList_toList, Option.bind_some,
    if_neg hkind]

/-- In either format, the fields of a sealed reply are read as its ciphertext. -/
theorem fieldsOf_encode (format : WireFormat) (reply : Sealed) :
    fieldsOf format (reply.encode format) = .ok [("Encrypt", .text reply.ciphertext)] := by
  cases format with
  | xml =>
    rw [fieldsOf, Sealed.encode, Sealed.fields, Fields.encode, Utf8.decode_encode]
    dsimp only
    rw [fieldsOfMarkup_toMarkup]
    rfl
  | json =>
    rw [fieldsOf, Sealed.encode, Sealed.fields, Fields.encode,
      Json.read?_toBytes (hasTree_fields reply), Option.bind_some, fieldsOfTree?,
      fieldsOfMembers?_known (by decide) rfl, fieldsOfMembers?_unknown (by decide),
      fieldsOfMembers?_unknown (by decide), fieldsOfMembers?_unknown (by decide)]
    rfl

/-- A sealed reply is read as the wrapper of its ciphertext. -/
theorem decode_encode (format : WireFormat) (reply : Sealed)
    (h : trim reply.ciphertext.toList ≠ []) :
    Wrapper.decode format (reply.encode format) = .ok ⟨"", reply.ciphertext⟩ := by
  have htext : Fields.text [("Encrypt", .text reply.ciphertext)] "Encrypt" = reply.ciphertext :=
    rfl
  rw [Wrapper.decode, fieldsOf_encode]
  simp only [bind, Except.bind]
  rw [htext, if_neg h]
  rfl

end CallbackGateway.Envelope
