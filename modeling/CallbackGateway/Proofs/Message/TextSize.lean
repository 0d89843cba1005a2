import CallbackGateway.Message.Decode
import CallbackGateway.Proofs.Dispatch.Answers
import CallbackGateway.Proofs.Record.TextSize

/-!
# How long the texts of a message are

No text of a message is longer than its document by more than a constant factor, which is what
keeping leaf text verbatim may cost.
-/

namespace CallbackGateway.Message

open Record

variable {bound : Nat}

/-! ## Documents -/

/-- The texts of a document are at most six times as long as the document. -/
theorem textsWithin_fieldsOfMarkup {text : List Char} {fields : Fields}
    (h : fieldsOfMarkup text = .ok fields) : fields.TextsWithin (6 * text.length) := by
  unfold fieldsOfMarkup at h
  dsimp only at h
  split at h
  · split at h
    · rename_i tokens hkept
      have hscan := Markup.textSize_scan (Markup.dropMark text)
      have hmark := Markup.length_dropMark_le text
      have hleaf := Markup.textSize_keepLeafText_le hkept
      have hdrop := Markup.textSize_dropLeadingMark_le tokens
      have hitems := Markup.itemsTextSize_assemble_le (Markup.dropLeadingMark tokens)
      exact (textsWithin_ofItems h).mono (by omega)
    · cases h
  · cases h

/-- A list of one value has the texts of the value. -/
theorem textsWithin_enlist {value : Json.Value} (h : value.TextsWithin bound) :
    (enlist value).TextsWithin bound := by
  cases h with
  | object hmembers => exact .array (List.forall_mem_singleton.mpr (.object hmembers))
  | null => exact .null
  | boolean truth => exact .boolean truth
  | number htext => exact .number htext
  | string htext => exact .string htext
  | array hitems => exact .array hitems

/-- An update that keeps a bound keeps it in the whole. -/
theorem textsWithin_updateMember {key : String} {update : Json.Value → Json.Value}
    {value : Json.Value} (h : value.TextsWithin bound)
    (hupdate : ∀ held : Json.Value, held.TextsWithin bound → (update held).TextsWithin bound) :
    (updateMember key update value).TextsWithin bound := by
  cases h with
  | object hmembers =>
    refine .object fun member hmember => ?_
    obtain ⟨⟨name, held⟩, hheld, rfl⟩ := List.mem_map.mp hmember
    have hwithin := hmembers _ hheld
    dsimp only
    split
    · exact hupdate held hwithin
    · exact hwithin
  | null => exact .null
  | boolean truth => exact .boolean truth
  | number htext => exact .number htext
  | string htext => exact .string htext
  | array hitems => exact .array hitems

/-- Popups keep their texts where they are given their arrays. -/
theorem textsWithin_enlistPopups {value : Json.Value} (h : value.TextsWithin bound) :
    (enlistPopups value).TextsWithin bound := by
  refine textsWithin_updateMember h fun popup hpopup => ?_
  have hgroups := textsWithin_enlist hpopup
  split
  · rename_i groups heq
    rw [heq] at hgroups
    cases hgroups with
    | array hgroups =>
      refine .array fun group hgroup => ?_
      obtain ⟨held, hheld, rfl⟩ := List.mem_map.mp hgroup
      exact textsWithin_updateMember (hgroups held hheld) fun _ => textsWithin_enlist
  · exact hgroups

/-- The texts in a document that is read as a record. -/
theorem textsWithin_fieldsOf {format : WireFormat} {body : Bytes} {fields : Fields}
    (h : fieldsOf format body = .ok fields) : fields.TextsWithin (6 * body.length + 29) := by
  cases format with
  | xml =>
    rw [fieldsOf] at h
    split at h
    · rename_i text hdecode
      have hlength := Text.Utf8.length_le_of_decode hdecode
      exact (textsWithin_fieldsOfMarkup (eq_ok_of_mapError h)).mono (by omega)
    · cases h
  | json =>
    rw [fieldsOf, fieldsOfJson] at h
    split at h
    · cases h
    · rename_i members hread
      have hvalue := Json.Value.textsWithin_of_read? (Nat.le_add_left 29 (6 * body.length))
        (by omega) hread
      obtain ⟨value, hvalue', rfl⟩ := exists_of_map_eq_ok (eq_ok_of_mapError h)
      exact textsWithin_fields (textsWithin_readValue (by omega) _ _ value
        (textsWithin_enlistPopups hvalue) hvalue')
    · cases h

/-! ## Messages -/

/-- Without its mark a key is not longer. -/
theorem length_withoutMark_le (key : String) : (withoutMark key).length ≤ key.length := by
  unfold withoutMark
  split
  · rw [String.length_ofList, List.length_drop, String.length_toList]
    exact Nat.sub_le _ _
  · exact Nat.le_refl _

/-- A text that is found is within the bound of its record. -/
theorem length_text?_le {fields : Fields} {name text : String} (hfields : fields.TextsWithin bound)
    (h : fields.text? name = some text) : text.length ≤ bound := by
  unfold Fields.text? at h
  split at h
  · cases h
  · obtain rfl := Option.some.inj h
    exact hfields.length_text_le name

/-- The quoted part of an event is within the bound of its record. -/
theorem length_quoted_ofFields_event {fields : Fields} {quoted : String}
    (hfields : fields.TextsWithin bound) (h : (Event.ofFields fields).quoted? = some quoted) :
    quoted.length ≤ bound := by
  have htext := hfields.length_text_le
  have hcode := (hfields.record "ScanCodeInfo").length_text_le "ScanResult"
  unfold Event.ofFields at h
  dsimp only at h
  split at h
  case h_1 =>
    cases hkey : fields.text? "EventKey" with
    | none =>
      rw [SceneScan.ofFields?, hkey] at h
      cases h
    | some key =>
      rw [SceneScan.ofFields?, hkey] at h
      obtain rfl := Option.some.inj h
      exact Nat.le_trans (length_withoutMark_le key) (length_text?_le hfields hkey)
  case h_3 | h_5 => exact Option.some.inj h ▸ htext "EventKey"
  case h_7 | h_8 => exact Option.some.inj h ▸ hcode
  case h_22 => exact Option.some.inj h ▸ htext "Event"
  all_goals cases h

/-- The part of a message that an answer quotes. -/
theorem length_quoted_ofFields {fields : Fields} {quoted : String}
    (hfields : fields.TextsWithin bound) (h : (Body.ofFields fields).quoted? = some quoted) :
    quoted.length ≤ bound := by
  have htext := hfields.length_text_le
  unfold Body.ofFields at h
  dsimp only at h
  split at h
  case h_3 => exact length_text?_le hfields h
  case h_8 => exact length_quoted_ofFields_event hfields h
  case h_9 => exact Option.some.inj h ▸ htext "MsgType"
  all_goals cases h

/-- The texts of a message that go into its answer. -/
structure TextsWithin (bound : Nat) (message : Message) : Prop where
  toUser : message.header.toUser.length ≤ bound
  fromUser : message.header.fromUser.length ≤ bound
  quoted : ∀ quoted, message.body.quoted? = some quoted → quoted.length ≤ bound

/-- A bound may be loosened. -/
theorem TextsWithin.mono {message : Message} {larger : Nat} (h : message.TextsWithin bound)
    (hle : bound ≤ larger) : message.TextsWithin larger :=
  ⟨Nat.le_trans h.toUser hle, Nat.le_trans h.fromUser hle,
    fun quoted hquoted => Nat.le_trans (h.quoted quoted hquoted) hle⟩

/-- The texts of a message that is read. -/
theorem textsWithin_of_decode {format : WireFormat} {body : Bytes} {message : Message}
    (h : decode format body = .ok message) : message.TextsWithin (6 * body.length + 29) := by
  obtain ⟨fields, hfields, rfl⟩ := exists_of_map_eq_ok h
  have hwithin := textsWithin_fieldsOf hfields
  exact ⟨hwithin.length_text_le _, hwithin.length_text_le _,
    fun _ => length_quoted_ofFields hwithin⟩

end CallbackGateway.Message
