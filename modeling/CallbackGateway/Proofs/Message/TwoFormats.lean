import CallbackGateway.Message.Decode
import CallbackGateway.Proofs.Message.OfFields
import CallbackGateway.Proofs.Record.KeptText
import CallbackGateway.Proofs.Record.SpelledJson
import CallbackGateway.Proofs.Text.Utf8

/-!
# One message in two formats

A callback is a record of texts, and it can be written as markup or as JSON. Reading it in either
format gives the same message, or fails in both: what differs between the formats is gone once
the fields are read.
-/

namespace CallbackGateway.Message

open Markup Record Text

/-- The schema of callbacks is regular, far within the depth to which JSON may nest. -/
theorem areRegular_schema : areRegular 126 schema = true := by decide +kernel

/-! ## Markup -/

/-- In markup, the elements of a plain record are read one by one. -/
theorem fieldsOfMarkup_of_isPlain {root : String} {fields : Fields}
    (hroot : IsPlainName root.toList) (h : arePlainFields fields = true) :
    fieldsOfMarkup (fields.toMarkup root) = readItems schema [] none (fieldsItems fields) := by
  have hmatch := (Balanced.of_content (content_element_whole root
    (content_fieldsTokens fields h))).namesMatch_nil
  have hmark : dropLeadingMark (element root (fieldsTokens (keptFields fields))) =
      element root (fieldsTokens (keptFields fields)) := rfl
  rw [fieldsOfMarkup, dropMark_toMarkup, scan_toMarkup hroot h]
  dsimp only
  rw [hmatch, keepLeafText_element root h]
  dsimp only
  rw [Bool.and_self, if_pos rfl, hmark, assemble_fieldsTokens root (arePlainFields_kept fields h),
    ofItems, readRecord_element, fieldsItems_kept]

/-- In markup, the fields of a record are read one by one. -/
theorem fieldsOfMarkup_toMarkup {root : String} {fields : Fields}
    (hroot : IsPlainName root.toList) (hfits : Fits schema fields) :
    fieldsOfMarkup (fields.toMarkup root) = collect (readWritten schema) fields := by
  rw [fieldsOfMarkup_of_isPlain hroot (hfits.arePlainFields areRegular_schema),
    hfits.readItems areRegular_schema]

/-! ## JSON -/

/-- An update that changes nothing under its key changes nothing at all. -/
theorem updateMember_eq_self {key : String} {update : Json.Value → Json.Value}
    {members : List (String × Json.Value)}
    (h : ∀ value, (key, value) ∈ members → update value = value) :
    updateMember key update (.object members) = .object members := by
  rw [updateMember]
  apply congrArg Json.Value.object
  refine (List.map_congr_left fun member hmem => ?_).trans (List.map_id members)
  obtain ⟨name, value⟩ := member
  by_cases hname : name = key
  · subst hname
    dsimp only
    rw [if_pos rfl, h value hmem, id]
  · dsimp only
    rw [if_neg hname, id]

/-- A repeated field of a spelled record is null, or an array of spelled records. -/
theorem exists_rows {depth : Nat} {declared inner : Schema} {fields : Fields}
    {members : List (String × Json.Value)} {name : String} {value : Json.Value}
    (hschema : areRegular depth declared = true) (hfits : Fits declared fields)
    (hspelled : SpelledBy fields members)
    (hdeclared : List.lookup name declared = some (.records inner))
    (hmem : (name, value) ∈ members) :
    value = .null ∨ ∃ items rows, value = .array (rows.map .object) ∧
      List.Forall₂ (fun item row => Fits inner item ∧ SpelledBy item row) items rows := by
  have hkind := hspelled.kind hschema hfits name
  rw [lookup_of_mem hspelled.noRepeats hmem, hdeclared] at hkind
  generalize List.lookup name fields = held at hkind
  cases hkind with
  | null => exact .inl rfl
  | records _ hrows => exact .inr ⟨_, _, rfl, hrows⟩
  | text hleaf => simp [Kind.isLeaf] at hleaf

/-- The decisions of a spelled popup group are an array already. -/
theorem enlist_decisions_of_spelled {group : Fields} {members : List (String × Json.Value)}
    (hfits : Fits popupSchema group) (hspelled : SpelledBy group members) :
    updateMember "List" enlist (.object members) = .object members := by
  have hpopup : areRegular 2 popupSchema = true := by decide +kernel
  have hdecisions : ∃ inner, List.lookup "List" popupSchema = some (.records inner) := ⟨_, rfl⟩
  obtain ⟨inner, hinner⟩ := hdecisions
  refine updateMember_eq_self fun value hmem => ?_
  rcases exists_rows hpopup hfits hspelled hinner hmem with rfl | ⟨items, rows, rfl, -⟩ <;> rfl

/-- The popup groups of a spelled record are an array already. -/
theorem enlistPopups_of_spelled {fields : Fields} {members : List (String × Json.Value)}
    (hfits : Fits schema fields) (hspelled : SpelledBy fields members) :
    enlistPopups (.object members) = .object members := by
  have hpopups : List.lookup "SubscribeMsgPopupEvent" schema = some (.records popupSchema) := rfl
  refine updateMember_eq_self fun value hmem => ?_
  rcases exists_rows areRegular_schema hfits hspelled hpopups hmem with
    rfl | ⟨items, rows, rfl, hrows⟩
  · rfl
  · have hgroups : (rows.map Json.Value.object).map (updateMember "List" enlist) =
        rows.map .object := by
      clear hmem
      induction hrows with
      | nil => rfl
      | cons hrow _ ih =>
        rw [List.map_cons, List.map_cons, ih, enlist_decisions_of_spelled hrow.1 hrow.2]
    rw [enlist]
    · dsimp only
      rw [hgroups]
    · simp

/-- A document of members that spell a record is read as members that spell it. -/
theorem exists_read?_toBytes {fields : Fields} {members : List (String × Json.Value)}
    (hfits : Fits schema fields) (hspelled : SpelledBy fields members) :
    ∃ sorted, Json.Value.read? (Json.Value.object members).toBytes = some (.object sorted) ∧
      SpelledBy fields sorted := by
  obtain ⟨trees, sorted, htrees, hread, hsorted⟩ := exists_sorted areRegular_schema hfits hspelled
  refine ⟨sorted, ?_, hsorted⟩
  rw [Json.Value.read?, Json.read?_toBytes (.object htrees), Option.bind_some, ← hread]
  rfl

/-! ## Both formats -/

/-- A JSON document that says a spelled record is read as the message that the record is in
markup. -/
theorem decode_agrees_of_read? {root : String} {fields : Fields}
    {members : List (String × Json.Value)} {body : Bytes} (hroot : IsPlainName root.toList)
    (hfits : Fits schema fields) (hspelled : SpelledBy fields members)
    (hbody : Json.Value.read? body = some (.object members)) :
    Agree (· = ·) (decode .xml (Utf8.encode (fields.toMarkup root))) (decode .json body) := by
  have hmarkup : fieldsOf .xml (Utf8.encode (fields.toMarkup root)) =
      (collect (readWritten schema) fields).mapError (.record .xml) := by
    rw [fieldsOf, Utf8.decode_encode]
    dsimp only
    rw [fieldsOfMarkup_toMarkup hroot hfits]
  have hjson : fieldsOf .json body = (readMembers schema members).mapError (.record .json) := by
    rw [fieldsOf, fieldsOfJson, hbody]
    dsimp only
    rw [enlistPopups_of_spelled hfits hspelled, ofJson_object]
  have hfields : Agree Alike (fieldsOf .xml (Utf8.encode (fields.toMarkup root)))
      (fieldsOf .json body) := by
    rw [hmarkup, hjson]
    exact (readMembers_agrees areRegular_schema hfits hspelled).mapError
  exact hfields.map ofFields_eq_of_alike

/-- A record of texts is one message, whether it is written as markup or as JSON: both bodies are
read as the same message, or neither is read. -/
theorem decode_agrees_across_formats {root : String} {fields : Fields}
    {members : List (String × Json.Value)} (hroot : IsPlainName root.toList)
    (hfits : Fits schema fields) (hspelled : SpelledBy fields members) :
    Agree (· = ·) (decode .xml (Utf8.encode (fields.toMarkup root)))
      (decode .json (Json.Value.object members).toBytes) := by
  obtain ⟨sorted, hread, hsorted⟩ := exists_read?_toBytes hfits hspelled
  exact decode_agrees_of_read? hroot hfits hsorted hread

/-- The report of a picture whose digest holds the end marker of a section. -/
def reportFields : Fields :=
  [("MsgType", .text "event"), ("Event", .text "pic_weixin"),
    ("SendPicsInfo", .record [("Count", .text "1"),
      ("PicList", .record [("item", .records [[("PicMd5Sum", .text "a]]>b")]])])])]

/-- Its members, in another order, with a bare count and a field that is null. -/
def reportMembers : List (String × Json.Value) :=
  [("SendPicsInfo", .object [("PicList", .object [("item", .array [.object
      [("PicMd5Sum", .string "a]]>b")]])]), ("Count", .number (.integer 1))]),
    ("Content", .null), ("Event", .string "pic_weixin"), ("MsgType", .string "event")]

/-- The report has the form that callbacks have. -/
theorem fits_reportFields : Fits schema reportFields := by
  have hpicture : Fits [("PicMd5Sum", .text)] [("PicMd5Sum", .text "a]]>b")] := by
    refine .mk (by decide) fun name value hmem => ?_
    obtain ⟨rfl, rfl⟩ := by simpa using hmem
    exact .text rfl _
  have hlist : Fits [("item", .records [("PicMd5Sum", .text)])]
      [("item", .records [[("PicMd5Sum", .text "a]]>b")]])] := by
    refine .mk (by decide) fun name value hmem => ?_
    obtain ⟨rfl, rfl⟩ := by simpa using hmem
    exact .records (by simpa using hpicture)
  have hpictures : Fits picturesSchema [("Count", .text "1"),
      ("PicList", .record [("item", .records [[("PicMd5Sum", .text "a]]>b")]])])] := by
    refine .mk (by decide) fun name value hmem => ?_
    rcases (by simpa using hmem) with ⟨rfl, rfl⟩ | ⟨rfl, rfl⟩
    · exact .text rfl _
    · exact .record hlist
  refine .mk (by decide) fun name value hmem => ?_
  rcases (by simpa [reportFields] using hmem) with ⟨rfl, rfl⟩ | ⟨rfl, rfl⟩ | ⟨rfl, rfl⟩
  · exact .text rfl _
  · exact .text rfl _
  · exact .record hpictures

/-- The members spell the report. -/
theorem spelledBy_reportMembers : SpelledBy reportFields reportMembers := by
  have hpicture : SpelledBy [("PicMd5Sum", .text "a]]>b")] [("PicMd5Sum", .string "a]]>b")] := by
    refine .of_names ["PicMd5Sum"] (by decide) (by decide) (by decide) fun name hmem => ?_
    obtain rfl := List.mem_singleton.mp hmem
    exact .text (.string _)
  have hlist : SpelledBy [("item", .records [[("PicMd5Sum", .text "a]]>b")]])]
      [("item", .array [.object [("PicMd5Sum", .string "a]]>b")]])] := by
    refine .of_names ["item"] (by decide) (by decide) (by decide) fun name hmem => ?_
    obtain rfl := List.mem_singleton.mp hmem
    exact .records (.cons hpicture .nil)
  have hpictures : SpelledBy [("Count", .text "1"),
      ("PicList", .record [("item", .records [[("PicMd5Sum", .text "a]]>b")]])])]
      [("PicList", .object [("item", .array [.object [("PicMd5Sum", .string "a]]>b")]])]),
        ("Count", .number (.integer 1))] := by
    refine .of_names ["Count", "PicList"] (by decide) (by decide) (by decide) ?_
    rw [List.forall_mem_cons, List.forall_mem_singleton]
    have hdecimal : decimal 1 = "1" := by decide +kernel
    have hfits : Json.FitsInteger 1 := by decide
    have hcount : TextSpelled "1" (.number (.integer 1)) := hdecimal ▸ .integer hfits
    exact ⟨.text hcount, .record hlist⟩
  refine .of_names ["MsgType", "Event", "SendPicsInfo", "Content"] (by decide) (by decide)
    (by decide) ?_
  simp only [List.forall_mem_cons]
  exact ⟨.text (.string _), .text (.string _), .record hpictures, .null, by simp⟩

/-- A report of delivery is one message in both formats. -/
theorem decode_agrees_across_formats_report :
    IsPlainName "xml".toList ∧ Fits schema reportFields ∧ SpelledBy reportFields reportMembers ∧
      Agree (· = ·) (decode .xml (Utf8.encode (reportFields.toMarkup "xml")))
        (decode .json (Json.Value.object reportMembers).toBytes) :=
  ⟨by decide, fits_reportFields, spelledBy_reportMembers,
    decode_agrees_across_formats (by decide) fits_reportFields spelledBy_reportMembers⟩

end CallbackGateway.Message
