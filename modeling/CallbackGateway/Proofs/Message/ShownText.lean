import CallbackGateway.Proofs.Message.VerbatimText

/-!
# The texts that a message shows

Some texts of a record reach the message as they are: each kind of message or event shows some of
them, under a name of its own. The key of a scene that led to a subscription is not among them,
because it may lose its mark, and neither is a scene of a popup, which is read as a number.

Of a document, the message shows exactly the texts that the record of the document has there, and
nothing where the record has no text.
-/

namespace CallbackGateway

/-! ## Texts at places -/

namespace Record

/-- The nested record at a place; there is none at a place that does not exist. -/
def Fields.follow : Fields → List Step → Fields
  | fields, [] => fields
  | fields, .field key :: path => Fields.follow (fields.record key) path
  | fields, .item key index :: path => Fields.follow ((fields.records key)[index]?.getD []) path

/-- Whether a schema has a text under a name at a place. -/
def declaresText : Schema → List Step → String → Bool
  | schema, [], name => match List.lookup name schema with
    | some .text => true
    | _ => false
  | schema, .field key :: path, name => match List.lookup key schema with
    | some (.record inner) => declaresText inner path name
    | _ => false
  | schema, .item key _ :: path, name => match List.lookup key schema with
    | some (.records inner) => declaresText inner path name
    | _ => false

variable {schema : Schema} {fields : Fields} {path : List Step} {name content : String}

/-- A text of a record is found at its place. -/
theorem TextAt.text_follow (h : TextAt schema fields path name content) :
    (fields.follow path).text name = content := by
  induction h with
  | leaf _ htext => rw [Fields.follow, Fields.text, htext]
  | field _ _ ih => exact ih
  | item _ hitem _ ih => rw [Fields.follow, hitem, Option.getD_some, ih]

/-- A text that is found where a schema has one is a text of the record. -/
theorem textAt_of_text_follow (hschema : declaresText schema path name = true)
    (htext : (fields.follow path).text name = content) (hne : content ≠ "") :
    TextAt schema fields path name content := by
  induction path generalizing schema fields with
  | nil =>
    rw [declaresText] at hschema
    split at hschema
    · rename_i hkind
      rw [Fields.follow, Fields.text] at htext
      split at htext
      · rename_i hlookup
        exact .leaf hkind (htext ▸ hlookup)
      · exact absurd htext.symm hne
    · cases hschema
  | cons step path ih =>
    cases step with
    | field key =>
      rw [declaresText] at hschema
      split at hschema
      · rename_i hkind
        exact .field hkind (ih hschema htext)
      · cases hschema
    | item key index =>
      rw [declaresText] at hschema
      split at hschema
      · rename_i inner hkind
        have hinner := ih hschema htext
        cases hitem : (fields.records key)[index]? with
        | some item =>
          rw [hitem, Option.getD_some] at hinner
          exact .item hkind hitem hinner
        | none =>
          -- Nothing is found in a record that does not exist.
          rw [hitem, Option.getD_none] at hinner
          have hnothing (path : List Step) : Fields.follow [] path = [] := by
            induction path with
            | nil => rfl
            | cons step path ih => cases step <;> exact ih
          have hempty := hinner.text_follow
          rw [hnothing] at hempty
          exact absurd hempty.symm hne
      · cases hschema

end Record

namespace Message

open Record Text

/-! ## What is shown -/

/-- A text that a message shows, with the place in its record. -/
structure ShownText where
  path : List Step
  name : String
  content : String

/-- Whether a text is shown as it stands in a record. -/
structure ShownText.IsFrom (fields : Fields) (shown : ShownText) : Prop where
  declared : declaresText schema shown.path shown.name = true
  text : (fields.follow shown.path).text shown.name = shown.content

/-- The texts of an article. -/
def ArticleSource.shown (source : Option ArticleSource) : List ShownText :=
  [⟨[], "MsgDataId", (source.map ArticleSource.dataId).getD ""⟩]

/-- The texts of a video. -/
def VideoBody.shown (video : VideoBody) : List ShownText :=
  [⟨[], "MediaId", video.mediaId⟩, ⟨[], "ThumbMediaId", video.thumbMediaId⟩]

/-- The texts of a scanned code. -/
def CodeScan.shown (scan : CodeScan) : List ShownText :=
  [⟨[], "EventKey", scan.eventKey⟩, ⟨[.field "ScanCodeInfo"], "ScanType", scan.scanType⟩,
    ⟨[.field "ScanCodeInfo"], "ScanResult", scan.scanResult⟩]

/-- The texts of pictures. -/
def PictureReport.shown (report : PictureReport) : List ShownText :=
  ⟨[], "EventKey", report.eventKey⟩ :: report.digests.mapIdx fun index digest =>
    ⟨[.field "SendPicsInfo", .field "PicList", .item "item" index], "PicMd5Sum", digest⟩

/-- The texts of a chosen place. -/
def PlaceChoice.shown (choice : PlaceChoice) : List ShownText :=
  [⟨[], "EventKey", choice.eventKey⟩, ⟨[.field "SendLocationInfo"], "Label", choice.label⟩,
    ⟨[.field "SendLocationInfo"], "Poiname", choice.placeName⟩]

/-- The texts of a decision at a place in its popup. -/
def PopupDecision.shown (group index : Nat) (decision : PopupDecision) : List ShownText :=
  let path : List Step := [.item "SubscribeMsgPopupEvent" group, .item "List" index]
  [⟨path, "TemplateId", decision.templateId⟩, ⟨path, "SubscribeStatusString", decision.status⟩]

/-- The texts of a popup. -/
def PopupDecisions.shown (popup : PopupDecisions) : List ShownText :=
  (popup.groups.mapIdx fun group decisions =>
    (decisions.mapIdx (PopupDecision.shown group)).flatten).flatten

/-- The texts of an event, besides its name. -/
def Event.shown : Event → List ShownText
  | .subscribe (some scene) => [⟨[], "Ticket", scene.ticket⟩]
  | .scan scene => [⟨[], "EventKey", scene.sceneKey⟩, ⟨[], "Ticket", scene.ticket⟩]
  | .click key => [⟨[], "EventKey", key⟩]
  | .view key menuId | .viewMiniProgram key menuId =>
    [⟨[], "EventKey", key⟩, ⟨[], "MenuId", menuId.getD ""⟩]
  | .scanCodePush code | .scanCodeWait code => code.shown
  | .cameraPictures report | .cameraOrAlbumPictures report | .albumPictures report => report.shown
  | .placeChosen choice => choice.shown
  | .templateSent _ status => [⟨[], "Status", status⟩]
  | .massSent report => [⟨[], "Status", report.status⟩]
  | .popup decisions => decisions.shown
  | .subscribe none | .unsubscribe | .location _ | .published | .mediaChecked | .auditPassed
  | .auditFailed | .auditDelayed | .other _ => []

/-- The texts of a body, besides its type. -/
def Body.shown : Body → List ShownText
  | .text body => ⟨[], "Content", body.content⟩ :: ArticleSource.shown body.source
  | .image body => [⟨[], "PicUrl", body.pictureUrl⟩, ⟨[], "MediaId", body.mediaId⟩] ++
    ArticleSource.shown body.source
  | .voice body => [⟨[], "MediaId", body.mediaId⟩, ⟨[], "Format", body.format⟩,
    ⟨[], "Recognition", body.recognition.getD ""⟩, ⟨[], "MediaId16K", body.wideMediaId.getD ""⟩]
  | .video body | .shortVideo body => body.shown
  | .location body => [⟨[], "Label", body.label⟩]
  | .link body => [⟨[], "Title", body.title⟩, ⟨[], "Description", body.description⟩,
    ⟨[], "Url", body.url⟩]
  | .event held => ⟨[], "Event", held.name⟩ :: held.shown
  | .other _ => []

end Message

/-- The texts of a message. -/
def Message.shown (message : Message) : List Message.ShownText :=
  [⟨[], "ToUserName", message.header.toUser⟩, ⟨[], "FromUserName", message.header.fromUser⟩,
    ⟨[], "MsgType", message.type⟩] ++ message.body.shown

namespace Message

open Record Text

variable {fields : Fields}

/-- A text that is absent or empty is shown as an empty one. -/
theorem getD_text? (fields : Fields) (name : String) :
    (fields.text? name).getD "" = fields.text name := by
  unfold Fields.text?
  split
  · rename_i hempty
    exact hempty.symm
  · rfl

/-- A text of the outer record is shown as it is. -/
theorem ShownText.IsFrom.outer {name content : String}
    (hschema : declaresText schema [] name = true) (htext : fields.text name = content) :
    IsFrom fields ⟨[], name, content⟩ := ⟨hschema, htext⟩

/-- What an article shows stands in its record. -/
theorem ArticleSource.isFrom_shown :
    ∀ shown ∈ ArticleSource.shown (ofFields? fields), shown.IsFrom fields := by
  have hdata : ((ofFields? fields).map ArticleSource.dataId).getD "" = fields.text "MsgDataId" := by
    rw [ofFields?, Option.map_map, ← getD_text?]
    exact congrArg (Option.getD · "") Option.map_id'
  simp only [ArticleSource.shown, List.forall_mem_singleton, hdata]
  exact .outer rfl rfl

/-- What pictures show stands in their record. -/
theorem PictureReport.isFrom_shown :
    ∀ shown ∈ (PictureReport.ofFields fields).shown, shown.IsFrom fields := by
  refine List.forall_mem_cons.mpr ⟨.outer rfl rfl, fun shown hshown => ?_⟩
  obtain ⟨index, hindex, rfl⟩ := List.mem_mapIdx.mp hshown
  refine ⟨rfl, ?_⟩
  simp only [PictureReport.ofFields, List.length_map] at hindex ⊢
  simp only [Fields.follow, List.getElem_map, List.getElem?_eq_getElem hindex, Option.getD_some]

/-- What a popup shows stands in its record. -/
theorem PopupDecisions.isFrom_shown :
    ∀ shown ∈ (PopupDecisions.ofFields fields).shown, shown.IsFrom fields := by
  intro shown hshown
  obtain ⟨texts, htexts, hshown⟩ := List.mem_flatten.mp hshown
  obtain ⟨group, hgroup, rfl⟩ := List.mem_mapIdx.mp htexts
  obtain ⟨texts, htexts, hshown⟩ := List.mem_flatten.mp hshown
  obtain ⟨index, hindex, rfl⟩ := List.mem_mapIdx.mp htexts
  simp only [PopupDecisions.ofFields, List.length_map, List.getElem_map] at hgroup hindex hshown
  have hfollow : fields.follow [.item "SubscribeMsgPopupEvent" group, .item "List" index] =
      ((fields.records "SubscribeMsgPopupEvent")[group].records "List")[index] := by
    simp only [Fields.follow, List.getElem?_eq_getElem hgroup, Option.getD_some,
      List.getElem?_eq_getElem hindex]
  simp only [PopupDecision.shown, PopupDecision.ofFields, List.mem_cons, List.not_mem_nil,
    or_false] at hshown
  rcases hshown with rfl | rfl
  · exact ⟨rfl, by rw [hfollow]⟩
  · exact ⟨rfl, by rw [hfollow]⟩

/-- What an event shows stands in its record. -/
theorem Event.isFrom_shown : ∀ shown ∈ (Event.ofFields fields).shown, shown.IsFrom fields := by
  have hoptional {name : String} (hschema : declaresText schema [] name = true) :
      ShownText.IsFrom fields ⟨[], name, (fields.text? name).getD ""⟩ :=
    .outer hschema (getD_text? fields name).symm
  unfold Event.ofFields
  dsimp only
  -- The cases are the events in the order in which their names are matched.
  split <;> simp only [Event.shown]
  case h_1 =>
    unfold SceneScan.ofFields?
    cases fields.text? "EventKey" with
    | none => exact List.forall_mem_nil _
    | some key => exact List.forall_mem_singleton.mpr (.outer rfl rfl)
  case h_2 | h_4 | h_16 | h_17 | h_19 | h_20 | h_21 | h_22 => exact List.forall_mem_nil _
  case h_3 =>
    simp only [List.forall_mem_cons]
    exact ⟨.outer rfl rfl, .outer rfl rfl, List.forall_mem_nil _⟩
  case h_5 | h_14 | h_15 => exact List.forall_mem_singleton.mpr (.outer rfl rfl)
  case h_6 | h_13 =>
    simp only [List.forall_mem_cons]
    exact ⟨.outer rfl rfl, hoptional rfl, List.forall_mem_nil _⟩
  case h_7 | h_8 =>
    simp only [CodeScan.shown, List.forall_mem_cons]
    exact ⟨.outer rfl rfl, ⟨rfl, rfl⟩, ⟨rfl, rfl⟩, List.forall_mem_nil _⟩
  case h_9 | h_10 | h_11 => exact PictureReport.isFrom_shown
  case h_12 =>
    simp only [PlaceChoice.shown, List.forall_mem_cons]
    exact ⟨.outer rfl rfl, ⟨rfl, rfl⟩, ⟨rfl, rfl⟩, List.forall_mem_nil _⟩
  case h_18 => exact PopupDecisions.isFrom_shown

/-- What a body shows stands in its record. -/
theorem Body.isFrom_shown : ∀ shown ∈ (Body.ofFields fields).shown, shown.IsFrom fields := by
  have hoptional {name : String} (hschema : declaresText schema [] name = true) :
      ShownText.IsFrom fields ⟨[], name, (fields.text? name).getD ""⟩ :=
    .outer hschema (getD_text? fields name).symm
  unfold Body.ofFields
  dsimp only
  -- The cases are the bodies in the order in which their types are matched.
  split <;> simp only [Body.shown]
  case h_1 => exact List.forall_mem_cons.mpr ⟨.outer rfl rfl, ArticleSource.isFrom_shown⟩
  case h_2 =>
    simp only [List.cons_append, List.nil_append, List.forall_mem_cons]
    exact ⟨.outer rfl rfl, .outer rfl rfl, ArticleSource.isFrom_shown⟩
  case h_3 =>
    simp only [List.forall_mem_cons]
    exact ⟨.outer rfl rfl, .outer rfl rfl, hoptional rfl, hoptional rfl, List.forall_mem_nil _⟩
  case h_4 | h_5 =>
    simp only [VideoBody.shown, List.forall_mem_cons]
    exact ⟨.outer rfl rfl, .outer rfl rfl, List.forall_mem_nil _⟩
  case h_6 => exact List.forall_mem_singleton.mpr (.outer rfl rfl)
  case h_7 =>
    simp only [List.forall_mem_cons]
    exact ⟨.outer rfl rfl, .outer rfl rfl, .outer rfl rfl, List.forall_mem_nil _⟩
  case h_8 =>
    exact List.forall_mem_cons.mpr
      ⟨.outer rfl (Event.name_ofFields fields).symm, Event.isFrom_shown⟩
  case h_9 => exact List.forall_mem_nil _

/-- What a message shows stands in its record. -/
theorem isFrom_shown : ∀ shown ∈ (ofFields fields).shown, shown.IsFrom fields := by
  simp only [Message.shown, List.cons_append, List.nil_append, List.forall_mem_cons]
  exact ⟨.outer rfl rfl, .outer rfl rfl, .outer rfl (Body.type_ofFields fields).symm,
    Body.isFrom_shown⟩

/-- The message of a document shows the texts of its record: what it shows at a place is the text
that the record has there, and a text that is not empty is one that the record has. -/
theorem shown_texts_are_read_verbatim (h : Legible schema fields) {root : String}
    {document : List Char} (hroot : Markup.IsPlainName root.toList)
    (hdocument : DocumentWritten root fields document) :
    ∃ message, decode .xml (Utf8.encode document) = .ok message ∧
      ∀ shown ∈ message.shown,
        (∀ content, TextAt schema fields shown.path shown.name content →
          shown.content = content) ∧
        (shown.content ≠ "" → TextAt schema fields shown.path shown.name shown.content) := by
  obtain ⟨found, hfound⟩ := h.exists_collect areRegular_schema
  have hread := fieldsOf_document h hfound hroot hdocument
  refine ⟨ofFields found, by rw [decode, hread]; rfl, fun shown hshown => ?_⟩
  obtain ⟨hdeclared, htext⟩ := isFrom_shown shown hshown
  have hsame := h.textAt_iff areRegular_schema hfound shown.path shown.name
  refine ⟨fun content hcontent => ?_, fun hne => ?_⟩
  · exact htext.symm.trans ((hsame content).mp hcontent).text_follow
  · exact (hsame shown.content).mpr (textAt_of_text_follow hdeclared htext hne)

end Message

end CallbackGateway
