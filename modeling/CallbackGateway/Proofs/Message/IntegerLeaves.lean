import CallbackGateway.Proofs.Json.ReadBack
import CallbackGateway.Proofs.Message.LooseBody

/-!
# Integer leaves

A callback has ten leaves that are declared as integers, and the scenes of popup decisions, which
are declared as texts and read as integers when the message is put together. Whatever the format, a
blank text counts as an absent leaf, and a text that writes an integer of the range as this integer.
Any other text of a declared leaf makes the whole body unreadable; as a scene it counts as zero.

A leaf is followed by its text: a body is read under the schema that declares the leaf as a text,
which reads every body that is decoded and those in which this text is the only defect.
-/

namespace CallbackGateway.Message

open Markup Record Text

/-! ## Integers at paths -/

/-- The integer at a path, unless there is none or a blank. -/
def integerAt? (path : List String) (fields : Fields) : Option Int :=
  match (Value.record fields).at? path with
  | some (.integer n) => some n
  | _ => none

/-- An integer at a name is a field. -/
theorem integerAt?_singleton (name : String) (fields : Fields) :
    integerAt? [name] fields = fields.integer? name := by
  have hat : (Value.record fields).at? [name] = List.lookup name fields := by
    rw [Value.at?]
    cases List.lookup name fields <;> rfl
  rw [integerAt?, hat]
  rfl

/-- An integer at a longer path stands in a nested record. -/
theorem integerAt?_cons (name other : String) (path : List String) (fields : Fields) :
    integerAt? (name :: other :: path) fields =
      integerAt? (other :: path) (fields.record name) := by
  have hat : (Value.record fields).at? (name :: other :: path) =
      (Value.record (fields.record name)).at? (other :: path) := by
    rw [Value.at?, Fields.record]
    cases List.lookup name fields with
    | none => rfl
    | some value => cases value <;> rfl
  rw [integerAt?, hat, integerAt?]

/-- Where an absent integer counts as zero, so does a blank one. -/
theorem integerAt?_or_zero (name : String) (fields : Fields) :
    (integerAt? [name] fields).or (some 0) = some (fields.integer name) := by
  rw [integerAt?_singleton, Fields.integer]
  cases fields.integer? name <;> rfl

/-! ## Parts of messages -/

/-- The identifier of a body, if its type has one. -/
def Body.messageId? : Body → Option Int
  | .text body => some body.messageId
  | .image body => some body.messageId
  | .voice body => some body.messageId
  | .video body | .shortVideo body => some body.messageId
  | .location body => some body.messageId
  | .link body => some body.messageId
  | .event _ | .other _ => none

/-- The menu that a text was tapped in, if it was. -/
def Body.menuId? : Body → Option (Option Int)
  | .text body => some body.menuId
  | _ => none

/-- The article that a body was sent from, if its type has one and it is given. -/
def Body.source? : Body → Option ArticleSource
  | .text body => body.source
  | .image body => body.source
  | _ => none

/-- The event of a body. -/
def Body.event? : Body → Option Event
  | .event happened => some happened
  | _ => none

/-- The message that an event reports on. -/
def Event.reportId? : Event → Option Int
  | .templateSent messageId _ => some messageId
  | .massSent report => some report.messageId
  | _ => none

/-- The delivery report of an event. -/
def Event.massReport? : Event → Option MassSendReport
  | .massSent report => some report
  | _ => none

/-- The pictures of an event. -/
def Event.pictures? : Event → Option PictureReport
  | .cameraPictures report | .cameraOrAlbumPictures report | .albumPictures report => some report
  | _ => none

/-- The decisions of an event. -/
def Event.popup? : Event → Option PopupDecisions
  | .popup decisions => some decisions
  | _ => none

section Parts

variable {fields : Fields}

/-- Messages of these types show their id. -/
theorem Body.messageId?_ofFields (h : fields.text "MsgType" ∈
      ["text", "image", "voice", "video", "shortvideo", "location", "link"]) :
    (Body.ofFields fields).messageId? = some (fields.integer "MsgId") := by
  simp only [List.mem_cons, List.not_mem_nil, or_false] at h
  rw [Body.ofFields]
  rcases h with h | h | h | h | h | h | h <;> (rw [h]; rfl)

/-- A text shows its menu. -/
theorem Body.menuId?_ofFields (h : fields.text "MsgType" = "text") :
    (Body.ofFields fields).menuId? = some (fields.integer? "bizmsgmenuid") := by
  rw [Body.ofFields, h]
  rfl

/-- A text or an image shows its article. -/
theorem Body.source?_ofFields (h : fields.text "MsgType" ∈ ["text", "image"]) :
    (Body.ofFields fields).source? = ArticleSource.ofFields? fields := by
  simp only [List.mem_cons, List.not_mem_nil, or_false] at h
  rw [Body.ofFields]
  rcases h with h | h <;> (rw [h]; rfl)

/-- An event is shown. -/
theorem Body.event?_ofFields (h : fields.text "MsgType" = "event") :
    (Body.ofFields fields).event? = some (Event.ofFields fields) := by
  rw [Body.ofFields, h]
  rfl

/-- Delivery reports show their id. -/
theorem Event.reportId?_ofFields
    (h : fields.text "Event" ∈ ["TEMPLATESENDJOBFINISH", "MASSSENDJOBFINISH"]) :
    (Event.ofFields fields).reportId? = some (fields.integer "MsgID") := by
  simp only [List.mem_cons, List.not_mem_nil, or_false] at h
  rw [Event.ofFields]
  rcases h with h | h <;> (rw [h]; rfl)

/-- A report to many users is shown. -/
theorem Event.massReport?_ofFields (h : fields.text "Event" = "MASSSENDJOBFINISH") :
    (Event.ofFields fields).massReport? = some (MassSendReport.ofFields fields) := by
  rw [Event.ofFields, h]
  rfl

/-- Pictures are shown. -/
theorem Event.pictures?_ofFields
    (h : fields.text "Event" ∈ ["pic_sysphoto", "pic_photo_or_album", "pic_weixin"]) :
    (Event.ofFields fields).pictures? = some (PictureReport.ofFields fields) := by
  simp only [List.mem_cons, List.not_mem_nil, or_false] at h
  rw [Event.ofFields]
  rcases h with h | h | h <;> (rw [h]; rfl)

/-- A popup is shown. -/
theorem Event.popup?_ofFields (h : fields.text "Event" = "subscribe_msg_popup_event") :
    (Event.ofFields fields).popup? = some (PopupDecisions.ofFields fields) := by
  rw [Event.ofFields, h]
  rfl

end Parts

/-! ## Declared leaves -/

/-- A leaf that is declared as an integer. -/
inductive DeclaredLeaf
  | createTime
  | messageId
  /-- The message that an event reports on. -/
  | reportId
  | menuId
  | articleIndex
  | totalCount
  | filterCount
  | sentCount
  | errorCount
  | pictureCount
  deriving DecidableEq, Repr

namespace DeclaredLeaf

/-- The field that holds a leaf. -/
def field : DeclaredLeaf → String
  | createTime => "CreateTime"
  | messageId => "MsgId"
  | reportId => "MsgID"
  | menuId => "bizmsgmenuid"
  | articleIndex => "Idx"
  | totalCount => "TotalCount"
  | filterCount => "FilterCount"
  | sentCount => "SentCount"
  | errorCount => "ErrorCount"
  | pictureCount => "SendPicsInfo"

/-- The way to a leaf in the field that holds it. -/
def inner : DeclaredLeaf → List String
  | pictureCount => ["Count"]
  | _ => []

/-- The integers that a leaf may be. -/
def range : DeclaredLeaf → IntegerRange
  | articleIndex | pictureCount => .unsigned32
  | _ => .signed64

/-- What an absent leaf counts as. -/
def absent : DeclaredLeaf → Option Int
  | menuId => none
  | _ => some 0

/-- The schema of callbacks with a text for a leaf. -/
def looseSchema (leaf : DeclaredLeaf) : Schema := loosenAt leaf.field leaf.inner schema

/-- Whether a record announces a kind of message or event that has a leaf. -/
def UsedBy (leaf : DeclaredLeaf) (fields : Fields) : Prop :=
  match leaf with
  | createTime => True
  | messageId =>
    fields.text "MsgType" ∈ ["text", "image", "voice", "video", "shortvideo", "location", "link"]
  | reportId => fields.text "MsgType" = "event" ∧
    fields.text "Event" ∈ ["TEMPLATESENDJOBFINISH", "MASSSENDJOBFINISH"]
  | menuId => fields.text "MsgType" = "text"
  | articleIndex => fields.text "MsgType" ∈ ["text", "image"] ∧ fields.text "MsgDataId" ≠ ""
  | totalCount | filterCount | sentCount | errorCount =>
    fields.text "MsgType" = "event" ∧ fields.text "Event" = "MASSSENDJOBFINISH"
  | pictureCount => fields.text "MsgType" = "event" ∧
    fields.text "Event" ∈ ["pic_sysphoto", "pic_photo_or_album", "pic_weixin"]

/-- What a message shows for a leaf, if it has the leaf. -/
def shown? (leaf : DeclaredLeaf) (message : Message) : Option (Option Int) :=
  match leaf with
  | createTime => some (some message.header.createTime)
  | messageId => message.body.messageId?.map some
  | reportId => (message.body.event?.bind Event.reportId?).map some
  | menuId => message.body.menuId?
  | articleIndex => message.body.source?.map fun source => some source.index
  | totalCount => (message.body.event?.bind Event.massReport?).map fun report =>
    some report.totalCount
  | filterCount => (message.body.event?.bind Event.massReport?).map fun report =>
    some report.filterCount
  | sentCount => (message.body.event?.bind Event.massReport?).map fun report =>
    some report.sentCount
  | errorCount => (message.body.event?.bind Event.massReport?).map fun report =>
    some report.errorCount
  | pictureCount => (message.body.event?.bind Event.pictures?).map fun report => some report.count

/-- What a record says about a leaf. -/
def valueIn (leaf : DeclaredLeaf) (fields : Fields) : Option Int :=
  (integerAt? (leaf.field :: leaf.inner) fields).or leaf.absent

variable {leaf : DeclaredLeaf} {fields : Fields}

/-- The schema declares every integer leaf. -/
theorem hasInteger (leaf : DeclaredLeaf) :
    (Kind.record schema).HasInteger leaf.range (leaf.field :: leaf.inner) := by
  cases leaf with
  | pictureCount =>
    refine hasInteger_of_lookup schema_nodup rfl ?_
    exact hasInteger_of_lookup (by decide) rfl rfl
  | _ => exact hasInteger_of_lookup schema_nodup rfl rfl

/-- No schema in which a leaf is a text declares a name twice. -/
theorem isDistinct_looseSchema (leaf : DeclaredLeaf) :
    (Kind.record leaf.looseSchema).isDistinct = true := by
  cases leaf <;> decide +kernel

/-- The fields that tell the kind of a message are no leaves. -/
theorem usedBy_of_text_eq {others : Fields}
    (h : ∀ name ∈ ["MsgType", "Event", "MsgDataId"], others.text name = fields.text name) :
    leaf.UsedBy others ↔ leaf.UsedBy fields := by
  simp only [List.forall_mem_cons] at h
  obtain ⟨htype, hevent, hdata, -⟩ := h
  unfold UsedBy
  rw [htype, hevent, hdata]

/-- A message of a kind that has a leaf shows what its record says about the leaf. -/
theorem shown?_ofFields (h : leaf.UsedBy fields) :
    leaf.shown? (ofFields fields) = some (leaf.valueIn fields) := by
  have hzero (name : String) :
      (integerAt? [name] fields).or (some 0) = some (fields.integer name) :=
    integerAt?_or_zero name fields
  have hmass (h : fields.text "MsgType" = "event" ∧ fields.text "Event" = "MASSSENDJOBFINISH") :
      (Body.ofFields fields).event?.bind Event.massReport? =
        some (MassSendReport.ofFields fields) := by
    rw [Body.event?_ofFields h.1]
    exact Event.massReport?_ofFields h.2
  cases leaf with
  | createTime => exact congrArg some (hzero "CreateTime").symm
  | messageId =>
    dsimp only [shown?, ofFields, valueIn, field, inner, absent]
    rw [Body.messageId?_ofFields h, hzero, Option.map_some]
  | reportId =>
    obtain ⟨htype, hevent⟩ := h
    have hid := Event.reportId?_ofFields hevent
    dsimp only [shown?, ofFields, valueIn, field, inner, absent]
    rw [Body.event?_ofFields htype, Option.bind_some, hid, hzero, Option.map_some]
  | menuId =>
    dsimp only [shown?, ofFields, valueIn, field, inner, absent]
    rw [Body.menuId?_ofFields h, integerAt?_singleton, Option.or_none]
  | articleIndex =>
    obtain ⟨htype, hdata⟩ := h
    dsimp only [shown?, ofFields, valueIn, field, inner, absent]
    rw [Body.source?_ofFields htype, ArticleSource.ofFields?, Fields.text?, if_neg hdata, hzero]
    rfl
  | totalCount | filterCount | sentCount | errorCount =>
    dsimp only [shown?, ofFields, valueIn, field, inner, absent]
    rw [hmass h, hzero]
    rfl
  | pictureCount =>
    obtain ⟨htype, hevent⟩ := h
    have hpictures := Event.pictures?_ofFields hevent
    dsimp only [shown?, ofFields, valueIn, field, inner, absent]
    rw [Body.event?_ofFields htype, Option.bind_some, hpictures, integerAt?_cons,
      integerAt?_or_zero]
    rfl

/-- A leaf that is an integer or blank is read as what it is. -/
theorem exists_decode_of_readLeaf {format : WireFormat} {body : Bytes} {loose : Fields}
    {text : String} {value : Value} (hread : fieldsUnder leaf.looseSchema format body = .ok loose)
    (hused : leaf.UsedBy loose)
    (htext : (Value.record loose).at? (leaf.field :: leaf.inner) = some (.text text))
    (hleaf : (Kind.integer leaf.range).readLeaf text.toList = .ok value) :
    ∃ tight, decode format body = .ok (ofFields tight) ∧ leaf.UsedBy tight ∧
      (Value.record tight).at? (leaf.field :: leaf.inner) = some value := by
  obtain ⟨hfields, hrepeats⟩ := fieldsOf_loosen leaf.hasInteger leaf.isDistinct_looseSchema hread
  obtain ⟨found, htight, hvalue⟩ := exists_tighten_of_text hrepeats htext hleaf
  rw [tighten_record] at htight
  obtain ⟨tight, hcollect, rfl⟩ := exists_of_map_eq_ok htight
  rw [hcollect] at hfields
  refine ⟨tight, ?_, ?_, hvalue⟩
  · rw [decode, hfields]
    rfl
  · refine (usedBy_of_text_eq fun name hname => ?_).mpr hused
    have hother : name ≠ leaf.field := by
      rintro rfl
      revert hname
      cases leaf <;> decide
    exact text_of_collect_tightenField hrepeats.1 hother hcollect

/-- A leaf that is no integer is the error of the whole body. -/
theorem decode_of_readLeaf_error {format : WireFormat} {body : Bytes} {loose : Fields}
    {text : String} {e : RecordError}
    (hread : fieldsUnder leaf.looseSchema format body = .ok loose)
    (htext : (Value.record loose).at? (leaf.field :: leaf.inner) = some (.text text))
    (hleaf : (Kind.integer leaf.range).readLeaf text.toList = .error e) :
    decode format body = .error (.record format e) := by
  obtain ⟨hfields, hrepeats⟩ := fieldsOf_loosen leaf.hasInteger leaf.isDistinct_looseSchema hread
  have htight := tighten_of_text_error hrepeats htext hleaf
  rw [tighten_record] at htight
  cases hcollect : collect (tightenField leaf.range leaf.field leaf.inner) loose with
  | ok tight =>
    rw [hcollect] at htight
    cases htight
  | error cause =>
    rw [hcollect] at htight hfields
    obtain rfl : cause = e := Except.error.inj htight
    rw [decode, hfields]
    rfl

end DeclaredLeaf

/-! ## Leaves -/

/-- An integer leaf of a callback. -/
inductive IntegerLeaf
  | declared (leaf : DeclaredLeaf)
  /-- The scene of a decision in a group of a popup. -/
  | popupScene (group item : Nat)
  deriving DecidableEq, Repr

namespace IntegerLeaf

/-- The integers that a leaf may be. -/
def range : IntegerLeaf → IntegerRange
  | declared leaf => leaf.range
  | popupScene _ _ => .unsigned32

/-- What an absent leaf counts as. -/
def absent : IntegerLeaf → Option Int
  | declared leaf => leaf.absent
  | popupScene _ _ => some 0

/-- The schema of callbacks with a text for a leaf; a scene is a text anyway. -/
def looseSchema : IntegerLeaf → Schema
  | declared leaf => leaf.looseSchema
  | popupScene _ _ => schema

/-- Whether a leaf is declared as an integer. -/
def isDeclared : IntegerLeaf → Bool
  | declared _ => true
  | popupScene _ _ => false

/-- Whether a record announces a kind of message or event that has a leaf. -/
def UsedBy (leaf : IntegerLeaf) (fields : Fields) : Prop :=
  match leaf with
  | declared leaf => leaf.UsedBy fields
  | popupScene _ _ => fields.text "MsgType" = "event" ∧
    fields.text "Event" = "subscribe_msg_popup_event"

/-- Whether a record has a text for a leaf. -/
def HasText (leaf : IntegerLeaf) (fields : Fields) (text : String) : Prop :=
  match leaf with
  | declared leaf => (Value.record fields).at? (leaf.field :: leaf.inner) = some (.text text)
  | popupScene group item => ∃ decisions decision,
    (fields.records "SubscribeMsgPopupEvent")[group]? = some decisions ∧
      (decisions.records "List")[item]? = some decision ∧
      List.lookup "PopupScene" decision = some (.text text)

/-- What a message shows for a leaf, if it has the leaf. -/
def shown? (leaf : IntegerLeaf) (message : Message) : Option (Option Int) :=
  match leaf with
  | declared leaf => leaf.shown? message
  | popupScene group item =>
    (message.body.event?.bind Event.popup?).bind fun popup =>
      popup.groups[group]?.bind fun decisions =>
        decisions[item]?.map fun decision => some decision.scene

/-- What becomes of a body in which a leaf has a text, if that is its only defect: if the text is
blank, the leaf counts as absent; if it writes an integer of the range, the leaf is this integer;
and if it does neither, the body is unreadable, or the leaf counts as zero where it is not
declared. -/
structure ReadsText (leaf : IntegerLeaf) (format : WireFormat) (body : Bytes) (text : List Char) :
    Prop where
  blank (h : text = []) :
    ∃ message, decode format body = .ok message ∧ leaf.shown? message = some leaf.absent
  integer (n : Int) (h : IsIntegerText leaf.range text n) :
    ∃ message, decode format body = .ok message ∧ leaf.shown? message = some (some n)
  refused (hdeclared : leaf.isDeclared = true) (hne : text ≠ [])
    (h : ∀ n, ¬ IsIntegerText leaf.range text n) :
    decode format body = .error (.record format (.notANumber text))
  replaced (hdeclared : leaf.isDeclared = false) (hne : text ≠ [])
    (h : ∀ n, ¬ IsIntegerText leaf.range text n) :
    ∃ message, decode format body = .ok message ∧ leaf.shown? message = some (some 0)

variable {leaf : IntegerLeaf} {format : WireFormat} {body : Bytes} {loose : Fields} {text : String}

/-- A scene is read from its text, and is zero if that is no number. -/
theorem exists_decode_popupScene {group item : Nat} (hread : fieldsOf format body = .ok loose)
    (hused : (popupScene group item).UsedBy loose)
    (htext : (popupScene group item).HasText loose text) :
    ∃ message, decode format body = .ok message ∧ (popupScene group item).shown? message =
      some (some ((IntegerRange.unsigned32.read? (trim text.toList)).getD 0)) := by
  obtain ⟨decisions, decision, hgroup, hitem, hscene⟩ := htext
  have hpopup : (Body.ofFields loose).event?.bind Event.popup? =
      some (PopupDecisions.ofFields loose) := by
    rw [Body.event?_ofFields hused.1]
    exact Event.popup?_ofFields hused.2
  have hcontent : decision.text "PopupScene" = text := by
    rw [Fields.text, hscene]
  refine ⟨ofFields loose, ?_, ?_⟩
  · rw [decode, hread]
    rfl
  · dsimp only [shown?, ofFields]
    rw [hpopup, Option.bind_some, PopupDecisions.ofFields, List.getElem?_map, hgroup,
      Option.map_some, Option.bind_some, List.getElem?_map, hitem, Option.map_some,
      Option.map_some, PopupDecision.ofFields, hcontent]

/-- The text of a declared leaf is read, or it is the error of the whole body. -/
theorem readsText_declared {leaf : DeclaredLeaf}
    (hread : fieldsUnder leaf.looseSchema format body = .ok loose) (hused : leaf.UsedBy loose)
    (htext : (declared leaf).HasText loose text) :
    (declared leaf).ReadsText format body (trim text.toList) := by
  have hshown {value : Value} {shown : Option Int}
      (hleaf : (Kind.integer leaf.range).readLeaf text.toList = .ok value)
      (hvalue : ∀ tight, (Value.record tight).at? (leaf.field :: leaf.inner) = some value →
        leaf.valueIn tight = shown) :
      ∃ message, decode format body = .ok message ∧ leaf.shown? message = some shown := by
    obtain ⟨tight, hdecode, htight, hat⟩ :=
      DeclaredLeaf.exists_decode_of_readLeaf hread hused htext hleaf
    exact ⟨ofFields tight, hdecode,
      (DeclaredLeaf.shown?_ofFields htight).trans (congrArg some (hvalue tight hat))⟩
  refine ⟨fun hblank => ?_, fun n hn => ?_, fun _ hne hnone => ?_, nofun⟩
  · refine hshown (readLeaf_blank hblank) fun tight hat => ?_
    rw [DeclaredLeaf.valueIn, integerAt?, hat]
    rfl
  · refine hshown (readLeaf_integer hn) fun tight hat => ?_
    rw [DeclaredLeaf.valueIn, integerAt?, hat]
    rfl
  · exact DeclaredLeaf.decode_of_readLeaf_error hread htext (readLeaf_notANumber hne hnone)

/-- The text of a scene is read, or the scene is zero. -/
theorem readsText_popupScene {group item : Nat} (hread : fieldsOf format body = .ok loose)
    (hused : (popupScene group item).UsedBy loose)
    (htext : (popupScene group item).HasText loose text) :
    (popupScene group item).ReadsText format body (trim text.toList) := by
  obtain ⟨message, hdecode, hscene⟩ := exists_decode_popupScene hread hused htext
  have hshown {n : Int} (hn : (IntegerRange.unsigned32.read? (trim text.toList)).getD 0 = n) :
      ∃ message, decode format body = .ok message ∧
        (popupScene group item).shown? message = some (some n) :=
    ⟨message, hdecode, hn ▸ hscene⟩
  refine ⟨fun hblank => ?_, fun n hn => ?_, nofun, fun _ _ hnone => ?_⟩
  · refine hshown ?_
    rw [hblank]
    rfl
  · have hsome : IntegerRange.unsigned32.read? (trim text.toList) = some n :=
      IntegerRange.read?_eq_some_iff.mpr hn
    refine hshown ?_
    rw [hsome, Option.getD_some]
  · have hrefused : IntegerRange.unsigned32.read? (trim text.toList) = none :=
      Option.eq_none_iff_forall_ne_some.mpr fun n hn =>
        hnone n (IntegerRange.read?_eq_some_iff.mp hn)
    refine hshown ?_
    rw [hrefused, Option.getD_none]

/-- In a body that is decoded, the text of a declared leaf is blank or an integer. -/
theorem blank_or_integer_of_decode {leaf : DeclaredLeaf} {message : Message}
    (hread : fieldsUnder leaf.looseSchema format body = .ok loose)
    (htext : (declared leaf).HasText loose text) (h : decode format body = .ok message) :
    trim text.toList = [] ∨ ∃ n, IsIntegerText leaf.range (trim text.toList) n := by
  by_contra hneither
  obtain ⟨hne, hnone⟩ := not_or.mp hneither
  rw [DeclaredLeaf.decode_of_readLeaf_error hread htext
    (readLeaf_notANumber hne (not_exists.mp hnone))] at h
  cases h

end IntegerLeaf

/-- Whatever the format and the text of an integer leaf, a body in which this text is the only
defect is read with the leaf absent or an integer, as the text says, or refused; as the scene of a
popup, a text that is no number counts as zero instead. So a body is only decoded if each of its
declared leaves is blank, an integer or not there. -/
theorem integer_leaves_are_read_or_refused (leaf : IntegerLeaf) (format : WireFormat)
    (body : Bytes) :
    (∀ loose text, fieldsUnder leaf.looseSchema format body = .ok loose → leaf.UsedBy loose →
      leaf.HasText loose text → leaf.ReadsText format body (trim text.toList)) ∧
    (leaf.isDeclared = true → ∀ message, decode format body = .ok message →
      ∃ loose, fieldsUnder leaf.looseSchema format body = .ok loose ∧
        ∀ text, leaf.HasText loose text →
          trim text.toList = [] ∨ ∃ n, IsIntegerText leaf.range (trim text.toList) n) := by
  cases leaf with
  | declared leaf =>
    refine ⟨fun loose text => IntegerLeaf.readsText_declared, fun _ message hdecode => ?_⟩
    obtain ⟨fields, hfields, -⟩ := exists_of_map_eq_ok hdecode
    obtain ⟨loose, hread⟩ := exists_fieldsUnder_loosen leaf.hasInteger hfields
    exact ⟨loose, hread, fun text htext =>
      IntegerLeaf.blank_or_integer_of_decode hread htext hdecode⟩
  | popupScene group item =>
    refine ⟨fun loose text hread => ?_, nofun⟩
    exact IntegerLeaf.readsText_popupScene ((fieldsUnder_schema format body).symm.trans hread)

/-- A callback that reports a number of pictures. -/
def picturesMembers (count : String) : List (String × Json.Value) :=
  [("Event", .string "pic_weixin"), ("MsgType", .string "event"),
    ("SendPicsInfo", .object [("Count", .string count)])]

/-- A callback that reports a decision with a scene. -/
def sceneMembers (scene : String) : List (String × Json.Value) :=
  [("Event", .string "subscribe_msg_popup_event"), ("MsgType", .string "event"),
    ("SubscribeMsgPopupEvent", .object [("List", .object [("PopupScene", .string scene)])])]

/-- A body with a number of pictures is the value that was written. -/
theorem read?_picturesMembers (count : String) :
    Json.Value.read? (Json.Value.object (picturesMembers count)).toBytes =
      some (.object (picturesMembers count)) := by
  have hvalues : ∀ member ∈ picturesMembers count, Json.Stable 126 member.2 := by
    simp only [picturesMembers, List.forall_mem_cons]
    exact ⟨.string _, .string _, .sole (.string _), nofun⟩
  exact Json.Stable.read?_toBytes
    (.of_names ["Event", "MsgType", "SendPicsInfo"] rfl (by decide) hvalues)

/-- A body with a scene is the value that was written. -/
theorem read?_sceneMembers (scene : String) :
    Json.Value.read? (Json.Value.object (sceneMembers scene)).toBytes =
      some (.object (sceneMembers scene)) := by
  have hvalues : ∀ member ∈ sceneMembers scene, Json.Stable 126 member.2 := by
    simp only [sceneMembers, List.forall_mem_cons]
    exact ⟨.string _, .string _, .sole (.sole (.string _)), nofun⟩
  exact Json.Stable.read?_toBytes
    (.of_names ["Event", "MsgType", "SubscribeMsgPopupEvent"] rfl (by decide) hvalues)

/-- The number of pictures is read as a text where it is declared as one. -/
theorem fieldsUnder_picturesMembers (count : String) :
    fieldsUnder (IntegerLeaf.declared .pictureCount).looseSchema .json
        (Json.Value.object (picturesMembers count)).toBytes =
      .ok [("Event", .text "pic_weixin"), ("MsgType", .text "event"),
        ("SendPicsInfo", .record [("Count", .text count)])] := by
  rw [fieldsUnder, read?_picturesMembers]
  conv_rhs => rw [← @String.ofList_toList count]
  rfl

/-- The scene of a decision is read as a text. -/
theorem fieldsOf_sceneMembers (scene : String) :
    fieldsOf .json (Json.Value.object (sceneMembers scene)).toBytes =
      .ok [("Event", .text "subscribe_msg_popup_event"), ("MsgType", .text "event"),
        ("SubscribeMsgPopupEvent",
          .records [[("List", .records [[("PopupScene", .text scene)]])]])] := by
  rw [fieldsOf, fieldsOfJson, read?_sceneMembers]
  conv_rhs => rw [← @String.ofList_toList scene]
  rfl

/-- The number of pictures with white space around it, as white space alone, and as a decimal
fraction. -/
theorem integer_leaves_are_read_or_refused_pictures :
    (∃ message, decode .json (Json.Value.object (picturesMembers " 2 ")).toBytes = .ok message ∧
      (IntegerLeaf.declared .pictureCount).shown? message = some (some 2)) ∧
    (∃ message, decode .json (Json.Value.object (picturesMembers " ")).toBytes = .ok message ∧
      (IntegerLeaf.declared .pictureCount).shown? message = some (some 0)) ∧
    decode .json (Json.Value.object (picturesMembers "2.0")).toBytes =
      .error (.record .json (.notANumber "2.0".toList)) := by
  have hused (count : String) : (IntegerLeaf.declared .pictureCount).UsedBy
      [("Event", .text "pic_weixin"), ("MsgType", .text "event"),
        ("SendPicsInfo", .record [("Count", .text count)])] :=
    ⟨rfl, List.mem_cons_of_mem _ (List.mem_cons_of_mem _ List.mem_cons_self)⟩
  have htext (count : String) : (IntegerLeaf.declared .pictureCount).HasText
      [("Event", .text "pic_weixin"), ("MsgType", .text "event"),
        ("SendPicsInfo", .record [("Count", .text count)])] count := rfl
  have hinteger : IsIntegerText .unsigned32 (trim " 2 ".toList) 2 :=
    IntegerRange.read?_eq_some_iff.mp (by decide)
  have hrefused (n : Int) : ¬ IsIntegerText .unsigned32 (trim "2.0".toList) n := fun hn =>
    Option.some_ne_none n ((IntegerRange.read?_eq_some_iff.mpr hn).symm.trans (by decide))
  have hreads (count : String) :=
    (integer_leaves_are_read_or_refused (.declared .pictureCount) .json
      (Json.Value.object (picturesMembers count)).toBytes).1 _ count
    (fieldsUnder_picturesMembers count) (hused count) (htext count)
  exact ⟨(hreads " 2 ").integer 2 hinteger, (hreads " ").blank (by decide),
    (hreads "2.0").refused rfl (by decide) hrefused⟩

/-- A scene that is no number passes for the scene zero. -/
theorem scene_without_number_counts_as_zero :
    (∃ message, decode .json (Json.Value.object (sceneMembers "soon")).toBytes = .ok message ∧
      (IntegerLeaf.popupScene 0 0).shown? message = some (some 0)) ∧
    trim "soon".toList ≠ [] ∧ ∀ n, ¬ IsIntegerText .unsigned32 (trim "soon".toList) n := by
  have hdecode : decode .json (Json.Value.object (sceneMembers "soon")).toBytes = _ :=
    decode_of_fieldsOf (fieldsOf_sceneMembers "soon")
  have hrefused (n : Int) : ¬ IsIntegerText .unsigned32 (trim "soon".toList) n := fun hn =>
    Option.some_ne_none n ((IntegerRange.read?_eq_some_iff.mpr hn).symm.trans (by decide))
  exact ⟨⟨_, hdecode, rfl⟩, by decide, hrefused⟩

end CallbackGateway.Message
