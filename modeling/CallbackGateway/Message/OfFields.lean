import CallbackGateway.Message.Basic
import CallbackGateway.Record.Schema

/-!
# Messages from records

The fields of a record are folded into the one kind of message or event that the record
announces; fields that this kind does not use are dropped.
-/

namespace CallbackGateway.Message

open Record Text

/-- The article that a record names, if it names one. -/
def ArticleSource.ofFields? (fields : Fields) : Option ArticleSource :=
  (fields.text? "MsgDataId").map fun dataId => ⟨dataId, fields.integer "Idx"⟩

/-- The video of a record. -/
def VideoBody.ofFields (fields : Fields) : VideoBody :=
  ⟨fields.integer "MsgId", fields.text "MediaId", fields.text "ThumbMediaId"⟩

/-- The scanned code of a record. -/
def CodeScan.ofFields (fields : Fields) : CodeScan :=
  let info := fields.record "ScanCodeInfo"
  ⟨fields.text "EventKey", info.text "ScanType", info.text "ScanResult"⟩

/-- The pictures of a record. -/
def PictureReport.ofFields (fields : Fields) : PictureReport :=
  let info := fields.record "SendPicsInfo"
  ⟨fields.text "EventKey", info.integer "Count",
    ((info.record "PicList").records "item").map (·.text "PicMd5Sum")⟩

/-- The chosen place of a record. -/
def PlaceChoice.ofFields (fields : Fields) : PlaceChoice :=
  let info := fields.record "SendLocationInfo"
  ⟨fields.text "EventKey", info.real "Location_X", info.real "Location_Y", info.real "Scale",
    info.text "Label", info.text "Poiname"⟩

/-- The delivery report of a record. -/
def MassSendReport.ofFields (fields : Fields) : MassSendReport :=
  ⟨fields.integer "MsgID", fields.text "Status", fields.integer "TotalCount",
    fields.integer "FilterCount", fields.integer "SentCount", fields.integer "ErrorCount"⟩

/-- One decision of a popup. A scene that is no number counts as zero. -/
def PopupDecision.ofFields (fields : Fields) : PopupDecision :=
  ⟨fields.text "TemplateId", fields.text "SubscribeStatusString",
    (IntegerRange.unsigned32.read? (trim (fields.text "PopupScene").toList)).getD 0⟩

/-- The decisions of a record, in groups. -/
def PopupDecisions.ofFields (fields : Fields) : PopupDecisions where
  groups := (fields.records "SubscribeMsgPopupEvent").map fun group =>
    (group.records "List").map PopupDecision.ofFields

/-- The start of the key of a scene that led to a subscription. -/
def sceneMark : List Char := "qrscene_".toList

/-- The key of a scene without its mark. -/
def withoutMark (key : String) : String :=
  if sceneMark.isPrefixOf key.toList then String.ofList (key.toList.drop sceneMark.length)
  else key

/-- The scene of a subscription, if a key is given. -/
def SceneScan.ofFields? (fields : Fields) : Option SceneScan :=
  (fields.text? "EventKey").map fun key => ⟨withoutMark key, fields.text "Ticket"⟩

/-- The event of a record. -/
def Event.ofFields (fields : Fields) : Event :=
  let key := fields.text "EventKey"
  match fields.text "Event" with
  | "subscribe" => .subscribe (SceneScan.ofFields? fields)
  | "unsubscribe" => .unsubscribe
  | "SCAN" => .scan ⟨key, fields.text "Ticket"⟩
  | "LOCATION" =>
    .location ⟨fields.real "Latitude", fields.real "Longitude", fields.real "Precision"⟩
  | "CLICK" => .click key
  | "VIEW" => .view key (fields.text? "MenuId")
  | "scancode_push" => .scanCodePush (CodeScan.ofFields fields)
  | "scancode_waitmsg" => .scanCodeWait (CodeScan.ofFields fields)
  | "pic_sysphoto" => .cameraPictures (PictureReport.ofFields fields)
  | "pic_photo_or_album" => .cameraOrAlbumPictures (PictureReport.ofFields fields)
  | "pic_weixin" => .albumPictures (PictureReport.ofFields fields)
  | "location_select" => .placeChosen (PlaceChoice.ofFields fields)
  | "view_miniprogram" => .viewMiniProgram key (fields.text? "MenuId")
  | "TEMPLATESENDJOBFINISH" => .templateSent (fields.integer "MsgID") (fields.text "Status")
  | "MASSSENDJOBFINISH" => .massSent (MassSendReport.ofFields fields)
  | "PUBLISHJOBFINISH" => .published
  | "wxa_media_check" => .mediaChecked
  | "subscribe_msg_popup_event" => .popup (PopupDecisions.ofFields fields)
  | "weapp_audit_success" => .auditPassed
  | "weapp_audit_fail" => .auditFailed
  | "weapp_audit_delay" => .auditDelayed
  | name => .other name

/-- The body of a record. -/
def Body.ofFields (fields : Fields) : Body :=
  let messageId := fields.integer "MsgId"
  match fields.text "MsgType" with
  | "text" =>
    .text ⟨messageId, fields.text "Content", fields.integer? "bizmsgmenuid",
      ArticleSource.ofFields? fields⟩
  | "image" =>
    .image ⟨messageId, fields.text "PicUrl", fields.text "MediaId",
      ArticleSource.ofFields? fields⟩
  | "voice" =>
    .voice ⟨messageId, fields.text "MediaId", fields.text "Format", fields.text? "Recognition",
      fields.text? "MediaId16K"⟩
  | "video" => .video (VideoBody.ofFields fields)
  | "shortvideo" => .shortVideo (VideoBody.ofFields fields)
  | "location" =>
    .location ⟨messageId, fields.real "Location_X", fields.real "Location_Y",
      fields.real "Scale", fields.text "Label"⟩
  | "link" =>
    .link ⟨messageId, fields.text "Title", fields.text "Description", fields.text "Url"⟩
  | "event" => .event (Event.ofFields fields)
  | type => .other type

/-- The header of a record. -/
def Header.ofFields (fields : Fields) : Header :=
  ⟨fields.text "ToUserName", fields.text "FromUserName", fields.integer "CreateTime"⟩

/-- The message of a record. -/
def ofFields (fields : Fields) : Message := ⟨Header.ofFields fields, Body.ofFields fields⟩

/-- The name of an event is the word that the record announces it with. -/
theorem Event.name_ofFields (fields : Fields) :
    (Event.ofFields fields).name = fields.text "Event" := by
  unfold Event.ofFields
  dsimp only
  split <;> simp_all [Event.name]

/-- The type of a body is the word that the record announces it with. -/
theorem Body.type_ofFields (fields : Fields) :
    (Body.ofFields fields).type = fields.text "MsgType" := by
  unfold Body.ofFields
  dsimp only
  split <;> simp_all [Body.type]

end CallbackGateway.Message
