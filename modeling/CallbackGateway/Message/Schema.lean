import CallbackGateway.Record.Schema

/-!
# The schema of callbacks

All messages and events share one flat record, in which each kind uses some of the fields.
-/

namespace CallbackGateway.Message

open Record Text

/-- The code that was scanned. -/
def codeScanSchema : Schema := [("ScanType", .text), ("ScanResult", .text)]

/-- The pictures that were sent. -/
def picturesSchema : Schema :=
  [("Count", .integer .unsigned32),
    ("PicList", .record [("item", .records [("PicMd5Sum", .text)])])]

/-- The place that was chosen. -/
def placeSchema : Schema :=
  [("Location_X", .real), ("Location_Y", .real), ("Scale", .real), ("Label", .text),
    ("Poiname", .text)]

/-- A group of decisions in a popup. -/
def popupSchema : Schema :=
  [("List", .records
    [("TemplateId", .text), ("SubscribeStatusString", .text), ("PopupScene", .text)])]

/-- The fields of a callback. -/
def schema : Schema :=
  [("ToUserName", .text),
    ("FromUserName", .text),
    ("CreateTime", .integer .signed64),
    ("MsgType", .text),
    ("MsgId", .integer .signed64),
    ("MsgID", .integer .signed64),
    ("Content", .text),
    ("Recognition", .text),
    ("PicUrl", .text),
    ("MediaId", .text),
    ("Format", .text),
    ("ThumbMediaId", .text),
    ("Location_X", .real),
    ("Location_Y", .real),
    ("Scale", .real),
    ("Label", .text),
    ("Title", .text),
    ("Description", .text),
    ("Url", .text),
    ("bizmsgmenuid", .integer .signed64),
    ("MsgDataId", .text),
    ("Idx", .integer .unsigned32),
    ("MediaId16K", .text),
    ("Event", .text),
    ("EventKey", .text),
    ("Ticket", .text),
    ("Latitude", .real),
    ("Longitude", .real),
    ("Precision", .real),
    ("MenuId", .text),
    ("Status", .text),
    ("TotalCount", .integer .signed64),
    ("FilterCount", .integer .signed64),
    ("SentCount", .integer .signed64),
    ("ErrorCount", .integer .signed64),
    ("ScanCodeInfo", .record codeScanSchema),
    ("SendPicsInfo", .record picturesSchema),
    ("SendLocationInfo", .record placeSchema),
    ("SubscribeMsgPopupEvent", .records popupSchema)]

/-- No field is declared twice. -/
theorem schema_nodup : (schema.map Prod.fst).Nodup := by decide +kernel

end CallbackGateway.Message
