import CallbackGateway.Message.OfFields
import CallbackGateway.Proofs.Record.Alike

/-!
# What messages are made of

A callback is one flat record, and each kind of message or event uses some of its fields. No
other field reaches the message: not one of another kind, not one whose name differs in the case
of a letter, and not one of the same name in a nested record. What the fields are is told from
the message, because an index counts only with an article and a ticket only with a scene.

A message only depends on what its record says under the names of these fields. In particular,
records that say the same are one message.
-/

namespace CallbackGateway

namespace Message

open Record

/-! ## The fields of a message -/

/-- The fields of an article: an index counts only with an article. -/
def ArticleSource.ownFields : Option ArticleSource → List String
  | none => ["MsgDataId"]
  | some _ => ["MsgDataId", "Idx"]

/-- The fields of a scene: a ticket counts only with a scene. -/
def SceneScan.ownFields : Option SceneScan → List String
  | none => ["EventKey"]
  | some _ => ["EventKey", "Ticket"]

/-- The fields that reach an event, besides its name. -/
def Event.ownFields : Event → List String
  | .subscribe scene => SceneScan.ownFields scene
  | .scan _ => ["EventKey", "Ticket"]
  | .location _ => ["Latitude", "Longitude", "Precision"]
  | .click _ => ["EventKey"]
  | .view _ _ | .viewMiniProgram _ _ => ["EventKey", "MenuId"]
  | .scanCodePush _ | .scanCodeWait _ => ["EventKey", "ScanCodeInfo"]
  | .cameraPictures _ | .cameraOrAlbumPictures _ | .albumPictures _ => ["EventKey", "SendPicsInfo"]
  | .placeChosen _ => ["EventKey", "SendLocationInfo"]
  | .templateSent _ _ => ["MsgID", "Status"]
  | .massSent _ => ["MsgID", "Status", "TotalCount", "FilterCount", "SentCount", "ErrorCount"]
  | .popup _ => ["SubscribeMsgPopupEvent"]
  | .unsubscribe | .published | .mediaChecked | .auditPassed | .auditFailed | .auditDelayed
  | .other _ => []

/-- The fields that reach a body, besides its type. -/
def Body.ownFields : Body → List String
  | .text body => ["MsgId", "Content", "bizmsgmenuid"] ++ ArticleSource.ownFields body.source
  | .image body => ["MsgId", "PicUrl", "MediaId"] ++ ArticleSource.ownFields body.source
  | .voice _ => ["MsgId", "MediaId", "Format", "Recognition", "MediaId16K"]
  | .video _ | .shortVideo _ => ["MsgId", "MediaId", "ThumbMediaId"]
  | .location _ => ["MsgId", "Location_X", "Location_Y", "Scale", "Label"]
  | .link _ => ["MsgId", "Title", "Description", "Url"]
  | .event held => "Event" :: held.ownFields
  | .other _ => []

end Message

/-- The fields that reach a message. -/
def Message.ownFields (message : Message) : List String :=
  ["ToUserName", "FromUserName", "CreateTime", "MsgType"] ++ message.body.ownFields

namespace Message

open Record Text

variable {first second : Fields}

/-- An article depends on its own fields. -/
theorem ArticleSource.ofFields?_eq_of_own
    (h : ∀ name ∈ ownFields (ofFields? first), SameUnder name first second) :
    ofFields? first = ofFields? second := by
  unfold ofFields? at h ⊢
  cases hdata : first.text? "MsgDataId" with
  | none =>
    rw [hdata] at h
    have hid := h "MsgDataId" (by simp [ownFields])
    rw [← hid.text?, hdata]
    rfl
  | some dataId =>
    rw [hdata] at h
    have hid := h "MsgDataId" (by simp [ownFields])
    have hindex := h "Idx" (by simp [ownFields])
    rw [← hid.text?, hdata, hindex.integer]

/-- A scene depends on its own fields. -/
theorem SceneScan.ofFields?_eq_of_own
    (h : ∀ name ∈ ownFields (ofFields? first), SameUnder name first second) :
    ofFields? first = ofFields? second := by
  unfold ofFields? at h ⊢
  cases hkey : first.text? "EventKey" with
  | none =>
    rw [hkey] at h
    have hown := h "EventKey" (by simp [ownFields])
    rw [← hown.text?, hkey]
    rfl
  | some key =>
    rw [hkey] at h
    have hown := h "EventKey" (by simp [ownFields])
    have hticket := h "Ticket" (by simp [ownFields])
    rw [← hown.text?, hkey, hticket.text]

/-- A scanned code depends on its own fields. -/
theorem CodeScan.ofFields_eq_of_own (hkey : SameUnder "EventKey" first second)
    (hinfo : SameUnder "ScanCodeInfo" first second) : ofFields first = ofFields second := by
  unfold ofFields
  dsimp only
  rw [hkey.text, hinfo.record.text_eq, hinfo.record.text_eq]

/-- Pictures depend on their own fields. -/
theorem PictureReport.ofFields_eq_of_own (hkey : SameUnder "EventKey" first second)
    (hinfo : SameUnder "SendPicsInfo" first second) : ofFields first = ofFields second := by
  have hitems := (hinfo.record.record "PicList").records "item"
  unfold ofFields
  dsimp only
  rw [hkey.text, hinfo.record.integer_eq,
    map_eq_of_forall₂_alike (fun hitem => hitem.text_eq "PicMd5Sum") hitems]

/-- A chosen place depends on its own fields. -/
theorem PlaceChoice.ofFields_eq_of_own (hkey : SameUnder "EventKey" first second)
    (hinfo : SameUnder "SendLocationInfo" first second) : ofFields first = ofFields second := by
  unfold ofFields
  dsimp only
  rw [hkey.text, hinfo.record.real_eq, hinfo.record.real_eq, hinfo.record.real_eq,
    hinfo.record.text_eq, hinfo.record.text_eq]

/-- A popup depends on its own field. -/
theorem PopupDecisions.ofFields_eq_of_own
    (h : SameUnder "SubscribeMsgPopupEvent" first second) : ofFields first = ofFields second := by
  have hgroup {group other : Fields} (hgroup : Alike group other) :
      (group.records "List").map PopupDecision.ofFields =
        (other.records "List").map PopupDecision.ofFields :=
    map_eq_of_forall₂_alike (fun hitem => by
      simp only [PopupDecision.ofFields, hitem.text_eq]) (hgroup.records "List")
  unfold ofFields
  simp only [map_eq_of_forall₂_alike hgroup h.records]

/-- An event depends on its own fields. -/
theorem Event.ofFields_eq_of_own (hname : SameUnder "Event" first second)
    (h : ∀ name ∈ (ofFields first).ownFields, SameUnder name first second) :
    ofFields first = ofFields second := by
  unfold ofFields at h ⊢
  dsimp only at h ⊢
  rw [← hname.text]
  generalize first.text "Event" = name at h
  -- The cases are the events in the order in which their names are matched.
  split at h <;> simp only [ownFields, List.forall_mem_cons] at h
  case h_1 => rw [SceneScan.ofFields?_eq_of_own h]
  case h_3 => rw [h.1.text, h.2.1.text]
  case h_4 => rw [h.1.real, h.2.1.real, h.2.2.1.real]
  case h_5 => rw [h.1.text]
  case h_6 | h_13 => rw [h.1.text, h.2.1.text?]
  case h_7 | h_8 => rw [CodeScan.ofFields_eq_of_own h.1 h.2.1]
  case h_9 | h_10 | h_11 => rw [PictureReport.ofFields_eq_of_own h.1 h.2.1]
  case h_12 => rw [PlaceChoice.ofFields_eq_of_own h.1 h.2.1]
  case h_14 => rw [h.1.integer, h.2.1.text]
  case h_15 =>
    obtain ⟨hid, hstatus, htotal, hfilter, hsent, herror, -⟩ := h
    rw [MassSendReport.ofFields, MassSendReport.ofFields, hid.integer, hstatus.text,
      htotal.integer, hfilter.integer, hsent.integer, herror.integer]
  case h_18 => rw [PopupDecisions.ofFields_eq_of_own h.1]
  all_goals rfl

/-- A body depends on its own fields. -/
theorem Body.ofFields_eq_of_own (htype : SameUnder "MsgType" first second)
    (h : ∀ name ∈ (ofFields first).ownFields, SameUnder name first second) :
    ofFields first = ofFields second := by
  unfold ofFields at h ⊢
  dsimp only at h ⊢
  rw [← htype.text]
  generalize first.text "MsgType" = type at h
  -- The cases are the bodies in the order in which their types are matched.
  split at h <;> simp only [ownFields, List.forall_mem_append, List.forall_mem_cons] at h
  case h_1 =>
    obtain ⟨⟨hid, hcontent, hmenu, -⟩, hsource⟩ := h
    rw [hid.integer, hcontent.text, hmenu.integer?, ArticleSource.ofFields?_eq_of_own hsource]
  case h_2 =>
    obtain ⟨⟨hid, hurl, hmedia, -⟩, hsource⟩ := h
    rw [hid.integer, hurl.text, hmedia.text, ArticleSource.ofFields?_eq_of_own hsource]
  case h_3 =>
    obtain ⟨hid, hmedia, hformat, hrecognition, hwide, -⟩ := h
    rw [hid.integer, hmedia.text, hformat.text, hrecognition.text?, hwide.text?]
  case h_4 | h_5 =>
    obtain ⟨hid, hmedia, hthumb, -⟩ := h
    rw [VideoBody.ofFields, VideoBody.ofFields, hid.integer, hmedia.text, hthumb.text]
  case h_6 =>
    obtain ⟨hid, hlatitude, hlongitude, hscale, hlabel, -⟩ := h
    rw [hid.integer, hlatitude.real, hlongitude.real, hscale.real, hlabel.text]
  case h_7 =>
    obtain ⟨hid, htitle, hdescription, hurl, -⟩ := h
    rw [hid.integer, htitle.text, hdescription.text, hurl.text]
  case h_8 => rw [Event.ofFields_eq_of_own h.1 h.2]
  case h_9 => rfl

/-- A message depends on its own fields. -/
theorem ofFields_eq_of_own (h : ∀ name ∈ (ofFields first).ownFields, SameUnder name first second) :
    ofFields first = ofFields second := by
  rw [Message.ownFields, List.forall_mem_append] at h
  simp only [List.forall_mem_cons] at h
  obtain ⟨⟨hto, hfrom, htime, htype, -⟩, hbody⟩ := h
  unfold ofFields
  rw [Header.ofFields, Header.ofFields, hto.text, hfrom.text, htime.integer,
    Body.ofFields_eq_of_own htype hbody]

/-- Alike records are one message. -/
theorem ofFields_eq_of_alike (h : Alike first second) : ofFields first = ofFields second :=
  ofFields_eq_of_own fun name _ => h.sameUnder name

end Message

end CallbackGateway
