import CallbackGateway.Binary64.Basic

/-!
# Events

What can happen in a conversation besides a message. The name of an event is the word that
announces it; an event with a name that is not known keeps the name and nothing else.
-/

namespace CallbackGateway.Message

/-- A scan of a code that carries a scene. -/
structure SceneScan where
  sceneKey : String
  ticket : String
  deriving DecidableEq, Repr

/-- A position that a user reports. -/
structure LocationReport where
  latitude : Binary64
  longitude : Binary64
  precision : Binary64
  deriving DecidableEq, Repr

/-- A code that was scanned from a menu. -/
structure CodeScan where
  eventKey : String
  scanType : String
  scanResult : String
  deriving DecidableEq, Repr

/-- Pictures that were sent from a menu. -/
structure PictureReport where
  eventKey : String
  count : Int
  digests : List String
  deriving DecidableEq, Repr

/-- A place that was chosen from a menu. -/
structure PlaceChoice where
  eventKey : String
  latitude : Binary64
  longitude : Binary64
  scale : Binary64
  label : String
  placeName : String
  deriving DecidableEq, Repr

/-- How a message to many users was delivered. -/
structure MassSendReport where
  messageId : Int
  status : String
  totalCount : Int
  filterCount : Int
  sentCount : Int
  errorCount : Int
  deriving DecidableEq, Repr

/-- What a user decided on one template in a subscription popup. -/
structure PopupDecision where
  templateId : String
  status : String
  scene : Int
  deriving DecidableEq, Repr

/-- The decisions of a popup in groups. The flat list is built when it is first asked for, and
kept. -/
structure PopupDecisions where
  groups : List (List PopupDecision)
  flat : Option (List PopupDecision) := none
  flat_eq : ∀ items ∈ flat, items = groups.flatten := by simp

namespace PopupDecisions

/-- Whether the flat list was built. -/
def isNormalized (popup : PopupDecisions) : Bool := popup.flat.isSome

/-- The decisions of all groups in order. -/
def items (popup : PopupDecisions) : List PopupDecision :=
  match popup.flat with
  | some items => items
  | none => popup.groups.flatten

/-- Build and keep the flat list. -/
def normalize (popup : PopupDecisions) : PopupDecisions where
  groups := popup.groups
  flat := some popup.items
  flat_eq := by
    intro items h
    obtain ⟨groups, flat, flat_eq⟩ := popup
    cases flat with
    | none => simpa [PopupDecisions.items] using h.symm
    | some kept =>
      simp only [PopupDecisions.items, Option.mem_def, Option.some.injEq] at h
      rw [← h]
      exact flat_eq kept rfl

/-- The decisions are those of the groups, whether the flat list was built or not. -/
theorem items_eq (popup : PopupDecisions) : popup.items = popup.groups.flatten := by
  obtain ⟨groups, flat, flat_eq⟩ := popup
  cases flat with
  | none => rfl
  | some kept => exact flat_eq kept rfl

/-- Building the flat list does not change the decisions. -/
@[simp] theorem items_normalize (popup : PopupDecisions) : popup.normalize.items = popup.items :=
  rfl

end PopupDecisions

/-- An event. -/
inductive Event
  /-- A user follows; a scene is given if a code led the user here. -/
  | subscribe (scene : Option SceneScan)
  | unsubscribe
  | scan (scene : SceneScan)
  | location (report : LocationReport)
  | click (eventKey : String)
  | view (url : String) (menuId : Option String)
  | scanCodePush (scan : CodeScan)
  | scanCodeWait (scan : CodeScan)
  | cameraPictures (report : PictureReport)
  | cameraOrAlbumPictures (report : PictureReport)
  | albumPictures (report : PictureReport)
  | placeChosen (choice : PlaceChoice)
  | viewMiniProgram (pagePath : String) (menuId : Option String)
  | templateSent (messageId : Int) (status : String)
  | massSent (report : MassSendReport)
  | published
  | mediaChecked
  | popup (decisions : PopupDecisions)
  | auditPassed
  | auditFailed
  | auditDelayed
  /-- An event with another name. -/
  | other (name : String)

/-- The word that announces an event. -/
def Event.name : Event → String
  | .subscribe _ => "subscribe"
  | .unsubscribe => "unsubscribe"
  | .scan _ => "SCAN"
  | .location _ => "LOCATION"
  | .click _ => "CLICK"
  | .view _ _ => "VIEW"
  | .scanCodePush _ => "scancode_push"
  | .scanCodeWait _ => "scancode_waitmsg"
  | .cameraPictures _ => "pic_sysphoto"
  | .cameraOrAlbumPictures _ => "pic_photo_or_album"
  | .albumPictures _ => "pic_weixin"
  | .placeChosen _ => "location_select"
  | .viewMiniProgram _ _ => "view_miniprogram"
  | .templateSent _ _ => "TEMPLATESENDJOBFINISH"
  | .massSent _ => "MASSSENDJOBFINISH"
  | .published => "PUBLISHJOBFINISH"
  | .mediaChecked => "wxa_media_check"
  | .popup _ => "subscribe_msg_popup_event"
  | .auditPassed => "weapp_audit_success"
  | .auditFailed => "weapp_audit_fail"
  | .auditDelayed => "weapp_audit_delay"
  | .other name => name

end CallbackGateway.Message
