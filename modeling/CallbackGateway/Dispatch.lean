import CallbackGateway.Reply.Basic

/-!
# Dispatching

Every message has one canned answer: most are answered with a text, which may quote a part of
the message, and some events are only acknowledged.
-/

namespace CallbackGateway

/-- The texts that messages are answered with. -/
structure ReplyTexts where
  welcome : String := "Thanks for following!"
  text : String := "Got your message."
  image : String := "Got your image."
  voice : String := "Got your voice message."
  video : String := "Got your video."
  shortVideo : String := "Got your short video."
  location : String := "Got your location."
  link : String := "Got your link."
  click : String := "Got your menu click."
  /-- Sent when the handler fails. -/
  fallback : String := "Sorry, something went wrong. Please try again later."
  deriving DecidableEq, Repr

/-- What is decided about a message. -/
inductive Outcome
  | reply (reply : Reply)
  | acknowledge
  deriving DecidableEq, Repr

namespace ReplyTexts

/-- The answer to an event, none if it is only acknowledged. -/
def eventAnswer? (texts : ReplyTexts) (event : Message.Event) : Option String :=
  match event with
  | .subscribe none => some texts.welcome
  | .subscribe (some scene) => some s!"{texts.welcome} (scene: {scene.sceneKey})"
  | .scan scene => some s!"Scanned scene: {scene.sceneKey}"
  | .click eventKey => some (if eventKey = "" then texts.click else s!"Menu clicked: {eventKey}")
  | .scanCodePush scan | .scanCodeWait scan => some s!"Scan result: {scan.scanResult}"
  | .location _ | .view _ _ | .cameraPictures _ | .cameraOrAlbumPictures _ | .albumPictures _
  | .placeChosen _ | .viewMiniProgram _ _ | .other _ => some s!"Received event: {event.name}"
  | .unsubscribe | .templateSent _ _ | .massSent _ | .published | .mediaChecked | .popup _
  | .auditPassed | .auditFailed | .auditDelayed => none

/-- The answer to a body, none if it is only acknowledged. -/
def answer? (texts : ReplyTexts) (body : Message.Body) : Option String :=
  match body with
  | .text _ => some texts.text
  | .image _ => some texts.image
  | .voice voice =>
    match voice.recognition with
    | some said => some (if said = "" then texts.voice else s!"{texts.voice} You said: {said}")
    | none => some texts.voice
  | .video _ => some texts.video
  | .shortVideo _ => some texts.shortVideo
  | .location _ => some texts.location
  | .link _ => some texts.link
  | .event event => texts.eventAnswer? event
  | .other type => some s!"Unsupported message type: {type}"

/-- What is decided about a message at a time. -/
def dispatch (texts : ReplyTexts) (time : Int) (message : Message) : Outcome :=
  match texts.answer? message.body with
  | some content => .reply (.answering message.header time (.text content))
  | none => .acknowledge

/-- The reply to a message whose handler failed. -/
def fallbackReply (texts : ReplyTexts) (time : Int) (message : Message.Header) : Reply :=
  .answering message time (.text texts.fallback)

end ReplyTexts

end CallbackGateway
