import CallbackGateway.Dispatch
import CallbackGateway.Message.OfFields

/-!
# Canned answers

A decoded message is answered with a text unless it is one of nine events, which are told by their
names. Where an answer quotes a part of the message, it holds that part verbatim.
-/

namespace CallbackGateway

open Record

/-- The part of an event that its answer quotes. -/
def Message.Event.quoted? : Event → Option String
  | .subscribe (some scene) => some scene.sceneKey
  | .scan scene => some scene.sceneKey
  | .click eventKey => some eventKey
  | .scanCodePush code | .scanCodeWait code => some code.scanResult
  | .other name => some name
  | _ => none

/-- The part of a message that its answer quotes. -/
def Message.Body.quoted? : Body → Option String
  | .voice recording => recording.recognition
  | .event happened => happened.quoted?
  | .other type => some type
  | _ => none

/-- The names of the events that are only acknowledged. -/
def silentEvents : List String :=
  ["unsubscribe", "TEMPLATESENDJOBFINISH", "MASSSENDJOBFINISH", "PUBLISHJOBFINISH",
    "wxa_media_check", "subscribe_msg_popup_event", "weapp_audit_success", "weapp_audit_fail",
    "weapp_audit_delay"]

/-- Whether a body is an event that is only acknowledged. -/
def Message.Body.IsSilent (body : Body) : Prop :=
  ∃ event, body = .event event ∧ event.name ∈ silentEvents

namespace ReplyTexts

variable {texts : ReplyTexts} {content quoted : String}

/-- What stands at the end stands in the text. -/
theorem isInfix_append (before quoted : String) :
    quoted.toList <:+: (before ++ quoted).toList := ⟨before.toList, [], by simp⟩

/-- What stands between two texts stands in the text. -/
theorem isInfix_append_append (before quoted after : String) :
    quoted.toList <:+: (before ++ quoted ++ after).toList :=
  ⟨before.toList, after.toList, by simp⟩

/-- The quoted part of an event stands in its answer. -/
theorem quoted_isInfix_eventAnswer {event : Message.Event}
    (hcontent : texts.eventAnswer? event = some content) (hquoted : event.quoted? = some quoted) :
    quoted.toList <:+: content.toList := by
  cases event with
  | subscribe scene =>
    cases scene with
    | none => cases hquoted
    | some scene =>
      obtain rfl := Option.some.inj hquoted
      obtain rfl := Option.some.inj hcontent
      exact isInfix_append_append _ _ _
  | scan scene =>
    obtain rfl := Option.some.inj hquoted
    obtain rfl := Option.some.inj hcontent
    exact isInfix_append _ _
  | click key =>
    obtain rfl := Option.some.inj hquoted
    obtain rfl := Option.some.inj hcontent
    split
    · rename_i hempty
      rw [hempty]
      exact List.nil_infix
    · exact isInfix_append _ _
  | scanCodePush scan | scanCodeWait scan =>
    obtain rfl := Option.some.inj hquoted
    obtain rfl := Option.some.inj hcontent
    exact isInfix_append _ _
  | other name =>
    obtain rfl := Option.some.inj hquoted
    obtain rfl := Option.some.inj hcontent
    exact isInfix_append _ _
  | unsubscribe | location | view | cameraPictures | cameraOrAlbumPictures | albumPictures
  | placeChosen | viewMiniProgram | templateSent | massSent | published | mediaChecked | popup
  | auditPassed | auditFailed | auditDelayed => cases hquoted

/-- The part of a message that is quoted stands in the answer verbatim. -/
theorem quoted_isInfix_answer {body : Message.Body} (hcontent : texts.answer? body = some content)
    (hquoted : body.quoted? = some quoted) : quoted.toList <:+: content.toList := by
  cases body with
  | voice voice =>
    have hsaid : voice.recognition = some quoted := hquoted
    rw [answer?, hsaid] at hcontent
    obtain rfl := Option.some.inj hcontent
    split
    · rename_i hempty
      rw [hempty]
      exact List.nil_infix
    · exact isInfix_append _ _
  | event event => exact quoted_isInfix_eventAnswer hcontent hquoted
  | other type =>
    obtain rfl := Option.some.inj hquoted
    obtain rfl := Option.some.inj hcontent
    exact isInfix_append _ _
  | text | image | video | shortVideo | location | link => cases hquoted

/-- An event has no answer if and only if it has one of nine names, unless it is an unknown event
with such a name. -/
theorem eventAnswer?_eq_none_iff (texts : ReplyTexts) {event : Message.Event}
    (h : ∀ name, event = .other name → name ∉ silentEvents) :
    texts.eventAnswer? event = none ↔ event.name ∈ silentEvents := by
  cases event with
  | subscribe scene => cases scene <;> simp [eventAnswer?, Message.Event.name, silentEvents]
  | other name =>
    have hname := h name rfl
    simp only [eventAnswer?, Message.Event.name, hname, reduceCtorEq]
  | unsubscribe | scan | location | click | view | scanCodePush | scanCodeWait | cameraPictures
  | cameraOrAlbumPictures | albumPictures | placeChosen | viewMiniProgram | templateSent | massSent
  | published | mediaChecked | popup | auditPassed | auditFailed | auditDelayed =>
    simp [eventAnswer?, Message.Event.name, silentEvents]

/-- Every name with an answer of its own is known, so a record is no unknown event with it. -/
theorem not_silent_of_ofFields {fields : Fields} {name : String}
    (h : Message.Event.ofFields fields = .other name) : name ∉ silentEvents := by
  unfold Message.Event.ofFields at h
  dsimp only at h
  split at h <;> simp_all [silentEvents]

/-- The event of a body comes from the record of the body. -/
theorem event_eq_ofFields {fields : Fields} {event : Message.Event}
    (h : Message.Body.ofFields fields = .event event) : event = Message.Event.ofFields fields := by
  unfold Message.Body.ofFields at h
  dsimp only at h
  split at h <;> simp_all

/-- Of the messages that a record can be, the silent ones have no answer. -/
theorem answer?_ofFields_eq_none_iff (texts : ReplyTexts) (fields : Fields) :
    texts.answer? (Message.Body.ofFields fields) = none ↔
      (Message.Body.ofFields fields).IsSilent := by
  unfold Message.Body.IsSilent
  cases hbody : Message.Body.ofFields fields with
  | event event =>
    obtain rfl := event_eq_ofFields hbody
    rw [answer?, eventAnswer?_eq_none_iff texts fun _ => not_silent_of_ofFields]
    constructor
    · exact fun hname => ⟨_, rfl, hname⟩
    · rintro ⟨event, hevent, hname⟩
      rwa [Message.Body.event.inj hevent]
  | voice voice =>
    cases hsaid : voice.recognition <;> simp [answer?, hsaid]
  | text | image | video | shortVideo | location | link | other => simp [answer?]

/-! ## Lengths -/

/-- The texts that answers are made of; the fallback is none of them. -/
def answers (texts : ReplyTexts) : List String :=
  [texts.welcome, texts.text, texts.image, texts.voice, texts.video, texts.shortVideo,
    texts.location, texts.link, texts.click]

variable {longest bound : Nat}

/-- A text with a quoted part at its end is limited if both are. -/
theorem length_append_le {before : String} (hbefore : before.length ≤ longest + 41)
    (hquoted : quoted.length ≤ bound) : (before ++ quoted).length ≤ longest + bound + 41 := by
  rw [String.length_append]
  omega

/-- The name of an event that quotes nothing is short. -/
theorem length_name_le {event : Message.Event} (h : event.quoted? = none) :
    event.name.length ≤ 25 := by
  cases event with
  | subscribe scene =>
    cases scene with
    | none => decide
    | some scene => cases h
  | scan | click | scanCodePush | scanCodeWait | other => cases h
  | unsubscribe | location | view | cameraPictures | cameraOrAlbumPictures | albumPictures
  | placeChosen | viewMiniProgram | templateSent | massSent | published | mediaChecked | popup
  | auditPassed | auditFailed | auditDelayed =>
    rw [Message.Event.name]
    decide

/-- The answer to an event with a short name is short. -/
theorem length_received_le {name : String} (h : name.length ≤ 25) :
    ("Received event: " ++ name).length ≤ 41 := by
  have hwords : "Received event: ".length = 16 := rfl
  rw [String.length_append]
  omega

variable (htexts : ∀ text ∈ texts.answers, text.length ≤ longest)

include htexts

/-- The answer to an event is a configured text, what it quotes and a few words. -/
theorem length_eventAnswer_le {event : Message.Event}
    (hquoted : ∀ quoted, event.quoted? = some quoted → quoted.length ≤ bound)
    (h : texts.eventAnswer? event = some content) : content.length ≤ longest + bound + 41 := by
  simp only [answers, List.forall_mem_cons] at htexts
  obtain ⟨hwelcome, -, -, -, -, -, -, -, hclick, -⟩ := htexts
  have literal {word : String} (hword : word.length ≤ 41) : word.length ≤ longest + 41 :=
    Nat.le_add_left_of_le hword
  cases event with
  | subscribe scene =>
    cases scene with
    | none =>
      obtain rfl := Option.some.inj h
      omega
    | some scene =>
      have hkey : (texts.welcome ++ " (scene: " ++ scene.sceneKey).length =
          texts.welcome.length + 9 + scene.sceneKey.length := by
        rw [String.length_append, String.length_append]
        rfl
      have hclosed : content = texts.welcome ++ " (scene: " ++ scene.sceneKey ++ ")" :=
        (Option.some.inj h).symm
      have hscene := hquoted _ rfl
      have hend : ")".length = 1 := rfl
      rw [hclosed, String.length_append, hkey]
      omega
  | scan scene =>
    obtain rfl := Option.some.inj h
    exact length_append_le (literal (by decide)) (hquoted _ rfl)
  | click key =>
    obtain rfl := Option.some.inj h
    split
    · omega
    · exact length_append_le (literal (by decide)) (hquoted _ rfl)
  | scanCodePush scan | scanCodeWait scan =>
    obtain rfl := Option.some.inj h
    exact length_append_le (literal (by decide)) (hquoted _ rfl)
  | other name =>
    obtain rfl := Option.some.inj h
    exact length_append_le (literal (by decide)) (hquoted _ rfl)
  | location | view | cameraPictures | cameraOrAlbumPictures | albumPictures | placeChosen
  | viewMiniProgram =>
    obtain rfl := Option.some.inj h
    exact Nat.le_add_left_of_le (length_received_le (length_name_le rfl))
  | unsubscribe | templateSent | massSent | published | mediaChecked | popup | auditPassed
  | auditFailed | auditDelayed => cases h

/-- An answer is a configured text, what it quotes and a few words. -/
theorem length_answer_le {body : Message.Body}
    (hquoted : ∀ quoted, body.quoted? = some quoted → quoted.length ≤ bound)
    (h : texts.answer? body = some content) : content.length ≤ longest + bound + 41 := by
  cases body with
  | event event => exact length_eventAnswer_le htexts hquoted h
  | voice recording =>
    have hvoice : texts.voice.length ≤ longest := htexts _ (by simp [answers])
    rw [answer?] at h
    split at h
    · rename_i said hsaid
      obtain rfl := Option.some.inj h
      split
      · omega
      · refine length_append_le ?_ (hquoted said hsaid)
        have hwords : (texts.voice ++ " You said: ").length = texts.voice.length + 11 :=
          String.length_append _ _
        exact Nat.le_trans (Nat.le_of_eq hwords) (by omega)
    · obtain rfl := Option.some.inj h
      omega
  | other type =>
    obtain rfl := Option.some.inj h
    exact length_append_le (Nat.le_add_left_of_le (by decide)) (hquoted _ rfl)
  | text | image | video | shortVideo | location | link =>
    obtain rfl := Option.some.inj h
    refine Nat.le_trans (htexts _ ?_) (by omega)
    simp [answers]

end ReplyTexts

end CallbackGateway
