import CallbackGateway.Proofs.Message.LooseBody
import CallbackGateway.Proofs.Message.Parts
import CallbackGateway.Proofs.Record.Comparison
import CallbackGateway.Proofs.Record.WrittenField

/-!
# The words that announce messages and events

A message has the type that its body announces, and an event the name that its body announces.
Each known word is one constructor, and all other words are messages or events of an unknown kind;
a word counts as it is written, with the case of its letters and the white space at its ends. Only
in a leaf where a comment, an instruction or a declaration exposes this white space it is lost.
-/

namespace CallbackGateway.Message

open Markup Record Text

/-! ## Words in bodies -/

/-- The text that is written in a body under a name. -/
def writtenUnder (name : String) (format : WireFormat) (body : Bytes) : Option (List Char) :=
  match format with
  | .xml =>
    match Utf8.decode body with
    | .ok text => writtenText (takeChildren (isNamed [name]) (scan (dropMark text)).tokens)
    | .error _ => none
  | .json =>
    match Json.Value.read? body with
    | some (.object members) => some ((List.lookup name members).elim [] scalarText)
    | _ => none

/-- Whether the text under a name has white space at an end that is not kept. -/
def exposesUnder (name : String) (format : WireFormat) (body : Bytes) : Bool :=
  match format with
  | .xml =>
    match Utf8.decode body with
    | .ok text =>
      exposesEdge (keptPieces (takeChildren (isNamed [name]) (scan (dropMark text)).tokens))
    | .error _ => false
  | .json => false

/-- Whether a word is read from what is written in a body under a name: it is written there, but
for white space at its ends, and exactly so unless this white space is exposed. -/
def IsReadUnder (name : String) (format : WireFormat) (body : Bytes) (word : String) : Prop :=
  ∃ written, writtenUnder name format body = some written ∧ IsTrimmed word.toList written ∧
    (word.toList = written ↔ exposesUnder name format body = false)

/-- An update changes the member under its key and no other one. -/
theorem lookup_updateMember {key : String} {update : Json.Value → Json.Value}
    {members others : List (String × Json.Value)}
    (h : updateMember key update (.object members) = .object others) (name : String) :
    List.lookup name others =
      (List.lookup name members).map fun value => if name = key then update value else value := by
  obtain rfl := Json.Value.object.inj h
  exact lookup_updated name members

/-- A text field of a body is read from what is written under its name. -/
theorem isReadUnder_of_fieldsOf {format : WireFormat} {body : Bytes} {fields : Fields}
    {name : String} (hkind : List.lookup name schema = some .text)
    (h : fieldsOf format body = .ok fields) :
    IsReadUnder name format body (fields.text name) := by
  unfold IsReadUnder writtenUnder exposesUnder
  cases reads_of_fieldsOf h with
  | xml htext hkept hread =>
    dsimp only
    rw [htext]
    exact exists_writtenText_of_ofItems separate_scan hkind hkept hread
  | @json members others hbody hothers hread =>
    dsimp only
    obtain ⟨tree, -, htree⟩ := Option.bind_eq_some_iff.mp hbody
    have hkeys := keysOnce_enlistPopups (keysOnce_of_value? htree)
    rw [hothers] at hkeys
    have hpopup : name ≠ "SubscribeMsgPopupEvent" := by
      rintro rfl
      cases hkind
    have hmember : List.lookup name others = List.lookup name members := by
      rw [lookup_updateMember hothers]
      simp only [if_neg hpopup, Option.map_id']
    cases hkeys with
    | object hkeys =>
      have htext := text_of_readMembers hkeys hkind hread
      rw [hbody]
      dsimp only
      rw [← hmember, ← htext]
      exact ⟨_, rfl, ⟨[], [], by simp, by simp, by simp⟩, by simp⟩

/-! ## Known words -/

/-- The known types of messages, in the order of their constructors. -/
def Body.types : List String :=
  ["text", "image", "voice", "video", "shortvideo", "location", "link", "event"]

/-- The known names of events, in the order of their constructors. -/
def Event.names : List String :=
  ["subscribe", "unsubscribe", "SCAN", "LOCATION", "CLICK", "VIEW", "scancode_push",
    "scancode_waitmsg", "pic_sysphoto", "pic_photo_or_album", "pic_weixin", "location_select",
    "view_miniprogram", "TEMPLATESENDJOBFINISH", "MASSSENDJOBFINISH", "PUBLISHJOBFINISH",
    "wxa_media_check", "subscribe_msg_popup_event", "weapp_audit_success", "weapp_audit_fail",
    "weapp_audit_delay"]

/-- How the constructor at an index goes with a word: a known word has the constructor at its own
place, and any other word is kept in the constructor of unknown kinds. -/
structure IsKindOf (words : List String) (word : String) (index : Nat) (isOther : Prop) : Prop where
  known : word ∈ words → words[index]? = some word
  other : isOther ↔ word ∉ words

/-- The constructor of unknown kinds is none of the known words. -/
theorem IsKindOf.of_cases {words : List String} {word : String} {index : Nat} {isOther : Prop}
    (h : words[index]? = some word ∨ word ∉ words ∧ isOther)
    (hother : isOther → words[index]? = none) : IsKindOf words word index isOther := by
  rcases h with hknown | ⟨hnew, hisOther⟩
  · have hmem : word ∈ words := List.mem_of_getElem? hknown
    refine ⟨fun _ => hknown, fun h => ?_, fun hnew => absurd hmem hnew⟩
    rw [hother h] at hknown
    cases hknown
  · exact ⟨fun hmem => absurd hmem hnew, fun _ => hnew, fun _ => hisOther⟩

/-- A body has the constructor of its type. -/
theorem Body.isKindOf_ofFields (fields : Fields) :
    IsKindOf Body.types (ofFields fields).type (ofFields fields).ctorIdx
      (∃ type, ofFields fields = .other type) := by
  refine .of_cases ?_ ?_
  · rw [type_ofFields]
    unfold ofFields
    dsimp only
    generalize fields.text "MsgType" = type
    split
    -- The last case is that of the unknown types.
    case h_9 hother =>
      refine .inr ⟨?_, type, rfl⟩
      simp_all [Body.types]
    all_goals exact .inl rfl
  · rintro ⟨type, htype⟩
    rw [htype]
    rfl

/-- An event has the constructor of its name. -/
theorem Event.isKindOf_ofFields (fields : Fields) :
    IsKindOf Event.names (ofFields fields).name (ofFields fields).ctorIdx
      (∃ name, ofFields fields = .other name) := by
  refine .of_cases ?_ ?_
  · rw [name_ofFields]
    unfold ofFields
    dsimp only
    generalize fields.text "Event" = name
    split
    -- The last case is that of the unknown names.
    case h_22 hother =>
      refine .inr ⟨?_, name, rfl⟩
      simp_all [Event.names]
    all_goals exact .inl rfl
  · rintro ⟨name, hname⟩
    rw [hname]
    rfl

/-- Just the events are announced as such. -/
theorem Body.exists_event_iff (fields : Fields) :
    (∃ event, ofFields fields = .event event) ↔ (ofFields fields).type = "event" := by
  have hkind := isKindOf_ofFields fields
  constructor
  · rintro ⟨event, hevent⟩
    rw [hevent]
    rfl
  · intro htype
    have hknown := hkind.known (by rw [htype]; decide)
    cases hbody : ofFields fields with
    | event event => exact ⟨event, rfl⟩
    | other type =>
      rw [hbody] at hknown
      cases hknown
    | text | image | voice | video | shortVideo | location | link =>
      rw [hbody, Body.type] at htype
      exact absurd htype (by decide)

/-- The event of a message comes from its record. -/
theorem event_of_ofFields {fields : Fields} {event : Event}
    (h : (ofFields fields).body = .event event) : event = Event.ofFields fields := by
  change Body.ofFields fields = .event event at h
  unfold Body.ofFields at h
  dsimp only at h
  split at h <;> cases h
  rfl

/-- The type of a message is the text that is written under its name, and so is the name of an
event, each without the white space that a leaf exposes at its ends. A type or name that is known
has its own constructor, and just those that are not known are messages or events of another
kind. -/
theorem discriminators_read_back {format : WireFormat} {body : Bytes} {message : Message}
    (h : decode format body = .ok message) :
    IsReadUnder "MsgType" format body message.type ∧
    IsKindOf Body.types message.type message.body.ctorIdx (∃ type, message.body = .other type) ∧
    ((∃ event, message.body = .event event) ↔ message.type = "event") ∧
    ∀ event, message.body = .event event →
      IsReadUnder "Event" format body event.name ∧
      IsKindOf Event.names event.name event.ctorIdx (∃ name, event = .other name) := by
  obtain ⟨fields, hfields, rfl⟩ := exists_of_map_eq_ok h
  have htype : (ofFields fields).type = fields.text "MsgType" := Body.type_ofFields fields
  refine ⟨?_, Body.isKindOf_ofFields fields, Body.exists_event_iff fields, fun event hevent => ?_⟩
  · rw [htype]
    exact isReadUnder_of_fieldsOf rfl hfields
  · obtain rfl := event_of_ofFields hevent
    refine ⟨?_, Event.isKindOf_ofFields fields⟩
    rw [Event.name_ofFields]
    exact isReadUnder_of_fieldsOf rfl hfields

/-- A tap on a menu, with an instruction inside its name. -/
def dividedTap : List Char :=
  "<xml><MsgType>event</MsgType><Event>CL<?p?>ICK</Event></xml>".toList

/-- A message whose type is in upper case and ends with a space. -/
def loudText : List (String × Json.Value) := [("MsgType", .string "TEXT ")]

/-- The name of an event is read around an instruction, and a type is kept as it is. -/
theorem discriminators_read_back_tap :
    (∃ message event, decode .xml (Utf8.encode dividedTap) = .ok message ∧
      message.body = .event event ∧ event.name = "CLICK" ∧ event.ctorIdx = 4 ∧
      IsReadUnder "Event" .xml (Utf8.encode dividedTap) event.name) ∧
    ∃ message, decode .json (Json.Value.object loudText).toBytes = .ok message ∧
      message.type = "TEXT " ∧ ∃ type, message.body = .other type := by
  have hfields : fieldsOf .xml (Utf8.encode dividedTap) =
      .ok [("MsgType", .text "event"), ("Event", .text "CLICK")] := by decide +kernel
  have hdecode := decode_of_fieldsOf hfields
  have hloud : fieldsOf .json (Json.Value.object loudText).toBytes =
      .ok [("MsgType", .text "TEXT ")] := by decide +kernel
  have hdecode' := decode_of_fieldsOf hloud
  obtain ⟨-, -, hevent, hname⟩ := discriminators_read_back hdecode
  obtain ⟨event, hbody⟩ := hevent.mpr rfl
  obtain rfl := event_of_ofFields hbody
  obtain ⟨-, hkind, -⟩ := discriminators_read_back hdecode'
  exact ⟨⟨_, _, hdecode, hbody, rfl, rfl, (hname _ hbody).1⟩, _, hdecode', rfl,
    hkind.other.mpr (by decide)⟩

/-- White space in front of a comment at the end of a type is lost. -/
theorem comment_at_end_of_type_loses_space :
    writtenUnder "MsgType" .xml
        (Utf8.encode "<xml><MsgType> text <!--c--></MsgType></xml>".toList) =
      some " text ".toList ∧
    ∃ message, decode .xml (Utf8.encode "<xml><MsgType> text <!--c--></MsgType></xml>".toList) =
      .ok message ∧ message.type = "text" := by
  have hfields : fieldsOf .xml
      (Utf8.encode "<xml><MsgType> text <!--c--></MsgType></xml>".toList) =
        .ok [("MsgType", .text "text")] := by decide +kernel
  exact ⟨by decide +kernel, _, decode_of_fieldsOf hfields, rfl⟩

end CallbackGateway.Message
