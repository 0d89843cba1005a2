import CallbackGateway.Proofs.Json.ReadBack
import CallbackGateway.Proofs.Message.PopupShapes
import Mathlib.Logic.Function.Iterate

/-!
# Decisions of popups

A callback reports the decisions of a popup in groups. In whatever shape it is delivered, its
message has these decisions, group by group and in their order, and none besides.

The flat list of the decisions is not built while the message is read. It is built when it is first
asked for, and no later question changes it.
-/

namespace CallbackGateway.Message

open Markup Record Text

/-! ## The flat list -/

namespace PopupDecisions

/-- The decisions stay the same, however often they are asked for. -/
theorem items_iterate_normalize (popup : PopupDecisions) (calls : Nat) :
    (normalize^[calls] popup).items = popup.items := by
  induction calls with
  | zero => rfl
  | succ calls ih => rw [Function.iterate_succ_apply', items_normalize, ih]

/-- The flat list is there as soon as the decisions were asked for. -/
theorem isNormalized_iterate_normalize {popup : PopupDecisions} (h : popup.isNormalized = false)
    (calls : Nat) : (normalize^[calls] popup).isNormalized = true ↔ 0 < calls := by
  cases calls with
  | zero => simp [h]
  | succ calls =>
    rw [Function.iterate_succ_apply']
    exact iff_of_true rfl calls.succ_pos

end PopupDecisions

/-! ## Reported decisions -/

/-- The fields of a decision. -/
def decisionSchema : Schema :=
  [("TemplateId", .text), ("SubscribeStatusString", .text), ("PopupScene", .text)]

/-- Whether a record is the decision of an item. -/
structure IsDecision (item : Fields) (decision : PopupDecision) : Prop where
  templateId : item.text "TemplateId" = decision.templateId
  status : item.text "SubscribeStatusString" = decision.status
  scene : item.text "PopupScene" = decimal decision.scene
  contains : IntegerRange.unsigned32.Contains decision.scene

/-- Whether a record reports groups of decisions. -/
structure Reports (fields : Fields) (groups : List (List PopupDecision)) : Prop where
  legible : Legible schema fields
  type : fields.text "MsgType" = "event"
  event : fields.text "Event" = "subscribe_msg_popup_event"
  groups : List.Forall₂ (fun group decisions =>
    List.Forall₂ IsDecision (group.records "List") decisions)
      (fields.records "SubscribeMsgPopupEvent") groups

/-- Values that belong to the same items are the same if they are for each item. -/
theorem map_eq_of_forall₂ {α β γ : Type} {first : α → β → Prop} {second : α → γ → Prop}
    {read : β → γ} (hread : ∀ {a b c}, first a b → second a c → read b = c) {items : List α}
    {found : List β} {values : List γ} (hfound : List.Forall₂ first items found)
    (hvalues : List.Forall₂ second items values) : found.map read = values := by
  induction hfound generalizing values with
  | nil =>
    cases hvalues
    rfl
  | cons hitem _ ih =>
    cases hvalues with
    | cons hvalue hrest => rw [List.map_cons, hread hitem hvalue, ih hrest]

/-- A record of a decision is read as this decision. -/
theorem IsDecision.ofFields_eq {item found : Fields} {decision : PopupDecision}
    (h : IsDecision item decision) (hlegible : Legible decisionSchema item)
    (hfound : collect (readWritten decisionSchema) item = .ok found) :
    PopupDecision.ofFields found = decision := by
  have htrim : trim (decimal decision.scene).toList = (decimal decision.scene).toList :=
    trim_eq_self fun c hc => isBlank_of_mem_decimal hc
  have htemplate : found.text "TemplateId" = item.text "TemplateId" :=
    hlegible.text_of_collect hfound rfl
  have hstatus : found.text "SubscribeStatusString" = item.text "SubscribeStatusString" :=
    hlegible.text_of_collect hfound rfl
  have hscene : found.text "PopupScene" = item.text "PopupScene" :=
    hlegible.text_of_collect hfound rfl
  rw [PopupDecision.ofFields, htemplate, hstatus, hscene, h.templateId, h.status, h.scene, htrim,
    IntegerRange.read?_decimal h.contains, Option.getD_some]

/-- The groups that a record reports are read from it. -/
theorem Reports.groups_eq {fields found : Fields} {groups : List (List PopupDecision)}
    (h : Reports fields groups) (hfound : collect (readWritten schema) fields = .ok found) :
    (PopupDecisions.ofFields found).groups = groups := by
  have hpopup : areRegular 2 popupSchema = true := by decide +kernel
  refine map_eq_of_forall₂ (fun hgroup hdecisions => ?_)
    (h.legible.forall₂_collect areRegular_schema hfound rfl) h.groups
  refine map_eq_of_forall₂ (fun hitem hdecision => ?_)
    (hgroup.1.forall₂_collect hpopup hgroup.2 rfl) hdecisions
  exact hdecision.ofFields_eq hitem.1 hitem.2

/-- A record that reports decisions is the message of a popup. -/
theorem Reports.body_eq {fields found : Fields} {groups : List (List PopupDecision)}
    (h : Reports fields groups) (hfound : collect (readWritten schema) fields = .ok found) :
    (ofFields found).body = .event (.popup (PopupDecisions.ofFields found)) := by
  have htype : found.text "MsgType" = "event" :=
    (h.legible.text_of_collect hfound rfl).trans h.type
  have hevent : found.text "Event" = "subscribe_msg_popup_event" :=
    (h.legible.text_of_collect hfound rfl).trans h.event
  rw [ofFields, Body.ofFields, Event.ofFields, htype, hevent]
  rfl

/-! ## Written decisions -/

/-- The fields of a decision. -/
def decisionFields (decision : PopupDecision) : Fields :=
  [("TemplateId", .text decision.templateId), ("SubscribeStatusString", .text decision.status),
    ("PopupScene", .text (decimal decision.scene))]

/-- The fields of a group. -/
def groupFields (group : List PopupDecision) : Fields :=
  [("List", .records (group.map decisionFields))]

/-- The fields of a callback that reports groups and nothing else. -/
def popupFields (groups : List (List PopupDecision)) : Fields :=
  [("MsgType", .text "event"), ("Event", .text "subscribe_msg_popup_event"),
    ("SubscribeMsgPopupEvent", .records (groups.map groupFields))]

/-- The fields of a decision can be read. -/
theorem legible_decisionFields (decision : PopupDecision) :
    Legible decisionSchema (decisionFields decision) := by
  have hnames : (["TemplateId", "SubscribeStatusString", "PopupScene"]).Nodup := by decide
  refine .mk hnames fun name value hmem => ?_
  rcases (by simpa [decisionFields] using hmem) with ⟨rfl, rfl⟩ | ⟨rfl, rfl⟩ | ⟨rfl, rfl⟩ <;>
    exact .text rfl

/-- The fields of a group can be read. -/
theorem legible_groupFields (group : List PopupDecision) :
    Legible popupSchema (groupFields group) := by
  refine .mk (List.nodup_cons.mpr ⟨List.not_mem_nil, .nil⟩) fun name value hmem => ?_
  obtain ⟨rfl, rfl⟩ := Prod.mk.inj (List.mem_singleton.mp hmem)
  exact .records (List.forall_mem_map.mpr fun decision _ => legible_decisionFields decision)

/-- The fields of a popup can be read. -/
theorem legible_popupFields (groups : List (List PopupDecision)) :
    Legible schema (popupFields groups) := by
  have hnames : (["MsgType", "Event", "SubscribeMsgPopupEvent"]).Nodup := by decide
  refine .mk hnames fun name value hmem => ?_
  rcases (by simpa [popupFields] using hmem) with ⟨rfl, rfl⟩ | ⟨rfl, rfl⟩ | ⟨rfl, rfl⟩
  · exact .text rfl
  · exact .text rfl
  · exact .records (List.forall_mem_map.mpr fun group _ => legible_groupFields group)

/-- Whatever the groups are, there is a callback that reports them. -/
theorem reports_popupFields {groups : List (List PopupDecision)}
    (h : ∀ group ∈ groups, ∀ decision ∈ group,
      IntegerRange.unsigned32.Contains decision.scene) : Reports (popupFields groups) groups where
  legible := legible_popupFields groups
  type := rfl
  event := rfl
  groups := List.forall₂_map_left_iff.mpr <| List.forall₂_same.mpr fun group hgroup =>
    List.forall₂_map_left_iff.mpr <| List.forall₂_same.mpr fun decision hdecision =>
      ⟨rfl, rfl, rfl, h group hgroup decision hdecision⟩

/-! ## Delivered decisions -/

/-- In every shape, a popup is read as the decisions that it reports: in their order, none lost and
none added. Their flat list is built when it is first asked for, and stays the same. -/
theorem popup_decisions_survive_delivery {fields : Fields} {groups : List (List PopupDecision)}
    {format : WireFormat} {body : Bytes} (hreports : Reports fields groups)
    (hdelivers : Delivers fields format body) :
    ∃ header popup, decode format body = .ok ⟨header, .event (.popup popup)⟩ ∧
      popup.isNormalized = false ∧ ∀ calls,
        (PopupDecisions.normalize^[calls] popup).items = groups.flatten ∧
          ((PopupDecisions.normalize^[calls] popup).isNormalized = true ↔ 0 < calls) := by
  obtain ⟨found, hfound, hdecode⟩ := hdelivers.exists_decode hreports.legible
  have hbody := hreports.body_eq hfound
  refine ⟨(ofFields found).header, PopupDecisions.ofFields found, ?_, rfl, fun calls => ⟨?_, ?_⟩⟩
  · rw [hdecode, ← hbody]
  · rw [PopupDecisions.items_iterate_normalize, PopupDecisions.items_eq,
      hreports.groups_eq hfound]
  · exact PopupDecisions.isNormalized_iterate_normalize rfl calls

/-- Two decisions in one group, and a group without decisions. -/
def twoGroups : List (List PopupDecision) := [[⟨"t1", "accept", 2⟩, ⟨"t&2", "", 0⟩], []]

/-- The end of a line. -/
def lineEnd : List Token := [.text ['\n']]

/-- An element with a text, on a line. -/
def textLine (name : String) (raw : List Char) : List Token := element name [.text raw] ++ lineEnd

/-- An element with elements on lines of their own, on a line. -/
def recordLine (name : String) (lines : List (List Token)) : List Token :=
  element name (lineEnd ++ lines.flatten) ++ lineEnd

/-- Their callback, with a line for each element. -/
def twoGroupsTokens : List Token :=
  let first := recordLine "List" [textLine "TemplateId" "t1".toList,
    textLine "SubscribeStatusString" "accept".toList, textLine "PopupScene" "2".toList]
  let second := recordLine "List" [textLine "TemplateId" "t&amp;2".toList,
    [.emptyTag ⟨"SubscribeStatusString".toList, []⟩], lineEnd,
    element "PopupScene" (sections "0".toList), lineEnd]
  lineEnd ++ recordLine "xml" [element "MsgType" (sections "event".toList), lineEnd,
    textLine "Event" "subscribe_msg_popup_event".toList,
    recordLine "SubscribeMsgPopupEvent" [first, second], recordLine "SubscribeMsgPopupEvent" []]

/-- A document of two groups delivers them. -/
theorem delivers_twoGroupsTokens :
    Delivers (popupFields twoGroups) .xml (Utf8.encode (write twoGroupsTokens)) := by
  have hline : Spacing lineEnd := .space (by decide) (List.forall_mem_singleton.mpr rfl)
  have hfirst : MarkedUp (decisionFields ⟨"t1", "accept", 2⟩) _ :=
    .text (.text (⟨by decide, by decide, rfl⟩ : IsTextRun "t1".toList _)) (.tags _) hline <|
    .text (.text (⟨by decide, by decide, rfl⟩ : IsTextRun "accept".toList _)) (.tags _) hline <|
    .text (.text (⟨by decide, by decide, rfl⟩ : IsTextRun "2".toList _)) (.tags _) hline .nil
  have hsecond : MarkedUp (decisionFields ⟨"t&2", "", 0⟩) _ :=
    .text (.text (⟨by decide, by decide, rfl⟩ : IsTextRun "t&amp;2".toList _)) (.tags _) hline <|
    .text .nil (.empty (by decide)) hline <|
    .text (leafSpelled_sections "0".toList) (.tags _) hline .nil
  have hgroup : MarkedUp (groupFields [⟨"t1", "accept", 2⟩, ⟨"t&2", "", 0⟩]) _ :=
    .item hline (.tags _) hline hfirst (.item hline (.tags _) hline hsecond (.noItems .nil))
  have hfields : MarkedUp (popupFields twoGroups) _ :=
    .text (leafSpelled_sections "event".toList) (.tags _) hline <|
    .text (.text (⟨by decide, by decide, rfl⟩ :
      IsTextRun "subscribe_msg_popup_event".toList _)) (.tags _) hline <|
    .item hline (.tags _) hline hgroup <|
    .item hline (.tags _) hline (.noItems .nil) (.noItems .nil)
  have hdocument : SpelledDocument "xml" (popupFields twoGroups) twoGroupsTokens :=
    .mk hline hline hfields (.tags _) hline
  exact .markup (by decide) hdocument

/-- The members of one decision. -/
def decisionMembers : List (String × Json.Value) :=
  [("PopupScene", .number (.integer 1)), ("SubscribeStatusString", .string "accept"),
    ("TemplateId", .string "t1")]

/-- Its callback, in which neither the decision nor its group has an array. -/
def bareMembers : List (String × Json.Value) :=
  [("Event", .string "subscribe_msg_popup_event"), ("MsgType", .string "event"),
    ("SubscribeMsgPopupEvent", .object [("List", .object decisionMembers)])]

/-- A bare group is the value that was written. -/
theorem read?_bareMembers : Json.Value.read? (Json.Value.object bareMembers).toBytes =
    some (.object bareMembers) := by
  have hdecision : Json.Stable 125 (.object decisionMembers) := by
    refine .of_names ["PopupScene", "SubscribeStatusString", "TemplateId"] rfl (by decide) ?_
    simp only [decisionMembers, List.forall_mem_cons]
    exact ⟨.integer (by decide), .string _, .string _, nofun⟩
  have hvalues : ∀ member ∈ bareMembers, Json.Stable 126 member.2 := by
    simp only [bareMembers, List.forall_mem_cons]
    exact ⟨.string _, .string _, .sole hdecision, nofun⟩
  exact Json.Stable.read?_toBytes
    (.of_names ["Event", "MsgType", "SubscribeMsgPopupEvent"] rfl (by decide) hvalues)

/-- A bare group is delivered as the only one. -/
theorem delivers_bareMembers : Delivers (popupFields [[⟨"t1", "accept", 1⟩]]) .json
    (Json.Value.object bareMembers).toBytes := by
  have hdecision : SpelledBy (decisionFields ⟨"t1", "accept", 1⟩) decisionMembers := by
    refine .of_names ["TemplateId", "SubscribeStatusString", "PopupScene"] (by decide) (by decide)
      (by decide) ?_
    simp only [List.forall_mem_cons]
    exact ⟨.text (.string _), .text (.string _), .text (.integer (by decide)), by simp⟩
  have hgroup : GroupSpelled (groupFields [⟨"t1", "accept", 1⟩])
      [("List", .object decisionMembers)] := by
    refine .of_names ["List"] (by decide) (by decide) (by decide) (.sole hdecision) ?_
    simp
  refine .json read?_bareMembers
    (.of_names ["MsgType", "Event", "SubscribeMsgPopupEvent"] (by decide) (by decide) (by decide)
      (.sole hgroup) ?_)
  simp only [List.forall_mem_cons]
  exact ⟨fun _ => .text (.string _), fun _ => .text (.string _), fun h => absurd rfl h, by simp⟩

/-- Two groups that are delivered as markup, and one decision that is delivered as JSON. -/
theorem popup_decisions_survive_delivery_shapes :
    Reports (popupFields twoGroups) twoGroups ∧
      (∃ header popup, decode .xml (Utf8.encode (write twoGroupsTokens)) =
          .ok ⟨header, .event (.popup popup)⟩ ∧ popup.isNormalized = false ∧ ∀ calls,
            (PopupDecisions.normalize^[calls] popup).items = twoGroups.flatten ∧
              ((PopupDecisions.normalize^[calls] popup).isNormalized = true ↔ 0 < calls)) ∧
      ∃ header popup, decode .json (Json.Value.object bareMembers).toBytes =
          .ok ⟨header, .event (.popup popup)⟩ ∧ popup.isNormalized = false ∧ ∀ calls,
            (PopupDecisions.normalize^[calls] popup).items = [⟨"t1", "accept", 1⟩] ∧
              ((PopupDecisions.normalize^[calls] popup).isNormalized = true ↔ 0 < calls) := by
  have htwo : Reports (popupFields twoGroups) twoGroups := reports_popupFields (by decide)
  have hone : Reports (popupFields [[⟨"t1", "accept", 1⟩]]) [[⟨"t1", "accept", 1⟩]] :=
    reports_popupFields (by decide)
  exact ⟨htwo, popup_decisions_survive_delivery htwo delivers_twoGroupsTokens,
    popup_decisions_survive_delivery hone delivers_bareMembers⟩

end CallbackGateway.Message
