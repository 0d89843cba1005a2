import CallbackGateway.Proofs.Markup.LeafValue
import CallbackGateway.Proofs.Record.Restriction
import CallbackGateway.Proofs.Record.ReadBack

/-!
# Text fields as they are written

A text field is read from what is written under its name: in markup from the texts and sections of
its one element, without the white space that is exposed at the ends of this element, and in JSON
from its one member, as it is. A field that is not there is an empty text.
-/

namespace CallbackGateway.Record

open Markup

variable {schema : Schema} {fields : Fields} {name : String}

/-- A restricted record has the record's text under each kept name. -/
theorem Fields.text_only {names : List String} (h : names.contains name = true) :
    (fields.only names).text name = fields.text name := by
  rw [Fields.text, Fields.lookup_only h, Fields.text]

/-- Content that has a leaf's text holds that text. -/
theorem holdsText_of_leafText? {content : List Item} {text : List Char}
    (h : leafText? content = some text) : HoldsText content text := by
  unfold leafText? at h
  split at h
  · obtain rfl := Option.some.inj h
    exact .none
  · rw [h]
    exact .text text
  · cases h

/-! ## Elements -/

/-- An element under the name of a text field is read as the field, if there was none yet. -/
theorem of_readStep_text {item : Item} {found after : Fields} {next : Option Run}
    (hkind : List.lookup name schema = some .text) (hitem : item.isTaken (isNamed [name]) = true)
    (h : readStep schema found none item = .ok (after, next)) :
    found.has name = false ∧ next = none ∧ ∃ tag content text,
      item = .element tag content true ∧ HoldsText content text ∧
        after = found ++ [(name, .text (String.ofList text))] := by
  cases item with
  | text => cases hitem
  | element tag content closed =>
    have hname : String.ofList (localName tag.name) = name := by
      simpa [Item.isTaken, isNamed] using hitem
    have hkindOf : kindOf schema tag.name = some .text := by rw [kindOf, hname, hkind]
    cases readStep_element_eq_ok_iff.mp h with
    | continued hcontinues => cases hcontinues
    | skipped _ hother | started _ hother | nested _ hother =>
      rw [hkindOf] at hother
      cases hother
    | leaf _ hother hnew hvalue =>
      rw [hkindOf] at hother
      obtain rfl := Option.some.inj hother
      obtain ⟨text, htext, rfl, hread⟩ := readLeafElement_eq_ok_iff.mp hvalue
      obtain rfl := Except.ok.inj hread
      rw [settle, hname] at hnew
      exact ⟨hnew, rfl, tag, content, text, rfl, holdsText_of_leafText? htext,
        by rw [settle, hname]⟩

/-- A text field of a document is what is written in its one element, but for the white space that
is exposed there. -/
theorem exists_writtenText_of_ofItems {tokens kept : List Token} (hseparate : Separate tokens)
    (hkind : List.lookup name schema = some .text) (hkept : keepLeafText tokens = some kept)
    (h : ofItems schema (assemble (dropLeadingMark kept)) = .ok fields) :
    ∃ whole, writtenText (takeChildren (isNamed [name]) tokens) = some whole ∧
      IsTrimmed (fields.text name).toList whole ∧
      ((fields.text name).toList = whole ↔
        exposesEdge (keptPieces (takeChildren (isNamed [name]) tokens)) = false) := by
  obtain ⟨tag, content, hhead, hread⟩ := content_of_ofItems h
  have hown := readItems_filter [name] hread
  have hname : [name].contains name = true := by simp
  have htaken : ∀ item ∈ content.filter (Item.isTaken (isNamed [name])),
      item.isTaken (isNamed [name]) = true := fun item hitem => (List.mem_filter.mp hitem).2
  rw [← Fields.text_only hname]
  rcases takeChildren_cases hkept hhead (isNamed [name]) with
    ⟨htokens, hcontent⟩ | ⟨root, item, others, hpart, hroot, hitem, hcontent, hsole⟩
  · rw [hcontent] at hown
    obtain hnil : [] = fields.only [name] := Except.ok.inj hown
    rw [htokens, ← hnil]
    exact ⟨[], rfl, ⟨[], [], by simp, by simp, rfl⟩, by simp [keptPieces, exposesEdge, Fields.text]⟩
  · rw [hcontent] at hown htaken
    obtain ⟨hfirst, hothers⟩ := List.forall_mem_cons.mp htaken
    rw [readItems_cons] at hown
    obtain ⟨⟨after, next⟩, hstep, hrest⟩ := exists_of_bind_eq_ok hown
    obtain ⟨-, rfl, tag, content, text, rfl, htext, rfl⟩ := of_readStep_text hkind hfirst hstep
    cases others with
    | cons second others =>
      -- A second element under the name repeats the field.
      dsimp only at hrest
      rw [readItems_cons] at hrest
      obtain ⟨⟨_, _⟩, hsecond, -⟩ := exists_of_bind_eq_ok hrest
      obtain ⟨hnew, -⟩ := of_readStep_text hkind (hothers second List.mem_cons_self) hsecond
      rw [List.nil_append, Fields.has, List.lookup_cons_self] at hnew
      cases hnew
    | nil =>
      have hfield : [(name, .text (String.ofList text))] = fields.only [name] := Except.ok.inj hrest
      rw [hsole rfl, ← hfield, Fields.text, List.lookup_cons_self]
      dsimp only
      rw [String.toList_ofList]
      exact hroot.exists_writtenText (hseparate.of_part hpart) hitem htext

/-! ## Members -/

/-- The text of a string, a number or a truth value. -/
def scalarText : Json.Value → List Char
  | .string text => text.toList
  | .number number => number.text
  | .boolean value => Json.booleanText value
  | .null | .array _ | .object _ => []

/-- A text field of an object is the text of its one member. -/
theorem text_of_readMembers {members : List (String × Json.Value)} (hkeys : NoRepeats members)
    (hkind : List.lookup name schema = some .text) (h : readMembers schema members = .ok fields) :
    (fields.text name).toList = (List.lookup name members).elim [] scalarText := by
  rw [readMembers_eq_collect] at h
  have hread := readUnder_of_collect (readsOwnField_readMember schema) hkeys h name
  rw [Fields.text]
  cases hmember : List.lookup name members with
  | none =>
    rw [hmember] at hread
    rw [← Except.ok.inj hread]
    rfl
  | some value =>
    rw [hmember, readUnder] at hread
    obtain ⟨found, hfound, hlookup⟩ := exists_of_map_eq_ok hread
    rw [← hlookup]
    by_cases hnull : value = .null
    · subst hnull
      obtain rfl := Except.ok.inj hfound
      rfl
    · rw [readMember_known hkind hnull] at hfound
      obtain ⟨held, hheld, rfl⟩ := exists_of_map_eq_ok hfound
      rw [List.lookup_cons_self]
      cases value with
      | null => exact absurd rfl hnull
      | boolean | number | string =>
        obtain rfl := Except.ok.inj hheld
        simp [scalarText]
      | array | object => cases hheld

end CallbackGateway.Record
