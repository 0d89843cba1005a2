import CallbackGateway.Proofs.Record.MarkupItems
import CallbackGateway.Record.FromMarkup

/-!
# Reading the elements of a record

One step of reading for each kind of element that a written record has: an element that the
schema does not know is skipped, a leaf is read from its text, and an element with fields of its
own is read as a record.
-/

namespace CallbackGateway.Record

open Markup Text

/-- Whether a field of a kind is written as text. -/
def Kind.isLeaf : Kind → Bool
  | .text | .integer _ | .real => true
  | .record _ | .records _ => false

/-- A plain name has no part in front of a colon. -/
theorem ofList_localName {name : String} (h : IsPlainName name.toList) :
    String.ofList (localName (fieldTag name).name) = name := by
  have hall : ∀ c ∈ name.toList, (c != ':') = true := by
    intro c hc
    rw [bne_iff_ne]
    rintro rfl
    exact h.ne (by decide) hc
  have hdrop : (name.toList ++ []).dropWhile (· != ':') = [].dropWhile (· != ':') :=
    List.dropWhile_append_of_pos hall
  rw [List.append_nil, List.dropWhile_nil] at hdrop
  rw [localName, fieldTag, hdrop]
  exact String.ofList_toList

/-- An element without attributes is read by its content. -/
theorem readRecord_element (schema : Schema) (name : String) (content : List Item) :
    readRecord schema (.element (fieldTag name) content true) =
      readItems schema [] none content := by
  have htag : (fieldTag name).isWellFormed = true := rfl
  rw [readRecord, closeRecord, htag]
  cases readItems schema [] none content <;> rfl

variable {schema : Schema} {name : String} {found : Fields} {run : Option Run}

/-- An element that ends the open run and that the schema does not know is skipped. -/
theorem readItems_skip (hname : IsPlainName name.toList)
    (hrun : continues? run (fieldTag name) = none) (hkind : List.lookup name schema = none)
    {content : List Item} (hskip : isSkippable content true = true) (rest : List Item) :
    readItems schema found run (.element (fieldTag name) content true :: rest) =
      readItems schema (settle found run) none rest := by
  rw [readItems, hrun]
  dsimp only
  rw [ofList_localName hname, hkind]
  dsimp only
  rw [if_pos hskip]

/-- An element that ends the open run is read as the leaf that the schema declares. -/
theorem readItems_leaf {kind : Kind} (hname : IsPlainName name.toList)
    (hrun : continues? run (fieldTag name) = none) (hkind : List.lookup name schema = some kind)
    (hleaf : kind.isLeaf = true) (hnew : (settle found run).has name = false) (text : List Char)
    (rest : List Item) :
    readItems schema found run (.element (fieldTag name) [.text (some text)] true :: rest) =
      (kind.readLeaf text).bind fun value =>
        readItems schema (settle found run ++ [(name, value)]) none rest := by
  rw [readItems, hrun]
  dsimp only
  rw [ofList_localName hname, hkind]
  dsimp only
  rw [if_neg (by simp [hnew])]
  cases kind with
  | text | integer | real => rfl
  | record | records => simp [Kind.isLeaf] at hleaf

/-- An element that ends the open run is read as the record that the schema declares. -/
theorem readItems_record {inner : Schema} (hname : IsPlainName name.toList)
    (hrun : continues? run (fieldTag name) = none)
    (hkind : List.lookup name schema = some (.record inner))
    (hnew : (settle found run).has name = false) (content rest : List Item) :
    readItems schema found run (.element (fieldTag name) content true :: rest) =
      (readItems inner [] none content).bind fun item =>
        readItems schema (settle found run ++ [(name, .record item)]) none rest := by
  rw [readItems, hrun]
  dsimp only
  rw [ofList_localName hname, hkind]
  dsimp only
  rw [if_neg (by simp [hnew]), readRecord_element]
  rfl

/-- An element that ends the open run starts the run that the schema declares. -/
theorem readItems_records {inner : Schema} (hname : IsPlainName name.toList)
    (hrun : continues? run (fieldTag name) = none)
    (hkind : List.lookup name schema = some (.records inner))
    (hnew : (settle found run).has name = false) (content rest : List Item) :
    readItems schema found run (.element (fieldTag name) content true :: rest) =
      (readItems inner [] none content).bind fun item =>
        readItems schema (settle found run) (some ⟨name.toList, name, inner, [item]⟩) rest := by
  rw [readItems, hrun]
  dsimp only
  rw [ofList_localName hname, hkind]
  dsimp only
  rw [if_neg (by simp [hnew]), readRecord_element]
  rfl

/-- An element of the same name goes on with the run. -/
theorem readItems_continue {run : Run} (hrun : run.tagName = name.toList)
    (content rest : List Item) :
    readItems schema found (some run) (.element (fieldTag name) content true :: rest) =
      (readItems run.fields [] none content).bind fun item =>
        readItems schema found (some { run with latest := item :: run.latest }) rest := by
  have hcontinues : continues? (some run) (fieldTag name) = some run := by
    simp [continues?, fieldTag, hrun]
  rw [readItems, hcontinues]
  dsimp only
  rw [readRecord_element]
  rfl

/-! ## The first element -/

/-- A record is read just if its tag is well formed, its element is closed and its content is read.
-/
theorem closeRecord_eq_ok_iff {tag : Tag} {closed : Bool} {read : Except RecordError Fields}
    {fields : Fields} : closeRecord tag closed read = .ok fields ↔
      tag.isWellFormed = true ∧ closed = true ∧ read = .ok fields := by
  have hnot {e : RecordError} : (.error e : Except RecordError Fields) ≠ .ok fields := nofun
  unfold closeRecord
  cases tag.isWellFormed with
  | false => exact iff_of_false hnot fun h => Bool.false_ne_true h.1
  | true =>
    cases closed with
    | false =>
      refine iff_of_false ?_ fun h => Bool.false_ne_true h.2.1
      cases read <;> exact hnot
    | true => cases read <;> exact ⟨fun h => ⟨rfl, rfl, h⟩, fun h => h.2.2⟩

/-- A record is read from a first element that is closed. -/
theorem head?_of_ofItems {items : List Item} {fields : Fields}
    (h : ofItems schema items = .ok fields) :
    ∃ tag content, items.head? = some (.element tag content true) := by
  cases items with
  | nil => simp [ofItems] at h
  | cons item rest =>
    rw [ofItems] at h
    cases item with
    | text value => simp [readRecord] at h
    | element tag content closed =>
      rw [readRecord] at h
      obtain ⟨-, rfl, -⟩ := closeRecord_eq_ok_iff.mp h
      exact ⟨tag, content, rfl⟩

/-- Nothing after the first element is looked at. -/
theorem ofItems_congr {items others : List Item} (h : items.head? = others.head?) :
    ofItems schema items = ofItems schema others := by
  cases items with
  | nil =>
    obtain rfl := List.head?_eq_none_iff.mp h.symm
    rfl
  | cons item rest =>
    obtain ⟨tail, rfl⟩ := List.head?_eq_some_iff.mp h.symm
    rfl

end CallbackGateway.Record
