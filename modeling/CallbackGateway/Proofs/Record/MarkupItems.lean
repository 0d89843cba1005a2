import CallbackGateway.Proofs.Markup.Assembly
import CallbackGateway.Proofs.Markup.Writing
import CallbackGateway.Proofs.Text.Decimal
import CallbackGateway.Record.ToMarkup

/-!
# Written records as items

A record that is written as markup and read again becomes one element for each field, with the
text of the field or the elements of its own fields inside. Names must be plain, so that no name
is taken for something else, and floating-point numbers are left out.
-/

namespace CallbackGateway.Record

open Markup Text

mutual

/-- Whether a value has plain names only and no floating-point number. -/
def Value.isPlain : Value → Bool
  | .real _ => false
  | .record fields => arePlainFields fields
  | .records items => arePlainItems items
  | .text _ | .integer _ | .blank => true
termination_by structural value => value

/-- Whether all items of a repeated field are plain. -/
def arePlainItems : List (List (String × Value)) → Bool
  | [] => true
  | item :: rest => arePlainFields item && arePlainItems rest
termination_by structural items => items

/-- Whether all fields of a record are plain. -/
def arePlainFields : List (String × Value) → Bool
  | [] => true
  | field :: rest => isPlainField field && arePlainFields rest
termination_by structural fields => fields

/-- Whether a field is plain. -/
def isPlainField : String × Value → Bool
  | (name, value) => decide (IsPlainName name.toList) && value.isPlain
termination_by structural field => field

end

/-- The tag of a field. -/
def fieldTag (name : String) : Tag := ⟨name.toList, []⟩

mutual

/-- The elements of a field. -/
def valueItems (name : String) : Value → List Item
  | .text content => [.element (fieldTag name) [.text (some content.toList)] true]
  | .integer n => [.element (fieldTag name) [.text (some (decimal n).toList)] true]
  | .real x => [.element (fieldTag name) [.text (some (Binary64.render x))] true]
  | .blank => [.element (fieldTag name) [] true]
  | .record fields => [.element (fieldTag name) (fieldsItems fields) true]
  | .records items => repeatedItems name items
termination_by structural value => value

/-- The elements of a repeated field. -/
def repeatedItems (name : String) : List (List (String × Value)) → List Item
  | [] => []
  | item :: rest => .element (fieldTag name) (fieldsItems item) true :: repeatedItems name rest
termination_by structural items => items

/-- The elements of the fields of a record. -/
def fieldsItems : List (String × Value) → List Item
  | [] => []
  | field :: rest => namedItems field ++ fieldsItems rest
termination_by structural fields => fields

/-- The elements of a field with its name. -/
def namedItems : String × Value → List Item
  | (name, value) => valueItems name value
termination_by structural field => field

end

/-- An element around whole items is one item. -/
theorem content_element_whole (name : String) {tokens : List Token} {items : List Item}
    (h : Content tokens (items.map .whole)) :
    Content (element name tokens) [.whole (.element (fieldTag name) items true)] := by
  have helement := content_element name h
  rwa [joinRuns_map_whole] at helement

/-- The text of an integer holds no white space. -/
theorem isSpace_of_mem_decimal {n : Int} {c : Char} (h : c ∈ (decimal n).toList) :
    Markup.isSpace c = false := by
  cases hspace : Markup.isSpace c with
  | false => rfl
  | true =>
    simp only [Markup.isSpace, Bool.or_eq_true, beq_iff_eq] at hspace
    rcases hspace with ((rfl | rfl) | rfl) | rfl <;> exact absurd h (notMem_decimal n (by decide))

mutual

/-- The tokens of a field have its elements as parts. -/
theorem content_fieldTokens (name : String) : (value : Value) → value.isPlain = true →
    Content (fieldTokens name value) ((valueItems name value).map .whole)
  | .text content, _ => by
    have h := content_element name (content_sections content.toList)
    rwa [joinRuns_sections] at h
  | .integer n, _ => by
    have htext : Content [.text (decimal n).toList] [.piece (.text (decimal n).toList)] :=
      .text .nil
    have hpiece := content_element name htext
    rwa [joinRuns_text (decimal_ne_nil n) (fun _ => isSpace_of_mem_decimal)
      (notMem_decimal n (by decide))] at hpiece
  | .real _, h => by simp [Value.isPlain] at h
  | .blank, _ => content_element name .nil
  | .record fields, h => by
    rw [Value.isPlain] at h
    exact content_element_whole name (content_fieldsTokens fields h)
  | .records items, h => by
    rw [Value.isPlain] at h
    exact content_itemsTokens name items h
termination_by structural value => value

/-- The tokens of a list of plain records are content that holds one whole element for each record.
-/
theorem content_itemsTokens (name : String) : (items : List (List (String × Value))) →
    arePlainItems items = true →
    Content (itemsTokens name items) ((repeatedItems name items).map .whole)
  | [], _ => .nil
  | item :: rest, h => by
    rw [arePlainItems, Bool.and_eq_true] at h
    have hitem := content_element_whole name (content_fieldsTokens item h.1)
    have hrest := content_itemsTokens name rest h.2
    rw [itemsTokens, repeatedItems, List.map_cons, ← List.singleton_append]
    exact hitem.append hrest
termination_by structural items => items

/-- The tokens of plain fields are content that holds their elements. -/
theorem content_fieldsTokens : (fields : List (String × Value)) → arePlainFields fields = true →
    Content (fieldsTokens fields) ((fieldsItems fields).map .whole)
  | [], _ => .nil
  | field :: rest, h => by
    rw [arePlainFields, Bool.and_eq_true] at h
    have hfield := content_namedTokens field h.1
    have hrest := content_fieldsTokens rest h.2
    rw [fieldsTokens, fieldsItems, List.map_append]
    exact hfield.append hrest
termination_by structural fields => fields

/-- The tokens of a plain field are content that holds its elements. -/
theorem content_namedTokens : (field : String × Value) → isPlainField field = true →
    Content (namedTokens field) ((namedItems field).map .whole)
  | (name, value), h => by
    rw [isPlainField, Bool.and_eq_true] at h
    exact content_fieldTokens name value h.2
termination_by structural field => field

end

/-- The tokens of a list of records start at a bracket, so that no text before them runs on. -/
theorem startsAtBracket_itemsTokens (name : String) (items : List Fields) :
    StartsAtBracket (itemsTokens name items) := by
  induction items with
  | nil => simp [itemsTokens, StartsAtBracket]
  | cons item rest ih =>
    intro c hc
    rw [itemsTokens, write_append] at hc
    exact (startsAtBracket_element name _).append ih c hc

/-- What is written for a field starts with a bracket, if anything is. -/
theorem startsAtBracket_fieldTokens (name : String) (value : Value) :
    StartsAtBracket (fieldTokens name value) := by
  cases value with
  | text | integer | real | blank | record => exact startsAtBracket_element name _
  | records items => exact startsAtBracket_itemsTokens name items

/-- The tokens of fields start at a bracket, so that no text before them runs on. -/
theorem startsAtBracket_fieldsTokens (fields : Fields) :
    StartsAtBracket (fieldsTokens fields) := by
  induction fields with
  | nil => simp [fieldsTokens, StartsAtBracket]
  | cons field rest ih =>
    obtain ⟨name, value⟩ := field
    intro c hc
    rw [fieldsTokens, namedTokens, write_append] at hc
    exact (startsAtBracket_fieldTokens name value).append ih c hc

mutual

/-- The tokens of a plain field are read off what is written for them. -/
theorem isWritten_fieldTokens {name : String} (hname : IsPlainName name.toList) :
    (value : Value) → value.isPlain = true → IsWritten (fieldTokens name value)
  | .text _, _ => isWritten_element hname (isWritten_sections _)
  | .integer n, _ =>
    isWritten_element hname (isWritten_text (decimal_ne_nil n) (notMem_decimal n (by decide)))
  | .real _, h => by simp [Value.isPlain] at h
  | .blank, _ => isWritten_element hname isWritten_nil
  | .record fields, h => by
    rw [Value.isPlain] at h
    exact isWritten_element hname (isWritten_fieldsTokens fields h)
  | .records items, h => by
    rw [Value.isPlain] at h
    exact isWritten_itemsTokens hname items h
termination_by structural value => value

/-- The tokens of a list of plain records are the ones that their text is read into. -/
theorem isWritten_itemsTokens {name : String} (hname : IsPlainName name.toList) :
    (items : List (List (String × Value))) → arePlainItems items = true →
    IsWritten (itemsTokens name items)
  | [], _ => isWritten_nil
  | item :: rest, h => by
    rw [arePlainItems, Bool.and_eq_true] at h
    have hitem := isWritten_element hname (isWritten_fieldsTokens item h.1)
    exact isWritten_append hitem (isWritten_itemsTokens hname rest h.2)
      (startsAtBracket_itemsTokens name rest)
termination_by structural items => items

/-- The tokens of plain fields are the ones that their text is read into. -/
theorem isWritten_fieldsTokens : (fields : List (String × Value)) →
    arePlainFields fields = true → IsWritten (fieldsTokens fields)
  | [], _ => isWritten_nil
  | field :: rest, h => by
    rw [arePlainFields, Bool.and_eq_true] at h
    exact isWritten_append (isWritten_namedTokens field h.1) (isWritten_fieldsTokens rest h.2)
      (startsAtBracket_fieldsTokens rest)
termination_by structural fields => fields

/-- The tokens of a plain field are the ones that its text is read into. -/
theorem isWritten_namedTokens : (field : String × Value) → isPlainField field = true →
    IsWritten (namedTokens field)
  | (name, value), h => by
    rw [isPlainField, Bool.and_eq_true, decide_eq_true_eq] at h
    exact isWritten_fieldTokens h.1 value h.2
termination_by structural field => field

end

/-- A plain record is scanned as its tokens inside the root. -/
theorem scan_toMarkup {root : String} {fields : Fields} (hroot : IsPlainName root.toList)
    (h : arePlainFields fields = true) :
    scan (fields.toMarkup root) = ⟨element root (fieldsTokens fields), true⟩ :=
  scan_write (isWritten_element hroot (isWritten_fieldsTokens fields h))

/-- A plain record is assembled into one element with the elements of its fields. -/
theorem assemble_fieldsTokens (root : String) {fields : Fields}
    (h : arePlainFields fields = true) : assemble (element root (fieldsTokens fields)) =
      [.element (fieldTag root) (fieldsItems fields) true] :=
  (content_element_whole root (content_fieldsTokens fields h)).assemble

/-- A written document has no byte order mark. -/
theorem dropMark_toMarkup (root : String) (fields : Fields) :
    dropMark (fields.toMarkup root) = fields.toMarkup root := by
  have hstarts : ∃ rest, fields.toMarkup root = '<' :: rest :=
    ⟨_, by rw [Fields.toMarkup, element, write_append, write_cons, Token.write_openTag]; rfl⟩
  obtain ⟨rest, hrest⟩ := hstarts
  rw [hrest]
  rfl

end CallbackGateway.Record
