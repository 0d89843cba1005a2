import CallbackGateway.Proofs.Markup.LeafText
import CallbackGateway.Proofs.Record.MarkupItems

/-!
# Written records with kept leaf text

Before a callback is read as a record, the text of its leaves is turned into sections. In a written
record only integers are text, and they become sections of their digits; all else stays as it was
written. So the elements of a record are the same before and after.
-/

namespace CallbackGateway.Record

open Markup Text

mutual

/-- A value with its integers as texts. -/
def Value.kept : Value → Value
  | .integer n => .text (decimal n)
  | .record fields => .record (keptFields fields)
  | .records items => .records (keptItems items)
  | .text content => .text content
  | .real x => .real x
  | .blank => .blank
termination_by structural value => value

/-- The items of a repeated field with their integers as texts. -/
def keptItems : List (List (String × Value)) → List (List (String × Value))
  | [] => []
  | item :: rest => keptFields item :: keptItems rest
termination_by structural items => items

/-- The fields of a record with their integers as texts. -/
def keptFields : List (String × Value) → List (String × Value)
  | [] => []
  | field :: rest => keptField field :: keptFields rest
termination_by structural fields => fields

/-- A field with its integers as texts. -/
def keptField : String × Value → String × Value
  | (name, value) => (name, value.kept)
termination_by structural field => field

end

mutual

/-- An integer is the same element as its text. -/
theorem valueItems_kept (name : String) : (value : Value) →
    valueItems name value.kept = valueItems name value
  | .text _ | .integer _ | .real _ | .blank => rfl
  | .record fields => by
    rw [Value.kept, valueItems, valueItems, fieldsItems_kept fields]
  | .records items => by
    rw [Value.kept, valueItems, valueItems, repeatedItems_kept name items]
termination_by structural value => value

/-- Integers as texts do not change the elements that a list of records stands for. -/
theorem repeatedItems_kept (name : String) : (items : List (List (String × Value))) →
    repeatedItems name (keptItems items) = repeatedItems name items
  | [] => rfl
  | item :: rest => by
    rw [keptItems, repeatedItems, repeatedItems, fieldsItems_kept item,
      repeatedItems_kept name rest]
termination_by structural items => items

/-- Integers as texts do not change the elements that the fields stand for. -/
theorem fieldsItems_kept : (fields : List (String × Value)) →
    fieldsItems (keptFields fields) = fieldsItems fields
  | [] => rfl
  | field :: rest => by
    rw [keptFields, fieldsItems, fieldsItems, namedItems_kept field, fieldsItems_kept rest]
termination_by structural fields => fields

/-- An integer as text does not change the elements that a field stands for. -/
theorem namedItems_kept : (field : String × Value) →
    namedItems (keptField field) = namedItems field
  | (name, value) => by
    rw [keptField, namedItems, namedItems, valueItems_kept name value]
termination_by structural field => field

end

mutual

/-- A plain value stays plain. -/
theorem isPlain_kept : (value : Value) → value.isPlain = true → value.kept.isPlain = true
  | .text _, _ | .integer _, _ | .blank, _ => rfl
  | .real _, h => h
  | .record fields, h => by
    rw [Value.kept, Value.isPlain]
    exact arePlainFields_kept fields h
  | .records items, h => by
    rw [Value.kept, Value.isPlain]
    exact arePlainItems_kept items h
termination_by structural value => value

/-- A list of plain records stays plain with its integers as texts. -/
theorem arePlainItems_kept : (items : List (List (String × Value))) →
    arePlainItems items = true → arePlainItems (keptItems items) = true
  | [], _ => rfl
  | item :: rest, h => by
    rw [arePlainItems, Bool.and_eq_true] at h
    rw [keptItems, arePlainItems, arePlainFields_kept item h.1, arePlainItems_kept rest h.2]
    rfl
termination_by structural items => items

/-- Plain fields stay plain with their integers as texts. -/
theorem arePlainFields_kept : (fields : List (String × Value)) →
    arePlainFields fields = true → arePlainFields (keptFields fields) = true
  | [], _ => rfl
  | field :: rest, h => by
    rw [arePlainFields, Bool.and_eq_true] at h
    rw [keptFields, arePlainFields, isPlainField_kept field h.1, arePlainFields_kept rest h.2]
    rfl
termination_by structural fields => fields

/-- A plain field stays plain with its integers as texts. -/
theorem isPlainField_kept : (field : String × Value) → isPlainField field = true →
    isPlainField (keptField field) = true
  | (name, value), h => by
    rw [isPlainField, Bool.and_eq_true] at h
    rw [keptField, isPlainField, h.1, isPlain_kept value h.2]
    rfl
termination_by structural field => field

end

/-! ## Keeping the text -/

/-- Whether keeping leaf text turns tokens into others, whatever follows them. -/
def IsKeptAs (tokens kept : List Token) : Prop :=
  ∀ rest, keepLeafText (tokens ++ rest) = (keepLeafText rest).map (kept ++ ·)

/-- Whether the same holds inside a leaf, up to the end of the element. -/
def IsKeptInside (content kept : List Token) : Prop :=
  ∀ name rest, keepLeafTextFrom true none (content ++ .closeTag name :: rest) =
    (keepLeafText rest).map (kept ++ .closeTag name :: ·)

/-- No tokens are kept as no tokens. -/
theorem isKeptAs_nil : IsKeptAs [] [] := fun rest => by
  cases h : keepLeafText rest <;> simp [h]

/-- Runs of tokens that each are kept on their own are kept one after the other. -/
theorem IsKeptAs.append {first second kept others : List Token} (hfirst : IsKeptAs first kept)
    (hsecond : IsKeptAs second others) : IsKeptAs (first ++ second) (kept ++ others) := by
  intro rest
  rw [List.append_assoc, hfirst, hsecond, Option.map_map]
  exact congrArg (Option.map · _) (funext fun tokens => (List.append_assoc _ _ _).symm)

/-- An element is kept with its content. -/
theorem IsKeptInside.element {content kept : List Token} (h : IsKeptInside content kept)
    (name : String) : IsKeptAs (element name content) (element name kept) := by
  intro rest
  have htokens : Markup.element name content ++ rest =
      .openTag ⟨name.toList, []⟩ :: (content ++ .closeTag name.toList :: rest) := by
    simp [Markup.element]
  rw [htokens, keepLeafText, keepLeafTextFrom_markup rfl, leafAfter, h, Option.map_map]
  exact congrArg (Option.map · _) (funext fun tokens => by simp [placePending, Markup.element])

/-- A closing tag behind no pending text is kept, and what follows is read outside a leaf. -/
theorem keepLeafTextFrom_closeTag (inLeaf : Bool) (name : List Char) (rest : List Token) :
    keepLeafTextFrom inLeaf none (.closeTag name :: rest) =
      (keepLeafText rest).map (.closeTag name :: ·) := by
  rw [keepLeafTextFrom_markup rfl]
  rfl

/-- Where a tag comes first, it does not matter what came before it. -/
theorem keepLeafTextFrom_true {tokens : List Token} {first : Token}
    (hfirst : tokens.head? = some first) (htag : first.isTag = true) :
    keepLeafTextFrom true none tokens = keepLeafText tokens := by
  obtain ⟨rest, rfl⟩ := List.head?_eq_some_iff.mp hfirst
  cases first with
  | openTag | emptyTag | closeTag => rfl
  | text | cdata | comment | instruction | doctype => simp [Token.isTag] at htag

/-- Elements are kept inside an element as they are outside. -/
theorem IsKeptAs.inside {content kept : List Token} (h : IsKeptAs content kept)
    (hhead : ∀ token ∈ content.head?, token.isTag = true) : IsKeptInside content kept := by
  intro name rest
  have hfirst : ∃ first, (content ++ Token.closeTag name :: rest).head? = some first ∧
      first.isTag = true := by
    cases content with
    | nil => exact ⟨_, rfl, rfl⟩
    | cons token content => exact ⟨token, rfl, hhead token rfl⟩
  obtain ⟨first, hfirst, htag⟩ := hfirst
  rw [keepLeafTextFrom_true hfirst htag, h, keepLeafText, keepLeafTextFrom_closeTag, Option.map_map]
  rfl

/-- An empty leaf is kept as it is. -/
theorem isKeptInside_nil : IsKeptInside [] [] := fun name rest =>
  keepLeafTextFrom_closeTag true name rest

/-- A section stays as it is. -/
theorem IsKeptInside.cdata {content kept : List Token} (h : IsKeptInside content kept)
    (chunk : List Char) : IsKeptInside (.cdata chunk :: content) (.cdata chunk :: kept) := by
  intro name rest
  rw [List.cons_append, keepLeafTextFrom_markup rfl, leafAfter_of_noTag rfl, h, Option.map_map]
  rfl

/-- Sections inside a leaf are kept as they are. -/
theorem isKeptInside_sections (text : List Char) :
    IsKeptInside (sections text) (sections text) := by
  rw [sections]
  induction chunks text with
  | nil => exact isKeptInside_nil
  | cons chunk chunks ih => exact ih.cdata chunk

/-- Text becomes sections at the end of the element. -/
theorem isKeptInside_text {raw text : List Char} (h : unescape raw = some text) :
    IsKeptInside [.text raw] (sections text) := by
  intro name rest
  rw [List.singleton_append, keepLeafTextFrom_leafText, h, Option.bind_some, Option.getD_none,
    List.nil_append, keepLeafTextFrom_markup rfl]
  rfl

/-- The tokens of a list of records begin with a tag, if with anything. -/
theorem isTag_head_itemsTokens {name : String} {items : List Fields} :
    ∀ token ∈ (itemsTokens name items).head?, token.isTag = true := by
  cases items with
  | nil => simp [itemsTokens]
  | cons item items => simp [itemsTokens, element, Token.isTag]

/-- The tokens of fields begin with a tag, if with anything. -/
theorem isTag_head_fieldsTokens {fields : Fields} :
    ∀ token ∈ (fieldsTokens fields).head?, token.isTag = true := by
  induction fields with
  | nil => simp [fieldsTokens]
  | cons field fields ih =>
    obtain ⟨name, value⟩ := field
    intro token htoken
    rw [fieldsTokens, namedTokens, List.head?_append, Option.mem_def,
      Option.or_eq_some_iff] at htoken
    rcases htoken with htoken | ⟨-, htoken⟩
    · cases value with
      | text | integer | real | blank | record =>
        obtain rfl := Option.some.inj htoken
        rfl
      | records items => exact isTag_head_itemsTokens token htoken
    · exact ih token htoken

mutual

/-- The leaf text of a plain field is kept as the field with its integers as texts. -/
theorem isKeptAs_fieldTokens (name : String) : (value : Value) → value.isPlain = true →
    IsKeptAs (fieldTokens name value) (fieldTokens name value.kept)
  | .text content, _ => (isKeptInside_sections content.toList).element name
  | .integer n, _ =>
    (isKeptInside_text (unescape_eq_self (notMem_decimal n (by decide)))).element name
  | .real _, h => by simp [Value.isPlain] at h
  | .blank, _ => isKeptInside_nil.element name
  | .record fields, h =>
    ((isKeptAs_fieldsTokens fields h).inside isTag_head_fieldsTokens).element name
  | .records items, h => isKeptAs_itemsTokens name items h
termination_by structural value => value

/-- The tokens of a list of plain records are kept as those of the records with texts for
integers. -/
theorem isKeptAs_itemsTokens (name : String) : (items : List (List (String × Value))) →
    arePlainItems items = true →
    IsKeptAs (itemsTokens name items) (itemsTokens name (keptItems items))
  | [], _ => isKeptAs_nil
  | item :: rest, h => by
    rw [arePlainItems, Bool.and_eq_true] at h
    have hitem := (isKeptAs_fieldsTokens item h.1).inside isTag_head_fieldsTokens
    exact (hitem.element name).append (isKeptAs_itemsTokens name rest h.2)
termination_by structural items => items

/-- The tokens of plain fields are kept as those of the fields with texts for integers. -/
theorem isKeptAs_fieldsTokens : (fields : List (String × Value)) →
    arePlainFields fields = true →
    IsKeptAs (fieldsTokens fields) (fieldsTokens (keptFields fields))
  | [], _ => isKeptAs_nil
  | field :: rest, h => by
    rw [arePlainFields, Bool.and_eq_true] at h
    exact (isKeptAs_namedTokens field h.1).append (isKeptAs_fieldsTokens rest h.2)
termination_by structural fields => fields

/-- The tokens of a plain field are kept as those of the field with texts for integers. -/
theorem isKeptAs_namedTokens : (field : String × Value) → isPlainField field = true →
    IsKeptAs (namedTokens field) (namedTokens (keptField field))
  | (name, value), h => by
    rw [isPlainField, Bool.and_eq_true] at h
    exact isKeptAs_fieldTokens name value h.2
termination_by structural field => field

end

/-- A plain document is kept as the document with its integers as texts. -/
theorem keepLeafText_element (root : String) {fields : Fields}
    (h : arePlainFields fields = true) : keepLeafText (element root (fieldsTokens fields)) =
      some (element root (fieldsTokens (keptFields fields))) := by
  have hroot := ((isKeptAs_fieldsTokens fields h).inside isTag_head_fieldsTokens).element root []
  rw [List.append_nil] at hroot
  rw [hroot, keepLeafText, keepLeafTextFrom, placePending, Option.map_some, List.append_nil]

end CallbackGateway.Record
