import CallbackGateway.Proofs.Message.PopupShapes
import CallbackGateway.Proofs.Record.Comparison
import CallbackGateway.Proofs.Record.MarkupText

/-!
# Verbatim text

Every text of a record comes out of markup as it was put in, white space at its ends and end
markers of sections included. How a document cuts a text into runs and sections, which
spellings it uses for the characters, and what white space it has around its elements makes no
difference.

The numbers of a record have to be numbers. References are limited by the reader: a number of a
character has at most seven decimal or six hexadecimal digits, and zero is the number of none.
-/

namespace CallbackGateway

/-! ## The texts of a record -/

namespace Record

/-- A step into a record. -/
inductive Step
  | field (name : String)
  | item (name : String) (index : Nat)

/-- Which text a record has under a name of a record inside it. -/
inductive TextAt : Schema → Fields → List Step → String → String → Prop
  | leaf {schema : Schema} {fields : Fields} {name content : String}
      (hkind : List.lookup name schema = some .text)
      (h : List.lookup name fields = some (.text content)) : TextAt schema fields [] name content
  | field {schema inner : Schema} {fields : Fields} {key name content : String}
      {path : List Step} (hkind : List.lookup key schema = some (.record inner)) :
      TextAt inner (fields.record key) path name content →
      TextAt schema fields (.field key :: path) name content
  | item {schema inner : Schema} {fields item : Fields} {key name content : String}
      {index : Nat} {path : List Step} (hkind : List.lookup key schema = some (.records inner))
      (hitem : (fields.records key)[index]? = some item) : TextAt inner item path name content →
      TextAt schema fields (.item key index :: path) name content

/-- Items of lists that are related one by one stand at the same places. -/
theorem rel_getElem? {α β : Type} {R : α → β → Prop} {items : List α} {found : List β}
    (h : List.Forall₂ R items found) (index : Nat) :
    Option.Rel R items[index]? found[index]? := by
  induction h generalizing index with
  | nil => exact .none
  | cons hfirst _ ih =>
    cases index with
    | zero => exact .some hfirst
    | succ index => exact ih index

/-- The texts of a legible record are found where they are, and no others. -/
theorem Legible.textAt_iff {schema : Schema} {fields found : Fields} (h : Legible schema fields)
    {depth : Nat} (hschema : areRegular depth schema = true)
    (hfound : collect (readWritten schema) fields = .ok found) (path : List Step)
    (name content : String) :
    TextAt schema fields path name content ↔ TextAt schema found path name content := by
  induction path generalizing schema fields found depth with
  | nil =>
    constructor
    · rintro ⟨hkind, htext⟩
      exact .leaf hkind ((h.lookup_of_text hfound hkind).trans htext)
    · rintro ⟨hkind, htext⟩
      exact .leaf hkind ((h.lookup_of_text hfound hkind).symm.trans htext)
  | cons step path ih =>
    cases step with
    | field key =>
      have hinner {inner : Schema} (hkind : List.lookup key schema = some (.record inner)) :
          TextAt inner (fields.record key) path name content ↔
            TextAt inner (found.record key) path name content := by
        obtain ⟨below, -, hregular⟩ := Kind.isRegular_record (isRegular_of_lookup hschema hkind).2
        obtain ⟨hlegible, hcollect⟩ := h.collect_record hschema hfound hkind
        exact ih hlegible hregular hcollect
      constructor
      · intro htext
        cases htext with
        | field hkind htext => exact .field hkind ((hinner hkind).mp htext)
      · intro htext
        cases htext with
        | field hkind htext => exact .field hkind ((hinner hkind).mpr htext)
    | item key index =>
      have hitems {inner : Schema} (hkind : List.lookup key schema = some (.records inner)) :
          Option.Rel (fun item value => TextAt inner item path name content ↔
            TextAt inner value path name content)
            (fields.records key)[index]? (found.records key)[index]? := by
        obtain ⟨below, -, hregular⟩ := Kind.isRegular_records (isRegular_of_lookup hschema hkind).2
        refine rel_getElem? ((h.forall₂_collect hschema hfound hkind).imp ?_) index
        exact fun item value hitem => ih hitem.1 hregular hitem.2
      constructor
      · intro htext
        cases htext with
        | item hkind hitem htext =>
          have hrel := hitems hkind
          rw [hitem] at hrel
          generalize hvalue : (found.records key)[index]? = value at hrel
          cases hrel with
          | some hiff => exact .item hkind hvalue (hiff.mp htext)
      · intro htext
        cases htext with
        | item hkind hvalue htext =>
          have hrel := hitems hkind
          rw [hvalue] at hrel
          generalize hitem : (fields.records key)[index]? = item at hrel
          cases hrel with
          | some hiff => exact .item hkind hitem (hiff.mpr htext)

end Record

namespace Message

open Markup Record Text

/-- Every document of a legible record is read as the one record that its fields come to. -/
theorem fieldsOf_document {fields found : Fields} (h : Legible schema fields)
    (hfound : collect (readWritten schema) fields = .ok found) {root : String}
    {document : List Char} (hroot : IsPlainName root.toList)
    (hdocument : DocumentWritten root fields document) :
    fieldsOf .xml (Utf8.encode document) = .ok found := by
  obtain ⟨tokens, hspelled, rfl⟩ := hdocument.exists_spelled
  rw [fieldsOf, Utf8.decode_encode]
  dsimp only
  rw [fieldsOfMarkup_spelled hroot h.fits hspelled, hfound]
  rfl

/-- Every document of a legible record is read as one record, which has the texts that the record
has. The message is made of what is read. -/
theorem leaf_text_is_read_verbatim {fields : Fields} (h : Legible schema fields) :
    ∃ found,
      (∀ root document, IsPlainName root.toList → DocumentWritten root fields document →
        fieldsOf .xml (Utf8.encode document) = .ok found ∧
          decode .xml (Utf8.encode document) = .ok (ofFields found)) ∧
      ∀ path name content,
        TextAt schema fields path name content ↔ TextAt schema found path name content := by
  obtain ⟨found, hfound⟩ := h.exists_collect areRegular_schema
  refine ⟨found, fun root document hroot hdocument => ?_, h.textAt_iff areRegular_schema hfound⟩
  have hfields := fieldsOf_document h hfound hroot hdocument
  exact ⟨hfields, by rw [decode, hfields]; rfl⟩

/-- A text with white space at both ends and the end marker of a section. -/
def edgeFields : Fields := [("Content", .text " ]]> ")]

/-- A document in which this text is cut into two runs around a section. -/
def edgeDocument : List Char :=
  "<xml>\t<Content> <![CDATA[]]]]>&#62;&#x20;</Content>\r\n</xml>".toList

/-- White space at the ends and an end marker are read as they are. -/
theorem leaf_text_is_read_verbatim_edges :
    Legible schema edgeFields ∧ DocumentWritten "xml" edgeFields edgeDocument ∧
      ∃ found, fieldsOf .xml (Utf8.encode edgeDocument) = .ok found ∧
        TextAt schema found [] "Content" " ]]> " := by
  have hlegible : Legible schema edgeFields := by
    refine .mk (List.nodup_cons.mpr ⟨List.not_mem_nil, .nil⟩) fun name value hmem => ?_
    obtain ⟨rfl, rfl⟩ := Prod.mk.inj (List.mem_singleton.mp hmem)
    exact .text rfl
  have hdecimal : IsNumeral 10 '>'.toNat ['6', '2'] := ⟨0, by decide⟩
  have hhexadecimal : IsNumeral 16 ' '.toNat ['2', '0'] := ⟨0, by decide⟩
  have hspace : CharSpelled ' ' _ := .raw (by decide)
  have hbracket : CharSpelled '>' _ := .decimal (by decide) hdecimal (by decide)
  have hblank : CharSpelled ' ' _ := .hexadecimal (by decide) hhexadecimal (by decide)
  have hsection : ¬ "]]>".toList <:+: [']', ']'] := by decide
  have hleaf : LeafWritten " ]]> ".toList _ :=
    .run (List.cons_ne_nil _ _) (.cons hspace .nil) (.cdata hsection
      (.run (List.cons_ne_nil _ _) (.cons hbracket (.cons hblank .nil)) .nil))
  have hnone : IsWhiteSpace [] := by decide
  have htab : IsWhiteSpace ['\t'] := by decide
  have hbreak : IsWhiteSpace ['\r', '\n'] := by decide
  have hdocument : DocumentWritten "xml" edgeFields edgeDocument :=
    .mk hnone htab (.text hleaf (.tags _) hbreak .nil) (.tags _) hnone
  obtain ⟨found, hread, htexts⟩ := leaf_text_is_read_verbatim hlegible
  exact ⟨hlegible, hdocument, found, (hread "xml" _ (by decide) hdocument).1,
    (htexts [] "Content" " ]]> ").mp (.leaf rfl rfl)⟩

/-- A number of a character may have zeros in front, but not so many that it has eight digits. -/
theorem zeros_in_front_count_as_digits :
    IsNumeral 10 'A'.toNat "00000065".toList ∧ IsNumeral 10 'A'.toNat "0000065".toList ∧
      decode .xml (Utf8.encode
        "<xml><MsgType>text</MsgType><Content>&#0000065;</Content></xml>".toList) =
          .ok (ofFields [("MsgType", .text "text"), ("Content", .text "A")]) ∧
      decode .xml (Utf8.encode
        "<xml><MsgType>text</MsgType><Content>&#00000065;</Content></xml>".toList) =
          .error (.record .xml .malformed) := by
  exact ⟨⟨6, by decide⟩, ⟨5, by decide⟩, decode_of_fieldsOf (by decide +kernel),
    decode_error_of_fieldsOf (by decide +kernel)⟩

end Message

end CallbackGateway
