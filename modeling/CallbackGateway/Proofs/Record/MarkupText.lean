import CallbackGateway.Proofs.Markup.Readable
import CallbackGateway.Proofs.Markup.SpelledText
import CallbackGateway.Proofs.Record.SpelledMarkup

/-!
# Documents of records, character by character

A record of texts is a tree of elements with texts at its leaves. It is written as a document in
many ways: a text is cut into runs, in which each character has its own spelling, and sections;
white space stands around the elements of a record; an element without content is one tag or two.

Each of these documents is what is written for tokens that mark up the record, so that all of
them are read alike.
-/

namespace CallbackGateway.Record

open Markup

/-! ## Documents -/

/-- White space between elements. -/
def IsWhiteSpace (text : List Char) : Prop := ∀ c ∈ text, c = ' ' ∨ c = '\t' ∨ c = '\r' ∨ c = '\n'

instance (text : List Char) : Decidable (IsWhiteSpace text) := List.decidableBAll _ text

/-- Which characters are written for the text of a leaf: runs that are not empty and sections, in
any order. -/
inductive LeafWritten : List Char → List Char → Prop
  | nil : LeafWritten [] []
  | run {text run rest written : List Char} (hne : text ≠ []) (hrun : RunSpelled text run) :
      LeafWritten rest written → LeafWritten (text ++ rest) (run ++ written)
  | cdata {content rest written : List Char} (hcontent : ¬ "]]>".toList <:+: content) :
      LeafWritten rest written → LeafWritten (content ++ rest) (writeSection content ++ written)

/-- Which characters are written for an element with a content. -/
inductive ElementWritten (name : String) : List Char → List Char → Prop
  | tags (content : List Char) : ElementWritten name content
      ('<' :: name.toList ++ ['>'] ++ content ++ ('<' :: '/' :: name.toList ++ ['>']))
  | empty (hname : name ≠ "") : ElementWritten name [] ('<' :: name.toList ++ ['/', '>'])

/-- Which characters are written for the fields of a record, in their order. -/
inductive FieldsWritten : Fields → List Char → Prop
  | nil : FieldsWritten [] []
  | text {name content : String} {rest : Fields} {inner element after others : List Char}
      (hleaf : LeafWritten content.toList inner) (helement : ElementWritten name inner element)
      (hafter : IsWhiteSpace after) : FieldsWritten rest others →
      FieldsWritten ((name, .text content) :: rest) (element ++ (after ++ others))
  | record {name : String} {fields rest : Fields} {before inner element after others : List Char}
      (hbefore : IsWhiteSpace before) (helement : ElementWritten name (before ++ inner) element)
      (hafter : IsWhiteSpace after) : FieldsWritten fields inner → FieldsWritten rest others →
      FieldsWritten ((name, .record fields) :: rest) (element ++ (after ++ others))
  | noItems {name : String} {rest : Fields} {others : List Char} : FieldsWritten rest others →
      FieldsWritten ((name, .records []) :: rest) others
  | item {name : String} {item : Fields} {items : List Fields} {rest : Fields}
      {before inner element after others : List Char} (hbefore : IsWhiteSpace before)
      (helement : ElementWritten name (before ++ inner) element) (hafter : IsWhiteSpace after) :
      FieldsWritten item inner → FieldsWritten ((name, .records items) :: rest) others →
      FieldsWritten ((name, .records (item :: items)) :: rest) (element ++ (after ++ others))

/-- Which documents are written for a record: a root with its fields, and white space around
it. -/
inductive DocumentWritten (root : String) (fields : Fields) : List Char → Prop
  | mk {before lead inner element after : List Char} (hbefore : IsWhiteSpace before)
      (hlead : IsWhiteSpace lead) (hfields : FieldsWritten fields inner)
      (helement : ElementWritten root (lead ++ inner) element) (hafter : IsWhiteSpace after) :
      DocumentWritten root fields (before ++ (element ++ after))

/-! ## Their tokens -/

/-- A run that spells some text is a run of text in the document. -/
theorem isTextRun_of_spelled {text run : List Char} (h : RunSpelled text run) (hne : text ≠ []) :
    IsTextRun run text where
  ne_nil := by
    cases h with
    | nil => exact absurd rfl hne
    | cons hc => exact List.append_ne_nil_of_left_ne_nil hc.ne_nil _
  notMem := h.notMem
  unescape := h.unescape

/-- Two runs side by side are one run. -/
theorem IsTextRun.append {first second text other : List Char} (hfirst : IsTextRun first text)
    (hsecond : IsTextRun second other) : IsTextRun (first ++ second) (text ++ other) where
  ne_nil := List.append_ne_nil_of_left_ne_nil hfirst.ne_nil _
  notMem := List.not_mem_append hfirst.notMem hsecond.notMem
  unescape := by
    have hother : unescapeFrom none second = some other := hsecond.unescape
    have hall := unescapeFrom_append hfirst.unescape second
    rwa [hother, Option.map_some] at hall

namespace LeafSpelled

variable {raw first text : List Char} {tokens : List Token}

/-- A run in front of a leaf joins the run that the leaf starts with. -/
theorem exists_run (hrun : IsTextRun raw first) (h : LeafSpelled text tokens) :
    ∃ joined, LeafSpelled (first ++ text) joined ∧ write joined = raw ++ write tokens := by
  cases h with
  | nil =>
    refine ⟨[.text raw], ?_, rfl⟩
    rw [List.append_nil]
    exact .text hrun
  | @text next text hnext =>
    refine ⟨[.text (raw ++ next)], .text (hrun.append hnext), ?_⟩
    simp
  | cdata hchunk hrest => exact ⟨_, .textCdata hrun hchunk hrest, rfl⟩
  | @textCdata next second chunk text rest hnext hchunk hrest =>
    refine ⟨.text (raw ++ next) :: .cdata chunk :: rest, ?_, ?_⟩
    · rw [← List.append_assoc]
      exact .textCdata (hrun.append hnext) hchunk hrest
    · simp

/-- A spelled leaf of which nothing is written has no tokens. -/
theorem eq_nil_of_write (h : LeafSpelled text tokens) (hwrite : write tokens = []) :
    tokens = [] := by
  cases h with
  | nil => rfl
  | text hrun => exact absurd (by simpa using hwrite) hrun.ne_nil
  | cdata => simp at hwrite
  | textCdata => simp at hwrite

end LeafSpelled

/-- A written leaf is what is written for tokens that spell its text. -/
theorem LeafWritten.exists_spelled {text written : List Char} (h : LeafWritten text written) :
    ∃ tokens, LeafSpelled text tokens ∧ write tokens = written := by
  induction h with
  | nil => exact ⟨[], .nil, rfl⟩
  | run hne hrun _ ih =>
    obtain ⟨tokens, hspelled, rfl⟩ := ih
    exact hspelled.exists_run (isTextRun_of_spelled hrun hne)
  | cdata hcontent _ ih =>
    obtain ⟨tokens, hspelled, rfl⟩ := ih
    exact ⟨_, .cdata hcontent hspelled, rfl⟩

/-- White space is what is written for tokens of spacing. -/
theorem IsWhiteSpace.exists_spacing {text : List Char} (h : IsWhiteSpace text) :
    ∃ tokens, Spacing tokens ∧ write tokens = text := by
  by_cases hne : text = []
  · exact ⟨[], .none, hne.symm⟩
  · refine ⟨[.text text], .space hne fun c hc => ?_, by simp⟩
    rcases h c hc with rfl | rfl | rfl | rfl <;> rfl

/-- A written element is what is written for tokens that spell it around the same content. -/
theorem ElementWritten.exists_spelled {name : String} {inner element : List Char}
    (h : ElementWritten name inner element) {content : List Token}
    (hcontent : write content = inner) (hnil : write content = [] → content = []) :
    ∃ tokens, ElementSpelled name content tokens ∧ write tokens = element := by
  cases h with
  | tags => exact ⟨_, .tags content, by simp [Markup.element, hcontent]⟩
  | empty hname =>
    obtain rfl := hnil hcontent
    exact ⟨_, .empty hname, by simp⟩

/-- Where nothing is written, there is no white space and no element. -/
theorem eq_nil_of_write {before inner : List Token} (hbefore : Spacing before)
    (hinner : ∀ token ∈ inner.head?, token.isStart = true) (h : write (before ++ inner) = []) :
    before ++ inner = [] := by
  rw [write_append, List.append_eq_nil_iff] at h
  have hspace : before = [] := by
    cases hbefore with
    | none => rfl
    | space hne => exact absurd (by simpa using h.1) hne
  subst hspace
  cases inner with
  | nil => rfl
  | cons token rest =>
    have hstart := hinner token rfl
    have hwrite := (List.append_eq_nil_iff.mp h.2).1
    cases token with
    | openTag | emptyTag => simp at hwrite
    | closeTag | text | cdata | comment | instruction | doctype => simp [Token.isStart] at hstart

/-- Written fields are what is written for tokens that mark the fields up. -/
theorem FieldsWritten.exists_markedUp {fields : Fields} {written : List Char}
    (h : FieldsWritten fields written) :
    ∃ tokens, MarkedUp fields tokens ∧ write tokens = written := by
  -- The content of a record is written for white space and its elements.
  have content {fields : Fields} {name : String} {before inner element after : List Char}
      (hbefore : IsWhiteSpace before) (helement : ElementWritten name (before ++ inner) element)
      (hafter : IsWhiteSpace after)
      (hfields : ∃ tokens, MarkedUp fields tokens ∧ write tokens = inner) :
      ∃ lead tokens spelled trail, Spacing lead ∧ MarkedUp fields tokens ∧
        ElementSpelled name (lead ++ tokens) spelled ∧ Spacing trail ∧
        write (spelled ++ trail) = element ++ after := by
    obtain ⟨lead, hlead, rfl⟩ := hbefore.exists_spacing
    obtain ⟨tokens, hmarked, rfl⟩ := hfields
    obtain ⟨trail, htrail, rfl⟩ := hafter.exists_spacing
    obtain ⟨spelled, hspelled, rfl⟩ := helement.exists_spelled (write_append lead tokens)
      (eq_nil_of_write hlead hmarked.isStart)
    exact ⟨lead, tokens, spelled, trail, hlead, hmarked, hspelled, htrail, write_append _ _⟩
  induction h with
  | nil => exact ⟨[], .nil, rfl⟩
  | text hleaf helement hafter _ ih =>
    obtain ⟨inner, hinner, rfl⟩ := hleaf.exists_spelled
    obtain ⟨trail, htrail, rfl⟩ := hafter.exists_spacing
    obtain ⟨spelled, hspelled, rfl⟩ := helement.exists_spelled rfl hinner.eq_nil_of_write
    obtain ⟨others, hothers, rfl⟩ := ih
    exact ⟨_, .text hinner hspelled htrail hothers, by simp⟩
  | record hbefore helement hafter _ _ ihfields ih =>
    obtain ⟨lead, tokens, spelled, trail, hlead, hmarked, hspelled, htrail, hwrite⟩ :=
      content hbefore helement hafter ihfields
    obtain ⟨others, hothers, rfl⟩ := ih
    refine ⟨_, .record hlead hspelled htrail hmarked hothers, ?_⟩
    rw [← List.append_assoc, write_append, hwrite, List.append_assoc]
  | noItems _ ih =>
    obtain ⟨others, hothers, hwrite⟩ := ih
    exact ⟨others, .noItems hothers, hwrite⟩
  | item hbefore helement hafter _ _ ihitem ih =>
    obtain ⟨lead, tokens, spelled, trail, hlead, hmarked, hspelled, htrail, hwrite⟩ :=
      content hbefore helement hafter ihitem
    obtain ⟨others, hothers, rfl⟩ := ih
    refine ⟨_, .item hlead hspelled htrail hmarked hothers, ?_⟩
    rw [← List.append_assoc, write_append, hwrite, List.append_assoc]

/-- A document of a record is what is written for tokens that spell the record. -/
theorem DocumentWritten.exists_spelled {root : String} {fields : Fields} {document : List Char}
    (h : DocumentWritten root fields document) :
    ∃ tokens, SpelledDocument root fields tokens ∧ write tokens = document := by
  obtain ⟨hbefore, hlead, hfields, helement, hafter⟩ := h
  obtain ⟨before, hspace, rfl⟩ := hbefore.exists_spacing
  obtain ⟨lead, hleading, rfl⟩ := hlead.exists_spacing
  obtain ⟨inner, hinner, rfl⟩ := hfields.exists_markedUp
  obtain ⟨after, htrailing, rfl⟩ := hafter.exists_spacing
  obtain ⟨element, hspelled, rfl⟩ := helement.exists_spelled (write_append lead inner)
    (eq_nil_of_write hleading hinner.isStart)
  exact ⟨_, .mk hspace hleading hinner hspelled htrailing, by simp⟩

end CallbackGateway.Record
