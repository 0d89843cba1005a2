import CallbackGateway.Envelope.Wrapper
import CallbackGateway.Message.Decode
import CallbackGateway.Proofs.Json.Document
import CallbackGateway.Proofs.Markup.Document
import CallbackGateway.Proofs.Markup.Writing
import CallbackGateway.Proofs.Record.Comparison
import CallbackGateway.Proofs.Record.MarkupReading

/-!
# What accepted bodies begin with

A JSON body is accepted only as a whole. A markup body is accepted for its root: it begins with
layout and one whole element, and the whole body is a document just if only layout follows.

What follows the root does not matter to a wrapper, and to a message only if it cannot be read
at all.
-/

namespace CallbackGateway

open Text Markup Record

/-- Whether a whole body is one document of a format. A mark may stand in front of markup. -/
def IsWhole (format : WireFormat) (body : Bytes) : Prop :=
  match format with
  | .json => Json.IsDocument body
  | .xml => ∃ text, body = Utf8.encode text ∧ Markup.IsDocument (dropMark text)

/-- A text is one whole XML document as a body just if it is one behind its byte order mark. -/
theorem isWhole_xml_iff {text : List Char} :
    IsWhole .xml (Utf8.encode text) ↔ Markup.IsDocument (dropMark text) := by
  constructor
  · rintro ⟨other, hsame, hdocument⟩
    have hdecode := Utf8.decode_encode text
    rw [hsame, Utf8.decode_encode, Except.ok.injEq] at hdecode
    rwa [← hdecode]
  · exact fun h => ⟨text, rfl, h⟩

/-- A markup body whose text, behind marks, begins with layout and one whole element: it is a
document just if one mark at most stands in front and only layout follows. The last character of
the body may be missing, and then the body is no document. -/
def BeginsRooted (marks : Nat) (body : Bytes) : Prop :=
  ∃ n ≤ marks, ∃ text, body = Utf8.encode (List.replicate n byteOrderMark ++ text) ∧
    ((∃ head rest, text = head ++ rest ∧ IsRooted head ∧
        (IsWhole .xml body ↔ n ≤ 1 ∧ IsLayout rest)) ∨
      IsRooted (text ++ ['>']) ∧ ¬ IsWhole .xml body)

/-- Whether what follows the root can be read at all. -/
def Markup.isReadable (text : List Char) : Bool :=
  (scan text).complete && namesMatch [] (scan text).tokens &&
    (keepLeafText (scan text).tokens).isSome

/-- A text is its part behind the mark with at most one mark in front. -/
theorem exists_marks (text : List Char) :
    ∃ n ≤ 1, text = List.replicate n byteOrderMark ++ dropMark text := by
  rcases dropMark_eq_or text with hnone | hmark
  · exact ⟨0, by omega, hnone.symm⟩
  · exact ⟨1, by omega, hmark⟩

/-- A body begins rooted if its text does behind the marks. -/
theorem beginsRooted_of_text {n marks : Nat} {text rest : List Char} (hn : n ≤ marks)
    (htext : text = List.replicate n byteOrderMark ++ rest)
    (h : (∃ head tail, rest = head ++ tail ∧ IsRooted head) ∨
      IsRooted (rest ++ ['>']) ∧ ¬ Markup.IsDocument (dropMark text)) :
    BeginsRooted marks (Utf8.encode text) := by
  refine ⟨n, hn, rest, by rw [htext], ?_⟩
  rcases h with ⟨head, tail, rfl, hhead⟩ | ⟨hrooted, hnone⟩
  · refine .inl ⟨head, tail, rfl, hhead, ?_⟩
    rw [isWhole_xml_iff, htext, isDocument_dropMark_iff hhead]
  · exact .inr ⟨hrooted, fun hwhole => hnone (isWhole_xml_iff.mp hwhole)⟩

/-! ## Wrappers -/

/-- A wrapper is read out of text that begins with one rooted element, or of text that lacks only
the last bracket of one. -/
theorem Envelope.rooted_of_fieldsOfMarkup {text : List Char} {fields : Fields}
    (h : Envelope.fieldsOfMarkup text = .ok fields) :
    (∃ head rest, dropMark text = head ++ rest ∧ IsRooted head) ∨
      IsRooted (dropMark text ++ ['>']) ∧ ¬ Markup.IsDocument (dropMark text) := by
  obtain ⟨tag, content, hhead⟩ := head?_of_ofItems h
  obtain ⟨before, root, after, hscan, hbefore, hroot⟩ := root_of_head?_assemble hhead
  rcases rooted_of_scan hscan hroot with ⟨rest, hlexes⟩ | ⟨-, hlexes, hnone⟩
  · obtain ⟨head, hsplit, hhead⟩ := hlexes.split
    exact .inl ⟨head, rest, hsplit, before, root, hhead, hbefore, hroot⟩
  · exact .inr ⟨⟨before, root, hlexes, hbefore, hroot⟩, fun ⟨_, _, _, h, _⟩ => hnone _ h⟩

/-- A wrapper is made of fields. -/
theorem Envelope.exists_fieldsOf {format : WireFormat} {body : Bytes} {wrapper : Envelope.Wrapper}
    (h : Envelope.Wrapper.decode format body = .ok wrapper) :
    ∃ fields, Envelope.fieldsOf format body = .ok fields := by
  unfold Envelope.Wrapper.decode at h
  cases hfields : Envelope.fieldsOf format body with
  | error e => simp [hfields, bind, Except.bind] at h
  | ok fields => exact ⟨fields, rfl⟩

/-- A body that is read as a wrapper begins with one rooted element, behind at most one mark. -/
theorem Envelope.beginsRooted_of_decode {body : Bytes} {wrapper : Envelope.Wrapper}
    (h : Envelope.Wrapper.decode .xml body = .ok wrapper) : BeginsRooted 1 body := by
  obtain ⟨fields, h⟩ := Envelope.exists_fieldsOf h
  unfold Envelope.fieldsOf at h
  dsimp only at h
  split at h
  · rename_i text htext
    rw [Utf8.decode_eq_ok_iff.mp htext]
    obtain ⟨found, hfound⟩ : ∃ found, Envelope.fieldsOfMarkup text = .ok found := by
      cases hresult : Envelope.fieldsOfMarkup text with
      | error e => simp [hresult, Except.mapError] at h
      | ok found => exact ⟨found, rfl⟩
    obtain ⟨n, hn, hmarks⟩ := exists_marks text
    exact beginsRooted_of_text hn hmarks (Envelope.rooted_of_fieldsOfMarkup hfound)
  · simp at h

/-! ## Messages -/

/-- A message is read out of text that begins with one rooted element, or of text that lacks only
the last bracket of one; two marks in front are dropped. -/
theorem Message.rooted_of_fieldsOfMarkup {text : List Char} {fields : Fields}
    (h : Message.fieldsOfMarkup text = .ok fields) :
    (∃ head rest, dropMark (dropMark text) = head ++ rest ∧ IsRooted head) ∨
      IsRooted (dropMark (dropMark text) ++ ['>']) ∧ ¬ Markup.IsDocument (dropMark text) := by
  unfold Message.fieldsOfMarkup at h
  dsimp only at h
  split at h
  · split at h
    · rename_i kept hkept
      obtain ⟨tag, content, hhead⟩ := head?_of_ofItems h
      obtain ⟨before, root', after', hdropped, hbefore, hroot'⟩ := root_of_head?_assemble hhead
      obtain ⟨marked, root, after, hscan, hmarked, rfl, hroot⟩ :=
        root_of_keepLeafText hkept hdropped hbefore hroot'
      obtain ⟨first, inner, rfl, hfirst⟩ := hroot.exists_first
      have hne : marked ++ first :: inner ≠ [] := by simp
      rcases rooted_of_scan hscan hroot with ⟨rest, hlexes⟩ | ⟨htext, hlexes, hnone⟩
      · have hmark := hlexes.dropLeadingMark hne
        rw [dropLeadingMark_append_tag hfirst] at hmark
        obtain ⟨head, hsplit, hhead⟩ := hmark.split
        exact .inl ⟨head, rest, hsplit, _, _, hhead, hbefore, hroot⟩
      · have hmark := hlexes.dropLeadingMark hne
        rw [dropLeadingMark_append_tag hfirst, dropMark_append htext] at hmark
        exact .inr ⟨⟨_, _, hmark, hbefore, hroot⟩, fun ⟨_, _, _, h, _⟩ => hnone _ h⟩
    · simp at h
  · simp at h

/-- A message is made of fields. -/
theorem Message.exists_fieldsOf {format : WireFormat} {body : Bytes} {message : Message}
    (h : Message.decode format body = .ok message) :
    ∃ fields, Message.fieldsOf format body = .ok fields := by
  unfold Message.decode at h
  cases hfields : Message.fieldsOf format body with
  | error e => simp [hfields, Except.map] at h
  | ok fields => exact ⟨fields, rfl⟩

/-- A body that is read as a message begins with one rooted element, behind at most two marks. -/
theorem Message.beginsRooted_of_decode {body : Bytes} {message : Message}
    (h : Message.decode .xml body = .ok message) : BeginsRooted 2 body := by
  obtain ⟨fields, h⟩ := Message.exists_fieldsOf h
  unfold Message.fieldsOf at h
  dsimp only at h
  split at h
  · rename_i text htext
    rw [Utf8.decode_eq_ok_iff.mp htext]
    obtain ⟨found, hfound⟩ : ∃ found, Message.fieldsOfMarkup text = .ok found := by
      cases hresult : Message.fieldsOfMarkup text with
      | error e => simp [hresult, Except.mapError] at h
      | ok found => exact ⟨found, rfl⟩
    obtain ⟨n, hn, hmarks⟩ := exists_marks text
    obtain ⟨m, hm, hmore⟩ := exists_marks (dropMark text)
    refine beginsRooted_of_text (n := n + m) (by omega) ?_ (Message.rooted_of_fieldsOfMarkup hfound)
    rw [← List.replicate_append_replicate, List.append_assoc, ← hmore, ← hmarks]
  · simp at h

/-! ## What follows the root -/

/-- The record at the root is read alike, whatever follows the root. -/
theorem ofItems_rooted (schema : Schema) {before root : List Token}
    (hbefore : ∀ token ∈ before, token.isMisc = true) (hroot : IsElement root)
    (hlayout : dropLeadingMark before = before) (others more : List Token) :
    ofItems schema (assemble (dropLeadingMark (before ++ (root ++ others)))) =
      ofItems schema (assemble (dropLeadingMark (before ++ (root ++ more)))) := by
  obtain ⟨tag, content, hsettled⟩ := head?_assemble_root hbefore hroot
  obtain ⟨first, inner, rfl, hfirst⟩ := hroot.exists_first
  have hdrop (others : List Token) : dropLeadingMark (before ++ (first :: inner ++ others)) =
      before ++ (first :: inner ++ others) := by
    rw [List.cons_append, dropLeadingMark_append_tag hfirst, hlayout]
  rw [hdrop, hdrop]
  apply ofItems_congr
  rw [hsettled, hsettled]

section Rest

variable {head : List Char} (hhead : IsRooted head) (rest : List Char)

include hhead

/-- Nothing that follows the root changes the fields of a wrapper. -/
theorem Envelope.fieldsOfMarkup_append :
    Envelope.fieldsOfMarkup (head ++ rest) = Envelope.fieldsOfMarkup head := by
  have hmark := hhead.dropMark_append []
  rw [List.append_nil] at hmark
  unfold Envelope.fieldsOfMarkup
  rw [hhead.dropMark_append, hmark]
  obtain ⟨before, root, hlexes, hbefore, hroot⟩ := hhead
  apply ofItems_congr
  obtain ⟨tag, content, hsettled⟩ := head?_assemble_root hbefore hroot
  rw [(hlexes.append_rest hroot rest).scan.1, hlexes.scan.1, List.append_assoc,
    List.append_assoc, hsettled, hsettled]

/-- What follows the root changes the fields of a message only if it cannot be read. -/
theorem Message.fieldsOfMarkup_append :
    Message.fieldsOfMarkup (head ++ rest) =
      if isReadable rest then Message.fieldsOfMarkup head else .error .malformed := by
  have hmark := hhead.dropMark_append []
  rw [List.append_nil] at hmark
  unfold Message.fieldsOfMarkup isReadable
  rw [hhead.dropMark_append, hmark]
  obtain ⟨before, root, hlexes, hbefore, hroot⟩ := hhead
  have hlayout := (hlexes.dropMark_of_layout hbefore hroot).2
  obtain ⟨htokens, hcomplete⟩ := (hlexes.append_rest hroot rest).scan
  have hown : scan head = ⟨before ++ (root ++ []), true⟩ := by
    rw [List.append_nil]
    exact hlexes.scan_eq
  rw [List.append_assoc] at htokens
  obtain ⟨kept, hkept, helement⟩ := keepLeafText_rooted hbefore hroot
  have hnames (others : List Token) :
      namesMatch [] (before ++ (root ++ others)) = namesMatch [] others := by
    have hbefore : Balanced before :=
      .of_noTags fun token ht => Token.isTag_of_isMisc (hbefore token ht)
    rw [hbefore.namesMatch, hroot.balanced.namesMatch]
  -- Both sides now differ only in what is kept of the rest.
  simp only [htokens, hown, hcomplete, hkept, hnames]
  cases (scan rest).complete && namesMatch [] (scan rest).tokens with
  | false => rfl
  | true =>
    cases keepLeafText (scan rest).tokens with
    | none =>
      cases kept <;> rfl
    | some others =>
      cases kept with
      | none => rfl
      | some front =>
        simp only [Option.bind_some, Option.map_some]
        rw [if_pos trivial, ofItems_rooted Message.schema hbefore (helement front rfl) hlayout]
        rfl

/-- Nothing that follows the root changes a wrapper. -/
theorem Envelope.decode_append : Envelope.Wrapper.decode .xml (Utf8.encode (head ++ rest)) =
    Envelope.Wrapper.decode .xml (Utf8.encode head) := by
  have hfields : Envelope.fieldsOf .xml (Utf8.encode (head ++ rest)) =
      Envelope.fieldsOf .xml (Utf8.encode head) := by
    unfold Envelope.fieldsOf
    dsimp only
    rw [Utf8.decode_encode, Utf8.decode_encode]
    dsimp only
    rw [Envelope.fieldsOfMarkup_append hhead]
  unfold Envelope.Wrapper.decode
  rw [hfields]

/-- What follows the root changes a message only if it cannot be read. -/
theorem Message.decode_append : Message.decode .xml (Utf8.encode (head ++ rest)) =
    if isReadable rest then Message.decode .xml (Utf8.encode head)
      else .error (.record .xml .malformed) := by
  unfold Message.decode Message.fieldsOf
  dsimp only
  rw [Utf8.decode_encode, Utf8.decode_encode]
  dsimp only
  rw [Message.fieldsOfMarkup_append hhead]
  split <;> rfl

end Rest

/-! ## Accepted bodies -/

/-- A JSON body is a message only if all of it is one document, and a wrapper only if all of it is
one value. A markup body begins with a document; whatever follows the root of a wrapper does not
matter, and what follows the root of a message matters only if it cannot be read. -/
theorem accepted_bodies_begin_with_documents (body : Bytes) :
    (∀ message, Message.decode .json body = .ok message → IsWhole .json body) ∧
      (∀ wrapper, Envelope.Wrapper.decode .json body = .ok wrapper →
        Json.IsOneValue body ∧ (IsWhole .json body ↔ Utf8.IsText body)) ∧
      (∀ message, Message.decode .xml body = .ok message → BeginsRooted 2 body) ∧
      (∀ wrapper, Envelope.Wrapper.decode .xml body = .ok wrapper → BeginsRooted 1 body) ∧
      ∀ head rest, body = Utf8.encode (head ++ rest) → IsRooted head →
        Envelope.Wrapper.decode .xml body = Envelope.Wrapper.decode .xml (Utf8.encode head) ∧
        Message.decode .xml body =
          if isReadable rest then Message.decode .xml (Utf8.encode head)
          else .error (.record .xml .malformed) := by
  refine ⟨fun message h => ?_, fun wrapper h => ?_,
    fun _ h => Message.beginsRooted_of_decode h, fun _ h => Envelope.beginsRooted_of_decode h, ?_⟩
  · obtain ⟨fields, hfields⟩ := Message.exists_fieldsOf h
    unfold Message.fieldsOf Message.fieldsOfJson at hfields
    dsimp only at hfields
    cases hread : Json.Value.read? body with
    | none => simp [hread] at hfields
    | some value => exact Json.isDocument_of_read? hread
  · obtain ⟨fields, hfields⟩ := Envelope.exists_fieldsOf h
    unfold Envelope.fieldsOf at hfields
    dsimp only at hfields
    cases hread : Json.Tree.read? body with
    | none => simp [hread] at hfields
    | some tree =>
      have hvalue : Json.IsOneValue body := ⟨tree, Json.lexes_of_read? hread⟩
      exact ⟨hvalue, fun h => h.1, fun h => ⟨h, hvalue⟩⟩
  · rintro head rest rfl hhead
    exact ⟨Envelope.decode_append hhead rest, Message.decode_append hhead rest⟩

/-- A written element is rooted. -/
theorem Markup.isRooted_write_element {name : String} {content : List Token}
    (hname : IsPlainName name.toList) (hcontent : IsWritten content) (h : Balanced content) :
    IsRooted (write (element name content)) := by
  have hlexes := isWritten_element hname hcontent [] (by simp)
  rw [List.append_nil] at hlexes
  exact ⟨[], element name content, hlexes, by simp, .element _ h⟩

/-- A text message behind whose root other text stands is accepted, though it is no document. -/
theorem text_behind_the_root_is_accepted :
    Message.decode .xml (Utf8.encode
        "<xml><MsgType>text</MsgType><Content>hi</Content></xml>junk".toList) =
        .ok (Message.ofFields [("MsgType", .text "text"), ("Content", .text "hi")]) ∧
      ¬ IsWhole .xml (Utf8.encode
        "<xml><MsgType>text</MsgType><Content>hi</Content></xml>junk".toList) := by
  have hname : IsPlainName "xml".toList := by decide
  have hkind : Content (element "MsgType" [.text "text".toList]) _ := content_element _ (.text .nil)
  have htext : Content (element "Content" [.text "hi".toList]) _ := content_element _ (.text .nil)
  have hwritten : IsWritten (element "MsgType" [.text "text".toList] ++
      element "Content" [.text "hi".toList]) :=
    isWritten_append (isWritten_element (by decide) (isWritten_text (by decide) (by decide)))
      (isWritten_element (by decide) (isWritten_text (by decide) (by decide)))
      (startsAtBracket_element _ _)
  have hhead : IsRooted "<xml><MsgType>text</MsgType><Content>hi</Content></xml>".toList :=
    isRooted_write_element hname hwritten (.of_content (hkind.append htext))
  constructor
  · exact Message.decode_of_fieldsOf (by decide +kernel)
  · intro hwhole
    have hrest : Markup.IsDocument ("<xml><MsgType>text</MsgType><Content>hi</Content></xml>".toList
        ++ "junk".toList) ↔ IsLayout "junk".toList := isDocument_append_iff hhead
    obtain ⟨tokens, hlexes, hlayout⟩ := hrest.mp (isWhole_xml_iff.mp hwhole)
    have hscan : scan "junk".toList = ⟨[.text "junk".toList], true⟩ := by decide +kernel
    obtain rfl : tokens = [.text "junk".toList] := by
      rw [hlexes.scan_eq, Scan.mk.injEq] at hscan
      exact hscan.1
    exact absurd (hlayout _ List.mem_cons_self) (by decide)

end CallbackGateway
