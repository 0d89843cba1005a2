import CallbackGateway.Message.Decode
import CallbackGateway.Proofs.Markup.NotePlace
import CallbackGateway.Proofs.Markup.Writing
import CallbackGateway.Proofs.Message.UnknownFields
import CallbackGateway.Proofs.Record.Respaced

/-!
# Notes in messages

A body may have a comment or an instruction anywhere between its tokens and within its texts. The
message is the same with it, unless the note exposes white space at an end of a leaf: the text in
front of the note is not kept verbatim, so that this white space is trimmed or, if the note
divides it, trimmed in part. An instruction with a closing bracket in it is not read at all.
-/

namespace CallbackGateway.Message

open Markup Record Text

variable {left : List Token} {front back : List Char}

/-- A document with a note more is read as a record that differs in white space at most. -/
theorem fieldsOfMarkup_note {written : List Char} {fields : Fields}
    (hplace : IsNotePlace left front back) (hwritten : IsNoteText written)
    (h : fieldsOfMarkup (front ++ back) = .ok fields) :
    ∃ others, fieldsOfMarkup (front ++ (written ++ back)) = .ok others ∧
      Value.Respaced (.record fields) (.record others) ∧
      (exposesSpace left (scan back).tokens = false → others = fields) := by
  obtain ⟨hcomplete, hnames, hkept⟩ := hplace.exists_retold hwritten
  unfold fieldsOfMarkup at h ⊢
  dsimp only at h ⊢
  rw [hcomplete, hnames]
  split at h
  · rename_i hread
    rw [if_pos hread]
    split at h
    · rename_i kept hsome
      obtain ⟨noted, hnoted, hretold⟩ := hkept kept hsome
      rw [hnoted]
      exact ofItems_retold hretold h
    · cases h
  · cases h

/-- A message with a note more in its body is the same message, if the note exposes no white
space. -/
theorem decode_note {message : Message} {written : List Char} (hplace : IsNotePlace left front back)
    (hwritten : IsNoteText written) (hsafe : exposesSpace left (scan back).tokens = false)
    (h : decode .xml (Utf8.encode (front ++ back)) = .ok message) :
    decode .xml (Utf8.encode (front ++ (written ++ back))) = .ok message := by
  rw [decode_encode] at h
  obtain ⟨fields, hfields, rfl⟩ := exists_of_map_eq_ok h
  obtain ⟨others, hothers, -, hequal⟩ :=
    fieldsOfMarkup_note hplace hwritten (eq_ok_of_mapError hfields)
  rw [decode_encode, hothers, hequal hsafe]
  rfl

/-- Any two tokens of a body leave room for a note: wherever the tokens are divided, the body can be
divided so, and the message is the same with a note there that exposes no white space. -/
theorem exists_decode_note {message : Message} {text : List Char} {right : List Token}
    (hleft : left ≠ []) (hright : right ≠ [])
    (htokens : (scan (dropMark text)).tokens = left ++ right)
    (hsafe : exposesSpace left right = false)
    (h : decode .xml (Utf8.encode text) = .ok message) :
    ∃ front back, text = front ++ back ∧ (scan back).tokens = right ∧
      ∀ written, IsNoteText written →
        decode .xml (Utf8.encode (front ++ (written ++ back))) = .ok message := by
  obtain ⟨front, back, rfl, hback, hplace⟩ := exists_isNotePlace hleft hright htokens
  rw [← hback] at hsafe
  exact ⟨front, back, rfl, hback, fun written hwritten => decode_note hplace hwritten hsafe h⟩

/-- A message with a note more in its body is the same message, if the note exposes no white
space; else its record may differ in white space at the ends of one text. With an instruction that
has a closing bracket in it the body is refused. -/
theorem decode_insert_note {message : Message} (hplace : IsNotePlace left front back)
    (h : decode .xml (Utf8.encode (front ++ back)) = .ok message) :
    (∀ written, IsNoteText written → exposesSpace left (scan back).tokens = false →
      decode .xml (Utf8.encode (front ++ (written ++ back))) = .ok message) ∧
    (∀ written, IsNoteText written → ∃ fields others,
      fieldsOf .xml (Utf8.encode (front ++ back)) = .ok fields ∧
      fieldsOf .xml (Utf8.encode (front ++ (written ++ back))) = .ok others ∧
      Value.Respaced (.record fields) (.record others)) ∧
    ∀ body, EndsFirst "?>".toList body → '>' ∈ body →
      decode .xml (Utf8.encode (front ++ ("<?".toList ++ (body ++ "?>".toList) ++ back))) =
        .error (.record .xml .malformed) := by
  refine ⟨fun written hwritten hsafe => decode_note hplace hwritten hsafe h, ?_⟩
  rw [decode_encode] at h
  obtain ⟨fields, hfields, rfl⟩ := exists_of_map_eq_ok h
  have hread := eq_ok_of_mapError hfields
  have hencode (text : List Char) : fieldsOf .xml (Utf8.encode text) =
      (fieldsOfMarkup text).mapError (.record .xml) := by
    rw [fieldsOf, Utf8.decode_encode]
  refine ⟨fun written hwritten => ?_, fun body hbody hclose => ?_⟩
  · obtain ⟨others, hothers, hrespaced, -⟩ := fieldsOfMarkup_note hplace hwritten hread
    refine ⟨fields, others, ?_, ?_, hrespaced⟩
    · rw [hencode, hread]
      rfl
    · rw [hencode, hothers]
      rfl
  · have hcomplete := hplace.complete_of_bracket hbody hclose
    rw [decode_encode, fieldsOfMarkup, hcomplete]
    rfl

/-- A comment between two words of a content makes no difference, and an instruction with a
closing bracket is refused there. -/
theorem decode_insert_note_between_words :
    ∃ left, IsNotePlace left "<xml><MsgType>text</MsgType><Content>hello".toList
        " world</Content></xml>".toList ∧
      exposesSpace left (scan " world</Content></xml>".toList).tokens = false ∧
      decode .xml (Utf8.encode ("<xml><MsgType>text</MsgType><Content>hello".toList ++
        " world</Content></xml>".toList)) =
          .ok (ofFields [("MsgType", .text "text"), ("Content", .text "hello world")]) ∧
      decode .xml (Utf8.encode ("<xml><MsgType>text</MsgType><Content>hello".toList ++
        ("<!--".toList ++ ("note".toList ++ "-->".toList) ++ " world</Content></xml>".toList))) =
          .ok (ofFields [("MsgType", .text "text"), ("Content", .text "hello world")]) ∧
      decode .xml (Utf8.encode ("<xml><MsgType>text</MsgType><Content>hello".toList ++
        ("<?".toList ++ ("p a>b".toList ++ "?>".toList) ++ " world</Content></xml>".toList))) =
          .error (.record .xml .malformed) := by
  have hkind : IsWritten (element "MsgType" [.text "text".toList]) :=
    isWritten_element (by decide) (isWritten_text (by decide) (by decide))
  have hroot : IsPlainName "xml".toList := by decide
  have hcontent : IsPlainName "Content".toList := by decide
  have hlexes : Lexes (.openTag (fieldTag "xml") :: (element "MsgType" [.text "text".toList] ++
      [.openTag (fieldTag "Content")])) "<xml><MsgType>text</MsgType><Content>".toList [] :=
    .cons hroot.lexeme_openTag nofun
      ((hkind "<Content>".toList (by simp)).append (.single hcontent.lexeme_openTag))
  have hbefore : IsNotePlace (.openTag (fieldTag "xml") ::
      (element "MsgType" [.text "text".toList] ++ [.openTag (fieldTag "Content")]))
        "<xml><MsgType>text</MsgType><Content>".toList
        ("hello".toList ++ " world</Content></xml>".toList) :=
    ⟨hlexes, List.cons_ne_nil _ _, nofun⟩
  have hplace := hbefore.within (by decide) (by decide) (by decide) (by decide)
  have hdecode : decode .xml (Utf8.encode ("<xml><MsgType>text</MsgType><Content>hello".toList ++
      " world</Content></xml>".toList)) =
        .ok (ofFields [("MsgType", .text "text"), ("Content", .text "hello world")]) :=
    decode_of_fieldsOf (by decide +kernel)
  have hsafe : exposesSpace (.openTag (fieldTag "xml") ::
      (element "MsgType" [.text "text".toList] ++ [.openTag (fieldTag "Content")]) ++
        [.text "hello".toList]) (scan " world</Content></xml>".toList).tokens = false := by
    decide +kernel
  have hcomment : breakAt? "-->".toList "note-->".toList = some ("note".toList, []) := by decide
  have hinstruction : breakAt? "?>".toList "p a>b?>".toList = some ("p a>b".toList, []) := by decide
  obtain ⟨hsame, -, hrefused⟩ := decode_insert_note hplace hdecode
  exact ⟨_, hplace, hsafe, hdecode,
    hsame _ (.comment (endsFirst_of_breakAt? hcomment).2) hsafe,
    hrefused _ (endsFirst_of_breakAt? hinstruction).2 (by decide)⟩

/-- A comment at the end of a content loses the white space in front of it. -/
theorem comment_at_end_of_leaf_loses_space :
    IsNoteText "<!--c-->".toList ∧
      decode .xml (Utf8.encode ("<xml><MsgType>text</MsgType><Content> hi ".toList ++
        "</Content></xml>".toList)) =
          .ok (ofFields [("MsgType", .text "text"), ("Content", .text " hi ")]) ∧
      decode .xml (Utf8.encode ("<xml><MsgType>text</MsgType><Content> hi ".toList ++
        ("<!--c-->".toList ++ "</Content></xml>".toList))) =
          .ok (ofFields [("MsgType", .text "text"), ("Content", .text "hi")]) ∧
      ofFields [("MsgType", .text "text"), ("Content", .text " hi ")] ≠
        ofFields [("MsgType", .text "text"), ("Content", .text "hi")] := by
  have hcomment : breakAt? "-->".toList "c-->".toList = some ("c".toList, []) := by decide
  refine ⟨.comment (endsFirst_of_breakAt? hcomment).2, decode_of_fieldsOf (by decide +kernel),
    decode_of_fieldsOf (by decide +kernel), fun hsame => ?_⟩
  have hspaced : (ofFields [("MsgType", .text "text"), ("Content", .text " hi ")]).body =
      .text ⟨0, " hi ", none, none⟩ := rfl
  have htrimmed : (ofFields [("MsgType", .text "text"), ("Content", .text "hi")]).body =
      .text ⟨0, "hi", none, none⟩ := rfl
  rw [hsame, htrimmed] at hspaced
  exact absurd (congrArg TextBody.content (Body.text.inj hspaced)) (by decide)

end CallbackGateway.Message
