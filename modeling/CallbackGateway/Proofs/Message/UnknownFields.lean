import CallbackGateway.Message.Decode
import CallbackGateway.Proofs.Json.StringText
import CallbackGateway.Proofs.Json.Written
import CallbackGateway.Proofs.Markup.Place
import CallbackGateway.Proofs.Record.Agreement
import CallbackGateway.Proofs.Record.Comparison
import CallbackGateway.Proofs.Record.UnknownElement
import CallbackGateway.Proofs.Record.UnknownMember
import CallbackGateway.Proofs.Text.Utf8

/-!
# Fields that callbacks do not have

A body may hold more than the fields of a callback. In markup an element that no record knows may
stand anywhere between the elements of a record, but not between two elements of one repeated
field: there the body is refused. In JSON a member that no record knows may stand anywhere, if
the body is a value with it at all.
-/

namespace CallbackGateway.Message

open Markup Record Text

/-! ## Elements -/

/-- A record whose root has wider content is read as the record is. -/
theorem ofItems_widened_root {schema inner : Schema} {path : List (List Char)}
    {last next : Option (List Char)} {name : List Char} {layout content wider tail : List Token}
    {root : Tag} {parts others : List Part} {fields : Fields}
    (hlayout : ∀ token ∈ layout, token.isTag = false) (hparts : Content content parts)
    (hothers : Content wider others)
    (hwidened : Widened name path last next (joinRuns [] parts) (joinRuns [] others))
    (hpath : schemaAt? schema path = some inner) (hname : kindOf inner name = none)
    (h : ofItems schema (assemble (dropLeadingMark
      (layout ++ .openTag root :: (content ++ .closeTag root.name :: tail)))) = .ok fields) :
    ofItems schema (assemble (dropLeadingMark
        (layout ++ .openTag root :: (wider ++ .closeTag root.name :: tail)))) =
      if formRun inner last next then .error .malformed else .ok fields := by
  have htag : (Token.openTag root).isTag = true := rfl
  rw [dropLeadingMark_append_tag htag] at h ⊢
  have hroot (content : List Token) :
      Token.openTag root :: (content ++ .closeTag root.name :: tail) =
        .openTag root :: (content ++ [.closeTag root.name]) ++ tail := by simp
  rw [hroot] at h ⊢
  -- The element is the first item, so that only layout stands before it.
  have hmisc : ∀ token ∈ dropLeadingMark layout, token.isMisc = true := by
    obtain ⟨tag, items, hhead⟩ := head?_of_ofItems h
    obtain ⟨before, first, after, hsplit, hbefore, hfirst⟩ := root_of_head?_assemble hhead
    obtain ⟨token, rest, rfl, htoken⟩ := hfirst.exists_first
    have hnoTags : ∀ token ∈ dropLeadingMark layout, token.isTag = false := by
      rw [noTags_iff, filter_dropLeadingMark, ← noTags_iff]
      exact hlayout
    obtain ⟨hsame, -⟩ := eq_of_append_tag hnoTags
      (fun token ht => Token.isTag_of_isMisc (hbefore token ht)) htag htoken hsplit
    rw [hsame]
    exact hbefore
  have hread {content : List Token} {parts : List Part} (hparts : Content content parts) :
      ofItems schema (assemble (dropLeadingMark layout ++
        (.openTag root :: (content ++ [.closeTag root.name]) ++ tail))) =
        readRecord schema (.element root (joinRuns [] parts) true) := by
    have hfirst : Content (.openTag root :: (content ++ [.closeTag root.name]))
        [.whole (.element root (joinRuns [] parts) true)] := .element hparts .nil
    have hhead : (assemble (dropLeadingMark layout ++
        (.openTag root :: (content ++ [.closeTag root.name]) ++ tail))).head? =
          [Item.element root (joinRuns [] parts) true].head? :=
      head?_assemble_of_content hmisc hfirst tail
    exact ofItems_congr hhead
  rw [hread hparts] at h
  rw [hread hothers]
  exact readRecord_widened (fun fields => readItems_widened hwidened hpath hname) h

/-- A document with an unknown element more is read as before, if the element does not divide a
repeated field. -/
theorem fieldsOfMarkup_insert {path : List (List Char)} {last next : Option (List Char)}
    {front back name written : List Char} {inner : Schema} {fields : Fields}
    (hplace : IsPlace path last next (dropMark front) back) (hwritten : IsElementText name written)
    (hpath : schemaAt? schema path = some inner) (hname : kindOf inner name = none)
    (h : fieldsOfMarkup (front ++ back) = .ok fields) :
    fieldsOfMarkup (front ++ (written ++ back)) =
      if formRun inner last next then .error .malformed else .ok fields := by
  have hfront : front ≠ [] := by
    rintro rfl
    exact hplace.front_ne_nil rfl
  obtain ⟨hcomplete, hnames, hkept⟩ := hplace.exists_widened hwritten
  unfold fieldsOfMarkup at h ⊢
  rw [dropMark_append hfront] at h ⊢
  dsimp only at h ⊢
  rw [hcomplete, hnames]
  split at h
  · rename_i hread
    rw [if_pos hread]
    split at h
    · rename_i kept hsome
      obtain ⟨layout, root, content, wider, tail, parts, others, hlayout, rfl, hinserted, hparts,
        hothers, hwidened⟩ := hkept kept hsome
      rw [hinserted]
      exact ofItems_widened_root hlayout hparts hothers hwidened hpath hname h
    · cases h
  · cases h

/-! ## Members -/

/-- What is changed in one member is changed before or after pruning. -/
theorem prune_updateMember {schema : Schema} {key : String} {kind : Kind}
    {update : Json.Value → Json.Value} (hkind : List.lookup key schema = some kind)
    (hupdate : ∀ value, prune kind (update value) = update (prune kind value))
    (value : Json.Value) : prune (.record schema) (updateMember key update value) =
      updateMember key update (prune (.record schema) value) := by
  cases value with
  | null | boolean | number | string | array => rfl
  | object members =>
    rw [updateMember, prune, prune, updateMember]
    congr 1
    induction members with
    | nil => rfl
    | cons member rest ih =>
      obtain ⟨name, value⟩ := member
      rw [List.map_cons]
      cases hname : List.lookup name schema with
      | none => rw [pruneMembers_cons_unknown hname, pruneMembers_cons_unknown hname, ih]
      | some declared =>
        rw [pruneMembers_cons_known hname, pruneMembers_cons_known hname, ih, List.map_cons]
        dsimp only
        split
        · rename_i hsame
          subst hsame
          obtain rfl := Option.some.inj (hkind.symm.trans hname)
          rw [hupdate]
        · rfl

/-- A value is put into a list before or after pruning. -/
theorem prune_enlist (schema : Schema) (value : Json.Value) :
    prune (.records schema) (enlist value) = enlist (prune (.records schema) value) := by
  cases value with
  | null | boolean | number | string | array => rfl
  | object members => rfl

/-- Popups are given their arrays before or after pruning. -/
theorem prune_enlistPopups (value : Json.Value) :
    prune (.record schema) (enlistPopups value) = enlistPopups (prune (.record schema) value) := by
  have hpopup : List.lookup "SubscribeMsgPopupEvent" schema = some (.records popupSchema) := rfl
  refine prune_updateMember hpopup (fun popup => ?_) value
  have hgroup (value : Json.Value) :
      prune (.record popupSchema) (updateMember "List" enlist value) =
        updateMember "List" enlist (prune (.record popupSchema) value) :=
    prune_updateMember rfl (prune_enlist _) value
  rw [← prune_enlist]
  cases enlist popup with
  | null | boolean | number | string | object => rfl
  | array groups =>
    dsimp only [prune]
    rw [pruneEach_eq_map, pruneEach_eq_map, List.map_map, List.map_map]
    congr 2
    funext value
    exact hgroup value

/-- A document with an unknown member more is read as before, if it is a value. -/
theorem fieldsOfJson_addsMember {body longer : Bytes} {tree wider : Json.Tree} {fields : Fields}
    (htree : Json.Tree.read? body = some tree) (hwider : Json.Tree.read? longer = some wider)
    (hadds : AddsMember (.record schema) tree wider) (h : fieldsOfJson body = .ok fields) :
    fieldsOfJson longer =
      if (Json.Value.read? longer).isSome then .ok fields
      else .error (.record .json .malformed) := by
  have hbody : Json.Value.read? body = tree.value? Json.deepest := by
    rw [Json.Value.read?, htree, Option.bind_some]
  have hlonger : Json.Value.read? longer = wider.value? Json.deepest := by
    rw [Json.Value.read?, hwider, Option.bind_some]
  unfold fieldsOfJson at h ⊢
  rw [hbody] at h
  rw [hlonger]
  cases hother : wider.value? Json.deepest with
  | none => rfl
  | some other =>
    split at h
    · cases h
    · rename_i members hvalue
      have hprune := hadds.prune_eq hvalue hother
      obtain ⟨others, rfl⟩ : ∃ others, other = .object others := by
        rw [prune] at hprune
        exact exists_object_of_prune hprune.symm
      have hsame : ofJson schema (enlistPopups (.object others)) =
          ofJson schema (enlistPopups (.object members)) := by
        rw [ofJson, ofJson, ← readValue_prune, prune_enlistPopups, ← hprune, ← prune_enlistPopups,
          readValue_prune]
      dsimp only
      rw [hsame]
      exact h
    · cases h

/-! ## Messages -/

/-- A document is decoded through its characters. -/
theorem decode_encode (text : List Char) : decode .xml (Utf8.encode text) =
    ((fieldsOfMarkup text).mapError (.record .xml)).map ofFields := by
  rw [decode, fieldsOf, Utf8.decode_encode]

/-- A message is read as before if its body has an unknown element more, if the element does not
divide a repeated field. -/
theorem decode_insert_element {message : Message} {path : List (List Char)}
    {last next : Option (List Char)} {front back name written : List Char} {inner : Schema}
    (hplace : IsPlace path last next (dropMark front) back)
    (hpath : schemaAt? schema path = some inner)
    (hwritten : IsElementText name written) (hname : kindOf inner name = none)
    (h : decode .xml (Utf8.encode (front ++ back)) = .ok message) :
    decode .xml (Utf8.encode (front ++ (written ++ back))) =
      if formRun inner last next then .error (.record .xml .malformed) else .ok message := by
  rw [decode_encode] at h ⊢
  obtain ⟨fields, hfields, rfl⟩ := exists_of_map_eq_ok h
  rw [fieldsOfMarkup_insert hplace hwritten hpath hname (eq_ok_of_mapError hfields)]
  split <;> rfl

/-- Any two tokens of a body, within its root, leave room for an unknown element: wherever the
tokens are divided outside of a text, the body can be divided so, and an element that no record
there knows makes no difference unless it divides a repeated field. -/
theorem exists_decode_insert_element {message : Message} {path : List (List Char)}
    {before left right after : List Token} {root : Tag} {text : List Char} {inner : Schema}
    (hbefore : ∀ token ∈ before, token.isTag = false)
    (htokens : (scan (dropMark text)).tokens =
      before ++ .openTag root :: left ++ (right ++ .closeTag root.name :: after))
    (hhole : Hole path left right) (hlast : ∀ token ∈ left.getLast?, token.isText = false)
    (hpath : schemaAt? schema path = some inner)
    (h : decode .xml (Utf8.encode text) = .ok message) :
    ∃ front back, text = front ++ back ∧ ∀ name written, IsElementText name written →
      kindOf inner name = none →
      decode .xml (Utf8.encode (front ++ (written ++ back))) =
        if formRun inner (endName left) (startName right) then .error (.record .xml .malformed)
        else .ok message := by
  obtain ⟨front, back, hsplit, hplace⟩ := exists_isPlace hbefore htokens hhole hlast
  obtain ⟨marked, rfl, rfl⟩ := exists_of_dropMark_eq_append hplace.front_ne_nil hsplit
  exact ⟨marked, back, rfl, fun name written hwritten hname =>
    decode_insert_element hplace hpath hwritten hname h⟩

/-- A message is read as before if its body has an unknown element or an unknown member more, at
any place in any of its records. The body is refused if the element divides a repeated field, and
if the document is no value with the member. -/
theorem decode_ignores_unknown_fields (message : Message) :
    (∀ path last next front back name written inner,
      IsPlace path last next (dropMark front) back → schemaAt? schema path = some inner →
      IsElementText name written → kindOf inner name = none →
      decode .xml (Utf8.encode (front ++ back)) = .ok message →
      decode .xml (Utf8.encode (front ++ (written ++ back))) =
        if formRun inner last next then .error (.record .xml .malformed) else .ok message) ∧
    ∀ body longer tree wider, Json.Tree.read? body = some tree →
      Json.Tree.read? longer = some wider → AddsMember (.record schema) tree wider →
      decode .json body = .ok message →
      decode .json longer =
        if (Json.Value.read? longer).isSome then .ok message
        else .error (.record .json .malformed) := by
  constructor
  · intro path last next front back name written inner hplace hpath hwritten hname h
    exact decode_insert_element hplace hpath hwritten hname h
  · intro body longer tree wider htree hwider hadds h
    unfold decode fieldsOf at h ⊢
    obtain ⟨fields, hfields, rfl⟩ := exists_of_map_eq_ok h
    dsimp only
    rw [fieldsOfJson_addsMember htree hwider hadds hfields]
    split <;> rfl

/-- A note in front of the content of a message makes no difference, in either format. -/
theorem decode_ignores_unknown_fields_note :
    IsPlace [] (some "MsgType".toList) (some "Content".toList)
        (dropMark "<xml><MsgType>text</MsgType>".toList) "<Content>hi</Content></xml>".toList ∧
      schemaAt? schema [] = some schema ∧
      IsElementText "note".toList "<note>n</note>".toList ∧ kindOf schema "note".toList = none ∧
      decode .xml (Utf8.encode ("<xml><MsgType>text</MsgType>".toList ++
        ("<note>n</note>".toList ++ "<Content>hi</Content></xml>".toList))) =
          .ok (ofFields [("MsgType", .text "text"), ("Content", .text "hi")]) ∧
      decode .json (Utf8.encode "\x7b\"note\":[],\"Content\":\"hi\"\x7d".toList) =
        .ok (ofFields [("Content", .text "hi")]) := by
  have hkind : IsWritten (element "MsgType" [.text "text".toList]) :=
    isWritten_element (by decide) (isWritten_text (by decide) (by decide))
  have htext : IsWritten (element "Content" [.text "hi".toList]) :=
    isWritten_element (by decide) (isWritten_text (by decide) (by decide))
  have hname : IsPlainName "xml".toList := by decide
  have hplace : IsPlace [] (some "MsgType".toList) (some "Content".toList)
      (dropMark "<xml><MsgType>text</MsgType>".toList) "<Content>hi</Content></xml>".toList := by
    refine isPlace_write hname hkind htext (.here ?_ ?_) (by decide)
    · exact .element (.of_noTags (by decide)) .nil
    · exact .element (.of_noTags (by decide)) .nil
  have hnoteName : IsPlainName "note".toList := by decide
  have hcontent : IsWritten [.text "n".toList] := isWritten_text (by decide) (by decide)
  have hnote : IsElementText "note".toList "<note>n</note>".toList :=
    isElementText_write hnoteName hcontent (.of_noTags (by decide)) (by decide)
  have hmarkup : decode .xml (Utf8.encode ("<xml><MsgType>text</MsgType>".toList ++
      "<Content>hi</Content></xml>".toList)) =
        .ok (ofFields [("MsgType", .text "text"), ("Content", .text "hi")]) :=
    decode_of_fieldsOf (by decide +kernel)
  refine ⟨hplace, rfl, hnote, by decide,
    (decode_ignores_unknown_fields _).1 _ _ _ _ _ _ _ _ hplace rfl hnote (by decide) hmarkup, ?_⟩
  have htree : Json.Tree.read? (Utf8.encode "\x7b\"Content\":\"hi\"\x7d".toList) =
      some (.object ([] ++
        [(Json.textParts "Content".toList, .string (Json.textParts "hi".toList))])) := by
    have hbytes : Utf8.encode "\x7b\"Content\":\"hi\"\x7d".toList =
        (Json.Value.object [("Content", .string "hi")]).toBytes := by decide +kernel
    rw [hbytes]
    exact Json.read?_toBytes (.object (.cons (.string "hi") .nil))
  have hwider : Json.Tree.read? (Utf8.encode "\x7b\"note\":[],\"Content\":\"hi\"\x7d".toList) =
      some (.object ([] ++ (Json.textParts "note".toList, .array []) ::
        [(Json.textParts "Content".toList, .string (Json.textParts "hi".toList))])) := by
    have hbytes : Utf8.encode "\x7b\"note\":[],\"Content\":\"hi\"\x7d".toList =
        (Json.Value.object [("note", .array []), ("Content", .string "hi")]).toBytes := by
      decide +kernel
    rw [hbytes]
    exact Json.read?_toBytes (.object (.cons (.array .nil) (.cons (.string "hi") .nil)))
  have hvalue : (Json.Value.read?
      (Utf8.encode "\x7b\"note\":[],\"Content\":\"hi\"\x7d".toList)).isSome = true := by
    decide +kernel
  have hjson : decode .json (Utf8.encode "\x7b\"Content\":\"hi\"\x7d".toList) =
      .ok (ofFields [("Content", .text "hi")]) := decode_of_fieldsOf (by decide +kernel)
  have hkey : memberKind? schema (Json.textParts "note".toList) = none := by
    rw [memberKind?, Json.quotedText?_textParts, Option.bind_some]
    decide
  have hsame := (decode_ignores_unknown_fields _).2 _ _ _ _ htree hwider (.here hkey _ _ _) hjson
  exact hsame.trans (if_pos hvalue)

/-- A note between two pictures is refused, though no schema knows it: it divides their run. -/
theorem note_between_pictures_is_refused :
    IsElementText "note".toList "<note>n</note>".toList ∧
      schemaAt? schema ["SendPicsInfo".toList, "PicList".toList] =
        some [("item", .records [("PicMd5Sum", .text)])] ∧
      kindOf [("item", .records [("PicMd5Sum", .text)])] "note".toList = none ∧
      decode .xml (Utf8.encode (("<xml><MsgType>event</MsgType><Event>pic_weixin</Event>" ++
          "<SendPicsInfo><PicList><item></item>").toList ++
        "<item></item></PicList></SendPicsInfo></xml>".toList)) =
          .ok (ofFields [("MsgType", .text "event"), ("Event", .text "pic_weixin"),
            ("SendPicsInfo", .record [("PicList", .record [("item", .records [[], []])])])]) ∧
      decode .xml (Utf8.encode (("<xml><MsgType>event</MsgType><Event>pic_weixin</Event>" ++
          "<SendPicsInfo><PicList><item></item>").toList ++
        ("<note>n</note>".toList ++ "<item></item></PicList></SendPicsInfo></xml>".toList))) =
          .error (.record .xml .malformed) := by
  have hname : IsPlainName "note".toList := by decide
  have hcontent : IsWritten [.text "n".toList] := isWritten_text (by decide) (by decide)
  have hnote : IsElementText "note".toList "<note>n</note>".toList :=
    isElementText_write hname hcontent (.of_noTags (by decide)) (by decide)
  exact ⟨hnote, rfl, by decide, decode_of_fieldsOf (by decide +kernel),
    decode_error_of_fieldsOf (by decide +kernel)⟩

end CallbackGateway.Message
