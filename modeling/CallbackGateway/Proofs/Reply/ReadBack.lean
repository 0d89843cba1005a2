import CallbackGateway.Proofs.Message.WrittenRecord
import CallbackGateway.Reply.Encode

/-!
# Replies are read back

A reply is written with the header and the type that callbacks have, so it can be read as a
callback: its header and its type are what the reply says, and the content of a text is kept
verbatim. The nested records of other replies are no fields of callbacks, and they are skipped.
-/

namespace CallbackGateway

namespace Reply

open Record Text

/-! ## The two tables -/

/-- A body has the members that it has as elements. -/
theorem Body.jsonFields_eq (body : Body) : body.jsonFields = body.markupFields := by
  cases body <;> rfl

/-- Both tables name the same fields of a reply. -/
theorem fields_eq (format : WireFormat) (reply : Reply) :
    reply.fields format = reply.markupFields := by
  cases format with
  | xml => rfl
  | json => rw [fields, jsonFields, Body.jsonFields_eq, markupFields]

/-! ## Fields of callbacks -/

/-- The fields that every reply has. -/
def headFields (reply : Reply) : Fields :=
  [("ToUserName", .text reply.header.toUser), ("FromUserName", .text reply.header.fromUser),
    ("CreateTime", .integer reply.header.createTime), ("MsgType", .text reply.body.type)]

/-- The fields of a body that callbacks have too. -/
def Body.sharedFields : Body → Fields
  | .text content => [("Content", .text content)]
  | _ => []

/-- Of a reply, callbacks declare the head and the content of a text. -/
theorem declaredBy_fields (reply : Reply) : reply.markupFields.declaredBy Message.schema =
    reply.headFields ++ reply.body.sharedFields := by
  obtain ⟨header, body⟩ := reply
  cases body <;> rfl

/-- No encoded reply repeats a name. -/
theorem noRepeats_fields (reply : Reply) : NoRepeats reply.markupFields := by
  obtain ⟨header, body⟩ := reply
  cases body <;> simp [NoRepeats, markupFields, Body.markupFields]

/-- The names of a reply are plain. -/
theorem arePlainFields_fields (reply : Reply) : arePlainFields reply.markupFields = true := by
  obtain ⟨header, body⟩ := reply
  cases body with
  | text | image | voice | video | music => rfl
  | news articles =>
    have hitems : arePlainItems (articles.map Article.markupFields) = true := by
      rw [arePlainItems_iff]
      intro item hitem
      obtain ⟨article, -, rfl⟩ := List.mem_map.mp hitem
      rfl
    have hrecord :
        arePlainFields [("item", .records (articles.map Article.markupFields))] = true := by
      have hname : decide (Markup.IsPlainName "item".toList) = true := by decide
      rw [arePlainFields, isPlainField, Value.isPlain, hname, hitems]
      rfl
    rw [arePlainFields_iff]
    intro name value hmem
    rcases List.mem_append.mp hmem with hhead | hbody
    · exact arePlainFields_iff.mp (show arePlainFields (headFields ⟨header, .news articles⟩) = true
        from rfl) name value hhead
    · simp only [Body.markupFields, List.mem_cons, Prod.mk.injEq, List.not_mem_nil,
        or_false] at hbody
      rcases hbody with ⟨rfl, rfl⟩ | ⟨rfl, rfl⟩
      · exact ⟨by decide, rfl⟩
      · exact ⟨by decide, hrecord⟩

/-- A record of texts fits at every depth. -/
theorem fitsJson_texts {depth : Nat} {fields : Fields}
    (h : ∀ field ∈ fields, ∃ content, field.2 = .text content) :
    FitsJson (depth + 1) (.record fields) := by
  refine .record fun name value hmem => ?_
  obtain ⟨content, rfl⟩ := h (name, value) hmem
  exact .text content

/-- A signed 64-bit integer is written as a JSON integer. -/
theorem fitsInteger_of_signed64 {n : Int} (h : IntegerRange.signed64.Contains n) :
    Json.FitsInteger n :=
  ⟨h.1, Int.le_trans h.2 (by decide)⟩

/-- What a body that can be written adds to a reply fits in JSON. -/
theorem fitsJson_body {body : Body} (h : body.defect? = none) {name : String} {value : Value}
    (hmem : (name, value) ∈ body.markupFields) : FitsJson 126 value := by
  cases body with
  | text content =>
    obtain ⟨rfl, rfl⟩ := by simpa [Body.markupFields] using hmem
    exact .text content
  | image mediaId =>
    obtain ⟨rfl, rfl⟩ := by simpa [Body.markupFields] using hmem
    exact fitsJson_texts (by simp)
  | voice mediaId =>
    obtain ⟨rfl, rfl⟩ := by simpa [Body.markupFields] using hmem
    exact fitsJson_texts (by simp)
  | video mediaId title description =>
    obtain ⟨rfl, rfl⟩ := by simpa [Body.markupFields] using hmem
    exact fitsJson_texts (by simp)
  | music piece =>
    obtain ⟨rfl, rfl⟩ := by simpa [Body.markupFields] using hmem
    exact fitsJson_texts (by simp [Music.markupFields])
  | news articles =>
    have hcount : articles.length ≤ 8 := by
      rw [Body.defect?, ite_eq_right_iff] at h
      by_contra hmany
      exact absurd (h (.inr (Nat.lt_of_not_le hmany))) (by simp)
    rcases (by simpa [Body.markupFields] using hmem) with ⟨rfl, rfl⟩ | ⟨rfl, rfl⟩
    · have hlow : IntegerRange.signed64.lowest = -9223372036854775808 := rfl
      have hhigh : IntegerRange.unsigned64.highest = 18446744073709551615 := rfl
      exact .integer ⟨by omega, by omega⟩
    · refine .record fun name value hmem => ?_
      obtain ⟨rfl, rfl⟩ := by simpa using hmem
      refine .records fun item hitem name value hmem => ?_
      obtain ⟨article, -, rfl⟩ := List.mem_map.mp hitem
      rcases (by simpa [Article.markupFields] using hmem) with
        ⟨rfl, rfl⟩ | ⟨rfl, rfl⟩ | ⟨rfl, rfl⟩ | ⟨rfl, rfl⟩ <;> exact .text _

/-- Of what a body adds to a reply, callbacks only know the content of a text. -/
theorem belongs_body {body : Body} {name : String} {value : Value}
    (hmem : (name, value) ∈ body.markupFields) : Belongs Message.schema name value := by
  cases body with
  | text content =>
    obtain ⟨rfl, rfl⟩ := by simpa [Body.markupFields] using hmem
    exact .text content rfl
  | image | voice | video | music =>
    obtain ⟨rfl, rfl⟩ := by simpa [Body.markupFields] using hmem
    exact .unknown rfl
  | news articles =>
    rcases (by simpa [Body.markupFields] using hmem) with ⟨rfl, rfl⟩ | ⟨rfl, rfl⟩ <;>
      exact .unknown rfl

/-- The fields of a reply that can be written are read back. -/
theorem isReadBack_fields {reply : Reply} (hdefect : reply.body.defect? = none)
    (htime : IntegerRange.signed64.Contains reply.header.createTime) :
    IsReadBack Message.schema reply.markupFields where
  noRepeats := noRepeats_fields reply
  isPlain := arePlainFields_fields reply
  fitsJson := by
    refine .record fun name value hmem => ?_
    rcases List.mem_append.mp hmem with hhead | hbody
    · rcases (by simpa using hhead) with ⟨rfl, rfl⟩ | ⟨rfl, rfl⟩ | ⟨rfl, rfl⟩ | ⟨rfl, rfl⟩
      · exact .text _
      · exact .text _
      · exact .integer (fitsInteger_of_signed64 htime)
      · exact .text _
    · exact fitsJson_body hdefect hbody
  belongs := by
    intro name value hmem
    rcases List.mem_append.mp hmem with hhead | hbody
    · rcases (by simpa using hhead) with ⟨rfl, rfl⟩ | ⟨rfl, rfl⟩ | ⟨rfl, rfl⟩ | ⟨rfl, rfl⟩
      · exact .text _ rfl
      · exact .text _ rfl
      · exact .integer rfl htime
      · exact .text _ rfl
    · exact belongs_body hbody

/-- A reply that can be written is read as the message of its head and its content. -/
theorem decode_encode {format : WireFormat} {reply : Reply} {body : Bytes}
    (h : reply.encode format = .ok body)
    (htime : IntegerRange.signed64.Contains reply.header.createTime) :
    Message.decode format body =
      .ok (Message.ofFields (reply.headFields ++ reply.body.sharedFields)) := by
  rw [encode] at h
  cases hdefect : reply.body.defect? with
  | some defect => simp [hdefect] at h
  | none =>
    rw [hdefect] at h
    rw [← Except.ok.inj h, fields_eq,
      Message.decode_of_isReadBack format (isReadBack_fields hdefect htime), declaredBy_fields]

/-- The header of a message that a reply is read as. -/
def Header.toMessage (header : Header) : Message.Header :=
  ⟨header.toUser, header.fromUser, header.createTime⟩

/-- A text reply is read as a text with its content and nothing else. -/
theorem ofFields_text (header : Header) (content : String) :
    Message.ofFields (headFields ⟨header, .text content⟩ ++ Body.sharedFields (.text content)) =
      ⟨header.toMessage, .text ⟨0, content, none, none⟩⟩ := rfl

/-- Every reply that can be written is read back in either format, whatever its texts are: with its
receiver, its sender, its time and its type, and a text with exactly its content. -/
theorem written_replies_are_read_back (format : WireFormat) (reply : Reply) (body : Bytes)
    (h : reply.encode format = .ok body)
    (htime : IntegerRange.signed64.Contains reply.header.createTime) :
    ∃ message, Message.decode format body = .ok message ∧
      message.header =
        ⟨reply.header.toUser, reply.header.fromUser, reply.header.createTime⟩ ∧
      message.type = reply.body.type ∧
      ∀ content, reply.body = .text content →
        message.body = .text ⟨0, content, none, none⟩ := by
  refine ⟨_, decode_encode h htime, rfl, Message.Body.type_ofFields _, ?_⟩
  obtain ⟨header, body⟩ := reply
  rintro content rfl
  exact congrArg Message.body (ofFields_text header content)

/-- The end of a section and the white space around it come back. -/
theorem written_replies_are_read_back_section : ∃ body message,
    encode .xml ⟨⟨"a", "b", -1⟩, .text " ]]>\r\n"⟩ = .ok body ∧
    Message.decode .xml body = .ok message ∧
    message.body = .text ⟨0, " ]]>\r\n", none, none⟩ := by
  obtain ⟨message, hmessage, -, -, htext⟩ := written_replies_are_read_back .xml
    ⟨⟨"a", "b", -1⟩, .text " ]]>\r\n"⟩ _ rfl (by decide)
  exact ⟨_, message, rfl, hmessage, htext _ rfl⟩

end Reply

end CallbackGateway
