import CallbackGateway.Proofs.Record.WrittenSize
import CallbackGateway.Proofs.Reply.ReadBack

/-!
# How long a written text reply is

A text reply takes what its content takes, at most sixteen bytes for each character of the two
names in its header, and some for the rest. It takes at least as many bytes as its content has
characters, so a content of 2^32 characters makes a reply that is too long to be sealed.
-/

namespace CallbackGateway.Reply

open Record Text

variable {toUser fromUser content : String} {time : Int} {format : WireFormat} {encoded : Bytes}

/-- What a text reply takes at most, if its time is an integer of 64 bits. -/
theorem length_encode_text_le (htime : IntegerRange.signed64.Contains time)
    (h : encode format ⟨⟨toUser, fromUser, time⟩, .text content⟩ = .ok encoded) :
    encoded.length ≤ Utf8.byteCount (writtenText format content) +
      16 * (toUser.length + fromUser.length) + 1000 := by
  have hfields := noRepeats_fields ⟨⟨toUser, fromUser, time⟩, .text content⟩
  obtain rfl := Except.ok.inj h
  rw [fields_eq]
  have hdecimal : (decimal time).toList.length ≤ 21 := by
    obtain ⟨hlow, hhigh⟩ := htime
    simp only [IntegerRange.signed64] at hlow hhigh
    exact length_decimal_le (by omega)
  rw [String.length_toList] at hdecimal
  have hencoded := (length_encode_range format hfields).2
  have hto := (fieldBytes_text_range format "ToUserName" toUser).2
  have hfrom := (fieldBytes_text_range format "FromUserName" fromUser).2
  have hcreated := fieldBytes_integer_le format "CreateTime" time
  have htype := (fieldBytes_text_range format "MsgType" "text").2
  have hcontent := (fieldBytes_text_range format "Content" content).2
  have hnames : "ToUserName".length = 10 ∧ "FromUserName".length = 12 ∧
      "CreateTime".length = 10 ∧ "MsgType".length = 7 ∧ "Content".length = 7 ∧
      "text".length = 4 := by decide
  have htoText := (byteCount_writtenText_range format toUser).2
  have hfromText := (byteCount_writtenText_range format fromUser).2
  have htypeText := (byteCount_writtenText_range format "text").2
  have hsum : sizeSum (fieldBytes format)
      (markupFields ⟨⟨toUser, fromUser, time⟩, .text content⟩) =
      fieldBytes format ("ToUserName", .text toUser) +
        (fieldBytes format ("FromUserName", .text fromUser) +
          (fieldBytes format ("CreateTime", .integer time) +
            (fieldBytes format ("MsgType", .text "text") +
              (fieldBytes format ("Content", .text content) + 0)))) := rfl
  omega

/-- A text reply is at least as long as its content. -/
theorem length_le_length_encode_text
    (h : encode format ⟨⟨toUser, fromUser, time⟩, .text content⟩ = .ok encoded) :
    content.length ≤ encoded.length := by
  have hcontent : ("Content", .text content) ∈
      markupFields ⟨⟨toUser, fromUser, time⟩, .text content⟩ := by
    simp [markupFields, Body.markupFields]
  obtain rfl := Except.ok.inj h
  rw [fields_eq]
  exact length_le_length_encode format (noRepeats_fields _) hcontent

end CallbackGateway.Reply
