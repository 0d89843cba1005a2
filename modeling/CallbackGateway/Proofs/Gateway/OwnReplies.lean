import CallbackGateway.Proofs.Gateway.Accounting
import CallbackGateway.Proofs.Gateway.OpenedPush

/-!
# The gateway answers with its own replies

With canned answers, a gateway whose configuration is valid never needs its fallback and is never
late. An opened push of a silent event is acknowledged, and every other one is answered with a text
to its sender: the answer of the message, in which the quoted part stands verbatim.

An answer of 2^32 bytes or more cannot be sealed, and a sealed push that has such an answer is
refused. The texts of an opened push are bounded by the limit on bodies, so no answer comes near
this size unless the configured texts do.
-/

namespace CallbackGateway

/-- The limits of a valid configuration. -/
theorem Config.limits_of_validate {config : Config} (h : config.validate = .ok ()) :
    100 ≤ config.limits.deadline ∧ config.limits.bodyLimit ≤ 1048576 := by
  obtain ⟨_, -, h⟩ := exists_of_bind_eq_ok h
  obtain ⟨_, -, h⟩ := exists_of_bind_eq_ok h
  obtain ⟨_, hlimits, -⟩ := exists_of_bind_eq_ok h
  obtain ⟨_, hdeadline, hlimits⟩ := exists_of_bind_eq_ok hlimits
  obtain ⟨_, -, hbody⟩ := exists_of_bind_eq_ok hlimits
  unfold Config.require at hdeadline hbody
  simp only [ite_eq_left_iff, Bool.and_eq_true, decide_eq_true_eq, reduceCtorEq, imp_false,
    not_not] at hdeadline hbody
  exact ⟨hdeadline.1, hbody.2⟩

/-- The texts of the replies are not checked. -/
theorem Config.validate_replies (config : Config) (replies : ReplyTexts) :
    { config with replies }.validate = config.validate := rfl

namespace ReplyTexts

variable {texts : ReplyTexts} {message : Message} (time : Int)

/-- The reply that an answer makes. -/
def replyTo (message : Message) (time : Int) (content : String) : Reply :=
  .answering message.header time (.text content)

/-- A message with an answer is replied to. -/
theorem ending_of_answer {content : String} (h : texts.answer? message.body = some content) :
    (texts.handler time message).ending = .decided (.reply (replyTo message time content)) := by
  rw [handler, dispatch, h]
  rfl

/-- A message without an answer is acknowledged. -/
theorem ending_of_no_answer (h : texts.answer? message.body = none) :
    (texts.handler time message).ending = .decided .acknowledge := by
  rw [handler, dispatch, h]

end ReplyTexts

namespace Gateway

variable {gateway : Gateway} {moment : Moment} {appId : String} {query : PushQuery}
  {format : WireFormat} {body : Bytes} {credentials : Credentials} {opened : OpenedPush}

/-- A silent event is acknowledged. -/
theorem push_of_silent (hvalid : gateway.config.validate = .ok ())
    (hopen : gateway.openPush appId query format body = .ok (credentials, opened))
    (hsilent : gateway.config.replies.answer? opened.message.body = none) :
    gateway.push moment gateway.config.replies.handler appId query format body =
      (gateway.acknowledgement, gateway.measured opened
        (gateway.config.replies.handler moment.time opened.message) "ack") := by
  have hdeadline := (Config.limits_of_validate hvalid).1
  exact push_of_acknowledge hopen (Nat.lt_of_lt_of_le (by decide : 0 < 100) hdeadline)
    (ReplyTexts.ending_of_no_answer moment.time hsilent)

/-- The answer to a push within the limit on bodies can be sealed if no configured text has 2^27
characters. -/
theorem length_answer_lt (hvalid : gateway.config.validate = .ok ())
    (htime : Text.IntegerRange.signed64.Contains moment.time)
    (hopen : gateway.openPush appId query format body = .ok (credentials, opened))
    (hbody : body.length ≤ gateway.config.limits.bodyLimit)
    (htexts : ∀ text ∈ gateway.config.replies.answers, text.length < 2 ^ 27) {content : String}
    (hanswer : gateway.config.replies.answer? opened.message.body = some content) {encoded : Bytes}
    (hencoded : (ReplyTexts.replyTo opened.message moment.time content).encode format =
      .ok encoded) : encoded.length < 2 ^ 32 := by
  obtain ⟨-, hopened⟩ := openPush_eq_ok hopen
  have hlimit := (Config.limits_of_validate hvalid).2
  have hwithin := (PushQuery.textsWithin_of_openPush hopened).mono
    (show 6 * body.length + 29 ≤ 6291485 by omega)
  have hcontent := ReplyTexts.length_answer_le
    (fun text htext => Nat.le_of_lt_succ (htexts text htext)) hwithin.quoted hanswer
  have hwritten := (Record.byteCount_writtenText_range format content).2
  have hlength := Reply.length_encode_text_le htime hencoded
  have hto := hwithin.toUser
  have hfrom := hwithin.fromUser
  omega

section Answered

variable (hvalid : gateway.config.validate = .ok ())
  (hopen : gateway.openPush appId query format body = .ok (credentials, opened))

include hvalid hopen

/-- Every other message is answered with its answer. -/
theorem push_of_answer {content : String}
    (hanswer : gateway.config.replies.answer? opened.message.body = some content)
    (hfits : opened.encoding = .sealed → ∀ encoded,
      (ReplyTexts.replyTo opened.message moment.time content).encode format = .ok encoded →
      encoded.length < 2 ^ 32) :
    ∃ encoded sent,
      (ReplyTexts.replyTo opened.message moment.time content).encode format = .ok encoded ∧
      Conveys credentials format opened.encoding sent encoded ∧
      gateway.push moment gateway.config.replies.handler appId query format body =
        (⟨200, some format.contentType, sent⟩, gateway.measured opened
          (gateway.config.replies.handler moment.time opened.message) "reply") := by
  have hdeadline := (Config.limits_of_validate hvalid).1
  have hending := ReplyTexts.ending_of_answer moment.time hanswer
  obtain ⟨-, hopened⟩ := openPush_eq_ok hopen
  have hformat := PushQuery.format_of_openPush hopened
  have hseal : gateway.CanSeal moment gateway.config.replies.handler opened := by
    refine ⟨fun hsealed reply encoded hreply hencoded => ?_, fun _ hfailure => ?_⟩
    · rw [hending] at hreply
      obtain rfl := Outcome.reply.inj (HandlerEnding.decided.inj hreply)
      exact hfits hsealed encoded (hformat ▸ hencoded)
    · rw [hending] at hfailure
      cases hfailure
  obtain ⟨sent, hsent, hpush⟩ := push_of_reply hopen hseal
    (Nat.lt_of_lt_of_le (by decide : 0 < 100) hdeadline) hending rfl
  exact ⟨_, sent, rfl, PushQuery.conveys_of_sealReply hsent, hpush⟩

end Answered

/-- Measuring a push counts its outcome and no other one. -/
theorem requestCount_measured (opened : OpenedPush) (handling : Handling) {outcome other : String}
    (h : other ≠ outcome) :
    (gateway.measured opened handling outcome).metrics.requestCount "push" other =
      gateway.metrics.requestCount "push" other := by
  rw [measured, measure, Metrics.requestCount_countRequest, if_neg fun hsame => h hsame.2,
    UInt64.add_zero, measure, Metrics.requestCount, Metrics.get_observe, Metrics.requestCount]

/-- A silent message is one without an answer. -/
theorem isSilent_iff (texts : ReplyTexts)
    (hopen : gateway.openPush appId query format body = .ok (credentials, opened)) :
    opened.message.body.IsSilent ↔ texts.answer? opened.message.body = none := by
  obtain ⟨-, hopened⟩ := openPush_eq_ok hopen
  obtain ⟨inner, -, hdecode⟩ := PushQuery.exists_decode_of_openPush hopened
  obtain ⟨fields, -, hmessage⟩ := exists_of_map_eq_ok hdecode
  rw [← hmessage]
  exact (ReplyTexts.answer?_ofFields_eq_none_iff texts fields).symm

/-- The default gateway always answers with its own reply. If its configuration is valid, and the
answer to a sealed push is short enough to be sealed, an opened push has the status 200 and is
counted as acknowledged or as replied to, never as late or failed. It is acknowledged exactly if it
is one of nine events; otherwise what is sent conveys a text from the account to the sender, the
answer of the message, in which the quoted part stands verbatim. -/
theorem own_replies_answer_every_push (hvalid : gateway.config.validate = .ok ())
    (htime : Text.IntegerRange.signed64.Contains moment.time)
    (hopen : gateway.openPush appId query format body = .ok (credentials, opened))
    (hfits : opened.encoding = .sealed → ∀ content encoded,
      gateway.config.replies.answer? opened.message.body = some content →
      (ReplyTexts.replyTo opened.message moment.time content).encode format = .ok encoded →
      encoded.length < 2 ^ 32) :
    let texts := gateway.config.replies
    let message := opened.message
    let answer := gateway.push moment texts.handler appId query format body
    let counted := gateway.measured opened (texts.handler moment.time message)
    let acknowledgement : Http.Response :=
      .text 200 "text/plain; charset=utf-8" gateway.config.limits.ackToken
    answer.1.status = 200 ∧
    (∀ outcome ∈ ["fallback", "timeout"], answer.2.metrics.requestCount "push" outcome =
      gateway.metrics.requestCount "push" outcome) ∧
    (answer = (acknowledgement, counted "ack") ↔ message.body.IsSilent) ∧
    (¬ message.body.IsSilent → ∃ sent reply content,
      answer = (⟨200, some format.contentType, sent⟩, counted "reply") ∧
      Conveys credentials format opened.encoding sent reply ∧
      Message.decode format reply = .ok
        ⟨⟨message.header.fromUser, message.header.toUser, moment.time⟩,
          .text ⟨0, content, none, none⟩⟩ ∧
      texts.answer? message.body = some content ∧
      ∀ quoted, message.body.quoted? = some quoted → quoted.toList <:+: content.toList) := by
  have hsilent := isSilent_iff gateway.config.replies hopen
  dsimp only
  cases hanswer : gateway.config.replies.answer? opened.message.body with
  | none =>
    rw [hanswer] at hsilent
    rw [push_of_silent hvalid hopen hanswer]
    refine ⟨rfl, fun outcome houtcome => requestCount_measured _ _ ?_,
      iff_of_true rfl (hsilent.mpr rfl), fun h => absurd (hsilent.mpr rfl) h⟩
    rintro rfl
    exact absurd houtcome (by decide)
  | some content =>
    rw [hanswer] at hsilent
    have hspeaks : ¬ opened.message.body.IsSilent := fun h => by simp [hsilent] at h
    obtain ⟨encoded, sent, hencoded, hconveys, hpush⟩ :=
      push_of_answer hvalid hopen hanswer fun hsealed encoded =>
        hfits hsealed content encoded hanswer
    have hdecode := Reply.decode_encode hencoded htime
    rw [hpush]
    refine ⟨rfl, fun outcome houtcome => requestCount_measured _ _ ?_, iff_of_false ?_ hspeaks,
      fun _ => ⟨sent, encoded, content, rfl, hconveys, hdecode, rfl,
        fun quoted => ReplyTexts.quoted_isInfix_answer hanswer⟩⟩
    · rintro rfl
      exact absurd houtcome (by decide)
    · intro hsame
      -- A reply never has the content type of the acknowledgement.
      have htype := congrArg (fun answer => answer.1.contentType) hsame
      cases format <;> simp [Http.Response.text, WireFormat.contentType] at htype

/-- A gateway with a valid configuration of one app that accepts both encodings. -/
def answering : Gateway where
  config := ⟨1, {}, {}, [⟨"wx0001", "token",
    some "BwcHBwcHBwcHBwcHBwcHBwcHBwcHBwcHBwcHBwcHBwc", .compatible⟩]⟩
  store := ⟨[⟨"wx0001", "token", some (.filled 7), .compatible⟩]⟩

/-- A menu click whose key is the end of a section. -/
def sectionEndClick : Bytes := Text.Utf8.encodeString
  "<xml><MsgType>event</MsgType><Event>CLICK</Event><EventKey>]]&gt;</EventKey></xml>"

/-- The key of a click in a sealed push comes back in a sealed reply. -/
theorem own_replies_answer_every_push_section : ∃ ciphertext sent wrapper reply,
    Payload.encrypt (.filled 7) (.filled 1) sectionEndClick "wx0001" = .ok ciphertext ∧
    (answering.push ⟨5, .filled 2⟩ answering.config.replies.handler "wx0001"
      (sealedQuery ciphertext) .xml (Envelope.Wrapper.encode .xml ⟨"", ciphertext⟩)).1 =
      ⟨200, some "text/xml; charset=utf-8", sent⟩ ∧
    Envelope.Wrapper.decode .xml sent = .ok wrapper ∧
    Payload.decrypt (.filled 7) wrapper.ciphertext "wx0001" = .ok reply ∧
    Message.decode .xml reply = .ok ⟨⟨"", "", 5⟩, .text ⟨0, "Menu clicked: ]]>", none, none⟩⟩ := by
  have hdecode : Message.decode .xml sectionEndClick =
      .ok ⟨⟨"", "", 0⟩, .event (.click "]]>")⟩ := by
    have hfields : Message.fieldsOf .xml sectionEndClick = .ok
        [("MsgType", .text "event"), ("Event", .text "CLICK"), ("EventKey", .text "]]>")] := by
      decide +kernel
    exact Message.decode_of_fieldsOf hfields
  have hcontent : sectionEndClick.length = 82 := by decide +kernel
  obtain ⟨ciphertext, hseal, hlength, hpush⟩ := exists_openPush_sealed
    (show answering.store = sample.store from rfl) hdecode (by rw [hcontent]; decide)
  have hbody : (Envelope.Wrapper.encode .xml ⟨"", ciphertext⟩).length ≤
      answering.config.limits.bodyLimit := by
    rw [hcontent] at hlength
    exact Nat.le_trans hlength (by decide)
  have hvalid : answering.config.validate = .ok () := by decide +kernel
  have htime : Text.IntegerRange.signed64.Contains (Moment.mk 5 (.filled 2)).time := by decide
  obtain ⟨-, -, -, hanswer⟩ := own_replies_answer_every_push hvalid htime hpush
    fun _ _ _ hanswer hencoded =>
      length_answer_lt hvalid htime hpush hbody (by decide) hanswer hencoded
  obtain ⟨sent, reply, content, hsent, hconveys, hreply, htext, -⟩ := hanswer (by
    rintro ⟨event, hevent, hname⟩
    obtain rfl := Message.Body.event.inj hevent
    exact absurd hname (by decide))
  obtain ⟨key, wrapper, hcredentials, hunwrap, hdecrypt⟩ := hconveys
  obtain rfl := Option.some.inj hcredentials
  obtain rfl := Option.some.inj htext
  exact ⟨ciphertext, sent, wrapper, reply, hseal, congrArg Prod.fst hsent, hunwrap, hdecrypt,
    hreply⟩

/-- The answering gateway with a text of some length as its answer to texts. -/
def answeringAtLength (count : Nat) : Gateway :=
  { answering with config := { answering.config with replies := { text := longText count } } }

/-- A text without a content. -/
def emptyText : Bytes := Text.Utf8.encodeString "<xml><MsgType>text</MsgType></xml>"

/-- An answer of 2^32 characters cannot be sent to a sealed push, although the configuration is
valid. -/
theorem long_answer_is_refused : ∃ ciphertext,
    (answeringAtLength (2 ^ 32)).config.validate = .ok () ∧
    Payload.encrypt (.filled 7) (.filled 1) emptyText "wx0001" = .ok ciphertext ∧
    (∃ credentials opened, (answeringAtLength (2 ^ 32)).openPush "wx0001" (sealedQuery ciphertext)
      .xml (Envelope.Wrapper.encode .xml ⟨"", ciphertext⟩) = .ok (credentials, opened)) ∧
    ((answeringAtLength (2 ^ 32)).push ⟨5, .filled 2⟩
      (answeringAtLength (2 ^ 32)).config.replies.handler "wx0001" (sealedQuery ciphertext) .xml
      (Envelope.Wrapper.encode .xml ⟨"", ciphertext⟩)).1.status = 400 := by
  have hfields : Message.fieldsOf .xml emptyText = .ok [("MsgType", .text "text")] := by
    decide +kernel
  have hdecode : Message.decode .xml emptyText =
      .ok (Message.ofFields [("MsgType", .text "text")]) :=
    Message.decode_of_fieldsOf hfields
  have hcontent : emptyText.length < 2 ^ 32 := by decide +kernel
  obtain ⟨ciphertext, hseal, -, hopen⟩ := exists_openPush_sealed
    (show (answeringAtLength (2 ^ 32)).store = sample.store from rfl) hdecode hcontent
  have hvalid : answering.config.validate = .ok () := by decide +kernel
  have hanswer : (answeringAtLength (2 ^ 32)).config.replies.answer?
      (Message.ofFields [("MsgType", .text "text")]).body = some (longText (2 ^ 32)) := rfl
  obtain ⟨encoded, hencoded⟩ : ∃ encoded,
      (ReplyTexts.replyTo (Message.ofFields [("MsgType", .text "text")]) 5
        (longText (2 ^ 32))).encode .xml = .ok encoded := ⟨_, rfl⟩
  have hlong : 2 ^ 32 ≤ encoded.length := Nat.le_trans (Nat.le_of_eq (length_longText _).symm)
    (Reply.length_le_length_encode_text hencoded)
  have hending := ReplyTexts.ending_of_answer (Moment.mk 5 (.filled 2)).time hanswer
  have hpush := push_of_long_reply hopen rfl
    (show 0 < answering.config.limits.deadline by decide) hending hencoded hlong
  exact ⟨ciphertext, (Config.validate_replies _ _).trans hvalid, hseal, ⟨_, _, hopen⟩,
    congrArg (fun answer => answer.1.status) hpush⟩

end Gateway

end CallbackGateway
