import CallbackGateway.Proofs.Push.PlainAndSealed
import CallbackGateway.Proofs.Push.SealedReply
import CallbackGateway.Proofs.Push.TextSize
import CallbackGateway.Proofs.Reply.WrittenSize

/-!
# Answers to opened pushes

Once a push is opened, what the handler does decides between four outcomes, and in each of them
the response has the status 200: a reply or the fallback is written and sealed as the push was,
and a late or silent handler is answered with the acknowledgement. What a failed handler says
about its failure is neither shown nor counted.

A reply of 2^32 bytes or more cannot be sealed. The handler is trusted with the size of its replies.
The fallback holds a configured text, which is the only thing that has to be bounded: the names that
it takes over from a push are bounded by the limit on bodies. Without that bound a sealed push can
be refused after its outcome was counted.
-/

namespace CallbackGateway

open Metrics Record

/-! ## Replies -/

/-- No reply is written without bytes. -/
theorem Record.Fields.encode_ne_nil (format : WireFormat) (fields : Fields) :
    Fields.encode format fields ≠ [] := by
  cases format with
  | xml =>
    rw [Fields.encode, Fields.toMarkup, Markup.element, List.cons_append, Markup.write_cons,
      Markup.Token.write_openTag, List.cons_append, Text.Utf8.encode_cons]
    exact List.append_ne_nil_of_left_ne_nil (by decide) _
  | json =>
    rw [Fields.encode, Fields.toJson, Value.toJson, Json.Value.ofMembers, Json.Value.toBytes,
      Json.Value.write, Text.Utf8.encode_cons]
    exact List.append_ne_nil_of_left_ne_nil (by decide) _

/-- No reply is written without bytes. -/
theorem Reply.ne_nil_of_encode {format : WireFormat} {reply : Reply} {body : Bytes}
    (h : reply.encode format = .ok body) : body ≠ [] := by
  unfold encode at h
  split at h
  · cases h
  · cases h
    exact Fields.encode_ne_nil format (reply.fields format)

/-- The fallback is a text, which can always be written. -/
theorem ReplyTexts.exists_encode_fallbackReply (texts : ReplyTexts) (time : Int)
    (header : Message.Header) (format : WireFormat) :
    ∃ body, (texts.fallbackReply time header).encode format = .ok body := ⟨_, rfl⟩

/-- Whether a handler ends without anything that can be answered: with an error, without a
result, or with news of no article or of too many. -/
def HandlerEnding.isFailure : HandlerEnding → Bool
  | .failed _ | .crashed => true
  | .decided .acknowledge => false
  | .decided (.reply reply) =>
    match reply.body with
    | .news articles => articles.length == 0 || 8 < articles.length
    | _ => false

/-- Only news can be refused. -/
theorem Reply.encode_ok_of_not_failure {reply : Reply} (format : WireFormat)
    (h : (HandlerEnding.decided (.reply reply)).isFailure = false) :
    ∃ body, reply.encode format = .ok body := by
  have hdefect : reply.body.defect? = none := by
    unfold HandlerEnding.isFailure at h
    unfold Body.defect?
    dsimp only at h
    cases hbody : reply.body with
    | news articles =>
      rw [hbody] at h
      dsimp only at h ⊢
      rw [if_neg]
      rw [mostArticles]
      simpa using h
    | text | image | voice | video | music => rfl
  rw [encode, hdefect]
  exact ⟨_, rfl⟩

/-- News of no article or of too many is refused. -/
theorem Reply.encode_error_of_failure {reply : Reply} (format : WireFormat)
    (h : (HandlerEnding.decided (.reply reply)).isFailure = true) :
    ∃ cause, reply.encode format = .error cause := by
  unfold HandlerEnding.isFailure at h
  dsimp only at h
  split at h
  · rename_i articles hbody
    have hcount : articles.length = 0 ∨ mostArticles < articles.length := by
      rw [mostArticles]
      simpa using h
    rw [encode, hbody, Body.defect?, if_pos hcount]
    exact ⟨_, rfl⟩
  · cases h

/-! ## What work comes to -/

namespace Handling

variable {handling : Handling} {format : WireFormat} {deadline : Nat}

/-- A reply in time is what the work comes to. -/
theorem run_of_reply {reply : Reply} {body : Bytes} (hintime : handling.delay < deadline)
    (hending : handling.ending = .decided (.reply reply))
    (hbody : reply.encode format = .ok body) :
    (handling.work format).run deadline = .reply body := by
  rw [work, Work.run, if_pos hintime, hending, HandlerEnding.ending, hbody]
  obtain ⟨b, rest, rfl⟩ := List.exists_cons_of_ne_nil (Reply.ne_nil_of_encode hbody)
  rfl

/-- A silent handler in time gives no reply. -/
theorem run_of_acknowledge (hintime : handling.delay < deadline)
    (hending : handling.ending = .decided .acknowledge) :
    (handling.work format).run deadline = .noReply := by
  rw [work, Work.run, if_pos hintime, hending]
  rfl

/-- Every failure in time comes to a failure of the work. -/
theorem exists_run_of_isFailure (hintime : handling.delay < deadline)
    (hfailure : handling.ending.isFailure = true) :
    ∃ reason, (handling.work format).run deadline = .failed reason := by
  rw [work, Work.run, if_pos hintime]
  cases hending : handling.ending with
  | failed error => exact ⟨_, rfl⟩
  | crashed => exact ⟨_, rfl⟩
  | decided outcome =>
    rw [hending] at hfailure
    cases outcome with
    | acknowledge => cases hfailure
    | reply reply =>
      obtain ⟨cause, hcause⟩ := Reply.encode_error_of_failure format hfailure
      rw [HandlerEnding.ending, hcause]
      exact ⟨_, rfl⟩

/-- A late handler gives nothing. -/
theorem run_of_late (hlate : deadline ≤ handling.delay) :
    (handling.work format).run deadline = .timedOut := Work.run_late hlate

end Handling

/-! ## Sealing -/

namespace PushQuery

variable {query : PushQuery} {credentials : Credentials} {format : WireFormat} {body : Bytes}
  {opened : OpenedPush}

/-- A push is opened in the format of its request. -/
theorem format_of_openPush (h : query.openPush credentials format body = .ok opened) :
    opened.format = format := by
  unfold openPush at h
  split at h
  · cases h
  · cases hopen : query.openPlain credentials format body with
    | error cause => simp [hopen, Except.map] at h
    | ok message =>
      simp only [hopen, Except.map, Except.ok.injEq] at h
      rw [← h]
  · cases hopen : query.openSealed credentials format body with
    | error cause => simp [hopen, Except.map] at h
    | ok message =>
      simp only [hopen, Except.map, Except.ok.injEq] at h
      rw [← h]

/-- A sealed push is opened only with a key. -/
theorem exists_key_of_openPush (h : query.openPush credentials format body = .ok opened)
    (hsealed : opened.encoding = .sealed) : ∃ key, credentials.key = some key := by
  have hencoding := (authentic_of_openPush h).1
  rw [openPush, hencoding, hsealed] at h
  dsimp only at h
  cases hkey : credentials.key with
  | some key => exact ⟨key, rfl⟩
  | none =>
    rw [openSealed, hkey] at h
    cases hmode : credentials.mode.acceptsSealed <;> rw [hmode] at h <;> cases h

/-- A reply of 2^32 bytes or more to a sealed push cannot be sealed. -/
theorem sealReply_of_long (h : query.openPush credentials format body = .ok opened)
    (hsealed : opened.encoding = .sealed) (time : Int) (salt : Aes.Block) {reply : Bytes}
    (hreply : 2 ^ 32 ≤ reply.length) :
    query.sealReply credentials opened.encoding format time salt reply =
      .error (.payload (.lengthField reply.length 4294967295)) := by
  obtain ⟨key, hkey⟩ := exists_key_of_openPush h hsealed
  have hlong : 4294967295 < reply.length := hreply
  rw [hsealed, sealReply, hkey]
  dsimp only
  rw [Envelope.Sealed.ofReply, Payload.encrypt, if_pos hlong]
  rfl

/-- A reply of fewer than 2^32 bytes to an opened push can be sealed as the push was. -/
theorem exists_sealReply (h : query.openPush credentials format body = .ok opened)
    (time : Int) (salt : Aes.Block) {reply : Bytes}
    (hreply : opened.encoding = .sealed → reply.length < 2 ^ 32) :
    ∃ sent, query.sealReply credentials opened.encoding format time salt reply = .ok sent := by
  cases hencoding : opened.encoding with
  | plain => exact ⟨reply, rfl⟩
  | sealed =>
    obtain ⟨key, hkey⟩ := exists_key_of_openPush h hencoding
    have hlength : reply.length < 4294967296 := hreply hencoding
    obtain ⟨envelope, hseal, -⟩ := Envelope.Sealed.exists_ofReply key salt credentials.token
      credentials.appId time query.nonce hlength
    rw [sealReply, hkey]
    dsimp only
    rw [hseal]
    exact ⟨_, rfl⟩

end PushQuery

/-! ## Answers -/

/-- Whether the fallback leaves room for the names of a push within the limit on bodies: in either
format they take fewer than 2^32 bytes together. -/
def Config.FallbackFits (config : Config) : Prop :=
  ∀ format, Text.Utf8.byteCount (writtenText format config.replies.fallback) +
    192 * config.limits.bodyLimit + 2000 < 2 ^ 32

namespace Gateway

/-- Whether the reply of the handler to an opened push is short enough to be sealed, and the
configured fallback leaves room. The clock counts in 64 bits. -/
structure AnswersFit (gateway : Gateway) (moment : Moment) (handler : Handler)
    (opened : OpenedPush) : Prop where
  time : Text.IntegerRange.signed64.Contains moment.time
  reply : ∀ reply encoded,
    (handler moment.time opened.message).ending = .decided (.reply reply) →
    reply.encode opened.format = .ok encoded → encoded.length < 2 ^ 32
  fallback : gateway.config.FallbackFits

/-- Whether the replies that an opened push may be answered with are short enough to be sealed, if
the push was sealed. -/
structure CanSeal (gateway : Gateway) (moment : Moment) (handler : Handler)
    (opened : OpenedPush) : Prop where
  reply : opened.encoding = .sealed → ∀ reply body,
    (handler moment.time opened.message).ending = .decided (.reply reply) →
    reply.encode opened.format = .ok body → body.length < 2 ^ 32
  fallback : opened.encoding = .sealed →
    (handler moment.time opened.message).ending.isFailure = true → ∀ body,
    (gateway.config.replies.fallbackReply moment.time opened.message.header).encode
      opened.format = .ok body → body.length < 2 ^ 32

variable {gateway : Gateway} {moment : Moment} {handler other : Handler} {appId : String}
  {query : PushQuery} {format : WireFormat} {body : Bytes} {credentials : Credentials}
  {opened : OpenedPush}

/-- What is measured about an opened push that ends with an outcome. -/
def measured (gateway : Gateway) (opened : OpenedPush) (handling : Handling) (outcome : String) :
    Gateway :=
  (gateway.measure (observe [("msg_type", opened.message.type)]
    (gateway.spent handling))).measure (countRequest "push" outcome)

/-- A push for an app that is found is opened with its credentials. -/
theorem openPush_of_find? (hfound : gateway.store.find? appId = some credentials) :
    gateway.openPush appId query format body =
      (query.openPush credentials format body).map fun opened => (credentials, opened) := by
  rw [openPush, Gateway.credentials, hfound]
  cases hopen : query.openPush credentials format body with
  | error cause => simp only [bind, Except.bind, hopen, Except.map]
  | ok opened => simp only [bind, Except.bind, hopen, Except.map, pure, Except.pure]

/-- The fallback for a push within the limit on bodies can be sealed. -/
theorem length_fallback_lt {encoded : Bytes}
    (htime : Text.IntegerRange.signed64.Contains moment.time)
    (hfallback : gateway.config.FallbackFits)
    (hopen : query.openPush credentials format body = .ok opened)
    (hbody : body.length ≤ gateway.config.limits.bodyLimit)
    (hencoded : (gateway.config.replies.fallbackReply moment.time opened.message.header).encode
      opened.format = .ok encoded) : encoded.length < 2 ^ 32 := by
  have hwithin := PushQuery.textsWithin_of_openPush hopen
  have hto := hwithin.toUser
  have hfrom := hwithin.fromUser
  have hlength := Reply.length_encode_text_le htime hencoded
  have hroom := hfallback opened.format
  omega

/-- If the answers fit, those to a push within the limit on bodies can be sealed. -/
theorem canSeal_of_answersFit
    (hopen : gateway.openPush appId query format body = .ok (credentials, opened))
    (hbody : opened.encoding = .sealed → body.length ≤ gateway.config.limits.bodyLimit)
    (hfits : opened.encoding = .sealed → gateway.AnswersFit moment handler opened) :
    gateway.CanSeal moment handler opened where
  reply hsealed := (hfits hsealed).reply
  fallback hsealed _ _ := length_fallback_lt (hfits hsealed).time (hfits hsealed).fallback
    (openPush_eq_ok hopen).2 (hbody hsealed)

/-- An opened push is answered by what its work came to. -/
theorem push_of_openPush
    (hopen : gateway.openPush appId query format body = .ok (credentials, opened)) :
    gateway.push moment handler appId query format body =
      (gateway.measure (observe [("msg_type", opened.message.type)]
        (gateway.spent (handler moment.time opened.message)))).conclude moment query credentials
          opened (((handler moment.time opened.message).work opened.format).run
            gateway.config.limits.deadline) := by
  rw [push, hopen]

/-- A reply that can be sealed is sent. -/
theorem sendReply_of_sealReply {reply sent : Bytes}
    (h : query.sealReply credentials opened.encoding opened.format moment.time moment.salt reply =
      .ok sent) :
    gateway.sendReply moment query credentials opened reply =
      (⟨200, some opened.format.contentType, sent⟩, gateway) := by
  rw [sendReply, h]

/-- A sealed push whose reply has 2^32 bytes or more is refused after it was counted as replied
to. -/
theorem push_of_long_reply {reply : Reply} {encoded : Bytes}
    (hopen : gateway.openPush appId query format body = .ok (credentials, opened))
    (hsealed : opened.encoding = .sealed)
    (hintime : (handler moment.time opened.message).delay < gateway.config.limits.deadline)
    (hending : (handler moment.time opened.message).ending = .decided (.reply reply))
    (hencoded : reply.encode format = .ok encoded) (hlong : 2 ^ 32 ≤ encoded.length) :
    gateway.push moment handler appId query format body =
      (gateway.measured opened (handler moment.time opened.message) "reply").refusePush query
        (.payload (.lengthField encoded.length 4294967295)) := by
  obtain ⟨-, hopened⟩ := openPush_eq_ok hopen
  have hrefused := PushQuery.sealReply_of_long hopened hsealed moment.time moment.salt hlong
  obtain rfl := PushQuery.format_of_openPush hopened
  rw [push_of_openPush hopen, Handling.run_of_reply hintime hending hencoded, conclude, sendReply,
    hrefused]
  rfl

/-- A sealed push whose failure is answered with a fallback of 2^32 characters is refused after it
was counted as answered with the fallback. -/
theorem push_of_long_fallback
    (hopen : gateway.openPush appId query format body = .ok (credentials, opened))
    (hsealed : opened.encoding = .sealed)
    (hintime : (handler moment.time opened.message).delay < gateway.config.limits.deadline)
    (hfailure : (handler moment.time opened.message).ending.isFailure = true)
    (hlong : 2 ^ 32 ≤ gateway.config.replies.fallback.length) :
    ∃ found, gateway.push moment handler appId query format body =
      (gateway.measured opened (handler moment.time opened.message) "fallback").refusePush query
        (.payload (.lengthField found 4294967295)) := by
  obtain ⟨-, hopened⟩ := openPush_eq_ok hopen
  obtain ⟨encoded, hencoded⟩ := gateway.config.replies.exists_encode_fallbackReply moment.time
    opened.message.header opened.format
  obtain ⟨reason, hrun⟩ : ∃ reason, ((handler moment.time opened.message).work
      opened.format).run gateway.config.limits.deadline = .failed reason :=
    Handling.exists_run_of_isFailure hintime hfailure
  have hencodedLong : 2 ^ 32 ≤ encoded.length :=
    Nat.le_trans hlong (Reply.length_le_length_encode_text hencoded)
  have hrefused := PushQuery.sealReply_of_long hopened hsealed moment.time moment.salt hencodedLong
  obtain rfl := PushQuery.format_of_openPush hopened
  refine ⟨encoded.length, ?_⟩
  rw [push_of_openPush hopen, hrun, conclude]
  dsimp only [measure]
  rw [hencoded]
  dsimp only
  rw [sendReply, hrefused]
  rfl

section Opened

variable (hopen : gateway.openPush appId query format body = .ok (credentials, opened))
  (hseal : gateway.CanSeal moment handler opened)

include hopen hseal

/-- The reply of a handler in time is sealed and sent. -/
theorem push_of_reply {reply : Reply} {encoded : Bytes}
    (hintime : (handler moment.time opened.message).delay < gateway.config.limits.deadline)
    (hending : (handler moment.time opened.message).ending = .decided (.reply reply))
    (hencoded : reply.encode format = .ok encoded) :
    ∃ sent, query.sealReply credentials opened.encoding format moment.time moment.salt encoded =
        .ok sent ∧
      gateway.push moment handler appId query format body =
        (⟨200, some format.contentType, sent⟩,
          gateway.measured opened (handler moment.time opened.message) "reply") := by
  obtain ⟨-, hopened⟩ := openPush_eq_ok hopen
  obtain rfl := PushQuery.format_of_openPush hopened
  obtain ⟨sent, hsent⟩ := PushQuery.exists_sealReply hopened moment.time moment.salt
    fun hsealed => hseal.reply hsealed reply encoded hending hencoded
  refine ⟨sent, hsent, ?_⟩
  rw [push_of_openPush hopen, Handling.run_of_reply hintime hending hencoded, conclude]
  exact sendReply_of_sealReply hsent

/-- A failure in time is answered with the fallback. -/
theorem push_of_failure
    (hintime : (handler moment.time opened.message).delay < gateway.config.limits.deadline)
    (hfailure : (handler moment.time opened.message).ending.isFailure = true) :
    ∃ encoded sent,
      (gateway.config.replies.fallbackReply moment.time opened.message.header).encode format =
        .ok encoded ∧
      query.sealReply credentials opened.encoding format moment.time moment.salt encoded =
        .ok sent ∧
      gateway.push moment handler appId query format body =
        (⟨200, some format.contentType, sent⟩,
          gateway.measured opened (handler moment.time opened.message) "fallback") := by
  obtain ⟨-, hopened⟩ := openPush_eq_ok hopen
  obtain rfl := PushQuery.format_of_openPush hopened
  obtain ⟨encoded, hencoded⟩ := gateway.config.replies.exists_encode_fallbackReply moment.time
    opened.message.header opened.format
  obtain ⟨sent, hsent⟩ := PushQuery.exists_sealReply hopened moment.time moment.salt
    fun hsealed => hseal.fallback hsealed hfailure encoded hencoded
  obtain ⟨reason, hrun⟩ : ∃ reason, ((handler moment.time opened.message).work
      opened.format).run gateway.config.limits.deadline = .failed reason :=
    Handling.exists_run_of_isFailure hintime hfailure
  refine ⟨encoded, sent, hencoded, hsent, ?_⟩
  rw [push_of_openPush hopen, hrun, conclude]
  dsimp only [measure]
  rw [hencoded]
  exact sendReply_of_sealReply hsent

omit hseal

/-- A silent handler in time is answered with the acknowledgement. -/
theorem push_of_acknowledge
    (hintime : (handler moment.time opened.message).delay < gateway.config.limits.deadline)
    (hending : (handler moment.time opened.message).ending = .decided .acknowledge) :
    gateway.push moment handler appId query format body =
      (gateway.acknowledgement,
        gateway.measured opened (handler moment.time opened.message) "ack") := by
  rw [push_of_openPush hopen, Handling.run_of_acknowledge hintime hending]
  rfl

/-- A late handler is answered with the acknowledgement. -/
theorem push_of_late
    (hlate : gateway.config.limits.deadline ≤ (handler moment.time opened.message).delay) :
    gateway.push moment handler appId query format body =
      (gateway.acknowledgement,
        gateway.measured opened (handler moment.time opened.message) "timeout") := by
  rw [push_of_openPush hopen, Handling.run_of_late hlate]
  rfl

end Opened

/-- The outcomes under which opened pushes are counted. -/
def outcomes : List String := ["reply", "ack", "timeout", "fallback"]

/-- Every opened push is answered with the status 200 and counted under one outcome. -/
theorem exists_push_of_openPush
    (hopen : gateway.openPush appId query format body = .ok (credentials, opened))
    (hseal : gateway.CanSeal moment handler opened) :
    ∃ response outcome, response.status = 200 ∧ outcome ∈ outcomes ∧
      gateway.push moment handler appId query format body =
        (response, gateway.measured opened (handler moment.time opened.message) outcome) := by
  by_cases hintime :
      (handler moment.time opened.message).delay < gateway.config.limits.deadline
  · cases hfailure : (handler moment.time opened.message).ending.isFailure with
    | true =>
      obtain ⟨encoded, sent, -, -, hpush⟩ := push_of_failure hopen hseal hintime hfailure
      exact ⟨_, _, rfl, by decide, hpush⟩
    | false =>
      cases hending : (handler moment.time opened.message).ending with
      | failed | crashed =>
        rw [hending] at hfailure
        cases hfailure
      | decided outcome =>
        cases outcome with
        | acknowledge =>
          exact ⟨_, _, rfl, by decide, push_of_acknowledge hopen hintime hending⟩
        | reply reply =>
          rw [hending] at hfailure
          obtain ⟨encoded, hencoded⟩ := Reply.encode_ok_of_not_failure format hfailure
          obtain ⟨sent, -, hpush⟩ := push_of_reply hopen hseal hintime hending hencoded
          exact ⟨_, _, rfl, by decide, hpush⟩
  · exact ⟨_, _, rfl, by decide, push_of_late hopen (Nat.le_of_not_lt hintime)⟩

/-- Every answer to an opened push has the status 200. -/
theorem status_of_openPush
    (hopen : gateway.openPush appId query format body = .ok (credentials, opened))
    (hseal : gateway.CanSeal moment handler opened) :
    (gateway.push moment handler appId query format body).1.status = 200 := by
  obtain ⟨response, outcome, hstatus, -, hpush⟩ := exists_push_of_openPush hopen hseal
  rw [hpush, hstatus]

/-- Measuring how long a message took changes no counter. -/
theorem counters_measured (opened : OpenedPush) (handling : Handling) (outcome : String)
    (counter : Counter) : (gateway.measured opened handling outcome).metrics.counters counter =
      (countRequest "push" outcome gateway.metrics).counters counter := by
  cases counter <;> rfl

/-- The handler cannot make the answer to an opened push fail. A reply or an acknowledgement in
time is sent as it is; a late handler is acknowledged whatever it would have returned; and a
failure in time is answered with the fallback, so that two failures cannot be told apart. Only a
sealed push needs the limits on the body and on the answers. -/
theorem opened_push_is_answered
    (hopen : gateway.openPush appId query format body = .ok (credentials, opened))
    (hbody : opened.encoding = .sealed → body.length ≤ gateway.config.limits.bodyLimit)
    (hfits : opened.encoding = .sealed → gateway.AnswersFit moment handler opened) :
    let handling := handler moment.time opened.message
    let deadline := gateway.config.limits.deadline
    let answer := gateway.push moment handler appId query format body
    let header := opened.message.header
    let fallback : Reply :=
      ⟨⟨header.fromUser, header.toUser, moment.time⟩, .text gateway.config.replies.fallback⟩
    let acknowledgement : Http.Response :=
      .text 200 "text/plain; charset=utf-8" gateway.config.limits.ackToken
    let send (reply : Bytes) :=
      query.sealReply credentials opened.encoding format moment.time moment.salt reply
    answer.1.status = 200 ∧
    (∀ reply encoded, handling.delay < deadline → handling.ending = .decided (.reply reply) →
      reply.encode format = .ok encoded → ∃ sent, send encoded = .ok sent ∧
        answer = (⟨200, some format.contentType, sent⟩,
          gateway.measured opened handling "reply")) ∧
    (handling.delay < deadline → handling.ending = .decided .acknowledge →
      answer = (acknowledgement, gateway.measured opened handling "ack")) ∧
    (deadline < handling.delay →
      answer = (acknowledgement, gateway.measured opened handling "timeout")) ∧
    (handling.delay < deadline → handling.ending.isFailure = true →
      (∃ encoded sent, fallback.encode format = .ok encoded ∧ send encoded = .ok sent ∧
        answer = (⟨200, some format.contentType, sent⟩,
          gateway.measured opened handling "fallback")) ∧
      ∀ other : Handler, (other moment.time opened.message).delay < deadline →
        (other moment.time opened.message).ending.isFailure = true →
        let others := gateway.push moment other appId query format body
        others.1 = answer.1 ∧
          (∀ counter, others.2.metrics.counters counter = answer.2.metrics.counters counter) ∧
          ((other moment.time opened.message).delay = handling.delay → others = answer)) := by
  have hseal := canSeal_of_answersFit hopen hbody hfits
  refine ⟨status_of_openPush hopen hseal, fun reply encoded => push_of_reply hopen hseal,
    push_of_acknowledge hopen, fun hlate => push_of_late hopen (Nat.le_of_lt hlate),
    fun hintime hfailure => ⟨push_of_failure hopen hseal hintime hfailure, ?_⟩⟩
  intro other hother hfails
  have hagain : gateway.CanSeal moment other opened := by
    refine ⟨fun _ reply body hending hbody => ?_,
      fun hsealed _ => hseal.fallback hsealed hfailure⟩
    rw [hending] at hfails
    obtain ⟨cause, hcause⟩ := Reply.encode_error_of_failure opened.format hfails
    rw [hcause] at hbody
    cases hbody
  obtain ⟨encoded, sent, hencoded, hsent, hpush⟩ := push_of_failure hopen hseal hintime hfailure
  obtain ⟨encoded', sent', hencoded', hsent', hpush'⟩ := push_of_failure hopen hagain hother hfails
  obtain rfl := Except.ok.inj (hencoded.symm.trans hencoded')
  obtain rfl := Except.ok.inj (hsent.symm.trans hsent')
  dsimp only
  rw [hpush, hpush']
  refine ⟨rfl, fun counter => ?_, fun hdelay => ?_⟩
  · rw [counters_measured, counters_measured]
  · rw [measured, measured, spent, spent, hdelay]

/-- A gateway of one app that accepts both encodings. -/
def sample : Gateway where
  config := ⟨1, {}, {}, []⟩
  store := ⟨[⟨"wx0001", "token", some (.filled 7), .compatible⟩]⟩

/-- The default fallback leaves room. -/
theorem fallbackFits_sample : sample.config.FallbackFits := by
  intro format
  cases format <;> decide +kernel

/-- A handler that always ends without a result. -/
def crashing : Handler := fun _ _ => ⟨0, .crashed⟩

/-- The parameters of a sealed push for the app of the sample, signed over its ciphertext. -/
def sealedQuery (ciphertext : String) : PushQuery where
  timestamp := "1"
  nonce := "n"
  signature := none
  sealedSignature := some (Signature.sign ["token", "1", "n", ciphertext])
  encryptType := some "aes"
  openId := none

/-- A content can be sealed for the app of the sample, in a body not much longer than the content.
A gateway with that app opens the push to the message in the content. -/
theorem exists_openPush_sealed {content : Bytes} {message : Message}
    (hstore : gateway.store = sample.store)
    (hdecode : Message.decode format content = .ok message)
    (hlength : content.length < 2 ^ 32) :
    ∃ ciphertext, Payload.encrypt (.filled 7) (.filled 1) content "wx0001" = .ok ciphertext ∧
      (Envelope.Wrapper.encode format ⟨"", ciphertext⟩).length ≤ 32 * content.length + 1700 ∧
      gateway.openPush "wx0001" (sealedQuery ciphertext) format
        (Envelope.Wrapper.encode format ⟨"", ciphertext⟩) =
        .ok (⟨"wx0001", "token", some (.filled 7), .compatible⟩, ⟨message, format, .sealed⟩) := by
  obtain ⟨ciphertext, hseal, hopen, hne⟩ := Payload.exists_encrypt_decrypt (.filled 7) (.filled 1)
    "wx0001" (show content.length < 4294967296 by omega)
  have hwrapper := Envelope.Wrapper.decode_encode format ⟨"", ciphertext⟩ hne
  have hkey : (Credentials.mk "wx0001" "token" (some (.filled 7)) .compatible).key =
      some (.filled 7) := rfl
  have hfound : gateway.store.find? "wx0001" =
      some ⟨"wx0001", "token", some (.filled 7), .compatible⟩ := by
    rw [hstore]
    decide
  refine ⟨ciphertext, hseal, ?_, ?_⟩
  · have hsealed := Payload.length_encrypt_le hseal
    have hbytes := Envelope.Wrapper.length_encode_le format ⟨"", ciphertext⟩
    have hempty : "".length = 0 := rfl
    have happ : (Text.Utf8.encodeString "wx0001").length = 6 := by decide
    dsimp only at hbytes
    omega
  · rw [openPush_of_find? hfound, sealedQuery,
      PushQuery.openPush_of_signed_sealed rfl hkey rfl hwrapper rfl hopen, hdecode]
    rfl

/-- An object without members is a message without fields. -/
theorem decode_empty_object :
    Message.decode .json [0x7B, 0x7D] = .ok (Message.ofFields []) :=
  Message.decode_of_fieldsOf (by decide +kernel)

/-- A sealed push whose handler crashes is answered, too. -/
theorem opened_push_is_answered_crash : ∃ ciphertext,
    Payload.encrypt (.filled 7) (.filled 1) [0x7B, 0x7D] "wx0001" = .ok ciphertext ∧
    (sample.push ⟨5, .filled 2⟩ crashing "wx0001" (sealedQuery ciphertext) .json
      (Envelope.Wrapper.encode .json ⟨"", ciphertext⟩)).1.status = 200 := by
  obtain ⟨ciphertext, hseal, hlength, hopen⟩ :=
    exists_openPush_sealed rfl decode_empty_object (by decide)
  have hbody : (Envelope.Wrapper.encode .json ⟨"", ciphertext⟩).length ≤
      sample.config.limits.bodyLimit := Nat.le_trans hlength (by decide)
  have hfits : sample.AnswersFit ⟨5, .filled 2⟩ crashing
      ⟨Message.ofFields [], .json, .sealed⟩ := by
    refine ⟨by decide, ?_, fallbackFits_sample⟩
    intro reply encoded hending
    cases hending
  exact ⟨ciphertext, hseal, (opened_push_is_answered hopen (fun _ => hbody) fun _ => hfits).1⟩

/-- A text of some length. -/
def longText (count : Nat) : String := String.ofList (List.replicate count 'a')

/-- A text has the length that was asked for. -/
theorem length_longText (count : Nat) : (longText count).length = count := by
  rw [longText, String.length_ofList, List.length_replicate]

/-- The gateway of the sample with a fallback of some length. -/
def longWinded (count : Nat) : Gateway :=
  { sample with config := { sample.config with replies := { fallback := longText count } } }

/-- A gateway with a fallback of 2^32 characters refuses a sealed push whose handler crashes. -/
theorem push_longWinded (hopen : (longWinded (2 ^ 32)).openPush appId query format body =
      .ok (credentials, opened)) (hsealed : opened.encoding = .sealed) :
    ∃ found, (longWinded (2 ^ 32)).push moment crashing appId query format body =
      ((longWinded (2 ^ 32)).measured opened ⟨0, .crashed⟩ "fallback").refusePush query
        (.payload (.lengthField found 4294967295)) :=
  push_of_long_fallback hopen hsealed
    (show 0 < sample.config.limits.deadline by decide) rfl (Nat.le_of_eq (length_longText _).symm)

/-- A sealed push whose handler crashes is opened, but a fallback of 2^32 characters is refused. -/
theorem long_fallback_is_refused : ∃ ciphertext,
    Payload.encrypt (.filled 7) (.filled 1) [0x7B, 0x7D] "wx0001" = .ok ciphertext ∧
    (∃ credentials opened, (longWinded (2 ^ 32)).openPush "wx0001" (sealedQuery ciphertext) .json
      (Envelope.Wrapper.encode .json ⟨"", ciphertext⟩) = .ok (credentials, opened)) ∧
    ((longWinded (2 ^ 32)).push ⟨5, .filled 2⟩ crashing "wx0001" (sealedQuery ciphertext) .json
      (Envelope.Wrapper.encode .json ⟨"", ciphertext⟩)).1.status = 400 := by
  obtain ⟨ciphertext, hseal, -, hopen⟩ := exists_openPush_sealed
    (show (longWinded (2 ^ 32)).store = sample.store from rfl) decode_empty_object (by decide)
  obtain ⟨found, hpush⟩ := push_longWinded hopen rfl
  exact ⟨ciphertext, hseal, ⟨_, _, hopen⟩, congrArg (fun answer => answer.1.status) hpush⟩

end Gateway

end CallbackGateway
