import CallbackGateway.Gateway
import CallbackGateway.Proofs.Record.Comparison
import CallbackGateway.Proofs.Signature.Accepted

/-!
# Pushes are authenticated before they are read

A push presents a signature over the token, the timestamp and the nonce, and over the ciphertext
if it is sealed. Unless that signature is the right one, nothing behind it is looked at: the
answer to a plain push does not depend on its body, the answer to a sealed push depends only on
whether its wrapper can be read, and neither depends on a key.

The gateway hands a message to its handler only if the message came out of such a push.
-/

namespace CallbackGateway

/-- Whether pushes of an encoding are accepted. -/
def AcceptedEncoding.accepts (mode : AcceptedEncoding) : PushEncoding → Bool
  | .plain => mode.acceptsPlain
  | .sealed => mode.acceptsSealed

namespace PushQuery

/-- Whether a query presents the signature that belongs to its push. The signature of a sealed
push covers the ciphertext that its very body holds. -/
def IsAuthentic (query : PushQuery) (credentials : Credentials) (format : WireFormat)
    (body : Bytes) : PushEncoding → Prop
  | .plain =>
    query.signature = some (Signature.sign [credentials.token, query.timestamp, query.nonce])
  | .sealed => ∃ wrapper, Envelope.Wrapper.decode format body = .ok wrapper ∧
      query.sealedSignature = some
        (Signature.sign [credentials.token, query.timestamp, query.nonce, wrapper.ciphertext])

variable {query : PushQuery} {credentials : Credentials} {format : WireFormat} {body : Bytes}

/-- The check of a plain push fails unless the push is authentic. -/
theorem checkPlain_of_not_authentic
    (h : ¬ query.IsAuthentic credentials format body .plain) :
    query.checkPlain credentials = .error .authFailed := by
  unfold checkPlain
  cases hsign : query.signature with
  | none => rfl
  | some presented =>
    dsimp only
    rw [if_neg]
    intro hverify
    rw [Signature.verify, Signature.expected?, beq_iff_eq, ← hsign] at hverify
    exact h hverify.symm

/-- The check of a sealed push fails unless the push is authentic. -/
theorem checkSealed_of_not_authentic {wrapper : Envelope.Wrapper}
    (hwrapper : Envelope.Wrapper.decode format body = .ok wrapper)
    (h : ¬ query.IsAuthentic credentials format body .sealed) :
    query.checkSealed credentials wrapper.ciphertext = .error .authFailed := by
  unfold checkSealed
  cases hsign : query.sealedSignature with
  | none => rfl
  | some presented =>
    dsimp only
    rw [if_neg]
    intro hverify
    rw [Signature.verify, Signature.expected?, beq_iff_eq, ← hsign] at hverify
    exact h ⟨wrapper, hwrapper, hverify.symm⟩

/-- An authentic plain push passes the check. -/
theorem checkPlain_of_authentic (h : query.IsAuthentic credentials format body .plain) :
    query.checkPlain credentials = .ok () := by
  rw [checkPlain, show query.signature = _ from h]
  dsimp only
  rw [if_pos]
  rw [Signature.verify, Signature.expected?, beq_self_eq_true]

/-- A sealed push whose signature covers its ciphertext passes the check. -/
theorem checkSealed_of_signed {ciphertext : String} (h : query.sealedSignature = some
      (Signature.sign [credentials.token, query.timestamp, query.nonce, ciphertext])) :
    query.checkSealed credentials ciphertext = .ok () := by
  rw [checkSealed, h]
  dsimp only
  rw [if_pos]
  rw [Signature.verify, Signature.expected?, beq_self_eq_true]

/-- A push whose encoding is not accepted is refused. -/
theorem openPlain_of_not_accepts (h : credentials.mode.acceptsPlain = false) :
    query.openPlain credentials format body =
      .error (.badRequest (.plainRefused credentials.appId)) := by
  rw [openPlain, h]
  rfl

/-- A sealed push is refused, whatever it holds, in a mode without sealed pushes. -/
theorem openSealed_of_not_accepts (h : credentials.mode.acceptsSealed = false) :
    query.openSealed credentials format body =
      .error (.badRequest (.sealedRefused credentials.appId)) := by
  rw [openSealed, h]
  rfl

/-- An accepted plain push is decoded after its check. -/
theorem openPlain_of_accepts (h : credentials.mode.acceptsPlain = true) :
    query.openPlain credentials format body = (query.checkPlain credentials).bind fun _ =>
      (Message.decode format body).mapError .decode := by
  rw [openPlain, h]
  rfl

/-- An accepted sealed push is unwrapped, checked, decrypted and decoded. -/
theorem openSealed_of_accepts {key : Payload.Key} (h : credentials.mode.acceptsSealed = true)
    (hkey : credentials.key = some key) :
    query.openSealed credentials format body =
      ((Envelope.Wrapper.decode format body).mapError .decode).bind fun wrapper =>
        (query.checkSealed credentials wrapper.ciphertext).bind fun _ =>
          ((Payload.decrypt key wrapper.ciphertext credentials.appId).mapError .payload).bind
            fun plain => (Message.decode format plain).mapError .decode := by
  rw [openSealed, h, hkey]
  rfl

/-- A plain push is opened only if it is authentic. -/
theorem authentic_of_openPlain {message : Message}
    (h : query.openPlain credentials format body = .ok message) :
    credentials.mode.acceptsPlain = true ∧ query.IsAuthentic credentials format body .plain := by
  cases hmode : credentials.mode.acceptsPlain with
  | false => simp [openPlain_of_not_accepts hmode] at h
  | true =>
    refine ⟨rfl, ?_⟩
    by_contra hsign
    rw [openPlain_of_accepts hmode, checkPlain_of_not_authentic hsign] at h
    simp [Except.bind] at h

/-- A sealed push is opened only if it is authentic. -/
theorem authentic_of_openSealed {message : Message}
    (h : query.openSealed credentials format body = .ok message) :
    credentials.mode.acceptsSealed = true ∧ query.IsAuthentic credentials format body .sealed := by
  cases hmode : credentials.mode.acceptsSealed with
  | false => simp [openSealed_of_not_accepts hmode] at h
  | true =>
    refine ⟨rfl, ?_⟩
    cases hkey : credentials.key with
    | none =>
      rw [openSealed, hmode, hkey] at h
      cases h
    | some key =>
      rw [openSealed_of_accepts hmode hkey] at h
      cases hwrapper : Envelope.Wrapper.decode format body with
      | error cause => simp [hwrapper, Except.mapError, Except.bind] at h
      | ok wrapper =>
        by_contra hsign
        rw [hwrapper] at h
        simp only [Except.mapError, Except.bind, checkSealed_of_not_authentic hwrapper hsign,
          reduceCtorEq] at h

/-- A push is opened only if its mode accepts it and its signature is the right one. -/
theorem authentic_of_openPush {opened : OpenedPush}
    (h : query.openPush credentials format body = .ok opened) :
    query.encoding = .ok opened.encoding ∧ credentials.mode.accepts opened.encoding = true ∧
      query.IsAuthentic credentials format body opened.encoding := by
  unfold openPush at h
  split at h
  · simp at h
  · rename_i hencoding
    cases hopen : query.openPlain credentials format body with
    | error cause => simp [hopen, Except.map] at h
    | ok message =>
      simp only [hopen, Except.map, Except.ok.injEq] at h
      subst h
      exact ⟨hencoding, authentic_of_openPlain hopen⟩
  · rename_i hencoding
    cases hopen : query.openSealed credentials format body with
    | error cause => simp [hopen, Except.map] at h
    | ok message =>
      simp only [hopen, Except.map, Except.ok.injEq] at h
      subst h
      exact ⟨hencoding, authentic_of_openSealed hopen⟩

/-- A plain push that is not authentic fails whatever its body is. -/
theorem openPush_of_not_authentic_plain (hencoding : query.encoding = .ok .plain)
    (hmode : credentials.mode.accepts .plain = true)
    (h : ¬ query.IsAuthentic credentials format body .plain) (other : Bytes) :
    query.openPush credentials format other = .error .authFailed := by
  unfold openPush
  rw [hencoding]
  dsimp only
  rw [openPlain_of_accepts hmode, checkPlain_of_not_authentic h]
  rfl

/-- A sealed push that is not authentic fails as its wrapper does, and else at its check. -/
theorem openPush_of_not_authentic_sealed {key : Payload.Key}
    (hencoding : query.encoding = .ok .sealed) (hmode : credentials.mode.accepts .sealed = true)
    (hkey : credentials.key = some key)
    (h : ¬ query.IsAuthentic credentials format body .sealed) :
    query.openPush credentials format body =
      match Envelope.Wrapper.decode format body with
      | .error cause => .error (.decode cause)
      | .ok _ => .error .authFailed := by
  unfold openPush
  rw [hencoding]
  dsimp only
  rw [openSealed_of_accepts hmode hkey]
  cases hwrapper : Envelope.Wrapper.decode format body with
  | error cause => rfl
  | ok wrapper =>
    simp only [Except.mapError, Except.bind, checkSealed_of_not_authentic hwrapper h, Except.map]

end PushQuery

namespace Gateway

/-- Whether a request asks a gateway to open a push for an app that it knows. -/
def Receives (gateway : Gateway) (request : Http.Request) (query : PushQuery)
    (credentials : Credentials) : Prop :=
  ∃ target segment appId, request.method = "POST" ∧
    Http.Target.parse? request.target = some target ∧
    Http.Route.ofPath? target.path = some (.portal segment) ∧
    Http.segmentText? segment = some appId ∧
    Http.pushQuery? (target.query.getD []) = some query ∧
    gateway.store.find? appId = some credentials

/-- Whether a message is what an authentic push of a request holds. -/
def Delivers (gateway : Gateway) (request : Http.Request) (message : Message) : Prop :=
  let format := WireFormat.ofContentType request.contentType
  ∃ query credentials opened, gateway.Receives request query credentials ∧
    query.openPush credentials format request.body = .ok opened ∧ opened.message = message ∧
    query.encoding = .ok opened.encoding ∧ credentials.mode.accepts opened.encoding = true ∧
    query.IsAuthentic credentials format request.body opened.encoding

variable {gateway : Gateway} {moment : Moment} {handler other : Handler}

/-- What the gateway opens belongs to an app that it knows. -/
theorem openPush_eq_ok {appId : String} {query : PushQuery} {format : WireFormat} {body : Bytes}
    {credentials : Credentials} {opened : OpenedPush}
    (h : gateway.openPush appId query format body = .ok (credentials, opened)) :
    gateway.store.find? appId = some credentials ∧
      query.openPush credentials format body = .ok opened := by
  unfold openPush Gateway.credentials at h
  cases hfound : gateway.store.find? appId with
  | none => simp [hfound, bind, Except.bind] at h
  | some found =>
    cases hopen : query.openPush found format body with
    | error cause => simp [hfound, hopen, bind, Except.bind] at h
    | ok result =>
      simp only [hfound, hopen, bind, Except.bind, pure, Except.pure, Except.ok.injEq,
        Prod.mk.injEq] at h
      obtain ⟨rfl, rfl⟩ := h
      exact ⟨rfl, hopen⟩

/-- A push is answered alike by handlers that agree on the message in it. -/
theorem push_congr {appId : String} {query : PushQuery} {format : WireFormat} {body : Bytes}
    (h : ∀ credentials opened, gateway.openPush appId query format body =
      .ok (credentials, opened) →
      handler moment.time opened.message = other moment.time opened.message) :
    gateway.push moment handler appId query format body =
      gateway.push moment other appId query format body := by
  unfold push
  cases hopen : gateway.openPush appId query format body with
  | error cause => rfl
  | ok found =>
    obtain ⟨credentials, opened⟩ := found
    dsimp only
    rw [h credentials opened hopen]

/-- A request is answered alike by handlers that agree on the messages it delivers. -/
theorem respond_congr {request : Http.Request}
    (h : ∀ message, gateway.Delivers request message →
      handler moment.time message = other moment.time message) :
    gateway.respond moment handler request = gateway.respond moment other request := by
  unfold respond
  cases htarget : Http.Target.parse? request.target with
  | none => rw [Option.map_none, Option.map_none]
  | some target =>
    rw [Option.map_some, Option.map_some]
    refine congrArg some ?_
    cases hroute : Http.Route.ofPath? target.path with
    | none => rfl
    | some route =>
      dsimp only
      unfold answerRoute
      split
      · rfl
      · rfl
      · rename_i segment hmethod
        unfold answerPush
        split
        · rename_i appId query hsegment hquery
          split
          · rfl
          · refine push_congr fun credentials opened hopen => ?_
            obtain ⟨hfound, hopened⟩ := openPush_eq_ok hopen
            obtain ⟨hencoding, hmode, hauthentic⟩ := PushQuery.authentic_of_openPush hopened
            have hreceives : gateway.Receives request query credentials :=
              ⟨target, segment, appId, hmethod, htarget, hroute, hsegment, hquery, hfound⟩
            exact h opened.message
              ⟨query, credentials, opened, hreceives, hopened, rfl, hencoding, hmode, hauthentic⟩
        · rfl
      · rfl

end Gateway

/-- Only authentic pushes are read. What is opened is authentic; a plain push that is not fails
alike for all bodies; a sealed one fails as its wrapper does or at its check, alike for all keys
and never in decryption; and the handler decides about messages of authentic pushes only. -/
theorem only_authentic_pushes_are_read (query : PushQuery) (credentials : Credentials)
    (format : WireFormat) (body : Bytes) :
    (∀ opened, query.openPush credentials format body = .ok opened →
      query.encoding = .ok opened.encoding ∧ credentials.mode.accepts opened.encoding = true ∧
        query.IsAuthentic credentials format body opened.encoding) ∧
    (query.encoding = .ok .plain → credentials.mode.accepts .plain = true →
      ¬ query.IsAuthentic credentials format body .plain →
      ∀ other, query.openPush credentials format other = .error .authFailed) ∧
    (∀ key, query.encoding = .ok .sealed → credentials.mode.accepts .sealed = true →
      credentials.key = some key → ¬ query.IsAuthentic credentials format body .sealed →
      query.openPush credentials format body =
        (match Envelope.Wrapper.decode format body with
          | .error cause => .error (.decode cause)
          | .ok _ => .error .authFailed) ∧
      (∀ cause, query.openPush credentials format body ≠ .error (.payload cause)) ∧
      ∀ other, query.openPush { credentials with key := some other } format body =
        query.openPush credentials format body) ∧
    (∀ (gateway : Gateway) (moment : Moment) (handler other : Handler) (request : Http.Request),
      (∀ message, gateway.Delivers request message →
        handler moment.time message = other moment.time message) →
      gateway.respond moment handler request = gateway.respond moment other request) := by
  refine ⟨fun opened => PushQuery.authentic_of_openPush,
    fun hencoding hmode => PushQuery.openPush_of_not_authentic_plain hencoding hmode, ?_,
    fun gateway moment handler other request => Gateway.respond_congr⟩
  intro key hencoding hmode hkey hauthentic
  have hopen := PushQuery.openPush_of_not_authentic_sealed hencoding hmode hkey hauthentic
  refine ⟨hopen, fun cause hcause => ?_, fun other => ?_⟩
  · rw [hopen] at hcause
    split at hcause <;> cases hcause
  · have hother : ({ credentials with key := some other } : Credentials).key = some other := rfl
    rw [hopen]
    exact PushQuery.openPush_of_not_authentic_sealed hencoding hmode hother hauthentic

/-- A plain push of an empty object that presents a wrong signature. -/
def forgedPush : Http.Request :=
  ⟨"POST", "/v1/portal/wx0001?timestamp=1&nonce=n&signature=0".toList,
    [("content-type", "application/json")], [0x7B, 0x7D]⟩

/-- A signed push is opened, pushes without a signature are not, and a push with a wrong signature
is answered alike by a handler that crashes and one that acknowledges. -/
theorem only_authentic_pushes_are_read_sample :
    (∃ opened, (PushQuery.mk "1" "n" (some (Signature.sign ["token", "1", "n"])) none none
        none).openPush ⟨"wx0001", "token", some (.filled 7), .compatible⟩ .json [0x7B, 0x7D] =
        .ok opened ∧
      AcceptedEncoding.compatible.accepts opened.encoding = true) ∧
    (∀ other, (PushQuery.mk "1" "n" none none none none).openPush
      ⟨"wx0001", "token", some (.filled 7), .compatible⟩ .json other = .error .authFailed) ∧
    ((PushQuery.mk "1" "n" none none (some "aes") none).openPush
        ⟨"wx0001", "token", some (.filled 7), .compatible⟩ .json
        (Text.Utf8.encodeString "\x7b\"Encrypt\":\"QQ==\"\x7d") = .error .authFailed ∧
      ∀ other, (PushQuery.mk "1" "n" none none (some "aes") none).openPush
        ⟨"wx0001", "token", some other, .compatible⟩ .json
        (Text.Utf8.encodeString "\x7b\"Encrypt\":\"QQ==\"\x7d") = .error .authFailed) ∧
    Gateway.respond ⟨⟨1, {}, {}, []⟩, ⟨[⟨"wx0001", "token", some (.filled 7), .compatible⟩]⟩, {}⟩
        ⟨0, .filled 1⟩ (fun _ _ => ⟨0, .crashed⟩) forgedPush =
      Gateway.respond ⟨⟨1, {}, {}, []⟩, ⟨[⟨"wx0001", "token", some (.filled 7), .compatible⟩]⟩, {}⟩
        ⟨0, .filled 1⟩ (fun _ _ => ⟨0, .decided .acknowledge⟩) forgedPush := by
  have hopen : ∃ opened, (PushQuery.mk "1" "n" (some (Signature.sign ["token", "1", "n"])) none
      none none).openPush ⟨"wx0001", "token", some (.filled 7), .compatible⟩ .json [0x7B, 0x7D] =
        .ok opened := by
    have hmessage : ∃ message, Message.decode .json [0x7B, 0x7D] = .ok message :=
      ⟨Message.ofFields [], Message.decode_of_fieldsOf (by decide +kernel)⟩
    obtain ⟨message, hmessage⟩ := hmessage
    have hauthentic : (PushQuery.mk "1" "n" (some (Signature.sign ["token", "1", "n"])) none none
        none).IsAuthentic ⟨"wx0001", "token", some (.filled 7), .compatible⟩ .json [] .plain := rfl
    have hcheck := PushQuery.checkPlain_of_authentic hauthentic
    refine ⟨⟨message, .json, .plain⟩, ?_⟩
    unfold PushQuery.openPush PushQuery.encoding
    dsimp only
    rw [PushQuery.openPlain_of_accepts rfl, hcheck, Except.bind, hmessage]
    rfl
  have hunsigned : ¬ (PushQuery.mk "1" "n" none none (some "aes") none).IsAuthentic
      ⟨"wx0001", "token", some (.filled 7), .compatible⟩ .json
      (Text.Utf8.encodeString "\x7b\"Encrypt\":\"QQ==\"\x7d") .sealed := by
    rintro ⟨wrapper, -, hsign⟩
    cases hsign
  have hwrapper : Envelope.Wrapper.decode .json
      (Text.Utf8.encodeString "\x7b\"Encrypt\":\"QQ==\"\x7d") = .ok ⟨"", "QQ=="⟩ := by
    decide +kernel
  obtain ⟨opened, hopened⟩ := hopen
  obtain ⟨-, hmode, -⟩ := (only_authentic_pushes_are_read _ _ _ _).1 opened hopened
  have hsealed := (only_authentic_pushes_are_read _ _ _ _).2.2.1 (.filled 7) rfl rfl rfl hunsigned
  have hfailed := hsealed.1
  rw [hwrapper] at hfailed
  refine ⟨⟨opened, hopened, hmode⟩, ?_, ⟨hfailed, fun other => ?_⟩, ?_⟩
  · exact (only_authentic_pushes_are_read _ ⟨"wx0001", "token", some (.filled 7), .compatible⟩
      .json []).2.1 rfl rfl (fun hsign => by cases hsign)
  · exact (hsealed.2.2 other).trans hfailed
  · refine (only_authentic_pushes_are_read (PushQuery.mk "" "" none none none none)
      ⟨"", "", none, .plain⟩ .json []).2.2.2 _ _ _ _ _ fun message hdelivers => ?_
    have hparse : ((Http.Target.parse? forgedPush.target).bind fun target =>
        Http.pushQuery? (target.query.getD [])) =
        some ⟨"1", "n", some "0", none, none, none⟩ := by decide +kernel
    have hwrong : "0" ≠ Signature.sign ["token", "1", "n"] := by
      intro hsame
      have hlength := Signature.length_sign ["token", "1", "n"]
      rw [← hsame] at hlength
      exact absurd hlength (by decide)
    obtain ⟨query, credentials, opened, ⟨target, segment, appId, -, htarget, -, -, hquery, hfound⟩,
      -, -, hencoding, -, hauthentic⟩ := hdelivers
    rw [htarget, Option.bind_some, hquery] at hparse
    obtain rfl := Option.some.inj hparse
    obtain hplain : PushEncoding.plain = opened.encoding := Except.ok.inj hencoding
    have htoken : credentials.token = "token" := by
      have hmem := List.mem_of_find?_eq_some hfound
      rw [List.mem_singleton] at hmem
      rw [hmem]
    rw [← hplain, PushQuery.IsAuthentic, htoken] at hauthentic
    exact absurd (Option.some.inj hauthentic) hwrong

end CallbackGateway
