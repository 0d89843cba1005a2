import CallbackGateway.Proofs.Envelope.WrittenWrapper
import CallbackGateway.Proofs.Payload.RoundTrip
import CallbackGateway.Proofs.Push.Authentication

/-!
# A sealed push is the plain push inside it

An app that accepts both encodings can be sent one body in two ways: plain, or sealed inside a
wrapper. Both are opened to what the body is decoded to, be it a message or an error, and only
the encoding that is reported tells them apart.
-/

namespace CallbackGateway

open Envelope Payload

variable {credentials : Credentials} {query : PushQuery}

/-- A plain push that carries its signature opens to what its body is decoded to. -/
theorem PushQuery.openPush_of_signed_plain (hmode : credentials.mode.acceptsPlain = true)
    (hencoding : query.encoding = .ok .plain)
    (hsign : query.signature =
      some (Signature.sign [credentials.token, query.timestamp, query.nonce]))
    (format : WireFormat) (body : Bytes) :
    query.openPush credentials format body =
      ((Message.decode format body).mapError .decode).map
        fun message => ⟨message, format, .plain⟩ := by
  have hauthentic : query.IsAuthentic credentials format body .plain := hsign
  rw [openPush, hencoding]
  dsimp only
  rw [openPlain_of_accepts hmode, checkPlain_of_authentic hauthentic, Except.bind]

/-- A sealed push that carries the signature of its ciphertext opens to what is decoded inside
the ciphertext. -/
theorem PushQuery.openPush_of_signed_sealed {key : Key} {wrapper : Wrapper} {body inner : Bytes}
    {format : WireFormat} (hmode : credentials.mode.acceptsSealed = true)
    (hkey : credentials.key = some key) (hencoding : query.encoding = .ok .sealed)
    (hwrapper : Wrapper.decode format body = .ok wrapper)
    (hsign : query.sealedSignature = some (Signature.sign
      [credentials.token, query.timestamp, query.nonce, wrapper.ciphertext]))
    (hopen : decrypt key wrapper.ciphertext credentials.appId = .ok inner) :
    query.openPush credentials format body =
      ((Message.decode format inner).mapError .decode).map
        fun message => ⟨message, format, .sealed⟩ := by
  rw [openPush, hencoding]
  dsimp only
  rw [openSealed_of_accepts hmode hkey, hwrapper]
  simp only [Except.mapError, Except.bind, checkSealed_of_signed hsign, hopen]

/-- One body is opened alike whether it is sent plain or sealed. Every body of fewer than 2^32
bytes is sealed, the ciphertext can be wrapped for any account, and a signed push of that wrapper
opens to the same message or to the same error as a signed push of the body itself. -/
theorem sealed_push_opens_as_its_body {key : Key} (hmode : credentials.mode = .compatible)
    (hkey : credentials.key = some key) (format : WireFormat) (body : Bytes)
    (hbody : body.length < 2 ^ 32) (salt : Aes.Block) (recipient timestamp nonce : String) :
    ∃ ciphertext, encrypt key salt body credentials.appId = .ok ciphertext ∧
      ∀ outer inner : PushQuery,
        outer.encryptType = some "aes" → outer.timestamp = timestamp → outer.nonce = nonce →
        outer.sealedSignature =
          some (Signature.sign [credentials.token, timestamp, nonce, ciphertext]) →
        inner.encoding = .ok .plain → inner.timestamp = timestamp → inner.nonce = nonce →
        inner.signature = some (Signature.sign [credentials.token, timestamp, nonce]) →
        ∃ result : Except GatewayError Message,
          (∀ wrapped, (wrapped = Wrapper.encode format ⟨recipient, ciphertext⟩ ∨
              Wrapper.decode format wrapped = .ok ⟨recipient, ciphertext⟩) →
            outer.openPush credentials format wrapped =
              result.map fun message => ⟨message, format, .sealed⟩) ∧
          inner.openPush credentials format body =
            result.map fun message => ⟨message, format, .plain⟩ := by
  have hlength : body.length < 4294967296 := hbody
  obtain ⟨ciphertext, hseal, hopen, hne⟩ :=
    exists_encrypt_decrypt key salt credentials.appId hlength
  refine ⟨ciphertext, hseal, ?_⟩
  rintro outer inner htype rfl rfl hsealed hplain htime hnonce hsign
  refine ⟨(Message.decode format body).mapError .decode, fun wrapped hwrapped => ?_, ?_⟩
  · have hencoding : outer.encoding = .ok .sealed := by
      rw [PushQuery.encoding, htype]
      rfl
    have hwrapper : Wrapper.decode format wrapped = .ok ⟨recipient, ciphertext⟩ := by
      rcases hwrapped with rfl | hwrapper
      · exact Wrapper.decode_encode format ⟨recipient, ciphertext⟩ hne
      · exact hwrapper
    exact PushQuery.openPush_of_signed_sealed (by rw [hmode]; rfl) hkey hencoding hwrapper hsealed
      hopen
  · rw [← htime, ← hnonce] at hsign
    exact PushQuery.openPush_of_signed_plain (by rw [hmode]; rfl) hplain hsign format body

/-- A body that is no text fails alike in both encodings. -/
theorem sealed_push_opens_as_its_body_defective : ∃ ciphertext,
    encrypt (.filled 7) (.filled 1) [0xFF] "wx0001" = .ok ciphertext ∧
    ∃ result : Except GatewayError Message,
      (PushQuery.mk "1" "a]]>b" none (some (Signature.sign ["token", "1", "a]]>b", ciphertext]))
          (some "aes") none).openPush ⟨"wx0001", "token", some (.filled 7), .compatible⟩ .xml
          (Wrapper.encode .xml ⟨"gh<&>", ciphertext⟩) =
        result.map (fun message => ⟨message, .xml, .sealed⟩) ∧
      (PushQuery.mk "1" "a]]>b" (some (Signature.sign ["token", "1", "a]]>b"])) none (some "raw")
          none).openPush ⟨"wx0001", "token", some (.filled 7), .compatible⟩ .xml [0xFF] =
        result.map (fun message => ⟨message, .xml, .plain⟩) := by
  have hkey : (Credentials.mk "wx0001" "token" (some (.filled 7)) .compatible).key =
      some (.filled 7) := rfl
  obtain ⟨ciphertext, hseal, hopen⟩ := sealed_push_opens_as_its_body rfl hkey .xml [0xFF]
    (by decide) (.filled 1) "gh<&>" "1" "a]]>b"
  obtain ⟨result, houter, hinner⟩ := hopen
    ⟨"1", "a]]>b", none, some (Signature.sign ["token", "1", "a]]>b", ciphertext]), some "aes",
      none⟩
    ⟨"1", "a]]>b", some (Signature.sign ["token", "1", "a]]>b"]), none, some "raw", none⟩
    rfl rfl rfl rfl rfl rfl rfl rfl
  exact ⟨ciphertext, hseal, result, houter _ (.inl rfl), hinner⟩

end CallbackGateway
