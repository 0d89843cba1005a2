import CallbackGateway.Proofs.Envelope.SealedWrapper
import CallbackGateway.Proofs.Payload.RoundTrip
import CallbackGateway.Proofs.Push.Authentication

/-!
# A sealed reply opens again

A reply that was sealed for an app opens as a sealed push of that app: its own signature belongs
to it, its ciphertext is for that app, and what is inside is the reply itself. So opening gives
exactly what the bytes of the reply are decoded to, be it a message or an error.
-/

namespace CallbackGateway

open Envelope Payload

/-- A reply of fewer than 2^32 bytes is sealed; its ciphertext opens again, and its signature
covers the ciphertext. -/
theorem Envelope.Sealed.exists_ofReply (key : Key) (salt : Aes.Block) (token appId : String)
    (timestamp : Int) (nonce : String) {reply : Bytes} (h : reply.length < 4294967296) :
    ∃ envelope, Sealed.ofReply key salt token appId timestamp nonce reply = .ok envelope ∧
      envelope.timestamp = timestamp ∧ envelope.nonce = nonce ∧
      envelope.signature =
        Signature.sign [token, Text.decimal timestamp, nonce, envelope.ciphertext] ∧
      decrypt key envelope.ciphertext appId = .ok reply ∧
      Text.trim envelope.ciphertext.toList ≠ [] := by
  obtain ⟨ciphertext, hseal, hopen, hne⟩ := exists_encrypt_decrypt key salt appId h
  refine ⟨⟨ciphertext, Signature.sign [token, Text.decimal timestamp, nonce, ciphertext],
    timestamp, nonce⟩, ?_, rfl, rfl, rfl, hopen, hne⟩
  rw [Sealed.ofReply, hseal]
  rfl

/-- A sealed reply opens to what its bytes are decoded to. -/
theorem openPush_sealedReply {credentials : Credentials} {key : Key}
    (hmode : credentials.mode.acceptsSealed = true) (hkey : credentials.key = some key)
    (format : WireFormat) (reply : Bytes) (hreply : reply.length < 2 ^ 32) (timestamp : Int)
    (nonce : String) (salt : Aes.Block) :
    ∃ envelope, Sealed.ofReply key salt credentials.token credentials.appId timestamp nonce reply =
        .ok envelope ∧
      ∀ query : PushQuery, query.encryptType = some "aes" →
        query.sealedSignature = some envelope.signature →
        query.timestamp = Text.decimal envelope.timestamp → query.nonce = nonce →
        query.openPush credentials format (envelope.encode format) =
          ((Message.decode format reply).mapError .decode).map
            fun message => ⟨message, format, .sealed⟩ := by
  have hlength : reply.length < 4294967296 := by omega
  obtain ⟨envelope, hseal, htime, -, hsign, hopen, hne⟩ := Sealed.exists_ofReply key salt
    credentials.token credentials.appId timestamp nonce hlength
  refine ⟨envelope, hseal, fun query htype hpresented htimestamp hnonce => ?_⟩
  have hencoding : query.encoding = .ok .sealed := by
    rw [PushQuery.encoding, htype]
    rfl
  have hwrapper := Envelope.decode_encode format envelope hne
  have hcheck : query.checkSealed credentials envelope.ciphertext = .ok () := by
    apply PushQuery.checkSealed_of_signed
    rw [hpresented, hsign, htimestamp, hnonce, htime]
  rw [PushQuery.openPush, hencoding]
  dsimp only
  rw [PushQuery.openSealed_of_accepts hmode hkey, hwrapper]
  simp only [Except.mapError, Except.bind, hcheck, hopen]

/-- A nonce that holds the end marker of a section does no harm. -/
theorem openPush_sealedReply_marker : ∃ envelope,
    Sealed.ofReply (.filled 7) (.filled 1) "token" "wx0001" (-5) "a]]>&é" [0x7B, 0x7D] =
      .ok envelope ∧
    (PushQuery.mk (Text.decimal envelope.timestamp) "a]]>&é" none (some envelope.signature)
      (some "aes") none).openPush ⟨"wx0001", "token", some (.filled 7), .safe⟩ .xml
        (envelope.encode .xml) =
      ((Message.decode .xml [0x7B, 0x7D]).mapError .decode).map
        fun message => ⟨message, .xml, .sealed⟩ := by
  have hkey : (Credentials.mk "wx0001" "token" (some (.filled 7)) .safe).key =
      some (.filled 7) := rfl
  obtain ⟨envelope, hseal, hopen⟩ := openPush_sealedReply rfl hkey .xml [0x7B, 0x7D] (by decide)
    (-5) "a]]>&é" (.filled 1)
  exact ⟨envelope, hseal, hopen _ rfl rfl rfl rfl⟩

end CallbackGateway
