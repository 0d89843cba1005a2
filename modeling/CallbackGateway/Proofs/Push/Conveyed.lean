import CallbackGateway.Proofs.Push.SealedReply
import CallbackGateway.Proofs.Record.Agreement

/-!
# What bodies convey

A plain body conveys itself. A sealed body conveys what its ciphertext is decrypted to with the key
of the app. A push that is opened conveys its message, and a reply that is sealed as the push was
conveys the reply.
-/

namespace CallbackGateway

/-- What the body of a push or of an answer conveys to the two sides, who both have the key. -/
def Conveys (credentials : Credentials) (format : WireFormat) (encoding : PushEncoding)
    (body inner : Bytes) : Prop :=
  match encoding with
  | .plain => inner = body
  | .sealed => ∃ key wrapper, credentials.key = some key ∧
    Envelope.Wrapper.decode format body = .ok wrapper ∧
    Payload.decrypt key wrapper.ciphertext credentials.appId = .ok inner

namespace PushQuery

variable {query : PushQuery} {credentials : Credentials} {format : WireFormat}

/-- A plain push conveys its message in its body. -/
theorem decode_of_openPlain {body : Bytes} {message : Message}
    (h : query.openPlain credentials format body = .ok message) :
    Message.decode format body = .ok message := by
  obtain ⟨hmode, -⟩ := authentic_of_openPlain h
  rw [openPlain_of_accepts hmode] at h
  obtain ⟨_, -, h⟩ := exists_of_bind_eq_ok h
  exact eq_ok_of_mapError h

/-- A sealed push conveys its message in its ciphertext. -/
theorem exists_decode_of_openSealed {body : Bytes} {message : Message}
    (h : query.openSealed credentials format body = .ok message) :
    ∃ inner, Conveys credentials format .sealed body inner ∧
      Message.decode format inner = .ok message := by
  obtain ⟨hmode, -⟩ := authentic_of_openSealed h
  cases hkey : credentials.key with
  | none =>
    rw [openSealed, hmode, hkey] at h
    cases h
  | some key =>
    rw [openSealed_of_accepts hmode hkey] at h
    obtain ⟨wrapper, hwrapper, h⟩ := exists_of_bind_eq_ok h
    obtain ⟨_, -, h⟩ := exists_of_bind_eq_ok h
    obtain ⟨inner, hinner, h⟩ := exists_of_bind_eq_ok h
    exact ⟨inner, ⟨key, wrapper, hkey, eq_ok_of_mapError hwrapper, eq_ok_of_mapError hinner⟩,
      eq_ok_of_mapError h⟩

/-- A push that is opened conveys its message. -/
theorem exists_decode_of_openPush {body : Bytes} {opened : OpenedPush}
    (h : query.openPush credentials format body = .ok opened) :
    ∃ inner, Conveys credentials format opened.encoding body inner ∧
      Message.decode format inner = .ok opened.message := by
  unfold openPush at h
  split at h
  · cases h
  · obtain ⟨message, hopen, rfl⟩ := exists_of_map_eq_ok h
    exact ⟨body, rfl, decode_of_openPlain hopen⟩
  · obtain ⟨message, hopen, rfl⟩ := exists_of_map_eq_ok h
    exact exists_decode_of_openSealed hopen

/-- A reply that was sealed as a push is conveyed by what is sent. -/
theorem conveys_of_sealReply {encoding : PushEncoding} {time : Int} {salt : Aes.Block}
    {reply sent : Bytes}
    (h : query.sealReply credentials encoding format time salt reply = .ok sent) :
    Conveys credentials format encoding sent reply := by
  cases encoding with
  | plain => exact Except.ok.inj h
  | sealed =>
    rw [sealReply] at h
    split at h
    · cases h
    · rename_i key hkey
      obtain ⟨envelope, henvelope, rfl⟩ := exists_of_map_eq_ok h
      have hsealed := eq_ok_of_mapError henvelope
      have hlength : reply.length < 4294967296 := by
        by_contra hlong
        rw [Envelope.Sealed.ofReply, Payload.encrypt, if_pos (by omega)] at hsealed
        cases hsealed
      obtain ⟨same, hsame, -, -, -, hdecrypt, hne⟩ := Envelope.Sealed.exists_ofReply key salt
        credentials.token credentials.appId time query.nonce hlength
      obtain rfl := Except.ok.inj (hsealed.symm.trans hsame)
      exact ⟨key, _, hkey, Envelope.decode_encode format envelope hne, hdecrypt⟩

end PushQuery

end CallbackGateway
