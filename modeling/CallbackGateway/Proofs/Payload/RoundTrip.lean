import CallbackGateway.Payload.Seal
import CallbackGateway.Proofs.Aes.Inverse
import CallbackGateway.Proofs.Payload.Letters
import CallbackGateway.Proofs.Text.Utf8
import Mathlib.Algebra.Group.Nat.Defs

/-!
# Sealed payloads open again

Every layer of a payload is given back by the layer that reads it: padding at every length,
blocks and their chain, letters, the frame with its length field, and the app id behind the
content. So a payload that was sealed for an app is decrypted to its content for that app.
-/

namespace CallbackGateway

namespace Aes.Block

/-- Bytes that are whole blocks are cut into blocks, and nothing is lost. -/
theorem exists_split? {bytes : Bytes} (h : bytes.length % 16 = 0) :
    ∃ blocks, split? bytes = some blocks ∧ join blocks = bytes := by
  fun_induction split? bytes with
  | case1 => exact ⟨[], rfl, rfl⟩
  | case2 b0 b1 b2 b3 b4 b5 b6 b7 b8 b9 b10 b11 b12 b13 b14 b15 rest ih =>
    simp only [List.length_cons] at h
    obtain ⟨blocks, hs, hj⟩ := ih (by omega)
    refine ⟨_, by rw [hs]; rfl, ?_⟩
    simp [join, toBytes, Column.toBytes, ← hj]
  | case3 bytes hnil hblock =>
    exfalso
    rcases bytes with _ | ⟨b0, _ | ⟨b1, _ | ⟨b2, _ | ⟨b3, _ | ⟨b4, _ | ⟨b5, _ | ⟨b6, _ | ⟨b7, _ |
      ⟨b8, _ | ⟨b9, _ | ⟨b10, _ | ⟨b11, _ | ⟨b12, _ | ⟨b13, _ | ⟨b14, _ | ⟨b15, rest⟩⟩⟩⟩⟩⟩⟩⟩⟩⟩⟩⟩⟩⟩⟩⟩
    all_goals first
      | exact hnil rfl
      | exact hblock _ _ _ _ _ _ _ _ _ _ _ _ _ _ _ _ _ rfl
      | simp at h

end Aes.Block

namespace Payload

/-- A number of padding bytes, each of which holds their number. -/
def padding (count : Nat) : Bytes := List.replicate count (UInt8.ofNat count)

/-- Padding is as long as it says. -/
@[simp] theorem length_padding (count : Nat) : (padding count).length = count :=
  List.length_replicate

/-- The last byte of a padded text is the length of the padding. -/
theorem getLast?_append_padding (kept : Bytes) {count : Nat} (hpos : 1 ≤ count) :
    (kept ++ padding count).getLast? = some (UInt8.ofNat count) := by
  rw [padding, List.getLast?_append, List.getLast?_replicate, if_neg (by omega)]
  rfl

/-- The length of a padding fits into a byte. -/
theorem toNat_ofNat_count {count : Nat} (hle : count ≤ 32) : (UInt8.ofNat count).toNat = count := by
  rw [UInt8.toNat_ofNat']
  omega

/-- Padding of one to thirty-two bytes is taken off. -/
theorem unpad_append_padding (kept : Bytes) {count : Nat} (hpos : 1 ≤ count) (hle : count ≤ 32) :
    unpad (kept ++ padding count) = .ok kept := by
  rw [unpad, getLast?_append_padding kept hpos]
  dsimp only
  rw [toNat_ofNat_count hle, if_neg, List.length_append, length_padding, Nat.add_sub_cancel]
  · simp [padding]
  · rw [List.length_append, length_padding, padUnit]
    omega

/-- A padding has between one and 32 bytes. -/
theorem padCount_range (length : Nat) : 1 ≤ padCount length ∧ padCount length ≤ 32 := by
  rw [padCount, padUnit]
  omega

/-- Padding is taken off as it was put on. -/
@[simp] theorem unpad_pad (bytes : Bytes) : unpad (pad bytes) = .ok bytes := by
  obtain ⟨hpos, hle⟩ := padCount_range bytes.length
  exact unpad_append_padding bytes hpos hle

/-- A frame is read back, whatever its content and trailer are. -/
theorem unframe_frame (salt : Aes.Block) (content trailer : Bytes)
    (h : content.length < 4294967296) :
    unframe (frame salt content trailer) = .ok ⟨content, trailer⟩ := by
  have hdrop : (frame salt content trailer).drop 16 =
      bytes32 content.length ++ (content ++ trailer) := by
    rw [frame, List.append_assoc, List.append_assoc, List.drop_append_of_le_length (by simp),
      List.drop_of_length_le (by simp), List.nil_append]
  rw [unframe, hdrop, bytes32]
  dsimp only [List.cons_append, List.nil_append]
  rw [number32_bytes32 _ h, if_neg (by simp), List.take_left, List.drop_left]

/-- Decryption gives the bytes of whole blocks back. -/
theorem Key.exists_encryptBytes? (key : Key) {plain : Bytes} (h : plain.length % 16 = 0) :
    ∃ sent, key.encryptBytes? plain = some sent ∧ key.decryptBytes? sent = some plain ∧
      sent.length = plain.length := by
  obtain ⟨blocks, hs, hj⟩ := Aes.Block.exists_split? h
  refine ⟨_, by rw [encryptBytes?, hs]; rfl, ?_, ?_⟩
  · rw [decryptBytes?, Aes.Block.split?_join, Option.map_some,
      Aes.decryptChain_encryptChain _ _ (Aes.Schedule.decrypt_encrypt _), hj]
  · rw [← hj]
    simp only [Aes.Block.join, List.length_flatMap, Aes.Block.toBytes_length, List.map_const',
      Aes.encryptChain_length]

/-- The frame of a content of fewer than 2^32 bytes is sent as whole pairs of blocks. -/
theorem exists_sent (key : Key) (salt : Aes.Block) {content : Bytes} (appId : String)
    (h : content.length < 4294967296) :
    ∃ sent, encrypt key salt content appId = .ok (String.ofList (Base64.encode sent)) ∧
      key.decryptBytes? sent = some (pad (frame salt content (Text.Utf8.encodeString appId))) ∧
      sent.length % 32 = 0 ∧ sent ≠ [] := by
  have hmod := pad_length_mod (frame salt content (Text.Utf8.encodeString appId))
  rw [padUnit] at hmod
  obtain ⟨sent, hsent, hback, hlength⟩ := key.exists_encryptBytes?
    (show (pad (frame salt content (Text.Utf8.encodeString appId))).length % 16 = 0 by omega)
  refine ⟨sent, ?_, hback, by rwa [hlength], ?_⟩
  · rw [encrypt, if_neg (by omega)]
    simp only [hsent]
  · rintro rfl
    rw [pad, frame] at hlength
    simp only [List.length_append, Aes.Block.toBytes_length, List.length_nil] at hlength
    omega

/-- What is sent is read back as the frame behind it. -/
theorem decryptRaw_of_sent {key : Key} {sent frame : Bytes} (hne : sent ≠ [])
    (hback : key.decryptBytes? sent = some (pad frame)) :
    decryptRaw key (String.ofList (Base64.encode sent)) = .ok frame := by
  obtain ⟨b, rest, rfl⟩ := List.exists_cons_of_ne_nil hne
  rw [decryptRaw, String.toList_ofList, Text.trim_encode, Base64.decode?_encode]
  simp only [hback]
  exact unpad_pad frame

/-- The frame of a content of fewer than 2^32 bytes is sealed, and opened again. -/
theorem exists_encrypt (key : Key) (salt : Aes.Block) {content : Bytes} (appId : String)
    (h : content.length < 4294967296) :
    ∃ sealedText, encrypt key salt content appId = .ok sealedText ∧
      decryptRaw key sealedText =
        .ok (frame salt content (Text.Utf8.encodeString appId)) ∧
      Text.trim sealedText.toList ≠ [] := by
  obtain ⟨sent, hseal, hback, -, hne⟩ := exists_sent key salt appId h
  refine ⟨_, hseal, decryptRaw_of_sent hne hback, ?_⟩
  rw [String.toList_ofList, Text.trim_encode]
  intro hnil
  have hletters := Base64.encode_length sent
  rw [hnil] at hletters
  have := List.length_pos_iff.mpr hne
  simp only [List.length_nil] at hletters
  omega

/-- Opening gives the content and the trailer back. -/
theorem openSealed_of_decryptRaw {key : Key} {salt : Aes.Block} {content trailer : Bytes}
    {sealedText : String} (hraw : decryptRaw key sealedText = .ok (frame salt content trailer))
    (h : content.length < 4294967296) : openSealed key sealedText = .ok ⟨content, trailer⟩ := by
  simp only [openSealed, hraw, bind, Except.bind]
  rw [unframe_frame salt content trailer h]

/-- The trailer of a payload shows the app id that it was sealed for. -/
@[simp] theorem Opened.appId_encodeString (content : Bytes) (appId : String) :
    (Opened.mk content (Text.Utf8.encodeString appId)).appId = appId := by
  rw [Opened.appId, Text.Utf8.encodeString, Text.Utf8.decodeLossy_encode, String.ofList_toList]

/-- A payload that was sealed for an app is decrypted for that app only. -/
theorem decrypt_of_decryptRaw {key : Key} {salt : Aes.Block} {content : Bytes} {appId : String}
    {sealedText : String}
    (hraw : decryptRaw key sealedText = .ok (frame salt content (Text.Utf8.encodeString appId)))
    (h : content.length < 4294967296) (other : String) :
    decrypt key sealedText other =
      if appId = other then .ok content else .error .appIdMismatch := by
  simp only [decrypt, openSealed_of_decryptRaw hraw h, bind, Except.bind,
    Opened.appId_encodeString]

/-- A payload that was sealed for an app is decrypted for that app to its content. -/
theorem exists_encrypt_decrypt (key : Key) (salt : Aes.Block) {content : Bytes} (appId : String)
    (h : content.length < 4294967296) :
    ∃ sealedText, encrypt key salt content appId = .ok sealedText ∧
      decrypt key sealedText appId = .ok content ∧ Text.trim sealedText.toList ≠ [] := by
  obtain ⟨sealedText, hseal, hraw, hne⟩ := exists_encrypt key salt appId h
  exact ⟨sealedText, hseal, (decrypt_of_decryptRaw hraw h appId).trans (if_pos rfl), hne⟩

/-- Decryption undoes encryption and keeps apps apart. A content of fewer than 2^32 bytes is sealed
as whole pairs of blocks; its frame is read back byte for byte, it opens as the content with the app
id, and it is decrypted for this app and for no other one. -/
theorem encryption_is_undone_for_its_app (key : Key) (salt : Aes.Block) (content : Bytes)
    (h : content.length < 2 ^ 32) (appId : String) :
    ∃ sealedText, encrypt key salt content appId = .ok sealedText ∧
      decryptRaw key sealedText = .ok (salt.toBytes ++ bytes32 content.length ++ content ++
        Text.Utf8.encodeString appId) ∧
      (openSealed key sealedText).map (fun opened => (opened.content, opened.appId)) =
        .ok (content, appId) ∧
      (∀ other, decrypt key sealedText other =
        if appId = other then .ok content else .error .appIdMismatch) ∧
      ∃ sent, Base64.decode? sealedText.toList = some sent ∧ sent.length % 32 = 0 := by
  have hlength : content.length < 4294967296 := h
  obtain ⟨sent, hseal, hback, hmod, hne⟩ := exists_sent key salt appId hlength
  have hraw := decryptRaw_of_sent hne hback
  refine ⟨_, hseal, hraw, ?_, decrypt_of_decryptRaw hraw hlength, sent, ?_, hmod⟩
  · rw [openSealed_of_decryptRaw hraw hlength, Except.map, Opened.appId_encodeString]
  · rw [String.toList_ofList, Base64.decode?_encode]

/-- A payload for an app whose id is not ASCII is not for an app without an id. -/
theorem encryption_is_undone_for_its_app_accented : ∃ sealedText,
    encrypt (.filled 7) (.filled 1) [0x61, 0xFF] "é" = .ok sealedText ∧
    decrypt (.filled 7) sealedText "é" = .ok [0x61, 0xFF] ∧
    decrypt (.filled 7) sealedText "" = .error .appIdMismatch := by
  obtain ⟨sealedText, hseal, -, -, hdecrypt, -⟩ :=
    encryption_is_undone_for_its_app (.filled 7) (.filled 1) [0x61, 0xFF] (by decide) "é"
  exact ⟨sealedText, hseal, (hdecrypt "é").trans (if_pos rfl),
    (hdecrypt "").trans (if_neg (by decide))⟩

end Payload

end CallbackGateway
