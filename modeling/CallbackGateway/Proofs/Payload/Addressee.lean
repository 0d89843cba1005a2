import CallbackGateway.Proofs.Payload.WireForm

/-!
# The app that a payload is addressed to

The trailer of a payload names the app that it is for. It is compared as the text that it is shown
as. For an app id without replacement characters this is a comparison of bytes; where the app id
has one, a trailer that is no text can be shown as the app id, and is accepted too.
-/

namespace CallbackGateway.Payload

open Text

/-- Whether bytes that spell no text are shown as an app id. -/
def IsMistakenFor (trailer : Bytes) (appId : String) : Prop :=
  Utf8.decode? trailer = none ∧ Utf8.decodeLossy trailer = appId.toList

/-- Only app ids with replacement characters can be mistaken. -/
theorem IsMistakenFor.replacement_mem {trailer : Bytes} {appId : String}
    (h : IsMistakenFor trailer appId) : Utf8.replacement ∈ appId.toList := by
  rcases Utf8.decodeLossy_eq_iff.mp h.2 with htrailer | ⟨-, -, hmem⟩
  · have hnone := h.1
    rw [htrailer, Utf8.decode?_encode] at hnone
    cases hnone
  · exact hmem

/-- A trailer is reported as an app id if it is the bytes of the app id or mistaken for them. -/
theorem Opened.appId_eq_iff {content trailer : Bytes} {appId : String} :
    (Opened.mk content trailer).appId = appId ↔
      trailer = Utf8.encodeString appId ∨ IsMistakenFor trailer appId := by
  rw [Opened.appId, ← String.toList_inj, String.toList_ofList, Utf8.decodeLossy_eq_iff]
  exact or_congr_right ⟨fun h => ⟨h.1, h.2.1⟩, fun h => ⟨h.1, h.2, h.replacement_mem⟩⟩

section Decrypt

variable {key : Key} {sealedText appId : String} {salt : Aes.Block} {content trailer : Bytes}
  {count : Nat}

/-- The content of a wire form is given out if its trailer is reported as the app id. -/
theorem IsSealed.decrypt_eq_ok (h : IsSealed key sealedText salt content trailer count)
    (happ : trailer = Utf8.encodeString appId ∨ IsMistakenFor trailer appId) :
    decrypt key sealedText appId = .ok content := by
  rw [decrypt, h.openSealed]
  exact if_pos (Opened.appId_eq_iff.mpr happ)

/-- Every other trailer is a mismatch. -/
theorem IsSealed.decrypt_eq_error (h : IsSealed key sealedText salt content trailer count)
    (hbytes : trailer ≠ Utf8.encodeString appId) (hshown : ¬ IsMistakenFor trailer appId) :
    decrypt key sealedText appId = .error .appIdMismatch := by
  rw [decrypt, h.openSealed]
  exact if_neg fun happ => (Opened.appId_eq_iff.mp happ).elim hbytes hshown

/-- A text that does not have the wire form has no content. -/
theorem Fails.decrypt {error : PayloadError} (h : Fails key sealedText error) :
    Payload.decrypt key sealedText appId = .error error := by
  rw [Payload.decrypt, h.openSealed]
  rfl

end Decrypt

/-- A content is decrypted for an app just if the text is its wire form with a trailer that is the
bytes of the app id, or is mistaken for them; a wire form with any other trailer is a mismatch. No
trailer is mistaken for an app id without replacement characters. -/
theorem decrypted_payloads_name_their_app (key : Key) (sealedText appId : String) :
    (∀ content, decrypt key sealedText appId = .ok content ↔
      ∃ salt trailer count, IsSealed key sealedText salt content trailer count ∧
        (trailer = Utf8.encodeString appId ∨ IsMistakenFor trailer appId)) ∧
    (∀ salt content trailer count, IsSealed key sealedText salt content trailer count →
      (trailer = Utf8.encodeString appId → decrypt key sealedText appId = .ok content) ∧
      (trailer ≠ Utf8.encodeString appId →
        (decrypt key sealedText appId = .error .appIdMismatch ↔ ¬ IsMistakenFor trailer appId))) ∧
    ∀ trailer, IsMistakenFor trailer appId → Utf8.replacement ∈ appId.toList := by
  refine ⟨fun content => ⟨fun hok => ?_, ?_⟩, fun salt content trailer count h => ⟨?_, ?_⟩,
    fun trailer h => h.replacement_mem⟩
  · rcases fails_or_isSealed key sealedText with
      ⟨error, hfails⟩ | ⟨salt, content', trailer, count, h⟩
    · rw [hfails.decrypt] at hok
      cases hok
    · by_cases happ : trailer = Utf8.encodeString appId ∨ IsMistakenFor trailer appId
      · rw [h.decrypt_eq_ok happ] at hok
        obtain rfl := Except.ok.inj hok
        exact ⟨salt, trailer, count, h, happ⟩
      · obtain ⟨hbytes, hshown⟩ := not_or.mp happ
        rw [h.decrypt_eq_error hbytes hshown] at hok
        cases hok
  · rintro ⟨salt, trailer, count, h, happ⟩
    exact h.decrypt_eq_ok happ
  · exact fun hbytes => h.decrypt_eq_ok (.inl hbytes)
  · refine fun hbytes => ⟨fun herror hshown => ?_, h.decrypt_eq_error hbytes⟩
    rw [h.decrypt_eq_ok (.inr hshown)] at herror
    cases herror

/-- An app id with a letter of two bytes is told from its first byte alone. -/
theorem decrypted_payloads_name_their_app_accented : ∃ whole cut,
    IsSealed (.filled 7) whole (.filled 1) [0x61] [0xC3, 0xA9] 9 ∧
    IsSealed (.filled 7) cut (.filled 1) [0x61] [0xC3] 10 ∧
    decrypt (.filled 7) whole "é" = .ok [0x61] ∧
    decrypt (.filled 7) cut "é" = .error .appIdMismatch := by
  obtain ⟨whole, hwhole⟩ := exists_isSealed (.filled 7) (.filled 1) [0x61] [0xC3, 0xA9]
    (show 1 ≤ 9 by decide) (by decide) (by decide) (by decide)
  obtain ⟨cut, hcut⟩ := exists_isSealed (.filled 7) (.filled 1) [0x61] [0xC3]
    (show 1 ≤ 10 by decide) (by decide) (by decide) (by decide)
  obtain ⟨-, hwholeApp, -⟩ := decrypted_payloads_name_their_app (.filled 7) whole "é"
  obtain ⟨-, hcutApp, hmistaken⟩ := decrypted_payloads_name_their_app (.filled 7) cut "é"
  have hexact : ¬ IsMistakenFor [0xC3] "é" := fun h => absurd (hmistaken _ h) (by decide)
  exact ⟨whole, cut, hwhole, hcut, (hwholeApp _ _ _ _ hwhole).1 (by decide),
    ((hcutApp _ _ _ _ hcut).2 (by decide)).mpr hexact⟩

/-- A byte that starts no character is accepted for an app id that is one replacement character,
although the app id has three bytes. -/
theorem stray_byte_passes_for_replacement : ∃ sealedText,
    IsSealed (.filled 7) sealedText (.filled 1) [0x61] [0xFF] 10 ∧
    [0xFF] ≠ Utf8.encodeString "\uFFFD" ∧
    decrypt (.filled 7) sealedText "\uFFFD" = .ok [0x61] := by
  obtain ⟨sealedText, h⟩ := exists_isSealed (.filled 7) (.filled 1) [0x61] [0xFF]
    (show 1 ≤ 10 by decide) (by decide) (by decide) (by decide)
  have hmistaken : IsMistakenFor [0xFF] "\uFFFD" := ⟨by decide, by decide⟩
  exact ⟨sealedText, h, by decide, h.decrypt_eq_ok (.inr hmistaken)⟩

end CallbackGateway.Payload
