import CallbackGateway.Proofs.Payload.Reads

/-!
# The wire form of payloads

A text opens as a payload if and only if, up to the blank characters around it, it is the canonical
base64 of an encrypted frame with padding of one to thirty-two bytes. The salt, the content, the
trailer and the padding of such a text are unique. Every other text fails at the first stage whose
form it does not have: letters, blocks, padding, room for salt and length, and length. The stages
are described by what is written, so that opening is compared with writing and not with itself.
-/

namespace CallbackGateway.Payload

/-- Whether a text is the canonical base64 of some plain bytes, encrypted in at least one block. -/
def IsSent (key : Key) (sealedText : String) (plain : Bytes) : Prop :=
  0 < plain.length ∧ plain.length % 16 = 0 ∧ ∃ sent, key.encryptBytes? plain = some sent ∧
    Text.trim sealedText.toList = Base64.encode sent

/-- Whether a text is the wire form of a content with a salt, a trailer and padding. -/
structure IsSealed (key : Key) (sealedText : String) (salt : Aes.Block) (content trailer : Bytes)
    (count : Nat) : Prop where
  count_pos : 1 ≤ count
  count_le : count ≤ 32
  /-- The length of the content is written as four bytes. -/
  fits : content.length < 2 ^ 32
  sent : IsSent key sealedText (salt.toBytes ++ bytes32 content.length ++ content ++ trailer ++
    List.replicate count (UInt8.ofNat count))

/-- The first stage at which a text fails to be the wire form of a payload. -/
inductive Fails (key : Key) (sealedText : String) : PayloadError → Prop
  /-- The text is no canonical base64. -/
  | base64 (h : ∀ sent, Text.trim sealedText.toList ≠ Base64.encode sent) :
      Fails key sealedText .base64
  /-- The bytes are no whole blocks, or none at all. -/
  | blockLength {sent : Bytes} (htext : Text.trim sealedText.toList = Base64.encode sent)
      (h : sent.length = 0 ∨ sent.length % 16 ≠ 0) :
      Fails key sealedText (.blockLength sent.length)
  /-- The last byte does not count equal bytes at the end. -/
  | padding {plain : Bytes} (hsent : IsSent key sealedText plain) (h : IsMispadded plain) :
      Fails key sealedText .padding
  /-- In front of the padding there is no room for the salt and the length. -/
  | truncated {kept : Bytes} {count : Nat} (hpos : 1 ≤ count) (hle : count ≤ 32)
      (hsent : IsSent key sealedText (kept ++ List.replicate count (UInt8.ofNat count)))
      (h : kept.length < 20) : Fails key sealedText (.truncated kept.length)
  /-- The length is larger than what is left. -/
  | lengthField {salt : Aes.Block} {declared : Nat} {rest : Bytes} {count : Nat}
      (hpos : 1 ≤ count) (hle : count ≤ 32) (hdeclared : declared < 2 ^ 32)
      (hsent : IsSent key sealedText (salt.toBytes ++ bytes32 declared ++ rest ++
        List.replicate count (UInt8.ofNat count)))
      (h : rest.length < declared) : Fails key sealedText (.lengthField declared rest.length)

variable {key : Key} {sealedText : String} {salt : Aes.Block} {plain content trailer : Bytes}
  {count : Nat}

/-! ## Opening a stage -/

/-- What was sent is decrypted, and its padding is taken off. -/
theorem IsSent.decryptRaw (h : IsSent key sealedText plain) :
    decryptRaw key sealedText = unpad plain := by
  obtain ⟨hpos, -, sent, hsent, htext⟩ := h
  have hlength := Key.length_of_encryptBytes? hsent
  rw [Payload.decryptRaw, Base64.decode?_eq_some_iff.mpr htext]
  cases sent with
  | nil =>
    rw [hlength.1] at hpos
    simp at hpos
  | cons b rest =>
    dsimp only
    rw [Key.decryptBytes?_eq_some_iff.mpr hsent]

/-- What was sent with padding is read as a frame. -/
theorem IsSent.openSealed (h : IsSent key sealedText (plain ++ padding count)) (hpos : 1 ≤ count)
    (hle : count ≤ 32) : openSealed key sealedText = unframe plain := by
  rw [Payload.openSealed, h.decryptRaw, unpad_append_padding plain hpos hle]
  rfl

/-- Two plain bytes behind one text are the same. -/
theorem IsSent.unique {other : Bytes} (h : IsSent key sealedText plain)
    (hother : IsSent key sealedText other) : plain = other := by
  obtain ⟨-, -, sent, hsent, htext⟩ := h
  obtain ⟨-, -, sent', hsent', htext'⟩ := hother
  obtain rfl := Base64.encode_injective (htext.symm.trans htext')
  exact Key.encryptBytes?_injective hsent hsent'

/-- A wire form opens as its content and trailer. -/
theorem IsSealed.openSealed (h : IsSealed key sealedText salt content trailer count) :
    openSealed key sealedText = .ok ⟨content, trailer⟩ := by
  rw [h.sent.openSealed h.count_pos h.count_le]
  exact unframe_frame salt content trailer h.fits

/-- A failure at a stage is the error of opening. -/
theorem Fails.openSealed {error : PayloadError} (h : Fails key sealedText error) :
    openSealed key sealedText = .error error := by
  cases h with
  | base64 h =>
    have hnone : Base64.decode? (Text.trim sealedText.toList) = none := by
      rw [Option.eq_none_iff_forall_ne_some]
      exact fun sent hsent => h sent (Base64.decode?_eq_some_iff.mp hsent)
    rw [Payload.openSealed, Payload.decryptRaw, hnone]
    rfl
  | @blockLength sent htext h =>
    rw [Payload.openSealed, Payload.decryptRaw, Base64.decode?_eq_some_iff.mpr htext]
    cases sent with
    | nil => rfl
    | cons b rest =>
      have hnone : key.decryptBytes? (b :: rest) = none :=
        Key.decryptBytes?_eq_none_iff.mpr (h.resolve_left (by simp))
      dsimp only
      rw [hnone]
      rfl
  | padding hsent h =>
    rw [Payload.openSealed, hsent.decryptRaw, unpad_of_isMispadded h]
    rfl
  | truncated hpos hle hsent h =>
    rw [hsent.openSealed hpos hle, unframe_of_short h]
  | lengthField hpos hle hdeclared hsent h =>
    rw [hsent.openSealed hpos hle, unframe_salt_number _ hdeclared, if_pos h]

/-! ## Every text -/

/-- A text is no base64, or not of whole blocks, or it was sent. -/
theorem fails_or_isSent (key : Key) (sealedText : String) :
    (∃ error, Fails key sealedText error) ∨ ∃ plain, IsSent key sealedText plain := by
  cases hdecode : Base64.decode? (Text.trim sealedText.toList) with
  | none =>
    refine .inl ⟨_, .base64 fun sent hsent => ?_⟩
    rw [Base64.decode?_eq_some_iff.mpr hsent] at hdecode
    cases hdecode
  | some sent =>
    have htext := Base64.decode?_eq_some_iff.mp hdecode
    by_cases hlength : sent.length = 0 ∨ sent.length % 16 ≠ 0
    · exact .inl ⟨_, .blockLength htext hlength⟩
    · rw [not_or, not_not] at hlength
      obtain ⟨plain, hplain⟩ := Option.ne_none_iff_exists'.mp fun hnone =>
        Key.decryptBytes?_eq_none_iff.mp hnone hlength.2
      have hsent := Key.decryptBytes?_eq_some_iff.mp hplain
      obtain ⟨hsame, hmod⟩ := Key.length_of_encryptBytes? hsent
      exact .inr ⟨plain, by omega, hmod, sent, hsent, htext⟩

/-- A text has the wire form of a payload, or there is a first stage at which it fails. -/
theorem fails_or_isSealed (key : Key) (sealedText : String) :
    (∃ error, Fails key sealedText error) ∨
      ∃ salt content trailer count, IsSealed key sealedText salt content trailer count := by
  -- One stage after the other either fails or shows the form of what the next one is given.
  rcases fails_or_isSent key sealedText with hfails | ⟨plain, hsent⟩
  · exact .inl hfails
  by_cases hpadding : IsMispadded plain
  · exact .inl ⟨_, .padding hsent hpadding⟩
  obtain ⟨kept, count, hpos, hle, rfl⟩ := not_isMispadded_iff.mp hpadding
  by_cases hshort : kept.length < 20
  · exact .inl ⟨_, .truncated hpos hle hsent hshort⟩
  obtain ⟨salt, declared, rest, hdeclared, rfl⟩ := exists_salt_number (Nat.le_of_not_lt hshort)
  by_cases hlength : rest.length < declared
  · exact .inl ⟨_, .lengthField hpos hle hdeclared hsent hlength⟩
  · have hcontent : (rest.take declared).length = declared := by
      rw [List.length_take]
      omega
    refine .inr ⟨salt, rest.take declared, rest.drop declared, count, hpos, hle, ?_, ?_⟩
    · rwa [hcontent]
    · rwa [hcontent, List.append_assoc _ (rest.take declared), List.take_append_drop]

/-- The parts of a wire form are unique. -/
theorem IsSealed.unique {salt' : Aes.Block} {content' trailer' : Bytes} {count' : Nat}
    (h : IsSealed key sealedText salt content trailer count)
    (hother : IsSealed key sealedText salt' content' trailer' count') :
    salt' = salt ∧ content' = content ∧ trailer' = trailer ∧ count' = count := by
  have hopened := Except.ok.inj (hother.openSealed.symm.trans h.openSealed)
  obtain ⟨rfl, rfl⟩ := Opened.mk.inj hopened
  obtain ⟨hframe, rfl⟩ := append_padding_injective hother.count_pos hother.count_le h.count_pos
    h.count_le (hother.sent.unique h.sent)
  simp only [List.append_assoc] at hframe
  have hsalt := Aes.Block.toBytes_injective (List.append_inj_left hframe rfl)
  exact ⟨hsalt, rfl, rfl, rfl⟩

/-- Every padded frame of whole blocks has a wire form. -/
theorem exists_isSealed (key : Key) (salt : Aes.Block) (content trailer : Bytes) {count : Nat}
    (hpos : 1 ≤ count) (hle : count ≤ 32) (hfits : content.length < 2 ^ 32)
    (hblocks : (content.length + trailer.length + count + 20) % 16 = 0) :
    ∃ sealedText, IsSealed key sealedText salt content trailer count := by
  have hlength : (salt.toBytes ++ bytes32 content.length ++ content ++ trailer ++
      List.replicate count (UInt8.ofNat count)).length =
      content.length + trailer.length + count + 20 := by
    simp only [List.length_append, Aes.Block.toBytes_length, List.length_replicate, bytes32,
      List.length_cons, List.length_nil]
    omega
  obtain ⟨sent, hsent, -, -⟩ := key.exists_encryptBytes? (by rwa [hlength])
  refine ⟨String.ofList (Base64.encode sent), hpos, hle, hfits, by omega, by rwa [hlength], sent,
    hsent, ?_⟩
  rw [String.toList_ofList, Text.trim_encode]

/-- The parser accepts exactly the wire form. A text opens with a content if and only if it is the
wire form of this content; the salt, the trailer and the padding are then unique, and the app id
that is reported is what the trailer shows. On every other text the first stage that fails gives the
error, and no read or cut of opening is ever out of range. -/
theorem opens_exactly_wire_forms (key : Key) (sealedText : String) :
    (∀ content, (∃ opened, openSealed key sealedText = .ok opened ∧ opened.content = content) ↔
      ∃ salt trailer count, IsSealed key sealedText salt content trailer count) ∧
    (∀ salt content trailer count, IsSealed key sealedText salt content trailer count →
      (openSealed key sealedText).map (fun opened => (opened.content, opened.appId)) =
        .ok (content, String.ofList (Text.Utf8.decodeLossy trailer)) ∧
      ∀ salt' content' trailer' count', IsSealed key sealedText salt' content' trailer' count' →
        salt' = salt ∧ content' = content ∧ trailer' = trailer ∧ count' = count) ∧
    (∀ error, openSealed key sealedText = .error error ↔ Fails key sealedText error) ∧
    openWithin? key sealedText = some (openSealed key sealedText) := by
  refine ⟨fun content => ⟨?_, ?_⟩, fun salt content trailer count h => ⟨?_, ?_⟩,
    fun error => ⟨?_, Fails.openSealed⟩, openWithin?_eq key sealedText⟩
  · rintro ⟨opened, hopened, rfl⟩
    rcases fails_or_isSealed key sealedText with
      ⟨error, hfails⟩ | ⟨salt, content, trailer, count, h⟩
    · rw [hfails.openSealed] at hopened
      cases hopened
    · rw [h.openSealed] at hopened
      obtain rfl := Except.ok.inj hopened
      exact ⟨salt, trailer, count, h⟩
  · rintro ⟨salt, trailer, count, h⟩
    exact ⟨_, h.openSealed, rfl⟩
  · rw [h.openSealed]
    rfl
  · exact fun salt' content' trailer' count' hother => h.unique hother
  · intro herror
    rcases fails_or_isSealed key sealedText with
      ⟨error', hfails⟩ | ⟨salt, content, trailer, count, h⟩
    · rw [hfails.openSealed] at herror
      obtain rfl := Except.error.inj herror
      exact hfails
    · rw [h.openSealed] at herror
      cases herror

/-- A frame of one and a half pairs of blocks is accepted, although it is never written. -/
theorem opens_exactly_wire_forms_half_pair : ∃ sealedText,
    IsSealed (.filled 7) sealedText (.filled 1) [0x61, 0xFF] [0xC3, 0xA9] 24 ∧
    (openSealed (.filled 7) sealedText).map (fun opened => (opened.content, opened.appId)) =
      .ok ([0x61, 0xFF], "é") := by
  obtain ⟨sealedText, h⟩ := exists_isSealed (.filled 7) (.filled 1) [0x61, 0xFF] [0xC3, 0xA9]
    (show 1 ≤ 24 by decide) (by decide) (by decide) (by decide)
  have happ : String.ofList (Text.Utf8.decodeLossy [0xC3, 0xA9]) = "é" := by decide
  exact ⟨sealedText, h, happ ▸ ((opens_exactly_wire_forms _ sealedText).2.1 _ _ _ _ h).1⟩

end CallbackGateway.Payload
