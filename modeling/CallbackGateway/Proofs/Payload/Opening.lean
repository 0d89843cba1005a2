import CallbackGateway.Proofs.Aes.Permutation
import CallbackGateway.Proofs.Payload.Canonical
import CallbackGateway.Proofs.Payload.RoundTrip

/-!
# What opens as a payload

A text opens exactly if it is the canonical base64 of the encryption of a padded frame, and then
the frame and its padding are unique. Every other text fails at the first layer that does not have
its form, and the error names this layer. Each layer has one lemma that says what it takes and one
that says what it refuses.
-/

namespace CallbackGateway

namespace Aes

/-- Joined blocks have sixteen bytes each. -/
theorem Block.length_join (blocks : List Block) : (join blocks).length = 16 * blocks.length := by
  simp only [join, List.length_flatMap, toBytes_length, List.map_const', List.sum_replicate_nat,
    Nat.mul_comm]

/-- Bytes are cut into the blocks that they consist of. -/
theorem Block.split?_eq_some_iff {bytes : Bytes} {blocks : List Block} :
    split? bytes = some blocks ↔ bytes = join blocks := by
  constructor
  · intro h
    fun_induction split? bytes generalizing blocks with
    | case1 =>
      obtain rfl := Option.some.inj h
      rfl
    | case2 b0 b1 b2 b3 b4 b5 b6 b7 b8 b9 b10 b11 b12 b13 b14 b15 rest ih =>
      obtain ⟨others, hothers, rfl⟩ := Option.map_eq_some_iff.mp h
      simp [join, toBytes, Column.toBytes, ih hothers]
    | case3 => simp at h
  · rintro rfl
    exact split?_join blocks

/-- The bytes of a block determine it. -/
theorem Block.toBytes_injective {x y : Block} (h : x.toBytes = y.toBytes) : x = y := by
  have hjoin : join [x] = join [y] := by simpa [join] using h
  have hsplit := congrArg split? hjoin
  rw [split?_join, split?_join] at hsplit
  exact (List.cons.inj (Option.some.inj hsplit)).1

end Aes

namespace Payload

/-! ## Blocks -/

section Blocks

variable {key : Key} {plain sent : Bytes}

/-- Bytes are encrypted if and only if they are decrypted from what is sent. -/
theorem Key.decryptBytes?_eq_some_iff :
    key.decryptBytes? sent = some plain ↔ key.encryptBytes? plain = some sent := by
  simp only [decryptBytes?, encryptBytes?, Option.map_eq_some_iff, Aes.Block.split?_eq_some_iff]
  constructor
  · rintro ⟨blocks, rfl, rfl⟩
    exact ⟨_, rfl, by rw [Aes.encryptChain_decryptChain _ _ key.schedule.encrypt_decrypt]⟩
  · rintro ⟨blocks, rfl, rfl⟩
    exact ⟨_, rfl, by rw [Aes.decryptChain_encryptChain _ _ key.schedule.decrypt_encrypt]⟩

/-- Only bytes that are no whole blocks are not decrypted. -/
theorem Key.decryptBytes?_eq_none_iff : key.decryptBytes? sent = none ↔ sent.length % 16 ≠ 0 := by
  rw [decryptBytes?, Option.map_eq_none_iff]
  constructor
  · intro hnone hmod
    obtain ⟨blocks, hblocks, -⟩ := Aes.Block.exists_split? hmod
    rw [hnone] at hblocks
    cases hblocks
  · intro hmod
    rw [Option.eq_none_iff_forall_ne_some]
    intro blocks hblocks
    obtain rfl := Aes.Block.split?_eq_some_iff.mp hblocks
    rw [Aes.Block.length_join, Nat.mul_mod_right] at hmod
    exact hmod rfl

/-- Different bytes are encrypted differently. -/
theorem Key.encryptBytes?_injective {other : Bytes} (h : key.encryptBytes? plain = some sent)
    (hother : key.encryptBytes? other = some sent) : plain = other := by
  rw [← decryptBytes?_eq_some_iff] at h hother
  exact Option.some.inj (h.symm.trans hother)

/-- Encrypted bytes are as many as the plain ones, and make whole blocks. -/
theorem Key.length_of_encryptBytes? (h : key.encryptBytes? plain = some sent) :
    plain.length = sent.length ∧ plain.length % 16 = 0 := by
  obtain ⟨blocks, hblocks, rfl⟩ := Option.map_eq_some_iff.mp h
  obtain rfl := Aes.Block.split?_eq_some_iff.mp hblocks
  simp only [Aes.Block.length_join, Aes.encryptChain_length, Nat.mul_mod_right, and_self]

end Blocks

/-! ## Padding -/

/-- Whether the last byte is zero, above 32 or above the number of bytes, or is not repeated as
often as it says. -/
def IsMispadded (bytes : Bytes) : Prop :=
  ∀ last ∈ bytes.getLast?, last.toNat = 0 ∨ 32 < last.toNat ∨ bytes.length < last.toNat ∨
    ¬ List.replicate last.toNat last <:+ bytes

section Padding

variable {bytes kept : Bytes}

/-- What padding is taken off is padding of one to thirty-two bytes. -/
theorem unpad_eq_ok_iff : unpad bytes = .ok kept ↔
    ∃ count, 1 ≤ count ∧ count ≤ 32 ∧ bytes = kept ++ padding count := by
  constructor
  · intro h
    unfold unpad at h
    split at h
    · cases h
    rename_i last hlast
    dsimp only at h
    split at h
    · cases h
    rename_i hcount
    split at h
    · rename_i hall
      obtain rfl := Except.ok.inj h
      rw [padUnit] at hcount
      refine ⟨last.toNat, by omega, by omega, ?_⟩
      have hrepeated : bytes.drop (bytes.length - last.toNat) = padding last.toNat := by
        rw [padding, UInt8.ofNat_toNat, List.eq_replicate_iff]
        refine ⟨by rw [List.length_drop]; omega, fun b hb => ?_⟩
        exact beq_iff_eq.mp (List.all_eq_true.mp hall b hb)
      rw [← hrepeated, List.take_append_drop]
    · cases h
  · rintro ⟨count, hpos, hle, rfl⟩
    exact unpad_append_padding kept hpos hle

/-- Padding that is well formed is some bytes of their own number. -/
theorem not_isMispadded_iff :
    ¬ IsMispadded bytes ↔ ∃ kept count, 1 ≤ count ∧ count ≤ 32 ∧ bytes = kept ++ padding count := by
  constructor
  · intro h
    simp only [IsMispadded, Option.mem_def, not_forall, not_or, not_not] at h
    obtain ⟨last, -, hpos, hle, -, kept, rfl⟩ := h
    refine ⟨kept, last.toNat, by omega, by omega, ?_⟩
    rw [padding, UInt8.ofNat_toNat]
  · rintro ⟨kept, count, hpos, hle, rfl⟩ h
    have hcount := toNat_ofNat_count hle
    have hlast := h _ (getLast?_append_padding kept hpos)
    rw [hcount, List.length_append, length_padding] at hlast
    rcases hlast with hzero | hlarge | hlong | hrepeated
    · omega
    · omega
    · omega
    · exact hrepeated (List.suffix_append kept _)

/-- Padding that is malformed is refused. -/
theorem unpad_of_isMispadded (h : IsMispadded bytes) : unpad bytes = .error .padding := by
  cases hunpad : unpad bytes with
  | ok kept =>
    obtain ⟨count, hpos, hle, rfl⟩ := unpad_eq_ok_iff.mp hunpad
    exact absurd h (not_isMispadded_iff.mpr ⟨kept, count, hpos, hle, rfl⟩)
  | error error =>
    unfold unpad at hunpad
    split at hunpad
    · exact hunpad.symm
    dsimp only at hunpad
    split at hunpad
    · exact hunpad.symm
    split at hunpad
    · cases hunpad
    · exact hunpad.symm

/-- The padding of bytes is found in one way. -/
theorem append_padding_injective {first second : Bytes} {count other : Nat} (hpos : 1 ≤ count)
    (hle : count ≤ 32) (hother : 1 ≤ other) (hothers : other ≤ 32)
    (h : first ++ padding count = second ++ padding other) : first = second ∧ count = other := by
  have hlast := congrArg List.getLast? h
  rw [getLast?_append_padding first hpos, getLast?_append_padding second hother,
    Option.some.injEq] at hlast
  have hcount := congrArg UInt8.toNat hlast
  rw [toNat_ofNat_count hle, toNat_ofNat_count hothers] at hcount
  subst hcount
  exact ⟨List.append_cancel_right h, rfl⟩

end Padding

/-! ## Frames -/

/-- Four bytes are the bytes of the number that they spell. -/
theorem bytes32_number32 (a b c d : UInt8) :
    number32 a b c d < 4294967296 ∧ bytes32 (number32 a b c d) = [a, b, c, d] := by
  have ha := a.toNat_lt
  have hb := b.toNat_lt
  have hc := c.toNat_lt
  have hd := d.toNat_lt
  have hparts : number32 a b c d / 16777216 = a.toNat ∧ number32 a b c d / 65536 % 256 = b.toNat ∧
      number32 a b c d / 256 % 256 = c.toNat ∧ number32 a b c d % 256 = d.toNat := by
    rw [number32]
    omega
  obtain ⟨h1, h2, h3, h4⟩ := hparts
  refine ⟨by rw [number32]; omega, ?_⟩
  rw [bytes32, h1, h2, h3, h4]
  simp only [UInt8.ofNat_toNat]

/-- Sixteen bytes are a block. -/
theorem exists_block {bytes : Bytes} (h : bytes.length = 16) :
    ∃ block : Aes.Block, block.toBytes = bytes := by
  obtain ⟨blocks, -, rfl⟩ := Aes.Block.exists_split? (show bytes.length % 16 = 0 by omega)
  rw [Aes.Block.length_join] at h
  obtain ⟨block, rfl⟩ := List.length_eq_one_iff.mp (show blocks.length = 1 by omega)
  exact ⟨block, by simp [Aes.Block.join]⟩

/-- Bytes that have room for it start with a salt and the bytes of a number. -/
theorem exists_salt_number {plain : Bytes} (h : 20 ≤ plain.length) :
    ∃ (salt : Aes.Block) (declared : Nat) (rest : Bytes), declared < 4294967296 ∧
      plain = salt.toBytes ++ bytes32 declared ++ rest := by
  have hfirst : (plain.take 16).length = 16 := by
    rw [List.length_take]
    omega
  obtain ⟨salt, hsalt⟩ := exists_block hfirst
  have hrest : 4 ≤ (plain.drop 16).length := by
    rw [List.length_drop]
    omega
  obtain ⟨a, b, c, d, rest, hcons⟩ : ∃ a b c d rest, plain.drop 16 = a :: b :: c :: d :: rest := by
    rcases hcons : plain.drop 16 with _ | ⟨a, _ | ⟨b, _ | ⟨c, _ | ⟨d, rest⟩⟩⟩⟩
    case cons.cons.cons.cons => exact ⟨a, b, c, d, rest, rfl⟩
    all_goals simp [hcons] at hrest
  obtain ⟨hlt, hbytes⟩ := bytes32_number32 a b c d
  refine ⟨salt, number32 a b c d, rest, hlt, ?_⟩
  rw [hsalt, hbytes, List.append_assoc, List.cons_append, List.cons_append, List.cons_append,
    List.cons_append, List.nil_append, ← hcons, List.take_append_drop]

/-- Bytes without room for a salt and a number are refused. -/
theorem unframe_of_short {plain : Bytes} (h : plain.length < 20) :
    unframe plain = .error (.truncated plain.length) := by
  have hrest : (plain.drop 16).length < 4 := by
    rw [List.length_drop]
    omega
  rw [unframe]
  split
  · rename_i hcons
    rw [hcons] at hrest
    simp only [List.length_cons] at hrest
    omega
  · rfl

/-- What follows a salt and a number is cut at the number. -/
theorem unframe_salt_number (salt : Aes.Block) {declared : Nat} (h : declared < 4294967296)
    (rest : Bytes) : unframe (salt.toBytes ++ bytes32 declared ++ rest) =
      if rest.length < declared then .error (.lengthField declared rest.length)
      else .ok ⟨rest.take declared, rest.drop declared⟩ := by
  have hdrop : (salt.toBytes ++ bytes32 declared ++ rest).drop 16 = bytes32 declared ++ rest := by
    rw [List.append_assoc, List.drop_append_of_le_length (by simp),
      List.drop_of_length_le (by simp), List.nil_append]
  rw [unframe, hdrop, bytes32]
  dsimp only [List.cons_append, List.nil_append]
  rw [number32_bytes32 _ h]

end Payload

end CallbackGateway
