import CallbackGateway.Proofs.Payload.Opening

/-!
# Reads inside their bounds

Opening a payload once more, with operations that can fail: bytes are cut only at a position that
they have, a number is read only from four bytes, and nothing is taken from a smaller number.
Every operation is guarded by a check in front of it, so none of them ever fails, and what comes
out is what opening comes to.
-/

namespace CallbackGateway.Payload

/-- The difference of two numbers; none if it would be negative. -/
def difference? (a b : Nat) : Option Nat := if b ≤ a then some (a - b) else none

/-- The bytes before and after a position; none if the position lies beyond the end. -/
def cut? (position : Nat) (bytes : Bytes) : Option (Bytes × Bytes) :=
  if position ≤ bytes.length then some (bytes.take position, bytes.drop position) else none

/-- The number in the first four bytes, and the bytes after it; none if there are fewer. -/
def leading32? : Bytes → Option (Nat × Bytes)
  | a :: b :: c :: d :: rest => some (number32 a b c d, rest)
  | _ => none

/-- Take the padding off; none if an operation leaves its bounds. -/
def unpadWithin? (bytes : Bytes) : Option (Except PayloadError Bytes) :=
  match bytes.getLast? with
  | none => some (.error .padding)
  | some last =>
    if last.toNat = 0 ∨ padUnit < last.toNat ∨ bytes.length < last.toNat then
      some (.error .padding)
    else do
      let position ← difference? bytes.length last.toNat
      let (kept, padding) ← cut? position bytes
      return if padding.all (· == last) then .ok kept else .error .padding

/-- Read what follows the salt of a frame; none if an operation leaves its bounds. -/
def contentWithin? (afterSalt : Bytes) : Option (Except PayloadError Opened) := do
  let (declared, rest) ← leading32? afterSalt
  if rest.length < declared then
    return .error (.lengthField declared rest.length)
  else
    let (content, trailer) ← cut? declared rest
    return .ok ⟨content, trailer⟩

/-- Read an unpadded frame; none if an operation leaves its bounds. -/
def unframeWithin? (plain : Bytes) : Option (Except PayloadError Opened) :=
  if plain.length < 16 + 4 then some (.error (.truncated plain.length))
  else (cut? 16 plain).bind fun (_, afterSalt) => contentWithin? afterSalt

/-- Open a sealed payload; none if an operation leaves its bounds. -/
def openWithin? (key : Key) (sealedText : String) : Option (Except PayloadError Opened) :=
  match Base64.decode? (Text.trim sealedText.toList) with
  | none => some (.error .base64)
  | some sent =>
    if sent.length = 0 ∨ sent.length % 16 ≠ 0 then some (.error (.blockLength sent.length))
    else do
      let padded ← key.decryptBytes? sent
      match ← unpadWithin? padded with
      | .error error => return .error error
      | .ok plain => unframeWithin? plain

/-- Bytes are cut at a position within them. -/
theorem cut?_eq_some {bytes : Bytes} {position : Nat} (h : position ≤ bytes.length) :
    cut? position bytes = some (bytes.take position, bytes.drop position) := if_pos h

/-- Taking the padding off stays within the bytes. -/
theorem unpadWithin?_eq (bytes : Bytes) : unpadWithin? bytes = some (unpad bytes) := by
  unfold unpadWithin? unpad
  cases bytes.getLast? with
  | none => rfl
  | some last =>
    dsimp only
    split
    · rfl
    · rename_i hcount
      have hdifference : difference? bytes.length last.toNat = some (bytes.length - last.toNat) :=
        if_pos (by omega)
      have hcut := cut?_eq_some (Nat.sub_le bytes.length last.toNat)
      simp only [hdifference, hcut, Option.bind_eq_bind, Option.bind_some, Option.pure_def]

/-- A salt is cut off where it ends. -/
theorem cut?_toBytes_append (salt : Aes.Block) (rest : Bytes) :
    cut? 16 (salt.toBytes ++ rest) = some (salt.toBytes, rest) := by
  rw [cut?_eq_some (by rw [List.length_append, salt.toBytes_length]; omega),
    ← salt.toBytes_length, List.take_left, List.drop_left]

/-- A number of four bytes is read as it was written. -/
theorem leading32?_bytes32_append {n : Nat} (h : n < 4294967296) (rest : Bytes) :
    leading32? (bytes32 n ++ rest) = some (n, rest) := by
  have hread : leading32? (bytes32 n ++ rest) = some (number32 (UInt8.ofNat (n / 16777216))
      (UInt8.ofNat (n / 65536 % 256)) (UInt8.ofNat (n / 256 % 256)) (UInt8.ofNat (n % 256)),
      rest) := rfl
  rw [hread, number32_bytes32 n h]

/-- A content is cut off behind its length, or the length is too large. -/
theorem contentWithin?_eq {afterSalt rest : Bytes} {declared : Nat}
    (hnumber : leading32? afterSalt = some (declared, rest)) : contentWithin? afterSalt =
      some (if rest.length < declared then .error (.lengthField declared rest.length)
      else .ok ⟨rest.take declared, rest.drop declared⟩) := by
  simp only [contentWithin?, Option.bind_eq_bind, Option.bind_some, hnumber]
  split
  · rfl
  · rename_i hfits
    rw [cut?_eq_some (Nat.le_of_not_lt hfits)]
    rfl

/-- Reading a frame stays within the bytes. -/
theorem unframeWithin?_eq (plain : Bytes) : unframeWithin? plain = some (unframe plain) := by
  by_cases hshort : plain.length < 20
  · rw [unframe_of_short hshort, unframeWithin?, if_pos hshort]
  · rw [unframeWithin?, if_neg hshort]
    obtain ⟨salt, declared, rest, hdeclared, rfl⟩ := exists_salt_number (Nat.le_of_not_lt hshort)
    rw [unframe_salt_number salt hdeclared, List.append_assoc, cut?_toBytes_append,
      Option.bind_some]
    exact contentWithin?_eq (leading32?_bytes32_append hdeclared rest)

/-- Opening stays within the bytes: no operation of it ever fails. -/
theorem openWithin?_eq (key : Key) (sealedText : String) :
    openWithin? key sealedText = some (openSealed key sealedText) := by
  unfold openWithin? openSealed decryptRaw
  cases Base64.decode? (Text.trim sealedText.toList) with
  | none => rfl
  | some sent =>
    cases sent with
    | nil => rfl
    | cons b rest =>
      dsimp only
      split
      · rename_i hlength
        have hnone : key.decryptBytes? (b :: rest) = none :=
          Key.decryptBytes?_eq_none_iff.mpr (hlength.resolve_left (by simp))
        rw [hnone]
        rfl
      · rename_i hlength
        obtain ⟨padded, hpadded⟩ := Option.ne_none_iff_exists'.mp fun hnone =>
          hlength (.inr (Key.decryptBytes?_eq_none_iff.mp hnone))
        rw [hpadded]
        simp only [Option.bind_eq_bind, Option.bind_some, unpadWithin?_eq]
        cases unpad padded with
        | error error => rfl
        | ok plain => exact unframeWithin?_eq plain

end CallbackGateway.Payload
