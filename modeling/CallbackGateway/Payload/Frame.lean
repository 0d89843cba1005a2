import CallbackGateway.Payload.Error

/-!
# Payload frames

The plain bytes of a payload: a salt of one block, the length of the content as four bytes, the
content, the app id, and padding to a multiple of 32 bytes.
-/

namespace CallbackGateway.Payload

/-- Padded frames are a multiple of this many bytes long. -/
def padUnit : Nat := 32

/-- A number below 2^32 as four bytes, the most significant first. -/
def bytes32 (n : Nat) : Bytes :=
  [UInt8.ofNat (n / 16777216), UInt8.ofNat (n / 65536 % 256), UInt8.ofNat (n / 256 % 256),
    UInt8.ofNat (n % 256)]

/-- The number that four bytes spell. -/
def number32 (a b c d : UInt8) : Nat :=
  a.toNat * 16777216 + b.toNat * 65536 + c.toNat * 256 + d.toNat

/-- The unpadded frame of a content. -/
def frame (salt : Aes.Block) (content trailer : Bytes) : Bytes :=
  salt.toBytes ++ bytes32 content.length ++ content ++ trailer

/-- The number of padding bytes that a frame takes, from 1 to 32. -/
def padCount (length : Nat) : Nat := padUnit - length % padUnit

/-- Pad a frame; every padding byte holds their number. -/
def pad (bytes : Bytes) : Bytes :=
  bytes ++ List.replicate (padCount bytes.length) (UInt8.ofNat (padCount bytes.length))

/-- Take the padding off. -/
def unpad (bytes : Bytes) : Except PayloadError Bytes :=
  match bytes.getLast? with
  | none => .error .padding
  | some last =>
    let count := last.toNat
    if count = 0 ∨ padUnit < count ∨ bytes.length < count then .error .padding
    else
      let kept := bytes.length - count
      if (bytes.drop kept).all (· == last) then .ok (bytes.take kept) else .error .padding

/-- The content of a frame and the bytes after it. -/
structure Opened where
  content : Bytes
  trailer : Bytes
  deriving DecidableEq, Repr

/-- The app id that a trailer shows. -/
def Opened.appId (opened : Opened) : String := String.ofList (Text.Utf8.decodeLossy opened.trailer)

/-- Read an unpadded frame. -/
def unframe (plain : Bytes) : Except PayloadError Opened :=
  match plain.drop 16 with
  | a :: b :: c :: d :: rest =>
    let declared := number32 a b c d
    if rest.length < declared then .error (.lengthField declared rest.length)
    else .ok ⟨rest.take declared, rest.drop declared⟩
  | _ => .error (.truncated plain.length)

/-- Four bytes spell the number they were written for. -/
theorem number32_bytes32 (n : Nat) (h : n < 4294967296) :
    number32 (UInt8.ofNat (n / 16777216)) (UInt8.ofNat (n / 65536 % 256))
      (UInt8.ofNat (n / 256 % 256)) (UInt8.ofNat (n % 256)) = n := by
  simp only [number32, UInt8.toNat_ofNat']
  omega

/-- A padded frame is a multiple of 32 bytes long. -/
theorem pad_length_mod (bytes : Bytes) : (pad bytes).length % padUnit = 0 := by
  simp only [pad, padCount, padUnit, List.length_append, List.length_replicate]
  omega

end CallbackGateway.Payload
