import CallbackGateway.Aes.Cipher
import CallbackGateway.Base64
import CallbackGateway.Text.Blank

/-!
# Encoding keys

A key has 32 bytes. Its text form is 43 letters of base64, which spell 258 bits; the last two
are dropped.
-/

namespace CallbackGateway.Payload

/-- A symmetric key of two blocks. -/
structure Key where
  first : Aes.Block
  second : Aes.Block
  deriving DecidableEq, Repr

/-- A key of equal bytes. -/
def Key.filled (b : UInt8) : Key := ⟨.filled b, .filled b⟩

/-- The bytes of a key. -/
def Key.toBytes (key : Key) : Bytes := key.first.toBytes ++ key.second.toBytes

/-- The key of exactly 32 bytes. -/
def Key.ofBytes? (bytes : Bytes) : Option Key :=
  match Aes.Block.split? bytes with
  | some [first, second] => some ⟨first, second⟩
  | _ => none

/-- The start block of every chain under a key. -/
def Key.start (key : Key) : Aes.Block := key.first

/-- The round keys of a key. -/
def Key.schedule (key : Key) : Aes.Schedule := Aes.Schedule.expand key.first key.second

/-- Why a text is not an encoding key. -/
inductive KeyDefect
  /-- The text does not have 43 bytes. -/
  | length (found : Nat)
  /-- A byte at an offset is no letter. -/
  | symbol (byte : UInt8) (offset : Nat)
  /-- The letters spell another number of bytes. -/
  | size (found : Nat)
  deriving DecidableEq, Repr

/-- The number of characters of an encoding key. -/
def encodingKeyLength : Nat := 43

/-- The wording of a defect. -/
def KeyDefect.message : KeyDefect → String
  | .length found => s!"encoding key must be {encodingKeyLength} characters, got {found}"
  | .symbol byte offset => s!"invalid base64: Invalid symbol {byte.toNat}, offset {offset}."
  | .size found => s!"decoded to {found} bytes"

/-- The first byte that is no letter, with its offset. -/
def firstBadSymbol? (offset : Nat) : Bytes → Option (UInt8 × Nat)
  | [] => none
  | byte :: rest =>
    if Base64.isLetter (Char.ofNat byte.toNat) then firstBadSymbol? (offset + 1) rest
    else some (byte, offset)

/-- The letters of a text of 43 bytes: a padding character is allowed as the last byte. -/
def keyLetters (bytes : Bytes) : Bytes :=
  if bytes.getLast? = some 0x3D then bytes.dropLast else bytes

/-- The key that a text spells. -/
def Key.parse (text : String) : Except KeyDefect Key :=
  let bytes := Text.Utf8.encode (Text.trim text.toList)
  if bytes.length ≠ encodingKeyLength then .error (.length bytes.length)
  else
    let letters := keyLetters bytes
    match firstBadSymbol? 0 letters with
    | some (byte, offset) => .error (.symbol byte offset)
    | none =>
      let raw := (Base64.decodeLoose? (letters.map fun b => Char.ofNat b.toNat)).getD []
      match Key.ofBytes? raw with
      | some key => .ok key
      | none => .error (.size raw.length)

/-- The bytes of a key are read back as the key. -/
@[simp] theorem Key.ofBytes?_toBytes (key : Key) : Key.ofBytes? key.toBytes = some key := by
  have h : Aes.Block.split? key.toBytes = some [key.first, key.second] := by
    have := Aes.Block.split?_join [key.first, key.second]
    simpa [Aes.Block.join, Key.toBytes] using this
  simp [Key.ofBytes?, h]

end CallbackGateway.Payload
