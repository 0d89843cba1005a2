import CallbackGateway.Aes.Chain
import CallbackGateway.Payload.Frame

/-!
# Sealing and opening payloads

A sealed payload is the base64 text of the encrypted, padded frame. Opening checks each layer
before it reads the next one, and the first layer that fails gives the error.
-/

namespace CallbackGateway.Payload

/-- The bytes that a key makes of plain bytes, if they are whole blocks. -/
def Key.encryptBytes? (key : Key) (plain : Bytes) : Option Bytes :=
  (Aes.Block.split? plain).map fun blocks =>
    Aes.Block.join (Aes.encryptChain key.schedule.encrypt key.start blocks)

/-- The plain bytes behind encrypted bytes, if they are whole blocks. -/
def Key.decryptBytes? (key : Key) (sent : Bytes) : Option Bytes :=
  (Aes.Block.split? sent).map fun blocks =>
    Aes.Block.join (Aes.decryptChain key.schedule.decrypt key.start blocks)

/-- Seal a content for an app under a salt. -/
def encrypt (key : Key) (salt : Aes.Block) (content : Bytes) (appId : String) :
    Except PayloadError String :=
  if 4294967295 < content.length then .error (.lengthField content.length 4294967295)
  else
    let plain := pad (frame salt content (Text.Utf8.encodeString appId))
    match key.encryptBytes? plain with
    | some sent => .ok (String.ofList (Base64.encode sent))
    | none => .error (.blockLength plain.length)

/-- The unpadded frame in a sealed payload. -/
def decryptRaw (key : Key) (sealedText : String) : Except PayloadError Bytes :=
  match Base64.decode? (Text.trim sealedText.toList) with
  | none => .error .base64
  | some [] => .error (.blockLength 0)
  | some sent =>
    match key.decryptBytes? sent with
    | none => .error (.blockLength sent.length)
    | some padded => unpad padded

/-- The content and trailer of a sealed payload. -/
def openSealed (key : Key) (sealedText : String) : Except PayloadError Opened := do
  unframe (← decryptRaw key sealedText)

/-- The content of a sealed payload that is addressed to an app. -/
def decrypt (key : Key) (sealedText : String) (appId : String) : Except PayloadError Bytes := do
  let opened ← openSealed key sealedText
  if opened.appId = appId then .ok opened.content else .error .appIdMismatch

end CallbackGateway.Payload
