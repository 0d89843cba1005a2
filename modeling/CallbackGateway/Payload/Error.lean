import CallbackGateway.Payload.Key

/-!
# Payload errors

One cause for each stage at which an encrypted payload can fail, in the order of the stages,
and one for key texts.
-/

namespace CallbackGateway.Payload

/-- Why a payload or a key is refused. -/
inductive PayloadError
  /-- The text is not canonical base64. -/
  | base64
  /-- The bytes are not a positive number of blocks. -/
  | blockLength (found : Nat)
  /-- The padding at the end is malformed. -/
  | padding
  /-- There is no room for the salt and the length. -/
  | truncated (found : Nat)
  /-- The declared length is larger than what is left. -/
  | lengthField (declared remaining : Nat)
  /-- The payload is addressed to another app. -/
  | appIdMismatch
  /-- The key text is malformed. -/
  | key (defect : KeyDefect)
  deriving DecidableEq, Repr

/-- The wording of a payload error. -/
def PayloadError.message : PayloadError → String
  | .base64 => "ciphertext is not valid base64"
  | .blockLength found =>
    s!"ciphertext length {found} is not a positive multiple of the block size"
  | .padding => "invalid pkcs7 padding"
  | .truncated found => s!"plaintext too short for message wrapper ({found} bytes)"
  | .lengthField declared remaining =>
    s!"length prefix {declared} exceeds remaining {remaining} bytes"
  | .appIdMismatch => "app id mismatch"
  | .key defect => s!"invalid key material: {defect.message}"

end CallbackGateway.Payload
