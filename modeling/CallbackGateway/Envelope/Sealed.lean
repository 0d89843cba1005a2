import CallbackGateway.Payload.Seal
import CallbackGateway.Record.Encode
import CallbackGateway.Signature

/-!
# Sealed replies

A sealed reply holds a ciphertext with a signature over it, and what else the signature covers.
-/

namespace CallbackGateway.Envelope

open Record

/-- A reply that was sealed for the wire. -/
structure Sealed where
  ciphertext : String
  signature : String
  timestamp : Int
  nonce : String
  deriving DecidableEq, Repr

/-- The elements of a sealed reply. -/
def Sealed.markupFields (reply : Sealed) : Fields :=
  [("Encrypt", .text reply.ciphertext), ("MsgSignature", .text reply.signature),
    ("TimeStamp", .integer reply.timestamp), ("Nonce", .text reply.nonce)]

/-- The members of a sealed reply. -/
def Sealed.jsonFields (reply : Sealed) : Fields :=
  [("Encrypt", .text reply.ciphertext), ("MsgSignature", .text reply.signature),
    ("TimeStamp", .integer reply.timestamp), ("Nonce", .text reply.nonce)]

/-- The fields of a sealed reply as they are written in a format. -/
def Sealed.fields (format : WireFormat) (reply : Sealed) : Fields :=
  match format with
  | .xml => reply.markupFields
  | .json => reply.jsonFields

/-- The bytes of a sealed reply. -/
def Sealed.encode (format : WireFormat) (reply : Sealed) : Bytes :=
  Fields.encode format (reply.fields format)

/-- Seal the bytes of a reply and sign the ciphertext. -/
def Sealed.ofReply (key : Payload.Key) (salt : Aes.Block) (token appId : String) (timestamp : Int)
    (nonce : String) (reply : Bytes) : Except Payload.PayloadError Sealed := do
  let ciphertext ← Payload.encrypt key salt reply appId
  let signature := Signature.sign [token, Text.decimal timestamp, nonce, ciphertext]
  return ⟨ciphertext, signature, timestamp, nonce⟩

end CallbackGateway.Envelope
