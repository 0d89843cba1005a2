import CallbackGateway.Credentials
import CallbackGateway.Envelope.Sealed
import CallbackGateway.Envelope.Wrapper
import CallbackGateway.Message.Decode

/-!
# Pushes and handshakes

A push is checked against the signature in its query before anything in it is decrypted or
decoded. The reply to a sealed push is sealed in turn.
-/

namespace CallbackGateway

/-- The query of a handshake. -/
structure HandshakeQuery where
  signature : String
  timestamp : String
  nonce : String
  echo : String
  deriving DecidableEq, Repr

/-- The query of a push. -/
structure PushQuery where
  timestamp : String
  nonce : String
  signature : Option String
  sealedSignature : Option String
  encryptType : Option String
  openId : Option String
  deriving DecidableEq, Repr

/-- How the body of a push is encoded. -/
inductive PushEncoding
  | plain
  | sealed
  deriving DecidableEq, Repr

/-- The name of an encoding. -/
def PushEncoding.name : PushEncoding → String
  | .plain => "plain"
  | .sealed => "aes"

/-- The encoding that a query asks for. -/
def PushQuery.encoding (query : PushQuery) : Except BadRequest PushEncoding :=
  match query.encryptType with
  | none | some "" | some "raw" | some "plain" => .ok .plain
  | some "aes" => .ok .sealed
  | some other => .error (.unknownEncoding other)

/-- Check the signature of a handshake. -/
def HandshakeQuery.check (query : HandshakeQuery) (credentials : Credentials) :
    Except GatewayError Unit :=
  if Signature.verify .plain credentials.token query.timestamp query.nonce query.signature none
  then .ok ()
  else .error .authFailed

/-- A push that was checked and decoded. -/
structure OpenedPush where
  message : Message
  format : WireFormat
  encoding : PushEncoding

namespace PushQuery

/-- Check the signature of a plain push. -/
def checkPlain (query : PushQuery) (credentials : Credentials) : Except GatewayError Unit :=
  match query.signature with
  | some presented =>
    if Signature.verify .plain credentials.token query.timestamp query.nonce presented none
    then .ok ()
    else .error .authFailed
  | none => .error .authFailed

/-- Check the signature of a sealed push over its ciphertext. -/
def checkSealed (query : PushQuery) (credentials : Credentials) (ciphertext : String) :
    Except GatewayError Unit :=
  match query.sealedSignature with
  | some presented =>
    if Signature.verify .safe credentials.token query.timestamp query.nonce presented
        (some ciphertext)
    then .ok ()
    else .error .authFailed
  | none => .error .authFailed

/-- Open a plain push. -/
def openPlain (query : PushQuery) (credentials : Credentials) (format : WireFormat)
    (body : Bytes) : Except GatewayError Message := do
  if !credentials.mode.acceptsPlain then
    throw (.badRequest (.plainRefused credentials.appId))
  query.checkPlain credentials
  (Message.decode format body).mapError .decode

/-- Open a sealed push. -/
def openSealed (query : PushQuery) (credentials : Credentials) (format : WireFormat)
    (body : Bytes) : Except GatewayError Message := do
  if !credentials.mode.acceptsSealed then
    throw (.badRequest (.sealedRefused credentials.appId))
  match credentials.key with
  | none => throw (.internal (.noKey credentials.appId))
  | some key =>
    let wrapper ← (Envelope.Wrapper.decode format body).mapError .decode
    query.checkSealed credentials wrapper.ciphertext
    let plain ← (Payload.decrypt key wrapper.ciphertext credentials.appId).mapError .payload
    (Message.decode format plain).mapError .decode

/-- Open a push. -/
def openPush (query : PushQuery) (credentials : Credentials) (format : WireFormat)
    (body : Bytes) : Except GatewayError OpenedPush :=
  match query.encoding with
  | .error cause => .error (.badRequest cause)
  | .ok .plain =>
    (query.openPlain credentials format body).map fun message => ⟨message, format, .plain⟩
  | .ok .sealed =>
    (query.openSealed credentials format body).map fun message => ⟨message, format, .sealed⟩

/-- Seal the bytes of a reply as the push was sealed. -/
def sealReply (query : PushQuery) (credentials : Credentials) (encoding : PushEncoding)
    (format : WireFormat) (time : Int) (salt : Aes.Block) (reply : Bytes) :
    Except GatewayError Bytes :=
  match encoding with
  | .plain => .ok reply
  | .sealed =>
    match credentials.key with
    | none => .error (.internal (.noKey credentials.appId))
    | some key =>
      ((Envelope.Sealed.ofReply key salt credentials.token credentials.appId time query.nonce
        reply).mapError .payload).map (Envelope.Sealed.encode format)

end PushQuery

end CallbackGateway
