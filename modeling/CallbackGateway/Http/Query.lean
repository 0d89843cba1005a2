import CallbackGateway.Http.Form
import CallbackGateway.Push

/-!
# Queries of callbacks

Handshakes and pushes carry their parameters in the query. A parameter that is known must not
be given twice, and a required one must be given; all others are ignored.
-/

namespace CallbackGateway.Http

/-- The parameters of a handshake. -/
def handshakeQuery? (query : List Char) : Option HandshakeQuery := do
  let pairs := formPairs query
  return {
    signature := ← requiredField pairs "signature"
    timestamp := ← requiredField pairs "timestamp"
    nonce := ← requiredField pairs "nonce"
    echo := ← requiredField pairs "echostr" }

/-- The parameters of a push. -/
def pushQuery? (query : List Char) : Option PushQuery := do
  let pairs := formPairs query
  return {
    timestamp := ← requiredField pairs "timestamp"
    nonce := ← requiredField pairs "nonce"
    signature := ← optionalField pairs "signature"
    sealedSignature := ← optionalField pairs "msg_signature"
    encryptType := ← optionalField pairs "encrypt_type"
    openId := ← optionalField pairs "openid" }

end CallbackGateway.Http
