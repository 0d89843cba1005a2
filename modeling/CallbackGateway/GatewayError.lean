import CallbackGateway.Config.Error
import CallbackGateway.Record.Schema
import CallbackGateway.Text.Utf8
import CallbackGateway.WireFormat

/-!
# Gateway errors

Every failure has one cause. A cause belongs to a class, which clients see as a code with a
status, and has a wording; the wording of internal causes is not shown to clients.
-/

namespace CallbackGateway

/-- Why a request is refused before it is opened. -/
inductive BadRequest
  /-- The encoding of a push is not known. -/
  | unknownEncoding (name : String)
  /-- An app refuses plain pushes. -/
  | plainRefused (appId : String)
  /-- An app refuses sealed pushes. -/
  | sealedRefused (appId : String)
  | config (error : Config.ConfigError)
  /-- A cause that a handler states. -/
  | stated (text : String)
  deriving DecidableEq, Repr

/-- Why a body is not read. -/
inductive DecodeError
  /-- The body is no text. -/
  | notText (defect : Text.Utf8.Defect)
  /-- The body is not the record of a message. -/
  | record (format : WireFormat) (error : Record.RecordError)
  /-- The body is JSON but no object. -/
  | notAnObject
  /-- The body is not the wrapper of a ciphertext. -/
  | wrapper (format : WireFormat)
  /-- The wrapper holds no ciphertext. -/
  | noCiphertext
  /-- A cause that a handler states. -/
  | stated (text : String)
  deriving DecidableEq, Repr

/-- What goes wrong inside the gateway. -/
inductive InternalError
  /-- An app accepts sealed pushes but has no key. -/
  | noKey (appId : String)
  /-- A reply has too few or too many articles. -/
  | articleCount (found : Nat)
  /-- A cause that a handler states. -/
  | stated (text : String)
  deriving DecidableEq, Repr

/-- Why a request fails. -/
inductive GatewayError
  | badRequest (cause : BadRequest)
  | authFailed
  | unknownApp (appId : String)
  | payload (error : Payload.PayloadError)
  | decode (cause : DecodeError)
  | internal (cause : InternalError)
  deriving DecidableEq, Repr

/-- The wording of a refusal. -/
def BadRequest.message : BadRequest → String
  | .unknownEncoding name => s!"unsupported encrypt_type: {name}"
  | .plainRefused appId => s!"app {appId} only accepts encrypted pushes"
  | .sealedRefused appId => s!"app {appId} does not accept encrypted pushes"
  | .config error => error.message
  | .stated text => text

/-- The wording of a reading error. -/
def DecodeError.message : DecodeError → String
  | .notText defect => s!"envelope is not utf-8: {defect.message}"
  | .record format error => s!"invalid {format.name} envelope{error.detail}"
  | .notAnObject => "json envelope must be an object"
  | .wrapper format => s!"invalid {format.name} wrapper"
  | .noCiphertext => "wrapper has no Encrypt payload"
  | .stated text => text

/-- The most articles that a reply can have. -/
def mostArticles : Nat := 8

/-- The wording of an internal error. -/
def InternalError.message : InternalError → String
  | .noKey appId => s!"app {appId} has no encoding key"
  | .articleCount found => s!"news reply must hold 1..={mostArticles} articles, got {found}"
  | .stated text => text

/-- The wording of a failure. -/
def GatewayError.message : GatewayError → String
  | .badRequest cause => s!"bad request: {cause.message}"
  | .authFailed => "signature verification failed"
  | .unknownApp appId => s!"unknown app: {appId}"
  | .payload error => s!"decrypt failed: {error.message}"
  | .decode cause => s!"decode failed: {cause.message}"
  | .internal cause => s!"internal: {cause.message}"

/-- The classes of failures that clients see. -/
inductive ErrorClass
  | badRequest
  | authFailed
  | unknownApp
  | decodeFailed
  | internal
  deriving DecidableEq, Repr

/-- The code of a class. -/
def ErrorClass.code : ErrorClass → String
  | .badRequest => "BAD_REQUEST"
  | .authFailed => "AUTH_FAILED"
  | .unknownApp => "UNKNOWN_APP"
  | .decodeFailed => "DECODE_FAILED"
  | .internal => "INTERNAL"

/-- The status of a response that reports a class. -/
def ErrorClass.status : ErrorClass → Nat
  | .badRequest | .authFailed | .decodeFailed => 400
  | .unknownApp => 404
  | .internal => 500

/-- The class of a failure. -/
def GatewayError.errorClass : GatewayError → ErrorClass
  | .badRequest _ => .badRequest
  | .authFailed => .authFailed
  | .unknownApp _ => .unknownApp
  | .payload _ | .decode _ => .decodeFailed
  | .internal _ => .internal

/-- What clients are told about a failure. -/
def GatewayError.shown : GatewayError → String
  | .internal _ => "internal error"
  | error => error.message

end CallbackGateway
