import CallbackGateway.Credentials
import CallbackGateway.Payload.Error

/-!
# Configuration errors

One cause for each rule that a configuration can break.
-/

namespace CallbackGateway.Config

/-- Why a configuration is refused. -/
inductive ConfigError
  /-- The text is not the document of a configuration. -/
  | document
  | version (found : Int)
  | noApps
  | deadline
  | ackToken
  | bodyLimit
  | duplicateApp (appId : String)
  | emptyAppId
  | emptyToken (appId : String)
  /-- The mode of an app needs a key, and there is none. -/
  | missingKey (appId : String) (mode : AcceptedEncoding)
  | badKey (appId : String) (defect : Payload.KeyDefect)
  deriving DecidableEq, Repr

/-- The wording of an error. -/
def ConfigError.message : ConfigError → String
  | .document => "invalid yaml"
  | .version found => s!"unsupported config version {found}"
  | .noApps => "apps must not be empty"
  | .deadline => "gateway.reply_deadline_ms must be between 100 and 4900"
  | .ackToken => "gateway.ack_token must not be empty"
  | .bodyLimit => "gateway.max_body_bytes must be between 1024 and 1048576"
  | .duplicateApp appId => s!"duplicate app id: {appId}"
  | .emptyAppId => "apps[].id must not be empty"
  | .emptyToken appId => s!"apps[{appId}].token must not be empty"
  | .missingKey appId mode => s!"apps[{appId}].encoding_aes_key is required for {mode.name} mode"
  | .badKey appId defect =>
    s!"apps[{appId}].encoding_aes_key: {(Payload.PayloadError.key defect).message}"

end CallbackGateway.Config
