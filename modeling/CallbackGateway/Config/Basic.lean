import CallbackGateway.Config.Error
import CallbackGateway.Dispatch
import CallbackGateway.Text.Blank

/-!
# Configurations

A configuration lists the apps, the texts of the replies and the limits of the gateway. It is
checked as a whole: the first rule that is broken, in a fixed order, is reported.
-/

namespace CallbackGateway

namespace Config

/-- An app as it is configured. -/
structure App where
  id : String
  token : String
  encodingKey : Option String
  mode : AcceptedEncoding
  deriving DecidableEq, Repr

/-- The limits and the plain answer of a gateway. -/
structure Limits where
  listen : String := "0.0.0.0:8080"
  /-- The time for an answer, in milliseconds. -/
  deadline : Nat := 4000
  /-- What is answered when there is nothing to reply. -/
  ackToken : String := "success"
  /-- The most bytes that a body can have. -/
  bodyLimit : Nat := 65536
  deriving DecidableEq, Repr

end Config

/-- A configuration. -/
structure Config where
  version : Int
  limits : Config.Limits
  replies : ReplyTexts
  apps : List Config.App
  deriving DecidableEq, Repr

namespace Config

/-- Check a limit or a rule. -/
def require (holds : Bool) (error : ConfigError) : Except ConfigError Unit :=
  if holds then .ok () else .error error

/-- Whether a text is more than white space. -/
def isFilled (text : String) : Bool := Text.trim text.toList != []

/-- Check the limits. -/
def Limits.validate (limits : Limits) : Except ConfigError Unit := do
  require (100 ≤ limits.deadline && limits.deadline ≤ 4900) .deadline
  require (isFilled limits.ackToken) .ackToken
  require (1024 ≤ limits.bodyLimit && limits.bodyLimit ≤ 1048576) .bodyLimit

/-- The key of an app, if it has one. -/
def App.key (app : App) : Except ConfigError (Option Payload.Key) :=
  match app.encodingKey with
  | none => .ok none
  | some text => ((Payload.Key.parse text).mapError (.badKey app.id)).map some

/-- Check an app: it needs a key unless it takes plain pushes only. -/
def App.validate (app : App) : Except ConfigError Unit := do
  require (isFilled app.id) .emptyAppId
  require (app.token != "") (.emptyToken app.id)
  require (app.encodingKey.isSome || app.mode == .plain) (.missingKey app.id app.mode)
  let _ ← app.key

/-- Check apps after those that were seen. -/
def validateApps (seen : List String) : List App → Except ConfigError Unit
  | [] => .ok ()
  | app :: rest => do
    require (!seen.contains app.id) (.duplicateApp app.id)
    app.validate
    validateApps (app.id :: seen) rest

/-- Check a configuration. -/
def validate (config : Config) : Except ConfigError Unit := do
  require (config.version == 1) (.version config.version)
  require (!config.apps.isEmpty) .noApps
  config.limits.validate
  validateApps [] config.apps

/-- The credentials of an app. -/
def App.credentials (app : App) : Except ConfigError Credentials := do
  return ⟨app.id, app.token, ← app.key, app.mode⟩

/-- The credentials of all apps. -/
def credentials (config : Config) : Except ConfigError CredentialStore := do
  return .ofList (← config.apps.mapM App.credentials)

end Config

end CallbackGateway
