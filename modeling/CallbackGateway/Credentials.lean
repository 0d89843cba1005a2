import CallbackGateway.Payload.Key

/-!
# Credentials

What is needed to check and open the callbacks of one app, and the store that finds it by the
app id. A store holds at most one entry for an id, the one that was given last.
-/

namespace CallbackGateway

/-- Which pushes an app accepts. -/
inductive AcceptedEncoding
  /-- Plain bodies only. -/
  | plain
  /-- Plain and sealed bodies. -/
  | compatible
  /-- Sealed bodies only. -/
  | safe
  deriving DecidableEq, Repr, Inhabited

namespace AcceptedEncoding

/-- The name of a mode. -/
def name : AcceptedEncoding → String
  | .plain => "plain"
  | .compatible => "compatible"
  | .safe => "safe"

/-- The mode with a name. -/
def named? : String → Option AcceptedEncoding
  | "plain" => some .plain
  | "compatible" => some .compatible
  | "safe" => some .safe
  | _ => none

/-- Whether plain bodies are accepted. -/
def acceptsPlain (mode : AcceptedEncoding) : Bool := mode != .safe

/-- Whether sealed bodies are accepted. -/
def acceptsSealed (mode : AcceptedEncoding) : Bool := mode != .plain

/-- A mode is found by its name. -/
@[simp] theorem named?_name (mode : AcceptedEncoding) : named? mode.name = some mode := by
  cases mode <;> rfl

end AcceptedEncoding

/-- The secrets of one app. -/
structure Credentials where
  appId : String
  token : String
  key : Option Payload.Key
  mode : AcceptedEncoding
  deriving DecidableEq, Repr

/-- The credentials of several apps. -/
structure CredentialStore where
  entries : List Credentials
  deriving DecidableEq, Repr

namespace CredentialStore

/-- A store without entries. -/
def empty : CredentialStore := ⟨[]⟩

/-- Add an entry in place of an earlier one with its id. -/
def insert (store : CredentialStore) (credentials : Credentials) : CredentialStore :=
  ⟨store.entries.filter (·.appId != credentials.appId) ++ [credentials]⟩

/-- The store of a list of entries. -/
def ofList (entries : List Credentials) : CredentialStore := entries.foldl insert empty

/-- The entry of an id. -/
def find? (store : CredentialStore) (appId : String) : Option Credentials :=
  store.entries.find? (·.appId == appId)

/-- The number of entries. -/
def size (store : CredentialStore) : Nat := store.entries.length

end CredentialStore

end CallbackGateway
