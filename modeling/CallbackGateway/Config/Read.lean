import CallbackGateway.Config.Basic
import CallbackGateway.Yaml.Document
import CallbackGateway.Yaml.Scalar

/-!
# Reading a configuration

A configuration is written as a document with named fields. A field that is not known or that is
repeated is an error, and most fields can be left out.
-/

namespace CallbackGateway.Config

/-- The fields of a part of a configuration. -/
abbrev Fields := List (String × Yaml.Node)

/-- The fields of a node, all of them known and none repeated. -/
def fields? (document : Yaml.Document) (known : List String) (node : Yaml.Node) :
    Option Fields := do
  let entries ← document.entries? node
  let fields ← entries.mapM fun (key, value) => (document.text? key).map (·, value)
  let names := fields.map (·.1)
  if names.all known.contains && decide names.Nodup then some fields else none

/-- Read a field that has a value when it is left out. -/
def Fields.getOr {α : Type} (fields : Fields) (name : String) (value : α)
    (read? : Yaml.Node → Option α) : Option α :=
  match List.lookup name fields with
  | some node => read? node
  | none => some value

/-- Read a field that must be there. -/
def Fields.get? {α : Type} (fields : Fields) (name : String) (read? : Yaml.Node → Option α) :
    Option α :=
  (List.lookup name fields).bind read?

/-- Read a number of a range. -/
def number? (document : Yaml.Document) (range : Text.IntegerRange) (node : Yaml.Node) :
    Option Nat := do
  let leaf ← document.scalar? node
  let n ← leaf.number?
  if (range.keep? n).isSome then some n else none

/-- Read a text that can be stated to be absent. -/
def optionalText? (document : Yaml.Document) (node : Yaml.Node) : Option (Option String) := do
  let leaf ← document.scalar? node
  let text := some (some (String.ofList leaf.text))
  if leaf.style != .plain then text
  else
    match leaf.tag with
    | none => if leaf.isNull then some none else text
    | some tag =>
      if tag != Yaml.commonTag "null" then text
      else if leaf.isNullWord then some none
      else none

/-- Read a mode: its name, or a tag of its name in front of nothing. -/
def mode? (document : Yaml.Document) (node : Yaml.Node) : Option AcceptedEncoding := do
  let leaf ← document.scalar? node
  match leaf.ownTag? with
  | some name => if leaf.isNull then AcceptedEncoding.named? name else none
  | none => AcceptedEncoding.named? (String.ofList leaf.text)

/-- Read an app. -/
def app? (document : Yaml.Document) (node : Yaml.Node) : Option App := do
  let fields ← fields? document ["id", "token", "encoding_aes_key", "encoding_mode"] node
  let id ← fields.get? "id" document.text?
  let token ← fields.get? "token" document.text?
  let encodingKey ← fields.getOr "encoding_aes_key" none (optionalText? document)
  let mode ← fields.getOr "encoding_mode" .plain (mode? document)
  return { id, token, encodingKey, mode }

/-- Read the limits and the plain answer. -/
def limits? (document : Yaml.Document) (node : Yaml.Node) : Option Limits := do
  let usual : Limits := {}
  let fields ←
    fields? document ["listen", "reply_deadline_ms", "ack_token", "max_body_bytes"] node
  let number? := number? document .unsigned64
  let listen ← fields.getOr "listen" usual.listen document.text?
  let deadline ← fields.getOr "reply_deadline_ms" usual.deadline number?
  let ackToken ← fields.getOr "ack_token" usual.ackToken document.text?
  let bodyLimit ← fields.getOr "max_body_bytes" usual.bodyLimit number?
  return { listen, deadline, ackToken, bodyLimit }

/-- Read the texts of the replies. -/
def replies? (document : Yaml.Document) (node : Yaml.Node) : Option ReplyTexts := do
  let usual : ReplyTexts := {}
  let fields ←
    fields? document
      ["welcome", "text", "image", "voice", "video", "short_video", "location", "link", "click",
        "fallback"] node
  let textOr := fun (name : String) (value : String) => fields.getOr name value document.text?
  let welcome ← textOr "welcome" usual.welcome
  let text ← textOr "text" usual.text
  let image ← textOr "image" usual.image
  let voice ← textOr "voice" usual.voice
  let video ← textOr "video" usual.video
  let shortVideo ← textOr "short_video" usual.shortVideo
  let location ← textOr "location" usual.location
  let link ← textOr "link" usual.link
  let click ← textOr "click" usual.click
  let fallback ← textOr "fallback" usual.fallback
  return { welcome, text, image, voice, video, shortVideo, location, link, click, fallback }

/-- Read a configuration from a document. -/
def ofDocument? (document : Yaml.Document) : Option Config := do
  let fields ← fields? document ["version", "gateway", "replies", "apps"] document.root
  let version ← fields.get? "version" (number? document .unsigned32)
  let limits ← fields.getOr "gateway" {} (limits? document)
  let replies ← fields.getOr "replies" {} (replies? document)
  let apps ← fields.getOr "apps" [] fun node => do
    (← document.items? node).mapM (app? document)
  return { version, limits, replies, apps }

/-- Read a configuration from a text. -/
def read? (text : String) : Option Config := (Yaml.Document.read? text.toList).bind ofDocument?

/-- Read a configuration and check it. -/
def load (text : String) : Except ConfigError Config :=
  match read? text with
  | none => .error .document
  | some config => config.validate.map fun _ => config

/-- A configuration that was loaded keeps all rules. -/
theorem validate_of_load {text : String} {config : Config} (h : load text = .ok config) :
    config.validate = .ok () := by
  unfold load at h
  split at h
  · cases h
  · rename_i found _
    cases hv : found.validate with
    | error error => simp [hv, Except.map] at h
    | ok u =>
      simp only [hv, Except.map, Except.ok.injEq] at h
      subst h
      exact hv

end CallbackGateway.Config
