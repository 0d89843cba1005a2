import CallbackGateway.Markup.Token

/-!
# Attributes

What stands in a tag after the name must be a list of attributes: a key, an equals sign and a
quoted value, with no key twice. Their values mean nothing here.
-/

namespace CallbackGateway.Markup

/-- Split one attribute off: its key, and the characters after its value. -/
def attribute? (text : List Char) : Option (List Char × List Char) :=
  match text with
  | [] => none
  | first :: rest =>
    let inKey (c : Char) : Bool := c != '=' && !isSpace c
    let key := first :: rest.takeWhile inKey
    match (rest.dropWhile inKey).dropWhile isSpace with
    | '=' :: afterEquals =>
      match afterEquals.dropWhile isSpace with
      | quote :: value =>
        if quote == '"' || quote == '\'' then
          match value.dropWhile (· != quote) with
          | _ :: after => some (key, after)
          | [] => none
        else none
      | [] => none
    | _ => none

/-- Whether a text is a list of attributes with keys other than those seen. -/
def attributesFrom : Nat → List (List Char) → List Char → Bool
  | 0, _, text => text.all isSpace
  | bound + 1, seen, text =>
    match text.dropWhile isSpace with
    | [] => true
    | c :: rest =>
      match attribute? (c :: rest) with
      | some (key, after) => !seen.contains key && attributesFrom bound (key :: seen) after
      | none => false

/-- Whether a tag has well-formed attributes. -/
def Tag.isWellFormed (tag : Tag) : Bool := attributesFrom tag.attributes.length [] tag.attributes

/-- The name of an element without what stands up to its first colon. -/
def localName (name : List Char) : List Char :=
  match name.dropWhile (· != ':') with
  | _ :: rest => rest
  | [] => name

end CallbackGateway.Markup
