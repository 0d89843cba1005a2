import CallbackGateway.Text.Hex
import CallbackGateway.Yaml.Fold

/-!
# Quoted scalars

Between single quotation marks a doubled mark stands for one; between double quotation marks a
backslash starts an escape or joins two lines. A quoted scalar must end before a mark between
documents.
-/

namespace CallbackGateway.Yaml

/-- What follows a backslash. -/
inductive Escape
  /-- A character. -/
  | char (c : Char)
  /-- A number of hexadecimal digits. -/
  | code (digits : Nat)

/-- The escape of a letter. -/
def escape? (c : Char) : Option Escape :=
  match c with
  | '0' => some (.char '\x00')
  | 'a' => some (.char '\x07')
  | 'b' => some (.char '\x08')
  | 't' | '\t' => some (.char '\t')
  | 'n' => some (.char '\n')
  | 'v' => some (.char '\x0b')
  | 'f' => some (.char '\x0c')
  | 'r' => some (.char '\r')
  | 'e' => some (.char '\x1b')
  | ' ' => some (.char ' ')
  | '"' => some (.char '"')
  | '/' => some (.char '/')
  | '\\' => some (.char '\\')
  | 'N' => some (.char '\u0085')
  | '_' => some (.char '\u00a0')
  | 'L' => some (.char '\u2028')
  | 'P' => some (.char '\u2029')
  | 'x' => some (.code 2)
  | 'u' => some (.code 4)
  | 'U' => some (.code 8)
  | _ => none

/-- The digits of an escape that are still to come, and the number of those that came. -/
structure Code where
  missing : Nat
  value : Nat

/-- A quoted text that was read, and where reading stopped. -/
structure QuotedEnd where
  text : List Char
  place : Place
  rest : List Char

/-- Whether a quoted scalar may not continue here. -/
def isCutOff (fold : Fold) (place : Place) (text : List Char) : Bool :=
  fold.isPending && place.column == 0 && isDocumentMark text

/-- Read the rest of a text between single quotation marks. -/
def singleQuoted? (fold : Fold) (place : Place) : List Char → Option QuotedEnd
  | [] => none
  | c :: rest =>
    if isBlank c then singleQuoted? (fold.blank c) (place.right 1) rest
    else if isBreak c then singleQuoted? (fold.lineBreak c) place.down rest
    else if isCutOff fold place (c :: rest) then none
    else if c == '\'' then
      match rest with
      | '\'' :: after => singleQuoted? (fold.push '\'') (place.right 2) after
      | after => some ⟨fold.flush.text, place.right 1, after⟩
    else singleQuoted? (fold.push c) (place.right 1) rest

/-- Take one more digit of an escape; the character of the last one is written. -/
def Code.digit? (code : Code) (fold : Fold) (c : Char) : Option (Option Code × Fold) :=
  (Text.Hex.value? c).bind fun d =>
    let value := code.value * 16 + d
    if code.missing ≤ 1 then
      if value.isValidChar then some (none, fold.push (Char.ofNat value)) else none
    else some (some ⟨code.missing - 1, value⟩, fold)

/-- Read the rest of a text between double quotation marks. -/
def doubleQuoted? (code : Option Code) (fold : Fold) (place : Place) :
    List Char → Option QuotedEnd
  | [] => none
  | c :: rest =>
    match code with
    | some code =>
      (code.digit? fold c).bind fun (next, fold) => doubleQuoted? next fold (place.right 1) rest
    | none =>
      if isBlank c then doubleQuoted? none (fold.blank c) (place.right 1) rest
      else if isBreak c then doubleQuoted? none (fold.lineBreak c) place.down rest
      else if isCutOff fold place (c :: rest) then none
      else if c == '"' then some ⟨fold.flush.text, place.right 1, rest⟩
      else if c == '\\' then
        match rest with
        | [] => none
        | e :: after =>
          if isBreak e then doubleQuoted? none fold.joinLines place.down after
          else
            match escape? e with
            | some (.char d) => doubleQuoted? none (fold.push d) (place.right 2) after
            | some (.code digits) =>
              doubleQuoted? (some ⟨digits, 0⟩) fold.flush (place.right 2) after
            | none => none
      else doubleQuoted? none (fold.push c) (place.right 1) rest

end CallbackGateway.Yaml
