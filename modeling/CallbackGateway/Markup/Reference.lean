import CallbackGateway.Text.Integer

/-!
# Character references

Five characters have names, and every character has a number. Writing replaces the five by
their names; reading refuses a reference that is not closed or names no character.
-/

namespace CallbackGateway.Markup

open Text

/-- The character with a name. -/
def named? (name : List Char) : Option Char :=
  if name = ['l', 't'] then some '<'
  else if name = ['g', 't'] then some '>'
  else if name = ['a', 'm', 'p'] then some '&'
  else if name = ['a', 'p', 'o', 's'] then some '\''
  else if name = ['q', 'u', 'o', 't'] then some '"'
  else none

/-- The character with a number; zero and surrogates are none. -/
def numbered? (n : Nat) : Option Char :=
  if n ≠ 0 ∧ n.isValidChar then some (Char.ofNat n) else none

/-- The character that the text between `&` and `;` stands for. Numbers have at most seven
decimal or six hexadecimal digits. -/
def reference? : List Char → Option Char
  | '#' :: 'x' :: digits => if 6 < digits.length then none else (natural? 16 digits).bind numbered?
  | '#' :: digits => if 7 < digits.length then none else (natural? 10 digits).bind numbered?
  | name => named? name

/-- Read the characters of a text; a reference that has begun is kept, its latest character
first. -/
def unescapeFrom : Option (List Char) → List Char → Option (List Char)
  | none, [] => some []
  | some _, [] => none
  | none, c :: rest =>
    if c == '&' then unescapeFrom (some []) rest else (unescapeFrom none rest).map (c :: ·)
  | some begun, c :: rest =>
    if c == '&' then none
    else if c == ';' then
      (reference? begun.reverse).bind fun d => (unescapeFrom none rest).map (d :: ·)
    else unescapeFrom (some (c :: begun)) rest

/-- The text that a written text stands for. -/
def unescape (written : List Char) : Option (List Char) := unescapeFrom none written

/-- How a character is written in text. -/
def escapeChar (c : Char) : List Char :=
  if c == '<' then ['&', 'l', 't', ';']
  else if c == '>' then ['&', 'g', 't', ';']
  else if c == '&' then ['&', 'a', 'm', 'p', ';']
  else if c == '\'' then ['&', 'a', 'p', 'o', 's', ';']
  else if c == '"' then ['&', 'q', 'u', 'o', 't', ';']
  else [c]

/-- Write a text so that it is read back as it is. -/
def escape (text : List Char) : List Char := text.flatMap escapeChar

/-- What is written for one character is read as that character. -/
theorem unescapeFrom_escapeChar (c : Char) (rest : List Char) :
    unescapeFrom none (escapeChar c ++ rest) = (unescapeFrom none rest).map (c :: ·) := by
  by_cases h1 : c = '<'
  · subst h1; rfl
  by_cases h2 : c = '>'
  · subst h2; rfl
  by_cases h3 : c = '&'
  · subst h3; rfl
  by_cases h4 : c = '\''
  · subst h4; rfl
  by_cases h5 : c = '"'
  · subst h5; rfl
  simp [escapeChar, h1, h2, h3, h4, h5, unescapeFrom]

/-- A written text is read as the text. -/
@[simp] theorem unescape_escape (text : List Char) : unescape (escape text) = some text := by
  induction text with
  | nil => rfl
  | cons c rest ih =>
    have step : escape (c :: rest) = escapeChar c ++ escape rest := rfl
    rw [unescape] at ih ⊢
    rw [step, unescapeFrom_escapeChar, ih]
    rfl

end CallbackGateway.Markup
