import CallbackGateway.Json.Value
import CallbackGateway.Text.Hex

/-!
# Writing JSON

A value is written without white space. In strings, quotation marks, backslashes and control
characters are escaped, and every other character is written as it is.
-/

namespace CallbackGateway.Json

open Text

/-- How a character is written in a string. -/
def writeChar (c : Char) : List Char :=
  if c == '"' then ['\\', '"']
  else if c == '\\' then ['\\', '\\']
  else if c == '\x08' then ['\\', 'b']
  else if c == '\x0c' then ['\\', 'f']
  else if c == '\n' then ['\\', 'n']
  else if c == '\r' then ['\\', 'r']
  else if c == '\t' then ['\\', 't']
  else if c.toNat < 32 then ['\\', 'u', '0', '0'] ++ Hex.encodeByte (UInt8.ofNat c.toNat)
  else [c]

/-- A text as a string. -/
def writeString (text : String) : List Char := '"' :: text.toList.flatMap writeChar ++ ['"']

mutual

/-- The written form of a value. -/
def Value.write : Value → List Char
  | .null => ['n', 'u', 'l', 'l']
  | .boolean value => booleanText value
  | .number number => number.text
  | .string text => writeString text
  | .array items => '[' :: writeItems items
  | .object members => '\x7b' :: writeMembers members
termination_by structural value => value

/-- The written form of the items of an array and its end. -/
def writeItems : List Value → List Char
  | [] => [']']
  | [last] => last.write ++ [']']
  | item :: rest => item.write ++ ',' :: writeItems rest
termination_by structural items => items

/-- The written form of the members of an object and its end. -/
def writeMembers : List (String × Value) → List Char
  | [] => ['\x7d']
  | [last] => writeMember last ++ ['\x7d']
  | member :: rest => writeMember member ++ ',' :: writeMembers rest
termination_by structural members => members

/-- The written form of a member. -/
def writeMember : String × Value → List Char
  | (key, value) => writeString key ++ ':' :: value.write
termination_by structural member => member

end

/-- The bytes of a value. -/
def Value.toBytes (value : Value) : Bytes := Utf8.encode value.write

end CallbackGateway.Json
