import CallbackGateway.Text.Hex
import CallbackGateway.Text.Unprintable

/-!
# Quoted text

A text between double quotes on one line: quotes, backslashes, common controls and
unprintable characters are escaped, everything else is written as it is.
-/

namespace CallbackGateway.Text

/-- A character inside a quoted text. -/
def quotedChar (c : Char) : List Char :=
  if c == '\x00' then ['\\', '0']
  else if c == '\t' then ['\\', 't']
  else if c == '\r' then ['\\', 'r']
  else if c == '\n' then ['\\', 'n']
  else if c == '\\' then ['\\', '\\']
  else if c == '"' then ['\\', '"']
  else if isUnprintable c then ['\\', 'u', '\x7b'] ++ Hex.ofNat c.toNat ++ ['\x7d']
  else [c]

/-- A text between double quotes. -/
def quoted (text : List Char) : List Char := '"' :: text.flatMap quotedChar ++ ['"']

end CallbackGateway.Text
