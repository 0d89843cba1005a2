import CallbackGateway.Yaml.Character

/-!
# Folded lines

White space inside a scalar is held back until a character follows it. Blanks within a line are
kept; a single line break becomes a blank, and of several the first is dropped.
-/

namespace CallbackGateway.Yaml

/-- A text that is being read, with the white space that is held back. -/
structure Fold where
  /-- The text so far, the latest character first. -/
  latest : List Char := []
  /-- The blanks that were held back, the latest first. -/
  blanks : List Char := []
  /-- Whether a line has ended since the last character. -/
  broken : Bool := false
  /-- The first line break, if it counts. -/
  first : List Char := []
  /-- The line breaks after the first. -/
  more : List Char := []

namespace Fold

/-- The text so far. -/
def text (fold : Fold) : List Char := fold.latest.reverse

/-- Whether white space was held back. -/
def isPending (fold : Fold) : Bool := fold.broken || !fold.blanks.isEmpty

/-- What the white space that was held back stands for. -/
def spacing (fold : Fold) : List Char :=
  if fold.broken then
    if fold.first = ['\n'] then (if fold.more = [] then [' '] else fold.more)
    else fold.first ++ fold.more
  else fold.blanks.reverse

/-- Write the white space that was held back. -/
def flush (fold : Fold) : Fold := { latest := fold.spacing.reverse ++ fold.latest }

/-- Write a character after the white space that was held back. -/
def push (fold : Fold) (c : Char) : Fold := { latest := c :: fold.flush.latest }

/-- Hold a blank back; at the start of a line it does not count. -/
def blank (fold : Fold) (c : Char) : Fold :=
  if fold.broken then fold else { fold with blanks := c :: fold.blanks }

/-- Hold a line break back; blanks before the first one do not count. -/
def lineBreak (fold : Fold) (c : Char) : Fold :=
  if fold.broken then { fold with more := fold.more ++ [c] }
  else { fold with blanks := [], broken := true, first := [c] }

/-- Start a new line without a line break. -/
def joinLines (fold : Fold) : Fold := { fold.flush with broken := true }

end Fold

end CallbackGateway.Yaml
