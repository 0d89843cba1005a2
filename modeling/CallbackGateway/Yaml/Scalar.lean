import CallbackGateway.Text.Integer
import CallbackGateway.Yaml.Node

/-!
# What scalars say

A scalar is a text; a plain one can also be a number or nothing, depending on its text and on
its tag.
-/

namespace CallbackGateway.Yaml

/-- A tag of the common scalars. -/
def commonTag (name : String) : Bytes := Text.Utf8.encodeString s!"tag:yaml.org,2002:{name}"

/-- Whether a number is written with a zero in front of other digits. -/
def hasLeadingZero : List Char → Bool
  | '0' :: c :: rest => (c :: rest).all Char.isDigit
  | _ => false

/-- A number with a mark of its base in front of it. -/
def basedNumber? : List Char → Option Nat
  | '0' :: 'x' :: digits => Text.natural? 16 digits
  | '0' :: 'o' :: digits => Text.natural? 8 digits
  | '0' :: 'b' :: digits => Text.natural? 2 digits
  | _ => none

/-- The number that a text spells; a plus may stand in front of it. -/
def number? (text : List Char) : Option Nat :=
  let digits := if text.head? == some '+' then text.tail else text
  (basedNumber? digits).or (if hasLeadingZero digits then none else Text.natural? 10 digits)

namespace Scalar

/-- Whether there is no text. -/
def isLeftOut (leaf : Scalar) : Bool := leaf.style == .plain && leaf.text.isEmpty

/-- Whether the text is a word for nothing. -/
def isNullWord (leaf : Scalar) : Bool :=
  ["null", "Null", "NULL", "~"].contains (String.ofList leaf.text)

/-- Whether a scalar stands for nothing, leaving its tag aside. -/
def isNull (leaf : Scalar) : Bool := leaf.isLeftOut || (leaf.style == .plain && leaf.isNullWord)

/-- The number that a scalar stands for. -/
def number? (leaf : Scalar) : Option Nat :=
  if leaf.style == .plain || (leaf.style == .literal && leaf.tag == some (commonTag "int")) then
    Yaml.number? leaf.text
  else none

/-- The name in a tag of the document's own. -/
def ownTag? (leaf : Scalar) : Option String :=
  match leaf.tag with
  | some (mark :: name) =>
    if mark = 0x21 then (Text.Utf8.decode? name).map String.ofList else none
  | _ => none

end Scalar

namespace Document

/-- The scalar that a node stands for. -/
def scalar? (document : Document) (node : Node) : Option Scalar :=
  match document.resolve? node with
  | some (.scalar _ leaf) => some leaf
  | _ => none

/-- The text that a node stands for. -/
def text? (document : Document) (node : Node) : Option String :=
  (document.scalar? node).map fun leaf => String.ofList leaf.text

/-- The items of a sequence, none if it is left out. -/
def items? (document : Document) (node : Node) : Option (List Node) :=
  match document.resolve? node with
  | some (.sequence _ items) => some items
  | some (.scalar _ leaf) => if leaf.isLeftOut then some [] else none
  | _ => none

/-- The entries of a mapping, none if it is left out. -/
def entries? (document : Document) (node : Node) : Option (List (Node × Node)) :=
  match document.resolve? node with
  | some (.mapping _ entries) => some entries
  | some (.scalar _ leaf) => if leaf.isLeftOut then some [] else none
  | _ => none

end Document

end CallbackGateway.Yaml
