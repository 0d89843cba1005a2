import CallbackGateway.Json.Number
import CallbackGateway.Json.Tree

/-!
# JSON values

A value is what a tree says: strings are texts, numbers are in range, and the members of an
object are in the order of their keys. Of members with one key the last one counts.
-/

namespace CallbackGateway.Json

open Text

/-- A value. -/
inductive Value
  | null
  | boolean (value : Bool)
  | number (number : Number)
  | string (text : String)
  | array (items : List Value)
  | object (members : List (String × Value))

/-- The word for a truth value. -/
def booleanText (value : Bool) : List Char :=
  if value then ['t', 'r', 'u', 'e'] else ['f', 'a', 'l', 's', 'e']

/-- A first half of a pair of numbers that stands for one character. -/
def isHighHalf (n : Nat) : Bool := 0xD800 ≤ n && n < 0xDC00

/-- A second half. -/
def isLowHalf (n : Nat) : Bool := 0xDC00 ≤ n && n < 0xE000

/-- The character that two halves stand for. -/
def joinHalves (high low : Nat) : Char :=
  Char.ofNat ((high - 0xD800) * 0x400 + (low - 0xDC00) + 0x10000)

/-- The bytes that a string stands for; halves must come in pairs. -/
def quotedBytes? : Quoted → Option Bytes
  | [] => some []
  | .raw b :: rest => (quotedBytes? rest).map (b :: ·)
  | .code n :: rest =>
    if isHighHalf n then
      match rest with
      | .code m :: after =>
        if isLowHalf m then (quotedBytes? after).map (Utf8.encodeChar (joinHalves n m) ++ ·)
        else none
      | _ => none
    else if isLowHalf n then none
    else (quotedBytes? rest).map (Utf8.encodeChar (Char.ofNat n) ++ ·)

/-- The text that a string stands for. -/
def quotedText? (quoted : Quoted) : Option String :=
  (quotedBytes? quoted).bind fun bytes => (Utf8.decode? bytes).map String.ofList

/-- Put a member among members in the order of their keys, in place of one with its key. -/
def insertMember (key : String) (value : Value) :
    List (String × Value) → List (String × Value)
  | [] => [(key, value)]
  | (other, held) :: rest =>
    if key = other then (key, value) :: rest
    else if key < other then (key, value) :: (other, held) :: rest
    else (other, held) :: insertMember key value rest

/-- An object with members given in any order. -/
def Value.ofMembers (members : List (String × Value)) : Value :=
  .object (members.foldl (fun found (key, value) => insertMember key value found) [])

mutual

/-- The value that a tree says, if its arrays and objects nest at most to a depth. -/
def Tree.value? (depth : Nat) : Tree → Option Value
  | .null => some .null
  | .boolean value => some (.boolean value)
  | .number numeral => numeral.value?.map .number
  | .string quoted => (quotedText? quoted).map .string
  | .array items =>
    match depth with
    | 0 => none
    | inner + 1 => (itemValues? inner items).map .array
  | .object members =>
    match depth with
    | 0 => none
    | inner + 1 => (memberValues? inner members).map .ofMembers
termination_by structural tree => tree

/-- The values of a list of trees. -/
def itemValues? (depth : Nat) : List Tree → Option (List Value)
  | [] => some []
  | item :: rest => do
    let value ← item.value? depth
    let others ← itemValues? depth rest
    return value :: others
termination_by structural items => items

/-- The values of a list of members. -/
def memberValues? (depth : Nat) : List (Quoted × Tree) → Option (List (String × Value))
  | [] => some []
  | member :: rest => do
    let value ← memberValue? depth member
    let others ← memberValues? depth rest
    return value :: others
termination_by structural members => members

/-- The value of a member. -/
def memberValue? (depth : Nat) : Quoted × Tree → Option (String × Value)
  | (key, tree) => do
    let key ← quotedText? key
    let value ← tree.value? depth
    return (key, value)
termination_by structural member => member

end

/-- Arrays and objects nest at most to this depth. -/
def deepest : Nat := 127

/-- The value that a document says. -/
def Value.read? (bytes : Bytes) : Option Value := (Tree.read? bytes).bind (Tree.value? deepest)

end CallbackGateway.Json
