import CallbackGateway.Json.Token

/-!
# JSON trees

Tokens are assembled into one tree by a machine that keeps the open arrays and objects on a
stack. A tree is accepted only if no token is left over.
-/

namespace CallbackGateway.Json

/-- A document whose strings and numbers were not interpreted. -/
inductive Tree
  | null
  | boolean (value : Bool)
  | number (numeral : Numeral)
  | string (quoted : Quoted)
  | array (items : List Tree)
  | object (members : List (Quoted × Tree))

/-- An array or object that waits for a value, with what it holds, the latest first. -/
inductive Frame
  | item (latest : List Tree)
  | member (key : Quoted) (latest : List (Quoted × Tree))

/-- What may come next, inside the open frames. -/
inductive Position
  /-- A value. -/
  | value (outer : List Frame)
  /-- The first item of an array, or its end. -/
  | firstItem (outer : List Frame)
  /-- The first key of an object, or its end. -/
  | firstKey (outer : List Frame)
  /-- A key of an object. -/
  | key (latest : List (Quoted × Tree)) (outer : List Frame)
  /-- The colon after a key. -/
  | colon (key : Quoted) (latest : List (Quoted × Tree)) (outer : List Frame)
  /-- A comma after an item, or the end of the array. -/
  | afterItem (latest : List Tree) (outer : List Frame)
  /-- A comma after a member, or the end of the object. -/
  | afterMember (latest : List (Quoted × Tree)) (outer : List Frame)
  /-- Nothing: the document is complete. -/
  | finished (tree : Tree)

/-- Where a complete value leads. -/
def complete (tree : Tree) : List Frame → Position
  | [] => .finished tree
  | .item latest :: outer => .afterItem (tree :: latest) outer
  | .member key latest :: outer => .afterMember ((key, tree) :: latest) outer

/-- Where a token leads that must start a value. -/
def valueStep (outer : List Frame) : Token → Option Position
  | .null => some (complete .null outer)
  | .boolean value => some (complete (.boolean value) outer)
  | .number numeral => some (complete (.number numeral) outer)
  | .string quoted => some (complete (.string quoted) outer)
  | .openArray => some (.firstItem outer)
  | .openObject => some (.firstKey outer)
  | .closeArray | .closeObject | .comma | .colon => none

/-- Where a token leads. -/
def Position.step : Position → Token → Option Position
  | .value outer, token => valueStep outer token
  | .firstItem outer, .closeArray => some (complete (.array []) outer)
  | .firstItem outer, token => valueStep (.item [] :: outer) token
  | .firstKey outer, .closeObject => some (complete (.object []) outer)
  | .firstKey outer, .string name => some (.colon name [] outer)
  | .key latest outer, .string name => some (.colon name latest outer)
  | .colon name latest outer, .colon => some (.value (.member name latest :: outer))
  | .afterItem latest outer, .comma => some (.value (.item latest :: outer))
  | .afterItem latest outer, .closeArray => some (complete (.array latest.reverse) outer)
  | .afterMember latest outer, .comma => some (.key latest outer)
  | .afterMember latest outer, .closeObject => some (complete (.object latest.reverse) outer)
  | _, _ => none

/-- Follow tokens from a position. -/
def Position.run (position : Position) : List Token → Option Position
  | [] => some position
  | token :: rest =>
    match position.step token with
    | some next => next.run rest
    | none => none

/-- The tree of a complete document. -/
def Position.tree? : Position → Option Tree
  | .finished tree => some tree
  | _ => none

/-- The tree that tokens spell. -/
def Tree.ofTokens? (tokens : List Token) : Option Tree :=
  ((Position.value []).run tokens).bind Position.tree?

/-- The tree that bytes spell. -/
def Tree.read? (bytes : Bytes) : Option Tree := (tokens? bytes).bind Tree.ofTokens?

end CallbackGateway.Json
