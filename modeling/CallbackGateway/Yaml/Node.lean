import CallbackGateway.Yaml.Token

/-!
# Nodes of a document

A document is a tree of scalars, sequences and mappings. A node can be anchored under a number,
and an alias stands for the node of its number: the last one that starts with it.
-/

namespace CallbackGateway.Yaml

/-- A text with the way it is written. -/
structure Scalar where
  style : ScalarStyle := .plain
  tag : Option Bytes := none
  text : List Char := []
  deriving DecidableEq, Repr

/-- A node of a document. -/
inductive Node
  | alias (number : Nat)
  | scalar (anchor : Option Nat) (leaf : Scalar)
  | sequence (anchor : Option Nat) (items : List Node)
  | mapping (anchor : Option Nat) (entries : List (Node × Node))

namespace Node

/-- The node that stands for nothing. -/
def empty : Node := .scalar none {}

/-- A node under its number, if it is anchored. -/
def entry (node : Node) : Option Nat → List (Nat × Node)
  | some number => [(number, node)]
  | none => []

mutual

/-- The anchored nodes in the order in which they start. -/
def anchored : Node → List (Nat × Node)
  | .alias _ => []
  | .scalar anchor leaf => (Node.scalar anchor leaf).entry anchor
  | .sequence anchor items => (Node.sequence anchor items).entry anchor ++ anchoredItems items
  | .mapping anchor entries =>
    (Node.mapping anchor entries).entry anchor ++ anchoredEntries entries

/-- The anchored nodes of a sequence. -/
def anchoredItems : List Node → List (Nat × Node)
  | [] => []
  | item :: rest => item.anchored ++ anchoredItems rest

/-- The anchored nodes of a mapping. -/
def anchoredEntries : List (Node × Node) → List (Nat × Node)
  | [] => []
  | (key, value) :: rest => key.anchored ++ value.anchored ++ anchoredEntries rest

end

end Node

/-- A document: its tree, and the nodes that aliases stand for. -/
structure Document where
  root : Node
  /-- The anchored nodes, the last first. -/
  anchored : List (Nat × Node)

namespace Document

/-- The document of a tree. -/
def ofRoot (root : Node) : Document := ⟨root, root.anchored.reverse⟩

/-- What a node stands for. -/
def resolve? (document : Document) : Node → Option Node
  | .alias number => document.anchored.lookup number
  | node => some node

end Document

end CallbackGateway.Yaml
