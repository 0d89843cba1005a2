import CallbackGateway.Yaml.Lexer
import CallbackGateway.Yaml.Node

/-!
# Reading a document

Tokens are assembled into one tree. Indented sequences and mappings end with a token of their
own, except a sequence that is not indented further than the mapping around it; where a node may
be left out, an empty one stands for it.
-/

namespace CallbackGateway.Yaml

/-- What the handles of tags stand for. -/
abbrev Handles := List (List Char × Bytes)

/-- The handles that need no directive. -/
def usualHandles : Handles :=
  [(['!'], [0x21]), (['!', '!'], Text.Utf8.encodeString "tag:yaml.org,2002:")]

/-- The tokens that are left, and the anchors so far with their numbers. -/
structure Cursor where
  rest : List Token
  names : List (List Char × Nat) := []

/-- The number of the next anchor: anchors that share a name count once. -/
def Cursor.name (cursor : Cursor) : Option (List Char) → Option Nat × Cursor
  | none => (none, cursor)
  | some name =>
    let number := cursor.names.length
    (some number,
      { cursor with names := (name, number) :: cursor.names.filter (·.1 != name) })

/-- What stands in front of a node. -/
structure Properties where
  anchor : Option (List Char) := none
  tag : Option Bytes := none

/-- A tag in full. -/
def tagName? (handles : Handles) (handle : List Char) (suffix : Bytes) : Option Bytes :=
  if handle.isEmpty then some suffix else (handles.lookup handle).map (· ++ suffix)

/-- Read what stands in front of a node. -/
def properties? (handles : Handles) : List Token → Option (Properties × List Token)
  | .anchor name :: .tag handle suffix :: rest
  | .tag handle suffix :: .anchor name :: rest =>
    (tagName? handles handle suffix).map fun tag => (⟨some name, some tag⟩, rest)
  | .anchor name :: rest => some (⟨some name, none⟩, rest)
  | .tag handle suffix :: rest =>
    (tagName? handles handle suffix).map fun tag => (⟨none, some tag⟩, rest)
  | rest => some ({}, rest)

/-- The tag that counts: one exclamation mark alone asks for a text as it is. -/
def scalarTag (tag : Option Bytes) : Option Bytes := tag.filter (· != [0x21])

/-- A node that was read. -/
abbrev Read := Option (Node × Cursor)

/-- An anchored node without a text. -/
def leftOut? (properties : Properties) (cursor : Cursor) : Read :=
  if properties.anchor.isNone && properties.tag.isNone then none
  else
    let (number, named) := cursor.name properties.anchor
    some (.scalar number { tag := properties.tag }, named)

/-- Read a node unless one of some tokens comes next. -/
def unlessNext (ends : List Token) (read : Cursor → Read) (cursor : Cursor) : Read :=
  if cursor.rest.head?.any ends.contains then some (.empty, cursor) else read cursor

/-- Read the value of an entry, if there is one. -/
def valueOr (ends : List Token) (read : Cursor → Read) (cursor : Cursor) : Read :=
  match cursor.rest with
  | .value :: rest => unlessNext ends read { cursor with rest := rest }
  | _ => some (.empty, cursor)

/-- Leave out the comma in front of an item that is not the first. -/
def afterComma? (first : Bool) (cursor : Cursor) : Option Cursor :=
  if first then some cursor
  else
    match cursor.rest with
    | .flowEntry :: rest => some { cursor with rest := rest }
    | _ => none

/-- The tokens before which an item of a sequence is left out. -/
def itemEnds (indentless : Bool) : List Token :=
  if indentless then [.blockEntry, .key, .value, .blockEnd] else [.blockEntry, .blockEnd]

/-- The tokens before which a key or a value of a mapping is left out. -/
def entryEnds : List Token := [.key, .value, .blockEnd]

/-- The tokens before which the key of a single entry in brackets is left out. -/
def pairEnds : List Token := [.value, .flowEntry, .flowSequenceEnd]

/-- Read the key of a single entry in brackets; the token before which it is left out is lost. -/
def pairKey (read : Cursor → Read) (cursor : Cursor) : Read :=
  if cursor.rest.head?.any pairEnds.contains then
    some (.empty, { cursor with rest := cursor.rest.tail })
  else read cursor

mutual

/-- Read a node, in at most a number of steps. -/
def node? (handles : Handles) (block indentless : Bool) : Nat → Cursor → Read
  | 0, _ => none
  | fuel + 1, cursor =>
    match cursor.rest with
    | .alias name :: rest =>
      (cursor.names.lookup name).map fun number => (.alias number, { cursor with rest := rest })
    | tokens => do
      let (properties, rest) ← properties? handles tokens
      let (anchor, named) := cursor.name properties.anchor
      match rest with
      | .scalar style text :: rest =>
        some (.scalar anchor ⟨style, scalarTag properties.tag, text⟩, { named with rest := rest })
      | .flowSequenceStart :: rest =>
        flowItems? handles anchor true [] fuel { named with rest := rest }
      | .flowMappingStart :: rest =>
        flowEntries? handles anchor true [] fuel { named with rest := rest }
      | .blockSequenceStart :: inner =>
        if block then blockItems? handles anchor false [] fuel { named with rest := inner }
        else leftOut? properties { cursor with rest := rest }
      | .blockMappingStart :: inner =>
        if block then blockEntries? handles anchor [] fuel { named with rest := inner }
        else leftOut? properties { cursor with rest := rest }
      | .blockEntry :: _ =>
        if indentless then blockItems? handles anchor true [] fuel { named with rest := rest }
        else leftOut? properties { cursor with rest := rest }
      | _ => leftOut? properties { cursor with rest := rest }

/-- Read the items of an indented sequence after those that were read. -/
def blockItems? (handles : Handles) (anchor : Option Nat) (indentless : Bool)
    (latest : List Node) : Nat → Cursor → Read
  | 0, _ => none
  | fuel + 1, cursor =>
    match cursor.rest with
    | .blockEntry :: rest => do
      let (item, after) ← unlessNext (itemEnds indentless) (node? handles true false fuel)
        { cursor with rest := rest }
      blockItems? handles anchor indentless (item :: latest) fuel after
    | .blockEnd :: rest =>
      some (.sequence anchor latest.reverse,
        if indentless then cursor else { cursor with rest := rest })
    | _ => if indentless then some (.sequence anchor latest.reverse, cursor) else none

/-- Read the entries of an indented mapping after those that were read. -/
def blockEntries? (handles : Handles) (anchor : Option Nat) (latest : List (Node × Node)) :
    Nat → Cursor → Read
  | 0, _ => none
  | fuel + 1, cursor =>
    match cursor.rest with
    | .key :: rest => do
      let (key, after) ← unlessNext entryEnds (node? handles true true fuel)
        { cursor with rest := rest }
      let (value, after) ← valueOr entryEnds (node? handles true true fuel) after
      blockEntries? handles anchor ((key, value) :: latest) fuel after
    | .blockEnd :: rest => some (.mapping anchor latest.reverse, { cursor with rest := rest })
    | _ => none

/-- Read the items of a sequence in brackets after those that were read. -/
def flowItems? (handles : Handles) (anchor : Option Nat) (first : Bool) (latest : List Node) :
    Nat → Cursor → Read
  | 0, _ => none
  | fuel + 1, cursor =>
    match cursor.rest with
    | .flowSequenceEnd :: rest =>
      some (.sequence anchor latest.reverse, { cursor with rest := rest })
    | _ => do
      let next ← afterComma? first cursor
      match next.rest with
      | .flowSequenceEnd :: rest =>
        some (.sequence anchor latest.reverse, { next with rest := rest })
      | .key :: rest =>
        let (key, after) ← pairKey (node? handles false false fuel) { next with rest := rest }
        let (value, after) ← valueOr [.flowEntry, .flowSequenceEnd]
          (node? handles false false fuel) after
        flowItems? handles anchor false (.mapping none [(key, value)] :: latest) fuel after
      | _ =>
        let (item, after) ← node? handles false false fuel next
        flowItems? handles anchor false (item :: latest) fuel after

/-- Read the entries of a mapping in brackets after those that were read. -/
def flowEntries? (handles : Handles) (anchor : Option Nat) (first : Bool)
    (latest : List (Node × Node)) : Nat → Cursor → Read
  | 0, _ => none
  | fuel + 1, cursor =>
    match cursor.rest with
    | .flowMappingEnd :: rest =>
      some (.mapping anchor latest.reverse, { cursor with rest := rest })
    | _ => do
      let next ← afterComma? first cursor
      match next.rest with
      | .flowMappingEnd :: rest =>
        some (.mapping anchor latest.reverse, { next with rest := rest })
      | .key :: rest =>
        let (key, after) ← unlessNext [.value, .flowEntry, .flowMappingEnd]
          (node? handles false false fuel) { next with rest := rest }
        let (value, after) ← valueOr [.flowEntry, .flowMappingEnd]
          (node? handles false false fuel) after
        flowEntries? handles anchor false ((key, value) :: latest) fuel after
      | _ =>
        let (key, after) ← node? handles false false fuel next
        flowEntries? handles anchor false ((key, .empty) :: latest) fuel after

end

/-- What the directives in front of a document state. -/
structure Directives where
  hasVersion : Bool := false
  handles : Handles := []

/-- Whether a version of documents can be read. -/
def isReadable (major minor : Nat) : Bool := major == 1 && (minor == 1 || minor == 2)

/-- Read the directives in front of a document; none may be repeated. -/
def directives? (stated : Directives) : List Token → Option (Directives × List Token)
  | .version major minor :: rest =>
    if stated.hasVersion || !isReadable major minor then none
    else directives? { stated with hasVersion := true } rest
  | .tagHandle handle start :: rest =>
    if (stated.handles.lookup handle).isSome then none
    else directives? { stated with handles := (handle, start) :: stated.handles } rest
  | rest => some (stated, rest)

/-- Whether a document starts with a mark or a directive. -/
def isMarked : List Token → Bool
  | .version .. :: _ | .tagHandle .. :: _ | .documentStart :: _ => true
  | _ => false

/-- The steps that are enough for some tokens. -/
def enoughSteps (tokens : List Token) : Nat := 4 * (tokens.length + 1)

/-- Read the tree after the mark of a document. -/
def markedRoot? (tokens : List Token) : Read := do
  let (stated, rest) ← directives? {} tokens
  match rest with
  | .documentStart :: rest =>
    let cursor : Cursor := { rest := rest }
    if rest.isEmpty || isMarked rest || rest.head? == some .documentEnd then some (.empty, cursor)
    else node? (stated.handles ++ usualHandles) true false (enoughSteps rest) cursor
  | _ => none

/-- Read the tree of a document. -/
def root? (tokens : List Token) : Read :=
  if isMarked tokens then markedRoot? tokens
  else node? usualHandles true false (enoughSteps tokens) { rest := tokens }

/-- The document that tokens spell; nothing but its end may follow. -/
def Document.ofTokens? (tokens : List Token) : Option Document := do
  let (root, cursor) ← root? tokens
  if cursor.rest.all (· == .documentEnd) then some (.ofRoot root) else none

/-- The document that a text spells. -/
def Document.read? (text : List Char) : Option Document := (tokens? text).bind ofTokens?

end CallbackGateway.Yaml
