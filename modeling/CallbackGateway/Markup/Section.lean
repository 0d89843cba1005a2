import CallbackGateway.Markup.Token

/-!
# Character data sections

A section cannot hold its own end marker `]]>`, so a text that holds it is cut between `]]` and
`>`. The sections of a text hold the whole text, in order, and none of them holds the marker.
-/

namespace CallbackGateway.Markup

/-- Put a character in front of the first of a list of texts. -/
def consFirst (c : Char) : List (List Char) → List (List Char)
  | [] => [[c]]
  | first :: rest => (c :: first) :: rest

/-- Cut a text into the contents of sections. -/
def chunks : List Char → List (List Char)
  | [] => [[]]
  | ']' :: ']' :: '>' :: rest => [']', ']'] :: consFirst '>' (chunks rest)
  | c :: rest => consFirst c (chunks rest)

/-- The section tokens of a text. -/
def sections (text : List Char) : List Token := (chunks text).map .cdata

/-- The written form of one section. -/
def writeSection (content : List Char) : List Char :=
  "<![CDATA[".toList ++ content ++ "]]>".toList

/-- The written form of a text as sections. -/
def writeSections (text : List Char) : List Char := (chunks text).flatMap writeSection

/-- The contents of consecutive written sections, each up to the first end marker. -/
def readSections : Nat → List Char → Option (List (List Char))
  | _, [] => some []
  | 0, _ :: _ => none
  | bound + 1, written =>
    if "<![CDATA[".toList.isPrefixOf written then
      match breakAt? "]]>".toList (written.drop 9) with
      | some (content, after) => (readSections bound after).map (content :: ·)
      | none => none
    else none

/-- A character in front of the first text is in front of them all. -/
theorem flatten_consFirst (c : Char) (texts : List (List Char)) :
    (consFirst c texts).flatten = c :: texts.flatten := by
  cases texts <;> rfl

/-- The contents of the sections concatenate to the text. -/
@[simp] theorem flatten_chunks (text : List Char) : (chunks text).flatten = text := by
  fun_induction chunks text with
  | case1 => rfl
  | case2 rest ih => simp [flatten_consFirst, ih]
  | case3 c rest _ ih => simp [flatten_consFirst, ih]

/-- With a character in front there is a text. -/
theorem consFirst_ne_nil (c : Char) (texts : List (List Char)) : consFirst c texts ≠ [] := by
  cases texts <;> simp [consFirst]

/-- Every text has at least one section. -/
theorem chunks_ne_nil (text : List Char) : chunks text ≠ [] := by
  fun_cases chunks text with
  | case1 => simp
  | case2 => simp
  | case3 c rest => exact consFirst_ne_nil _ _

end CallbackGateway.Markup
