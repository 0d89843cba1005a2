/-!
# Labels

A series of measurements is told apart by its labels. The order in which they are given does
not matter: labels are kept sorted.
-/

namespace CallbackGateway.Metrics

/-- Names with values. -/
abbrev Labels := List (String × String)

/-- Whether a label does not come after another: names decide first, then values. -/
def labelInOrder (left right : String × String) : Bool :=
  left.1 < right.1 || (left.1 == right.1 && !(right.2 < left.2))

/-- The labels in order. -/
def arrange (labels : Labels) : Labels := labels.mergeSort labelInOrder

/-- How a character is written in the value of a label. -/
def escapeChar (c : Char) : List Char :=
  if c == '\\' then ['\\', '\\']
  else if c == '"' then ['\\', '"']
  else if c == '\n' then ['\\', 'n']
  else [c]

/-- How the value of a label is written. -/
def escape (value : String) : List Char := value.toList.flatMap escapeChar

/-- The written form of a label. -/
def writeLabel (label : String × String) : List Char :=
  label.1.toList ++ ['=', '"'] ++ escape label.2 ++ ['"']

/-- The written form of labels. -/
def writeLabels : Labels → List Char
  | [] => []
  | [last] => writeLabel last
  | label :: rest => writeLabel label ++ ',' :: writeLabels rest

/-- The written form of a value of a label stays on one line. -/
theorem newline_not_mem_escape (value : String) : '\n' ∉ escape value := by
  intro h
  obtain ⟨c, _, hc⟩ := List.mem_flatMap.mp h
  unfold escapeChar at hc
  split at hc
  · simp at hc
  split at hc
  · simp at hc
  split at hc
  · simp at hc
  · rename_i hn
    simp only [List.mem_singleton] at hc
    exact hn (by simp [← hc])

/-- Arranging keeps the labels. -/
theorem arrange_perm (labels : Labels) : (arrange labels).Perm labels := List.mergeSort_perm _ _

end CallbackGateway.Metrics
