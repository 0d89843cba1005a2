import CallbackGateway.Http.Percent

/-!
# Form data

A query is a list of pairs between ampersands. A name ends at the first equals sign, a plus sign
stands for a blank, and bytes that are not text are shown as replacement characters.
-/

namespace CallbackGateway.Http

/-- Split a text at every occurrence of a character. -/
def splitAt (mark : Char) : List Char → List (List Char)
  | [] => [[]]
  | c :: rest =>
    if c = mark then [] :: splitAt mark rest
    else
      match splitAt mark rest with
      | first :: others => (c :: first) :: others
      | [] => [[c]]

/-- The text that a part of a pair stands for. -/
def formText (written : List Char) : String :=
  let spaced := written.map fun c => if c = '+' then ' ' else c
  String.ofList (Text.Utf8.decodeLossy (percentDecode (Text.Utf8.encode spaced)))

/-- The name and the value that a pair stands for. -/
def formPair (written : List Char) : String × String :=
  (formText (written.takeWhile (· ≠ '=')), formText ((written.dropWhile (· ≠ '=')).drop 1))

/-- The pairs of a query. -/
def formPairs (query : List Char) : List (String × String) :=
  ((splitAt '&' query).filter (· ≠ [])).map formPair

/-- The value of a name that may be given once; none if it is given more than once. -/
def optionalField (pairs : List (String × String)) (name : String) : Option (Option String) :=
  match pairs.filter (·.1 = name) with
  | [] => some none
  | [pair] => some (some pair.2)
  | _ => none

/-- The value of a name that must be given once. -/
def requiredField (pairs : List (String × String)) (name : String) : Option String :=
  (optionalField pairs name).bind id

end CallbackGateway.Http
