/-!
# Cutting texts

Texts are cut at the first or at every occurrence of a character.
-/

namespace Concordance.Text

/-- The characters before and after the first occurrence of a separator. -/
def splitOnceChars (separator : Char) : List Char → Option (List Char × List Char)
  | [] => none
  | c :: rest =>
    if c = separator then some ([], rest)
    else (splitOnceChars separator rest).map fun (before, after) => (c :: before, after)

/-- The texts before and after the first occurrence of a separator. -/
def splitOnce (separator : Char) (s : String) : Option (String × String) :=
  (splitOnceChars separator s.toList).map fun (before, after) =>
    (String.ofList before, String.ofList after)

/-- The pieces between all occurrences of a separator; there is one piece more than separators. -/
def splitList {α : Type} [DecidableEq α] (separator : α) : List α → List (List α)
  | [] => [[]]
  | a :: rest =>
    if a = separator then [] :: splitList separator rest
    else
      match splitList separator rest with
      | [] => [[a]]
      | piece :: pieces => (a :: piece) :: pieces

/-- The texts between all occurrences of a separator. -/
def splitAll (separator : Char) (s : String) : List String :=
  (splitList separator s.toList).map String.ofList

/-- A text with ASCII letters in lower case. -/
def lowerAscii (s : String) : String := s.map Char.toLower

/-- A text with ASCII letters in upper case. -/
def upperAscii (s : String) : String := s.map Char.toUpper

/-- Texts with a separator between them. -/
def join (separator : String) (parts : List String) : String := separator.intercalate parts

end Concordance.Text
