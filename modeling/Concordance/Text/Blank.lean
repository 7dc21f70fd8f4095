/-!
# Blanks and words

A property of characters is given as inclusive ranges of code points. Blank characters are those of
the Unicode property White_Space. Texts are trimmed of them and cut into words at them.
-/

namespace Concordance.Text

/-! ## Tables of code points -/

/-- Whether a character lies in one of the ranges. -/
def inRanges (ranges : List (Nat × Nat)) (c : Char) : Bool :=
  ranges.any fun (first, last) => first ≤ c.toNat && c.toNat ≤ last

/-! ## Blanks -/

/-- The ranges of the property White_Space. -/
def blankRanges : List (Nat × Nat) := [
  (0x9, 0xD), (0x20, 0x20), (0x85, 0x85), (0xA0, 0xA0), (0x1680, 0x1680), (0x2000, 0x200A),
  (0x2028, 0x2029), (0x202F, 0x202F), (0x205F, 0x205F), (0x3000, 0x3000)]

def isBlank (c : Char) : Bool := inRanges blankRanges c

/-- Drops the last characters that pass a test. -/
def dropWhileEnd (p : Char → Bool) (cs : List Char) : List Char := (cs.reverse.dropWhile p).reverse

/-- Characters without the blanks at both ends. -/
def trimChars (cs : List Char) : List Char := dropWhileEnd isBlank (cs.dropWhile isBlank)

/-- A text without the blanks at both ends. -/
def trim (s : String) : String := String.ofList (trimChars s.toList)

def trimEnd (s : String) : String := String.ofList (dropWhileEnd isBlank s.toList)

/-- Cuts characters into words; `word` is the word being read. -/
def wordsFrom (word : List Char) : List Char → List String
  | [] => if word.isEmpty then [] else [String.ofList word]
  | c :: rest =>
    if isBlank c then
      if word.isEmpty then wordsFrom [] rest else String.ofList word :: wordsFrom [] rest
    else wordsFrom (word ++ [c]) rest

/-- The words of a text: its longest pieces without blanks. -/
def words (s : String) : List String := wordsFrom [] s.toList

end Concordance.Text
