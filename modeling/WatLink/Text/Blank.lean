/-!
# Blank characters

The white space that separates tokens and that is trimmed from names.  It is
wider than the ASCII blanks: the four information separators, the next-line
control and the Unicode space separators belong to it, while zero-width
characters do not.
-/

namespace WatLink
namespace Text

/-- Whether a code point lies in one of the inclusive ranges. -/
def inRanges (ranges : List (Nat × Nat)) (codePoint : Nat) : Bool :=
  ranges.any fun range => decide (range.1 ≤ codePoint ∧ codePoint ≤ range.2)

/-- Inclusive code point ranges of the blank characters. -/
def blankRanges : List (Nat × Nat) :=
  [(0x09, 0x0D), (0x1C, 0x20), (0x85, 0x85), (0xA0, 0xA0), (0x1680, 0x1680),
    (0x2000, 0x200A), (0x2028, 0x2029), (0x202F, 0x202F), (0x205F, 0x205F),
    (0x3000, 0x3000)]

/-- Whether a character is white space. -/
def isBlank (character : Char) : Bool :=
  inRanges blankRanges character.toNat

/-- A list of characters without the blanks at either end. -/
def stripList (characters : List Char) : List Char :=
  ((characters.dropWhile isBlank).reverse.dropWhile isBlank).reverse

/-- A text without the blanks at either end. -/
def strip (text : String) : String :=
  String.ofList (stripList text.toList)

end Text
end WatLink
