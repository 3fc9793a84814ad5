import EventIndex.Text.AlphanumericTable
import EventIndex.Text.HiddenTable

/-! # Character classes

- `isWhiteSpace`: the 25 characters of the Unicode property White_Space, which
  is trimmed from both ends of a condition;
- `isBlank`: the four characters that may stand between the words of one;
- `isAlphanumeric`: letters and numbers of every script;
- `isHidden`: characters that a quoted text writes by number.
-/

namespace EventIndex.Text

/-- Whether a code point lies in one of some ranges. -/
def inRanges (table : List (Nat × Nat)) (n : Nat) : Bool :=
  table.any fun range => range.1 ≤ n && n ≤ range.2

/-- The characters of the Unicode property White_Space. -/
def whiteSpaceTable : List (Nat × Nat) :=
  [(0x9, 0xD), (0x20, 0x20), (0x85, 0x85), (0xA0, 0xA0), (0x1680, 0x1680), (0x2000, 0x200A),
   (0x2028, 0x2029), (0x202F, 0x202F), (0x205F, 0x205F), (0x3000, 0x3000)]

/-- Whether a character is white space. -/
def isWhiteSpace (c : Char) : Bool := inRanges whiteSpaceTable c.toNat

/-- Whether a character may stand between the words of a condition. -/
def isBlank (c : Char) : Bool := c = ' ' || c = '\t' || c = '\r' || c = '\n'

/-- Whether a character is a letter or number of some script. -/
def isAlphanumeric (c : Char) : Bool :=
  if c.toNat < 0x80 then c.isAlphanum else inRanges alphanumericTable c.toNat

/-- Whether a character is written by number in a quoted text. -/
def isHidden (c : Char) : Bool :=
  if c.toNat < 0x80 then c.toNat < 0x20 || c.toNat = 0x7F else inRanges hiddenTable c.toNat

/-- A text without the white space at its beginning. -/
def trimStart (cs : List Char) : List Char := cs.dropWhile isWhiteSpace

/-- A text without the white space at its end. -/
def trimEnd (cs : List Char) : List Char := (cs.reverse.dropWhile isWhiteSpace).reverse

/-- A text without the white space at both ends. -/
def trim (cs : List Char) : List Char := trimEnd (trimStart cs)

end EventIndex.Text
