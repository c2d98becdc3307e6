import Reckoner.Text.Range

/-!
# Blanks

The characters that separate and are otherwise ignored: the Unicode white space, and the four
ASCII separators that precede the space.
-/

namespace Reckoner.Text

/-- The blank characters. -/
def blankRanges : List (Nat × Nat) :=
  [(9, 13), (28, 32), (133, 133), (160, 160), (5760, 5760), (8192, 8202), (8232, 8233),
   (8239, 8239), (8287, 8287), (12288, 12288)]

/-- A character that counts as white space. -/
def isBlank (c : Char) : Bool :=
  inRanges blankRanges c.toNat

/-- The text without blanks at its start. -/
def stripStart (text : List Char) : List Char :=
  text.dropWhile isBlank

/-- The text without blanks at its end. -/
def stripEnd (text : List Char) : List Char :=
  (text.reverse.dropWhile isBlank).reverse

/-- The text without blanks at either end. -/
def strip (text : List Char) : List Char :=
  stripEnd (stripStart text)

end Reckoner.Text
