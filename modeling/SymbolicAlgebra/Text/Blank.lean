import SymbolicAlgebra.Text.CharRanges

/-! # Blanks

The white space that separates tokens and is dropped at both ends of an input text: the Unicode
white space and the four information separators. The zero width space is not blank. Around an
integer the separators are not dropped. -/

namespace SymbolicAlgebra

/-- The code points of blanks. -/
def blankRanges : CharRanges :=
  [(9, 13), (28, 32), (133, 133), (160, 160), (5760, 5760), (8192, 8202), (8232, 8233),
    (8239, 8239), (8287, 8287), (12288, 12288)]

/-- A character of white space. -/
def isBlank (c : Char) : Bool :=
  inRanges blankRanges c

/-- A blank that is no information separator. -/
def isSpace (c : Char) : Bool :=
  isBlank c && !inRanges [(28, 31)] c

/-- A text without its last characters as long as they are of a kind. -/
def dropTrailing (p : Char → Bool) (cs : List Char) : List Char :=
  (cs.reverse.dropWhile p).reverse

/-- A text without the characters of a kind at its two ends. -/
def trim (p : Char → Bool) (cs : List Char) : List Char :=
  dropTrailing p (cs.dropWhile p)

/-- A text without the blanks at its two ends. -/
def trimBlanks (cs : List Char) : List Char :=
  trim isBlank cs

/-- A text without the spaces at its two ends. -/
def trimSpaces (cs : List Char) : List Char :=
  trim isSpace cs

end SymbolicAlgebra
