/-! # Blank characters and lines

A character is blank if it has the Unicode property `White_Space`.
-/

namespace Rollup.Text

/-- Whether a character has the property `White_Space`. -/
def isBlank (c : Char) : Bool :=
  let n := c.toNat
  (0x9 ≤ n && n ≤ 0xD) || n == 0x20 || n == 0x85 || n == 0xA0 || n == 0x1680
    || (0x2000 ≤ n && n ≤ 0x200A) || n == 0x2028 || n == 0x2029 || n == 0x202F || n == 0x205F
    || n == 0x3000

/-- A text without the blanks at its ends. -/
def trim (text : List Char) : List Char :=
  ((text.dropWhile isBlank).reverse.dropWhile isBlank).reverse

/-- A line break ends its line; a return right before it belongs to the break. -/
def endLine (reversed : List Char) : List Char :=
  match reversed with
  | '\r' :: line => line.reverse
  | line => line.reverse

/-- Lines of a text whose current line, read backwards, is `reversed`. -/
def linesFrom (reversed : List Char) : List Char → List (List Char)
  | [] => if reversed.isEmpty then [] else [reversed.reverse]
  | '\n' :: rest => endLine reversed :: linesFrom [] rest
  | c :: rest => linesFrom (c :: reversed) rest

/-- The lines of a text. A final line need not be ended. -/
def lines (text : List Char) : List (List Char) := linesFrom [] text

/-- The lines that hold more than blanks. -/
def filledLines (text : List Char) : List (List Char) :=
  (lines text).filter fun line => !line.all isBlank

end Rollup.Text
