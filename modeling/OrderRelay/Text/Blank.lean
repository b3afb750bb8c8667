/-!
# Blank characters

A character is blank if Unicode gives it the property `White_Space`. The zero-width space, the
byte order mark and the control characters below the tab are not blank.

* `String.isBlank`: nothing but blanks, the empty text included.
* `String.trimBlanks`: the text without the blanks at its two ends.
-/

namespace OrderRelay

/-- The property `White_Space` of Unicode. -/
def isBlankChar (c : Char) : Bool :=
  let n := c.toNat
  (0x09 ≤ n && n ≤ 0x0D) || n == 0x20 || n == 0x85 || n == 0xA0 || n == 0x1680
    || (0x2000 ≤ n && n ≤ 0x200A) || n == 0x2028 || n == 0x2029 || n == 0x202F || n == 0x205F
    || n == 0x3000

/-- Whether a text shows nothing. -/
def isBlank (s : String) : Bool := s.toList.all isBlankChar

/-- The text without the blanks at its two ends. -/
def trimBlanks (s : String) : String :=
  String.ofList ((s.toList.dropWhile isBlankChar).reverse.dropWhile isBlankChar).reverse

end OrderRelay
