/-!
# Blank characters

The characters with the Unicode property `White_Space`, and trimming by them.
-/

namespace HalfBinary.Text

/-- The first and last code points of the ranges with the property `White_Space`. -/
def blankRanges : List (UInt32 × UInt32) :=
  [(0x09, 0x0D), (0x20, 0x20), (0x85, 0x85), (0xA0, 0xA0), (0x1680, 0x1680), (0x2000, 0x200A),
    (0x2028, 0x2029), (0x202F, 0x202F), (0x205F, 0x205F), (0x3000, 0x3000)]

/-- Whether a character has the property `White_Space`. -/
def isBlank (c : Char) : Bool := blankRanges.any fun (first, last) => first ≤ c.val && c.val ≤ last

/-- The text without the blanks at its two ends. -/
def trim (text : String) : String :=
  String.ofList ((text.toList.dropWhile isBlank).reverse.dropWhile isBlank).reverse

example : (blankRanges.map fun (first, last) => last - first + 1).sum = 25 := by decide

end HalfBinary.Text
