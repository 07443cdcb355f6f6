/-!
# Blank characters

The characters of the Unicode property White_Space, and trimming by them. The layout of a program
decides by this property whether a line is empty and where its content ends; zero-width marks such
as U+200B and U+FEFF do not have it.
-/

namespace Offside.Text

/-- The code points with the property White_Space, as ranges with both ends. -/
def blankRanges : List (Nat × Nat) :=
  [(0x9, 0xd), (0x20, 0x20), (0x85, 0x85), (0xa0, 0xa0), (0x1680, 0x1680), (0x2000, 0x200a),
   (0x2028, 0x2029), (0x202f, 0x202f), (0x205f, 0x205f), (0x3000, 0x3000)]

/-- Whether a character is white space. -/
def isBlank (c : Char) : Bool :=
  blankRanges.any fun range => range.1 ≤ c.toNat && c.toNat ≤ range.2

/-- A text without the blank characters at its end. -/
def trimEnd (text : List Char) : List Char :=
  (text.reverse.dropWhile isBlank).reverse

end Offside.Text
