import EsOptimizer.Text.CodePoints

/-!
# Blank characters

The white space and line ends of the language. Both are one class here: the characters with the
white-space property, and the byte order mark.
-/

namespace EsOptimizer
namespace Text

/-- White space, line ends included, and the byte order mark. -/
def blank : CodePoints := ⟨
  [(0x9, 0xd), (0x20, 0x20), (0x85, 0x85), (0xa0, 0xa0), (0x1680, 0x1680), (0x2000, 0x200a),
   (0x2028, 0x2029), (0x202f, 0x202f), (0x205f, 0x205f), (0x3000, 0x3000), (0xfeff, 0xfeff)]⟩

/-- Whether `c` only separates. -/
def isBlank (c : Char) : Bool := blank.contains c

/-- Whether `c` ends a line. -/
def isLineEnd (c : Char) : Bool :=
  c == '\n' || c == '\r' || c == '\u2028' || c == '\u2029'

/-- Removes the blanks in front. -/
def trimStart (cs : List Char) : List Char := cs.dropWhile isBlank

/-- Removes the blanks at both ends. -/
def trim (cs : List Char) : List Char :=
  ((trimStart cs).reverse.dropWhile isBlank).reverse

end Text
end EsOptimizer
