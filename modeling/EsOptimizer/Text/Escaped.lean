import EsOptimizer.Text.Printable

/-!
# Escaped texts

How messages show a character or a text that came from the input: between quotes, with an escape
for the quote in use, the backslash and the common controls. What would not show, or would attach
itself to the character in front of it, is written by its code point.
-/

namespace EsOptimizer
namespace Text

/-- A character by its code point: `\u`, and the fewest hexadecimal digits between braces. -/
def codePointEscape (c : Char) : List Char :=
  '\\' :: 'u' :: '\x7b' :: Nat.toDigits 16 c.toNat ++ ['\x7d']

/-- What a character looks like between quotes of the kind `quote`. -/
def escapedChar (quote : Char) (c : Char) : List Char :=
  if c == '\x00' then ['\\', '0']
  else if c == '\t' then ['\\', 't']
  else if c == '\r' then ['\\', 'r']
  else if c == '\n' then ['\\', 'n']
  else if c == '\\' || c == quote then ['\\', c]
  else if isGraphemeExtender c || !isPrintable c then codePointEscape c
  else [c]

/-- A single character, between single quotes. -/
def escapedSingle (c : Char) : String :=
  String.ofList ('\'' :: escapedChar '\'' c ++ ['\''])

/-- A text, between double quotes. -/
def escaped (s : String) : String :=
  String.ofList ('"' :: s.toList.flatMap (escapedChar '"') ++ ['"'])

end Text
end EsOptimizer
