import EsOptimizer.Text.Alphanumeric

/-!
# Laying out pieces

A program is printed in two steps: the tree becomes a list of pieces, and the pieces become text.
This module is the second step. It indents lines, and it puts a blank between two pieces that would
otherwise read as one token. Layout that only serves the reader is left out of minified text.
-/

namespace EsOptimizer

inductive Piece where
  /-- A token, written as it is. -/
  | text (s : String)
  /-- A blank that separates two tokens. -/
  | space
  /-- A blank that only serves the reader. -/
  | gap
  /-- A new line, unless one was just started. It only serves the reader. -/
  | line
  /-- Lines from here on stand one level deeper. -/
  | indent
  /-- Lines from here on stand one level higher. -/
  | dedent
deriving DecidableEq, Repr

/-- A sheet of text while it is being written. -/
structure Sheet where
  text : String := ""
  indent : Nat := 0
  atLineStart : Bool := true
  /-- The last character of the current line. -/
  last : Option Char := none

namespace Sheet

def isWordChar (c : Char) : Bool := Text.isAlphanumeric c || c == '_' || c == '$'

/-- Whether a token that ends with `last` and one that starts with `first` read as one, or as the
beginning of a comment. -/
def merges (last first : Char) : Bool :=
  (last == '+' && first == '+') || (last == '-' && first == '-') ||
    (last == '/' && (first == '/' || first == '*')) || (isWordChar last && isWordChar first)

/-- Writes a token: behind the indentation at the start of a line, and behind a blank where it
would merge with the token in front. -/
def write (sheet : Sheet) (s : String) : Sheet :=
  match s.toList with
  | [] => sheet
  | first :: rest =>
    let front :=
      if sheet.atLineStart then String.ofList (List.replicate (4 * sheet.indent) ' ')
      else if sheet.last.any (merges · first) then " "
      else ""
    { sheet with
      text := sheet.text ++ front ++ s
      atLineStart := false
      last := some (rest.getLastD first) }

/-- Starts a new line, unless one was just started. -/
def breakLine (sheet : Sheet) : Sheet :=
  if sheet.atLineStart then sheet
  else { sheet with text := sheet.text ++ "\n", atLineStart := true, last := none }

def put (minify : Bool) (sheet : Sheet) : Piece → Sheet
  | .text s => sheet.write s
  | .space => sheet.write " "
  | .gap => if minify then sheet else sheet.write " "
  | .line => if minify then sheet else sheet.breakLine
  | .indent => { sheet with indent := sheet.indent + 1 }
  | .dedent => { sheet with indent := sheet.indent - 1 }

end Sheet

/-- The text of a list of pieces. -/
def Piece.layout (minify : Bool) (pieces : List Piece) : String :=
  (pieces.foldl (Sheet.put minify) {}).text

end EsOptimizer
