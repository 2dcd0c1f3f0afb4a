import EsOptimizer.SyntaxError
import EsOptimizer.Text.Blank

/-!
# Cursors

A cursor is the rest of a text together with the position of its first character. Moving over a
character updates the position: a line end starts the next line, except that a carriage return in
front of a line feed leaves the counting to the line feed.
-/

namespace EsOptimizer

/-- The rest of a text and where it starts. -/
structure Cursor where
  rest : List Char
  pos : Position
deriving DecidableEq, Repr

/-- The position after the character `c`, in front of `rest`. -/
def Position.past (p : Position) (c : Char) (rest : List Char) : Position :=
  if !Text.isLineEnd c then ⟨p.line, p.column + 1⟩
  else if c == '\r' && rest.head? == some '\n' then p
  else ⟨p.line + 1, 1⟩

namespace Cursor

/-- The beginning of a text. -/
def start (cs : List Char) : Cursor := ⟨cs, ⟨1, 1⟩⟩

def head? (c : Cursor) : Option Char := c.rest.head?

/-- The character after the first. -/
def second? (c : Cursor) : Option Char := c.rest.tail.head?

/-- Moves over one character; at the end of the text, stays. -/
def next : Cursor → Cursor
  | ⟨[], p⟩ => ⟨[], p⟩
  | ⟨c :: rest, p⟩ => ⟨rest, p.past c rest⟩

/-- Moves over `n` characters. -/
def skip : Nat → Cursor → Cursor
  | 0, c => c
  | n + 1, c => skip n c.next

/-- Moves over the longest run of characters that `p` accepts: the run, and what follows it. -/
def spanFrom (p : Char → Bool) : List Char → Position → List Char × Cursor
  | [], pos => ([], ⟨[], pos⟩)
  | c :: rest, pos =>
    if p c then
      let (run, after) := spanFrom p rest (pos.past c rest)
      (c :: run, after)
    else ([], ⟨c :: rest, pos⟩)

@[inherit_doc spanFrom]
def span (p : Char → Bool) (c : Cursor) : List Char × Cursor := spanFrom p c.rest c.pos

/-- An error at the cursor. -/
def fail {α : Type} (c : Cursor) (cause : SyntaxCause) : Except SyntaxError α :=
  .error ⟨c.pos, cause⟩

/-- Whether the text goes on with a character that `p` accepts. -/
def sees (c : Cursor) (p : Char → Bool) : Bool := c.head?.any p

end Cursor

end EsOptimizer
