import EsOptimizer.Number.Text
import EsOptimizer.Text.Identifier
import EsOptimizer.Token.Cursor

/-!
# From text to tokens

`tokenize` cuts a text into tokens. Between tokens it skips blanks, line ends and comments, and
notes whether a line ended there, also inside a comment. Whether a slash starts a regular
expression is decided from the token in front of it.

The readers move a `Cursor` forward. Those that repeat take a count of the steps they may take,
which the callers set to the length of the text that is left.
-/

namespace EsOptimizer
namespace Lexer

open Text (isLineEnd isBlank isIdentStart isIdentPart)

/-! ## Between tokens -/

/-- Where a gap between tokens stands. -/
inductive Gap where
  | open
  /-- In a comment that ends with the line. -/
  | lineComment
  /-- In a comment that ends with its closing mark, and where it started. -/
  | blockComment (start : Position)

/-- Skips a gap: what follows it, and whether a line ended in it. -/
def skipGap : Gap → List Char → Position → Bool → Except SyntaxError (Cursor × Bool)
  | .blockComment start, [], _, _ => .error ⟨start, .unterminatedComment⟩
  | _, [], pos, ended => .ok (⟨[], pos⟩, ended)
  | .open, [c], pos, ended =>
    if isLineEnd c then .ok (⟨[], pos.past c []⟩, true)
    else if isBlank c then .ok (⟨[], pos.past c []⟩, ended)
    else .ok (⟨[c], pos⟩, ended)
  | .open, c :: d :: rest, pos, ended =>
    let here := pos.past c (d :: rest)
    if isLineEnd c then skipGap .open (d :: rest) here true
    else if isBlank c then skipGap .open (d :: rest) here ended
    else if c == '/' && d == '/' then skipGap .lineComment rest (here.past d rest) ended
    else if c == '/' && d == '*' then skipGap (.blockComment pos) rest (here.past d rest) ended
    else .ok (⟨c :: d :: rest, pos⟩, ended)
  | .lineComment, c :: rest, pos, ended =>
    skipGap (if isLineEnd c then .open else .lineComment) rest (pos.past c rest)
      (ended || isLineEnd c)
  | .blockComment start, [c], pos, ended =>
    skipGap (.blockComment start) [] (pos.past c []) (ended || isLineEnd c)
  | .blockComment start, c :: d :: rest, pos, ended =>
    let here := pos.past c (d :: rest)
    if c == '*' && d == '/' then skipGap .open rest (here.past d rest) ended
    else skipGap (.blockComment start) (d :: rest) here (ended || isLineEnd c)

/-! ## Numbers -/

/-- The base that a mark such as `0x` at the cursor announces. -/
def baseMark? (c : Cursor) : Option Nat :=
  match c.head?, c.second? with
  | some '0', some m =>
    if m == 'x' || m == 'X' then some 16
    else if m == 'o' || m == 'O' then some 8
    else if m == 'b' || m == 'B' then some 2
    else none
  | _, _ => none

/-- Reads the digits after a base mark. -/
def readBased (base : Nat) (c : Cursor) : Except SyntaxError (Number × Cursor) :=
  let (run, after) := c.span fun ch => (Number.digitValue? base ch).isSome
  if run.isEmpty then after.fail .invalidNumber
  else .ok (Number.ofDigits base (run.filterMap (Number.digitValue? base)), after)

/-- Reads the exponent of a decimal, if there is one: its characters, and what follows. -/
def readExponent (c : Cursor) : Except SyntaxError (List Char × Cursor) :=
  match c.head? with
  | some e =>
    if e == 'e' || e == 'E' then
      let afterMark := c.next
      let (sign, afterSign) := match afterMark.head? with
        | some s => if s == '+' || s == '-' then ([s], afterMark.next) else ([], afterMark)
        | none => ([], afterMark)
      let (digits, after) := afterSign.span Number.isDigit
      if digits.isEmpty then afterSign.fail .invalidNumber
      else .ok (e :: sign ++ digits, after)
    else .ok ([], c)
  | none => .ok ([], c)

/-- Reads digits, a point with more digits, and an exponent, all but one of which may be missing. -/
def readDecimal (c : Cursor) : Except SyntaxError (Number × Cursor) := do
  let (whole, afterWhole) := c.span Number.isDigit
  let (part, afterPart) :=
    if afterWhole.head? == some '.' then
      let (digits, after) := afterWhole.next.span Number.isDigit
      ('.' :: digits, after)
    else ([], afterWhole)
  let (exponent, after) ← readExponent afterPart
  match Number.ofDecimalText? (whole ++ part ++ exponent) with
  | some n => .ok (n, after)
  | none => after.fail .invalidNumber

/-- Reads a number. A digit or the start of an identifier must not follow it directly. -/
def readNumber (c : Cursor) : Except SyntaxError (Number × Cursor) := do
  let (n, after) ← match baseMark? c with
    | some base => readBased base (c.skip 2)
    | none => readDecimal c
  if after.sees fun ch => isIdentStart ch || Number.isDigit ch then after.fail .identAfterNumber
  else .ok (n, after)

/-! ## Strings -/

/-- Reads exactly `n` hexadecimal digits after the value read so far. -/
def readHex : (n : Nat) → (value : Nat) → Cursor → Except SyntaxError (Nat × Cursor)
  | 0, value, c => .ok (value, c)
  | n + 1, value, c =>
    match c.head?.bind (Number.digitValue? 16) with
    | some d => readHex n (value * 16 + d) c.next
    | none => c.fail .invalidEscape

/-- The character with a code point, if it is one. -/
def charOf (code : Nat) (after : Cursor) : Except SyntaxError (Option Char × Cursor) :=
  if code.isValidChar then .ok (some (Char.ofNat code), after)
  else after.fail .invalidEscape

/-- Reads a code point between braces; the cursor is behind the opening one. -/
def readBraced (c : Cursor) : Except SyntaxError (Nat × Cursor) :=
  let (digits, after) := c.span fun ch => (Number.digitValue? 16 ch).isSome
  if digits.isEmpty || after.head? != some '\x7d' then after.fail .invalidEscape
  else
    let values := digits.filterMap (Number.digitValue? 16)
    .ok (values.foldl (fun acc d => acc * 16 + d) 0, after.next)

/-- Reads what follows a backslash. A line end there stands for nothing. -/
def readEscape (c : Cursor) : Except SyntaxError (Option Char × Cursor) :=
  match c.head? with
  | none => c.fail .unterminatedString
  | some ch =>
    let after := c.next
    if ch == 'n' then .ok (some '\n', after)
    else if ch == 't' then .ok (some '\t', after)
    else if ch == 'r' then .ok (some '\r', after)
    else if ch == 'b' then .ok (some '\x08', after)
    else if ch == 'f' then .ok (some '\x0c', after)
    else if ch == 'v' then .ok (some '\x0b', after)
    else if ch == '0' && !after.sees Number.isDigit then .ok (some '\x00', after)
    else if ch == 'x' then do
      let (code, after) ← readHex 2 0 after
      charOf code after
    else if ch == 'u' then do
      let (code, after) ←
        if after.head? == some '\x7b' then readBraced after.next else readHex 4 0 after
      charOf code after
    else if ch == '\r' then
      .ok (none, if after.head? == some '\n' then after.next else after)
    else if isLineEnd ch then .ok (none, after)
    else if '1' ≤ ch && ch ≤ '9' then after.fail (.unsupported .octalEscape)
    else .ok (some ch, after)

/-- Reads the rest of a string literal that started at `start`, up to and including the quote. -/
def readStringFrom (quote : Char) (start : Position) :
    (steps : Nat) → Cursor → Except SyntaxError (List Char × Cursor)
  | 0, _ => .error ⟨start, .unterminatedString⟩
  | steps + 1, c =>
    match c.head? with
    | none => .error ⟨start, .unterminatedString⟩
    | some ch =>
      if ch == quote then .ok ([], c.next)
      else if ch == '\\' then do
        let (here, after) ← readEscape c.next
        let (rest, after) ← readStringFrom quote start steps after
        .ok (here.toList ++ rest, after)
      else if ch == '\n' || ch == '\r' then .error ⟨start, .unterminatedString⟩
      else do
        let (rest, after) ← readStringFrom quote start steps c.next
        .ok (ch :: rest, after)

/-- Reads a string literal; the cursor is at its opening quote. -/
def readString (quote : Char) (c : Cursor) : Except SyntaxError (Token × Cursor) := do
  let (cs, after) ← readStringFrom quote c.pos (c.rest.length + 1) c.next
  .ok (.string (String.ofList cs), after)

/-! ## Regular expressions -/

/-- Reads the body of a regular expression that started at `start`, up to its closing slash, which
is left standing. A slash in a bracketed class does not close it. -/
def readRegexBody (start : Position) :
    (inClass : Bool) → List Char → Position → Except SyntaxError (List Char × Cursor)
  | _, [], _ => .error ⟨start, .unterminatedRegex⟩
  | inClass, c :: rest, pos =>
    if isLineEnd c then .error ⟨start, .unterminatedRegex⟩
    else if c == '/' && !inClass then .ok ([], ⟨c :: rest, pos⟩)
    else if c == '\\' then
      match rest with
      | [] => .error ⟨start, .unterminatedRegex⟩
      | d :: rest =>
        if isLineEnd d then .error ⟨start, .unterminatedRegex⟩
        else do
          let (body, after) ← readRegexBody start inClass rest
            ((pos.past c (d :: rest)).past d rest)
          .ok (c :: d :: body, after)
    else do
      let inClass := if c == '[' then true else if c == ']' then false else inClass
      let (body, after) ← readRegexBody start inClass rest (pos.past c rest)
      .ok (c :: body, after)

/-- Reads a regular expression with its flags; the cursor is at its opening slash. -/
def readRegex (c : Cursor) : Except SyntaxError (Token × Cursor) := do
  let first := c.next
  let (body, atSlash) ← readRegexBody c.pos false first.rest first.pos
  let (flags, after) := atSlash.next.span isIdentPart
  .ok (.regex (String.ofList body) (String.ofList flags), after)

/-! ## Punctuation -/

/-- All punctuation, longer marks in front of their beginnings, so that the first match is the
longest. -/
def punctuation : List (String × Token) :=
  [(">>>=", .assign .shiftRightZero),
   ("===", .binary .strictEq), ("!==", .binary .strictNe), (">>>", .binary .shiftRightZero),
   ("<<=", .assign .shiftLeft), (">>=", .assign .shiftRight),
   ("==", .binary .looseEq), ("!=", .binary .looseNe), ("<=", .binary .le), (">=", .binary .ge),
   ("<<", .binary .shiftLeft), (">>", .binary .shiftRight), ("&&", .binary .and),
   ("||", .binary .or), ("++", .punct .plusPlus), ("--", .punct .minusMinus),
   ("+=", .assign .add), ("-=", .assign .sub), ("*=", .assign .mul), ("/=", .assign .div),
   ("%=", .assign .rem), ("&=", .assign .bitAnd), ("|=", .assign .bitOr), ("^=", .assign .bitXor),
   ("=", .assign .assign), ("<", .binary .lt), (">", .binary .gt), ("+", .binary .add),
   ("-", .binary .sub), ("*", .binary .mul), ("/", .binary .div), ("%", .binary .rem),
   ("&", .binary .bitAnd), ("|", .binary .bitOr), ("^", .binary .bitXor), ("!", .punct .bang),
   ("~", .punct .tilde), ("(", .punct .lparen), (")", .punct .rparen), ("[", .punct .lbracket),
   ("]", .punct .rbracket), ("\x7b", .punct .lbrace), ("\x7d", .punct .rbrace),
   (";", .punct .semicolon), (",", .punct .comma), (":", .punct .colon), ("?", .punct .question)]

/-- The longest mark at the cursor. -/
def readPunctuation (first : Char) (c : Cursor) : Except SyntaxError (Token × Cursor) :=
  match punctuation.find? fun (text, _) => text.toList.isPrefixOf c.rest with
  | some (text, token) => .ok (token, c.skip text.length)
  | none => c.fail (.unexpectedChar first)

/-! ## Tokens -/

/-- Reads the token that starts with `first`, at the cursor. -/
def readToken (slashIsRegex : Bool) (first : Char) (c : Cursor) :
    Except SyntaxError (Token × Cursor) :=
  if first == '.' then
    if c.next.sees Number.isDigit then (readNumber c).map fun (n, after) => (.number n, after)
    else .ok (.punct .dot, c.next)
  else if Number.isDigit first then (readNumber c).map fun (n, after) => (.number n, after)
  else if first == '"' || first == '\'' then readString first c
  else if first == '/' && slashIsRegex then readRegex c
  else if isIdentStart first then
    let (run, after) := c.span isIdentPart
    .ok (.word (.ofText (String.ofList run)), after)
  else readPunctuation first c

/-- Reads the tokens from the cursor to the end of the text. -/
def tokensFrom : (steps : Nat) → (slashIsRegex : Bool) → Cursor → Except SyntaxError (List Lexeme)
  | 0, _, c => .ok [⟨.eof, false, c.pos⟩]
  | steps + 1, slashIsRegex, c => do
    let (c, ended) ← skipGap .open c.rest c.pos false
    match c.head? with
    | none => .ok [⟨.eof, ended, c.pos⟩]
    | some first =>
      let (token, after) ← readToken slashIsRegex first c
      let rest ← tokensFrom steps token.precedesExpr after
      .ok (⟨token, ended, c.pos⟩ :: rest)

end Lexer

/-- The tokens of a text, the last of which is the end of the input. -/
def tokenize (text : String) : Except SyntaxError (List Lexeme) :=
  let cs := text.toList
  Lexer.tokensFrom (cs.length + 1) true (.start cs)

end EsOptimizer
