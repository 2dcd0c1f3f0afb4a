import EsOptimizer.Printer.Tree
import EsOptimizer.Proofs.Parser.Parses

/-!
# The marks of printed pieces

Pieces are read back as tokens, with a line end where the pieces start a new line. `Piece.marks` says
which; it asks the lexer about each piece by itself, so that what pieces do to each other in a text
is a question of its own.
-/

namespace EsOptimizer

/-- The token that a text spells by itself. -/
def Token.ofText (s : String) : Token :=
  match s.toList with
  | [] => .eof
  | c :: _ =>
    match Lexer.readToken false c (.start s.toList) with
    | .ok (t, _) => t
    | .error _ => .eof

namespace Piece

/-- The tokens of pieces behind a place where a line may have ended if `broken`. -/
def marks : (broken : Bool) → List Piece → List Mark
  | _, [] => []
  | broken, .text s :: rest => ⟨.ofText s, broken⟩ :: marks false rest
  | _, .line :: rest => marks true rest
  | broken, .space :: rest | broken, .gap :: rest | broken, .indent :: rest
  | broken, .dedent :: rest => marks broken rest

/-- Whether a line may have ended behind the last token of pieces. -/
def endsLine : (broken : Bool) → List Piece → Bool
  | broken, [] => broken
  | _, .text _ :: rest => endsLine false rest
  | _, .line :: rest => endsLine true rest
  | broken, .space :: rest | broken, .gap :: rest | broken, .indent :: rest
  | broken, .dedent :: rest => endsLine broken rest

variable {b : Bool} {ps qs : List Piece}

@[simp] theorem marks_append :
    marks b (ps ++ qs) = marks b ps ++ marks (endsLine b ps) qs := by
  induction ps generalizing b with
  | nil => rfl
  | cons p rest ih => cases p <;> simp [marks, endsLine, ih]

@[simp] theorem endsLine_append : endsLine b (ps ++ qs) = endsLine (endsLine b ps) qs := by
  induction ps generalizing b with
  | nil => rfl
  | cons p rest ih => cases p <;> simp [endsLine, ih]

end Piece

attribute [simp] Piece.marks Piece.endsLine

/-! ## Fixed texts -/

namespace Token

/-- The punctuation that the printer writes. -/
@[simp] theorem ofText_punctuation :
    ofText "(" = .punct .lparen ∧ ofText ")" = .punct .rparen ∧ ofText "[" = .punct .lbracket ∧
    ofText "]" = .punct .rbracket ∧ ofText "\x7b" = .punct .lbrace ∧
    ofText "\x7d" = .punct .rbrace ∧ ofText "." = .punct .dot ∧ ofText "," = .punct .comma ∧
    ofText ";" = .punct .semicolon ∧ ofText ":" = .punct .colon ∧ ofText "?" = .punct .question ∧
    ofText "=" = .assign .assign := by decide +kernel

/-- The words that the printer writes. -/
@[simp] theorem ofText_words :
    ofText "this" = .kw .this ∧ ofText "function" = .kw .function ∧ ofText "new" = .kw .new ∧
    ofText "if" = .kw .if ∧ ofText "else" = .kw .else ∧ ofText "for" = .kw .for ∧
    ofText "in" = .kw .in ∧ ofText "while" = .kw .while ∧ ofText "do" = .kw .do ∧
    ofText "return" = .kw .return ∧ ofText "break" = .kw .break ∧
    ofText "continue" = .kw .continue ∧ ofText "throw" = .kw .throw ∧ ofText "with" = .kw .with ∧
    ofText "try" = .kw .try ∧ ofText "catch" = .kw .catch ∧ ofText "finally" = .kw .finally ∧
    ofText "null" = .word .null ∧ ofText "true" = .word .true ∧ ofText "false" = .word .false ∧
    ofText "get" = .word (.ident "get") ∧ ofText "set" = .word (.ident "set") := by decide +kernel

def ofDeclKind : DeclKind → Token
  | .var => kw .var
  | .let => kw .let
  | .const => kw .const

/-- The token of a binary operator. Two of them are words. -/
def ofBinary : BinaryOp → Token
  | .in => kw .in
  | .instanceOf => kw .instanceof
  | op => .binary op

def ofUnary : UnaryOp → Token
  | .minus => .binary .sub
  | .plus => .binary .add
  | .not => .punct .bang
  | .bitNot => .punct .tilde
  | .typeOf => kw .typeof
  | .void => kw .void
  | .delete => kw .delete

def ofUpdate : UpdateOp → Token
  | .increment => .punct .plusPlus
  | .decrement => .punct .minusMinus

/-- Every operator is read as the token of its kind. -/
theorem ofText_operators :
    (∀ op : BinaryOp, ofText op.text = ofBinary op) ∧
    (∀ op : AssignOp, ofText op.text = .assign op) ∧
    (∀ op : UnaryOp, ofText op.text = ofUnary op) ∧
    (∀ op : UpdateOp, ofText op.text = ofUpdate op) ∧
    (∀ kind : DeclKind, ofText kind.text = ofDeclKind kind) := by
  refine ⟨fun op => ?_, fun op => ?_, fun op => ?_, fun op => ?_, fun kind => ?_⟩
  case refine_5 => cases kind <;> decide +kernel
  all_goals cases op <;> decide +kernel

@[simp] theorem ofText_declKind (kind : DeclKind) : ofText kind.text = ofDeclKind kind :=
  ofText_operators.2.2.2.2 kind

@[simp] theorem ofText_binary (op : BinaryOp) : ofText op.text = ofBinary op :=
  ofText_operators.1 op

@[simp] theorem ofText_assign (op : AssignOp) : ofText op.text = .assign op :=
  ofText_operators.2.1 op

@[simp] theorem ofText_unary (op : UnaryOp) : ofText op.text = ofUnary op :=
  ofText_operators.2.2.1 op

@[simp] theorem ofText_update (op : UpdateOp) : ofText op.text = ofUpdate op :=
  ofText_operators.2.2.2.1 op

end Token

end EsOptimizer
