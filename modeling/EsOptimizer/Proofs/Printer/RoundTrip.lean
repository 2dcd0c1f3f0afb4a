import EsOptimizer.Proofs.Parser.Numbering
import EsOptimizer.Proofs.Parser.Printed
import EsOptimizer.Proofs.Parser.Told
import EsOptimizer.Proofs.Printer.Spaced
import EsOptimizer.Proofs.Printer.Tokens
import EsOptimizer.Proofs.Syntax.Fill

/-!
# Printing and parsing

What is printed of a legal program is parsed to the program again, up to ids, to the braces that the
printer puts around some consequents, and to the sign of a zero (`parse_print`). The program may have
no slash, as a text alone does not tell a division from a regular expression, and its names and
numbers must have a text (`Program.isWritable`).

The printer and the parser meet at the marks of a program, its tokens together with what is asked of
the line ends in front of them. A layout of pieces that are kept apart is cut into its marks
(`tokenize_layout`), the pieces of a program are kept apart (`separated_program`), and a parser in
front of the marks of a program builds its shape (`Parser.parses_program`).

A program that comes from a parse has no consequent that needs braces and no sign in front of a zero
(`told_of_parse`), and its ids count its nodes in the order in which they end
(`dense_ids_of_parse`). Since a program is determined by its shape and its ids
(`Program.eq_of_shape`), it is parsed to itself.
-/

namespace EsOptimizer

open Piece (marks)

/-- Whether a program has a text that is read as it is meant. -/
def Program.isWritable (p : Program) : Bool := p.nodes.all Node.isWritable

theorem allWritable_of_isLegal {p : Program} (hlegal : p.isLegal = true)
    (hw : p.isWritable = true) : AllWritable p.nodes := by
  rw [Program.isLegal, Bool.and_eq_true] at hlegal
  exact fun n hn => ⟨List.all_eq_true.mp hlegal.1 n hn, List.all_eq_true.mp hw n hn⟩

theorem separated_program {p : Program} (hw : AllWritable p.nodes) :
    Piece.Separated (.word .null) (stmtPieces p.body) :=
  (leads_stmts (stmts_spaced p.body hw) _ (Token.free_word _)).1

theorem shows_ofLexemes {ls : List Lexeme} {e : Lexeme} {ms : List Mark} (h : Mark.Fits ls ms)
    (he : e.token = .eof) : (ParseState.ofLexemes (ls ++ [e])).Shows ms where
  pending := by simpa [ParseState.ofLexemes] using h
  final := by simpa [ParseState.ofLexemes] using he

/-- What is printed is parsed to the same shape. -/
theorem exists_parse_print {p : Program} (hw : AllWritable p.nodes)
    (hplaced : allPlaced {} p.body = true) (minify : Bool) :
    ∃ src, parse (p.print minify) = .ok src ∧ src.program.shape false = p.shape true := by
  obtain ⟨ls, e, htokens, hfits, he⟩ := tokenize_layout minify (separated_program hw)
  have hlength : ls.length = (marks true (stmtPieces p.body)).length := hfits.length_eq
  have hdepth : 16 * (marks true (stmtPieces p.body)).length + 12 ≤
      16 * ((ls ++ [e]).length + 1) := by
    rw [List.length_append, List.length_singleton]
    omega
  obtain ⟨q, s, hrun, -, hshape⟩ :=
    Parser.parses_program hw hplaced hdepth _ (shows_ofLexemes hfits he)
  refine ⟨⟨q, s.nextId⟩, ?_, hshape⟩
  unfold parse
  rw [Program.print, htokens]
  change (Parser.program (16 * ((ls ++ [e]).length + 1)) (.ofLexemes (ls ++ [e])) >>= fun r =>
    pure (Source.mk r.1 r.2.nextId)) = _
  rw [hrun]
  rfl

/-- Two texts with programs of one shape have one program. -/
theorem source_eq_of_shape {text text' : String} {src src' : Source}
    (h : parse text = .ok src) (h' : parse text' = .ok src')
    (hshape : src.program.shape false = src'.program.shape false) : src = src' := by
  obtain ⟨hids, hnext⟩ := dense_ids_of_parse h
  obtain ⟨hids', hnext'⟩ := dense_ids_of_parse h'
  -- Either list of ids begins with the other, so both go on to a common one.
  have happend (n m : Nat) : List.range n ++ List.range' n m = List.range (n + m) := by
    rw [List.range_eq_range', List.range_eq_range', ← List.range'_append_1, Nat.zero_add]
  have hcommon : src.program.ids ++ List.range' src.nextId src'.nextId =
      src'.program.ids ++ List.range' src'.nextId src.nextId := by
    rw [hids, hids', happend, happend, Nat.add_comm]
  obtain ⟨p, n⟩ := src
  obtain ⟨p', n'⟩ := src'
  obtain rfl : p = p' := Program.eq_of_shape hshape hcommon
  exact congrArg (Source.mk p) (hnext.symm.trans hnext')

/-- What is printed of a legal program is parsed to it, up to ids, braces and the sign of a zero. If
the program comes from a parse, it is parsed to the program itself. -/
theorem parse_print {p : Program} (hlegal : p.isLegal = true) (hw : p.isWritable = true)
    (minify : Bool) :
    ∃ src, parse (p.print minify) = .ok src ∧ src.program.shape false = p.shape true ∧
      ∀ text src', parse text = .ok src' → src'.program = p → src = src' := by
  have hplaced : allPlaced {} p.body = true := by
    rw [Program.isLegal, Bool.and_eq_true] at hlegal
    exact hlegal.2
  obtain ⟨src, hparse, hshape⟩ :=
    exists_parse_print (allWritable_of_isLegal hlegal hw) hplaced minify
  refine ⟨src, hparse, hshape, fun text src' hparse' hp => ?_⟩
  subst hp
  exact source_eq_of_shape hparse hparse' (hshape.trans (told_of_parse hparse'))

/-- An `else` behind an `if` that has none, which no text gives without braces. -/
def dangling : Program where
  id := 9
  body := [.if 8 (.ident ⟨0, "a"⟩)
    (.if 4 (.ident ⟨1, "b"⟩) (.expr 3 (.ident ⟨2, "c"⟩)) none)
    (some (.expr 7 (.unary 6 .minus (.number 5 (.ofNat 1)))))]

theorem parse_print_dangling : ∃ src, parse (dangling.print true) = .ok src ∧
    src.program.shape false = dangling.shape true ∧ parse (src.program.print false) = .ok src := by
  obtain ⟨src, hparse, hshape, -⟩ :=
    parse_print (p := dangling) (by decide +kernel) (by decide +kernel) true
  have hlegal : ((parse (dangling.print true)).toOption.all fun src =>
      src.program.isLegal && src.program.isWritable) = true := by decide +kernel
  rw [hparse] at hlegal
  obtain ⟨hlegal, hw⟩ := (Bool.and_eq_true _ _).mp hlegal
  obtain ⟨again, hagain, -, hself⟩ := parse_print hlegal hw false
  rw [hself _ _ hparse rfl] at hagain
  exact ⟨src, hparse, hshape, hagain⟩

end EsOptimizer
