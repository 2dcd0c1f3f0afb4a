import EsOptimizer.Proofs.Printer.Leads

/-!
# The tokens of a layout

Laid out pieces are cut into the tokens that the pieces spell, whether the text is minified or not:
the blanks and new lines that the layout puts in are skipped, and no text runs into the next one. A
line ends at most where the pieces start a new one.
-/

namespace EsOptimizer

open Piece (Separated marks)
open Token (ofText)

/-! ## What the layout adds -/

namespace Sheet

/-- What stands in front of a token that starts with `first`. -/
def front (sheet : Sheet) (first : Char) : List Char :=
  if sheet.atLineStart then List.replicate (4 * sheet.indent) ' '
  else if sheet.last.any (merges · first) then [' ']
  else []

/-- The characters that are added for a text. -/
def written (sheet : Sheet) (s : String) : List Char :=
  match s.toList with
  | [] => []
  | first :: _ => sheet.front first ++ s.toList

/-- The characters that are added for a piece. -/
def added (minify : Bool) (sheet : Sheet) : Piece → List Char
  | .text s => sheet.written s
  | .space => sheet.written " "
  | .gap => if minify then [] else sheet.written " "
  | .line => if minify || sheet.atLineStart then [] else ['\n']
  | .indent | .dedent => []

theorem toList_write (sheet : Sheet) (s : String) :
    (sheet.write s).text.toList = sheet.text.toList ++ sheet.written s := by
  unfold write written front
  cases hs : s.toList with
  | nil => simp
  | cons first rest =>
    simp only [String.toList_append, hs]
    split
    · simp
    split
    · simp
    · simp

theorem toList_put (minify : Bool) (sheet : Sheet) (p : Piece) :
    (sheet.put minify p).text.toList = sheet.text.toList ++ sheet.added minify p := by
  cases p with
  | text s => exact toList_write sheet s
  | space => exact toList_write sheet " "
  | gap =>
    rw [put, added]
    split
    · rw [List.append_nil]
    · exact toList_write sheet " "
  | line =>
    rw [put, added, breakLine]
    cases minify <;> cases sheet.atLineStart <;> simp
  | indent | dedent => exact (List.append_nil _).symm

end Sheet

/-- The characters that pieces add to a sheet. -/
def Piece.chars (minify : Bool) : Sheet → List Piece → List Char
  | _, [] => []
  | sheet, p :: ps => sheet.added minify p ++ chars minify (sheet.put minify p) ps

theorem Piece.toList_layout (minify : Bool) (ps : List Piece) :
    (Piece.layout minify ps).toList = Piece.chars minify {} ps := by
  have hfold : ∀ sheet : Sheet, (ps.foldl (Sheet.put minify) sheet).text.toList =
      sheet.text.toList ++ Piece.chars minify sheet ps := by
    induction ps with
    | nil => exact fun sheet => (List.append_nil _).symm
    | cons p ps ih =>
      intro sheet
      rw [List.foldl_cons, ih, Sheet.toList_put, Piece.chars, List.append_assoc]
  exact hfold {}

/-! ## What follows a text -/

/-- A blank or a new line does not stick to anything. -/
theorem Token.joins_blank {s : String} (hs : Spelled s) {x : Char} (hx : x = ' ' ∨ x = '\n') :
    Token.joins s x = false := by
  cases hs with
  | word h =>
    rw [Token.joins, Token.ofText_word h]
    rcases hx with rfl | rfl <;> rfl
  | quoted v => rw [Token.joins, Token.ofText_quoted]
  | number h =>
    rw [Token.joins, Token.ofText_number h]
    rcases hx with rfl | rfl <;> rfl
  | mark h hslash =>
    rw [Token.joins_mark h hslash]
    by_contra hsticks
    rw [Bool.not_eq_false] at hsticks
    have hmerge : ∀ y, Sheet.merges y x = false := fun y => by
      have hword : Sheet.isWordChar x = false := by rcases hx with rfl | rfl <;> decide
      rw [Sheet.merges, hword]
      rcases hx with rfl | rfl <;> simp
    have hlonger := (Token.not_joins_of_sticks h hsticks fun y _ => hmerge y).2
    rcases hx with rfl | rfl
    · revert hlonger
      decide
    · revert hlonger
      decide
  | dot =>
    have hdot : ofText "." = .punct .dot := by simp
    rw [Token.joins, hdot]
    rcases hx with rfl | rfl <;> rfl

theorem Token.ne_nil_of_spelled {s : String} (hs : Spelled s) : ∃ x cs, s.toList = x :: cs := by
  cases hs with
  | word h =>
    obtain ⟨x, cs, hs, -⟩ := Text.isWord_iff.mp h
    exact ⟨x, cs, hs⟩
  | quoted v => exact ⟨'"', _, String.toList_ofList⟩
  | number h =>
    obtain ⟨n, hproper, hchars, -⟩ := Number.exists_numeral h
    obtain ⟨x, cs, hcs, -⟩ := hproper.exists_cons
    exact ⟨x, cs, hchars.symm.trans hcs⟩
  | mark h hslash =>
    obtain ⟨x, cs, hs, -⟩ := Token.takes_mark h hslash [] nofun
    exact ⟨x, cs, hs⟩
  | dot => exact ⟨'.', [], rfl⟩

namespace Sheet

variable {sheet : Sheet} {s : String} {x : Char}

theorem written_eq {cs : List Char} (hs : s.toList = x :: cs) :
    sheet.written s = sheet.front x ++ s.toList := by
  rw [written, hs]

theorem written_head (sheet : Sheet) (hs : s.toList.head? = some x) :
    (sheet.written s).head? = some ' ' ∨ (sheet.written s).head? = some x ∧
      (sheet.atLineStart = false → ∀ y, sheet.last = some y → merges y x = false) := by
  obtain ⟨cs, hcs⟩ := List.head?_eq_some_iff.mp hs
  rw [written_eq hcs, List.head?_append, hs, front]
  cases hline : sheet.atLineStart with
  | true =>
    cases 4 * sheet.indent with
    | zero => exact .inr ⟨rfl, nofun⟩
    | succ n => exact .inl rfl
  | false =>
    cases hmerge : sheet.last.any (merges · x) with
    | true => exact .inl rfl
    | false =>
      refine .inr ⟨rfl, fun _ y hy => ?_⟩
      rwa [hy] at hmerge

end Sheet

/-- Behind a text that was just written, nothing sticks to it. -/
theorem stops_chars {minify : Bool} {s : String} (hs : Spelled s) {sheet : Sheet} {ps : List Piece}
    (hsep : Separated (ofText s) ps) (hline : sheet.atLineStart = false)
    (hlast : sheet.last = s.toList.getLast?) :
    Lexer.Stops (Token.joins s) (Piece.chars minify sheet ps) := by
  have hspace : ∀ (sheet : Sheet) rest, Lexer.Stops (Token.joins s) (sheet.written " " ++ rest) :=
      fun sheet rest x hx => by
    rcases Sheet.written_head sheet (show " ".toList.head? = some ' ' from rfl) with h | ⟨h, -⟩ <;>
    · rw [List.head?_append, h] at hx
      cases hx
      exact Token.joins_blank hs (.inl rfl)
  induction ps generalizing sheet with
  | nil => nofun
  | cons p ps ih =>
    cases p with
    | text s' =>
      obtain ⟨hs', hapart, -⟩ := hsep
      obtain ⟨y, cs, hcs⟩ := Token.ne_nil_of_spelled hs'
      have hy : s'.toList.head? = some y := by rw [hcs]; rfl
      intro x hx
      rw [Piece.chars, Sheet.added, List.head?_append] at hx
      rcases Sheet.written_head sheet hy with h | ⟨h, hmerge⟩ <;> rw [h] at hx <;> cases hx
      · exact Token.joins_blank hs (.inl rfl)
      · exact Token.joins_eq_false hs hs' hapart hy fun z hz => hmerge hline z (hlast.trans hz)
    | space => exact hspace sheet _
    | gap =>
      cases minify with
      | true => exact ih hsep hline hlast
      | false => exact hspace sheet _
    | line =>
      cases minify with
      | true => exact ih hsep hline hlast
      | false =>
        intro x hx
        rw [Piece.chars, Sheet.added, hline] at hx
        cases hx
        exact Token.joins_blank hs (.inr rfl)
    | indent => exact @ih { sheet with indent := sheet.indent + 1 } hsep hline hlast
    | dedent => exact @ih { sheet with indent := sheet.indent - 1 } hsep hline hlast

/-! ## From characters to tokens -/

namespace Lexer

/-- What is read from inside a gap: the rest of the gap and the tokens behind it. -/
def tokensBehind (steps : Nat) (slashIsRegex : Bool) (cs : List Char) (pos : Position)
    (ended : Bool) : Except SyntaxError (List Lexeme) := do
  let (c, ended) ← skipGap .open cs pos ended
  match c.head? with
  | none => .ok [⟨.eof, ended, c.pos⟩]
  | some first =>
    let (token, after) ← readToken slashIsRegex first c
    let rest ← tokensFrom steps token.precedesExpr after
    .ok (⟨token, ended, c.pos⟩ :: rest)

/-- Characters behind a place where a line may have ended if `b`, and the tokens that are read. -/
def Lexes (b : Bool) (cs : List Char) (ms : List Mark) : Prop :=
  ∀ steps slash pos ended, cs.length ≤ steps → (ended = true → b = true) →
    ∃ ls e, tokensBehind steps slash cs pos ended = .ok (ls ++ [e]) ∧ Mark.Fits ls ms ∧
      e.token = .eof

namespace Lexes

variable {b : Bool} {x : Char} {cs rest : List Char} {ms : List Mark} {t : Token}

theorem nil : Lexes b [] [] := fun _ _ pos ended _ _ => ⟨[], ⟨.eof, ended, pos⟩, rfl, .nil, rfl⟩

theorem mono {b' : Bool} (h : Lexes b cs ms) (hb : b' = true → b = true) : Lexes b' cs ms :=
  fun steps slash pos ended hsteps hended => h steps slash pos ended hsteps fun h => hb (hended h)

theorem skipGap_blank (hx : Text.isBlank x = true) (hline : Text.isLineEnd x = false)
    (pos : Position) (ended : Bool) :
    skipGap .open (x :: cs) pos ended = skipGap .open cs (pos.past x cs) ended := by
  cases cs with
  | nil => simp [skipGap, hx, hline]
  | cons y cs => simp [skipGap, hx, hline]

theorem skipGap_lineEnd (hline : Text.isLineEnd x = true) (pos : Position) (ended : Bool) :
    skipGap .open (x :: cs) pos ended = skipGap .open cs (pos.past x cs) true := by
  cases cs with
  | nil => simp [skipGap, hline]
  | cons y cs => simp [skipGap, hline]

/-- No gap begins with the character. -/
theorem skipGap_visible (hx : Text.isBlank x = false) (hline : Text.isLineEnd x = false)
    (hslash : x ≠ '/') (pos : Position) (ended : Bool) :
    skipGap .open (x :: cs) pos ended = .ok (⟨x :: cs, pos⟩, ended) := by
  cases cs with
  | nil => simp [skipGap, hx, hline]
  | cons y cs => simp [skipGap, hx, hline, hslash]

theorem blank (h : Lexes b cs ms) : Lexes b (' ' :: cs) ms :=
  fun steps slash pos ended hsteps hended => by
    rw [tokensBehind, skipGap_blank (by decide) (by decide)]
    exact h steps slash _ ended (Nat.le_of_succ_le hsteps) hended

theorem blanks (h : Lexes b cs ms) (n : Nat) : Lexes b (List.replicate n ' ' ++ cs) ms := by
  induction n with
  | zero => exact h
  | succ n ih => exact ih.blank

theorem newline (h : Lexes true cs ms) : Lexes b ('\n' :: cs) ms :=
  fun steps slash pos ended hsteps hended => by
    rw [tokensBehind, skipGap_lineEnd (by decide)]
    exact h steps slash _ true (Nat.le_of_succ_le hsteps) fun _ => rfl

theorem token (hx : Text.isBlank x = false) (hline : Text.isLineEnd x = false) (hslash : x ≠ '/')
    (htakes : ∀ slash, Takes (readToken slash x) (x :: cs) t rest) (h : Lexes false rest ms) :
    Lexes b (x :: cs ++ rest) (⟨t, b⟩ :: ms) :=
  fun steps slash pos ended hsteps hended => by
    obtain ⟨after, hread, hafter⟩ := htakes slash ⟨x :: (cs ++ rest), pos⟩ rfl
    obtain ⟨steps, rfl⟩ : ∃ n, steps = n + 1 := ⟨steps - 1, by simp at hsteps; omega⟩
    obtain ⟨ls, e, htokens, hfits, heof⟩ := h steps t.precedesExpr after.pos false
      (by simp at hsteps; omega) nofun
    refine ⟨⟨t, ended, pos⟩ :: ls, e, ?_, .cons ⟨rfl, hended⟩ hfits, heof⟩
    rw [tokensBehind, List.cons_append, skipGap_visible hx hline hslash]
    have hrest : tokensFrom (steps + 1) t.precedesExpr after = .ok (ls ++ [e]) := by
      obtain ⟨chars, pos⟩ := after
      obtain rfl : chars = rest := hafter
      exact htokens
    simp [Cursor.head?, hread, hrest, bind, Except.bind]

end Lexes

theorem tokenize_of_lexes {text : String} {ms : List Mark} (h : Lexes true text.toList ms) :
    ∃ ls e, tokenize text = .ok (ls ++ [e]) ∧ Mark.Fits ls ms ∧ e.token = .eof :=
  h text.toList.length true ⟨1, 1⟩ false (Nat.le_refl _) fun _ => rfl

end Lexer

/-! ## From pieces to tokens -/

theorem Text.visible {x : Char} (hlo : 32 < x.toNat) (hhi : x.toNat < 128) :
    isBlank x = false ∧ isLineEnd x = false := by
  constructor
  · simp only [isBlank, blank, CodePoints.contains, List.any_cons, List.any_nil, Bool.or_false,
      Bool.or_eq_false_iff, Bool.and_eq_false_iff, decide_eq_false_iff_not]
    omega
  · have hne : ∀ y : Char, x.toNat ≠ y.toNat → (x == y) = false := fun y hy =>
      beq_eq_false_iff_ne.mpr fun heq => hy (congrArg Char.toNat heq)
    simp only [isLineEnd, Bool.or_eq_false_iff]
    exact ⟨⟨⟨hne _ (by simp; omega), hne _ (by simp; omega)⟩, hne _ (by simp; omega)⟩,
      hne _ (by simp; omega)⟩

theorem Text.identStart_visible {x : Char} (hx : isIdentStart x = true) (hascii : x.toNat < 128) :
    32 < x.toNat ∧ x ≠ '/' := by
  refine ⟨?_, Lexer.ne_of_identStart hx (by decide)⟩
  rw [isIdentStart, if_pos hascii] at hx
  simp only [isLetter, Bool.or_eq_true, Bool.and_eq_true, decide_eq_true_eq, Char.le_def,
    UInt32.le_iff_toNat_le, beq_iff_eq] at hx
  rcases hx with ((h | h) | rfl) | rfl
  · have hletter : 97 ≤ x.toNat := h.1
    omega
  · have hletter : 65 ≤ x.toNat := h.1
    omega
  · decide
  · decide

/-- No gap begins where a text does. -/
theorem Token.visible_of_spelled {s : String} (hs : Spelled s) {x : Char}
    (hx : s.toList.head? = some x) : 32 < x.toNat ∧ x.toNat < 128 ∧ x ≠ '/' := by
  cases hs with
  | word h =>
    obtain ⟨y, cs, hs, hstart, -, hascii⟩ := Text.isWord_iff.mp h
    rw [hs] at hx
    cases hx
    have hx := hascii x (by rw [hs]; exact List.mem_cons_self)
    have := Text.identStart_visible hstart hx
    exact ⟨this.1, hx, this.2⟩
  | quoted v =>
    rw [Text.quoted, String.toList_ofList] at hx
    cases hx
    decide
  | number h =>
    obtain ⟨n, hproper, hchars, -⟩ := Number.exists_numeral h
    obtain ⟨y, cs, hcs, hdigit⟩ := hproper.exists_cons
    rw [← hchars, hcs] at hx
    cases hx
    simp only [Number.isDigit, Bool.and_eq_true, decide_eq_true_eq, Char.le_def,
      UInt32.le_iff_toNat_le] at hdigit
    have hlo : 48 ≤ x.toNat := hdigit.1
    have hhi : x.toNat ≤ 57 := hdigit.2
    refine ⟨by omega, by omega, ?_⟩
    rintro rfl
    exact absurd hlo (by decide)
  | mark h hslash =>
    have hmarks : ∀ p ∈ Lexer.punctuation, p.1 ≠ "/" ∧ p.1 ≠ "/=" →
        p.1.toList.head?.all (fun y => 32 < y.toNat && y.toNat < 128 && y != '/') = true := by
      decide +kernel
    have := hmarks _ h hslash
    rw [hx] at this
    simpa [and_assoc] using this
  | dot =>
    cases hx
    decide

theorem lexes_space {b : Bool} {rest : List Char} {ms : List Mark} (sheet : Sheet)
    (h : Lexer.Lexes b rest ms) : Lexer.Lexes b (sheet.written " " ++ rest) ms := by
  rw [Sheet.written_eq (show " ".toList = ' ' :: [] from rfl), List.append_assoc, Sheet.front]
  split
  · exact h.blank.blanks _
  split
  · exact h.blank.blank
  · exact h.blank

/-- A text is read as its token, behind what the layout puts in front of it. -/
theorem lexes_text {b : Bool} {s : String} {rest : List Char} {ms : List Mark} (hs : Spelled s)
    (sheet : Sheet) (hstops : Lexer.Stops (Token.joins s) rest) (h : Lexer.Lexes false rest ms) :
    Lexer.Lexes b (sheet.written s ++ rest) (⟨ofText s, b⟩ :: ms) := by
  obtain ⟨x, cs, hcs, htakes⟩ := Token.takes_of_spelled hs hstops
  obtain ⟨hlo, hhi, hslash⟩ := Token.visible_of_spelled hs (x := x) (by rw [hcs]; rfl)
  obtain ⟨hblank, hline⟩ := Text.visible hlo hhi
  have htoken : Lexer.Lexes b (s.toList ++ rest) (⟨ofText s, b⟩ :: ms) := by
    rw [hcs] at htakes ⊢
    exact .token hblank hline hslash htakes h
  rw [Sheet.written_eq hcs, List.append_assoc, Sheet.front]
  split
  · exact htoken.blanks _
  split
  · exact htoken.blank
  · exact htoken

/-- Pieces are read as their marks. -/
theorem lexes_chars (minify : Bool) {ps : List Piece} {t : Token} (hsep : Separated t ps)
    (sheet : Sheet) (b : Bool) : Lexer.Lexes b (Piece.chars minify sheet ps) (marks b ps) := by
  induction ps generalizing sheet t b with
  | nil => exact .nil
  | cons p ps ih =>
    cases p with
    | text s =>
      obtain ⟨hs, -, hsep⟩ := hsep
      obtain ⟨x, cs, hcs⟩ := Token.ne_nil_of_spelled hs
      have hput : (sheet.write s).atLineStart = false ∧ (sheet.write s).last = s.toList.getLast? := by
        rw [Sheet.write, hcs]
        exact ⟨rfl, by simp [List.getLast?_cons]⟩
      exact lexes_text hs sheet (stops_chars hs hsep hput.1 hput.2) (ih hsep _ false)
    | space => exact lexes_space sheet (ih hsep _ b)
    | gap =>
      cases minify with
      | true => exact ih hsep _ b
      | false => exact lexes_space sheet (ih hsep _ b)
    | line =>
      have hrest := ih hsep (sheet.put minify .line) true
      rw [Piece.chars, marks, Sheet.added]
      split
      · exact hrest.mono fun _ => rfl
      · exact hrest.newline
    | indent | dedent => exact ih hsep _ b

/-- A layout is cut into the tokens of its pieces. -/
theorem tokenize_layout (minify : Bool) {ps : List Piece} {t : Token} (hsep : Separated t ps) :
    ∃ ls e, tokenize (Piece.layout minify ps) = .ok (ls ++ [e]) ∧ Mark.Fits ls (marks true ps) ∧
      e.token = .eof := by
  refine Lexer.tokenize_of_lexes ?_
  rw [Piece.toList_layout]
  exact lexes_chars minify hsep {} true

end EsOptimizer
