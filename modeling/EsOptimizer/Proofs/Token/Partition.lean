import EsOptimizer.Proofs.Token.Slices

/-!
# A text is its tokens and the gaps between them

A text that is cut into tokens is the texts of the tokens, one behind the other, with gaps in front
of them and at the end. A gap is white space and whole comments; a line end in it is noted with the
token behind, wherever in the gap it is. A token stands where its text starts.
-/

namespace EsOptimizer
namespace Lexer

open Text (isLineEnd isBlank)

/-- White space, line ends included, and whole comments. A comment that ends with its line includes
the line end, except in the gap at the end of a text. -/
inductive IsGap (last : Bool) : List Char → Prop where
  | nil : IsGap last []
  | blank {x : Char} {s : List Char} : isBlank x = true → IsGap last s → IsGap last (x :: s)
  | lineComment {body s : List Char} {x : Char} : (∀ y ∈ body, isLineEnd y = false) →
    isLineEnd x = true → IsGap last s → IsGap last ('/' :: '/' :: (body ++ x :: s))
  | lastComment {body : List Char} : last = true → (∀ y ∈ body, isLineEnd y = false) →
    IsGap last ('/' :: '/' :: body)
  | blockComment {body s : List Char} : ¬['*', '/'] <:+: body → IsGap last s →
    IsGap last ('/' :: '*' :: (body ++ '*' :: '/' :: s))

variable {last : Bool} {s : List Char} {x : Char}

theorem isBlank_of_isLineEnd (hx : isLineEnd x = true) : isBlank x = true := by
  simp only [isLineEnd, Bool.or_eq_true, beq_iff_eq] at hx
  rcases hx with ((rfl | rfl) | rfl) | rfl <;> decide

/-- What is in front of a line end, or of the end of the text, belongs to the comment. -/
theorem IsGap.lineComment_cons (h : IsGap last ('/' :: '/' :: s)) (hx : isLineEnd x = false) :
    IsGap last ('/' :: '/' :: x :: s) := by
  cases h with
  | blank hslash => cases hslash
  | lineComment hbody hend hs => exact .lineComment (List.forall_mem_cons.mpr ⟨hx, hbody⟩) hend hs
  | lastComment hlast hbody => exact .lastComment hlast (List.forall_mem_cons.mpr ⟨hx, hbody⟩)

/-- So does what is in front of a closing mark. -/
theorem IsGap.blockComment_cons (h : IsGap last ('/' :: '*' :: s))
    (hx : ¬(x = '*' ∧ s.head? = some '/')) : IsGap last ('/' :: '*' :: x :: s) := by
  cases h with
  | blank hslash => cases hslash
  | @blockComment body s hbody hs =>
    have hopen : ¬['*', '/'] <:+: x :: body := by
      intro hclosed
      rcases List.infix_cons_iff.mp hclosed with hhere | hlater
      · obtain ⟨rest, hrest⟩ := hhere
        cases hrest
        exact hx ⟨rfl, rfl⟩
      · exact hbody hlater
    exact .blockComment hopen hs

/-- With the mark that opened it, the text completes a gap. -/
def Gap.IsCompletedBy (last : Bool) (s : List Char) : Gap → Prop
  | .open => IsGap last s
  | .lineComment => IsGap last ('/' :: '/' :: s)
  | .blockComment _ => IsGap last ('/' :: '*' :: s)

/-- The text `s` is skipped, up to a visible character or the end of the text. -/
structure Skips (g : Gap) (c : Cursor) (ended : Bool) (s : List Char) (after : Cursor)
    (ended' : Bool) : Prop where
  reads : c.Reads s after
  completes : g.IsCompletedBy after.rest.isEmpty s
  ended_eq : ended' = (ended || s.any isLineEnd)
  visible : ∀ x, after.head? = some x → isBlank x = false

theorem Skips.cons {g g' : Gap} {rest : List Char} {pos : Position} {ended ended' here : Bool}
    {after : Cursor} (h : Skips g' ⟨rest, pos.past x rest⟩ here s after ended')
    (hended : here = (ended || isLineEnd x))
    (hg : g'.IsCompletedBy after.rest.isEmpty s → g.IsCompletedBy after.rest.isEmpty (x :: s)) :
    Skips g ⟨x :: rest, pos⟩ ended (x :: s) after ended' :=
  ⟨.cons h.reads, hg h.completes,
    by rw [h.ended_eq, hended, List.any_cons, Bool.or_assoc], h.visible⟩

/-- A mark of a comment is two characters. -/
theorem Skips.mark {g g' : Gap} {y : Char} {rest : List Char} {pos : Position} {ended ended' : Bool}
    {after : Cursor} (h : Skips g' ⟨rest, (pos.past x (y :: rest)).past y rest⟩ ended s after ended')
    (hx : isLineEnd x = false) (hy : isLineEnd y = false)
    (hg : g'.IsCompletedBy after.rest.isEmpty s → g.IsCompletedBy after.rest.isEmpty (x :: y :: s)) :
    Skips g ⟨x :: y :: rest, pos⟩ ended (x :: y :: s) after ended' :=
  ⟨.cons (.cons h.reads), hg h.completes, by simp [h.ended_eq, hx, hy], h.visible⟩

theorem Skips.nil (pos : Position) (ended : Bool) :
    Skips .open ⟨[], pos⟩ ended [] ⟨[], pos⟩ ended :=
  ⟨.nil _, .nil, (Bool.or_false _).symm, nofun⟩

theorem skips_of_skipGap {g : Gap} {cs : List Char} {pos : Position} {ended ended' : Bool}
    {after : Cursor} (h : skipGap g cs pos ended = .ok (after, ended')) :
    ∃ s, Skips g ⟨cs, pos⟩ ended s after ended' := by
  fun_induction skipGap g cs pos ended with
  | case1 => cases h
  | case2 g pos ended hg =>
    cases h
    refine ⟨[], .nil _, ?_, (Bool.or_false _).symm, nofun⟩
    cases g with
    | «open» => exact .nil
    | lineComment => exact .lastComment rfl nofun
    | blockComment start => exact absurd rfl (hg start)
  | case3 c pos ended hend =>
    cases h
    exact ⟨[c], (Skips.nil _ true).cons (by simp [hend]) (.blank (isBlank_of_isLineEnd hend))⟩
  | case4 c pos ended hend hblank =>
    cases h
    exact ⟨[c], (Skips.nil _ _).cons (by simp [hend]) (.blank hblank)⟩
  | case5 c pos ended hend hblank =>
    cases h
    refine ⟨[], .nil _, .nil, (Bool.or_false _).symm, ?_⟩
    rintro _ ⟨⟩
    exact eq_false_of_ne_true hblank
  | case6 c d rest pos ended here hend ih =>
    obtain ⟨s, hskips⟩ := ih h
    exact ⟨c :: s, hskips.cons (by simp [hend]) (.blank (isBlank_of_isLineEnd hend))⟩
  | case7 c d rest pos ended here hend hblank ih =>
    obtain ⟨s, hskips⟩ := ih h
    exact ⟨c :: s, hskips.cons (by simp [hend]) (.blank hblank)⟩
  | case8 c d rest pos ended here hend hblank hmark ih =>
    obtain ⟨s, hskips⟩ := ih h
    obtain ⟨rfl, rfl⟩ : c = '/' ∧ d = '/' := by simpa using hmark
    exact ⟨_, hskips.mark rfl rfl id⟩
  | case9 c d rest pos ended here hend hblank _ hmark ih =>
    obtain ⟨s, hskips⟩ := ih h
    obtain ⟨rfl, rfl⟩ : c = '/' ∧ d = '*' := by simpa using hmark
    exact ⟨_, hskips.mark rfl rfl id⟩
  | case10 c d rest pos ended hend hblank =>
    cases h
    refine ⟨[], .nil _, .nil, (Bool.or_false _).symm, ?_⟩
    rintro _ ⟨⟩
    exact eq_false_of_ne_true hblank
  | case11 c rest pos ended ih =>
    obtain ⟨s, hskips⟩ := ih h
    refine ⟨c :: s, hskips.cons rfl fun hs => ?_⟩
    cases hend : isLineEnd c with
    | true =>
      rw [hend] at hs
      have hnone : ∀ y ∈ ([] : List Char), isLineEnd y = false := nofun
      exact .lineComment hnone hend hs
    | false =>
      rw [hend] at hs
      exact IsGap.lineComment_cons hs hend
  | case12 start c pos ended =>
    rw [skipGap] at h
    cases h
  | case13 start c d rest pos ended here hmark ih =>
    obtain ⟨s, hskips⟩ := ih h
    obtain ⟨rfl, rfl⟩ : c = '*' ∧ d = '/' := by simpa using hmark
    have hnone : ¬['*', '/'] <:+: ([] : List Char) := by decide
    exact ⟨_, hskips.mark rfl rfl (.blockComment hnone)⟩
  | case14 start c d rest pos ended here hmark ih =>
    obtain ⟨s, hskips⟩ := ih h
    refine ⟨c :: s, hskips.cons rfl fun hs => hs.blockComment_cons ?_⟩
    rintro ⟨rfl, hhead⟩
    obtain ⟨s, rfl⟩ := List.head?_eq_some_iff.mp hhead
    cases hskips.reads
    exact hmark rfl

/-! ## The slices of a text -/

/-- A token with its text and the gap in front of it. -/
structure Slice where
  gap : List Char
  text : List Char
  token : Token

namespace Slice

/-- The part of the text. -/
def chars (p : Slice) : List Char := p.gap ++ p.text

structure IsProper (p : Slice) : Prop where
  gap : IsGap false p.gap
  text : p.text ≠ []
  spells : Spells p.text p.token
  token : p.token ≠ .eof

end Slice

/-- What is known of the tokens of slices and of the end of the text, in front of which there is one
more gap: whether a line ended in the gap, and where the text stands. -/
def lexemes (before : List Char) : List Slice → (gap : List Char) → List Lexeme
  | [], gap => [⟨.eof, gap.any isLineEnd, .behind (before ++ gap)⟩]
  | p :: ps, gap =>
    ⟨p.token, p.gap.any isLineEnd, .behind (before ++ p.gap)⟩ :: lexemes (before ++ p.chars) ps gap

theorem exists_slices_of_tokensFrom {steps : Nat} {slash : Bool} {c : Cursor} {before : List Char}
    {ls : List Lexeme} (h : tokensFrom steps slash c = .ok ls) (hsteps : c.rest.length < steps)
    (hc : c.IsBehind before) : ∃ slices gap, c.rest = slices.flatMap Slice.chars ++ gap ∧
      ls = lexemes before slices gap ∧ (∀ p ∈ slices, p.IsProper) ∧ IsGap true gap := by
  induction steps generalizing slash c before ls with
  | zero => cases hsteps
  | succ steps ih =>
    rw [tokensFrom] at h
    obtain ⟨⟨visible, ended⟩, hskip, h⟩ := bind_eq_ok h
    obtain ⟨gap, hskips⟩ := skips_of_skipGap hskip
    have hplace : visible.pos = .behind (before ++ gap) := by
      refine (hc.reads hskips.reads).pos_eq fun hfeed => ?_
      exact absurd (hskips.visible _ hfeed) (by decide)
    have hended : ended = gap.any isLineEnd := hskips.ended_eq
    dsimp only at h
    split at h
    · rename_i hnone
      cases h
      have hrest : visible.rest = [] := List.head?_eq_none_iff.mp hnone
      have hcompletes := hskips.completes
      rw [hrest] at hcompletes
      have hchars := hskips.reads.rest_eq
      rw [hrest, List.append_nil] at hchars
      exact ⟨[], gap, hchars, by rw [lexemes, hended, hplace], List.forall_mem_nil _, hcompletes⟩
    · rename_i first hfirst
      obtain ⟨⟨token, after⟩, hread, h⟩ := bind_eq_ok h
      obtain ⟨ls', hrest, h⟩ := bind_eq_ok h
      cases h
      obtain ⟨s, hne, hreads, hspells, heof⟩ := spells_of_readToken hfirst hread
      have hchars : c.rest = gap ++ (s ++ after.rest) := by
        rw [hskips.reads.rest_eq, hreads.rest_eq]
      have hless : after.rest.length < steps := by
        have hpos := List.length_pos_iff.mpr hne
        rw [hchars, List.length_append, List.length_append] at hsteps
        omega
      have hafter : after.IsBehind (before ++ (gap ++ s)) := hc.reads (hskips.reads.append hreads)
      obtain ⟨slices, last, hslices, rfl, hproper, hlast⟩ := ih hrest hless hafter
      have hgap : IsGap false gap := by
        have hcompletes := hskips.completes
        obtain ⟨rest, hvisible⟩ := List.head?_eq_some_iff.mp hfirst
        rw [hvisible] at hcompletes
        exact hcompletes
      refine ⟨⟨gap, s, token⟩ :: slices, last, ?_, ?_,
        List.forall_mem_cons.mpr ⟨⟨hgap, hne, hspells, heof⟩, hproper⟩, hlast⟩
      · rw [hchars, hslices, List.flatMap_cons, Slice.chars]
        simp only [List.append_assoc]
      · rw [lexemes, hended, hplace]
        rfl

end Lexer

/-- A text that is cut into tokens is gaps and the texts of the tokens, and each token is known by its
gap and its place. -/
theorem exists_slices {text : String} {ls : List Lexeme} (h : tokenize text = .ok ls) :
    ∃ slices gap, text.toList = slices.flatMap Lexer.Slice.chars ++ gap ∧
      ls = Lexer.lexemes [] slices gap ∧ (∀ p ∈ slices, p.IsProper) ∧ Lexer.IsGap true gap :=
  Lexer.exists_slices_of_tokensFrom h (Nat.lt_succ_self _) (Cursor.isBehind_start _)

/-- Line ends of two characters in a comment and in a string literal. -/
theorem exists_slices_of_line_ends :
    tokenize "x/*\r\n*/'y\\\r\nz'//" = .ok [⟨.word (.ofText "x"), false, ⟨1, 1⟩⟩,
      ⟨.string "yz", true, ⟨2, 3⟩⟩, ⟨.eof, false, ⟨3, 5⟩⟩] ∧
    ∃ slices gap, "x/*\r\n*/'y\\\r\nz'//".toList = slices.flatMap Lexer.Slice.chars ++ gap ∧
      [⟨.word (.ofText "x"), false, ⟨1, 1⟩⟩, ⟨.string "yz", true, ⟨2, 3⟩⟩, ⟨.eof, false, ⟨3, 5⟩⟩] =
        Lexer.lexemes [] slices gap ∧ (∀ p ∈ slices, p.IsProper) ∧ Lexer.IsGap true gap :=
  have h : tokenize "x/*\r\n*/'y\\\r\nz'//" = .ok [⟨.word (.ofText "x"), false, ⟨1, 1⟩⟩,
      ⟨.string "yz", true, ⟨2, 3⟩⟩, ⟨.eof, false, ⟨3, 5⟩⟩] := by decide +kernel
  ⟨h, exists_slices h⟩

end EsOptimizer
