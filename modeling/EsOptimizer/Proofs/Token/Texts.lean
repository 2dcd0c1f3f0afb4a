import EsOptimizer.Token.Lexer
import EsOptimizer.Text.Quoted
import Mathlib.Data.List.Find

/-!
# Texts that spell tokens

A text reads as its token in front of anything that does not stick to it: a word in front of what no
identifier goes on with, a string literal in front of anything, punctuation in front of what does not
make a longer mark.
-/

namespace EsOptimizer
namespace Lexer

open Text (isIdentStart isIdentPart quotedChar quotedChars)

variable {α β : Type} {f : Cursor → Except SyntaxError (α × Cursor)} {s t rest : List Char} {a : α}
  {c : Cursor} {x : Char}

/-- In front of `s` and `rest`, the reader gives `a` and leaves `rest`. -/
def Takes (f : Cursor → Except SyntaxError (α × Cursor)) (s : List Char) (a : α) (rest : List Char) :
    Prop :=
  ∀ c : Cursor, c.rest = s ++ rest → ∃ after, f c = .ok (a, after) ∧ after.rest = rest

/-! ## Moving forward -/

theorem rest_next (h : c.rest = x :: rest) : c.next.rest = rest := by
  obtain ⟨cs, pos⟩ := c
  cases h
  rfl

theorem rest_skip (h : c.rest = s ++ rest) : (c.skip s.length).rest = rest := by
  induction s generalizing c with
  | nil => exact h
  | cons x s ih => exact ih (rest_next h)

/-- The characters that follow are not accepted. -/
def Stops (p : Char → Bool) (rest : List Char) : Prop := ∀ x, rest.head? = some x → p x = false

theorem spanFrom_eq {p : Char → Bool} (hs : ∀ x ∈ s, p x = true) (hrest : Stops p rest)
    (pos : Position) :
    ∃ after, Cursor.spanFrom p (s ++ rest) pos = (s, after) ∧ after.rest = rest := by
  induction s generalizing pos with
  | nil =>
    cases rest with
    | nil => exact ⟨_, rfl, rfl⟩
    | cons x rest =>
      rw [List.nil_append, Cursor.spanFrom, hrest x rfl]
      exact ⟨_, rfl, rfl⟩
  | cons x s ih =>
    rw [List.forall_mem_cons] at hs
    obtain ⟨after, hspan, hafter⟩ := ih hs.2 (pos.past x (s ++ rest))
    refine ⟨after, ?_, hafter⟩
    rw [List.cons_append, Cursor.spanFrom, if_pos hs.1, hspan]

theorem span_eq {p : Char → Bool} (hs : ∀ x ∈ s, p x = true) (hrest : Stops p rest)
    (h : c.rest = s ++ rest) : ∃ after, c.span p = (s, after) ∧ after.rest = rest := by
  rw [Cursor.span, h]
  exact spanFrom_eq hs hrest c.pos

/-! ## Words -/

theorem not_isDigit_of_identStart (h : isIdentStart x = true) : Number.isDigit x = false := by
  cases hdigit : Number.isDigit x with
  | false => rfl
  | true =>
    simp only [Number.isDigit, Bool.and_eq_true, decide_eq_true_eq, Char.le_def,
      UInt32.le_iff_toNat_le] at hdigit
    have hlo : 48 ≤ x.toNat := hdigit.1
    have hhi : x.toNat ≤ 57 := hdigit.2
    rw [isIdentStart, if_pos (by omega)] at h
    simp only [Text.isLetter, Bool.or_eq_true, Bool.and_eq_true, decide_eq_true_eq, Char.le_def,
      UInt32.le_iff_toNat_le, beq_iff_eq] at h
    rcases h with ((h | h) | rfl) | rfl
    · have hletter : 97 ≤ x.toNat := h.1
      omega
    · have hletter : 65 ≤ x.toNat := h.1
      omega
    · exact absurd hlo (by decide)
    · exact absurd hhi (by decide)

/-- What starts an identifier starts nothing else. -/
theorem ne_of_identStart {y : Char} (h : isIdentStart x = true) (hy : isIdentStart y = false) :
    x ≠ y := by
  rintro rfl
  rw [h] at hy
  cases hy

theorem isIdentPart_of_identStart (h : isIdentStart x = true) : isIdentPart x = true := by
  unfold isIdentStart at h
  unfold isIdentPart
  split at h
  · rename_i hascii
    rw [if_pos hascii]
    grind
  · rename_i hbeyond
    rw [if_neg hbeyond, h, Bool.true_or]

theorem takes_word (slash : Bool) (hx : isIdentStart x = true) (hs : ∀ y ∈ s, isIdentPart y = true)
    (hrest : Stops isIdentPart rest) :
    Takes (readToken slash x) (x :: s) (.word (.ofText (String.ofList (x :: s)))) rest := by
  intro c hc
  have hrun : ∀ y ∈ x :: s, isIdentPart y = true :=
    List.forall_mem_cons.mpr ⟨isIdentPart_of_identStart hx, hs⟩
  obtain ⟨after, hspan, hafter⟩ := span_eq hrun hrest hc
  refine ⟨after, ?_, hafter⟩
  have hdot := ne_of_identStart hx (show isIdentStart '.' = false by decide)
  have hquote := ne_of_identStart hx (show isIdentStart '"' = false by decide)
  have hsingle := ne_of_identStart hx (show isIdentStart '\'' = false by decide)
  have hslash := ne_of_identStart hx (show isIdentStart '/' = false by decide)
  simp [readToken, hdot, hquote, hsingle, hslash, not_isDigit_of_identStart hx, hx, hspan]

/-! ## String literals -/

theorem digitValue?_hexDigit : ∀ d < 16, Number.digitValue? 16 (Text.hexDigit d) = some d := by
  decide

theorem charOf_toNat {after : Cursor} : charOf x.toNat after = .ok (some x, after) := by
  have hvalid : x.toNat.isValidChar := x.valid
  rw [charOf, if_pos hvalid, Char.ofNat_toNat]

/-- A control character by its two digits. -/
theorem readHex_hexDigit (hx : x.toNat < 256) (hc : c.rest = Text.hexDigit (x.toNat / 16) ::
    Text.hexDigit (x.toNat % 16) :: rest) :
    readHex 2 0 c = .ok (x.toNat, c.next.next) := by
  obtain ⟨cs, pos⟩ := c
  cases hc
  simp only [readHex, Cursor.head?, Cursor.next, List.head?_cons, Option.bind_some,
    digitValue?_hexDigit _ (show x.toNat / 16 < 16 by omega),
    digitValue?_hexDigit _ (show x.toNat % 16 < 16 by omega)]
  congr 2
  omega

/-- The characters with an escape of their own. -/
def escapedChars : List Char :=
  ['"', '\\', '\n', '\r', '\t', '\x08', '\x0b', '\x0c', '\u2028', '\u2029']

theorem quotedChar_of_not_mem (h : x ∉ escapedChars) : quotedChar x =
    if x.toNat < 0x20 then ['\\', 'x', Text.hexDigit (x.toNat / 16), Text.hexDigit (x.toNat % 16)]
    else [x] := by
  simp only [escapedChars, List.mem_cons, List.not_mem_nil, or_false, not_or] at h
  simp only [quotedChar, beq_iff_eq, h, if_false]

/-- What is behind the backslash is read as `x`. -/
theorem readEscape_quotedChar (hc : '\\' :: c.rest = quotedChar x ++ rest) :
    ∃ after, readEscape c = .ok (some x, after) ∧ after.rest = rest := by
  obtain ⟨cs, pos⟩ := c
  dsimp only at hc
  by_cases hx : x ∈ escapedChars
  · simp only [escapedChars, List.mem_cons, List.not_mem_nil, or_false] at hx
    rcases hx with rfl | rfl | rfl | rfl | rfl | rfl | rfl | rfl | rfl | rfl <;>
    · cases hc
      exact ⟨_, rfl, rfl⟩
  rw [quotedChar_of_not_mem hx] at hc
  split at hc
  · rename_i hcontrol
    cases hc
    let c : Cursor :=
      ⟨'x' :: Text.hexDigit (x.toNat / 16) :: Text.hexDigit (x.toNat % 16) :: rest, pos⟩
    have hnext : c.next.rest = _ := rest_next rfl
    refine ⟨c.next.next.next, ?_, rest_next (rest_next hnext)⟩
    show (readHex 2 0 c.next >>= fun r => charOf r.1 r.2) = _
    rw [readHex_hexDigit (by omega) hnext]
    exact charOf_toNat
  · cases hc
    exact absurd (by decide) hx

/-- A character has an escape or stands for itself. -/
theorem quotedChar_eq (x : Char) : (∃ cs, quotedChar x = '\\' :: cs) ∨
    quotedChar x = [x] ∧ x ≠ '"' ∧ x ≠ '\\' ∧ x ≠ '\n' ∧ x ≠ '\r' := by
  by_cases hx : x ∈ escapedChars
  · simp only [escapedChars, List.mem_cons, List.not_mem_nil, or_false] at hx
    rcases hx with rfl | rfl | rfl | rfl | rfl | rfl | rfl | rfl | rfl | rfl <;> exact .inl ⟨_, rfl⟩
  rw [quotedChar_of_not_mem hx]
  split
  · exact .inl ⟨_, rfl⟩
  · simp only [escapedChars, List.mem_cons, not_or] at hx
    exact .inr ⟨rfl, hx.1, hx.2.1, hx.2.2.1, hx.2.2.2.1⟩

theorem length_le_flatMap_quotedChar (s : List Char) : s.length ≤ (s.flatMap quotedChar).length := by
  induction s with
  | nil => exact Nat.le_refl 0
  | cons x s ih =>
    have hpos : 0 < (quotedChar x).length := by
      rcases quotedChar_eq x with ⟨cs, hcs⟩ | ⟨hplain, -⟩
      · rw [hcs]
        exact Nat.zero_lt_succ _
      · rw [hplain]
        exact Nat.zero_lt_one
    rw [List.flatMap_cons, List.length_append, List.length_cons]
    omega

/-- What is left of a literal, in which every character takes one step. -/
theorem readStringFrom_quoted (start : Position) (s rest : List Char) {steps : Nat}
    (hsteps : s.length < steps) :
    Takes (readStringFrom '"' start steps) (s.flatMap quotedChar ++ ['"']) s rest := by
  induction s generalizing steps with
  | nil =>
    obtain ⟨steps, rfl⟩ : ∃ k, steps = k + 1 := ⟨steps - 1, by simp at hsteps; omega⟩
    intro c hc
    exact ⟨c.next, by simp [readStringFrom, Cursor.head?, hc], rest_next hc⟩
  | cons x s ih =>
    obtain ⟨steps, rfl⟩ : ∃ k, steps = k + 1 := ⟨steps - 1, by simp at hsteps; omega⟩
    have hrest := ih (show s.length < steps by simpa using hsteps)
    intro c hc
    rw [List.flatMap_cons, List.append_assoc, List.append_assoc] at hc
    rcases quotedChar_eq x with ⟨cs, hcs⟩ | ⟨hplain, hquote, hslash, hfeed, hreturn⟩
    · rw [hcs, List.cons_append] at hc
      have hescaped : '\\' :: c.next.rest =
          quotedChar x ++ (s.flatMap quotedChar ++ (['"'] ++ rest)) := by
        rw [rest_next hc, hcs]
        rfl
      obtain ⟨after, hescape, hafter⟩ := readEscape_quotedChar hescaped
      obtain ⟨after', hread, hafter'⟩ := hrest after (by rw [hafter, List.append_assoc])
      refine ⟨after', ?_, hafter'⟩
      simp [readStringFrom, Cursor.head?, hc, hescape, hread, bind, Except.bind]
    · rw [hplain, List.cons_append, List.nil_append] at hc
      obtain ⟨after, hread, hafter⟩ := hrest c.next (by rw [rest_next hc, List.append_assoc])
      refine ⟨after, ?_, hafter⟩
      simp [readStringFrom, Cursor.head?, hc, hquote, hslash, hfeed, hreturn, hread, bind,
        Except.bind]

/-- A string literal in front of anything. -/
theorem takes_quoted (slash : Bool) (s rest : List Char) :
    Takes (readToken slash '"') (quotedChars s) (.string (String.ofList s)) rest := by
  intro c hc
  rw [quotedChars, List.append_assoc, List.cons_append, ← List.append_assoc] at hc
  have hlength : s.length < c.rest.length + 1 := by
    have hle := length_le_flatMap_quotedChar s
    simp only [hc, List.length_cons, List.length_append]
    omega
  obtain ⟨after, hread, hafter⟩ := readStringFrom_quoted c.pos s rest hlength c.next (rest_next hc)
  refine ⟨after, ?_, hafter⟩
  show readString '"' c = _
  simp [readString, hread, bind, Except.bind]

/-! ## Punctuation -/

/-- Whether the character behind the text makes a longer mark, or the beginning of one. -/
def sticks (s : List Char) (x : Char) : Bool :=
  punctuation.any fun (t, _) => (s ++ [x]).isPrefixOf t.toList

/-- What follows makes no difference for the marks that match. -/
theorem isPrefixOf_append (hrest : Stops (sticks s) rest) {p : String × Token}
    (hp : p ∈ punctuation) : p.1.toList.isPrefixOf (s ++ rest) = p.1.toList.isPrefixOf s := by
  rw [Bool.eq_iff_iff, List.isPrefixOf_iff_prefix, List.isPrefixOf_iff_prefix]
  refine ⟨fun h => ?_, fun h => h.trans (List.prefix_append s rest)⟩
  rcases List.prefix_or_prefix_of_prefix h (List.prefix_append s rest) with h' | h'
  · exact h'
  · obtain ⟨more, hmore⟩ := h'
    rw [← hmore, List.prefix_append_right_inj] at h
    cases more with
    | nil => exact ⟨[], by rw [← hmore, List.append_nil, List.append_nil]⟩
    | cons x more =>
      obtain ⟨rest, rfl⟩ := h
      have hsticks : sticks s x = true := by
        refine List.any_eq_true.mpr ⟨p, hp, List.isPrefixOf_iff_prefix.mpr ⟨more, ?_⟩⟩
        rw [← List.append_cons, hmore]
      rw [hrest x rfl] at hsticks
      cases hsticks

/-- A character that only punctuation starts with. A slash would be one if comments and regular
expressions did not start with it. -/
def startsMark (x : Char) : Bool :=
  x != '.' && !Number.isDigit x && x != '"' && x != '\'' && x != '/' && !isIdentStart x

theorem takes_punctuation {slash : Bool} {text : String} {tok : Token} (hx : startsMark x = true)
    (hs : text.toList = x :: s)
    (hfind : punctuation.find? (fun p => p.1.toList.isPrefixOf (x :: s)) = some (text, tok))
    (hrest : Stops (sticks (x :: s)) rest) : Takes (readToken slash x) (x :: s) tok rest := by
  intro c hc
  simp only [startsMark, Bool.and_eq_true, bne_iff_ne, Bool.not_eq_true'] at hx
  have hfind' : punctuation.find? (fun p => p.1.toList.isPrefixOf c.rest) = some (text, tok) := by
    rw [hc, List.find?_congr fun p hp => isPrefixOf_append hrest hp, hfind]
  have hskip : (c.skip text.length).rest = rest := by
    rw [← String.length_toList, hs]
    exact rest_skip hc
  refine ⟨_, ?_, hskip⟩
  simp [readToken, readPunctuation, hx, hfind']

/-- A point in front of anything but a digit. -/
theorem takes_dot {slash : Bool} (hrest : Stops Number.isDigit rest) :
    Takes (readToken slash '.') ['.'] (.punct .dot) rest := by
  intro c hc
  have hsees : c.next.sees Number.isDigit = false := by
    rw [Cursor.sees, Cursor.head?, rest_next hc]
    cases rest with
    | nil => rfl
    | cons x rest => exact hrest x rfl
  exact ⟨c.next, by simp [readToken, hsees], rest_next hc⟩

end Lexer
end EsOptimizer
