import EsOptimizer.Proofs.Number.Numeral
import EsOptimizer.Proofs.Token.Texts

/-!
# Numerals as tokens

The lexer reads a numeral as one number, in front of anything that is no digit, no point and no
beginning of an identifier.
-/

namespace EsOptimizer
namespace Lexer

open Number (Numeral)
open Text (isIdentStart)

variable {n : Numeral} {rest : List Char} {c : Cursor}

/-- What a numeral would go on with. -/
def continuesNumeral (x : Char) : Bool := isIdentStart x || Number.isDigit x || x == '.'

theorem continuesNumeral_eq_false {x : Char} (h : continuesNumeral x = false) :
    isIdentStart x = false ∧ Number.isDigit x = false ∧ x ≠ '.' := by
  simpa [continuesNumeral, and_assoc] using h

/-- The characters that may follow a digit in a numeral or behind it. -/
theorem second_of_numeral (h : n.IsProper) (hc : c.rest = n.chars ++ rest) {x : Char}
    (hx : c.second? = some x) :
    Number.isDigit x = true ∨ x = '.' ∨ x = 'e' ∨ rest.head? = some x := by
  obtain ⟨hne, hdigits⟩ := h.whole
  rw [Cursor.second?, hc, Numeral.chars] at hx
  cases hwhole : n.whole with
  | nil => exact absurd hwhole hne
  | cons d ds =>
    rw [hwhole] at hx hdigits
    cases ds with
    | cons d' ds =>
      cases hx
      exact .inl (hdigits _ (by simp))
    | nil =>
      cases hpart : n.part with
      | some ds =>
        simp [Numeral.partChars, hpart] at hx
        exact .inr (.inl hx.symm)
      | none =>
        cases hexponent : n.exponent with
        | some p =>
          simp [Numeral.partChars, Numeral.exponentChars, hpart, hexponent] at hx
          exact .inr (.inr (.inl hx.symm))
        | none =>
          simp [Numeral.partChars, Numeral.exponentChars, hpart, hexponent] at hx
          exact .inr (.inr (.inr hx))

theorem baseMark?_eq_none (h : n.IsProper) (hrest : Stops continuesNumeral rest)
    (hc : c.rest = n.chars ++ rest) : baseMark? c = none := by
  unfold baseMark?
  split
  · rename_i m _ hm
    have hletters : (['x', 'X', 'o', 'O', 'b', 'B'].all fun y =>
        isIdentStart y && !Number.isDigit y && y != '.' && y != 'e') = true := by decide
    have hmark : ∀ y ∈ ['x', 'X', 'o', 'O', 'b', 'B'], m ≠ y := by
      rintro y hy rfl
      have hletter := List.all_eq_true.mp hletters m hy
      simp only [Bool.and_eq_true, Bool.not_eq_true', bne_iff_ne] at hletter
      obtain ⟨⟨⟨hstart, hdigit⟩, hdot⟩, hexponent⟩ := hletter
      rcases second_of_numeral h hc hm with h | h | h | h
      · rw [hdigit] at h
        cases h
      · exact hdot h
      · exact hexponent h
      · rw [(continuesNumeral_eq_false (hrest m h)).1] at hstart
        cases hstart
    simp [hmark]
  · rfl

theorem stops_of_continuesNumeral (hrest : Stops continuesNumeral rest) :
    Stops Number.isDigit rest :=
  fun x hx => (continuesNumeral_eq_false (hrest x hx)).2.1

/-- The exponent of a numeral, if it has one. -/
theorem readExponent_chars (h : n.IsProper) (hrest : Stops continuesNumeral rest) :
    Takes readExponent n.exponentChars n.exponentChars rest := by
  intro c hc
  cases hexponent : n.exponent with
  | none =>
    have hchars : n.exponentChars = [] := by rw [Numeral.exponentChars, hexponent]
    rw [hchars, List.nil_append] at hc
    refine ⟨c, ?_, hc⟩
    rw [hchars, readExponent]
    cases hhead : c.head? with
    | none => rfl
    | some e =>
      have hstart := (continuesNumeral_eq_false (hrest e (by rw [← hc]; exact hhead))).1
      have he : e ≠ 'e' := ?_
      have hE : e ≠ 'E' := ?_
      · simp [he, hE]
      · rintro rfl
        cases hstart
      · rintro rfl
        cases hstart
  | some p =>
    obtain ⟨negative, ds⟩ := p
    obtain ⟨hne, hdigits⟩ := h.exponent _ hexponent
    have hchars : n.exponentChars = 'e' :: (if negative then '-' else '+') :: ds := by
      rw [Numeral.exponentChars, hexponent]
    rw [hchars] at hc ⊢
    have hmark : c.head? = some 'e' := by rw [Cursor.head?, hc]; rfl
    have hsign := rest_next hc
    have hsign' : c.next.head? = some (if negative then '-' else '+') := by
      rw [Cursor.head?, hsign]
      rfl
    obtain ⟨after, hspan, hafter⟩ := span_eq hdigits (stops_of_continuesNumeral hrest)
      (rest_next hsign)
    have hempty : ds.isEmpty = false := by
      cases ds with
      | nil => exact absurd rfl hne
      | cons d ds => rfl
    refine ⟨after, ?_, hafter⟩
    rw [readExponent, hmark]
    simp only [hsign']
    cases negative <;> simp [hempty, hspan]

/-- Behind the point and its digits there are no more of them. -/
theorem not_digit_behind_part (n : Numeral) (hrest : Stops continuesNumeral rest) {x : Char}
    (hx : (n.exponentChars ++ rest).head? = some x) : Number.isDigit x = false ∧ x ≠ '.' := by
  cases hchars : n.exponentChars with
  | nil =>
    rw [hchars] at hx
    exact (continuesNumeral_eq_false (hrest x hx)).2
  | cons e cs =>
    rw [hchars] at hx
    cases hx
    rw [Numeral.exponentChars_head n x (by rw [hchars]; rfl)]
    decide

theorem takes_decimal (h : n.IsProper) (hrest : Stops continuesNumeral rest) :
    Takes readDecimal n.chars (Number.ofDecimal n.mantissa n.scale) rest := by
  intro c hc
  have hread := Numeral.ofDecimalText?_chars h
  have hstop : Stops Number.isDigit (n.exponentChars ++ rest) :=
    fun x hx => (not_digit_behind_part n hrest hx).1
  cases hpart : n.part with
  | none =>
    have hchars : n.partChars = [] := by rw [Numeral.partChars, hpart]
    rw [Numeral.chars, hchars, List.append_nil] at hread
    rw [Numeral.chars, hchars, List.append_nil, List.append_assoc] at hc
    obtain ⟨afterWhole, hwhole, hafterWhole⟩ := span_eq h.whole.2 hstop hc
    obtain ⟨after, hexponent, hafter⟩ := readExponent_chars h hrest afterWhole hafterWhole
    have hdot : afterWhole.head? ≠ some '.' := fun hhead => by
      rw [Cursor.head?, hafterWhole] at hhead
      exact (not_digit_behind_part n hrest hhead).2 rfl
    refine ⟨after, ?_, hafter⟩
    simp [readDecimal, hwhole, hdot, hexponent, hread, bind, Except.bind]
  | some ds =>
    have hchars : n.partChars = '.' :: ds := by rw [Numeral.partChars, hpart]
    rw [Numeral.chars, hchars] at hread hc
    rw [List.append_assoc, List.append_assoc, List.cons_append] at hc
    obtain ⟨afterWhole, hwhole, hafterWhole⟩ := span_eq h.whole.2
      (fun x hx => by cases hx; rfl) hc
    have hdot : afterWhole.head? = some '.' := by rw [Cursor.head?, hafterWhole]; rfl
    obtain ⟨afterPart, hspan, hafterPart⟩ := span_eq (h.part ds hpart).2 hstop
      (rest_next hafterWhole)
    obtain ⟨after, hexponent, hafter⟩ := readExponent_chars h hrest afterPart hafterPart
    refine ⟨after, ?_, hafter⟩
    rw [List.append_assoc, List.cons_append] at hread
    simp [readDecimal, hwhole, hdot, hspan, hexponent, hread, bind, Except.bind]

theorem takes_readNumber (h : n.IsProper) (hrest : Stops continuesNumeral rest) :
    Takes readNumber n.chars (Number.ofDecimal n.mantissa n.scale) rest := by
  intro c hc
  obtain ⟨after, hread, hafter⟩ := takes_decimal h hrest c hc
  have hsees : after.sees (fun y => isIdentStart y || Number.isDigit y) = false := by
    rw [Cursor.sees, Cursor.head?, hafter]
    cases rest with
    | nil => rfl
    | cons y rest =>
      obtain ⟨hstart, hdigit, -⟩ := continuesNumeral_eq_false (hrest y rfl)
      simp [hstart, hdigit]
  refine ⟨after, ?_, hafter⟩
  simp [readNumber, baseMark?_eq_none h hrest hc, hread, hsees, bind, Except.bind]

/-- A numeral in front of what it does not go on with. -/
theorem takes_numeral {slash : Bool} {x : Char} {cs : List Char} (h : n.IsProper)
    (hx : n.chars = x :: cs) (hrest : Stops continuesNumeral rest) :
    Takes (readToken slash x) n.chars (.number (.ofDecimal n.mantissa n.scale)) rest := by
  intro c hc
  obtain ⟨after, hnumber, hafter⟩ := takes_readNumber h hrest c hc
  have hdigit : Number.isDigit x = true := by
    obtain ⟨y, ys, hy, hdigit⟩ := h.exists_cons
    rw [hx] at hy
    cases hy
    exact hdigit
  have hdot : x ≠ '.' := by
    rintro rfl
    cases hdigit
  exact ⟨after, by simp [readToken, hdot, hdigit, hnumber, Except.map], hafter⟩

end Lexer
end EsOptimizer
