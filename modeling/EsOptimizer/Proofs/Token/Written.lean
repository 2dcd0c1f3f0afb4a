import EsOptimizer.Proofs.Token.Numerals
import EsOptimizer.Proofs.Token.Slices

/-!
# Literals as they are written

What is written for a text or a number is read back, and nothing of what follows is read with it: a
string literal ends with its quote whatever follows, and a number in front of anything that neither
goes on with a number nor starts an identifier.
-/

namespace EsOptimizer

open Text (isLineEnd quotedChar quotedChars quoted)

/-! ## Strings -/

namespace Lexer

theorem not_lineEnd_of_mem_quotedChar {x y : Char} (hy : y ∈ quotedChar x) : isLineEnd y = false := by
  by_cases hx : x ∈ escapedChars
  · have hescapes : (escapedChars.all fun x => (quotedChar x).all (!isLineEnd ·)) = true := by
      decide
    have hescape := List.all_eq_true.mp (List.all_eq_true.mp hescapes x hx) y hy
    rwa [Bool.not_eq_true'] at hescape
  rw [quotedChar_of_not_mem hx] at hy
  split at hy
  · rename_i hcontrol
    have hdigits : ∀ d < 16, isLineEnd (Text.hexDigit d) = false := by decide
    simp only [List.mem_cons, List.not_mem_nil, or_false] at hy
    rcases hy with rfl | rfl | rfl | rfl
    · rfl
    · rfl
    · exact hdigits _ (by omega)
    · exact hdigits _ (by omega)
  · rw [List.mem_singleton] at hy
    subst hy
    simp only [escapedChars, List.mem_cons, not_or] at hx
    simp [isLineEnd, hx]

theorem not_lineEnd_of_mem_quotedChars {s : List Char} {y : Char} (hy : y ∈ quotedChars s) :
    isLineEnd y = false := by
  simp only [quotedChars, List.cons_append, List.mem_cons, List.mem_append, List.mem_flatMap,
    List.not_mem_nil, or_false] at hy
  rcases hy with rfl | ⟨x, -, hy⟩ | rfl
  · rfl
  · exact not_lineEnd_of_mem_quotedChar hy
  · rfl

/-- Of a text without line ends, what is left starts as many columns later. -/
theorem after_eq {c after : Cursor} {s rest : List Char} (h : c.Reads s after)
    (hafter : after.rest = rest) (hs : ∀ x ∈ s, isLineEnd x = false) :
    after = ⟨rest, c.pos.line, c.pos.column + s.length⟩ := by
  rw [← h.pos_eq hs, ← hafter]

theorem readToken_quoted (slash : Bool) (v : String) (rest : List Char) (pos : Position) :
    readToken slash '"' ⟨(quoted v).toList ++ rest, pos⟩ =
      .ok (.string v, ⟨rest, pos.line, pos.column + (quoted v).length⟩) := by
  rw [← String.length_toList, quoted, String.toList_ofList]
  obtain ⟨after, hread, hafter⟩ := takes_quoted slash v.toList rest ⟨_, pos⟩ rfl
  obtain ⟨s, -, hreads, -⟩ := takes_readToken rfl hread
  have hs : s = quotedChars v.toList := hreads.eq_of_rest rfl hafter
  rw [hread, String.ofList_toList,
    after_eq (hs ▸ hreads) hafter fun y hy => not_lineEnd_of_mem_quotedChars hy]

/-- No gap is in front of a quote. -/
theorem skipGap_quote (cs : List Char) (pos : Position) (ended : Bool) :
    skipGap .open ('"' :: cs) pos ended = .ok (⟨'"' :: cs, pos⟩, ended) := by
  cases cs <;> rfl

theorem tokensFrom_quoted (steps : Nat) (slash : Bool) (v : String) (rest : List Char)
    (pos : Position) : tokensFrom (steps + 1) slash ⟨(quoted v).toList ++ rest, pos⟩ =
      (tokensFrom steps false ⟨rest, pos.line, pos.column + (quoted v).length⟩).map
        (⟨.string v, false, pos⟩ :: ·) := by
  have hquote : (quoted v).toList ++ rest =
      '"' :: (v.toList.flatMap quotedChar ++ ['"'] ++ rest) := by
    rw [quoted, String.toList_ofList]
    rfl
  have hread := readToken_quoted slash v rest pos
  rw [hquote] at hread
  rw [tokensFrom, hquote]
  dsimp only
  rw [skipGap_quote]
  show (readToken slash '"' _ >>= _) = _
  rw [hread]
  show (tokensFrom steps false _ >>= _) = _
  cases tokensFrom steps false ⟨rest, pos.line, pos.column + (quoted v).length⟩ <;> rfl

/-- At the end of a text there is one more token. -/
theorem tokensFrom_nil (steps : Nat) (slash : Bool) (pos : Position) :
    tokensFrom steps slash ⟨[], pos⟩ = .ok [⟨.eof, false, pos⟩] := by
  cases steps <;> rfl

end Lexer

/-- A string literal is the text it is made of, and ends with its quote whatever follows. -/
theorem tokenize_quoted (v : String) :
    tokenize (quoted v) = .ok [⟨.string v, false, ⟨1, 1⟩⟩,
      ⟨.eof, false, ⟨1, 1 + (quoted v).length⟩⟩] ∧
    (∀ slash rest pos, Lexer.readToken slash '"' ⟨(quoted v).toList ++ rest, pos⟩ =
      .ok (.string v, ⟨rest, pos.line, pos.column + (quoted v).length⟩)) ∧
    ∀ more, tokenize (quoted v ++ more) =
      (Lexer.tokensFrom (quoted v ++ more).length false
        ⟨more.toList, 1, 1 + (quoted v).length⟩).map (⟨.string v, false, ⟨1, 1⟩⟩ :: ·) := by
  have hmore : ∀ more, tokenize (quoted v ++ more) =
      (Lexer.tokensFrom (quoted v ++ more).length false
        ⟨more.toList, 1, 1 + (quoted v).length⟩).map (⟨.string v, false, ⟨1, 1⟩⟩ :: ·) := by
    intro more
    rw [tokenize, Cursor.start, String.length_toList, String.toList_append]
    exact Lexer.tokensFrom_quoted _ true v more.toList ⟨1, 1⟩
  refine ⟨?_, fun slash rest pos => Lexer.readToken_quoted slash v rest pos, hmore⟩
  have halone := hmore ""
  rw [String.append_empty] at halone
  rw [halone, String.toList_empty, Lexer.tokensFrom_nil]
  rfl

/-! ## Numbers -/

namespace Number

/-- The decimal `d₁.d₂d₃… * 10 ^ e`. -/
def scientific : List ℕ → ℤ → ℚ
  | [], _ => 0
  | a :: ds, e => a * 10 ^ e + scientific ds (e - 1)

/-- The parts of a text in front of an index and behind it, if the text is that long. -/
def cutAt? (cs : List Char) (i : ℤ) : Option (List Char × List Char) :=
  if 0 ≤ i ∧ i ≤ cs.length then some (cs.take i.toNat, cs.drop i.toNat) else none

/-- Zeros, unless there would be less than none. -/
def zeros? (i : ℤ) : Option (List Char) :=
  if 0 ≤ i then some (List.replicate i.toNat '0') else none

/-- The layout of a decimal, with all that could be out of range checked. -/
def Decimal.layout? (d : Decimal) : Option (List Char) :=
  let ds := d.digits.map digitChar
  let k : ℤ := ds.length
  let n := d.point
  if k ≤ n ∧ n ≤ 21 then do
    let zeros ← zeros? (n - k)
    return ds ++ zeros
  else if 0 < n ∧ n ≤ 21 then do
    let (whole, part) ← cutAt? ds n
    return whole ++ '.' :: part
  else if -6 < n ∧ n ≤ 0 then do
    let zeros ← zeros? (-n)
    return '0' :: '.' :: zeros ++ ds
  else
    let e := Nat.toDigits 10 (n - 1).natAbs
    let sign := if n - 1 < 0 then '-' else '+'
    if k = 1 then return ds ++ 'e' :: sign :: e
    else do
      let (first, rest) ← cutAt? ds 1
      return first ++ '.' :: rest ++ 'e' :: sign :: e

theorem Decimal.layout?_eq {d : Decimal} (hne : d.digits ≠ []) : d.layout? = some d.layout := by
  have hpos : 0 < (d.digits.map digitChar).length := by
    rw [List.length_map]
    exact List.length_pos_iff.mpr hne
  unfold layout? layout
  dsimp only
  generalize d.digits.map digitChar = ds at *
  split
  · rename_i hpoint
    rw [zeros?, if_pos (by omega)]
    rfl
  split
  · rename_i hpoint
    rw [cutAt?, if_pos (by omega)]
    rfl
  split
  · rename_i hpoint
    rw [zeros?, if_pos (by omega)]
    rfl
  · cases ds with
    | nil => cases hpos
    | cons x ds =>
      cases ds with
      | nil => rfl
      | cons y ds =>
        have hlong : ¬((x :: y :: ds).length : ℤ) = 1 := by
          simp only [List.length_cons]
          omega
        rw [if_neg hlong, cutAt?, if_pos (by simp; omega)]
        rfl

/-- The digits of a decimal have the values it is made of. -/
theorem Decimal.value_eq_scientific {ds : List ℕ} (hlt : ∀ a ∈ ds, a < 10) (e : ℤ) :
    Decimal.value ⟨ds, e + 1⟩ = scientific ds e := by
  rw [value, mantissa]
  induction ds generalizing e with
  | nil => simp [scientific, natOfDigits]
  | cons a ds ih =>
    rw [List.forall_mem_cons] at hlt
    have hdigit : ∀ a < 10, (digitChar a).toNat - '0'.toNat = a := by decide
    have hscale : (e + 1 - (a :: ds).length : ℤ) = e - ds.length := by
      rw [List.length_cons]
      omega
    have hrest := ih hlt.2 (e - 1)
    rw [sub_add_cancel] at hrest
    rw [scientific, ← hrest, List.map_cons, natOfDigits_eq_ofDigitChars, Nat.ofDigitChars_cons,
      Nat.mul_zero, Nat.zero_add, hdigit a hlt.1, Nat.ofDigitChars_eq_ofDigitChars_zero,
      ← natOfDigits_eq_ofDigitChars, List.length_map, hscale]
    have hpow : (10 : ℚ) ^ e = 10 ^ ds.length * 10 ^ (e - ds.length) := by
      rw [← zpow_natCast, ← zpow_add₀ (by norm_num), add_sub_cancel]
    push_cast
    rw [hpow]
    ring

theorem exponent_not_mem {ds : List Char} (hds : ∀ c ∈ ds, isDigit c = true) : 'e' ∉ ds :=
  fun hmem => by cases hds 'e' hmem

/-- Only an exponent has a mark. -/
theorem Numeral.exponent_eq_none_iff {n : Numeral} (h : n.IsProper) :
    n.exponent = none ↔ 'e' ∉ n.chars := by
  cases hexponent : n.exponent with
  | some p => simp [chars, exponentChars, hexponent]
  | none =>
    refine iff_of_true rfl fun hmem => ?_
    rw [chars, exponentChars, hexponent, List.append_nil, List.mem_append] at hmem
    rcases hmem with hmem | hmem
    · exact exponent_not_mem h.whole.2 hmem
    cases hpart : n.part with
    | none =>
      rw [partChars, hpart] at hmem
      cases hmem
    | some ds =>
      rw [partChars, hpart, List.mem_cons] at hmem
      rcases hmem with hpoint | hmem
      · cases hpoint
      · exact exponent_not_mem (h.part ds hpart).2 hmem

/-- A decimal is laid out with an exponent where the point is far from the digits. -/
theorem Decimal.exponent_mem_layout_iff {d : Decimal} (hne : d.digits ≠ [])
    (hlt : ∀ a ∈ d.digits, a < 10) : 'e' ∈ d.layout ↔ ¬(-6 < d.point ∧ d.point ≤ 21) := by
  have hpos : 0 < (d.digits.map digitChar).length := by
    rw [List.length_map]
    exact List.length_pos_iff.mpr hne
  have hdigits : 'e' ∉ d.digits.map digitChar := by
    refine exponent_not_mem fun c hc => ?_
    obtain ⟨a, ha, rfl⟩ := List.mem_map.mp hc
    exact Numeral.isDigit_digitChar (hlt a ha)
  rw [layout]
  dsimp only
  generalize d.digits.map digitChar = ds at *
  split
  · refine iff_of_false (fun hmem => ?_) (by omega)
    simp [hdigits] at hmem
  split
  · refine iff_of_false (fun hmem => ?_) (by omega)
    simp only [List.mem_append, List.mem_cons] at hmem
    rcases hmem with hmem | hmem | hmem
    · exact hdigits (List.mem_of_mem_take hmem)
    · cases hmem
    · exact hdigits (List.mem_of_mem_drop hmem)
  split
  · refine iff_of_false (fun hmem => ?_) (by omega)
    simp [hdigits] at hmem
  · exact iff_of_true (by simp) (by omega)

end Number

/-! ## Reading numbers -/

namespace Lexer

open Number (Numeral Decimal)

theorem not_lineEnd_of_isDigit {x : Char} (hx : Number.isDigit x = true) : isLineEnd x = false := by
  cases hend : isLineEnd x with
  | false => rfl
  | true =>
    simp only [isLineEnd, Bool.or_eq_true, beq_iff_eq] at hend
    rcases hend with ((rfl | rfl) | rfl) | rfl <;> cases hx

theorem not_lineEnd_of_mem_numeral {n : Numeral} (h : n.IsProper) {x : Char} (hx : x ∈ n.chars) :
    isLineEnd x = false := by
  rw [Numeral.chars, List.mem_append, List.mem_append] at hx
  rcases hx with (hx | hx) | hx
  · exact not_lineEnd_of_isDigit (h.whole.2 x hx)
  · cases hpart : n.part with
    | none =>
      rw [Numeral.partChars, hpart] at hx
      cases hx
    | some ds =>
      rw [Numeral.partChars, hpart, List.mem_cons] at hx
      rcases hx with rfl | hx
      · rfl
      · exact not_lineEnd_of_isDigit ((h.part ds hpart).2 x hx)
  · cases hexponent : n.exponent with
    | none =>
      rw [Numeral.exponentChars, hexponent] at hx
      cases hx
    | some p =>
      rw [Numeral.exponentChars, hexponent, List.mem_cons, List.mem_cons] at hx
      rcases hx with rfl | rfl | hx
      · rfl
      · cases p.1 <;> rfl
      · exact not_lineEnd_of_isDigit ((h.exponent p hexponent).2 x hx)

/-- A numeral is read up to what it does not go on with, and converted from all its characters. -/
theorem readNumber_numeral {n : Numeral} (h : n.IsProper) {rest : List Char}
    (hrest : Stops continuesNumeral rest) (pos : Position) : ∃ x,
      decimalText ⟨n.chars ++ rest, pos⟩ =
        .ok (n.chars, ⟨rest, pos.line, pos.column + n.chars.length⟩) ∧
      Number.ofDecimalText? n.chars = some x ∧
      readNumber ⟨n.chars ++ rest, pos⟩ =
        .ok (x, ⟨rest, pos.line, pos.column + n.chars.length⟩) := by
  have hlines : ∀ x ∈ n.chars, isLineEnd x = false := fun x hx => not_lineEnd_of_mem_numeral h hx
  obtain ⟨afterText, hdecimal, hafterText⟩ := takes_decimal h hrest ⟨n.chars ++ rest, pos⟩ rfl
  obtain ⟨text, htext, hconverts⟩ := exists_of_readDecimal hdecimal
  have hreadsText := (cuts_decimalText htext).reads
  cases hreadsText.eq_of_rest rfl hafterText
  obtain ⟨after, hread, hafter⟩ := takes_readNumber h hrest ⟨n.chars ++ rest, pos⟩ rfl
  obtain ⟨s, -, hcuts⟩ := cuts_readNumber hread
  cases hcuts.reads.eq_of_rest rfl hafter
  refine ⟨_, ?_, hconverts, ?_⟩
  · rw [htext, after_eq hreadsText hafterText hlines]
  · rw [hread, after_eq hcuts.reads hafter hlines]

end Lexer

namespace Number

open Lexer (continuesNumeral decimalText readNumber Stops)

theorem toText_of_isPositive {x : Number} (hx : x.IsPositive) :
    x.toText = String.ofList x.shortest.layout := by
  have hfinite : x.biasedExponent ≠ 2047 := by simpa [isFinite] using hx.finite
  have habs : x.abs = x := by
    rw [abs, hx.sign]
    rfl
  simp [toText, isNaN, isInfinite, hfinite, hx.nonzero, hx.sign, habs]

/-- The layout of digits and an exponent denotes their decimal, has an exponent only where the point
is more than twenty places to the right of the first digit or more than six to the left, takes no
part of the digits that is not there, and is read back whole. -/
theorem layout_scientific (ds : List ℕ) (e : ℤ) (hne : ds ≠ []) (hlt : ∀ a ∈ ds, a < 10) :
    (∃ n : Numeral, n.IsProper ∧ n.chars = Decimal.layout ⟨ds, e + 1⟩ ∧
      (n.mantissa * 10 ^ n.scale : ℚ) = scientific ds e ∧
      (n.exponent = none ↔ -6 ≤ e ∧ e ≤ 20)) ∧
    Decimal.layout? ⟨ds, e + 1⟩ = some (Decimal.layout ⟨ds, e + 1⟩) ∧
    (∀ x : Number, x.IsPositive → x.shortest = ⟨ds, e + 1⟩ →
      x.toText = String.ofList (Decimal.layout ⟨ds, e + 1⟩)) ∧
    ∀ rest pos, Stops continuesNumeral rest → ∃ x,
      decimalText ⟨Decimal.layout ⟨ds, e + 1⟩ ++ rest, pos⟩ =
        .ok (Decimal.layout ⟨ds, e + 1⟩,
          ⟨rest, pos.line, pos.column + (Decimal.layout ⟨ds, e + 1⟩).length⟩) ∧
      ofDecimalText? (Decimal.layout ⟨ds, e + 1⟩) = some x ∧
      readNumber ⟨Decimal.layout ⟨ds, e + 1⟩ ++ rest, pos⟩ =
        .ok (x, ⟨rest, pos.line, pos.column + (Decimal.layout ⟨ds, e + 1⟩).length⟩) := by
  obtain ⟨n, hproper, hchars, hvalue⟩ := Numeral.exists_layout (d := ⟨ds, e + 1⟩) hne hlt
  refine ⟨⟨n, hproper, hchars, ?_, ?_⟩, Decimal.layout?_eq hne, ?_, ?_⟩
  · rw [hvalue, Decimal.value_eq_scientific hlt]
  · rw [Numeral.exponent_eq_none_iff hproper, hchars, Decimal.exponent_mem_layout_iff hne hlt]
    dsimp only
    omega
  · intro x hx hshortest
    rw [toText_of_isPositive hx, hshortest]
  · intro rest pos hrest
    rw [← hchars]
    exact Lexer.readNumber_numeral hproper hrest pos

/-- The first exponent that is written, in front of a semicolon. -/
theorem layout_scientific_exponent :
    Decimal.layout ⟨[1, 5], 22⟩ = "1.5e+21".toList ∧
      (∃ n : Numeral, n.IsProper ∧ n.chars = Decimal.layout ⟨[1, 5], 22⟩ ∧
        (n.mantissa * 10 ^ n.scale : ℚ) = scientific [1, 5] 21 ∧ n.exponent ≠ none) ∧
      ∃ x, ofDecimalText? (Decimal.layout ⟨[1, 5], 22⟩) = some x ∧
        readNumber ⟨Decimal.layout ⟨[1, 5], 22⟩ ++ [';'], 1, 1⟩ = .ok (x, ⟨[';'], 1, 8⟩) := by
  obtain ⟨⟨n, hproper, hchars, hvalue, hplain⟩, -, -, hreads⟩ :=
    layout_scientific [1, 5] 21 (by decide) (by decide)
  obtain ⟨x, -, hconverts, hread⟩ := hreads [';'] ⟨1, 1⟩ (by rintro _ ⟨⟩; decide)
  refine ⟨by decide, ⟨n, hproper, hchars, hvalue, ?_⟩, x, hconverts, hread⟩
  rw [Ne, hplain]
  decide

end Number

end EsOptimizer
