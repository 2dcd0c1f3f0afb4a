import EsOptimizer.Proofs.Printer.Opens

/-!
# Texts that do not stick together

The layout puts a blank between two texts that would read as one word, and between equal signs.
`Token.apart` says what the tree has to see to: an operator is followed by an expression, a point by
a word, and a number is not followed by a point. Then a text never sticks to the one in front of it.
-/

namespace EsOptimizer

open Lexer (punctuation sticks)

namespace Token

variable {s s' : String} {t u : Token} {x : Char}

def isWord : Token → Bool
  | .word _ => true
  | _ => false

/-- Whether the second token may stand right behind the first one. -/
def apart (t u : Token) : Bool :=
  match t with
  | .binary _ | .assign _ | .punct .bang => u.opensExpr
  | .punct .dot => u.isWord
  | .number _ => u != .punct .dot
  | _ => true

/-- The characters behind which a mark may go on, other than the sign it ends with. -/
def longerMarks : List Char := ['=', '<', '>', '&', '|']

/-- Only an operator goes on, with one of a few characters or with the sign it ends with. -/
theorem sticks_punctuation : ∀ p ∈ punctuation, ∀ q ∈ punctuation,
    p.1.toList.isPrefixOf q.1.toList = true → (match q.1.toList.drop p.1.toList.length with
      | [] => true
      | x :: _ => (match p.2 with | .binary _ | .assign _ | .punct .bang => true | _ => false) &&
          (longerMarks.contains x || p.1.toList.getLast?.any (Sheet.merges · x))) = true := by
  decide +kernel

theorem not_joins_of_sticks (h : (s, t) ∈ punctuation) (hx : sticks s.toList x = true)
    (hmerge : ∀ y, s.toList.getLast? = some y → Sheet.merges y x = false) :
    (∀ u, t.apart u = u.opensExpr) ∧ x ∈ longerMarks := by
  obtain ⟨q, hq, hstart⟩ := List.any_eq_true.mp hx
  obtain ⟨more, hmore⟩ := List.isPrefixOf_iff_prefix.mp hstart
  rw [List.append_assoc] at hmore
  have hp := sticks_punctuation (s, t) h q hq
    (List.isPrefixOf_iff_prefix.mpr ⟨_, hmore⟩)
  simp only [← hmore, List.drop_left, List.singleton_append, Bool.and_eq_true, Bool.or_eq_true] at hp
  obtain ⟨hoperator, hlonger | hlast⟩ := hp
  · refine ⟨fun u => ?_, by simpa using hlonger⟩
    match t with
    | .binary _ | .assign _ | .punct .bang => rfl
  · cases hlast' : s.toList.getLast? with
    | none =>
      rw [hlast'] at hlast
      cases hlast
    | some y =>
      rw [hlast', Option.any_some, hmerge y hlast'] at hlast
      cases hlast

/-! ## How texts begin and end -/

theorem isWordChar_of_word (h : Text.isWord s = true) : ∀ y ∈ s.toList, Sheet.isWordChar y = true := by
  obtain ⟨x, cs, hs, hstart, hpart, hascii⟩ := Text.isWord_iff.mp h
  intro y hy
  rw [Text.isWordChar_eq (hascii y hy)]
  rw [hs] at hy
  rcases List.mem_cons.mp hy with rfl | hy
  · exact Lexer.isIdentPart_of_identStart hstart
  · exact hpart y hy

theorem isWordChar_of_digit (h : Number.isDigit x = true) : Sheet.isWordChar x = true := by
  have hhi : x.toNat ≤ 57 := by
    simp only [Number.isDigit, Bool.and_eq_true, decide_eq_true_eq, Char.le_def,
      UInt32.le_iff_toNat_le] at h
    exact h.2
  rw [Text.isWordChar_eq (by omega), Text.isIdentPart, if_pos (by omega)]
  rw [Number.isDigit] at h
  simp [h]

/-- What the printer writes begins like a word, a string literal or a mark. -/
theorem head_of_spelled (h : Spelled s) (hx : s.toList.head? = some x) :
    Sheet.isWordChar x = true ∨ x = '"' ∨ (∃ t, (s, t) ∈ punctuation ∧ ofText s = t) ∨
      x = '.' ∧ ofText s = .punct .dot := by
  cases h with
  | word h =>
    exact .inl (isWordChar_of_word h x (List.mem_of_mem_head? hx))
  | quoted v =>
    rw [Text.quoted, String.toList_ofList] at hx
    cases hx
    exact .inr (.inl rfl)
  | number h =>
    obtain ⟨n, hproper, hchars, -⟩ := Number.exists_numeral h
    obtain ⟨y, cs, hcs, hdigit⟩ := hproper.exists_cons
    rw [← hchars, hcs] at hx
    cases hx
    exact .inl (isWordChar_of_digit hdigit)
  | mark h hslash => exact .inr (.inr (.inl ⟨_, h, ofText_mark h hslash⟩))
  | dot =>
    cases hx
    exact .inr (.inr (.inr ⟨rfl, by decide⟩))

/-- Where a mark begins, no word and no number goes on, and no operator if an expression begins. -/
theorem head_of_punctuation : ∀ p ∈ punctuation, p.1.toList.head?.all (fun x =>
    !Text.isIdentPart x && !Lexer.continuesNumeral x &&
      !(p.2.opensExpr && longerMarks.contains x)) = true := by
  decide +kernel

/-- A text that ends like a word is kept apart from one that begins so. -/
theorem not_isWordChar (hmerge : ∀ y, s.toList.getLast? = some y → Sheet.merges y x = false)
    {y : Char} (hlast : s.toList.getLast? = some y) (hy : Sheet.isWordChar y = true) :
    Sheet.isWordChar x = false := by
  have h := hmerge y hlast
  rw [Sheet.merges, Bool.or_eq_false_iff, hy, Bool.true_and] at h
  exact h.2

/-- The next text does not stick to the one in front of it. -/
theorem joins_eq_false (hs : Spelled s) (hs' : Spelled s')
    (hapart : (ofText s).apart (ofText s') = true) (hx : s'.toList.head? = some x)
    (hmerge : ∀ y, s.toList.getLast? = some y → Sheet.merges y x = false) : joins s x = false := by
  have hhead := head_of_spelled hs' hx
  have hmark : ∀ t, (s', t) ∈ punctuation → Text.isIdentPart x = false ∧
      Lexer.continuesNumeral x = false ∧ (t.opensExpr = true → x ∉ longerMarks) := fun t ht => by
    have := head_of_punctuation _ ht
    rw [hx] at this
    simpa [and_assoc, imp_iff_not_or] using this
  cases hs with
  | word h =>
    have hjoins : joins s x = Text.isIdentPart x := by rw [joins, ofText_word h]
    rw [hjoins]
    obtain ⟨y, hlast⟩ : ∃ y, s.toList.getLast? = some y := by
      obtain ⟨y, cs, hs, -⟩ := Text.isWord_iff.mp h
      exact ⟨_, by rw [hs]; exact List.getLast?_cons⟩
    have hword := not_isWordChar hmerge hlast
      (isWordChar_of_word h y (List.mem_of_getLast? hlast))
    rcases hhead with h | rfl | ⟨t, ht, -⟩ | ⟨rfl, -⟩
    · rw [h] at hword
      cases hword
    · decide
    · exact (hmark t ht).1
    · decide
  | quoted v => rw [joins, ofText_quoted]
  | number h =>
    have hjoins : ∀ z, joins _ z = Lexer.continuesNumeral z := fun z => by
      rw [joins, ofText_number h]
    rw [hjoins]
    rw [ofText_number h] at hapart
    obtain ⟨n, hproper, hchars, -⟩ := Number.exists_numeral h
    obtain ⟨y, hlast, hdigit⟩ := hproper.exists_getLast?
    rw [hchars] at hlast
    have hword := not_isWordChar hmerge hlast (isWordChar_of_digit hdigit)
    rcases hhead with h | rfl | ⟨t, ht, -⟩ | ⟨rfl, hdot⟩
    · rw [h] at hword
      cases hword
    · decide
    · exact (hmark t ht).2.1
    · rw [hdot] at hapart
      cases hapart
  | mark h hslash =>
    rw [joins_mark h hslash]
    by_contra hsticks
    rw [Bool.not_eq_false] at hsticks
    obtain ⟨hoperator, hlonger⟩ := not_joins_of_sticks h hsticks hmerge
    rw [ofText_mark h hslash, hoperator] at hapart
    rcases hhead with h | rfl | ⟨t, ht, htoken⟩ | ⟨rfl, -⟩
    · have hplain : (longerMarks.all fun y => !Sheet.isWordChar y) = true := by decide
      have hx := List.all_eq_true.mp hplain x hlonger
      rw [h] at hx
      cases hx
    · revert hlonger
      decide
    · exact (hmark t ht).2.2 (htoken ▸ hapart) hlonger
    · revert hlonger
      decide
  | dot =>
    have hdot : ofText "." = .punct .dot := by decide
    rw [joins, hdot]
    rw [hdot] at hapart
    cases hs' with
    | word h =>
      obtain ⟨y, cs, hs, hstart, -⟩ := Text.isWord_iff.mp h
      rw [hs] at hx
      cases hx
      exact Lexer.not_isDigit_of_identStart hstart
    | quoted v => rw [ofText_quoted] at hapart; cases hapart
    | number h => rw [ofText_number h] at hapart; cases hapart
    | mark h hslash =>
      have hword : ∀ p ∈ punctuation, p.2.isWord = false := by decide
      rw [ofText_mark h hslash, apart, hword _ h] at hapart
      cases hapart
    | dot => rw [hdot] at hapart; cases hapart

end Token
end EsOptimizer
