import EsOptimizer.Proofs.Printer.Marks
import EsOptimizer.Proofs.Token.Numerals

/-!
# Texts in front of texts

The printer writes words, string literals, numbers and punctuation. Each of them is read as its token
if the next character does not stick to it, and the next text does not stick if a blank is put
between two words and between two equal signs, as long as what follows an operator is an expression
and no point follows a number.
-/

namespace EsOptimizer

namespace Text

/-- Whether a text reads as one word. Only the first 128 characters count. -/
def isWord (s : String) : Bool :=
  match s.toList with
  | [] => false
  | c :: rest => isIdentStart c && rest.all isIdentPart && (c :: rest).all (·.toNat < 128)

/-- Whether a text is a word that is not reserved. -/
def isName (s : String) : Bool := isWord s && Word.ofText s == .ident s

variable {s : String} {x : Char}

theorem isWord_iff : isWord s = true ↔ ∃ x cs, s.toList = x :: cs ∧ isIdentStart x = true ∧
    (∀ y ∈ cs, isIdentPart y = true) ∧ ∀ y ∈ s.toList, y.toNat < 128 := by
  unfold isWord
  cases s.toList with
  | nil => simp
  | cons x cs => simp [and_assoc]

/-- In front of 128, what goes on a word is what the printer keeps apart from words. -/
theorem isWordChar_eq (h : x.toNat < 128) : Sheet.isWordChar x = isIdentPart x := by
  rw [Sheet.isWordChar, isAlphanumeric, isIdentPart, if_pos h, if_pos h]
  have hupper : x.isUpper = decide ('A' ≤ x ∧ x ≤ 'Z') := rfl
  have hlower : x.isLower = ('a' ≤ x && x ≤ 'z') := rfl
  have halnum : x.isAlphanum = (x.isUpper || x.isLower || x.isDigit) := rfl
  simp only [halnum, hupper, hlower, Char.isDigit, isLetter, Char.le_def]
  grind

end Text

theorem Word.text_ofText (s : String) : (Word.ofText s).text = s := by
  unfold Word.ofText
  split
  · rename_i h
    exact (eq_of_beq h).symm
  split
  · rename_i h
    exact (eq_of_beq h).symm
  split
  · rename_i h
    exact (eq_of_beq h).symm
  split
  · rename_i k hk
    exact eq_of_beq (List.find?_some (p := (Keyword.text · == s)) hk)
  · rfl

/-- What the printer writes as one token. A slash would begin a comment or a regular expression. -/
inductive Spelled : String → Prop
  | word {s : String} (h : Text.isWord s = true) : Spelled s
  | quoted (s : String) : Spelled (Text.quoted s)
  | number {x : Number} (h : x.isUnsigned = true) : Spelled x.toText
  | mark {s : String} {t : Token} (h : (s, t) ∈ Lexer.punctuation) (hslash : s ≠ "/" ∧ s ≠ "/=") :
    Spelled s
  | dot : Spelled "."

namespace Token

/-- Whether a token would go on with the character. -/
def joins (s : String) (x : Char) : Bool :=
  match ofText s with
  | .word _ => Text.isIdentPart x
  | .string _ => false
  | .number _ => Lexer.continuesNumeral x
  | .punct .dot => Number.isDigit x
  | _ => Lexer.sticks s.toList x

variable {s : String} {x : Char} {cs : List Char} {t : Token}

theorem ofText_eq (hs : s.toList = x :: cs)
    (h : Lexer.Takes (Lexer.readToken false x) s.toList t []) : ofText s = t := by
  obtain ⟨after, hread, -⟩ := h (.start s.toList) (List.append_nil _).symm
  rw [ofText, hs]
  rw [hs] at hread
  simp [hread]

theorem ofText_word {s : String} (h : Text.isWord s = true) :
    ofText s = .word (.ofText s) := by
  obtain ⟨x, cs, hs, hstart, hpart, -⟩ := Text.isWord_iff.mp h
  refine ofText_eq hs ?_
  have htakes : Lexer.Takes (Lexer.readToken false x) (x :: cs)
      (.word (.ofText (String.ofList (x :: cs)))) [] := Lexer.takes_word false hstart hpart nofun
  rwa [← hs, String.ofList_toList] at htakes

theorem ofText_quoted (s : String) : ofText (Text.quoted s) = .string s := by
  have hs : (Text.quoted s).toList = Text.quotedChars s.toList := String.toList_ofList
  refine ofText_eq (hs.trans rfl) ?_
  have htakes := Lexer.takes_quoted false s.toList []
  rwa [← hs, String.ofList_toList] at htakes

theorem ofText_number {n : Number} (h : n.isUnsigned = true) : ofText n.toText = .number n.abs := by
  obtain ⟨m, hproper, hchars, hvalue⟩ := Number.exists_numeral h
  obtain ⟨x, cs, hcs, -⟩ := hproper.exists_cons
  refine ofText_eq (hchars.symm.trans hcs) ?_
  rw [← hchars, ← hvalue]
  exact Lexer.takes_numeral hproper hcs nofun

/-- Every mark is the first that matches itself. -/
theorem punctuation_find : ∀ p ∈ Lexer.punctuation, p.1 ≠ "/" ∧ p.1 ≠ "/=" →
    p.1.toList.head?.any Lexer.startsMark = true ∧
      Lexer.punctuation.find? (fun q => q.1.toList.isPrefixOf p.1.toList) = some p := by
  decide +kernel

theorem takes_mark {s : String} {t : Token} (h : (s, t) ∈ Lexer.punctuation)
    (hslash : s ≠ "/" ∧ s ≠ "/=") (rest : List Char)
    (hrest : Lexer.Stops (Lexer.sticks s.toList) rest) :
    ∃ x cs, s.toList = x :: cs ∧ ∀ slash, Lexer.Takes (Lexer.readToken slash x) s.toList t rest := by
  obtain ⟨hhead, hfind⟩ := punctuation_find _ h hslash
  dsimp only at hhead hfind
  cases hs : s.toList with
  | nil =>
    rw [hs] at hhead
    cases hhead
  | cons x cs =>
    rw [hs] at hhead hfind hrest
    exact ⟨x, cs, rfl, fun slash => Lexer.takes_punctuation hhead hs hfind hrest⟩

theorem ofText_mark {s : String} {t : Token} (h : (s, t) ∈ Lexer.punctuation)
    (hslash : s ≠ "/" ∧ s ≠ "/=") : ofText s = t := by
  obtain ⟨x, cs, hs, htakes⟩ := takes_mark h hslash [] nofun
  exact ofText_eq hs (htakes false)

theorem joins_mark {s : String} {t : Token} (h : (s, t) ∈ Lexer.punctuation)
    (hslash : s ≠ "/" ∧ s ≠ "/=") (x : Char) : joins s x = Lexer.sticks s.toList x := by
  have hmark : ∀ p ∈ Lexer.punctuation, (match p.2 with
      | .binary _ | .assign _ => true
      | .punct p => p != .dot
      | _ => false) = true := by decide
  have ht := hmark _ h
  rw [joins, ofText_mark h hslash]
  match t with
  | .binary _ | .assign _ => rfl
  | .punct p => cases p <;> first | rfl | cases ht
  | .word _ | .string _ | .number _ | .regex _ _ | .eof => cases ht

/-- A text is read as its token in front of what does not stick to it. -/
theorem takes_of_spelled {s : String} (h : Spelled s) {rest : List Char}
    (hrest : Lexer.Stops (joins s) rest) : ∃ x cs, s.toList = x :: cs ∧
      ∀ slash, Lexer.Takes (Lexer.readToken slash x) s.toList (ofText s) rest := by
  cases h with
  | word h =>
    have hstop : Lexer.Stops Text.isIdentPart rest := fun y hy => by
      have := hrest y hy
      rwa [joins, ofText_word h] at this
    obtain ⟨x, cs, hs, hstart, hpart, -⟩ := Text.isWord_iff.mp h
    refine ⟨x, cs, hs, fun slash => ?_⟩
    have htakes := Lexer.takes_word slash hstart hpart hstop
    rwa [← hs, String.ofList_toList, ← ofText_word h] at htakes
  | quoted v =>
    have hs : (Text.quoted v).toList = Text.quotedChars v.toList := String.toList_ofList
    refine ⟨'"', _, hs, fun slash => ?_⟩
    have htakes := Lexer.takes_quoted slash v.toList rest
    rwa [String.ofList_toList, ← hs, ← ofText_quoted] at htakes
  | number h =>
    have hstop : Lexer.Stops Lexer.continuesNumeral rest := fun y hy => by
      have := hrest y hy
      rwa [joins, ofText_number h] at this
    obtain ⟨m, hproper, hchars, hvalue⟩ := Number.exists_numeral h
    obtain ⟨x, cs, hcs, -⟩ := hproper.exists_cons
    refine ⟨x, cs, hchars.symm.trans hcs, fun slash => ?_⟩
    rw [← hchars, ofText_number h, ← hvalue]
    exact Lexer.takes_numeral hproper hcs hstop
  | mark h hslash =>
    rw [ofText_mark h hslash]
    exact takes_mark h hslash rest fun y hy => by rw [← joins_mark h hslash, hrest y hy]
  | dot =>
    have hdot : ofText "." = .punct .dot := by decide
    have hstop : Lexer.Stops Number.isDigit rest := fun y hy => by
      have := hrest y hy
      rwa [joins, hdot] at this
    rw [hdot]
    exact ⟨'.', [], rfl, fun slash => Lexer.takes_dot hstop⟩

end Token

end EsOptimizer
