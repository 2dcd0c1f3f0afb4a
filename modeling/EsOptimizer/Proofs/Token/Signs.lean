import EsOptimizer.Number.Text
import EsOptimizer.Token.Lexer

/-!
# Numbers of tokens

What is read from digits never has the sign bit set, so no token is a number with a sign: a minus
sign in front of a number is a token of its own.
-/

namespace EsOptimizer

namespace Number

theorem isNegative_ofFraction (a : Fraction) : (ofFraction a).isNegative = false := by
  unfold ofFraction
  extract_lets q m pattern
  split
  · decide
  split
  · rename_i hlt
    rw [Nat.pow_eq] at hlt
    simp only [isNegative, Nat.pow_eq, decide_eq_false_iff_not, UInt64.toNat_ofNat']
    omega
  · decide

theorem isNegative_ofDecimal (m : Nat) (e : Int) : (ofDecimal m e).isNegative = false := by
  unfold ofDecimal
  extract_lets digits
  split
  · decide
  split
  · decide
  split
  · decide
  · exact isNegative_ofFraction _

theorem isNegative_timesNat {x : Number} (h : x.isNegative = false) (n : Nat) :
    (x.timesNat n).isNegative = false := by
  unfold timesNat
  split
  · exact h
  · exact isNegative_ofFraction _

theorem isNegative_plusNat {x : Number} (h : x.isNegative = false) (n : Nat) :
    (x.plusNat n).isNegative = false := by
  unfold plusNat
  split
  · exact h
  · exact isNegative_ofFraction _

theorem isNegative_ofDigits (base : Nat) (ds : List Nat) : (ofDigits base ds).isNegative = false := by
  have hfold : ∀ acc : Number, acc.isNegative = false →
      (ds.foldl (fun acc d => (acc.timesNat base).plusNat d) acc).isNegative = false := by
    induction ds with
    | nil => exact fun acc h => h
    | cons d ds ih => exact fun acc h => ih _ (isNegative_plusNat (isNegative_timesNat h base) d)
  exact hfold zero (by decide)

theorem isNegative_of_ofDecimalText? {cs : List Char} {n : Number} (h : ofDecimalText? cs = some n) :
    n.isNegative = false := by
  unfold ofDecimalText? at h
  extract_lets whole rest at h
  split at h
  split at h
  · cases h
  · obtain ⟨e, -, rfl⟩ := Option.map_eq_some_iff.mp h
    exact isNegative_ofDecimal _ _

end Number

/-- The token is no number with a sign. -/
def Token.IsUnsigned (t : Token) : Prop := ∀ x, t = .number x → x.isNegative = false

namespace Lexer

variable {α β : Type} {ε : Type}

theorem bind_eq_ok {x : Except ε α} {f : α → Except ε β} {b : β} (h : (x >>= f) = .ok b) :
    ∃ a, x = .ok a ∧ f a = .ok b := by
  cases x with
  | error e => cases h
  | ok a => exact ⟨a, rfl, h⟩

theorem isNegative_of_readBased {base : Nat} {c after : Cursor} {n : Number}
    (h : readBased base c = .ok (n, after)) : n.isNegative = false := by
  unfold readBased at h
  simp only at h
  split at h
  · cases h
  · cases h
    exact Number.isNegative_ofDigits _ _

theorem isNegative_of_readDecimal {c after : Cursor} {n : Number}
    (h : readDecimal c = .ok (n, after)) : n.isNegative = false := by
  unfold readDecimal at h
  simp only at h
  obtain ⟨⟨exponent, after'⟩, -, h⟩ := bind_eq_ok h
  dsimp only at h
  split at h
  · rename_i hn
    cases h
    exact Number.isNegative_of_ofDecimalText? hn
  · cases h

theorem isNegative_of_readNumber {c after : Cursor} {n : Number}
    (h : readNumber c = .ok (n, after)) : n.isNegative = false := by
  unfold readNumber at h
  extract_lets rest at h
  have hrest {m : Number} {after' : Cursor} (hm : m.isNegative = false)
      (h : rest (m, after') = .ok (n, after)) : n.isNegative = false := by
    dsimp only [rest] at h
    split at h
    · cases h
    · cases h
      exact hm
  split at h
  · obtain ⟨⟨m, after'⟩, hm, h⟩ := bind_eq_ok h
    exact hrest (isNegative_of_readBased hm) h
  · obtain ⟨⟨m, after'⟩, hm, h⟩ := bind_eq_ok h
    exact hrest (isNegative_of_readDecimal hm) h

theorem not_number_of_mem_punctuation : ∀ p ∈ punctuation, (p.2 matches .number _) = false := by
  decide +kernel

theorem isUnsigned_of_readToken {slashIsRegex : Bool} {first : Char} {c after : Cursor} {t : Token}
    (h : readToken slashIsRegex first c = .ok (t, after)) : t.IsUnsigned := by
  have hnumber (hread : ((readNumber c).map fun r => (Token.number r.1, r.2)) = .ok (t, after)) :
      t.IsUnsigned := by
    cases hn : readNumber c with
    | error e =>
      rw [hn] at hread
      cases hread
    | ok r =>
      rw [hn] at hread
      cases hread
      rintro x ⟨⟩
      exact isNegative_of_readNumber hn
  unfold readToken at h
  split at h
  · split at h
    · exact hnumber h
    · cases h
      rintro _ ⟨⟩
  split at h
  · exact hnumber h
  split at h
  · obtain ⟨r, -, h⟩ := bind_eq_ok h
    cases h
    rintro _ ⟨⟩
  split at h
  · obtain ⟨r, -, h⟩ := bind_eq_ok h
    cases h
    rintro _ ⟨⟩
  split at h
  · cases h
    rintro _ ⟨⟩
  · unfold readPunctuation at h
    split at h
    · rename_i hfind
      cases h
      rintro x rfl
      exact Bool.noConfusion (not_number_of_mem_punctuation _ (List.mem_of_find?_eq_some hfind))
    · cases h

theorem isUnsigned_of_tokensFrom {steps : Nat} {slashIsRegex : Bool} {c : Cursor}
    {ls : List Lexeme} (h : tokensFrom steps slashIsRegex c = .ok ls) :
    ∀ l ∈ ls, l.token.IsUnsigned := by
  have hend (ended : Bool) (pos : Position) : ∀ l ∈ [Lexeme.mk .eof ended pos], l.token.IsUnsigned :=
    List.forall_mem_singleton.mpr nofun
  induction steps generalizing slashIsRegex c ls with
  | zero =>
    cases h
    exact hend _ _
  | succ steps ih =>
    rw [tokensFrom] at h
    obtain ⟨⟨c, ended⟩, -, h⟩ := bind_eq_ok h
    dsimp only at h
    split at h
    · cases h
      exact hend _ _
    · obtain ⟨⟨t, after⟩, ht, h⟩ := bind_eq_ok h
      obtain ⟨rest, hrest, h⟩ := bind_eq_ok h
      cases h
      exact List.forall_mem_cons.mpr ⟨isUnsigned_of_readToken ht, ih hrest⟩

end Lexer

end EsOptimizer
