import EsOptimizer.Proofs.Token.Partition

/-!
# Cutting a text ends

The lexer goes round by round. A round skips what stands between two tokens and reads one token, and
the last round comes to the end of the text. Every other one moves over at least one character, so
there are no more rounds than characters, and one: the steps that are counted do not run out, and
without the count the tokens of a text are those of its first round and of the text that it leaves.
-/

namespace EsOptimizer
namespace Lexer

variable {steps : Nat} {slash : Bool} {c after : Cursor} {l : Lexeme}

/-- Skips what stands between tokens, and reads a token or the end of the text. -/
def round (slashIsRegex : Bool) (c : Cursor) : Except SyntaxError (Lexeme × Cursor) := do
  let (c, ended) ← skipGap .open c.rest c.pos false
  match c.head? with
  | none => .ok (⟨.eof, ended, c.pos⟩, c)
  | some first =>
    let (token, after) ← readToken slashIsRegex first c
    .ok (⟨token, ended, c.pos⟩, after)

/-- The tokens from the cursor to the end of the text, with a step for every character that is left,
and one. -/
def tokensToEnd (slashIsRegex : Bool) (c : Cursor) : Except SyntaxError (List Lexeme) :=
  tokensFrom (c.rest.length + 1) slashIsRegex c

/-- A round comes to the end of the text, or it moves over something. -/
theorem reads_of_round (h : round slash c = .ok (l, after)) :
    ∃ s, c.Reads s after ∧
      (l.token = .eof ∧ after.rest = [] ∨ l.token ≠ .eof ∧ s ≠ []) := by
  obtain ⟨⟨visible, ended⟩, hskip, h⟩ := bind_eq_ok h
  obtain ⟨gap, hskips⟩ := skips_of_skipGap hskip
  dsimp only at h
  split at h
  · rename_i hnone
    cases h
    exact ⟨gap, hskips.reads, .inl ⟨rfl, List.head?_eq_none_iff.mp hnone⟩⟩
  · rename_i first hfirst
    obtain ⟨⟨token, after'⟩, hread, h⟩ := bind_eq_ok h
    cases h
    obtain ⟨s, hne, hreads, -, heof⟩ := spells_of_readToken hfirst hread
    exact ⟨gap ++ s, hskips.reads.append hreads, .inr ⟨heof, fun hnil =>
      hne (List.append_eq_nil_iff.mp hnil).2⟩⟩

theorem length_lt_of_round (h : round slash c = .ok (l, after)) (hl : l.token ≠ .eof) :
    after.rest.length < c.rest.length := by
  obtain ⟨s, hreads, ⟨heof, -⟩ | ⟨-, hne⟩⟩ := reads_of_round h
  · exact absurd heof hl
  · rw [hreads.rest_eq, List.length_append]
    exact Nat.lt_add_of_pos_left (List.length_pos_iff.mpr hne)

theorem bind_congr_of_ok {ε α β : Type} {x : Except ε α} {f g : α → Except ε β}
    (h : ∀ a, x = .ok a → f a = g a) : x >>= f = x >>= g := by
  cases x with
  | error e => rfl
  | ok a => exact h a rfl

/-- One step is one round. -/
theorem tokensFrom_succ (steps : Nat) (slash : Bool) (c : Cursor) :
    tokensFrom (steps + 1) slash c = (do
      let (l, after) ← round slash c
      if l.token = .eof then .ok [l]
      else
        let rest ← tokensFrom steps l.token.precedesExpr after
        .ok (l :: rest)) := by
  rw [tokensFrom, round, bind_assoc]
  refine bind_congr_of_ok ?_
  rintro ⟨visible, ended⟩ -
  dsimp only
  cases hfirst : visible.head? with
  | none => rfl
  | some first =>
    refine (bind_congr_of_ok ?_).trans (bind_assoc _ _ _).symm
    rintro ⟨token, after⟩ hread
    obtain ⟨-, -, -, -, heof⟩ := spells_of_readToken hfirst hread
    exact (if_neg heof).symm

/-- The steps do not matter where there are more of them than characters left. -/
theorem tokensFrom_steps {steps' : Nat} (h : c.rest.length < steps) (h' : c.rest.length < steps') :
    tokensFrom steps slash c = tokensFrom steps' slash c := by
  induction steps generalizing slash c steps' with
  | zero => exact absurd h (Nat.not_lt_zero _)
  | succ steps ih =>
    obtain ⟨steps', rfl⟩ := Nat.exists_eq_add_of_le' (Nat.lt_of_le_of_lt (Nat.zero_le _) h')
    rw [tokensFrom_succ, tokensFrom_succ]
    refine bind_congr_of_ok ?_
    rintro ⟨l, after⟩ hround
    dsimp only
    split
    · rfl
    · rename_i heof
      -- the round has left fewer characters
      have hless := length_lt_of_round hround heof
      rw [ih (by omega) (by omega : after.rest.length < steps')]

/-- The tokens are those of the first round and of the text that it leaves. -/
theorem tokensToEnd_eq (slash : Bool) (c : Cursor) : tokensToEnd slash c = (do
    let (l, after) ← round slash c
    if l.token = .eof then .ok [l]
    else
      let rest ← tokensToEnd l.token.precedesExpr after
      .ok (l :: rest)) := by
  rw [tokensToEnd, tokensFrom_succ]
  refine bind_congr_of_ok ?_
  rintro ⟨l, after⟩ hround
  dsimp only
  split
  · rfl
  · rename_i heof
    rw [tokensFrom_steps (length_lt_of_round hround heof) (Nat.lt_succ_self _), tokensToEnd]

/-- The last token is the end of the input, and no other one is. -/
theorem eof_of_tokensFrom {ls : List Lexeme} (h : tokensFrom steps slash c = .ok ls) :
    ∃ front last, ls = front ++ [last] ∧ last.token = .eof ∧ ∀ l ∈ front, l.token ≠ .eof := by
  induction steps generalizing slash c ls with
  | zero =>
    cases h
    exact ⟨[], _, rfl, rfl, nofun⟩
  | succ steps ih =>
    rw [tokensFrom_succ] at h
    obtain ⟨⟨l, after⟩, -, h⟩ := bind_eq_ok h
    dsimp only at h
    split at h
    · rename_i heof
      cases h
      exact ⟨[], l, rfl, heof, nofun⟩
    · rename_i heof
      obtain ⟨rest, hrest, h⟩ := bind_eq_ok h
      cases h
      obtain ⟨front, last, rfl, hlast, hfront⟩ := ih hrest
      exact ⟨l :: front, last, rfl, hlast, List.forall_mem_cons.mpr ⟨heof, hfront⟩⟩

/-- In a string literal every step takes at least one character. -/
theorem readStringFrom_steps {quote : Char} {start : Position} {steps' : Nat}
    (h : c.rest.length < steps) (h' : c.rest.length < steps') :
    readStringFrom quote start steps c = readStringFrom quote start steps' c := by
  induction steps generalizing c steps' with
  | zero => exact absurd h (Nat.not_lt_zero _)
  | succ steps ih =>
    obtain ⟨steps', rfl⟩ := Nat.exists_eq_add_of_le' (Nat.lt_of_le_of_lt (Nat.zero_le _) h')
    rw [readStringFrom, readStringFrom]
    split
    · rfl
    rename_i ch hch
    obtain ⟨rest, hrest⟩ := List.head?_eq_some_iff.mp hch
    have hnext : c.rest.length = c.next.rest.length + 1 :=
      congrArg List.length (Cursor.Reads.next hrest).rest_eq
    split
    · rfl
    split
    · refine bind_congr_of_ok ?_
      rintro ⟨o, mid⟩ hescape
      obtain ⟨s, hs⟩ := repeats_readEscape hescape
      have hmid : c.next.rest.length = s.length + mid.rest.length := by
        rw [hs.reads.rest_eq, List.length_append]
      dsimp only
      rw [ih (by omega) (by omega : mid.rest.length < steps')]
    · rw [ih (by omega) (by omega : c.next.rest.length < steps')]

end Lexer
end EsOptimizer
