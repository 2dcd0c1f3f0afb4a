import EsOptimizer.Token.Cursor

/-!
# Places in a text

Where a place stands is a matter of the text in front of it: its line is one more than the line ends
there, and its column one more than the characters behind the last of them. A cursor that moves
through a text keeps to this, except between a carriage return and a line feed, where it still
stands in front of both.
-/

namespace EsOptimizer

open Text (isLineEnd)

variable {c after : Cursor} {s t before rest : List Char} {x : Char} {pos : Position}

/-- The line ends of a text, where a carriage return and the line feed behind it are one. -/
def lineEnds : List Char → Nat
  | [] => 0
  | x :: rest =>
    lineEnds rest + if isLineEnd x && !(x == '\r' && rest.head? == some '\n') then 1 else 0

/-- The place behind a text, in lines and columns from one. -/
def Position.behind (cs : List Char) : Position :=
  ⟨1 + lineEnds cs, 1 + (cs.reverse.takeWhile fun x => !isLineEnd x).length⟩

example : Position.behind "a\r\nb\n\rcd".toList = ⟨4, 3⟩ := by decide

/-- The text is cut between a carriage return and its line feed. -/
def CutsLineEnd (s t : List Char) : Prop := s.getLast? = some '\r' ∧ t.head? = some '\n'

instance : Decidable (CutsLineEnd s t) := inferInstanceAs (Decidable (_ ∧ _))

theorem lineEnds_append (h : ¬CutsLineEnd s t) : lineEnds (s ++ t) = lineEnds s + lineEnds t := by
  induction s with
  | nil => simp [lineEnds]
  | cons x s ih =>
    cases s with
    | nil =>
      have hcut : x = '\r' → t.head? ≠ some '\n' := fun hx ht => h ⟨congrArg some hx, ht⟩
      have hcounted : (x == '\r' && t.head? == some '\n') = false := by simpa using hcut
      rw [List.singleton_append, lineEnds, lineEnds, lineEnds, hcounted]
      simp [Nat.add_comm]
    | cons y s =>
      have hhead : (y :: s ++ t).head? = (y :: s).head? := rfl
      rw [List.cons_append, lineEnds, ih h, hhead, lineEnds]
      exact Nat.add_right_comm _ _ _

@[simp] theorem cutsLineEnd_concat : CutsLineEnd (s ++ [x]) t ↔ x = '\r' ∧ t.head? = some '\n' := by
  simp [CutsLineEnd]

theorem not_cutsLineEnd_cons (hx : isLineEnd x = false) : ¬CutsLineEnd s (x :: t) := by
  rintro ⟨-, hfeed⟩
  cases hfeed
  cases hx

/-- One more line end, unless it is the second half of the one in front of it. -/
theorem lineEnds_concat (hx : isLineEnd x = true) : lineEnds (s ++ [x]) =
    lineEnds (if CutsLineEnd s [x] then s.dropLast else s) + 1 := by
  split
  · rename_i hcut
    obtain ⟨front, rfl⟩ := List.getLast?_eq_some_iff.mp hcut.1
    cases hcut.2
    rw [List.dropLast_concat, List.append_assoc, List.singleton_append,
      lineEnds_append fun h => by cases h.2]
    rfl
  · rename_i hcut
    simp [lineEnds_append hcut, lineEnds, hx]

/-- A character that ends no line is one more column. -/
theorem Position.behind_concat (hx : isLineEnd x = false) :
    behind (s ++ [x]) = ⟨(behind s).line, (behind s).column + 1⟩ := by
  simp [behind, lineEnds_append (not_cutsLineEnd_cons hx), lineEnds, hx, Nat.add_assoc]

/-- Behind a line end the next line starts. -/
theorem Position.behind_concat_lineEnd (hx : isLineEnd x = true) : behind (s ++ [x]) =
    ⟨(behind (if CutsLineEnd s [x] then s.dropLast else s)).line + 1, 1⟩ := by
  simp only [behind, lineEnds_concat hx]
  simp [hx, Nat.add_assoc]

/-! ## Moving through a text -/

namespace Cursor

/-- Moving over `s`, one character after the other, leads to `after`. -/
inductive Reads : Cursor → List Char → Cursor → Prop where
  | nil (c : Cursor) : Reads c [] c
  | cons {x : Char} {s rest : List Char} {pos : Position} {after : Cursor} :
    Reads ⟨rest, pos.past x rest⟩ s after → Reads ⟨x :: rest, pos⟩ (x :: s) after

theorem Reads.append {mid : Cursor} (h : c.Reads s mid) (h' : mid.Reads t after) :
    c.Reads (s ++ t) after := by
  induction h with
  | nil => exact h'
  | cons _ ih => exact .cons (ih h')

theorem Reads.rest_eq (h : c.Reads s after) : c.rest = s ++ after.rest := by
  induction h with
  | nil => rfl
  | cons _ ih => exact congrArg (_ :: ·) ih

theorem Reads.eq_skip (h : c.Reads s after) : after = c.skip s.length := by
  induction h with
  | nil => rfl
  | cons _ ih => exact ih

theorem Reads.next (h : c.rest = x :: rest) : c.Reads [x] c.next := by
  obtain ⟨cs, pos⟩ := c
  cases h
  exact .cons (.nil _)

theorem reads_skip (h : c.rest = s ++ rest) : c.Reads s (c.skip s.length) := by
  induction s generalizing c with
  | nil => exact .nil c
  | cons x s ih =>
    obtain ⟨cs, pos⟩ := c
    cases h
    exact .cons (ih rfl)

/-- What is read is known from what is left. -/
theorem Reads.eq_of_rest (h : c.Reads s after) (hc : c.rest = t ++ rest) (hafter : after.rest = rest) :
    s = t := by
  rw [h.rest_eq, hafter] at hc
  exact List.append_cancel_right hc

theorem Reads.exists_cons (h : c.Reads s after) (hs : s ≠ []) (hx : c.head? = some x) :
    ∃ cs, s = x :: cs := by
  obtain ⟨y, cs, rfl⟩ := List.exists_cons_of_ne_nil hs
  rw [head?, h.rest_eq] at hx
  cases hx
  exact ⟨cs, rfl⟩

/-- Within a line, only the column changes. -/
theorem Reads.pos_eq (h : c.Reads s after) (hs : ∀ x ∈ s, isLineEnd x = false) :
    after.pos = ⟨c.pos.line, c.pos.column + s.length⟩ := by
  induction h with
  | nil => rfl
  | @cons x s rest pos after _ ih =>
    rw [List.forall_mem_cons] at hs
    rw [ih hs.2, Position.past, hs.1]
    simp [Nat.add_comm, Nat.add_left_comm]

/-- The cursor stands behind the text, or, between a carriage return and its line feed, still in
front of both. -/
def IsBehind (before : List Char) (c : Cursor) : Prop :=
  c.pos = .behind (if CutsLineEnd before c.rest then before.dropLast else before)

theorem isBehind_start (cs : List Char) : (start cs).IsBehind [] := rfl

theorem IsBehind.next (h : IsBehind before ⟨x :: rest, pos⟩) :
    IsBehind (before ++ [x]) ⟨rest, pos.past x rest⟩ := by
  dsimp only [IsBehind] at h ⊢
  rw [Position.past]
  cases hx : isLineEnd x with
  | false =>
    have hcut : ¬CutsLineEnd (before ++ [x]) rest := by
      rw [cutsLineEnd_concat]
      rintro ⟨rfl, -⟩
      cases hx
    rw [if_neg (not_cutsLineEnd_cons hx)] at h
    rw [if_neg hcut, Position.behind_concat hx, h]
    rfl
  | true =>
    by_cases hpair : x = '\r' ∧ rest.head? = some '\n'
    · have hcut : ¬CutsLineEnd before (x :: rest) := by
        rintro ⟨-, hfeed⟩
        cases hfeed.symm.trans (congrArg some hpair.1)
      rw [if_neg hcut] at h
      rw [if_pos (cutsLineEnd_concat.mpr hpair), List.dropLast_concat, ← h]
      simp [hpair]
    · have hpast : (x == '\r' && rest.head? == some '\n') = false := by simpa using hpair
      rw [if_neg (mt cutsLineEnd_concat.mp hpair), Position.behind_concat_lineEnd hx, hpast, h]
      rfl

theorem IsBehind.reads (hc : c.IsBehind before) (h : c.Reads s after) :
    after.IsBehind (before ++ s) := by
  induction h generalizing before with
  | nil => rwa [List.append_nil]
  | @cons x s rest pos after _ ih =>
    rw [List.append_cons]
    exact ih hc.next

/-- In front of anything but a line feed, the place is the one behind the text. -/
theorem IsBehind.pos_eq (h : c.IsBehind before) (hfeed : c.head? ≠ some '\n') :
    c.pos = .behind before := by
  rw [h, if_neg fun hcut => hfeed hcut.2]

end Cursor

end EsOptimizer
