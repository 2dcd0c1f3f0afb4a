import EsOptimizer.Proofs.Token.Places
import EsOptimizer.Proofs.Token.Signs
import EsOptimizer.Proofs.Token.Texts

/-!
# What the readers read

A reader that succeeds has moved over a text. Most of them take the same text again wherever it
stands in front of the same character, and also where it ends the text they are given; such readers
can be put one after the other.
-/

namespace EsOptimizer
namespace Lexer

open Text (isIdentStart)

variable {α β : Type} {f : Cursor → Except SyntaxError (α × Cursor)} {c mid after : Cursor}
  {s s' t rest : List Char} {a : α} {b : β} {x : Char} {p : Char → Bool}

/-- In the place of `rest`, the text `t` starts with the same character or is empty. -/
def Ahead (rest t : List Char) : Prop := t = [] ∨ t.head? = rest.head?

theorem Ahead.append (h : Ahead rest t) (s : List Char) : Ahead (s ++ rest) (s ++ t) := by
  cases s with
  | nil => exact h
  | cons x s => exact .inr rfl

theorem Stops.ahead (h : Stops p rest) (ht : Ahead rest t) : Stops p t := by
  intro x hx
  rcases ht with rfl | ht
  · cases hx
  · exact h x (ht ▸ hx)

theorem stops_nil : Stops p [] := nofun

/-- The reader moves over `s` and gives `a`, also where `s` ends the text. -/
structure Cuts (f : Cursor → Except SyntaxError (α × Cursor)) (c : Cursor) (s : List Char) (a : α)
    (after : Cursor) : Prop where
  reads : c.Reads s after
  again : ∀ t, Ahead after.rest t → Takes f s a t

namespace Cuts

theorem pure (a : α) (c : Cursor) : Cuts (fun c => .ok (a, c)) c [] a c :=
  ⟨.nil c, fun _ _ c' hc' => ⟨c', rfl, hc'⟩⟩

/-- Nothing is read in front of the character that is there, nor at the end of a text. -/
theorem stay (hf : ∀ c' : Cursor, c'.head? = none ∨ c'.head? = c.head? → f c' = .ok (a, c')) :
    Cuts f c [] a c := by
  refine ⟨.nil c, fun t ht c' hc' => ⟨c', hf c' ?_, hc'⟩⟩
  rw [Cursor.head?, hc']
  exact ht.imp (congrArg List.head?) id

/-- First a character, then what another reader reads. -/
theorem cons {g : Cursor → Except SyntaxError (α × Cursor)} (hx : c.head? = some x)
    (h : Cuts g c.next s a after) (hf : ∀ c' : Cursor, c'.head? = some x → f c' = g c'.next) :
    Cuts f c (x :: s) a after := by
  obtain ⟨rest, hrest⟩ := List.head?_eq_some_iff.mp hx
  refine ⟨(Cursor.Reads.next hrest).append h.reads, fun t ht c' hc' => ?_⟩
  rw [hf c' (by rw [Cursor.head?, hc']; rfl)]
  exact h.again t ht c'.next (rest_next hc')

theorem bind {g : α → Cursor → Except SyntaxError (β × Cursor)} (h : Cuts f c s a mid)
    (h' : Cuts (g a) mid s' b after) :
    Cuts (fun c => f c >>= fun r => g r.1 r.2) c (s ++ s') b after := by
  refine ⟨h.reads.append h'.reads, fun t ht c' hc' => ?_⟩
  rw [List.append_assoc] at hc'
  have hahead : Ahead mid.rest (s' ++ t) := by
    rw [h'.reads.rest_eq]
    exact ht.append s'
  obtain ⟨mid', hf, hmid⟩ := h.again (s' ++ t) hahead c' hc'
  obtain ⟨after', hg, hafter⟩ := h'.again t ht mid' hmid
  refine ⟨after', ?_, hafter⟩
  rw [hf]
  exact hg

/-- The result of a reader, seen otherwise. -/
theorem map (k : α → β) (h : Cuts f c s a after) :
    Cuts (fun c => f c >>= fun r => .ok (k r.1, r.2)) c s (k a) after := by
  have := h.bind (g := fun a c => .ok (k a, c)) (pure (k a) after)
  rwa [List.append_nil] at this

end Cuts

/-! ## Runs -/

theorem reads_of_spanFrom {cs run : List Char} {pos : Position}
    (h : Cursor.spanFrom p cs pos = (run, after)) :
    Cursor.Reads ⟨cs, pos⟩ run after ∧ (∀ x ∈ run, p x = true) ∧ Stops p after.rest := by
  induction cs generalizing pos run with
  | nil =>
    cases h
    exact ⟨.nil _, nofun, nofun⟩
  | cons x cs ih =>
    rw [Cursor.spanFrom] at h
    cases hx : p x with
    | true =>
      rw [hx] at h
      cases h
      obtain ⟨hreads, hrun, hstops⟩ := ih rfl
      exact ⟨.cons hreads, List.forall_mem_cons.mpr ⟨hx, hrun⟩, hstops⟩
    | false =>
      rw [hx] at h
      cases h
      refine ⟨.nil _, nofun, ?_⟩
      rintro _ ⟨⟩
      exact hx

/-- A reader that goes by a run reads the run. -/
theorem cuts_of_span {run : List Char} (h : c.span p = (run, after))
    (hf : ∀ c' after', c'.span p = (run, after') → f c' = .ok (a, after')) :
    Cuts f c run a after := by
  obtain ⟨hreads, hrun, hstops⟩ := reads_of_spanFrom h
  refine ⟨hreads, fun t ht c' hc' => ?_⟩
  obtain ⟨after', hspan, hafter⟩ := span_eq hrun (hstops.ahead ht) hc'
  exact ⟨after', hf c' after' hspan, hafter⟩

theorem cuts_span {run : List Char} (h : c.span p = (run, after)) :
    Cuts (fun c => .ok (c.span p)) c run run after :=
  cuts_of_span h fun _ _ hspan => congrArg Except.ok hspan

/-! ## Numbers -/

theorem cuts_readBased {base : Nat} {n : Number} (h : readBased base c = .ok (n, after)) :
    ∃ s, Cuts (readBased base) c s n after := by
  unfold readBased at h
  rcases hspan : c.span fun ch => (Number.digitValue? base ch).isSome with ⟨run, after'⟩
  simp only [hspan] at h
  split at h
  · cases h
  · rename_i hempty
    cases h
    exact ⟨run, cuts_of_span hspan fun c' after' hspan => by
      simp only [readBased, hspan, if_neg hempty]⟩

/-- The sign of an exponent, if it has one, and what follows. -/
def readSign (c : Cursor) : List Char × Cursor :=
  match c.head? with
  | some x => if x == '+' || x == '-' then ([x], c.next) else ([], c)
  | none => ([], c)

/-- The point of a decimal with the digits behind it, if it has one, and what follows. -/
def readPart (c : Cursor) : List Char × Cursor :=
  if c.head? == some '.' then
    let (digits, after) := c.next.span Number.isDigit
    ('.' :: digits, after)
  else ([], c)

/-- The text of a decimal, and what follows. -/
def decimalText (c : Cursor) : Except SyntaxError (List Char × Cursor) := do
  let (whole, afterWhole) := c.span Number.isDigit
  let (part, afterPart) := readPart afterWhole
  let (exponent, after) ← readExponent afterPart
  .ok (whole ++ part ++ exponent, after)

/-- The digits of an exponent, behind the mark and the sign. -/
def exponentDigits (marks : List Char) (c : Cursor) : Except SyntaxError (List Char × Cursor) :=
  let (digits, after) := c.span Number.isDigit
  if digits.isEmpty then c.fail .invalidNumber else .ok (marks ++ digits, after)

theorem readExponent_eq (c : Cursor) : readExponent c =
    match c.head? with
    | some e =>
      if e == 'e' || e == 'E' then
        let (sign, afterSign) := readSign c.next
        exponentDigits (e :: sign) afterSign
      else .ok ([], c)
    | none => .ok ([], c) := by
  unfold readExponent readSign exponentDigits
  cases c.head? with
  | none => rfl
  | some e => cases e == 'e' || e == 'E' <;> rfl

/-- A decimal is what its text is converted to. -/
theorem readDecimal_eq (c : Cursor) : readDecimal c = (do
    let (text, after) ← decimalText c
    match Number.ofDecimalText? text with
    | some n => .ok (n, after)
    | none => after.fail .invalidNumber) := by
  unfold readDecimal decimalText readPart
  dsimp only
  generalize readExponent _ = r
  cases r with
  | error e => simp only [bind, Except.bind]
  | ok r =>
    show (match Number.ofDecimalText? _ with
      | some n => Except.ok (n, r.2)
      | none => r.2.fail .invalidNumber) = match Number.ofDecimalText? _ with
      | some n => Except.ok (n, r.2)
      | none => r.2.fail .invalidNumber
    rfl

theorem cuts_readSign {sign : List Char} (h : readSign c = (sign, after)) :
    Cuts (fun c => .ok (readSign c)) c sign sign after := by
  unfold readSign at h
  split at h
  · rename_i x hx
    split at h
    · rename_i hsign
      cases h
      exact .cons hx (.pure [x] _) fun c' hc' => by simp [readSign, hc', hsign]
    · rename_i hsign
      cases h
      exact .stay fun c' hc' => by rcases hc' with hc' | hc' <;> simp [readSign, hc', hx, hsign]
  · rename_i hx
    cases h
    exact .stay fun c' hc' => by rcases hc' with hc' | hc' <;> simp [readSign, hc', hx]

theorem cuts_readPart {part : List Char} (h : readPart c = (part, after)) :
    Cuts (fun c => .ok (readPart c)) c part part after := by
  unfold readPart at h
  split at h
  · rename_i hx
    rcases hspan : c.next.span Number.isDigit with ⟨digits, after'⟩
    simp only [hspan] at h
    cases h
    have hdigits := (cuts_span hspan).map ('.' :: ·)
    exact .cons (beq_iff_eq.mp hx) hdigits fun c' hc' => by
      simp [readPart, hc', bind, Except.bind]
  · rename_i hx
    cases h
    exact .stay fun c' hc' => by rcases hc' with hc' | hc' <;> simp_all [readPart]

theorem cuts_exponentDigits {marks cs : List Char} (h : exponentDigits marks c = .ok (cs, after)) :
    ∃ digits, cs = marks ++ digits ∧ Cuts (exponentDigits marks) c digits cs after := by
  unfold exponentDigits at h
  rcases hspan : c.span Number.isDigit with ⟨digits, after'⟩
  simp only [hspan] at h
  split at h
  · cases h
  · rename_i hempty
    cases h
    exact ⟨digits, rfl, cuts_of_span hspan fun c' after' hspan => by
      simp only [exponentDigits, hspan, if_neg hempty]⟩

/-- The characters of an exponent are the text it is read from. -/
theorem cuts_readExponent {cs : List Char} (h : readExponent c = .ok (cs, after)) :
    Cuts readExponent c cs cs after := by
  rw [readExponent_eq] at h
  split at h
  · rename_i e he
    split at h
    · rename_i hmark
      obtain ⟨digits, rfl, hdigits⟩ := cuts_exponentDigits h
      exact .cons he ((cuts_readSign rfl).bind (g := fun sign => exponentDigits (e :: sign)) hdigits)
        fun c' hc' => by simp [readExponent_eq, hc', hmark, bind, Except.bind]
    · rename_i hmark
      cases h
      exact .stay fun c' hc' => by
        rcases hc' with hc' | hc' <;> simp [readExponent_eq, hc', he, hmark]
  · rename_i he
    cases h
    exact .stay fun c' hc' => by rcases hc' with hc' | hc' <;> simp [readExponent_eq, hc', he]

/-- A decimal is converted from the text it is read from. -/
theorem cuts_decimalText {cs : List Char} (h : decimalText c = .ok (cs, after)) :
    Cuts decimalText c cs cs after := by
  unfold decimalText at h
  rcases hwhole : c.span Number.isDigit with ⟨whole, afterWhole⟩
  rcases hpart : readPart afterWhole with ⟨part, afterPart⟩
  simp only [hwhole, hpart] at h
  obtain ⟨⟨exponent, after'⟩, hexponent, h⟩ := bind_eq_ok h
  cases h
  have hbehindPart := (cuts_readExponent hexponent).map (whole ++ part ++ ·)
  have hbehindWhole := (cuts_readPart hpart).bind hbehindPart (g := fun part c =>
    readExponent c >>= fun r => .ok (whole ++ part ++ r.1, r.2))
  have htext := (cuts_span hwhole).bind hbehindWhole (g := fun whole c =>
    .ok (readPart c) >>= fun r => readExponent r.2 >>= fun r' => .ok (whole ++ r.1 ++ r'.1, r'.2))
  rw [← List.append_assoc] at htext
  exact htext

theorem exists_of_readDecimal {n : Number} (h : readDecimal c = .ok (n, after)) :
    ∃ s, decimalText c = .ok (s, after) ∧ Number.ofDecimalText? s = some n := by
  rw [readDecimal_eq] at h
  obtain ⟨⟨s, after'⟩, htext, h⟩ := bind_eq_ok h
  dsimp only at h
  split at h
  · rename_i hn
    cases h
    exact ⟨s, htext, hn⟩
  · cases h

theorem cuts_readDecimal {n : Number} (h : readDecimal c = .ok (n, after)) :
    ∃ s, Number.ofDecimalText? s = some n ∧ Cuts readDecimal c s n after := by
  obtain ⟨s, htext, hn⟩ := exists_of_readDecimal h
  have hcuts := cuts_decimalText htext
  refine ⟨s, hn, hcuts.reads, fun t ht c' hc' => ?_⟩
  obtain ⟨end', htext', hend'⟩ := hcuts.again t ht c' hc'
  refine ⟨end', ?_, hend'⟩
  rw [readDecimal_eq, htext']
  simp [bind, Except.bind, hn]

/-- A text without a mark of a base has none in front of the same character either. -/
theorem baseMark?_again {c' : Cursor} (hmark : baseMark? c = none) (hs : s ≠ [])
    (hc : c.rest = s ++ rest) (ht : Ahead rest t) (hc' : c'.rest = s ++ t) : baseMark? c' = none := by
  obtain ⟨x, s, rfl⟩ := List.exists_cons_of_ne_nil hs
  have hhead : c'.head? = c.head? := by
    rw [Cursor.head?, Cursor.head?, hc, hc']
    rfl
  have hsecond : c'.second? = none ∨ c'.second? = c.second? := by
    rw [Cursor.second?, Cursor.second?, hc, hc']
    exact (ht.append s).imp (congrArg List.head?) id
  rcases hsecond with hsecond | hsecond
  · simp [baseMark?, hsecond]
  · rw [baseMark?, hhead, hsecond]
    exact hmark

theorem exists_of_baseMark? {base : Nat} (h : baseMark? c = some base) :
    ∃ m rest, c.rest = '0' :: m :: rest := by
  unfold baseMark? at h
  split at h
  · rename_i m hzero hm
    obtain ⟨rest, hrest⟩ := List.head?_eq_some_iff.mp hzero
    rw [Cursor.second?, hrest] at hm
    obtain ⟨rest, rfl⟩ := List.head?_eq_some_iff.mp hm
    exact ⟨m, rest, hrest⟩
  · cases h

theorem sees_eq_false_iff : c.sees p = false ↔ Stops p c.rest := by
  rw [Cursor.sees, Cursor.head?, Stops]
  cases c.rest.head? <;> simp

/-- What a number reads before it looks at what follows. -/
def readUnchecked (c : Cursor) : Except SyntaxError (Number × Cursor) :=
  match baseMark? c with
  | some base => readBased base (c.skip 2)
  | none => readDecimal c

theorem readNumber_eq (c : Cursor) : readNumber c = (do
    let (n, after) ← readUnchecked c
    if after.sees fun ch => isIdentStart ch || Number.isDigit ch then after.fail .identAfterNumber
    else .ok (n, after)) := by
  unfold readNumber readUnchecked
  cases baseMark? c <;> rfl

theorem cuts_readUnchecked {n : Number} (h : readUnchecked c = .ok (n, after)) :
    ∃ s, s ≠ [] ∧ Cuts readUnchecked c s n after := by
  unfold readUnchecked at h
  split at h
  · rename_i base hmark
    obtain ⟨m, rest, hrest⟩ := exists_of_baseMark? hmark
    obtain ⟨s, hcuts⟩ := cuts_readBased h
    refine ⟨'0' :: m :: s, List.cons_ne_nil _ _, ?_, fun t ht c' hc' => ?_⟩
    · exact (Cursor.reads_skip (s := ['0', m]) hrest).append hcuts.reads
    · have hmark' : baseMark? c' = some base := by
        rw [← hmark, baseMark?, baseMark?, Cursor.head?, Cursor.head?, Cursor.second?,
          Cursor.second?, hc', hrest]
        rfl
      obtain ⟨after', hread, hafter⟩ := hcuts.again t ht (c'.skip 2) (rest_skip (s := ['0', m]) hc')
      exact ⟨after', by rw [readUnchecked, hmark']; exact hread, hafter⟩
  · rename_i hmark
    obtain ⟨s, hs, hcuts⟩ := cuts_readDecimal h
    have hne : s ≠ [] := by
      rintro rfl
      cases hs
    refine ⟨s, hne, hcuts.reads, fun t ht c' hc' => ?_⟩
    rw [readUnchecked, baseMark?_again hmark hne hcuts.reads.rest_eq ht hc']
    exact hcuts.again t ht c' hc'

theorem cuts_readNumber {n : Number} (h : readNumber c = .ok (n, after)) :
    ∃ s, s ≠ [] ∧ Cuts readNumber c s n after := by
  rw [readNumber_eq] at h
  obtain ⟨⟨m, after'⟩, hread, h⟩ := bind_eq_ok h
  dsimp only at h
  split at h
  · cases h
  · rename_i hsees
    cases h
    obtain ⟨s, hne, hcuts⟩ := cuts_readUnchecked hread
    refine ⟨s, hne, hcuts.reads, fun t ht c' hc' => ?_⟩
    obtain ⟨end', hread', hend'⟩ := hcuts.again t ht c' hc'
    have hsees' := (sees_eq_false_iff.mp (eq_false_of_ne_true hsees)).ahead ht
    rw [← hend', ← sees_eq_false_iff] at hsees'
    refine ⟨end', ?_, hend'⟩
    rw [readNumber_eq, hread']
    simp [bind, Except.bind, hsees']

end Lexer
end EsOptimizer
