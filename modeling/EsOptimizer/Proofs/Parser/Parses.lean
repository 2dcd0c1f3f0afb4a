import EsOptimizer.Parser.Grammar
import Mathlib.Data.List.Forall2

/-!
# Parsers that succeed

`Parses x ms rest P`: in front of the tokens `ms` the parser `x` returns something with the property
`P` and leaves `rest`. The tokens are given as marks, which forget where a token stands and keep only
an upper bound of where lines end: a line may end in front of a token whose mark is broken, and
none does in front of the others. There is one rule for each elementary step; a proof about a parser
goes through its steps in order.

The depth that a parser may go is a number for each token that is left and a few more, and
`ParsesWithin` says that this is enough.
-/

namespace EsOptimizer

/-- A token of a text, and whether a line may end in front of it. -/
structure Mark where
  token : Token
  broken : Bool
deriving DecidableEq, Repr

namespace Mark

/-- These are the tokens, and lines end at most where the marks allow it. -/
def Fits (ls : List Lexeme) (ms : List Mark) : Prop :=
  List.Forall₂ (fun l m => l.token = m.token ∧ (l.afterLineEnd = true → m.broken = true)) ls ms

/-- The next mark. Behind the last one the input ends. -/
def next (ms : List Mark) : Mark := ms.headD ⟨.eof, true⟩

/-- The token after the next. -/
def second (ms : List Mark) : Token := (next ms.tail).token

@[simp] theorem next_nil : next [] = ⟨.eof, true⟩ := rfl

@[simp] theorem next_cons (m : Mark) (ms : List Mark) : next (m :: ms) = m := rfl

@[simp] theorem second_cons (m : Mark) (ms : List Mark) : second (m :: ms) = (next ms).token := rfl

end Mark

/-- The tokens that are left. -/
structure ParseState.Shows (s : ParseState) (ms : List Mark) : Prop where
  pending : Mark.Fits s.pending ms
  final : s.final.token = .eof

namespace ParseState.Shows

variable {s : ParseState} {m : Mark} {ms : List Mark}

theorem token (h : s.Shows ms) : s.current.token = (Mark.next ms).token := by
  obtain ⟨ls, final, id⟩ := s
  obtain ⟨_ | ⟨hl, -⟩, hfinal⟩ := h
  · exact hfinal
  · exact hl.1

theorem afterLineEnd (h : s.Shows ms) (hended : s.current.afterLineEnd = true) :
    (Mark.next ms).broken = true := by
  obtain ⟨ls, final, id⟩ := s
  obtain ⟨_ | ⟨hl, -⟩, -⟩ := h
  · rfl
  · exact hl.2 hended

theorem second (h : s.Shows ms) : s.second = Mark.second ms := by
  obtain ⟨ls, final, id⟩ := s
  obtain ⟨_ | ⟨-, _ | ⟨hl, -⟩⟩, hfinal⟩ := h
  · exact hfinal
  · exact hfinal
  · exact hl.1

theorem advance (h : s.Shows (m :: ms)) : s.advance.Shows ms := by
  obtain ⟨ls, final, id⟩ := s
  obtain ⟨_ | ⟨-, hrest⟩, hfinal⟩ := h
  exact ⟨hrest, hfinal⟩

/-- Ids do not show. -/
theorem withId (h : s.Shows ms) (id : NodeId) : ({ s with nextId := id } : ParseState).Shows ms :=
  ⟨h.pending, h.final⟩

end ParseState.Shows

namespace Parser

variable {α β : Type} {x : Parser α} {f : α → Parser β} {m : Mark} {ms rest out : List Mark}
  {P : α → Prop} {Q : β → Prop}

/-- In front of `ms` the parser returns something that satisfies `P`, and leaves `rest`. -/
def Parses (x : Parser α) (ms rest : List Mark) (P : α → Prop) : Prop :=
  ∀ s : ParseState, s.Shows ms → ∃ a s', x s = .ok (a, s') ∧ s'.Shows rest ∧ P a

/-- The parser succeeds if it may go sixteen levels deep for every token, and `extra` levels more. -/
def ParsesWithin (extra : Nat) (x : Nat → Parser α) (ms rest : List Mark) (P : α → Prop) : Prop :=
  ∀ d, 16 * ms.length + extra ≤ d → Parses (x d) ms rest P

/-- A parser that takes one level for itself. -/
theorem ParsesWithin.step {extra : Nat} {x : Nat → Parser α}
    (h : ∀ d, 16 * ms.length + extra ≤ d → Parses (x (d + 1)) ms rest P) :
    ParsesWithin (extra + 1) x ms rest P := by
  intro d hd
  obtain ⟨d, rfl⟩ : ∃ k, d = k + 1 := ⟨d - 1, by omega⟩
  exact h d (by omega)

namespace Parses

theorem pure {a : α} (h : P a) : Parses (Pure.pure a) ms ms P :=
  fun s hs => ⟨a, s, rfl, hs, h⟩

theorem bind (hx : Parses x ms rest P) (hf : ∀ a, P a → Parses (f a) rest out Q) :
    Parses (x >>= f) ms out Q := by
  intro s hs
  obtain ⟨a, t, hx, ht, ha⟩ := hx s hs
  obtain ⟨b, u, hf, hu, hb⟩ := hf a ha t ht
  refine ⟨b, u, ?_, hu, hb⟩
  change (x s >>= fun y => f y.1 y.2) = _
  rw [hx]
  exact hf

theorem map {g : α → β} (hx : Parses x ms rest P) (h : ∀ a, P a → Q (g a)) :
    Parses (g <$> x) ms rest Q :=
  hx.bind fun a ha => pure (h a ha)

theorem mono {R : α → Prop} (hx : Parses x ms rest P) (h : ∀ a, P a → R a) :
    Parses x ms rest R := by
  intro s hs
  obtain ⟨a, t, hx, ht, ha⟩ := hx s hs
  exact ⟨a, t, hx, ht, h a ha⟩

/-! ## Elementary steps -/

theorem peek {f : Token → Parser β} (h : Parses (f (Mark.next ms).token) ms out Q) :
    Parses (peek >>= f) ms out Q := by
  intro s hs
  rw [← hs.token] at h
  exact h s hs

theorem peekSecond {f : Token → Parser β} (h : Parses (f (Mark.second ms)) ms out Q) :
    Parses (peekSecond >>= f) ms out Q := by
  intro s hs
  rw [← hs.second] at h
  exact h s hs

/-- A line ends only where it may. -/
theorem afterLineEnd {f : Bool → Parser β}
    (h : ∀ ended, (ended = true → (Mark.next ms).broken = true) → Parses (f ended) ms out Q) :
    Parses (afterLineEnd >>= f) ms out Q := fun s hs => h _ hs.afterLineEnd s hs

/-- Where no line may end. -/
theorem sameLine {f : Bool → Parser β} (hbroken : (Mark.next ms).broken = false)
    (h : Parses (f false) ms out Q) : Parses (Parser.afterLineEnd >>= f) ms out Q :=
  afterLineEnd fun ended hended => by
    cases ended with
    | false => exact h
    | true =>
      rw [hended rfl] at hbroken
      cases hbroken

theorem position {f : Position → Parser β} (h : ∀ pos, Parses (f pos) ms out Q) :
    Parses (position >>= f) ms out Q := fun s hs => h _ s hs

theorem advance {f : Unit → Parser β} (h : Parses (f ()) ms out Q) :
    Parses (advance >>= f) (m :: ms) out Q := fun _ hs => h _ hs.advance

theorem newId {f : NodeId → Parser β} (h : ∀ id, Parses (f id) ms out Q) :
    Parses (newId >>= f) ms out Q := fun s hs => h s.nextId _ (hs.withId _)

theorem sees {t : Token} {f : Bool → Parser β} (h : Parses (f ((Mark.next ms).token == t)) ms out Q) :
    Parses (sees t >>= f) ms out Q := fun s hs => by
  rw [← hs.token] at h
  exact h s hs

/-- The token is there. -/
theorem ofEat {t : Token} (ht : m.token = t) : Parses (Parser.eat t) (m :: ms) ms (· = true) := by
  refine sees ?_
  rw [if_pos (by simpa using ht)]
  exact advance (pure rfl)

theorem eat {t : Token} {f : Bool → Parser β} (ht : m.token = t) (h : Parses (f true) ms out Q) :
    Parses (eat t >>= f) (m :: ms) out Q :=
  (ofEat ht).bind fun _ hseen => hseen ▸ h

/-- Another token is there. -/
theorem leave {t : Token} {f : Bool → Parser β} (ht : (Mark.next ms).token ≠ t)
    (h : Parses (f false) ms out Q) : Parses (Parser.eat t >>= f) ms out Q := by
  have hleft : Parses (Parser.eat t) ms ms (· = false) := by
    refine sees ?_
    rw [if_neg (by simpa using ht)]
    exact pure rfl
  exact hleft.bind fun _ hseen => hseen ▸ h

theorem expect {p : Punct} {f : Unit → Parser β} (hp : m.token = .punct p)
    (h : Parses (f ()) ms out Q) : Parses (expect p >>= f) (m :: ms) out Q := by
  have heaten : Parses (Parser.expect p) (m :: ms) ms fun _ => True :=
    eat hp (by rw [if_pos rfl]; exact pure trivial)
  exact heaten.bind fun _ _ => h

theorem expectKeyword {k : Keyword} {f : Unit → Parser β} (hk : m.token = .kw k)
    (h : Parses (f ()) ms out Q) : Parses (expectKeyword k >>= f) (m :: ms) out Q := by
  have heaten : Parses (Parser.expectKeyword k) (m :: ms) ms fun _ => True :=
    eat hk (by rw [if_pos rfl]; exact pure trivial)
  exact heaten.bind fun _ _ => h

theorem semicolon {f : Unit → Parser β} (hm : m.token = .punct .semicolon)
    (h : Parses (f ()) ms out Q) : Parses (semicolon >>= f) (m :: ms) out Q := by
  have heaten : Parses Parser.semicolon (m :: ms) ms fun _ => True :=
    eat hm (by rw [if_pos rfl]; exact pure trivial)
  exact heaten.bind fun _ _ => h

/-- A name by itself. -/
theorem ofIdent {name : String} (hm : m.token = .word (.ident name)) :
    Parses Parser.ident (m :: ms) ms (·.name = name) := by
  refine peek ?_
  rw [Mark.next_cons, hm]
  exact advance (newId fun id => pure rfl)

/-- A statement ends only in front of a brace, at the end of the input and where a line may end. -/
theorem endsStatement {f : Bool → Parser β}
    (h : ∀ ends, (ends = true → (Mark.next ms).token = .punct .rbrace ∨
      (Mark.next ms).token = .eof ∨ (Mark.next ms).broken = true) → Parses (f ends) ms out Q) :
    Parses (endsStatement >>= f) ms out Q := by
  have hends : Parses Parser.endsStatement ms ms fun ends => ends = true →
      (Mark.next ms).token = .punct .rbrace ∨ (Mark.next ms).token = .eof ∨
        (Mark.next ms).broken = true := by
    refine peek (afterLineEnd fun ended hended => pure fun h => ?_)
    simp only [Bool.or_eq_true, beq_iff_eq, or_assoc] at h
    exact h.imp_right fun h => h.imp_right hended
  exact hends.bind h

theorem ident {name : String} {f : Ident → Parser β} (hm : m.token = .word (.ident name))
    (h : ∀ id, Parses (f ⟨id, name⟩) ms out Q) : Parses (ident >>= f) (m :: ms) out Q :=
  (ofIdent hm).bind fun i hi => by cases hi; exact h i.id

theorem identName {w : Word} {f : Ident → Parser β} (hm : m.token = .word w)
    (h : ∀ id, Parses (f ⟨id, w.text⟩) ms out Q) : Parses (identName >>= f) (m :: ms) out Q := by
  have hread : Parses Parser.identName (m :: ms) ms fun i => i.name = w.text := by
    refine peek ?_
    rw [Mark.next_cons, hm]
    exact advance (newId fun id => pure rfl)
  exact hread.bind fun i hi => by
    obtain ⟨id, name⟩ := i
    cases hi
    exact h id

end Parses

end Parser

end EsOptimizer
