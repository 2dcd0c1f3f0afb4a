import EsOptimizer.Proofs.Printer.Separated

/-!
# The texts of a tree stay apart

`Leads P Q ps`: behind a token with the property `P`, each text of the pieces may stand behind the one
in front of it, and the last one is a token with the property `Q`. The properties say what may come
next: anything behind a closing bracket, anything but a point behind a number, an expression behind
an operator.
-/

namespace EsOptimizer

namespace Token

/-- Anything may follow. -/
def Free (t : Token) : Prop := ∀ u, t.apart u = true

/-- Anything but a point may follow. -/
def Ends (t : Token) : Prop := ∀ u, u ≠ .punct .dot → t.apart u = true

/-- An expression may follow. -/
def Awaits (t : Token) : Prop := ∀ u, u.opensExpr = true → t.apart u = true

variable {t : Token}

theorem Free.ends (h : t.Free) : t.Ends := fun u _ => h u

theorem Ends.awaits (h : t.Ends) : t.Awaits := fun u hu => h u (ne_of_opensExpr hu rfl)

theorem Free.awaits (h : t.Free) : t.Awaits := h.ends.awaits

theorem free_word (w : Word) : Free (.word w) := fun _ => rfl

theorem free_string (s : String) : Free (.string s) := fun _ => rfl

theorem ends_number (x : Number) : Ends (.number x) := fun _ hu => bne_iff_ne.mpr hu

theorem awaits_binary (op : BinaryOp) : Awaits (.binary op) := fun _ hu => hu

theorem awaits_assign (op : AssignOp) : Awaits (.assign op) := fun _ hu => hu

theorem awaits_ofBinary (op : BinaryOp) : Awaits (ofBinary op) := by
  cases op <;> first | exact awaits_binary _ | exact (free_word _).awaits

theorem awaits_ofUnary (op : UnaryOp) : Awaits (ofUnary op) := by
  cases op <;> first | exact awaits_binary _ | exact (free_word _).awaits | exact fun _ hu => hu |
    exact fun _ _ => rfl

end Token

open Lexer (punctuation)
open Token (Free Ends Awaits ofText)

namespace Piece

/-- Behind `t`, each text is a token that may stand behind the one in front of it. -/
def Separated : Token → List Piece → Prop
  | _, [] => True
  | t, .text s :: rest => Spelled s ∧ t.apart (ofText s) = true ∧ Separated (ofText s) rest
  | t, .space :: rest | t, .gap :: rest | t, .line :: rest | t, .indent :: rest
  | t, .dedent :: rest => Separated t rest

/-- The last token of pieces behind `t`. -/
def lastToken : Token → List Piece → Token
  | t, [] => t
  | _, .text s :: rest => lastToken (ofText s) rest
  | t, .space :: rest | t, .gap :: rest | t, .line :: rest | t, .indent :: rest
  | t, .dedent :: rest => lastToken t rest

theorem separated_append (t : Token) (ps qs : List Piece) :
    Separated t (ps ++ qs) ↔ Separated t ps ∧ Separated (lastToken t ps) qs := by
  induction ps generalizing t with
  | nil => simp [Separated, lastToken]
  | cons p ps ih => cases p <;> simp [Separated, lastToken, ih, and_assoc]

theorem lastToken_append (t : Token) (ps qs : List Piece) :
    lastToken t (ps ++ qs) = lastToken (lastToken t ps) qs := by
  induction ps generalizing t with
  | nil => rfl
  | cons p ps ih => cases p <;> exact ih _

/-- What pieces make of the property of the token in front of them. -/
def Leads (P Q : Token → Prop) (ps : List Piece) : Prop :=
  ∀ t, P t → Separated t ps ∧ Q (lastToken t ps)

variable {P P' Q Q' R : Token → Prop} {ps qs : List Piece} {s : String}

@[simp] theorem leads_space : Leads P Q (.space :: ps) ↔ Leads P Q ps := Iff.rfl

@[simp] theorem leads_gap : Leads P Q (.gap :: ps) ↔ Leads P Q ps := Iff.rfl

@[simp] theorem leads_line : Leads P Q (.line :: ps) ↔ Leads P Q ps := Iff.rfl

@[simp] theorem leads_indent : Leads P Q (.indent :: ps) ↔ Leads P Q ps := Iff.rfl

@[simp] theorem leads_dedent : Leads P Q (.dedent :: ps) ↔ Leads P Q ps := Iff.rfl

namespace Leads

theorem nil (h : ∀ t, P t → Q t) : Leads P Q [] := fun t ht => ⟨trivial, h t ht⟩

theorem append (h : Leads P Q ps) (h' : Leads Q R qs) : Leads P R (ps ++ qs) := fun t ht => by
  rw [separated_append, lastToken_append]
  exact ⟨⟨(h t ht).1, (h' _ (h t ht).2).1⟩, (h' _ (h t ht).2).2⟩

theorem mono (h : Leads P Q ps) (hP : ∀ t, P' t → P t) (hQ : ∀ t, Q t → Q' t) : Leads P' Q' ps :=
  fun t ht => ⟨(h t (hP t ht)).1, hQ _ (h t (hP t ht)).2⟩

theorem text (hs : Spelled s) (hapart : ∀ t, P t → t.apart (ofText s) = true) (hQ : Q (ofText s))
    (h : Leads Q R ps) : Leads P R (.text s :: ps) := fun t ht =>
  ⟨⟨hs, hapart t ht, (h _ hQ).1⟩, (h _ hQ).2⟩

/-- What may follow a statement may follow an expression. -/
theorem ends (h : Leads P Free ps) : Leads P Ends ps := h.mono (fun _ ht => ht) fun _ ht => ht.ends

theorem ofAwaits (h : Leads Awaits Q ps) : Leads Ends Q ps :=
  h.mono (fun _ ht => ht.awaits) fun _ ht => ht

theorem ofEnds (h : Leads Ends Q ps) : Leads Free Q ps := h.mono (fun _ ht => ht.ends) fun _ ht => ht

end Leads

/-! ## Words and brackets -/

/-- The punctuation behind which anything may follow. -/
def brackets : List (String × Punct) :=
  [("(", .lparen), (")", .rparen), ("[", .lbracket), ("]", .rbracket), ("\x7b", .lbrace),
   ("\x7d", .rbrace), (",", .comma), (";", .semicolon), (":", .colon), ("?", .question),
   ("++", .plusPlus), ("--", .minusMinus)]

theorem brackets_spelled : ∀ b ∈ brackets, (b.1, .punct b.2) ∈ punctuation ∧
    (b.1 ≠ "/" ∧ b.1 ≠ "/=") ∧ b.2 ≠ .dot ∧ b.2 ≠ .bang := by
  decide

/-- Whether a text is a word, or punctuation behind which anything may follow. -/
def isPlain (s : String) : Bool := Text.isWord s || brackets.any (·.1 == s)

theorem plain_spelled (h : isPlain s = true) :
    Spelled s ∧ (ofText s).Free ∧ ofText s ≠ .punct .dot := by
  rw [isPlain, Bool.or_eq_true, List.any_eq_true] at h
  rcases h with h | ⟨⟨s', p⟩, h, heq⟩
  · exact ⟨.word h, by rw [Token.ofText_word h]; exact ⟨Token.free_word _, nofun⟩⟩
  · obtain ⟨hp, hslash, hdot, hbang⟩ := brackets_spelled _ h
    obtain rfl : s' = s := eq_of_beq heq
    refine ⟨.mark hp hslash, ?_⟩
    rw [Token.ofText_mark hp hslash]
    refine ⟨fun u => ?_, fun heq => hdot (Token.punct.inj heq)⟩
    cases p <;> first | rfl | exact absurd rfl hdot | exact absurd rfl hbang

namespace Leads

/-- A word or a bracket behind an expression. -/
theorem plain (h : isPlain s = true) (hps : Leads Free R ps) : Leads Ends R (.text s :: ps) :=
  .text (plain_spelled h).1 (fun _ ht => ht _ (plain_spelled h).2.2) (plain_spelled h).2.1 hps

/-- A word or a bracket that begins an expression. -/
theorem opening (h : isPlain s = true) (hs : (ofText s).opensExpr = true) (hps : Leads Free R ps) :
    Leads Awaits R (.text s :: ps) :=
  .text (plain_spelled h).1 (fun _ ht => ht _ hs) (plain_spelled h).2.1 hps

end Leads

open Printer

theorem Leads.last (h : isPlain s = true) : Leads Ends Free [.text s] :=
  .plain h (.nil fun _ ht => ht)

theorem leads_parens (h : Leads Free Ends ps) : Leads Awaits Free (parens ps) :=
  .opening (by decide) (by simp; rfl) (h.append (.last (by decide)))

/-- Pieces with commas between them. -/
theorem leads_commas {p : List Piece} {pss : List (List Piece)} (hp : Leads P Ends p)
    (hpss : ∀ q ∈ pss, Leads Free Ends q) : Leads P Ends (commas (p :: pss)) := by
  induction pss generalizing p P with
  | nil => exact hp
  | cons q pss ih =>
    rw [List.forall_mem_cons] at hpss
    exact hp.append (.plain (by decide) (leads_gap.mpr (ih hpss.1 hpss.2)))

theorem leads_commas_free {pss : List (List Piece)} (h : ∀ q ∈ pss, Leads Free Ends q) :
    Leads Free Ends (commas pss) := by
  cases pss with
  | nil => exact .nil fun _ ht => ht.ends
  | cons p pss =>
    rw [List.forall_mem_cons] at h
    exact leads_commas h.1 h.2

end Piece
end EsOptimizer
