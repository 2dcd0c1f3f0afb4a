import EsOptimizer.Parser.Grammar
import EsOptimizer.Proofs.Pass.Reuse

/-!
# What a parser builds

A parser hands out ids in ascending order and puts each of them in one place. `Builds` says so of a
parser, together with a property of whatever it returns: the tree that it returns is made of what it
was given and of ids that it handed out, each used at most once. There is one rule for each way to
put parsers together, and one lemma for each elementary step.
-/

namespace EsOptimizer

namespace Parser

variable {α β : Type}

/-- What was made between two states has the property `P` and, as measured by `m`, is made of what
is in stock and of ids that were handed out meanwhile. -/
structure Made (m : α → Tally) (P : α → Prop) (total : Tally) (s s' : ParseState) (a : α) :
    Prop where
  next : s.nextId ≤ s'.nextId
  holds : P a
  drawn : ∀ k, m a k ≤ total k + Tally.new s.nextId s'.nextId k

/-- Whatever the parser returns was made while it ran. -/
def Builds (m : α → Tally) (P : α → Prop) (x : Parser α) (total : Tally) : Prop :=
  ∀ s a s', x s = .ok (a, s') → Made m P total s s' a

/-- The same, if `t` is the next token. -/
def BuildsAt (t : Token) (m : α → Tally) (P : α → Prop) (x : Parser α) (total : Tally) : Prop :=
  ∀ s a s', s.current.token = t → x s = .ok (a, s') → Made m P total s s' a

/-- The parser never returns. -/
def Fails (x : Parser α) : Prop := ∀ s r, x s ≠ .ok r

/-- The parser hands out no ids. -/
def Quiet (x : Parser α) : Prop := ∀ s a s', x s = .ok (a, s') → s'.nextId = s.nextId

/-! ## Putting parsers together -/

theorem bind_eq_ok {x : Parser α} {f : α → Parser β} {s : ParseState} {r : β × ParseState}
    (h : (x >>= f) s = .ok r) : ∃ a t, x s = .ok (a, t) ∧ f a t = .ok r := by
  change (x s >>= fun y => f y.1 y.2) = .ok r at h
  cases hx : x s with
  | error e =>
    rw [hx] at h
    cases h
  | ok y =>
    rw [hx] at h
    exact ⟨y.1, y.2, rfl, h⟩

theorem Fails.bind {x : Parser α} (h : Fails x) (f : α → Parser β) : Fails (x >>= f) := by
  intro s r hr
  obtain ⟨a, t, hx, -⟩ := bind_eq_ok hr
  exact h s _ hx

theorem Fails.map {x : Parser α} (h : Fails x) (f : α → β) : Fails (f <$> x) := by
  intro s r hr
  obtain ⟨a, t, hx, -⟩ := bind_eq_ok (f := fun a => pure (f a)) hr
  exact h s _ hx

section

variable {m : α → Tally} {m₂ : β → Tally} {P : α → Prop} {Q : β → Prop} {total : Tally}

/-- What was made first is in stock from then on. -/
theorem Made.trans {s t u : ParseState} {a : α} {b : β} (h : Made m P (fun _ => 0) s t a)
    (h' : Made m₂ Q (fun k => m a k + total k) t u b) : Made m₂ Q total s u b := by
  refine ⟨Nat.le_trans h.next h'.next, h'.holds, fun k => ?_⟩
  have hnew := Tally.new_add_new (k := k) h.next h'.next
  have hfirst := h.drawn k
  have hsecond := h'.drawn k
  omega

/-- Only the next id of the state before counts. -/
theorem Made.of_nextId {s t s' : ParseState} {a : α} (hmade : Made m P total t s' a)
    (h : t.nextId = s.nextId) : Made m P total s s' a :=
  ⟨h ▸ hmade.next, hmade.holds, fun k => h ▸ hmade.drawn k⟩

theorem BuildsAt.bind {t : Token} {x : Parser α} {f : α → Parser β}
    (hx : BuildsAt t m P x fun _ => 0)
    (hf : ∀ a, P a → Builds m₂ Q (f a) fun k => m a k + total k) :
    BuildsAt t m₂ Q (x >>= f) total := by
  intro s b s' ht hb
  obtain ⟨a, u, ha, hb⟩ := bind_eq_ok hb
  have hmade := hx s a u ht ha
  exact hmade.trans (hf a hmade.holds u b s' hb)

namespace Builds

theorem ofFails {x : Parser α} (h : Fails x) : Builds m P x total :=
  fun s a s' hx => absurd hx (h s (a, s'))

theorem pure {a : α} (h : P a) (hle : ∀ k, m a k ≤ total k) :
    Builds m P (Pure.pure a : Parser α) total := by
  intro s b s' hb
  cases hb
  exact ⟨Nat.le_refl _, h, fun k => Nat.le_trans (hle k) (Nat.le_add_right _ _)⟩

/-- What the first parser returns is in stock from then on. -/
theorem bind {x : Parser α} {f : α → Parser β} (hx : Builds m P x fun _ => 0)
    (hf : ∀ a, P a → Builds m₂ Q (f a) fun k => m a k + total k) : Builds m₂ Q (x >>= f) total := by
  intro s b s' hb
  obtain ⟨a, t, ha, hb⟩ := bind_eq_ok hb
  have hmade := hx s a t ha
  exact hmade.trans (hf a hmade.holds t b s' hb)

/-- A parser that looks at the next token first. -/
theorem look {f : Token → Parser α} (h : ∀ t, BuildsAt t m P (f t) total) :
    Builds m P (peek >>= f) total := by
  intro s a s' ha
  obtain ⟨t, u, ht, ha⟩ := bind_eq_ok ha
  cases ht
  exact h _ s a s' rfl ha

theorem skip {x : Parser α} {f : α → Parser β} (hx : Quiet x)
    (hf : ∀ a, Builds m₂ Q (f a) total) : Builds m₂ Q (x >>= f) total := by
  intro s b s' hb
  obtain ⟨a, t, ha, hb⟩ := bind_eq_ok hb
  exact (hf a t b s' hb).of_nextId (hx s a t ha)

theorem map {x : Parser α} {f : α → β} (hx : Builds m P x fun _ => 0) (hQ : ∀ a, P a → Q (f a))
    (hle : ∀ a k, m₂ (f a) k ≤ m a k + total k) : Builds m₂ Q (f <$> x) total :=
  bind hx fun a ha => .pure (hQ a ha) (hle a)

theorem mono {R : α → Prop} {x : Parser α} (h : Builds m P x total) (hR : ∀ a, P a → R a) :
    Builds m R x total := fun s a s' ha =>
  { h s a s' ha with holds := hR a (h s a s' ha).holds }

theorem weaken {x : Parser α} {stock : Tally} (h : Builds m P x stock)
    (hle : ∀ k, stock k ≤ total k) : Builds m P x total := fun s a s' ha =>
  { h s a s' ha with
    drawn := fun k => Nat.le_trans ((h s a s' ha).drawn k) (Nat.add_le_add_right (hle k) _) }

theorem ite {c : Prop} [Decidable c] {x y : Parser α} (hx : c → Builds m P x total)
    (hy : ¬c → Builds m P y total) : Builds m P (if c then x else y) total := by
  split
  · exact hx ‹_›
  · exact hy ‹_›

/-- A condition without which parsing fails. -/
theorem guard {γ : Type} {c : Prop} [Decidable c] {x : Parser α} {y : Parser γ} {f : γ → Parser α}
    (hy : Fails y) (hx : c → Builds m P x total) :
    Builds m P (if c then x else y >>= f) total :=
  ite hx fun _ => ofFails (hy.bind f)

/-- A condition with which parsing fails. -/
theorem reject {γ : Type} {c : Prop} [Decidable c] {x : Parser α} {y : Parser γ} {f : γ → Parser α}
    (hy : Fails y) (hx : ¬c → Builds m P x total) :
    Builds m P (if c then y >>= f else x) total :=
  ite (fun _ => ofFails (hy.bind f)) hx

/-- A part that may be missing. -/
theorem optional {γ : Type} {n : Option γ → Tally} {R : Option γ → Prop} {c : Prop} [Decidable c]
    {x : Parser (Option γ)} {f : Option γ → Parser α} (hx : Builds n R x fun _ => 0) (hR : R none)
    (hnone : ∀ k, n none k = 0) (hf : ∀ o, R o → Builds m P (f o) fun k => n o k + total k) :
    Builds m P (if c then x >>= f else (Pure.pure none : Parser (Option γ)) >>= f) total :=
  ite (fun _ => bind hx hf) fun _ => bind (.pure hR fun k => Nat.le_of_eq (hnone k)) hf

end Builds

end

/-! ## Elementary steps -/

theorem quiet_pure (a : α) : Quiet (pure a : Parser α) := fun _ _ _ h => by cases h; rfl

namespace Quiet

theorem ofFails {x : Parser α} (h : Fails x) : Quiet x := fun s a s' hx => absurd hx (h s (a, s'))

theorem skip {x : Parser α} {f : α → Parser β} (hx : Quiet x) (hf : ∀ a, Quiet (f a)) :
    Quiet (x >>= f) := by
  intro s b s' hb
  obtain ⟨a, t, ha, hb⟩ := bind_eq_ok hb
  exact (hf a t b s' hb).trans (hx s a t ha)

theorem map {x : Parser α} (hx : Quiet x) (f : α → β) : Quiet (f <$> x) :=
  hx.skip fun a => quiet_pure (f a)

theorem ite {c : Prop} [Decidable c] {x y : Parser α} (hx : c → Quiet x) (hy : ¬c → Quiet y) :
    Quiet (if c then x else y) := by
  split
  · exact hx ‹_›
  · exact hy ‹_›

end Quiet

theorem quiet_peek : Quiet peek := fun _ _ _ h => by cases h; rfl

theorem quiet_peekSecond : Quiet peekSecond := fun _ _ _ h => by cases h; rfl

theorem quiet_afterLineEnd : Quiet afterLineEnd := fun _ _ _ h => by cases h; rfl

theorem quiet_position : Quiet position := fun _ _ _ h => by cases h; rfl

theorem quiet_advance : Quiet advance := fun _ _ _ h => by cases h; rfl

theorem quiet_sees (t : Token) : Quiet (sees t) := .skip quiet_peek fun _ => quiet_pure _

theorem quiet_eat (t : Token) : Quiet (eat t) :=
  .skip (quiet_sees t) fun _ => .ite (fun _ => .skip quiet_advance fun _ => quiet_pure _)
    fun _ => quiet_pure _

theorem fails_fail (cause : SyntaxCause) : Fails (fail cause : Parser α) := fun _ _ h => by cases h

theorem fails_failAt (pos : Position) (cause : SyntaxCause) : Fails (failAt pos cause : Parser α) :=
  fun _ _ h => by cases h

theorem fails_unexpected (expected : Expected) : Fails (unexpected expected : Parser α) := by
  intro s r h
  obtain ⟨t, s', -, h⟩ := bind_eq_ok h
  split at h <;> cases h

theorem fails_tooDeep : Fails (tooDeep : Parser α) := fails_fail _

theorem quiet_expect (p : Punct) : Quiet (expect p) :=
  .skip (quiet_eat _) fun _ => .ite (fun _ => quiet_pure _)
    fun _ => .ofFails (fails_unexpected _)

theorem quiet_expectKeyword (k : Keyword) : Quiet (expectKeyword k) :=
  .skip (quiet_eat _) fun _ => .ite (fun _ => quiet_pure _)
    fun _ => .ofFails (fails_unexpected _)

theorem quiet_endsStatement : Quiet endsStatement :=
  .skip quiet_peek fun _ => .skip quiet_afterLineEnd fun _ => quiet_pure _

theorem quiet_semicolon : Quiet semicolon :=
  .skip (quiet_eat _) fun _ => .ite (fun _ => quiet_pure _) fun _ =>
    .skip quiet_endsStatement fun _ => .ite (fun _ => quiet_pure _)
      fun _ => .ofFails (fails_unexpected _)

theorem quiet_binaryOp? (ctx : ParseContext) : Quiet (binaryOp? ctx) :=
  .skip quiet_peek fun _ => by split <;> exact quiet_pure _

theorem builds_newId : Builds Tally.id (fun _ => True) newId fun _ => 0 := by
  intro s id s' h
  cases h
  refine ⟨Nat.le_succ _, trivial, fun k => ?_⟩
  rw [Nat.zero_add]
  exact Tally.id_le_new

/-- A node is built last: it takes a new id and all that is in stock. -/
theorem Builds.node {m : α → Tally} {P : α → Prop} {total : Tally} {f : NodeId → α}
    (h : ∀ id, P (f id)) (hle : ∀ id k, m (f id) k ≤ Tally.id id k + total k) :
    Builds m P (newId >>= fun id => Pure.pure (f id)) total :=
  .bind builds_newId fun id _ => .pure (h id) (hle id)

theorem builds_ident : Builds (fun i : Ident => Tally.id i.id) (fun _ => True) ident fun _ => 0 := by
  refine .skip quiet_peek fun t => ?_
  split
  · exact .skip quiet_advance fun _ => .node (fun _ => trivial) fun id k => Nat.le_refl _
  · exact .ofFails (fails_unexpected _)

theorem builds_identName :
    Builds (fun i : Ident => Tally.id i.id) (fun _ => True) identName fun _ => 0 := by
  refine .skip quiet_peek fun t => ?_
  split
  · exact .skip quiet_advance fun _ => .node (fun _ => trivial) fun id k => Nat.le_refl _
  · exact .ofFails (fails_unexpected _)

end Parser

/-- What is parsed comes from a run over the tokens of the text. -/
theorem exists_run_of_tokens {text : String} {src : Source} (h : parse text = .ok src) :
    ∃ lexemes s', tokenize text = .ok lexemes ∧
      Parser.program (16 * (lexemes.length + 1)) (.ofLexemes lexemes) = .ok (src.program, s') ∧
      s'.nextId = src.nextId := by
  unfold parse at h
  cases htokens : tokenize text with
  | error e =>
    rw [htokens] at h
    cases h
  | ok lexemes =>
    rw [htokens] at h
    change (Parser.program (16 * (lexemes.length + 1)) (.ofLexemes lexemes) >>= fun r =>
      pure ⟨r.1, r.2.nextId⟩) = Except.ok src at h
    cases hrun : Parser.program (16 * (lexemes.length + 1)) (.ofLexemes lexemes) with
    | error e =>
      rw [hrun] at h
      cases h
    | ok r =>
      rw [hrun] at h
      cases h
      exact ⟨lexemes, r.2, rfl, hrun, rfl⟩

/-- What is parsed comes from a run that begins with the id zero. -/
theorem exists_run_of_parse {text : String} {src : Source} (h : parse text = .ok src) :
    ∃ depth s s', Parser.program depth s = .ok (src.program, s') ∧ s.nextId = 0 ∧
      s'.nextId = src.nextId := by
  obtain ⟨_, s', -, hrun, hnext⟩ := exists_run_of_tokens h
  exact ⟨_, _, s', hrun, rfl, hnext⟩

end EsOptimizer
