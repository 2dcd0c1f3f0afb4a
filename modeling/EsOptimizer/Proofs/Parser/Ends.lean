import EsOptimizer.Proofs.Parser.Builds
import EsOptimizer.Proofs.Token.Rounds

/-!
# Parsing ends

A parser moves over tokens and never back, and it never moves over the end of the input. `Ends` says
so of one parser, together with how many tokens it moves over at least, and with how deep it goes.
Where the depth runs out there is an error of its own, which nothing catches and which has no other
cause: as long as it does not come up, the parser has ended by itself.

Between two tokens a parse passes through a chain of functions, each of which has another one begin
where it begins itself: a statement begins with an expression, that with an assignment, and so on
down to a primary expression. Each function has a rank, which is the length of the longest chain
that it starts. All ranks are below sixteen. So if there are sixteen levels for every token, and
behind at least one token as many again, the depth does not run out.
-/

namespace EsOptimizer

/-- The error is not that the depth ran out. -/
def SyntaxError.IsGenuine (e : SyntaxError) : Prop := e.cause ≠ .unexpected .eof .expression

/-- From one state to the other, the parser moves over at least `least` tokens, none of which is the
end of the input. -/
structure ParseState.MovesTo (least : Nat) (s s' : ParseState) : Prop where
  final : s'.final = s.final
  used : ∃ used, s.pending = used ++ s'.pending ∧ least ≤ used.length ∧ ∀ l ∈ used, l.token ≠ .eof

namespace ParseState.MovesTo

variable {m n : Nat} {s t u : ParseState}

theorem refl (s : ParseState) : MovesTo 0 s s := ⟨rfl, [], rfl, Nat.le_refl _, nofun⟩

theorem mono (h : MovesTo n s t) (hmn : m ≤ n) : MovesTo m s t := by
  obtain ⟨hfinal, used, hpending, hlength, hused⟩ := h
  exact ⟨hfinal, used, hpending, Nat.le_trans hmn hlength, hused⟩

theorem trans (h : MovesTo m s t) (h' : MovesTo n t u) : MovesTo (m + n) s u := by
  obtain ⟨hfinal, used, hpending, hlength, hused⟩ := h
  obtain ⟨hfinal', used', hpending', hlength', hused'⟩ := h'
  refine ⟨hfinal'.trans hfinal, used ++ used', ?_, ?_, List.forall_mem_append.mpr ⟨hused, hused'⟩⟩
  · rw [hpending, hpending', List.append_assoc]
  · rw [List.length_append]
    exact Nat.add_le_add hlength hlength'

theorem length_le (h : MovesTo n s t) : t.pending.length + n ≤ s.pending.length := by
  obtain ⟨-, used, hpending, hlength, -⟩ := h
  rw [hpending, List.length_append, Nat.add_comm]
  exact Nat.add_le_add_right hlength _

end ParseState.MovesTo

/-- What is not the end of the input can be moved over. -/
theorem ParseState.movesTo_advance {s : ParseState} (hs : s.final.token = .eof)
    (hnext : s.current.token ≠ .eof) : s.MovesTo 1 s.advance := by
  obtain ⟨pending, final, nextId⟩ := s
  cases pending with
  | nil => exact absurd hs hnext
  | cons l rest => exact ⟨rfl, [l], rfl, Nat.le_refl _, List.forall_mem_singleton.mpr hnext⟩

/-- At the last token the parser stays. -/
theorem ParseState.advance_of_pending_nil {s : ParseState} (h : s.pending = []) :
    s.advance = s := by
  obtain ⟨pending, final, nextId⟩ := s
  cases h
  rfl

namespace Parser

variable {α β γ : Type} {d r r' least least' : Nat} {pre : Token → Prop} {c : Token}

/-- Where the input ends and the next token is one of `pre`, the parser moves over at least `least`
tokens, and it needs no more than sixteen levels for each token that is left, and `r`. -/
def Ends (d r : Nat) (pre : Token → Prop) (least : Nat) (x : Parser α) : Prop :=
  ∀ s, s.final.token = .eof → pre s.current.token →
    (∀ a s', x s = .ok (a, s') → s.MovesTo least s') ∧
    (16 * s.pending.length + r ≤ d → ∀ e, x s = .error e → e.IsGenuine)

/-- Any token may come next. -/
abbrev anyToken : Token → Prop := fun _ => True

/-- The parser refuses what comes next, whatever it is. -/
def Refuses (x : Parser α) : Prop := ∀ s, ∃ e, x s = .error e ∧ e.IsGenuine

/-- The parser stays where it is. -/
def Still (x : Parser α) : Prop :=
  ∀ s, ∃ a s', x s = .ok (a, s') ∧ s'.pending = s.pending ∧ s'.final = s.final

/-! ## Parsers that refuse, and parsers that stay -/

theorem bind_of_ok {x : Parser α} {s t : ParseState} {a : α} (h : x s = .ok (a, t))
    (f : α → Parser β) : (x >>= f) s = f a t := by
  change (x s >>= fun y => f y.1 y.2) = _
  rw [h]
  rfl

theorem bind_of_error {x : Parser α} {s : ParseState} {e : SyntaxError} (h : x s = .error e)
    (f : α → Parser β) : (x >>= f) s = .error e := by
  change (x s >>= fun y => f y.1 y.2) = _
  rw [h]
  rfl

theorem Refuses.bind {x : Parser α} (h : Refuses x) (f : α → Parser β) : Refuses (x >>= f) := by
  intro s
  obtain ⟨e, he, hgenuine⟩ := h s
  exact ⟨e, bind_of_error he f, hgenuine⟩

theorem refuses_fail {cause : SyntaxCause} (h : cause ≠ .unexpected .eof .expression) :
    Refuses (fail cause : Parser α) :=
  fun _ => ⟨_, rfl, h⟩

theorem refuses_failAt (pos : Position) {cause : SyntaxCause}
    (h : cause ≠ .unexpected .eof .expression) : Refuses (failAt pos cause : Parser α) :=
  fun _ => ⟨_, rfl, h⟩

theorem refuses_token (expected : Expected) (t : Token) : Refuses (match t with
    | .eof => fail .endOfInput
    | got => fail (.unexpected got expected) : Parser α) := by
  split
  · exact refuses_fail nofun
  · rename_i hne
    exact refuses_fail fun h => hne (SyntaxCause.unexpected.inj h).1

theorem refuses_unexpected (expected : Expected) : Refuses (unexpected expected : Parser α) :=
  fun s => refuses_token expected s.current.token s

theorem Still.bind {x : Parser α} {f : α → Parser β} (hx : Still x) (hf : ∀ a, Still (f a)) :
    Still (x >>= f) := by
  intro s
  obtain ⟨a, t, ha, hpending, hfinal⟩ := hx s
  obtain ⟨b, u, hb, hpending', hfinal'⟩ := hf a t
  exact ⟨b, u, (bind_of_ok ha f).trans hb, hpending'.trans hpending, hfinal'.trans hfinal⟩

theorem still_pure (a : α) : Still (pure a : Parser α) := fun _ => ⟨_, _, rfl, rfl, rfl⟩

theorem still_peek : Still peek := fun _ => ⟨_, _, rfl, rfl, rfl⟩

theorem still_peekSecond : Still peekSecond := fun _ => ⟨_, _, rfl, rfl, rfl⟩

theorem still_afterLineEnd : Still afterLineEnd := fun _ => ⟨_, _, rfl, rfl, rfl⟩

theorem still_position : Still position := fun _ => ⟨_, _, rfl, rfl, rfl⟩

theorem still_sees (t : Token) : Still (sees t) := fun _ => ⟨_, _, rfl, rfl, rfl⟩

theorem still_endsStatement : Still endsStatement := fun _ => ⟨_, _, rfl, rfl, rfl⟩

theorem still_newId : Still newId := fun _ => ⟨_, _, rfl, rfl, rfl⟩

/-! ## Putting parsers together -/

namespace Ends

variable {x : Parser α} {f : α → Parser β}

/-- Other bounds that say no more. -/
theorem lift (h : Ends d r' anyToken least' x) (hr : r' ≤ r := by decide)
    (hl : least ≤ least' := by decide) : Ends d r pre least x := by
  intro s hs _
  obtain ⟨hok, herror⟩ := h s hs trivial
  refine ⟨fun a s' ha => (hok a s' ha).mono hl, fun hd => herror ?_⟩
  exact Nat.le_trans (Nat.add_le_add_left hr _) hd

/-- The same where the next token is known. -/
theorem known (h : Ends d r' (· ≠ .eof) least' x) (hc : c ≠ .eof) (hr : r' ≤ r := by decide)
    (hl : least ≤ least' := by decide) : Ends d r (· = c) least x := by
  intro s hs hnext
  obtain ⟨hok, herror⟩ := h s hs (hnext ▸ hc)
  refine ⟨fun a s' ha => (hok a s' ha).mono hl, fun hd => herror ?_⟩
  exact Nat.le_trans (Nat.add_le_add_left hr _) hd

theorem deeper (h : Ends d r pre least x) : Ends (d + 1) (r + 1) pre least x := by
  intro s hs hnext
  obtain ⟨hok, herror⟩ := h s hs hnext
  exact ⟨hok, fun hd => herror (Nat.le_of_succ_le_succ hd)⟩

/-- Where there is a token left, there is some depth left. -/
theorem tooDeep : Ends 0 (r + 1) pre least (Parser.tooDeep : Parser α) :=
  fun _ _ _ => ⟨fun _ _ h => (by cases h), fun hd => (by cases hd)⟩

theorem ofRefuses (h : Refuses x) : Ends d r pre least x := by
  intro s _ _
  obtain ⟨e, he, hgenuine⟩ := h s
  refine ⟨fun a s' ha => ?_, fun _ e' he' => ?_⟩
  · rw [he] at ha
    cases ha
  · rw [he] at he'
    cases he'
    exact hgenuine

theorem pure (a : α) : Ends d r pre 0 (Pure.pure a : Parser α) := by
  refine fun s _ _ => ⟨fun b s' hb => ?_, fun _ e he => ?_⟩
  · cases hb
    exact .refl s
  · cases he

/-- Behind a parser that stays, all is as before. -/
theorem look (hx : Still x) (hf : ∀ a, Ends d r pre least (f a)) :
    Ends d r pre least (x >>= f) := by
  intro s hs hnext
  obtain ⟨a, t, ha, hpending, hfinal⟩ := hx s
  have hcurrent : t.current = s.current := by rw [ParseState.current, hpending, hfinal]; rfl
  obtain ⟨hok, herror⟩ := hf a t (hfinal ▸ hs) (hcurrent ▸ hnext)
  rw [bind_of_ok ha f]
  rw [hpending] at herror
  refine ⟨fun b s' hb => ?_, herror⟩
  obtain ⟨hfinal', hused⟩ := hok b s' hb
  exact ⟨hfinal'.trans hfinal, hpending ▸ hused⟩

/-- A look at the next token. -/
theorem peek {f : Token → Parser β} (hf : ∀ t, Ends d r (· = t) least (f t)) :
    Ends d r pre least (Parser.peek >>= f) :=
  fun s hs _ => hf s.current.token s hs rfl

theorem node {f : NodeId → α} : Ends d r pre 0 (newId >>= fun id => Pure.pure (f id)) :=
  look still_newId fun _ => pure _

theorem ite {p : Prop} [Decidable p] {x y : Parser α} (hx : Ends d r pre least x)
    (hy : Ends d r pre least y) : Ends d r pre least (if p then x else y) := by
  split
  · exact hx
  · exact hy

/-- A condition without which what comes next is refused. -/
theorem guard {p : Prop} [Decidable p] {y : Parser γ} {f : γ → Parser α} (hy : Refuses y)
    (hx : Ends d r pre least x) : Ends d r pre least (if p then x else y >>= f) :=
  ite hx (ofRefuses (hy.bind f))

/-- A condition with which it is refused. -/
theorem reject {p : Prop} [Decidable p] {y : Parser γ} {f : γ → Parser α} (hy : Refuses y)
    (hx : Ends d r pre least x) : Ends d r pre least (if p then y >>= f else x) :=
  ite (ofRefuses (hy.bind f)) hx

/-- Behind a token that is moved over there are sixteen levels more. -/
theorem bind {k : Nat} (hx : Ends d r pre k x) (hf : ∀ a, Ends d r' anyToken least' (f a))
    (hr : r' ≤ r + 16 * k) (hl : least ≤ k + least') : Ends d r pre least (x >>= f) := by
  intro s hs hnext
  obtain ⟨hok, herror⟩ := hx s hs hnext
  cases ha : x s with
  | error e =>
    rw [bind_of_error ha f]
    refine ⟨fun _ _ h => (by cases h), fun hd e' he => ?_⟩
    cases he
    exact herror hd e ha
  | ok y =>
    obtain ⟨a, t⟩ := y
    have hmoves := hok a t ha
    obtain ⟨hok', herror'⟩ := hf a t (hmoves.final ▸ hs) trivial
    rw [bind_of_ok ha f]
    refine ⟨fun b s' hb => (hmoves.trans (hok' b s' hb)).mono hl, fun hd => herror' ?_⟩
    have hlength := hmoves.length_le
    omega

/-- Whether or not the first parser moves, the second one needs as much depth as if it did not. -/
theorem andThen (hx : Ends d r pre 0 x) (hf : ∀ a, Ends d r anyToken least (f a)) :
    Ends d r pre least (x >>= f) :=
  hx.bind hf (Nat.le_refl r) (Nat.le_of_eq (Nat.zero_add least).symm)

theorem step (hx : Ends d r pre 1 x) (hf : ∀ a, Ends d 16 anyToken 0 (f a))
    (hl : least ≤ 1 := by decide) : Ends d r pre least (x >>= f) :=
  hx.bind hf (Nat.le_add_left 16 r) hl

theorem map (hx : Ends d r pre least x) (g : α → β) : Ends d r pre least (g <$> x) :=
  hx.bind (fun a => pure (d := d) (r := r) (g a)) (Nat.le_add_right r _) (Nat.le_refl least)

section

variable {p : Prop} [Decidable p] {y : Parser γ} {g : Option γ → Parser β}

/-- A part that is there if `p` holds. -/
theorem optional (hy : Ends d r anyToken 0 y) (hg : ∀ o, Ends d r anyToken least (g o)) :
    Ends d r anyToken least (if p then (some <$> y) >>= g else Pure.pure none >>= g) :=
  ite (andThen (hy.map some) hg) (look (still_pure none) hg)

/-- A part that is missing if `p` holds. -/
theorem missing (hy : Ends d r anyToken 0 y) (hg : ∀ o, Ends d r anyToken least (g o)) :
    Ends d r anyToken least (if p then Pure.pure none >>= g else (some <$> y) >>= g) :=
  ite (look (still_pure none) hg) (andThen (hy.map some) hg)

end

end Ends

/-! ## Elementary steps -/

theorem ends_advance : Ends d r (· ≠ .eof) 1 advance := by
  refine fun s hs hnext => ⟨fun a s' ha => ?_, fun _ e he => ?_⟩
  · cases ha
    exact ParseState.movesTo_advance hs hnext
  · cases he

theorem ends_advance_of_ne (hc : c ≠ .eof) : Ends d r (· = c) 1 advance :=
  fun s hs hnext => ends_advance s hs (hnext ▸ hc)

theorem eat_of_eq {s : ParseState} {t : Token} (h : s.current.token = t) :
    eat t s = .ok (true, s.advance) := by
  change (if (s.current.token == t) = true then _ else _ : Parser Bool) s = _
  rw [beq_iff_eq.mpr h]
  rfl

theorem eat_of_ne {s : ParseState} {t : Token} (h : s.current.token ≠ t) :
    eat t s = .ok (false, s) := by
  change (if (s.current.token == t) = true then _ else _ : Parser Bool) s = _
  rw [beq_eq_false_iff_ne.mpr h]
  rfl

theorem ends_eat {t : Token} (ht : t ≠ .eof) : Ends d r pre 0 (eat t) := by
  intro s hs _
  by_cases hnext : s.current.token = t
  · rw [eat_of_eq hnext]
    refine ⟨fun a s' ha => ?_, fun _ e he => (by cases he)⟩
    cases ha
    exact (ParseState.movesTo_advance hs (hnext ▸ ht)).mono (Nat.zero_le 1)
  · rw [eat_of_ne hnext]
    refine ⟨fun a s' ha => ?_, fun _ e he => (by cases he)⟩
    cases ha
    exact .refl s

/-- If there is a certain token, it is moved over, and what comes behind it need not begin here. -/
theorem Ends.eat {t : Token} (ht : t ≠ .eof) {x y : Parser α} (hx : Ends d 16 anyToken 0 x)
    (hy : Ends d r pre least y) (hl : least ≤ 1 := by decide) :
    Ends d r pre least (Parser.eat t >>= fun b => if b = true then x else y) := by
  intro s hs hnext
  by_cases hcurrent : s.current.token = t
  · rw [bind_of_ok (eat_of_eq hcurrent)]
    have hstep : Ends d r (· ≠ .eof) least (advance >>= fun _ => x) :=
      .step ends_advance (fun _ => hx) hl
    exact hstep s hs (hcurrent ▸ ht)
  · rw [bind_of_ok (eat_of_ne hcurrent)]
    exact hy s hs hnext

theorem ends_expect (p : Punct) : Ends d r pre 1 (expect p) :=
  .eat (by nofun) (.pure _) (.ofRefuses (refuses_unexpected _))

theorem ends_expectKeyword (k : Keyword) : Ends d r pre 1 (expectKeyword k) :=
  .eat (by nofun) (.pure _) (.ofRefuses (refuses_unexpected _))

theorem ends_semicolon : Ends d r pre 0 semicolon :=
  .eat (by nofun) (.pure _) (.look still_endsStatement fun _ =>
    .ite (.pure _) (.ofRefuses (refuses_unexpected _)))

theorem ends_ident : Ends d r pre 1 ident := by
  refine .peek fun t => ?_
  split
  · exact .step (ends_advance_of_ne (by simp)) fun _ => .node
  · exact .ofRefuses (refuses_unexpected _)

theorem ends_identName : Ends d r pre 1 identName := by
  refine .peek fun t => ?_
  split
  · exact .step (ends_advance_of_ne nofun) fun _ => .node
  · exact .ofRefuses (refuses_unexpected _)

theorem still_binaryOp? (ctx : ParseContext) : Still (binaryOp? ctx) :=
  .bind still_peek fun _ => by split <;> exact still_pure _

/-- A binary operator is not the end of the input. -/
theorem Ends.operator {ctx : ParseContext} {f : Option BinaryOp → Parser α}
    (hsome : ∀ op, Ends d r (· ≠ .eof) least (f (some op))) (hnone : Ends d r pre least (f none)) :
    Ends d r pre least (binaryOp? ctx >>= f) := by
  have hlook : Ends d r (fun t => t ≠ .eof ∧ pre t) least (binaryOp? ctx >>= f) := by
    refine .look (still_binaryOp? ctx) fun o => ?_
    cases o with
    | none => exact fun s hs hnext => hnone s hs hnext.2
    | some op => exact fun s hs hnext => hsome op s hs hnext.1
  intro s hs hnext
  by_cases heof : s.current.token = .eof
  · have hop : binaryOp? ctx s = .ok (none, s) := by
      rw [binaryOp?, bind_of_ok (show Parser.peek s = .ok (s.current.token, s) from rfl), heof]
      rfl
    rw [bind_of_ok hop]
    exact hnone s hs hnext
  · exact hlook s hs ⟨heof, hnext⟩

/-! ## The parsers -/

theorem ends_jumpStmt (isBreak : Bool) (ctx : ParseContext) :
    Ends d r (· ≠ .eof) 1 (jumpStmt isBreak ctx) := by
  rw [jumpStmt]
  refine .step ends_advance fun _ => .look still_peek fun t => .look still_afterLineEnd fun _ => ?_
  extract_lets rest
  have hrest (label : Option Ident) : Ends d 16 anyToken 0 (rest label) :=
    .andThen ends_semicolon fun _ => .node
  split
  · refine .step ends_ident fun label => ?_
    split
    · exact .guard (refuses_fail nofun) (hrest (some label))
    · exact .ofRefuses ((refuses_fail (by nofun)).bind _)
  · refine .guard (refuses_fail ?_) (hrest none)
    cases isBreak <;> exact nofun

mutual

theorem ends_stmt : (d : Nat) → (ctx : ParseContext) → Ends d 11 anyToken 1 (stmt d ctx)
  | 0, _ => .tooDeep
  | d + 1, ctx => .deeper (by
    refine .peek fun t => ?_
    split
    · exact .step (ends_block d ctx).lift fun _ => .pure _
    · exact .step (ends_advance_of_ne nofun) fun _ => .node
    · refine .look still_peekSecond fun _ => ?_
      exact .ite (ends_labeledStmt d ctx).lift (ends_exprStmt d ctx).lift
    · split
      iterate 3
        exact .step ((ends_varDecl d ctx).known nofun) fun _ => .andThen ends_semicolon fun _ =>
          .pure _
      · exact (ends_functionDecl d ctx).lift
      · exact (ends_ifStmt d ctx).known nofun
      · exact (ends_forStmt d ctx).known nofun
      · exact (ends_whileStmt d ctx).known nofun
      · exact (ends_doWhileStmt d ctx).known nofun
      · exact (ends_returnStmt d ctx).known nofun
      · exact (ends_jumpStmt (r := 0) true ctx).known nofun
      · exact (ends_jumpStmt (r := 0) false ctx).known nofun
      · exact (ends_throwStmt d ctx).known nofun
      · exact (ends_tryStmt d ctx).known nofun
      · exact (ends_withStmt d ctx).known nofun
      iterate 5 exact .ofRefuses (refuses_fail nofun)
      · exact (ends_exprStmt d ctx).lift
    · exact (ends_exprStmt d ctx).lift)

theorem ends_block : (d : Nat) → (ctx : ParseContext) → Ends d 1 anyToken 1 (block d ctx)
  | 0, _ => .tooDeep
  | d + 1, ctx => .deeper <|
    .step (ends_expect _) fun _ => .andThen (ends_stmtsToBrace d ctx).lift fun _ => .node

theorem ends_stmtsToBrace : (d : Nat) → (ctx : ParseContext) →
    Ends d 12 anyToken 1 (stmtsToBrace d ctx)
  | 0, _ => .tooDeep
  | d + 1, ctx => .deeper <|
    .eat (by nofun) (.pure _) <| .look (still_sees _) fun _ => .reject (refuses_unexpected _) <|
      .step (ends_stmt d ctx).lift fun _ => .andThen (ends_stmtsToBrace d ctx).lift fun _ => .pure _

theorem ends_exprStmt : (d : Nat) → (ctx : ParseContext) → Ends d 10 anyToken 1 (exprStmt d ctx)
  | 0, _ => .tooDeep
  | d + 1, ctx => .deeper <|
    .step (ends_expr d _).lift fun _ => .andThen ends_semicolon fun _ => .node

theorem ends_varDecl : (d : Nat) → (ctx : ParseContext) → Ends d 1 (· ≠ .eof) 1 (varDecl d ctx)
  | 0, _ => .tooDeep
  | d + 1, ctx => .deeper (by
    refine .look still_peek fun t => ?_
    extract_lets rest
    have hrest (kind : DeclKind) : Ends d 0 (· ≠ .eof) 1 (rest kind) :=
      .step ends_advance fun _ => .andThen (ends_declarators d ctx).lift fun _ => .node
    split <;> exact .look (still_pure _) hrest)

theorem ends_declarators : (d : Nat) → (ctx : ParseContext) →
    Ends d 1 anyToken 1 (declarators d ctx)
  | 0, _ => .tooDeep
  | d + 1, ctx => .deeper (by
    refine .step ends_ident fun name => .andThen (ends_eat nofun) fun _ => ?_
    extract_lets rest
    have hrest (init : Option Expr) : Ends d 16 anyToken 0 (rest init) := by
      refine .look still_newId fun _ => .andThen (ends_eat nofun) fun _ => .ite ?_ (.pure _)
      exact .andThen (ends_declarators d ctx).lift fun _ => .pure _
    exact .optional (ends_assignExpr d ctx).lift hrest)

theorem ends_functionDecl : (d : Nat) → (ctx : ParseContext) →
    Ends d 1 anyToken 1 (functionDecl d ctx)
  | 0, _ => .tooDeep
  | d + 1, _ => .deeper <|
    .step (ends_expectKeyword _) fun _ => .step ends_ident fun _ =>
      .andThen (ends_functionRest d).lift fun _ => .node

theorem ends_functionRest : (d : Nat) → Ends d 1 anyToken 1 (functionRest d)
  | 0 => .tooDeep
  | d + 1 => .deeper <|
    .step (ends_expect _) fun _ => .andThen (ends_paramsToParen d).lift fun _ =>
      .andThen (ends_block d .function).lift fun _ => .node

theorem ends_paramsToParen : (d : Nat) → Ends d 1 anyToken 1 (paramsToParen d)
  | 0 => .tooDeep
  | d + 1 => .deeper <|
    .eat (by nofun) (.pure _) <| .step ends_ident fun _ =>
      .eat (by nofun) (.andThen (ends_paramsToParen d).lift fun _ => .pure _) <|
        .step (ends_expect _) fun _ => .pure _

theorem ends_ifStmt : (d : Nat) → (ctx : ParseContext) → Ends d 1 (· ≠ .eof) 1 (ifStmt d ctx)
  | 0, _ => .tooDeep
  | d + 1, ctx => .deeper (by
    refine .step ends_advance fun _ => .andThen (ends_parenExpr d ctx).lift fun _ => ?_
    refine .andThen (ends_stmt d ctx).lift fun _ => .andThen (ends_eat nofun) fun _ => ?_
    extract_lets rest
    have hrest (no : Option Stmt) : Ends d 16 anyToken 0 (rest no) := .node
    exact .optional (ends_stmt d ctx).lift hrest)

theorem ends_parenExpr : (d : Nat) → (ctx : ParseContext) → Ends d 1 anyToken 1 (parenExpr d ctx)
  | 0, _ => .tooDeep
  | d + 1, ctx => .deeper <|
    .step (ends_expect _) fun _ => .andThen (ends_expr d _).lift fun _ =>
      .step (ends_expect _) fun _ => .pure _

theorem ends_loopBody : (d : Nat) → (ctx : ParseContext) → Ends d 12 anyToken 1 (loopBody d ctx)
  | 0, _ => .tooDeep
  | d + 1, _ => .deeper (ends_stmt d _)

theorem ends_forStmt : (d : Nat) → (ctx : ParseContext) → Ends d 1 (· ≠ .eof) 1 (forStmt d ctx)
  | 0, _ => .tooDeep
  | d + 1, ctx => .deeper (by
    refine .step ends_advance fun _ => .step (ends_expect _) fun _ => .peek fun t => ?_
    split
    · exact (ends_forRest d ctx none).lift
    iterate 3
      refine .step ((ends_varDecl d _).known nofun) fun decl => .look (still_sees _) fun _ => ?_
      refine .ite ?_ ?_
      · split
        · exact (ends_forInRest d ctx (.decl decl)).lift
        · exact .ofRefuses (refuses_fail nofun)
      · exact (ends_forRest d ctx (some (.decl decl))).lift
    · refine .step (ends_expr d _).lift fun e => .look (still_sees _) fun _ => .ite ?_ ?_
      · exact .ite (ends_forInRest d ctx (.expr e)).lift (.ofRefuses (refuses_fail nofun))
      · exact (ends_forRest d ctx (some (.expr e))).lift)

theorem ends_forRest : (d : Nat) → (ctx : ParseContext) → (init : Option ForHead) →
    Ends d 1 anyToken 1 (forRest d ctx init)
  | 0, _, _ => .tooDeep
  | d + 1, ctx, init => .deeper (by
    refine .step (ends_expect _) fun _ => .look (still_sees _) fun _ => ?_
    extract_lets rest
    have hrest (test : Option Expr) : Ends d 16 anyToken 0 (rest test) := by
      refine .step (ends_expect _) fun _ => .look (still_sees _) fun _ => ?_
      extract_lets more
      have hmore (update : Option Expr) : Ends d 16 anyToken 0 (more update) :=
        .step (ends_expect _) fun _ => .andThen (ends_loopBody d ctx).lift fun _ => .node
      exact .missing (ends_expr d _).lift hmore
    exact .missing (ends_expr d _).lift hrest)

theorem ends_forInRest : (d : Nat) → (ctx : ParseContext) → (head : ForHead) →
    Ends d 1 anyToken 1 (forInRest d ctx head)
  | 0, _, _ => .tooDeep
  | d + 1, ctx, _ => .deeper <|
    .step (ends_expectKeyword _) fun _ => .andThen (ends_expr d _).lift fun _ =>
      .step (ends_expect _) fun _ => .andThen (ends_loopBody d ctx).lift fun _ => .node

theorem ends_whileStmt : (d : Nat) → (ctx : ParseContext) → Ends d 1 (· ≠ .eof) 1 (whileStmt d ctx)
  | 0, _ => .tooDeep
  | d + 1, ctx => .deeper <|
    .step ends_advance fun _ => .andThen (ends_parenExpr d ctx).lift fun _ =>
      .andThen (ends_loopBody d ctx).lift fun _ => .node

theorem ends_doWhileStmt : (d : Nat) → (ctx : ParseContext) →
    Ends d 1 (· ≠ .eof) 1 (doWhileStmt d ctx)
  | 0, _ => .tooDeep
  | d + 1, ctx => .deeper <|
    .step ends_advance fun _ => .andThen (ends_loopBody d ctx).lift fun _ =>
      .step (ends_expectKeyword _) fun _ => .andThen (ends_parenExpr d ctx).lift fun _ =>
        .andThen ((ends_eat (by nofun)).map _) fun _ => .node

theorem ends_returnStmt : (d : Nat) → (ctx : ParseContext) →
    Ends d 1 (· ≠ .eof) 1 (returnStmt d ctx)
  | 0, _ => .tooDeep
  | d + 1, ctx => .deeper (by
    refine .guard (refuses_fail nofun) (.step ends_advance fun _ => ?_)
    refine .look (still_sees _) fun _ => .look still_endsStatement fun _ => ?_
    extract_lets rest
    have hrest (arg : Option Expr) : Ends d 16 anyToken 0 (rest arg) :=
      .andThen ends_semicolon fun _ => .node
    exact .missing (ends_expr d _).lift hrest)

theorem ends_labeledStmt : (d : Nat) → (ctx : ParseContext) →
    Ends d 1 anyToken 1 (labeledStmt d ctx)
  | 0, _ => .tooDeep
  | d + 1, ctx => .deeper <|
    .step ends_ident fun _ => .step (ends_expect _) fun _ => .reject (refuses_fail nofun) <|
      .look still_peek fun _ => .andThen (ends_stmt d _).lift fun _ => .node

theorem ends_throwStmt : (d : Nat) → (ctx : ParseContext) → Ends d 1 (· ≠ .eof) 1 (throwStmt d ctx)
  | 0, _ => .tooDeep
  | d + 1, ctx => .deeper <|
    .step ends_advance fun _ => .look still_afterLineEnd fun _ => .reject (refuses_fail nofun) <|
      .andThen (ends_expr d _).lift fun _ => .andThen ends_semicolon fun _ => .node

theorem ends_tryStmt : (d : Nat) → (ctx : ParseContext) → Ends d 1 (· ≠ .eof) 1 (tryStmt d ctx)
  | 0, _ => .tooDeep
  | d + 1, ctx => .deeper (by
    refine .step ends_advance fun _ => .andThen (ends_block d ctx).lift fun _ => ?_
    refine .andThen (ends_eat nofun) fun _ => ?_
    extract_lets rest
    have hrest (handler : Option CatchClause) : Ends d 16 anyToken 0 (rest handler) := by
      refine .andThen (ends_eat nofun) fun _ => ?_
      extract_lets more
      have hmore (finalizer : Option Block) : Ends d 16 anyToken 0 (more finalizer) :=
        .reject (refuses_fail nofun) .node
      exact .optional (ends_block d ctx).lift hmore
    exact .optional (ends_catchClause d ctx).lift hrest)

theorem ends_catchClause : (d : Nat) → (ctx : ParseContext) →
    Ends d 2 anyToken 1 (catchClause d ctx)
  | 0, _ => .tooDeep
  | d + 1, ctx => .deeper (by
    have hrest (param : Option Ident) : Ends d 1 anyToken 1 (do
        let body ← block d ctx
        return CatchClause.mk (← newId) param body) :=
      .step (ends_block d ctx) fun _ => .node
    refine .eat (by nofun) ?_ (.look (still_pure none) hrest)
    exact .step ends_ident fun i => .step (ends_expect _) fun _ => (hrest (some i)).lift)

theorem ends_withStmt : (d : Nat) → (ctx : ParseContext) → Ends d 1 (· ≠ .eof) 1 (withStmt d ctx)
  | 0, _ => .tooDeep
  | d + 1, ctx => .deeper <|
    .step ends_advance fun _ => .andThen (ends_parenExpr d ctx).lift fun _ =>
      .andThen (ends_stmt d ctx).lift fun _ => .node

theorem ends_expr : (d : Nat) → (ctx : ParseContext) → Ends d 9 anyToken 1 (expr d ctx)
  | 0, _ => .tooDeep
  | d + 1, ctx => .deeper <|
    .step (ends_assignExpr d ctx).lift fun _ => .look (still_sees _) fun _ =>
      .ite (.andThen (ends_commaExprs d ctx).lift fun _ => .node) (.pure _)

theorem ends_commaExprs : (d : Nat) → (ctx : ParseContext) →
    Ends d 1 anyToken 0 (commaExprs d ctx)
  | 0, _ => .tooDeep
  | d + 1, ctx => .deeper <|
    .eat (by nofun) (.andThen (ends_assignExpr d ctx).lift fun _ =>
      .andThen (ends_commaExprs d ctx).lift fun _ => .pure _) (.pure _)

theorem ends_assignExpr : (d : Nat) → (ctx : ParseContext) →
    Ends d 8 anyToken 1 (assignExpr d ctx)
  | 0, _ => .tooDeep
  | d + 1, ctx => .deeper (by
    refine .look still_position fun _ => .step (ends_condExpr d ctx).lift fun _ => .peek fun t => ?_
    split
    · refine .guard (refuses_failAt _ nofun) (.step (ends_advance_of_ne nofun) fun _ => ?_)
      exact .andThen (ends_assignExpr d ctx).lift fun _ => .node
    · exact .pure _)

theorem ends_condExpr : (d : Nat) → (ctx : ParseContext) → Ends d 7 anyToken 1 (condExpr d ctx)
  | 0, _ => .tooDeep
  | d + 1, ctx => .deeper <|
    .step (ends_binaryExpr d ctx 0).lift fun _ => .eat (by nofun)
      (.andThen (ends_assignExpr d _).lift fun _ => .step (ends_expect _) fun _ =>
        .andThen (ends_assignExpr d ctx).lift fun _ => .node) (.pure _)

theorem ends_binaryExpr : (d : Nat) → (ctx : ParseContext) → (least : Nat) →
    Ends d 6 anyToken 1 (binaryExpr d ctx least)
  | 0, _, _ => .tooDeep
  | d + 1, ctx, least => .deeper <|
    .step (ends_unaryExpr d ctx).lift fun left => (ends_binaryRest d ctx least left).lift

theorem ends_binaryRest : (d : Nat) → (ctx : ParseContext) → (least : Nat) → (left : Expr) →
    Ends d 1 anyToken 0 (binaryRest d ctx least left)
  | 0, _, _, _ => .tooDeep
  | d + 1, ctx, least, left => .deeper <|
    .operator (fun op => .ite (.pure _) <| .step ends_advance fun _ =>
      .andThen (ends_binaryExpr d ctx _).lift fun right => .look still_newId fun id =>
        (ends_binaryRest d ctx least (.binary id op left right)).lift) (.pure _)

theorem ends_unaryExpr : (d : Nat) → (ctx : ParseContext) → Ends d 5 anyToken 1 (unaryExpr d ctx)
  | 0, _ => .tooDeep
  | d + 1, ctx => .deeper (by
    refine .peek fun t => ?_
    split
    iterate 7 exact (ends_unaryOperand d ctx _).known nofun
    iterate 2 exact (ends_updateOperand d ctx _).known nofun
    · exact (ends_updatedExpr d ctx).lift)

theorem ends_unaryOperand : (d : Nat) → (ctx : ParseContext) → (op : UnaryOp) →
    Ends d 1 (· ≠ .eof) 1 (unaryOperand d ctx op)
  | 0, _, _ => .tooDeep
  | d + 1, ctx, _ => .deeper <|
    .step ends_advance fun _ => .andThen (ends_unaryExpr d ctx).lift fun _ => .node

theorem ends_updateOperand : (d : Nat) → (ctx : ParseContext) → (op : UpdateOp) →
    Ends d 1 (· ≠ .eof) 1 (updateOperand d ctx op)
  | 0, _, _ => .tooDeep
  | d + 1, ctx, _ => .deeper <|
    .step ends_advance fun _ => .look still_position fun _ =>
      .andThen (ends_unaryExpr d ctx).lift fun _ => .guard (refuses_failAt _ nofun) .node

theorem ends_updatedExpr : (d : Nat) → (ctx : ParseContext) →
    Ends d 4 anyToken 1 (updatedExpr d ctx)
  | 0, _ => .tooDeep
  | d + 1, ctx => .deeper (by
    refine .step (ends_chainExpr d ctx true).lift fun e => .peek fun t => ?_
    refine .look still_afterLineEnd fun _ => ?_
    extract_lets rest
    have hsome (op : UpdateOp) : Ends d 16 (· ≠ .eof) 0 (rest (some op)) :=
      .guard (refuses_fail nofun) (.step ends_advance fun _ => .node)
    split
    · exact (hsome .increment).known nofun
    · exact (hsome .decrement).known nofun
    · exact (.pure e : Ends d 16 _ 0 (rest none)))

theorem ends_chainExpr : (d : Nat) → (ctx : ParseContext) → (calls : Bool) →
    Ends d 3 anyToken 1 (chainExpr d ctx calls)
  | 0, _, _ => .tooDeep
  | d + 1, ctx, calls => .deeper (by
    refine .look (still_sees _) fun _ => ?_
    extract_lets rest
    have hrest (e : Expr) : Ends d 16 anyToken 0 (rest e) := (ends_chainRest d ctx calls e).lift
    exact .ite (.step (ends_newExpr d ctx).lift hrest) (.step (ends_primaryExpr d ctx).lift hrest))

theorem ends_chainRest : (d : Nat) → (ctx : ParseContext) → (calls : Bool) → (e : Expr) →
    Ends d 2 anyToken 0 (chainRest d ctx calls e)
  | 0, _, _, _ => .tooDeep
  | d + 1, ctx, calls, e => .deeper (by
    refine .peek fun t => ?_
    split
    · refine .step (ends_advance_of_ne nofun) fun _ => .step ends_identName fun name => ?_
      exact .look still_newId fun id => (ends_chainRest d ctx calls (.member id e name)).lift
    · refine .step (ends_advance_of_ne nofun) fun _ => .andThen (ends_expr d _).lift fun key => ?_
      refine .step (ends_expect _) fun _ => .look still_newId fun id => ?_
      exact (ends_chainRest d ctx calls (.index id e key)).lift
    · refine .ite (.step (ends_arguments d ctx).lift fun args => ?_) (.pure _)
      exact .look still_newId fun id => (ends_chainRest d ctx calls (.call id e args)).lift
    · exact .pure _)

theorem ends_newExpr : (d : Nat) → (ctx : ParseContext) → Ends d 1 anyToken 1 (newExpr d ctx)
  | 0, _ => .tooDeep
  | d + 1, ctx => .deeper (by
    refine .step (ends_expectKeyword _) fun _ => ?_
    refine .andThen (ends_chainExpr d ctx false).lift fun _ => .look (still_sees _) fun _ => ?_
    extract_lets rest
    have hrest (args : List Expr) : Ends d 16 anyToken 0 (rest args) := .node
    exact .ite (.andThen (ends_arguments d ctx).lift hrest) (.look (still_pure _) hrest))

theorem ends_arguments : (d : Nat) → (ctx : ParseContext) → Ends d 1 anyToken 1 (arguments d ctx)
  | 0, _ => .tooDeep
  | d + 1, ctx => .deeper <| .step (ends_expect _) fun _ => (ends_argumentsToParen d ctx).lift

theorem ends_argumentsToParen : (d : Nat) → (ctx : ParseContext) →
    Ends d 9 anyToken 1 (argumentsToParen d ctx)
  | 0, _ => .tooDeep
  | d + 1, ctx => .deeper <|
    .eat (by nofun) (.pure _) <| .step (ends_assignExpr d _).lift fun _ =>
      .eat (by nofun) (.andThen (ends_argumentsToParen d ctx).lift fun _ => .pure _) <|
        .step (ends_expect _) fun _ => .pure _

theorem ends_primaryExpr : (d : Nat) → (ctx : ParseContext) →
    Ends d 2 anyToken 1 (primaryExpr d ctx)
  | 0, _ => .tooDeep
  | d + 1, ctx => .deeper (by
    refine .peek fun t => ?_
    split
    · refine .step (ends_advance_of_ne nofun) fun _ => .andThen (ends_expr d _).lift fun _ => ?_
      exact .step (ends_expect _) fun _ => .pure _
    · refine .step (ends_advance_of_ne nofun) fun _ => ?_
      exact .andThen (ends_elementsToBracket d ctx).lift fun _ => .node
    · refine .step (ends_advance_of_ne nofun) fun _ => ?_
      exact .andThen (ends_propertiesToBrace d ctx).lift fun _ => .node
    · exact (ends_functionExpr d).known nofun
    · exact .step (ends_advance_of_ne nofun) fun _ => .node
    · exact .step ends_ident fun _ => .pure _
    iterate 6 exact .step (ends_advance_of_ne nofun) fun _ => .node
    · exact .ofRefuses (refuses_fail nofun)
    · exact .ofRefuses (refuses_unexpected _))

theorem ends_elementsToBracket : (d : Nat) → (ctx : ParseContext) →
    Ends d 9 anyToken 1 (elementsToBracket d ctx)
  | 0, _ => .tooDeep
  | d + 1, ctx => .deeper <|
    .eat (by nofun) (.pure _) <|
      .eat (by nofun) (.andThen (ends_elementsToBracket d ctx).lift fun _ => .pure _) <|
        .step (ends_assignExpr d _).lift fun _ =>
          .eat (by nofun) (.andThen (ends_elementsToBracket d ctx).lift fun _ => .pure _) <|
            .step (ends_expect _) fun _ => .pure _

theorem ends_propertiesToBrace : (d : Nat) → (ctx : ParseContext) →
    Ends d 3 anyToken 1 (propertiesToBrace d ctx)
  | 0, _ => .tooDeep
  | d + 1, ctx => .deeper <|
    .eat (by nofun) (.pure _) <| .step (ends_property d ctx).lift fun _ =>
      .eat (by nofun) (.andThen (ends_propertiesToBrace d ctx).lift fun _ => .pure _) <|
        .step (ends_expect _) fun _ => .pure _

theorem ends_property : (d : Nat) → (ctx : ParseContext) → Ends d 2 anyToken 1 (property d ctx)
  | 0, _ => .tooDeep
  | d + 1, ctx => .deeper (by
    refine .look still_peekSecond fun _ => .peek fun t => ?_
    split
    iterate 2 exact (ends_accessor d ctx _).known nofun
    · refine .step (ends_propertyKey d ctx).lift fun _ => .look (still_sees _) fun _ => ?_
      refine .reject (refuses_fail nofun) (.step (ends_expect _) fun _ => ?_)
      exact .andThen (ends_assignExpr d _).lift fun _ => .node)

theorem ends_accessor : (d : Nat) → (ctx : ParseContext) → (isGetter : Bool) →
    Ends d 1 (· ≠ .eof) 1 (accessor d ctx isGetter)
  | 0, _, _ => .tooDeep
  | d + 1, ctx, _ => .deeper <|
    .step ends_advance fun _ => .andThen (ends_propertyKey d ctx).lift fun _ =>
      .look still_position fun _ => .andThen (ends_functionRest d).lift fun _ =>
        .ite (.guard (refuses_failAt _ nofun) .node) (.guard (refuses_failAt _ nofun) .node)

theorem ends_propertyKey : (d : Nat) → (ctx : ParseContext) →
    Ends d 1 anyToken 1 (propertyKey d ctx)
  | 0, _ => .tooDeep
  | d + 1, ctx => .deeper (by
    refine .peek fun t => ?_
    split
    iterate 3 exact .step (ends_advance_of_ne nofun) fun _ => .node
    · refine .step (ends_advance_of_ne nofun) fun _ => ?_
      exact .andThen (ends_assignExpr d _).lift fun _ => .step (ends_expect _) fun _ => .pure _
    · exact .ofRefuses (refuses_unexpected _))

theorem ends_functionExpr : (d : Nat) → Ends d 1 (· ≠ .eof) 1 (functionExpr d)
  | 0 => .tooDeep
  | d + 1 => .deeper (by
    refine .step ends_advance fun _ => .look still_peek fun t => ?_
    extract_lets rest
    have hrest (name : Option Ident) : Ends d 16 anyToken 0 (rest name) :=
      .andThen (ends_functionRest d).lift fun _ => .node
    split
    · exact .step (ends_ident.map _) hrest
    · exact .look (still_pure _) hrest)

end

theorem ends_stmtsToEnd : (d : Nat) → Ends d 12 anyToken 0 (stmtsToEnd d)
  | 0 => .tooDeep
  | d + 1 => .deeper <|
    .look (still_sees _) fun _ => .ite (.pure _) <| .step (ends_stmt d {}).lift fun _ =>
      .andThen (ends_stmtsToEnd d).lift fun _ => .pure _

theorem ends_program (d : Nat) : Ends d 12 anyToken 0 (program d) :=
  .andThen (ends_stmtsToEnd d) fun _ => .node

/-- The statements stop at the end of the input only. -/
theorem current_of_stmtsToEnd {body : List Stmt} {s s' : ParseState}
    (h : stmtsToEnd d s = .ok (body, s')) : s'.current.token = .eof := by
  induction d generalizing s body with
  | zero => cases h
  | succ d ih =>
    obtain ⟨atEnd, t, hsees, h⟩ := bind_eq_ok h
    cases hsees
    split at h
    · rename_i heof
      cases h
      exact beq_iff_eq.mp heof
    · obtain ⟨first, t, -, h⟩ := bind_eq_ok h
      obtain ⟨rest, t', hrest, h⟩ := bind_eq_ok h
      cases h
      exact ih hrest

theorem current_of_program {p : Program} {s s' : ParseState} (h : program d s = .ok (p, s')) :
    s'.current.token = .eof := by
  obtain ⟨body, t, hbody, h⟩ := bind_eq_ok h
  cases h
  exact (current_of_stmtsToEnd hbody :)

/-- If no pending token is the end of the input, a program takes all of them. -/
theorem pending_of_program {p : Program} {s s' : ParseState} (hs : s.final.token = .eof)
    (hpending : ∀ l ∈ s.pending, l.token ≠ .eof) (h : program d s = .ok (p, s')) :
    s'.pending = [] := by
  obtain ⟨hmoves, -⟩ := ends_program d s hs trivial
  obtain ⟨-, used, hused, -⟩ := hmoves p s' h
  have hcurrent := current_of_program h
  cases hleft : s'.pending with
  | nil => rfl
  | cons l rest =>
    rw [ParseState.current, hleft] at hcurrent
    rw [hused, hleft] at hpending
    exact absurd hcurrent (hpending l (List.mem_append_right used List.mem_cons_self))

/-- A text is taken as a program with no token left, or refused, and not for the depth. -/
theorem program_of_tokenize {text : String} {ls : List Lexeme} (h : tokenize text = .ok ls) :
    (∃ p s', program (16 * (ls.length + 1)) (.ofLexemes ls) = .ok (p, s') ∧ s'.pending = []) ∨
      ∃ e, program (16 * (ls.length + 1)) (.ofLexemes ls) = .error e ∧ e.IsGenuine := by
  obtain ⟨front, last, rfl, hlast, hfront⟩ := Lexer.eof_of_tokensFrom h
  have hstate : ParseState.ofLexemes (front ++ [last]) = ⟨front, last, 0⟩ := by
    simp [ParseState.ofLexemes]
  rw [hstate]
  cases hprogram : program (16 * ((front ++ [last]).length + 1)) ⟨front, last, 0⟩ with
  | ok r => exact .inl ⟨r.1, r.2, rfl, pending_of_program hlast hfront hprogram⟩
  | error e =>
    refine .inr ⟨e, rfl, (ends_program _ ⟨front, last, 0⟩ hlast trivial).2 ?_ e hprogram⟩
    simp only [List.length_append, List.length_singleton]
    omega

/-- Cutting a text and parsing its tokens ends. A round of the lexer moves over at least one
character or comes to the end of the text, and the counts of steps never run out. The parser stays
at the last token, and yet each production moves over at least one token, which is no end of the
input, or refuses what it cannot read before the depth runs out. A program is read up to the end of
the input. -/
theorem parsing_ends :
    (∀ slash c l after, Lexer.round slash c = .ok (l, after) → ∃ s, c.Reads s after ∧
      (l.token = .eof ∧ after.rest = [] ∨ l.token ≠ .eof ∧ s ≠ [])) ∧
    (∀ text, tokenize text = Lexer.tokensToEnd true (.start text.toList)) ∧
    (∀ slash c, Lexer.tokensToEnd slash c = (do
      let (l, after) ← Lexer.round slash c
      if l.token = .eof then .ok [l]
      else
        let rest ← Lexer.tokensToEnd l.token.precedesExpr after
        .ok (l :: rest))) ∧
    (∀ quote start c steps steps', c.rest.length < steps → c.rest.length < steps' →
      Lexer.readStringFrom quote start steps c = Lexer.readStringFrom quote start steps' c) ∧
    (∀ s : ParseState, s.pending = [] → s.advance = s) ∧
    (∀ d ctx, Ends d 16 anyToken 1 (stmt d ctx) ∧ Ends d 16 anyToken 1 (property d ctx) ∧
      Ends d 16 anyToken 1 (arguments d ctx) ∧ Ends d 16 anyToken 1 (elementsToBracket d ctx) ∧
      Ends d 16 anyToken 1 (assignExpr d ctx) ∧ Ends d 16 anyToken 1 (expr d ctx)) ∧
    (∀ d, Ends d 16 anyToken 0 (program d)) ∧
    (∀ d s p s', program d s = .ok (p, s') → s'.current.token = .eof) ∧
    ∀ text ls, tokenize text = .ok ls →
      (∃ p s', program (16 * (ls.length + 1)) (.ofLexemes ls) = .ok (p, s') ∧ s'.pending = []) ∨
        ∃ e, program (16 * (ls.length + 1)) (.ofLexemes ls) = .error e ∧ e.IsGenuine := by
  refine ⟨fun _ _ _ _ => Lexer.reads_of_round, fun _ => rfl, Lexer.tokensToEnd_eq,
    fun _ _ _ _ _ => Lexer.readStringFrom_steps, fun _ => ParseState.advance_of_pending_nil,
    fun d ctx => ?_, fun d => (ends_program d).lift, fun _ _ _ _ => current_of_program,
    fun _ _ => program_of_tokenize⟩
  exact ⟨(ends_stmt d ctx).lift, (ends_property d ctx).lift, (ends_arguments d ctx).lift,
    (ends_elementsToBracket d ctx).lift, (ends_assignExpr d ctx).lift, (ends_expr d ctx).lift⟩

/-- The arguments of a call end with the text. -/
theorem parsing_ends_in_call : ∃ ls, tokenize "f(" = .ok ls ∧
    program (16 * (ls.length + 1)) (.ofLexemes ls) = .error ⟨⟨1, 3⟩, .endOfInput⟩ ∧
    SyntaxError.IsGenuine ⟨⟨1, 3⟩, .endOfInput⟩ := by
  have htokens : tokenize "f(" = .ok [⟨.word (.ofText "f"), false, ⟨1, 1⟩⟩,
      ⟨.punct .lparen, false, ⟨1, 2⟩⟩, ⟨.eof, false, ⟨1, 3⟩⟩] := by decide +kernel
  refine ⟨_, htokens, rfl, ?_⟩
  obtain ⟨-, -, -, -, -, -, -, -, htext⟩ := parsing_ends
  obtain ⟨p, s', hp, -⟩ | ⟨e, he, hgenuine⟩ := htext _ _ htokens
  · cases hp
  · cases he
    exact hgenuine

end Parser

end EsOptimizer
