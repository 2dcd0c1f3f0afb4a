import EsOptimizer.Pass.DeadBranches
import EsOptimizer.Proofs.Rewrite.Carries

/-!
# Branches that are never taken

Where the facts know the truth of a test, only one branch ever runs (`Basis.Reduces`), and a test
that is known to be pure changes no variable. So the branch may take the place of the whole, behind
the test if that has effects. What a removed branch declares is declared again.
-/

namespace EsOptimizer

open Run

/-! ## Tests -/

namespace Basis

variable {b : Basis} {inner : List String} {α β γ : Type} {truthy isPure : Bool}

/-- Runs of `x` that the facts explain are runs of `y`. -/
def Reduces (b : Basis) (x y : Run α) : Prop := ∀ w, b.Explained (x w).2 → x w = y w

/-- Runs that the facts explain change no variable. -/
def Silent (b : Basis) (x : Run α) : Prop := ∀ w, b.Explained (x w).2 → (x w).2.env = w.env

/-- Every evaluation of a test has this truth value, and is pure if it is said to be. -/
structure Decided (b : Basis) (test : Run Primitive) (truthy isPure : Bool) : Prop where
  truth : ∀ w, b.Explained (test w).2 → (test w).1.truthy = truthy
  silent : isPure = true → b.Silent test

theorem Explained.of_bind {x : Run α} {f : α → Run β} (hf : ∀ a, Extends (f a)) {w : World}
    (h : b.Explained ((x >>= f) w).2) : b.Explained (x w).2 :=
  fun ev hev => h ev (hf _ _ hev)

theorem Reduces.matches {R : α → β → Prop} {x y : Run α} {z : Run β} (h : b.Reduces x y)
    (hy : b.Matches inner R y z) : b.Matches inner R x z := by
  intro w w' hagree hexplained
  have heq := h w hexplained
  rw [heq] at hexplained ⊢
  exact hy w w' hagree hexplained

/-- What changes no variable need not run. -/
theorem Silent.matches {R : γ → β → Prop} {x : Run α} {y : Run γ} {z : Run β} (hx : b.Silent x)
    (hy : b.Matches inner R y z) (hextends : Extends y) :
    b.Matches inner R (do discard x; y) z := by
  intro w w' hagree hexplained
  have henv := hx w (Explained.of_bind (fun _ => hextends) hexplained)
  exact hy (x w).2 w' (by rwa [henv]) hexplained

/-- An evaluation need not be noted. -/
theorem Matches.noted {x : Run Primitive} {R : Primitive → β → Prop} {y : Run β}
    (h : b.Matches inner R x y) (node : NodeId) : b.Matches inner R (Run.evaluated node x) y :=
  fun w w' hagree hexplained =>
    h w w' hagree fun ev hev => hexplained ev (List.mem_cons_of_mem _ hev)

namespace Decided

variable {test : Run Primitive}

theorem branch (h : b.Decided test truthy isPure) {y z : Run α} (hy : Extends y)
    (hz : Extends z) : b.Reduces (do if (← test).truthy then y else z)
      (do discard test; if truthy then y else z) := by
  intro w hexplained
  have htruth := h.truth w (Explained.of_bind (fun _ => .ite hy hz) hexplained)
  change (if (test w).1.truthy then y else z) (test w).2 = (if truthy then y else z) (test w).2
  rw [htruth]

/-- The left side decides. -/
theorem logical_left (h : b.Decided test truthy isPure) {right : Run Primitive}
    (hright : Extends right) : b.Reduces (logical truthy test right) test := by
  intro w hexplained
  have htruth := h.truth w (Explained.of_bind (fun _ => .ite (.pure _) hright) hexplained)
  change (if (test w).1.truthy = truthy then pure (test w).1 else right) (test w).2 = _
  rw [if_pos htruth]
  rfl

theorem logical_right (h : b.Decided test truthy isPure) {right : Run Primitive}
    (hright : Extends right) :
    b.Reduces (logical (!truthy) test right) (do discard test; right) := by
  intro w hexplained
  have htruth := h.truth w (Explained.of_bind (fun _ => .ite (.pure _) hright) hexplained)
  change (if (test w).1.truthy = !truthy then pure (test w).1 else right) (test w).2 = _
  rw [if_neg (by simp [htruth])]
  rfl

/-- A loop whose test is false ends at once. -/
theorem rounds {test : Expr} (h : b.Decided test.eval false isPure) {labels : List String}
    {body : Run Outcome} {update : Run Unit} (hbody : Extends body) (hupdate : Extends update)
    (n : Nat) : b.Reduces (rounds labels (testTruth (some test)) body update n)
      (do discard test.eval; return .normal) := by
  have htest := extends_testTruth (some test)
  have hfalse (x : Run Outcome) (hx : Extends x) :
      b.Reduces (do if ← testTruth (some test) then x else return .normal)
        (do discard test.eval; return .normal) :=
    h.branch hx (.pure _)
  cases n with
  | zero => exact hfalse _ (.pure _)
  | succ n =>
    refine hfalse _ (hbody.bind fun o => ?_)
    cases o.leaves labels with
    | some o => exact .pure _
    | none => exact hupdate.bind fun _ => .rounds htest hbody hupdate n

end Decided

end Basis

theorem Expr.Stands.decided {a : Analysis} {b : Basis} {inner : List String}
    (hfacts : b.facts = a.nodeFacts) {e e' : Expr} (h : e.Stands b inner e') {truthy isPure : Bool}
    (ht : a.truthiness? e'.id = some (truthy, isPure)) : b.Decided e.eval truthy isPure := by
  obtain ⟨f, hf, ht⟩ := Option.bind_eq_some_iff.mp ht
  obtain ⟨_, htruthy, heq⟩ := Option.map_eq_some_iff.mp ht
  cases heq
  have hf : b.facts[e'.id]? = some f := by rw [hfacts]; exact hf
  exact ⟨fun w hexplained => Value.truthy_of_truthiness (h.known w hexplained f hf).1 htruthy,
    fun hpure w hexplained => (h.known w hexplained f hf).2 hpure⟩

namespace DeadBranches

variable {a : Analysis} {b : Basis} {inner : List String}

theorem transform_stmt (place : Place) (before s : Stmt) : (transform a).stmt place before s =
    match decision? a s with
    | none => pure [s]
    | some d => do
      Edit.markChanged
      return [← d.outcome] := rfl

theorem transform_expr (role : Role) (e : Expr) : (transform a).expr role e =
    (match taken? a e with
    | none => pure e
    | some (none, branch) => do
      Edit.markChanged
      return branch
    | some (some test, branch) => do
      Edit.markChanged
      Make.seq [test, branch]) := rfl

/-! ## Expressions -/

/-- A computation comes down to a branch, with nothing that matters before it, or to a test and then
a branch. -/
inductive Taken (b : Basis) (inner : List String) (x : Run Primitive) :
    Option Expr → Expr → Prop where
  | alone (first : Run Unit) {branch branch' : Expr} (h : b.Reduces x (do first; branch.eval))
    (hfirst : b.Silent first) (hb : branch.Stands b inner branch') : Taken b inner x none branch'
  | after {test test' branch branch' : Expr} (h : b.Reduces x (do discard test.eval; branch.eval))
    (ht : test.Stands b inner test') (hb : branch.Stands b inner branch') :
    Taken b inner x (some test') branch'

theorem Taken.of_test {x : Run Primitive} {test test' branch branch' : Expr} {truthy isPure : Bool}
    (hd : b.Decided test.eval truthy isPure) (ht : test.Stands b inner test')
    (hb : branch.Stands b inner branch') (h : b.Reduces x (do discard test.eval; branch.eval)) :
    Taken b inner x (if isPure then none else some test') branch' := by
  cases isPure with
  | true => exact .alone _ h (hd.silent rfl) hb
  | false => exact .after h ht hb

/-- What is taken of an expression is what it comes down to. -/
theorem exists_taken (hfacts : b.facts = a.nodeFacts) {e e' : Expr}
    (h : e.SameShape (Expr.Stands b inner) e') {test : Option Expr} {branch : Expr}
    (ht : taken? a e' = some (test, branch)) :
    ∃ x, e.eval = evaluated e.id x ∧ Taken b inner x test branch := by
  cases h with
  | @cond id test test' yes yes' no no' htest hyes hno =>
    obtain ⟨⟨truthy, isPure⟩, hknown, heq⟩ := Option.map_eq_some_iff.mp ht
    cases heq
    have hd := htest.decided hfacts hknown
    refine ⟨_, by rw [Expr.eval], ?_⟩
    have hreduces := hd.branch yes.extends_eval no.extends_eval
    cases truthy with
    | true => exact .of_test hd htest hyes hreduces
    | false => exact .of_test hd htest hno hreduces
  | @binary id op left left' right right' hl hr =>
    cases op with
    | and =>
      obtain ⟨⟨truthy, isPure⟩, hknown, heq⟩ := Option.map_eq_some_iff.mp ht
      have hd := hl.decided hfacts hknown
      refine ⟨_, by rw [Expr.eval], ?_⟩
      cases truthy with
      | true =>
        cases heq
        exact .of_test hd hl hr (hd.logical_right right.extends_eval)
      | false =>
        cases heq
        exact .alone (pure ()) (hd.logical_left right.extends_eval) (fun _ _ => rfl) hl
    | or =>
      obtain ⟨⟨truthy, isPure⟩, hknown, heq⟩ := Option.map_eq_some_iff.mp ht
      have hd := hl.decided hfacts hknown
      refine ⟨_, by rw [Expr.eval], ?_⟩
      cases truthy with
      | true =>
        cases heq
        exact .alone (pure ()) (hd.logical_left right.extends_eval) (fun _ _ => rfl) hl
      | false =>
        cases heq
        exact .of_test hd hl hr (hd.logical_right right.extends_eval)
    | _ => cases ht
  | literal h =>
    cases e with
    | string | bool | null | number | regex => cases ht
    | _ => cases h
  | _ => cases ht

theorem Taken.stands {e branch' : Expr} {x : Run Primitive} (heval : e.eval = evaluated e.id x)
    (h : Taken b inner x none branch') : e.Stands b inner branch' := by
  cases h with
  | @alone first branch _ hreduces hfirst hb =>
    refine ⟨?_, fun w hexplained f hf => ?_⟩
    · rw [heval]
      exact (hreduces.matches (hfirst.matches hb.eval branch.extends_eval)).noted e.id
    · rw [heval] at hexplained ⊢
      have hx : b.Explained (x w).2 := fun ev hev => hexplained ev (List.mem_cons_of_mem _ hev)
      have heq : x w = branch.eval (first w).2 := hreduces w hx
      rw [heq] at hx
      have henv := hfirst w (Basis.Explained.of_bind (fun _ => branch.extends_eval) hx)
      change f.value.Holds (.primitive (x w).1) ∧ (f.pure = true → (x w).2.env = w.env)
      rw [heq, ← henv]
      exact hb.known (first w).2 hx f hf

theorem Taken.matches_seq {e test' branch' : Expr} {x : Run Primitive}
    (heval : e.eval = evaluated e.id x) (h : Taken b inner x (some test') branch') (id : NodeId) :
    b.Matches inner Primitive.SameValue e.eval (Expr.seq id [test', branch']).eval := by
  cases h with
  | @after test test' branch branch' hreduces ht hb =>
    rw [heval, Expr.eval]
    refine .evaluated (hreduces.matches ?_) _ _
    change b.Matches inner Primitive.SameValue (do discard test.eval; branch.eval)
      (do let p ← test'.eval; let q ← branch'.eval; return [p, q].getLastD .undefined)
    exact ht.eval.bind (fun _ => branch.extends_eval) fun _ _ _ =>
      hb.eval.bind (fun _ => .pure _) fun _ _ h => .pure h

theorem yields_expr (hfacts : b.facts = a.nodeFacts) {e e' : Expr}
    (h : e.SameShape (Expr.Stands b inner) e') :
    Yields b.Fresh ((transform a).expr .value e') (e.Stands b inner) := by
  rw [transform_expr]
  split
  · exact .pure h.stands
  · rename_i branch htaken
    obtain ⟨x, heval, ht⟩ := exists_taken hfacts h htaken
    exact Basis.yields_changed (.pure (ht.stands heval))
  · rename_i test branch htaken
    obtain ⟨x, heval, ht⟩ := exists_taken hfacts h htaken
    exact Basis.yields_changed (Basis.yields_new fun id hid =>
      .pure (.of_new (ht.matches_seq heval id) hid))

/-! ## Statements -/

/-- Statements that do a computation, declare names and end normally, whatever labels they have. -/
structure Prelude (x : Run Unit) (names : String → Prop) (ss : List Stmt) : Prop where
  exec : ∀ n, execAll n ss = (do x; return .normal)
  labels : ∀ s ∈ ss, ∀ n labels, s.exec n labels = s.exec n []
  names : ∀ y, Declares (stmtNodes false ss) y ↔ names y

namespace Prelude

variable {x y : Run Unit} {names names' : String → Prop} {pre ss : List Stmt}

theorem nil : Prelude (pure ()) (fun _ => False) [] :=
  ⟨fun _ => rfl, nofun, fun _ => by simp [stmtNodes]⟩

theorem append (h : Prelude x names pre) (h' : Prelude y names' ss) :
    Prelude (do x; y) (fun z => names z ∨ names' z) (pre ++ ss) where
  exec n := by
    rw [execAll_append, h.exec n, h'.exec n]
    rfl
  labels := List.forall_mem_append.mpr ⟨h.labels, h'.labels⟩
  names z := by rw [declares_stmtNodes_append, h.names z, h'.names z]

/-- A statement behind the others keeps the labels of the whole if there are no others. -/
theorem single (h : Prelude x names pre) (kept : Option Stmt) :
    Yields b.Fresh (Make.single (pre ++ kept.toList)) fun s =>
      (∀ n labels, ∃ labels', (labels' = labels ∨ labels' = []) ∧
        s.exec n labels = (do x; kept.elim (return .normal) (·.exec n labels'))) ∧
      ∀ y, Declares (s.nodes false) y ↔ names y ∨ Declares (stmtNodes? false kept) y := by
  have hnames (y : String) : Declares (stmtNodes false (pre ++ kept.toList)) y ↔
      names y ∨ Declares (stmtNodes? false kept) y := by
    rw [declares_stmtNodes_append, h.names y]
    cases kept <;> simp [stmtNodes, stmtNodes?]
  have hall (n : Nat) : execAll n (pre ++ kept.toList) =
      (do x; kept.elim (return .normal) (·.exec n [])) := by
    rw [execAll_append, h.exec n]
    cases kept with
    | none => rfl
    | some k =>
      rw [Option.toList_some, execAll_singleton]
      rfl
  match pre, kept with
  | [], none =>
    refine Basis.yields_new fun id _ => .pure ⟨fun n labels => ⟨labels, .inl rfl, hall n⟩, fun y => ?_⟩
    rw [← hnames y]
    simp [Stmt.nodes, stmtNodes, Node.varNames]
  | [], some k =>
    refine .pure ⟨fun n labels => ⟨labels, .inl rfl, ?_⟩, fun y => ?_⟩
    · have hx : (do x; return .normal : Run Outcome) = pure .normal := (h.exec n).symm
      exact congrArg (fun first : Run Outcome => first >>= fun _ => k.exec n labels) hx.symm
    · rw [← hnames y]
      simp [stmtNodes]
  | [p], none =>
    refine .pure ⟨fun n labels => ⟨labels, .inl rfl, ?_⟩, fun y => ?_⟩
    · rw [h.labels p List.mem_cons_self n labels, ← execAll_singleton]
      exact hall n
    · rw [← hnames y]
      simp [stmtNodes]
  | [p], some k =>
    refine Basis.yields_new fun id _ => .pure ⟨fun n labels => ⟨[], .inr rfl, hall n⟩, fun y => ?_⟩
    rw [← hnames y]
    simp [Stmt.nodes, Block.nodes, Node.varNames]
  | p :: q :: rest, kept =>
    refine Basis.yields_new fun id _ => .pure ⟨fun n labels => ⟨[], .inr rfl, hall n⟩, fun y => ?_⟩
    rw [← hnames y]
    simp [Stmt.nodes, Block.nodes, Node.varNames]

end Prelude

/-! ### What comes before what is kept -/

theorem prelude_expr (e : Expr) (id : NodeId) :
    Prelude (discard e.eval) (fun _ => False) [.expr id e] where
  exec n := by rw [execAll_singleton]; rfl
  labels s hs n labels := by cases List.mem_singleton.mp hs; rfl
  names y := by simp [stmtNodes, Stmt.nodes, Node.varNames]

theorem prelude_initStmts (d : Decision) : Yields b.Fresh d.initStmts
    (Prelude (execHead? d.init) (Declares (headNodes? false d.init))) := by
  unfold Decision.initStmts
  rcases d.init with _ | d | e
  · exact .pure ⟨fun _ => rfl, fun _ h => absurd h List.not_mem_nil, fun _ => Iff.rfl⟩
  · refine .pure ⟨fun n => execAll_singleton n _, fun s hs n labels => ?_, fun y => ?_⟩
    · cases List.mem_singleton.mp hs
      rfl
    · simp [stmtNodes, Stmt.nodes, Node.varNames, headNodes?, ForHead.nodes]
  · change Yields b.Fresh (Edit.newId >>= fun id => pure [Stmt.expr id e]) _
    refine Basis.yields_new fun id _ => .pure ?_
    have h := prelude_expr e id
    exact ⟨h.exec, h.labels, fun y => by simpa [headNodes?, ForHead.nodes] using h.names y⟩

theorem prelude_testStmts (d : Decision) : Yields b.Fresh d.testStmts
    (Prelude (if d.isPure then pure () else discard d.test.eval) fun _ => False) := by
  unfold Decision.testStmts
  split
  · exact .pure .nil
  · exact Basis.yields_new fun id _ => .pure (prelude_expr d.test id)

theorem prelude_hoistedStmts (d : Decision) : Yields b.Fresh d.hoistedStmts
    (Prelude (pure ()) (Declares (stmtNodes? false d.removed))) := by
  have hnames (y : String) : y ∈ d.hoistedNames ↔ Declares (stmtNodes? false d.removed) y := by
    unfold Decision.hoistedNames
    cases d.removed with
    | none => simp [stmtNodes?]
    | some s => exact declares_iff.symm
  unfold Decision.hoistedStmts
  split
  · rename_i hempty
    refine .pure ⟨fun _ => rfl, nofun, fun y => ?_⟩
    rw [← hnames y, List.isEmpty_iff.mp hempty]
    simp [stmtNodes]
  · refine (Make.vars_onlyDeclares _).bind fun s hs =>
      .pure ⟨fun n => ?_, fun t ht n labels => ?_, fun y => ?_⟩
    · rw [execAll_singleton, hs.exec]
      rfl
    · cases List.mem_singleton.mp ht
      rw [hs.exec, hs.exec]
    · rw [← hnames y, ← hs.declares y]
      simp [stmtNodes]

/-! ### Decisions -/

/-- A statement comes down to what a decision says: the head, the test and what is kept. -/
inductive ComesDown (b : Basis) (inner : List String) : Stmt → Decision → Prop where
  | mk {s : Stmt} {d : Decision} (head : Option ForHead) (test : Expr) (removed kept : Option Stmt)
    (hreduces : ∀ n labels, b.Reduces (s.exec n labels)
      (do execHead? head; discard test.eval; exec? n kept))
    (hplaced : ∀ cx, s.isPlaced cx = true → isPlaced? cx.inside kept = true)
    (hnames : ∀ y, Declares (s.nodes false) y ↔ Declares (headNodes? false head) y ∨
      Declares (stmtNodes? false removed) y ∨ Declares (stmtNodes? false kept) y)
    (hinit : Option.Rel (ForHead.Stands b inner) head d.init)
    (htest : test.Stands b inner d.test) (hsilent : d.isPure = true → b.Silent test.eval)
    (hremoved : Option.Rel (Stmt.Stands b inner) removed d.removed)
    (hkept : Option.Rel (Stmt.Stands b inner) kept d.kept) : ComesDown b inner s d

theorem of_neverRuns? {init : Option ForHead} {test : Expr} {body : Stmt} {d : Decision}
    (h : neverRuns? a init test body = some d) :
    ∃ isPure, a.truthiness? test.id = some (false, isPure) ∧
      d = { init, test, isPure, removed := some body } := by
  unfold neverRuns? at h
  split at h
  · rename_i isPure hknown
    cases h
    exact ⟨isPure, hknown, rfl⟩
  · cases h

theorem comesDown (hfacts : b.facts = a.nodeFacts) {s s' : Stmt} (h : s.SameShape b inner s')
    {d : Decision} (hd : known? a s' = some d) : ComesDown b inner s d := by
  cases h with
  | @«if» id test test' yes yes' no no' ht hy hn =>
    obtain ⟨⟨truthy, isPure⟩, hknown, heq⟩ := Option.map_eq_some_iff.mp hd
    have hdecided := ht.decided hfacts hknown
    have hreduces (n : Nat) := hdecided.branch (yes.extends_exec n []) (extends_exec? n no)
    cases truthy with
    | true =>
      cases heq
      refine .mk none test no (some yes) (fun n _ => hreduces n) (fun cx hplaced => ?_) (fun y => ?_)
        .none ht hdecided.silent hn (.some hy)
      · exact ((Bool.and_eq_true _ _).mp hplaced).1
      · simp [Stmt.nodes, Node.varNames, headNodes?, stmtNodes?, or_comm]
    | false =>
      cases heq
      refine .mk none test (some yes) no (fun n _ => hreduces n) (fun cx hplaced => ?_) (fun y => ?_)
        .none ht hdecided.silent (.some hy) hn
      · exact ((Bool.and_eq_true _ _).mp hplaced).2
      · simp [Stmt.nodes, Node.varNames, headNodes?, stmtNodes?]
  | @«while» id test test' body body' ht hb =>
    obtain ⟨isPure, hknown, rfl⟩ := of_neverRuns? hd
    have hdecided := ht.decided hfacts hknown
    refine .mk none test (some body) none (fun n _ => ?_) (fun _ _ => rfl) (fun y => ?_)
      .none ht hdecided.silent (.some hb) .none
    · exact hdecided.rounds (body.extends_exec n []) (.pure _) n
    · simp [Stmt.nodes, Node.varNames, headNodes?, stmtNodes?]
  | @«for» id init init' test test' update update' body body' hi ht hu hb =>
    cases ht with
    | none => cases hd
    | @some test test' ht =>
      obtain ⟨isPure, hknown, rfl⟩ := of_neverRuns? hd
      have hdecided := ht.decided hfacts hknown
      refine .mk init test (some body) none (fun n labels w hexplained => ?_) (fun _ _ => rfl)
        (fun y => ?_) hi ht hdecided.silent (.some hb) .none
      · exact hdecided.rounds (body.extends_exec n []) (extends_eval? update).discard n _ hexplained
      · simp [Stmt.nodes, Node.varNames, stmtNodes?]
  | _ => cases hd

/-- What takes the place of a decided statement. -/
theorem ComesDown.outcome {s : Stmt} {d : Decision} (h : ComesDown b inner s d) :
    Yields b.Fresh d.outcome (s.Stands b inner) := by
  obtain ⟨head, test, removed, kept, hreduces, hplaced, hnames, hinit, htest, hsilent, hremoved,
    hkept⟩ := h
  unfold Decision.outcome
  refine (prelude_initStmts d).bind fun init hpre => (prelude_testStmts d).bind fun tests hpre' =>
    (prelude_hoistedStmts d).bind fun vars hpre'' => ?_
  refine (((hpre.append hpre').append hpre'').single d.kept).imp fun s' hs' => ⟨?_, fun y => ?_⟩
  · intro n cx labels labels' hcx hs hlabels hlabels'
    refine (hreduces n labels).matches ?_
    obtain ⟨last, hlast, hexec⟩ := hs'.1 n labels'
    rw [hexec]
    have hadmits : cx.inside.Admits last := by
      rcases hlast with rfl | rfl
      · exact hlabels'.inside
      · exact cx.inside.admits_nil rfl
    have hrest : b.Matches inner (Outcome.Alike cx.loops) (exec? n kept)
        (d.kept.elim (return .normal) (·.exec n last)) := by
      have hk := hplaced cx hs
      generalize d.kept = kept' at hkept
      cases hkept with
      | none => exact .pure .normal
      | some hkept =>
        exact hkept.exec n cx.inside [] last hcx.inside hk (cx.inside.admits_nil rfl) hadmits
    have htests : b.Matches inner (Outcome.Alike cx.loops) (do discard test.eval; exec? n kept)
        (do (if d.isPure then pure () else discard d.test.eval)
            d.kept.elim (return .normal) (·.exec n last)) := by
      split
      · rename_i hpure
        exact (hsilent hpure).matches hrest (extends_exec? n kept)
      · exact htest.eval.discard.bind (fun _ => extends_exec? n kept) fun _ _ _ => hrest
    exact (matches_execHead? hinit).bind
      (fun _ => test.extends_eval.discard.bind fun _ => extends_exec? n kept) fun _ _ _ => htests
  · rw [hs'.2 y, hnames y, declares_head? hinit y, declares_stmt? hremoved y, declares_stmt? hkept y]
    simp only [or_false, or_assoc]

/-! ## The pass -/

theorem preserves (hfacts : b.facts = a.nodeFacts) :
    (transform a).Preserves b fun inner s s' => s.Stands b inner s' where
  entersFunctions := rfl
  entersValues _ := rfl
  target _ := rfl
  expr _ _ _ h := yields_expr hfacts h
  stmt inner place s s' h := by
    rw [transform_stmt]
    split
    · exact .pure ⟨s', rfl, h.stands⟩
    · rename_i d hd
      have hdown := comesDown hfacts h (Option.filter_eq_some_iff.mp hd).1
      exact Basis.yields_changed (hdown.outcome.bind fun x hx => .pure ⟨x, rfl, hx⟩)
  stands _ _ _ h := h
  list inner isBody ss ss' h := .pure (StmtsStand.of_members h)
  func _ := rfl

/-! ### Functions -/

theorem taken_allFuncs {P : Func → Prop} {e branch : Expr} {test : Option Expr}
    (ht : taken? a e = some (test, branch)) (h : AllFuncs P (e.nodes true)) :
    AllFuncs P (exprNodes? true test) ∧ AllFuncs P (branch.nodes true) := by
  have htest {test : Expr} (isPure : Bool) (h : AllFuncs P (test.nodes true)) :
      AllFuncs P (exprNodes? true (if isPure then none else some test)) := by
    cases isPure with
    | true => exact allFuncs_nil
    | false => exact h
  cases e with
  | cond id test yes no =>
    obtain ⟨⟨truthy, isPure⟩, -, heq⟩ := Option.map_eq_some_iff.mp ht
    obtain ⟨hfirst, hno⟩ := allFuncs_append.mp ((allFuncs_expr _).mp h)
    obtain ⟨hcond, hyes⟩ := allFuncs_append.mp hfirst
    cases heq
    refine ⟨htest isPure hcond, ?_⟩
    cases truthy with
    | true => exact hyes
    | false => exact hno
  | binary id op left right =>
    obtain ⟨hl, hr⟩ := allFuncs_append.mp ((allFuncs_expr _).mp h)
    cases op with
    | and | or =>
      obtain ⟨⟨truthy, isPure⟩, -, heq⟩ := Option.map_eq_some_iff.mp ht
      cases truthy <;> cases heq
      all_goals first | exact ⟨htest isPure hl, hr⟩ | exact ⟨allFuncs_nil, hl⟩
    | _ => cases ht
  | _ => cases ht

theorem known_allFuncs {P : Func → Prop} {s : Stmt} {d : Decision} (hd : known? a s = some d)
    (h : AllFuncs P (s.nodes true)) : AllFuncs P (headNodes? true d.init) ∧
      AllFuncs P (d.test.nodes true) ∧ AllFuncs P (stmtNodes? true d.kept) := by
  cases s with
  | «if» id test yes no =>
    obtain ⟨⟨truthy, isPure⟩, -, heq⟩ := Option.map_eq_some_iff.mp hd
    obtain ⟨hfirst, hno⟩ := allFuncs_append.mp ((allFuncs_stmt _).mp h)
    obtain ⟨ht, hyes⟩ := allFuncs_append.mp hfirst
    cases truthy with
    | true =>
      cases heq
      exact ⟨allFuncs_nil, ht, hyes⟩
    | false =>
      cases heq
      exact ⟨allFuncs_nil, ht, hno⟩
  | «while» id test body =>
    obtain ⟨isPure, -, rfl⟩ := of_neverRuns? hd
    exact ⟨allFuncs_nil, (allFuncs_append.mp ((allFuncs_stmt _).mp h)).1, allFuncs_nil⟩
  | «for» id init test update body =>
    cases test with
    | none => cases hd
    | some test =>
      obtain ⟨isPure, -, rfl⟩ := of_neverRuns? hd
      obtain ⟨hrest, -⟩ := allFuncs_append.mp ((allFuncs_stmt _).mp h)
      obtain ⟨hinit, ht⟩ := allFuncs_append.mp (allFuncs_append.mp hrest).1
      exact ⟨hinit, ht, allFuncs_nil⟩
  | _ => cases hd

theorem outcome_allFuncs {P : Func → Prop} {d : Decision}
    (hinit : AllFuncs P (headNodes? true d.init))
    (htest : AllFuncs P (d.test.nodes true)) (hkept : AllFuncs P (stmtNodes? true d.kept)) :
    Yields b.Fresh d.outcome fun s => AllFuncs P (s.nodes true) := by
  have hinits : Yields b.Fresh d.initStmts fun ss => AllFuncs P (stmtNodes true ss) := by
    unfold Decision.initStmts
    match d.init, hinit with
    | none, _ => exact .pure allFuncs_nil
    | some (.decl d), hinit =>
      exact .pure (by simpa [stmtNodes, Stmt.nodes, headNodes?, ForHead.nodes] using hinit)
    | some (.expr e), hinit =>
      change Yields b.Fresh (Edit.newId >>= fun id => pure [Stmt.expr id e]) _
      exact Basis.yields_new fun id _ =>
        .pure (by simpa [stmtNodes, Stmt.nodes, headNodes?, ForHead.nodes] using hinit)
  have htests : Yields b.Fresh d.testStmts fun ss => AllFuncs P (stmtNodes true ss) := by
    unfold Decision.testStmts
    split
    · exact .pure allFuncs_nil
    · change Yields b.Fresh (Edit.newId >>= fun id => pure [Stmt.expr id d.test]) _
      exact Basis.yields_new fun id _ => .pure (by simpa [stmtNodes, Stmt.nodes] using htest)
  have hvars : Yields b.Fresh d.hoistedStmts fun ss => AllFuncs P (stmtNodes true ss) := by
    unfold Decision.hoistedStmts
    split
    · exact .pure allFuncs_nil
    · exact (Make.vars_onlyDeclares _).bind fun s hs =>
        .pure (by simpa [stmtNodes] using hs.allFuncs)
  have hlast : AllFuncs P (stmtNodes true d.kept.toList) := by
    revert hkept
    cases d.kept <;> simp [stmtNodes, stmtNodes?]
  refine hinits.bind fun init hinit => htests.bind fun tests htests => hvars.bind fun vars hvars =>
    Make.carries_single ?_
  rw [allFuncs_stmtNodes] at *
  exact List.forall_mem_append.mpr
    ⟨List.forall_mem_append.mpr ⟨List.forall_mem_append.mpr ⟨hinit, htests⟩, hvars⟩, hlast⟩

theorem carries : (transform a).Carries b where
  expr P role e h := by
    rw [transform_expr]
    split
    · exact .pure h
    · rename_i branch ht
      exact Basis.yields_changed (.pure (taken_allFuncs ht h).2)
    · rename_i test branch ht
      obtain ⟨htest, hbranch⟩ := taken_allFuncs ht h
      exact Basis.yields_changed (Basis.yields_new fun id _ =>
        .pure (by simpa [Expr.nodes, exprNodes, exprNodes?] using And.intro htest hbranch))
  stmt P place before after h := by
    rw [transform_stmt]
    split
    · exact .pure (by simpa [stmtNodes] using h)
    · rename_i d hd
      obtain ⟨hinit, htest, hkept⟩ := known_allFuncs (Option.filter_eq_some_iff.mp hd).1 h
      exact Basis.yields_changed ((outcome_allFuncs hinit htest hkept).bind fun x hx =>
        .pure (by simpa [stmtNodes] using hx))
  list P isBody ss h := .pure h
  func _ := rfl
  declaration _ _ _ _ _ := rfl
  declarations _ _ _ _ _ h := .pure h

end DeadBranches

end EsOptimizer
