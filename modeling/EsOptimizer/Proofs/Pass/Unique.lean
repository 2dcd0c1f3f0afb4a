import EsOptimizer.Proofs.Pass.Template
import EsOptimizer.Proofs.Pass.Unchanged
import Mathlib.Data.List.TakeDrop

/-!
# Ids stay unique

Each pass is made of hooks that move, drop and copy parts of the tree and build new ones. None uses a
part twice: what stays in two places is copied, and a copy has new ids. So a program whose nodes have
different ids keeps that property through every pass, and through the optimizer.
-/

namespace EsOptimizer

open EsOptimizer.Tree (stock)

attribute [local simp] Tree.stock Tree.ids Tree.nodes Node.tally Expr.ids Expr.nodes elemIds
  elemNodes exprIds exprNodes exprIds? exprNodes? PropertyKey.ids PropertyKey.nodes Property.ids
  Property.nodes propIds propNodes Func.ids Func.nodes Block.ids Block.nodes blockIds? blockNodes?
  Declarator.ids Declarator.nodes declIds declNodes VarDecl.ids VarDecl.nodes ForHead.ids
  ForHead.nodes headIds? headNodes? CatchClause.ids CatchClause.nodes handlerIds? handlerNodes?
  supplied_loopNodes Stmt.ids Stmt.nodes stmtIds? stmtNodes? stmtIds stmtNodes

/-! ## Dead branches -/

namespace DeadBranches

theorem reuses_headStmt (h : ForHead) : Reuses (stock .none) (headStmt h) (stock .none h) := by
  cases h with
  | decl d => exact .pure fun k => by simp
  | expr e => exact Make.reuses_expr e

/-- What a decision goes on with. -/
def Decision.stock (d : Decision) : Tally := fun k =>
  Tree.stock .none d.init k + Tree.stock .none d.test k + Tree.stock .none d.kept k

theorem stock_of_neverRuns? {a : Analysis} {init : Option ForHead} {test : Expr} {body : Stmt}
    {d : Decision} (h : neverRuns? a init test body = some d) (k : Option Nat) :
    d.stock k ≤ Tree.stock .none init k + Tree.stock .none test k := by
  unfold neverRuns? at h
  split at h
  · cases h
    simp [Decision.stock]
  · cases h

theorem stock_of_decision? {a : Analysis} {s : Stmt} {d : Decision} (h : decision? a s = some d)
    (k : Option Nat) : d.stock k ≤ Tree.stock .none s k := by
  replace h := Option.eq_some_of_filter_eq_some h
  cases s with
  | «if» id test yes no =>
    obtain ⟨⟨truthy, isPure⟩, -, rfl⟩ := Option.map_eq_some_iff.mp h
    cases truthy <;> simp [Decision.stock] <;> omega
  | «while» id test body =>
    have := stock_of_neverRuns? h k
    simp at this ⊢
    omega
  | «for» id init test update body =>
    cases test with
    | none => cases h
    | some test =>
      have := stock_of_neverRuns? h k
      simp at this ⊢
      omega
  | _ => cases h

namespace Decision

theorem reuses_initStmts (d : Decision) :
    Reuses (Tree.stock .none) d.initStmts (Tree.stock .none d.init) := by
  unfold initStmts
  split
  · exact .pure fun k => by simp
  · rename_i head hinit
    rw [hinit]
    exact (reuses_headStmt head).map₁ fun s k => by simp

theorem reuses_testStmts (d : Decision) :
    Reuses (Tree.stock .none) d.testStmts (Tree.stock .none d.test) := by
  unfold testStmts
  split
  · exact .pure fun k => by simp
  · exact (Make.reuses_expr d.test).map₁ fun s k => by simp

theorem reuses_hoistedStmts (d : Decision) :
    Reuses (Tree.stock .none) d.hoistedStmts fun _ => 0 := by
  unfold hoistedStmts
  split
  · exact .pure fun k => by simp
  · exact (Make.reuses_vars _).map₁ fun s k => by simp

theorem reuses_outcome (d : Decision) : Reuses (Tree.stock .none) d.outcome d.stock := by
  refine d.reuses_initStmts.bind₂ d.reuses_testStmts
    (g := fun first test k => Tree.stock .none first k + Tree.stock .none test k +
      Tree.stock .none d.kept k)
    (fun first test => d.reuses_hoistedStmts.bind (fun hoisted => Make.reuses_single _) ?_) ?_
  · intro hoisted k
    have hkept : Tree.stock .none d.kept.toList k = Tree.stock .none d.kept k := by
      cases d.kept <;> simp
    simp only [Tree.stock_append, hkept]
    omega
  · intro first test k
    unfold Decision.stock
    omega

end Decision

theorem stock_of_taken? {a : Analysis} {e branch : Expr} {test : Option Expr}
    (h : taken? a e = some (test, branch)) (k : Option Nat) :
    Tree.stock .none test k + Tree.stock .none branch k ≤ Tree.stock .none e k := by
  unfold taken? at h
  split at h
  all_goals first | cases h | skip
  all_goals
    obtain ⟨⟨truthy, isPure⟩, -, heq⟩ := Option.map_eq_some_iff.mp h
    cases truthy <;> cases isPure <;> cases heq <;> simp <;> omega

theorem conserves_transform (a : Analysis) : (transform a).Conserves .none where
  expr role e := by
    rw [Expr.ownStock_none]
    unfold transform
    dsimp only
    split
    · exact .pure fun k => Nat.le_refl _
    · rename_i branch htaken
      exact .skip Edit.reuses_markChanged fun _ => .pure fun k =>
        Nat.le_trans (Nat.le_add_left _ _) (stock_of_taken? htaken k)
    · rename_i test branch htaken
      refine .skip Edit.reuses_markChanged fun _ => (Make.reuses_seq _).mono fun k => ?_
      have := stock_of_taken? htaken k
      simp at this ⊢
      omega
  stmt place before after := by
    unfold transform
    dsimp only
    split
    · exact .pure fun k => by simp
    · rename_i d hd
      refine .skip Edit.reuses_markChanged fun _ => d.reuses_outcome.map₁ fun s k => ?_
      have := stock_of_decision? hd k
      simp at this ⊢
      omega
  list isBody ss := .pure fun k => Nat.le_refl _
  func f := .pure fun k => Nat.le_refl _

end DeadBranches

/-! ## Constants -/

theorem FoldConstants.conserves_transform (a : Analysis) : (transform a).Conserves .none where
  expr role e := by
    rw [Expr.ownStock_none]
    unfold transform
    dsimp only
    split
    · exact .pure fun k => Nat.le_refl _
    · exact .skip Edit.reuses_markChanged fun _ => (Make.reuses_literal _).mono fun k => Nat.zero_le _
  stmt place before after := .pure fun k => by simp
  list isBody ss := .pure fun k => Nat.le_refl _
  func f := .pure fun k => Nat.le_refl _

/-! ## Simple lists -/

namespace SimplifyBlocks

theorem cut_append (ss : List Stmt) : (cut ss).1 ++ (cut ss).2 = ss := by
  induction ss with
  | nil => rfl
  | cons s rest ih =>
    rw [cut]
    split
    · rfl
    · exact congrArg (s :: ·) ih

theorem reuses_hoisted (ss : List Stmt) : Reuses (stock .none) (hoisted ss) (stock .none ss) := by
  have hle := Tree.stock_filter_le .none isFunction ss
  unfold hoisted
  simp only
  split
  · exact .pure hle
  · refine (Make.reuses_vars _).map₁ fun s k => ?_
    have := hle k
    rw [Tree.stock_append]
    simp at this ⊢
    omega

theorem reuses_dropUnreached (ss : List Stmt) :
    Reuses (stock .none) (dropUnreached ss) (stock .none ss) := by
  unfold dropUnreached
  simp only
  split
  · exact .pure fun k => Nat.le_refl _
  · refine .skip Edit.reuses_markChanged fun _ => (reuses_hoisted (cut ss).2).map₁ fun hs k => ?_
    have hcut : stock .none ss k = stock .none ((cut ss).1 ++ (cut ss).2) k := by rw [cut_append]
    rw [Tree.stock_append] at hcut ⊢
    omega

theorem stock_of_simplified? {a : Analysis} {s : Stmt} {ss : List Stmt}
    (h : simplified? a s = some ss) (k : Option Nat) : stock .none ss k ≤ stock .none s k := by
  unfold simplified? at h
  split at h
  · cases h
    simp
  · split at h
    · cases h
      simp
    · cases h
  · split at h
    · cases h
    · cases h
      simp
  · cases h

theorem reuses_simplifyMembers (a : Analysis) (ss : List Stmt) :
    Reuses (stock .none) (simplifyMembers a ss) (stock .none ss) := by
  induction ss with
  | nil => exact .pure fun k => Nat.le_refl _
  | cons s rest ih =>
    rw [simplifyMembers]
    split
    · exact ih.map₁ fun ss k => by
        simp
        omega
    · rename_i ss hss
      refine .skip Edit.reuses_markChanged fun _ => ih.map₁ fun ts k => ?_
      have := stock_of_simplified? hss k
      rw [Tree.stock_append]
      simp at this ⊢
      omega

theorem conserves_transform (a : Analysis) : (transform a).Conserves .none where
  expr role e := by
    rw [Expr.ownStock_none]
    exact .pure fun k => Nat.le_refl _
  stmt place before after := .pure fun k => by simp
  list isBody ss := by
    refine (reuses_dropUnreached ss).andThen fun ss => ?_
    split
    · rw [List.span_eq_takeWhile_dropWhile]
      refine (reuses_simplifyMembers a _).map₁ fun ts k => ?_
      have hspan : stock .none ss k =
          stock .none (ss.takeWhile Stmt.isDirective ++ ss.dropWhile Stmt.isDirective) k := by
        rw [List.takeWhile_append_dropWhile]
      rw [Tree.stock_append] at hspan ⊢
      omega
    · exact reuses_simplifyMembers a ss
  func f := .pure fun k => Nat.le_refl _

end SimplifyBlocks

/-! ## Unrolled loops -/

namespace UnrollLoops

namespace Unrollable

theorem reuses_iteration {u : Unrollable} (h : supplied .none (u.body.nodes true) none = 0)
    (key : String) : Reuses (stock .none) (u.iteration key) fun _ => 0 := by
  refine .fresh handsOut_newId fun id => (Make.reuses_assign u.name _).bind
    (g := fun e => stock .none e) (fun e => (Make.reuses_expr e).bind₂ (Stmt.reuses_copy h)
      (fun store body => Make.reuses_block _) ?_) ?_
  · intro store body k
    simp
    omega
  · intro e k
    simp

theorem reuses_declaration (u : Unrollable) : Reuses (stock .none) u.declaration fun _ => 0 := by
  unfold declaration
  split
  · exact (Make.reuses_vars _).map₁ fun s k => by simp
  · exact .pure fun k => by simp

theorem reuses_outcome {u : Unrollable} (h : supplied .none (u.body.nodes true) none = 0) :
    Reuses (stock .none) u.outcome fun _ => 0 := by
  refine u.reuses_declaration.bind₂ (Reuses.mapM (reuses_iteration h) u.keys)
    (fun decl copies => Make.reuses_block _) fun decl copies k => ?_
  rw [← Tree.stock_stmts, Tree.stock_append]
  simp

end Unrollable

/-- The body of a loop without holes has none. -/
theorem whole_of_unrollable? {a : Analysis} {s : Stmt} {u : Unrollable}
    (h : unrollable? a s = some u) (hwhole : stock .none s none = 0) :
    supplied .none (u.body.nodes true) none = 0 := by
  unfold unrollable? at h
  split at h
  · split at h
    · split at h
      · cases h
        simp at hwhole ⊢
        omega
      · cases h
    · cases h
  · cases h

theorem conserves_transform (a : Analysis) : (transform a).Conserves .none where
  expr role e := by
    rw [Expr.ownStock_none]
    exact .pure fun k => Nat.le_refl _
  stmt place before after := by
    unfold transform
    dsimp only
    split
    · exact .pure fun k => by simp
    · rename_i u hu
      exact .ofWhole fun hwhole => .skip Edit.reuses_markChanged fun _ =>
        (Unrollable.reuses_outcome (whole_of_unrollable? hu hwhole)).map₁ fun s k => by simp
  list isBody ss := .pure fun k => Nat.le_refl _
  func f := .pure fun k => Nat.le_refl _

end UnrollLoops

/-! ## Tail calls -/

namespace TailCalls

theorem reuses_assignStmt (name : String) (value : Expr) :
    Reuses (stock .none) (assignStmt name value) (stock .none value) :=
  (Make.reuses_assign name value).andThen Make.reuses_expr

theorem reuses_passArgs (scopes : ScopeTree) (params : List (String × VarId)) (args : List Expr) :
    Reuses (fun p k => stock .none p.1 k + stock .none p.2 k) (passArgs scopes params args)
      (stock .none args) := by
  induction args generalizing params with
  | nil =>
    rw [passArgs]
    have hlast := Reuses.mapM (fun x : String × VarId =>
      Make.reuses_undefined.andThen (reuses_assignStmt x.1)) params
    refine hlast.map₁ fun ss k => ?_
    rw [← Tree.stock_stmts]
    simp
  | cons arg args ih =>
    cases params with
    | nil => exact .pure fun k => by simp
    | cons p params =>
      obtain ⟨name, v⟩ := p
      rw [passArgs]
      split
      · refine .skip (Edit.reuses_uniqueName _) fun temp => (Make.reuses_declare temp arg).bind₂ (ih params)
          (g := fun held rest k => stock .none held k + (stock .none rest.1 k + stock .none rest.2 k))
          (fun held rest => .named fun id => (reuses_assignStmt name _).map₁ fun last k => ?_) ?_
        · simp
          omega
        · intro held rest k
          simp
          omega
      · split
        · exact (ih params).mono fun k => by
            simp
            omega
        · refine (reuses_assignStmt name arg).bind₂ (ih params)
            (fun store rest => .pure fun k => Nat.le_refl _) fun store rest k => ?_
          simp
          omega

theorem Target.reuses_jump (t : Target) (scopes : ScopeTree) (label : String) (args : List Expr) :
    Reuses (stock .none) (t.jump scopes label args) (stock .none args) := by
  refine (reuses_passArgs scopes t.params args).bind
    (g := fun p k => stock .none p.1 k + stock .none p.2 k) (fun p => ?_) fun p k => by
      simp
  refine .fresh handsOut_newId fun id => .named fun id' => .pure fun k => ?_
  simp only [Tree.stock_append]
  simp [Ident.ids?]
  omega

theorem Target.stock_of_args? {t : Target} {scopes : ScopeTree} {s : Stmt} {args : List Expr}
    (h : t.args? scopes s = some args) (k : Option Nat) : stock .none args k ≤ stock .none s k := by
  unfold Target.args? at h
  split at h
  · split at h
    · cases h
      simp
      omega
    · cases h
  · cases h

theorem Target.conserves_jumps (t : Target) (scopes : ScopeTree) (label : String) :
    (t.jumps scopes label).Conserves .none where
  expr role e := by
    rw [Expr.ownStock_none]
    exact .pure fun k => Nat.le_refl _
  stmt place before after := by
    unfold Target.jumps
    dsimp only
    split
    · exact .pure fun k => by simp
    · rename_i args hargs
      refine ((t.reuses_jump scopes label args).mono (t.stock_of_args? hargs)).andThen fun ss => ?_
      split
      · exact .pure fun k => Nat.le_refl _
      · exact (Make.reuses_block ss).map₁ fun s k => by simp
  list isBody ss := .pure fun k => Nat.le_refl _
  func f := .pure fun k => Nat.le_refl _

theorem reuses_endLoop (ss : List Stmt) : Reuses (stock .none) (endLoop ss) (stock .none ss) := by
  unfold endLoop
  split
  · exact .pure fun k => Nat.le_refl _
  · exact .fresh handsOut_newId fun id => .pure fun k => by
      rw [Tree.stock_append]
      simp
      omega

theorem Target.reuses_loop (t : Target) (scopes : ScopeTree) (fn : Func) :
    Reuses (stock .none) (t.loop scopes fn) (stock .none fn) := by
  obtain ⟨id, params, ⟨bodyId, ss⟩⟩ := fn
  -- What the function has apart from its statements.
  let rest : Tally := fun k => Tally.ids (params.map (·.id)) k + Tally.id bodyId k + Tally.id id k
  refine .skip (Edit.reuses_uniqueName _) fun label => ((t.conserves_jumps scopes label).onStmts ss).bind
    (g := fun ts k => stock .none ts k + rest k) (fun ts => (reuses_endLoop ts).bind
      (g := fun us k => stock .none us k + rest k) (fun us => .fresh handsOut_newId fun whileId =>
        .fresh handsOut_newId fun testId => (Make.reuses_block us).bind
          (g := fun b k => stock .none b k + Tally.id whileId k + Tally.id testId k + rest k)
          (fun b => .fresh handsOut_newId fun id' => .named fun labelId => .pure ?_) ?_) ?_) ?_
  all_goals
    intros
    simp [rest]
    omega

theorem conserves_transform (scopes : ScopeTree) : (transform scopes).Conserves .none where
  expr role e := by
    rw [Expr.ownStock_none]
    exact .pure fun k => Nat.le_refl _
  stmt place before after := .pure fun k => by simp
  list isBody ss := .pure fun k => Nat.le_refl _
  func f := by
    unfold transform
    dsimp only
    split
    · exact .pure fun k => Nat.le_refl _
    · exact .skip Edit.reuses_markChanged fun _ => Target.reuses_loop _ scopes f

end TailCalls

/-! ## Unused variables -/

namespace RemoveUnused

def Remnant.stock : Remnant → Tally
  | .decls kept => Tree.stock .none kept
  | .effect _ after => Tree.stock .none after

/-- All that is left. -/
def remnantStock (parts : List Remnant) : Tally := fun k => (parts.map (·.stock k)).sum

/-- What is left of a declaration was there, or has been kept before. -/
theorem remnantStock_le (u : Unused) (ds : List (Declarator × Declarator)) (kept : List Declarator)
    (k : Option Nat) : remnantStock (remnants u ds kept) k ≤
      stock .none kept k + stock .none (ds.map (·.2)) k := by
  have htogether (kept : List Declarator) :
      remnantStock (together kept) k = stock .none kept k := by
    unfold together
    split
    · rename_i hempty
      rw [List.isEmpty_iff.mp hempty]
      simp [remnantStock]
    · simp [remnantStock, Remnant.stock]
  induction ds generalizing kept with
  | nil =>
    rw [remnants, htogether]
    exact Nat.le_add_right _ _
  | cons d ds ih =>
    obtain ⟨before, after⟩ := d
    have hcons : stock .none (((before, after) :: ds).map (·.2)) k =
        stock .none after k + stock .none (ds.map (·.2)) k := by
      simp only [Tree.stock_decls, List.map_cons, List.sum_cons]
    rw [remnants, hcons]
    split
    · have := ih (kept ++ [after])
      have happend : stock .none (kept ++ [after]) k = stock .none kept k + stock .none after k := by
        simp only [Tree.stock_decls, List.map_append, List.sum_append, List.map_cons, List.map_nil,
          List.sum_cons, List.sum_nil, Nat.add_zero]
      omega
    · split
      · rename_i value done hvalue hdone
        split
        · have := ih kept
          omega
        · have := ih []
          have hafter : stock .none done k ≤ stock .none after k := by
            obtain ⟨id, name, init⟩ := after
            cases hdone
            simp
            omega
          have hparts : remnantStock (together kept ++ .effect value done :: remnants u ds []) k =
              stock .none kept k + (stock .none done k + remnantStock (remnants u ds []) k) := by
            rw [← htogether kept]
            simp only [remnantStock, List.map_append, List.sum_append, List.map_cons, List.sum_cons]
            rfl
          have hnil : stock .none ([] : List Declarator) k = 0 := by simp
          omega
      · have := ih kept
        omega

theorem Remnant.reuses_stmt (kind : DeclKind) (r : Remnant) :
    Reuses (Tree.stock .none) (r.stmt kind) r.stock := by
  cases r with
  | decls kept =>
    exact .fresh handsOut_newId fun id => .pure fun k => by
      simp [Remnant.stock]
      omega
  | effect before after => exact Make.reuses_expr after

theorem reuses_remnants (kind : DeclKind) (parts : List Remnant) :
    Reuses (stock .none) (parts.mapM (·.stmt kind)) (remnantStock parts) := by
  refine (Reuses.mapM (Remnant.reuses_stmt kind) parts).result ?_
  exact Tree.stock_stmts .none

theorem reuses_remnantStmts (u : Unused) (place : Place) (kind : DeclKind) (parts : List Remnant) :
    Reuses (stock .none) (remnantStmts u place kind parts) (remnantStock parts) := by
  unfold remnantStmts
  split
  · refine ((reuses_remnants kind _).mono fun k => ?_).andThen fun ss =>
      (Make.reuses_block ss).map₁ fun s k => by simp
    exact sum_filter_le _ parts _
  · exact reuses_remnants kind parts

theorem stock_zip_le (ds es : List Declarator) (k : Option Nat) :
    stock .none ((ds.zip es).map (·.2)) k ≤ stock .none es k := by
  induction ds generalizing es with
  | nil => simp
  | cons d ds ih =>
    cases es with
    | nil => simp
    | cons e es =>
      have := ih es
      simp at this ⊢
      omega

theorem reuses_onStmt (u : Unused) (place : Place) (before after : Stmt) :
    Reuses (stock .none) (onStmt u place before after) (stock .none after) := by
  have hkept : Reuses (stock .none) (pure [after] : Edit (List Stmt)) (stock .none after) :=
    .pure fun k => by simp
  have hgone : Reuses (stock .none) (do Edit.markChanged; pure [] : Edit (List Stmt))
      (stock .none after) :=
    .skip Edit.reuses_markChanged fun _ => .pure fun k => by simp
  unfold onStmt
  split
  · split
    · exact hgone
    · exact hkept
  · rename_i d done
    split
    · refine .skip Edit.reuses_markChanged fun _ =>
        (reuses_remnantStmts u place d.kind _).mono fun k => ?_
      have hle := remnantStock_le u (d.decls.zip done.decls) [] k
      have hzip := stock_zip_le d.decls done.decls k
      obtain ⟨id, kind, decls⟩ := done
      simp at hle hzip ⊢
      omega
    · exact hkept
  · split
    · exact hgone
    · exact hkept
  · exact hkept

theorem stock_of_deadStore? {u : Unused} {target : Expr} {key : Option Expr}
    (h : u.deadStore? target = some key) (k : Option Nat) :
    stock .none key k ≤ stock .none target k := by
  unfold Unused.deadStore? at h
  split at h
  · cases h
  · split at h
    · unfold removableStore? at h
      split at h
      · split at h <;> cases h
        simp
      · split at h
        · cases h
        · split at h
          · cases h
            split
            · simp
            · simp
              omega
          · cases h
      · cases h
    · cases h

theorem reuses_onExpr (u : Unused) (e : Expr) :
    Reuses (stock .none) (onExpr u e) (stock .none e) := by
  unfold onExpr
  split
  · split
    · exact .skip Edit.reuses_markChanged fun _ => .pure fun k => by
        simp
        omega
    · exact .pure fun k => Nat.le_refl _
  · split
    · exact .pure fun k => Nat.le_refl _
    · exact .skip Edit.reuses_markChanged fun _ => .pure fun k => by
        simp
        omega
    · rename_i target right _ key hkey
      refine .skip Edit.reuses_markChanged fun _ => (Make.reuses_seq _).mono fun k => ?_
      have := stock_of_deadStore? hkey k
      simp at this ⊢
      omega
  · exact .pure fun k => Nat.le_refl _

theorem conserves_transform (u : Unused) : (transform u).Conserves .none where
  expr role e := by
    rw [Expr.ownStock_none]
    exact reuses_onExpr u e
  stmt := reuses_onStmt u
  list isBody ss := .pure fun k => Nat.le_refl _
  func f := .pure fun k => Nat.le_refl _

end RemoveUnused

/-! ## Inlined calls -/

theorem supplied_none_eq_zero {ns : List Node} :
    supplied .none ns none = 0 ↔ ∀ id, .expr (.invalid id) ∉ ns := by
  induction ns with
  | nil => simp
  | cons n ns ih =>
    rw [supplied_cons, Nat.add_eq_zero_iff, ih]
    cases n with
    | expr e =>
      cases e with
      | invalid id =>
        simp only [Node.tally, Tally.hole]
        refine ⟨fun h => absurd h.1 Nat.one_ne_zero, fun h => absurd (List.mem_cons_self ..) (h id)⟩
      | _ => simp
    | _ => simp

namespace InlineFunctions

/-- The body of a template is part of the program. -/
theorem nodes_of_template? {p : Program} {f : Func} (hf : f ∈ p.functions) {scopes : ScopeTree}
    {t : Template} (ht : template? scopes f = some t) : t.body.nodes true ⊆ p.nodes := by
  refine List.Subset.trans ?_ (Program.nodes_of_function hf)
  unfold template? at ht
  simp only at ht
  split at ht
  · rename_i info body _ hbody
    split at ht
    · split at ht
      · cases ht
        unfold returned? at hbody
        split at hbody
        · rename_i id e hstmts
          cases hbody
          obtain ⟨fid, params, ⟨bid, stmts⟩⟩ := f
          cases hstmts
          intro n hn
          simp [hn]
        · cases hbody
      · cases ht
    · cases ht
  · cases ht

theorem conserves_transform {a : Analysis} {p : Program} (ha : a.scopes = ScopeTree.ofProgram p)
    (hp : p.ids.Nodup) (hwhole : ∀ id, .expr (.invalid id) ∉ p.nodes) :
    (transform a (templates a.scopes p)).Conserves .none where
  expr role e := by
    rw [Expr.ownStock_none]
    unfold transform
    dsimp only
    split
    · exact .pure fun k => Nat.le_refl _
    · rename_i build hbuild
      refine .skip Edit.reuses_markChanged fun _ => ?_
      unfold outcome? at hbuild
      split at hbuild
      · rename_i id callee args
        obtain ⟨function, -, hinlined⟩ := Option.bind_eq_some_iff.mp hbuild
        unfold inlined? at hinlined
        split at hinlined
        · cases hinlined
          exact (Make.reuses_literal _).mono fun k => Nat.zero_le _
        · split at hinlined
          · rename_i t ht
            split at hinlined
            · cases hinlined
              obtain ⟨f, hf, hft⟩ := template_of_mem ht
              have hbody := nodes_of_template? hf hft
              rw [ha] at hft
              refine (Template.reuses_instantiate
                (supplied_none_eq_zero.mpr fun id hid => hwhole id (hbody hid))
                (fun name => count_le_one_of_template? hp hf hft) args).mono fun k => ?_
              simp
              omega
            · cases hinlined
          · cases hinlined
      · cases hbuild
  stmt place before after := .pure fun k => by simp
  list isBody ss := .pure fun k => Nat.le_refl _
  func f := .pure fun k => Nat.le_refl _

end InlineFunctions

/-! ## Whole programs -/

/-- The nodes of a program have different ids, all of which have been handed out, and nothing has
been taken out of it. -/
structure Source.Numbered (src : Source) : Prop where
  nodup : src.program.ids.Nodup
  below : ∀ id ∈ src.program.ids, id < src.nextId
  whole : ∀ id, .expr (.invalid id) ∉ src.program.nodes

theorem Transform.Conserves.onProgram {t : Transform} (h : t.Conserves .none) (p : Program) :
    Reuses (stock .none) (t.onProgram p) (stock .none p) := by
  obtain ⟨id, body⟩ := p
  refine ((h.onStmts body).andThen (h.list true)).map₁ (f := Program.mk id) fun body k => ?_
  simp [Program.ids, Program.nodes]
  omega

theorem Transform.Conserves.run {t : Transform} (h : t.Conserves .none) {src : Source}
    (hsrc : src.Numbered) (taken : List String) : (t.run src taken).1.Numbered := by
  have hwhole : stock .none src.program none = 0 := by
    rw [stock, Tally.ids_none, Nat.zero_add]
    exact supplied_none_eq_zero.mpr hsrc.whole
  obtain ⟨hnext, hdrawn⟩ := h.onProgram src.program hwhole ⟨src.nextId, false, taken⟩
  change src.nextId ≤ (t.run src taken).1.nextId at hnext
  replace hdrawn : ∀ k, stock .none (t.run src taken).1.program k ≤ stock .none src.program k +
    Tally.new src.nextId (t.run src taken).1.nextId k := hdrawn
  have hcount (i : Nat) : (t.run src taken).1.program.ids.count i ≤
      src.program.ids.count i + Tally.new src.nextId (t.run src taken).1.nextId (some i) := by
    have := hdrawn (some i)
    rwa [stock, stock, supplied_none_some, supplied_none_some, Tally.ids_some, Tally.ids_some] at this
  refine ⟨List.nodup_iff_count_le_one.mpr fun (i : Nat) => ?_, fun (i : Nat) hi => ?_, ?_⟩
  · have hle := hcount i
    by_cases hold : i ∈ src.program.ids
    · have hone := List.nodup_iff_count_le_one.mp hsrc.nodup i
      rw [Tally.new, if_neg fun h => Nat.not_lt.mpr h.1 (hsrc.below i hold)] at hle
      exact Nat.le_trans hle hone
    · rw [List.count_eq_zero_of_not_mem hold, Nat.zero_add] at hle
      exact Nat.le_trans hle (Tally.new_le_one _ _ _)
  · by_cases hold : i ∈ src.program.ids
    · exact Nat.lt_of_lt_of_le (hsrc.below i hold) hnext
    · have hle := Nat.le_trans (List.count_pos_iff.mpr hi) (hcount i)
      rw [List.count_eq_zero_of_not_mem hold, Nat.zero_add, Tally.new] at hle
      split at hle
      · rename_i hnew
        exact hnew.2
      · cases hle
  · refine supplied_none_eq_zero.mp ?_
    have := hdrawn none
    rw [hwhole, stock, Tally.ids_none, Nat.zero_add] at this
    exact Nat.le_zero.mp this

theorem Source.Numbered.pass {src : Source} (h : src.Numbered) {a : Analysis}
    (ha : a.scopes = ScopeTree.ofProgram src.program) {o : Options}
    {pass : Analysis → Source → Source × Bool} (hpass : pass ∈ o.passList) :
    (pass a src).1.Numbered := by
  simp only [Options.passList, List.mem_cons, List.not_mem_nil, or_false] at hpass
  rcases hpass with rfl | rfl | rfl | rfl | rfl | rfl | rfl
  · exact (DeadBranches.conserves_transform a).run h []
  · exact (FoldConstants.conserves_transform a).run h []
  · exact (InlineFunctions.conserves_transform ha h.nodup h.whole).run h []
  · exact (TailCalls.conserves_transform a.scopes).run h src.program.usedNames
  · exact (UnrollLoops.conserves_transform a).run h []
  · exact (RemoveUnused.conserves_transform _).run h []
  · exact (SimplifyBlocks.conserves_transform a).run h []

/-- Every analysis of a program goes by the scopes of the program. -/
theorem scopes_analyze (p : Program) (options : Options) (prev : Facts) (watch : Bool) :
    (analyze p options prev watch).scopes = ScopeTree.ofProgram p := rfl

theorem Source.Numbered.optimizeFrom {src : Source} (h : src.Numbered) (options : Options)
    (rounds : Nat) (facts : Facts) : (src.optimizeFrom options rounds facts).1.Numbered :=
  preserved_by_optimizeFrom (fun _ _ h _ hpass => h.pass (scopes_analyze ..) hpass) rounds facts h

/-- A program whose nodes have different ids, all handed out, and that has no holes, is still such a
program after each pass with any analysis of it, and after the optimizer. -/
theorem numbered_through_passes {src : Source} (h : src.Numbered) :
    (∀ a : Analysis, a.scopes = ScopeTree.ofProgram src.program → ∀ options : Options,
      ∀ pass ∈ options.passList, (pass a src).1.Numbered) ∧
    ∀ options : Options, (src.optimize options).1.Numbered := by
  refine ⟨fun a ha options pass hpass => h.pass ha hpass, fun options => ?_⟩
  unfold Source.optimize
  split
  · exact h
  · exact h.optimizeFrom options _ _

/-- `function same(x) { return x; } same(null);` -/
def callOfSame : Source where
  program := ⟨10, [
    .function 6 ⟨0, "same"⟩ ⟨5, [⟨1, "x"⟩], ⟨4, [.return 3 (some (.ident ⟨2, "x"⟩))]⟩⟩,
    .expr 11 (.call 9 (.ident ⟨7, "same"⟩) [.null 8])]⟩
  nextId := 12

theorem callOfSame_numbered : callOfSame.Numbered ∧
    (inlineFunctions (analyze callOfSame.program {} {} false) callOfSame).1.Numbered ∧
    (callOfSame.optimize {}).1.Numbered := by
  have h : callOfSame.Numbered := by
    refine ⟨by decide, by decide, fun id hid => ?_⟩
    simp [callOfSame, Program.nodes] at hid
  exact ⟨h, (numbered_through_passes h).1 _ (scopes_analyze ..) {} _ (by simp [Options.passList]),
    (numbered_through_passes h).2 {}⟩

end EsOptimizer
