import EsOptimizer.Proofs.Analysis.Unrecorded
import EsOptimizer.Proofs.Pass.Traversal
import EsOptimizer.Proofs.Pass.Unique
import EsOptimizer.Proofs.Parser.Legal
import Mathlib.Data.List.Perm.Subperm
import Std.Data.String.ToNat

/-!
# Programs stay legal

Each pass makes a legal program of a legal one. Most passes leave alone what is assigned to and move
statements only to where more may stand. Some need to know more: constants are written in the place of
anything that has a known value, which what is assigned to never has; arguments are put in the place
of names that only read parameters; the label of a new loop is one that the function does not use;
and a loop is unrolled only if nothing jumps out of its body. So what the optimizer makes of a program
that was parsed is as the grammar asks.
-/

namespace EsOptimizer

open EsOptimizer.Tree (stock)

attribute [local simp] Node.isLegal Expr.nodes elemNodes exprNodes exprNodes? PropertyKey.nodes
  Property.nodes propNodes Func.nodes Block.nodes blockNodes? Declarator.nodes declNodes VarDecl.nodes
  ForHead.nodes ForHead.loopNodes headNodes? CatchClause.nodes handlerNodes? Stmt.nodes stmtNodes?
  stmtNodes

/-! ## Hooks that do nothing -/

section

variable {d : Demands}

theorem AllLegal.meets {ns : List Node} (h : AllLegal ns)
    (htarget : ∀ n ∈ ns, ∀ e, n.assigned? = some e → d.target e)
    (hbody : ∀ cx, d.body cx → cx = .function) : AllMeet d ns := by
  refine fun n hn => ⟨h n hn, htarget n hn, ?_⟩
  rintro f rfl cx hcx
  rw [hbody cx hcx]
  exact h _ hn

theorem yields_stmt {s : Stmt} (h : AllLegal (s.nodes true)) :
    Yields d.Kept (pure [s]) fun ss => AllLegal (stmtNodes true ss) ∧
      ∀ cx, d.loops ⊆ cx.loops → s.isPlaced cx = true → StandIn cx ss :=
  .pure ⟨by simpa using h, fun _ _ hs => .single hs⟩

theorem yields_list {ss : List Stmt} (h : AllLegal (stmtNodes true ss)) :
    Yields d.Kept (pure ss) fun xs => AllLegal (stmtNodes true xs) ∧
      ∀ cx, cx.own = none → allPlaced cx ss = true → allPlaced cx xs = true :=
  .pure ⟨h, fun _ _ hss => hss⟩

theorem yields_func {f : Func} (h : AllLegal (f.body.nodes true))
    (hplaced : f.body.isPlaced .function = true) :
    Yields d.Kept (pure f) fun g => AllLegal (g.nodes true) ∧ g.params.length = f.params.length := by
  obtain ⟨id, params, body⟩ := f
  exact .pure ⟨allLegal_cons.mpr ⟨hplaced, allLegal_append.mpr ⟨allLegal_names _, h⟩⟩, rfl⟩

/-- Functions are entered where nothing but the function stands around. -/
theorem enters_function {cx : Surroundings} (h : cx = .function) :
    cx.own = none ∧ ([] : List String) ⊆ cx.loops := by
  subst h
  exact ⟨rfl, List.nil_subset _⟩

/-- Statements that may stand anywhere may take the place of any. -/
theorem standIn_of_free {ss : List Stmt} (h : ∀ s ∈ ss, Make.Free s) (cx : Surroundings) :
    StandIn cx ss :=
  .inr (allPlaced_iff.mpr fun s hs => (h s hs).placed _)

end

/-! ## Dead branches -/

namespace DeadBranches

variable {a : Analysis} {d : Demands}

/-- What a decision goes on with is legal, and what is kept may stand in a block there. -/
structure Decision.Sound (x : Decision) (s : Stmt) : Prop where
  init : AllLegal (headNodes? true x.init)
  test : AllLegal (x.test.nodes true)
  kept : AllLegal (stmtNodes? true x.kept)
  placed : ∀ cx, s.isPlaced cx = true → isPlaced? cx.inside x.kept = true

theorem sound_of_neverRuns? {init : Option ForHead} {test : Expr} {body s : Stmt} {x : Decision}
    (h : neverRuns? a init test body = some x) (hinit : AllLegal (headNodes? true init))
    (htest : AllLegal (test.nodes true)) : x.Sound s := by
  unfold neverRuns? at h
  split at h
  · cases h
    exact ⟨hinit, htest, allLegal_nil, fun _ _ => rfl⟩
  · cases h

theorem sound_of_decision? {s : Stmt} {x : Decision} (h : decision? a s = some x)
    (hs : AllLegal (s.nodes true)) : x.Sound s := by
  replace h := Option.eq_some_of_filter_eq_some h
  cases s with
  | «if» id test yes no =>
    simp only [Stmt.nodes, List.cons_append, allLegal_cons, allLegal_append] at hs
    obtain ⟨⟨truthy, isPure⟩, -, rfl⟩ := Option.map_eq_some_iff.mp h
    have hplaced (cx : Surroundings) (hcx : (Stmt.if id test yes no).isPlaced cx = true) :
        yes.isPlaced cx.inside = true ∧ isPlaced? cx.inside no = true := by
      rwa [Stmt.isPlaced, Bool.and_eq_true] at hcx
    cases truthy with
    | true => exact ⟨allLegal_nil, hs.2.1.1, hs.2.1.2, fun cx hcx => (hplaced cx hcx).1⟩
    | false => exact ⟨allLegal_nil, hs.2.1.1, hs.2.2, fun cx hcx => (hplaced cx hcx).2⟩
  | «while» id test body =>
    simp only [Stmt.nodes, List.cons_append, allLegal_cons, allLegal_append] at hs
    exact sound_of_neverRuns? h allLegal_nil hs.2.1
  | «for» id init test update body =>
    cases test with
    | none => cases h
    | some test =>
      simp only [Stmt.nodes, List.cons_append, allLegal_cons, allLegal_append] at hs
      exact sound_of_neverRuns? h hs.2.1.1.1 hs.2.1.1.2
  | _ => cases h

namespace Decision

theorem yields_initStmts (x : Decision) (h : AllLegal (headNodes? true x.init)) :
    Yields d.Kept x.initStmts fun ss => ∀ s ∈ ss, Make.Free s := by
  unfold initStmts
  split
  · exact .pure (List.forall_mem_nil _)
  · rename_i head hinit
    rw [hinit] at h
    refine Yields.bind (P := Make.Free) ?_ fun s hs => .pure (List.forall_mem_singleton.mpr hs)
    cases head with
    | decl x => exact .pure ⟨allLegal_cons.mpr ⟨rfl, h⟩, fun _ => rfl⟩
    | expr e => exact Make.yields_expr h

theorem yields_testStmts (x : Decision) (h : AllLegal (x.test.nodes true)) :
    Yields d.Kept x.testStmts fun ss => ∀ s ∈ ss, Make.Free s := by
  unfold testStmts
  split
  · exact .pure (List.forall_mem_nil _)
  · exact (Make.yields_expr h).bind fun s hs => .pure (List.forall_mem_singleton.mpr hs)

theorem yields_hoistedStmts (x : Decision) :
    Yields d.Kept x.hoistedStmts fun ss => ∀ s ∈ ss, Make.Free s := by
  unfold hoistedStmts
  split
  · exact .pure (List.forall_mem_nil _)
  · rename_i hne
    exact (Make.yields_vars fun hnil => hne (List.isEmpty_iff.mpr hnil)).bind fun s hs =>
      .pure (List.forall_mem_singleton.mpr hs)

theorem Sound.yields_outcome {x : Decision} {s : Stmt} (h : x.Sound s) :
    Yields d.Kept x.outcome fun y => AllLegal (y.nodes true) ∧
      ∀ cx, s.isPlaced cx = true → y.isPlaced cx = true := by
  refine (x.yields_initStmts h.init).bind fun first hfirst =>
    (x.yields_testStmts h.test).bind fun test htest =>
      x.yields_hoistedStmts.bind fun hoisted hhoisted => ?_
  have hfree : ∀ s ∈ first ++ test ++ hoisted, Make.Free s := by
    simp only [List.forall_mem_append]
    exact ⟨⟨hfirst, htest⟩, hhoisted⟩
  refine (Make.yields_single _ ?_).imp fun y hy => ⟨hy.1, fun cx hcx => hy.2 cx (.inr ?_)⟩
  · rw [allLegal_stmtNodes, List.forall_mem_append]
    refine ⟨fun s hs => (hfree s hs).legal, fun s hs => ?_⟩
    have hkept := h.kept
    rw [Option.mem_toList.mp hs] at hkept
    exact hkept
  · rw [allPlaced_iff, List.forall_mem_append]
    refine ⟨fun s hs => (hfree s hs).placed _, fun s hs => ?_⟩
    have hplaced := h.placed cx hcx
    rw [Option.mem_toList.mp hs] at hplaced
    exact hplaced

end Decision

theorem legal_of_taken? {e branch : Expr} {test : Option Expr}
    (h : taken? a e = some (test, branch)) (he : AllLegal (e.nodes true)) :
    AllLegal (exprNodes? true test) ∧ AllLegal (branch.nodes true) := by
  unfold taken? at h
  split at h
  all_goals first | cases h | skip
  all_goals
    obtain ⟨⟨truthy, isPure⟩, -, heq⟩ := Option.map_eq_some_iff.mp h
    cases truthy <;> cases isPure <;> cases heq <;> simp_all

theorem keepsLegal_transform (a : Analysis) : (transform a).KeepsLegal {} where
  expr role e he := by
    unfold transform
    dsimp only
    split
    · exact .pure he
    · rename_i branch htaken
      exact .changed (.pure (legal_of_taken? htaken he).2)
    · rename_i test branch htaken
      obtain ⟨htest, hbranch⟩ := legal_of_taken? htaken he
      exact .changed (Make.yields_pair htest hbranch)
  target role before after _ _ htarget := by
    cases after with
    | ident | member | index => exact .pure rfl
    | _ => cases htarget
  stmt place before after h := by
    unfold transform
    dsimp only
    split
    · exact yields_stmt h
    · rename_i x hx
      exact .changed ((sound_of_decision? hx h).yields_outcome.bind fun y hy =>
        .pure ⟨by simpa using hy.1, fun cx _ hcx => .single (hy.2 cx hcx)⟩)
  list _ _ h := yields_list h
  func _ h hplaced := yields_func h (hplaced _ rfl)
  enters _ _ hcx := enters_function hcx

end DeadBranches

/-! ## Constants -/

namespace FoldConstants

/-- What is assigned to has no known value. -/
def demands (a : Analysis) : Demands where
  target e := a.constant? e.id = none

theorem keepsLegal_transform (a : Analysis) : (transform a).KeepsLegal (demands a) where
  expr role e he := by
    unfold transform
    dsimp only
    split
    · exact .pure he
    · exact .changed (Make.yields_literal _)
  target role before after hbefore hsame htarget := by
    have hnone : constant? a role after = none := by
      have hnone : a.constant? after.id = none := hsame.id ▸ hbefore
      unfold constant?
      rw [hnone]
      split <;> rfl
    unfold transform
    dsimp only
    rw [hnone]
    exact .pure htarget
  stmt _ _ _ h := yields_stmt h
  list _ _ h := yields_list h
  func _ h hplaced := yields_func h (hplaced _ rfl)
  enters _ _ hcx := enters_function hcx

end FoldConstants

/-! ## Inlined calls -/

namespace InlineFunctions

/-- What is assigned to is no parameter. -/
def demands (params : List String) : Demands where
  target e := ∀ i, e = .ident i → i.name ∉ params

theorem nominal_demands (params : List String) : (demands params).Nominal := by
  intro e x hlike he i hi
  obtain ⟨j, hj, hname⟩ := hlike.name i hi
  rw [← hname]
  exact he j hj

theorem keepsLegal_substitution (params : List String) {args : List Expr}
    (hargs : ∀ arg ∈ args, AllLegal (arg.nodes true)) :
    (substitution params args).KeepsLegal (demands params) where
  expr role e he := by
    cases e with
    | ident i =>
      unfold substitution
      dsimp only
      split
      · split
        · rename_i arg harg
          obtain ⟨before, rest, hzip, -⟩ := List.lookup_eq_some_iff.mp harg
          have hmem : (i.name, arg) ∈ params.zip args := by
            rw [hzip]
            exact List.mem_append_right _ List.mem_cons_self
          exact .pure (hargs arg (List.of_mem_zip hmem).2)
        · exact Make.yields_undefined
      · exact .pure he
    | _ => exact .pure he
  target role before after hbefore hsame htarget := by
    cases after with
    | ident i =>
      have hout : ¬params.contains i.name = true := fun hin =>
        hbefore i (hsame.name i rfl) (List.contains_iff_mem.mp hin)
      change Yields _ (if params.contains i.name then _ else pure (Expr.ident i)) _
      rw [if_neg hout]
      exact .pure rfl
    | member | index => exact .pure rfl
    | _ => cases htarget
  stmt _ _ _ h := yields_stmt h
  list _ _ h := yields_list h
  func _ h hplaced := yields_func h (hplaced _ rfl)
  enters _ _ hcx := enters_function hcx

theorem Template.yields_instantiate {t : Template}
    (ht : AllMeet (demands t.params) (t.body.nodes true)) {args : List Expr}
    (hargs : ∀ arg ∈ args, AllLegal (arg.nodes true)) :
    Yields (demands t.params).Kept (t.instantiate args) fun e => AllLegal (e.nodes true) := by
  refine (Copies.ofFresh (t.body.copies_renumber (nominal_demands _) ht)).bind fun body hbody => ?_
  exact ((keepsLegal_substitution t.params hargs).onExpr body .value hbody.meets).imp
    fun _ hx => hx.legal

theorem allLegal_exprNodes {es : List Expr} :
    AllLegal (exprNodes true es) ↔ ∀ e ∈ es, AllLegal (e.nodes true) := by
  induction es with
  | nil => simp
  | cons e rest ih => simp [-Expr.nodes, ih]

theorem keepsLegal_transform {a : Analysis} {p : Program} (ha : a.scopes = ScopeTree.ofProgram p)
    (hp : p.ids.Nodup) (hlegal : AllLegal p.nodes) :
    (transform a (templates a.scopes p)).KeepsLegal {} where
  expr role e he := by
    unfold transform
    dsimp only
    split
    · exact .pure he
    · rename_i build hbuild
      refine .changed ?_
      unfold outcome? at hbuild
      split at hbuild
      · rename_i id callee args
        obtain ⟨function, -, hinlined⟩ := Option.bind_eq_some_iff.mp hbuild
        simp only [Expr.nodes, List.cons_append, allLegal_cons, allLegal_append] at he
        unfold inlined? at hinlined
        split at hinlined
        · cases hinlined
          exact Make.yields_literal _
        · split at hinlined
          · rename_i t ht
            split at hinlined
            · cases hinlined
              obtain ⟨f, hf, hft⟩ := template_of_mem ht
              have hbody := nodes_of_template? hf hft
              rw [ha] at hft
              refine Template.yields_instantiate ?_ (allLegal_exprNodes.mp he.2.2)
              refine AllLegal.meets (fun n hn => hlegal n (hbody hn)) ?_ fun _ h => h
              rintro n hn e he i rfl
              exact not_mem_params_of_assigned hp hf hft hn he
            · cases hinlined
          · cases hinlined
      · cases hbuild
  target role before after _ _ htarget := by
    cases after with
    | ident | member | index => exact .pure rfl
    | _ => cases htarget
  stmt _ _ _ h := yields_stmt h
  list _ _ h := yields_list h
  func _ h hplaced := yields_func h (hplaced _ rfl)
  enters _ _ hcx := enters_function hcx

end InlineFunctions

/-! ## Unrolled loops -/

namespace UnrollLoops

variable {a : Analysis} {d : Demands}

/-- The body of an unrolled loop may stand where the loop did. -/
structure Unrollable.Sound (u : Unrollable) (s : Stmt) : Prop where
  body : AllLegal (u.body.nodes true)
  placed : ∀ cx, s.isPlaced cx = true → u.body.isPlaced cx.inside = true

theorem sound_of_unrollable? {s : Stmt} {u : Unrollable} (h : unrollable? a s = some u)
    (hs : AllLegal (s.nodes true)) : u.Sound s := by
  unfold unrollable? at h
  split at h
  · rename_i id head obj body
    simp only [Stmt.nodes, List.cons_append, allLegal_cons, allLegal_append] at hs
    split at h
    · split at h
      · rename_i hcond
        cases h
        simp only [Bool.and_eq_true, Bool.not_eq_true'] at hcond
        exact ⟨hs.2.2, fun cx hcx => Stmt.isPlaced_of_loop hcond.1.2 hcx⟩
      · cases h
    · cases h
  · cases h

namespace Unrollable

/-- What an unrolled loop consists of. -/
def Part (s x : Stmt) : Prop :=
  AllLegal (x.nodes true) ∧ ∀ cx, s.isPlaced cx = true → x.isPlaced cx.inside = true

theorem Sound.yields_iteration {u : Unrollable} {s : Stmt} (h : u.Sound s) (key : String) :
    Yields d.Kept (u.iteration key) (Part s) := by
  have hmeets : AllMeet {} (u.body.nodes true) := h.body.meets (fun _ _ _ _ => trivial) fun _ h => h
  refine .new fun id => (Make.yields_assign u.name (by simp)).bind fun e he =>
    (Make.yields_expr he).bind fun store hstore =>
      (Copies.ofFresh (u.body.copies_renumber (fun _ _ _ h => h) hmeets)).bind fun body hbody =>
        (Make.yields_block _ ?_).imp fun x hx => ⟨hx.1, fun cx hcx => hx.2 _ ?_⟩
  · simpa using ⟨hstore.legal, hbody.meets.legal⟩
  · simpa [allPlaced] using ⟨hstore.placed _, hbody.placed _ (h.placed cx hcx)⟩

theorem yields_declaration (u : Unrollable) (s : Stmt) :
    Yields d.Kept u.declaration fun ss => ∀ x ∈ ss, Part s x := by
  unfold declaration
  split
  · exact (Make.yields_vars (List.cons_ne_nil _ _)).bind fun x hx =>
      .pure (List.forall_mem_singleton.mpr ⟨hx.legal, fun _ _ => hx.placed _⟩)
  · exact .pure (List.forall_mem_nil _)

theorem Sound.yields_outcome {u : Unrollable} {s : Stmt} (h : u.Sound s) :
    Yields d.Kept u.outcome fun x => AllLegal (x.nodes true) ∧
      ∀ cx, s.isPlaced cx = true → x.isPlaced cx = true := by
  refine (u.yields_declaration s).bind fun first hfirst =>
    (Yields.mapM fun key _ => h.yields_iteration key).bind fun rest hrest => ?_
  have hparts : ∀ x ∈ first ++ rest, Part s x := List.forall_mem_append.mpr ⟨hfirst, hrest.2⟩
  refine (Make.yields_block _ ?_).imp fun x hx => ⟨hx.1, fun cx hcx => hx.2 cx ?_⟩
  · exact allLegal_stmtNodes.mpr fun x hx => (hparts x hx).1
  · exact allPlaced_iff.mpr fun x hx => (hparts x hx).2 cx hcx

end Unrollable

theorem keepsLegal_transform (a : Analysis) : (transform a).KeepsLegal {} where
  expr _ _ h := .pure h
  target _ _ _ _ _ h := .pure h
  stmt place before after h := by
    unfold transform
    dsimp only
    split
    · exact yields_stmt h
    · rename_i u hu
      exact .changed ((sound_of_unrollable? hu h).yields_outcome.bind fun x hx =>
        .pure ⟨by simpa using hx.1, fun cx _ hcx => .single (hx.2 cx hcx)⟩)
  list _ _ h := yields_list h
  func _ h hplaced := yields_func h (hplaced _ rfl)
  enters _ _ hcx := enters_function hcx

end UnrollLoops

/-! ## Unused variables -/

namespace RemoveUnused

variable {d : Demands}

/-- A part of a declaration is legal, and no empty one. -/
def Remnant.Legal : Remnant → Prop
  | .decls kept => kept ≠ [] ∧ AllLegal (declNodes true kept)
  | .effect _ after => AllLegal (after.nodes true)

theorem legal_together {kept : List Declarator} (h : AllLegal (declNodes true kept)) :
    ∀ r ∈ together kept, r.Legal := by
  unfold together
  split
  · exact nofun
  · rename_i hne
    exact List.forall_mem_singleton.mpr ⟨fun hnil => hne (List.isEmpty_iff.mpr hnil), h⟩

theorem legal_remnants (u : Unused) (ds : List (Declarator × Declarator)) (kept : List Declarator)
    (hds : ∀ x ∈ ds, AllLegal (x.2.nodes true)) (hkept : AllLegal (declNodes true kept)) :
    ∀ r ∈ remnants u ds kept, r.Legal := by
  induction ds generalizing kept with
  | nil => exact legal_together hkept
  | cons x rest ih =>
    obtain ⟨before, after⟩ := x
    obtain ⟨hafter, hrest⟩ := List.forall_mem_cons.mp hds
    rw [remnants]
    split
    · refine ih _ hrest ?_
      rw [Make.allLegal_declNodes, List.forall_mem_append] at *
      exact ⟨hkept, List.forall_mem_singleton.mpr hafter⟩
    · split
      · rename_i value done _ hdone
        split
        · exact ih _ hrest hkept
        · rw [List.forall_mem_append, List.forall_mem_cons]
          obtain ⟨id, name, init⟩ := after
          cases hdone
          exact ⟨legal_together hkept, (allLegal_cons.mp hafter).2, ih _ hrest allLegal_nil⟩
      · exact ih _ hrest hkept

theorem Remnant.Legal.yields_stmt (kind : DeclKind) {r : Remnant} (h : r.Legal) :
    Yields d.Kept (r.stmt kind) Make.Free := by
  cases r with
  | decls kept =>
    exact .new fun id => .pure ⟨by simp [h.1, h.2], fun _ => rfl⟩
  | effect before after => exact Make.yields_expr h

theorem yields_remnantStmts (u : Unused) (place : Place) (kind : DeclKind) {parts : List Remnant}
    (h : ∀ r ∈ parts, r.Legal) :
    Yields d.Kept (remnantStmts u place kind parts) fun ss => ∀ s ∈ ss, Make.Free s := by
  have hmap (rs : List Remnant) (hrs : ∀ r ∈ rs, r.Legal) :
      Yields d.Kept (rs.mapM (·.stmt kind)) fun ss => ∀ s ∈ ss, Make.Free s :=
    (Yields.mapM fun r hr => (hrs r hr).yields_stmt kind).imp fun _ hss => hss.2
  unfold remnantStmts
  split
  · refine (hmap _ fun r hr => h r (List.mem_of_mem_filter hr)).bind fun ss hss => ?_
    refine (Make.yields_block ss (allLegal_stmtNodes.mpr fun s hs => (hss s hs).legal)).bind
      fun b hb => .pure (List.forall_mem_singleton.mpr ⟨hb.1, fun cx => hb.2 cx ?_⟩)
    exact allPlaced_iff.mpr fun s hs => (hss s hs).placed _
  · exact hmap parts h

theorem legal_of_deadStore? {u : Unused} {target key : Expr}
    (h : u.deadStore? target = some (some key)) (htarget : AllLegal (target.nodes true)) :
    AllLegal (key.nodes true) := by
  unfold Unused.deadStore? at h
  split at h
  · cases h
  · split at h
    · unfold removableStore? at h
      split at h
      · split at h <;> cases h
      · split at h
        · cases h
        · split at h
          · simp only [Expr.nodes, List.cons_append, allLegal_cons, allLegal_append] at htarget
            split at h <;> cases h
            exact htarget.2.2.2.2
          · cases h
      · cases h
    · cases h

theorem yields_onExpr (u : Unused) {e : Expr} (h : AllLegal (e.nodes true)) :
    Yields d.Kept (onExpr u e) fun x => AllLegal (x.nodes true) := by
  unfold onExpr
  split
  · split
    · exact .changed (.pure (allLegal_append.mp (allLegal_cons.mp h).2).2)
    · exact .pure h
  · have hparts := h
    simp only [Expr.nodes, List.cons_append, allLegal_cons, allLegal_append] at hparts
    split
    · exact .pure h
    · exact .changed (.pure hparts.2.2)
    · rename_i key hkey
      exact .changed (Make.yields_pair (legal_of_deadStore? hkey hparts.2.1) hparts.2.2)
  · exact .pure h

theorem yields_onStmt (u : Unused) (place : Place) (before : Stmt) {after : Stmt}
    (h : AllLegal (after.nodes true)) :
    Yields d.Kept (onStmt u place before after) fun ss => AllLegal (stmtNodes true ss) ∧
      ∀ cx, d.loops ⊆ cx.loops → after.isPlaced cx = true → StandIn cx ss := by
  have hnone : Yields d.Kept (pure []) fun ss => AllLegal (stmtNodes true ss) ∧
      ∀ cx, d.loops ⊆ cx.loops → after.isPlaced cx = true → StandIn cx ss :=
    .pure ⟨allLegal_nil, fun _ _ _ => .inr rfl⟩
  unfold onStmt
  split
  · split
    · exact .changed hnone
    · exact yields_stmt h
  · rename_i x done
    split
    · obtain ⟨id, kind, decls⟩ := done
      have hdone := Make.allLegal_declNodes.mp (allLegal_cons.mp (allLegal_cons.mp h).2).2
      have hparts := legal_remnants u (x.decls.zip decls) []
        (fun y hy => hdone _ (List.of_mem_zip hy).2) allLegal_nil
      refine .changed ((yields_remnantStmts u place x.kind hparts).imp fun ss hss => ⟨?_, ?_⟩)
      · exact allLegal_stmtNodes.mpr fun s hs => (hss s hs).legal
      · exact fun cx _ _ => standIn_of_free hss cx
    · exact yields_stmt h
  · split
    · exact .changed hnone
    · exact yields_stmt h
  · exact yields_stmt h

theorem keepsLegal_transform (u : Unused) : (transform u).KeepsLegal {} where
  expr _ _ h := yields_onExpr u h
  target role before after _ _ htarget := by
    cases after with
    | ident | member | index => exact .pure rfl
    | _ => cases htarget
  stmt place before _ h := yields_onStmt u place before h
  list _ _ h := yields_list h
  func _ h hplaced := yields_func h (hplaced _ rfl)
  enters _ _ hcx := enters_function hcx

end RemoveUnused

/-! ## Simple lists -/

namespace SimplifyBlocks

variable {a : Analysis} {d : Demands}

/-- The members of a list are legal, and may stand where those of another may. -/
structure ListKept (ss xs : List Stmt) : Prop where
  legal : AllLegal (stmtNodes true xs)
  placed : ∀ cx, cx.own = none → allPlaced cx ss = true → allPlaced cx xs = true

theorem ListKept.append {ss ss' xs xs' : List Stmt} (h : ListKept ss xs) (h' : ListKept ss' xs') :
    ListKept (ss ++ ss') (xs ++ xs') := by
  refine ⟨?_, fun cx hcx hss => ?_⟩
  · rw [allLegal_stmtNodes, List.forall_mem_append, ← allLegal_stmtNodes, ← allLegal_stmtNodes]
    exact ⟨h.legal, h'.legal⟩
  · rw [allPlaced_iff, List.forall_mem_append, ← allPlaced_iff, ← allPlaced_iff] at hss ⊢
    exact ⟨h.placed cx hcx hss.1, h'.placed cx hcx hss.2⟩

/-- Some of the members of a list, and statements that may stand anywhere. -/
theorem listKept_of_mem {ss xs : List Stmt} (hss : AllLegal (stmtNodes true ss))
    (h : ∀ x ∈ xs, x ∈ ss ∨ Make.Free x) : ListKept ss xs := by
  refine ⟨allLegal_stmtNodes.mpr fun x hx => ?_, fun cx _ hcx => allPlaced_iff.mpr fun x hx => ?_⟩
  · rcases h x hx with hmem | hfree
    · exact allLegal_stmtNodes.mp hss x hmem
    · exact hfree.legal
  · rcases h x hx with hmem | hfree
    · exact allPlaced_iff.mp hcx x hmem
    · exact hfree.placed cx

theorem yields_hoisted (ss : List Stmt) :
    Yields d.Kept (hoisted ss) fun xs => ∀ x ∈ xs, x ∈ ss ∨ Make.Free x := by
  unfold hoisted
  simp only
  have hfunctions : ∀ x ∈ ss.filter isFunction, x ∈ ss ∨ Make.Free x :=
    fun x hx => .inl (List.mem_of_mem_filter hx)
  split
  · exact .pure hfunctions
  · rename_i hne
    refine (Make.yields_vars fun hnil => hne (List.isEmpty_iff.mpr hnil)).bind fun x hx => .pure ?_
    exact List.forall_mem_append.mpr ⟨hfunctions, List.forall_mem_singleton.mpr (.inr hx)⟩

theorem yields_dropUnreached {ss : List Stmt} (h : AllLegal (stmtNodes true ss)) :
    Yields d.Kept (dropUnreached ss) (ListKept ss) := by
  have hcut := cut_append ss
  unfold dropUnreached
  simp only
  split
  · exact .pure (listKept_of_mem h fun x hx => .inl hx)
  · refine .changed ((yields_hoisted _).bind fun xs hxs => .pure (listKept_of_mem h fun x hx => ?_))
    rcases List.mem_append.mp hx with hx | hx
    · exact .inl (hcut ▸ List.mem_append_left _ hx)
    · exact (hxs x hx).imp_left fun hx => hcut ▸ List.mem_append_right _ hx

theorem listKept_of_simplified? {s : Stmt} {xs : List Stmt} (h : simplified? a s = some xs)
    (hs : AllLegal (s.nodes true)) : ListKept [s] xs := by
  have hnone : ListKept [s] [] := ⟨allLegal_nil, fun _ _ _ => rfl⟩
  cases s with
  | empty =>
    cases h
    exact hnone
  | expr id e =>
    rw [simplified?] at h
    split at h <;> cases h
    exact hnone
  | block b =>
    obtain ⟨id, stmts⟩ := b
    rw [simplified?] at h
    split at h <;> cases h
    refine ⟨(allLegal_cons.mp hs).2, fun cx hcx hplaced => ?_⟩
    simp only [allPlaced, Stmt.isPlaced, Block.isPlaced, Bool.and_true] at hplaced
    rwa [Surroundings.inside_eq hcx] at hplaced
  | _ => cases h

theorem yields_simplifyMembers (a : Analysis) {ss : List Stmt} (h : AllLegal (stmtNodes true ss)) :
    Yields d.Kept (simplifyMembers a ss) (ListKept ss) := by
  induction ss with
  | nil => exact .pure ⟨allLegal_nil, fun _ _ h => h⟩
  | cons s rest ih =>
    obtain ⟨hs, hrest⟩ := allLegal_append.mp h
    rw [simplifyMembers]
    split
    · have hsame : ListKept [s] [s] := ⟨by simpa using hs, fun _ _ h => h⟩
      exact (ih hrest).bind fun xs hxs => .pure (hsame.append hxs)
    · rename_i stmts hstmts
      exact .changed ((ih hrest).bind fun xs hxs =>
        .pure ((listKept_of_simplified? hstmts hs).append hxs))

theorem yields_simplifyList (a : Analysis) (isBody : Bool) {ss : List Stmt}
    (h : AllLegal (stmtNodes true ss)) : Yields d.Kept (simplifyList a isBody ss) (ListKept ss) := by
  refine (yields_dropUnreached h).bind fun xs hxs => ?_
  have htrans {ys : List Stmt} (hys : ListKept xs ys) : ListKept ss ys :=
    ⟨hys.legal, fun cx hcx hss => hys.placed cx hcx (hxs.placed cx hcx hss)⟩
  split
  · rw [List.span_eq_takeWhile_dropWhile]
    have hall := hxs.legal
    rw [← xs.takeWhile_append_dropWhile (p := Stmt.isDirective), allLegal_stmtNodes,
      List.forall_mem_append, ← allLegal_stmtNodes, ← allLegal_stmtNodes] at hall
    refine (yields_simplifyMembers a hall.2).bind fun ys hys => .pure (htrans ?_)
    have hfirst : ListKept (xs.takeWhile Stmt.isDirective) (xs.takeWhile Stmt.isDirective) :=
      ⟨hall.1, fun _ _ h => h⟩
    have happend := hfirst.append hys
    rwa [List.takeWhile_append_dropWhile] at happend
  · exact (yields_simplifyMembers a hxs.legal).imp fun _ hys => htrans hys

theorem keepsLegal_transform (a : Analysis) : (transform a).KeepsLegal {} where
  expr _ _ h := .pure h
  target _ _ _ _ _ h := .pure h
  stmt _ _ _ h := yields_stmt h
  list isBody _ h := (yields_simplifyList a isBody h).imp fun _ hxs => ⟨hxs.legal, hxs.placed⟩
  func _ h hplaced := yields_func h (hplaced _ rfl)
  enters _ _ hcx := enters_function hcx

end SimplifyBlocks

/-! ## Tail calls -/

theorem Edit.freeName_not_mem (base : String) (taken : List String) : freeName base taken ∉ taken := by
  intro hmem
  set names := (List.range (taken.length + 1)).map fun i => s!"{base}{i + 1}" with hnames
  -- Were one of the candidates free, a free one would be chosen.
  have hsub : names ⊆ taken := by
    intro name hname
    by_contra hfree
    have hsome : ((base :: names).find? fun n => !taken.contains n).isSome = true := by
      rw [List.find?_isSome]
      exact ⟨name, List.mem_cons_of_mem _ hname, by simpa using hfree⟩
    obtain ⟨found, hfound⟩ := Option.isSome_iff_exists.mp hsome
    have hout := List.find?_some hfound
    rw [freeName, ← hnames, hfound] at hmem
    simp only [Bool.not_eq_true', List.contains_eq_mem, decide_eq_false_iff_not] at hout
    exact hout hmem
  have hnodup : names.Nodup := by
    refine List.Nodup.map (fun i j hij => ?_) List.nodup_range
    have hrepr : (i + 1).repr = (j + 1).repr := by simpa using hij
    exact Nat.succ.inj (Nat.repr_inj.mp hrepr)
  have hlen := (hnodup.subperm hsub).length_le
  rw [hnames, List.length_map, List.length_range] at hlen
  omega

theorem Yields.unique {α : Type} {d : Demands} {P : α → Prop} {base : String} {f : String → Edit α}
    (h : ∀ name, name ∉ d.taken → Yields d.Kept (f name) P) :
    Yields d.Kept (Edit.uniqueName base >>= f) P := by
  intro s hs
  refine h _ (fun hmem => Edit.freeName_not_mem base s.taken (hs hmem)) _ ?_
  exact List.Subset.trans hs (List.subset_cons_self _ _)

namespace TailCalls

/-- The bodies of functions may also stand behind labels that are not in use. -/
def demands (used : List String) : Demands where
  body cx := cx = .function ∨ ∃ label, label ∉ used ∧ cx = { inFunction := true, labels := [label] }
  taken := used

/-- There is a loop around that the tail calls go back to. -/
def jumpDemands (used : List String) (label : String) : Demands where
  loops := [label]
  taken := used

variable {d : Demands} {scopes : ScopeTree}

theorem yields_assignStmt (name : String) {value : Expr} (h : AllLegal (value.nodes true)) :
    Yields d.Kept (assignStmt name value) Make.Free :=
  (Make.yields_assign name h).bind fun _ he => Make.yields_expr he

theorem yields_passArgs (params : List (String × VarId)) {args : List Expr}
    (h : ∀ arg ∈ args, AllLegal (arg.nodes true)) :
    Yields d.Kept (passArgs scopes params args) fun r => ∀ s ∈ r.1 ++ r.2, Make.Free s := by
  have hrest (params : List (String × VarId)) :
      Yields d.Kept (passArgs scopes params []) fun r => ∀ s ∈ r.1 ++ r.2, Make.Free s := by
    rw [passArgs]
    refine (Yields.mapM fun x _ => ?_).bind fun last hlast => .pure hlast.2
    exact Make.yields_undefined.bind fun _ he => yields_assignStmt x.1 he
  induction params generalizing args with
  | nil =>
    cases args with
    | nil => exact hrest []
    | cons arg args => exact .pure (List.forall_mem_nil _)
  | cons x params ih =>
    obtain ⟨name, v⟩ := x
    cases args with
    | nil => exact hrest _
    | cons arg args =>
      obtain ⟨harg, hargs⟩ := List.forall_mem_cons.mp h
      rw [passArgs]
      split
      · refine .unique fun temp _ => (Make.yields_declare temp harg).bind fun held hheld =>
          (ih hargs).bind fun r hr => .named fun id => ?_
        refine (yields_assignStmt name (by simp)).bind fun store hstore => .pure ?_
        simp only [List.forall_mem_append, List.forall_mem_cons] at hr ⊢
        exact ⟨⟨hheld, hr.1⟩, hstore, hr.2⟩
      · split
        · exact ih hargs
        · refine (yields_assignStmt name harg).bind fun store hstore =>
            (ih hargs).bind fun r hr => .pure ?_
          exact List.forall_mem_cons.mpr ⟨hstore, hr⟩

/-- What takes the place of a tail call goes back to the loop. -/
theorem Target.yields_jump (t : Target) (label : String) {args : List Expr}
    (h : ∀ arg ∈ args, AllLegal (arg.nodes true)) :
    Yields d.Kept (t.jump scopes label args) fun ss => AllLegal (stmtNodes true ss) ∧
      ∀ cx, label ∈ cx.loops → allPlaced cx ss = true := by
  refine (yields_passArgs t.params h).bind fun r hr => .new fun id => .named fun id' => .pure ⟨?_, ?_⟩
  · rw [allLegal_stmtNodes, List.forall_mem_append]
    exact ⟨fun s hs => (hr s hs).legal, by simp⟩
  · intro cx hcx
    rw [allPlaced_iff, List.forall_mem_append]
    exact ⟨fun s hs => (hr s hs).placed cx,
      List.forall_mem_singleton.mpr (List.contains_iff_mem.mpr hcx)⟩

theorem Target.legal_of_args? {t : Target} {s : Stmt} {args : List Expr}
    (h : t.args? scopes s = some args) (hs : AllLegal (s.nodes true)) :
    ∀ arg ∈ args, AllLegal (arg.nodes true) := by
  unfold Target.args? at h
  split at h
  · split at h <;> cases h
    have hcall := (allLegal_cons.mp (allLegal_cons.mp hs).2).2
    exact InlineFunctions.allLegal_exprNodes.mp (allLegal_append.mp hcall).2
  · cases h

theorem Target.keepsLegal_jumps (t : Target) (scopes : ScopeTree) (used : List String)
    (label : String) : (t.jumps scopes label).KeepsLegal (jumpDemands used label) where
  expr _ _ h := .pure h
  target _ _ _ _ _ h := .pure h
  stmt place before after h := by
    unfold Target.jumps
    dsimp only
    split
    · exact yields_stmt h
    · rename_i args hargs
      refine (t.yields_jump label (Target.legal_of_args? hargs h)).bind fun ss hss => ?_
      split
      · exact .pure ⟨hss.1, fun cx hcx _ => .inr (hss.2 _ (hcx List.mem_cons_self))⟩
      · refine (Make.yields_block ss hss.1).bind fun b hb => .pure ⟨by simpa using hb.1, ?_⟩
        exact fun cx hcx _ => .single (hb.2 cx (hss.2 _ (hcx List.mem_cons_self)))
  list _ _ h := yields_list h
  func _ h hplaced := yields_func h (hplaced _ rfl)
  enters := nofun

/-- The end of a loop in a function. -/
theorem yields_endLoop {ss : List Stmt} (h : AllLegal (stmtNodes true ss)) :
    Yields d.Kept (endLoop ss) fun xs => AllLegal (stmtNodes true xs) ∧
      ∀ cx, cx.inFunction = true → allPlaced cx ss = true → allPlaced cx xs = true := by
  unfold endLoop
  split
  · exact .pure ⟨h, fun _ _ hss => hss⟩
  · refine .new fun id => .pure ⟨?_, fun cx hcx hss => ?_⟩
    · rw [allLegal_stmtNodes, List.forall_mem_append, ← allLegal_stmtNodes]
      exact ⟨h, by simp⟩
    · rw [allPlaced_iff, List.forall_mem_append, ← allPlaced_iff]
      exact ⟨hss, List.forall_mem_singleton.mpr hcx⟩

theorem Target.yields_loop (t : Target) (scopes : ScopeTree) {used : List String} {f : Func}
    (h : AllLegal (f.body.nodes true))
    (hplaced : ∀ cx, (demands used).body cx → f.body.isPlaced cx = true) :
    Yields (demands used).Kept (t.loop scopes f) fun g =>
      AllLegal (g.nodes true) ∧ g.params.length = f.params.length := by
  obtain ⟨fid, params, ⟨bodyId, stmts⟩⟩ := f
  refine .unique fun label hlabel => ?_
  have hmeets : AllMeet (jumpDemands used label) (stmtNodes true stmts) :=
    AllLegal.meets h (fun _ _ _ _ => trivial) fun _ h => h
  -- The body may stand in the new loop, because it may stand behind the label.
  set around := (Surroundings.function.labeled label).loop
  have hbody : allPlaced around stmts = true := by
    have hbehind : allPlaced { inFunction := true, labels := [label] } stmts = true :=
      hplaced _ (.inr ⟨label, hlabel, rfl⟩)
    have hwithin : Surroundings.Within { inFunction := true, labels := [label] } True around :=
      ⟨fun h => h, nofun, fun _ => List.Subset.refl _, fun _ => List.nil_subset _, fun _ => .inl rfl⟩
    exact allPlaced_mono stmts hwithin (fun _ _ => ⟨fun _ => trivial, fun _ _ _ _ h => h⟩) hbehind
  refine ((t.keepsLegal_jumps scopes used label).onStmts stmts hmeets).bind fun ss hss =>
    (yields_endLoop hss.1).bind fun xs hxs => .new fun id₁ => .new fun id₂ =>
      (Make.yields_block xs hxs.1).bind fun b hb => .new fun id₃ => .named fun id₄ =>
        .pure ⟨allLegal_cons.mpr ⟨?_, allLegal_append.mpr ⟨allLegal_names _, ?_⟩⟩, rfl⟩
  · have hxs := hxs.2 around rfl (hss.2 around rfl (List.Subset.refl _) hbody)
    have hloop : b.isPlaced around = true := hb.2 around hxs
    change ((!([] : List String).contains label && b.isPlaced around) && true) = true
    rw [hloop]
    rfl
  · simpa using hb.1

theorem keepsLegal_transform (scopes : ScopeTree) (used : List String) :
    (transform scopes).KeepsLegal (demands used) where
  expr _ _ h := .pure h
  target _ _ _ _ _ h := .pure h
  stmt _ _ _ h := yields_stmt h
  list _ _ h := yields_list h
  func f h hplaced := by
    unfold transform
    dsimp only
    split
    · exact yields_func h (hplaced _ (.inl rfl))
    · exact .changed (Target.yields_loop _ scopes h hplaced)
  enters _ cx hcx := by
    rcases hcx with rfl | ⟨label, -, rfl⟩ <;> exact ⟨rfl, List.nil_subset _⟩

/-- No function of a program has a label on the names that the program does not use. -/
theorem meets_demands {p : Program} (h : AllLegal p.nodes) :
    AllMeet (demands p.usedNames) p.nodes := by
  refine fun n hn => ⟨h n hn, fun _ _ => trivial, ?_⟩
  rintro f rfl cx (rfl | ⟨label, hlabel, rfl⟩)
  · exact h _ hn
  · have hwithin : Surroundings.Within .function True { inFunction := true, labels := [label] } :=
      ⟨fun h => h, nofun, fun _ => List.nil_subset _, fun _ => List.nil_subset _, fun _ => .inl rfl⟩
    refine f.body.isPlaced_mono hwithin (fun m hm => ⟨fun _ => trivial, ?_⟩) (h _ hn)
    rintro id name body rfl hmem
    refine absurd ?_ hlabel
    rw [← List.mem_singleton.mp hmem]
    have hin : .stmt (.labeled id name body) ∈ p.nodes := by
      refine Program.nodes_of_function (List.mem_filterMap.mpr ⟨_, hn, rfl⟩) ?_
      obtain ⟨fid, params, block⟩ := f
      exact List.mem_cons_of_mem _ (List.mem_append_right _ (block.nodes_sublist.subset hm))
    exact List.mem_filterMap.mpr ⟨_, hin, rfl⟩

end TailCalls

/-! ## Whole programs -/

theorem Program.isLegal_iff {p : Program} :
    p.isLegal = true ↔ AllLegal p.nodes ∧ allPlaced {} p.body = true := by
  rw [Program.isLegal, Bool.and_eq_true, List.all_eq_true]
  rfl

theorem Transform.KeepsLegal.run {t : Transform} {d : Demands} (h : t.KeepsLegal d) {src : Source}
    (hmeets : AllMeet d src.program.nodes) (hplaced : allPlaced {} src.program.body = true)
    (hloops : d.loops = []) {taken : List String} (htaken : d.taken ⊆ taken) :
    (t.run src taken).1.program.isLegal = true := by
  obtain ⟨⟨id, body⟩, nextId⟩ := src
  have hyields : Yields d.Kept (t.onProgram ⟨id, body⟩) fun p => p.isLegal = true := by
    refine (h.onStmts body hmeets).bind fun ss hss => (h.list true ss hss.1).bind fun xs hxs => ?_
    refine .pure (Program.isLegal_iff.mpr ⟨hxs.1, hxs.2 {} rfl (hss.2 {} rfl ?_ hplaced)⟩)
    rw [hloops]
    exact List.nil_subset _
  exact (hyields ⟨nextId, false, taken⟩ htaken).2

/-- Every pass makes a legal program of a legal one. -/
theorem Source.Numbered.isLegal_pass {src : Source} (h : src.Numbered)
    (hlegal : src.program.isLegal = true) {o : Options} (facts : Facts)
    {pass : Analysis → Source → Source × Bool} (hpass : pass ∈ o.passList) :
    (pass (analyze src.program o facts false) src).1.program.isLegal = true := by
  obtain ⟨hnodes, hplaced⟩ := Program.isLegal_iff.mp hlegal
  have hmeets : AllMeet {} src.program.nodes :=
    hnodes.meets (fun _ _ _ _ => trivial) fun _ h => h
  simp only [Options.passList, List.mem_cons, List.not_mem_nil, or_false] at hpass
  rcases hpass with rfl | rfl | rfl | rfl | rfl | rfl | rfl
  · exact (DeadBranches.keepsLegal_transform _).run hmeets hplaced rfl (List.nil_subset _)
  · refine (FoldConstants.keepsLegal_transform _).run (hnodes.meets ?_ fun _ h => h) hplaced rfl
      (List.nil_subset _)
    intro n hn e he
    have hnone := factsOf_assigned h.nodup hn he o facts false
    simp only [FoldConstants.demands, Analysis.constant?, Analysis.pureValue?, hnone]
    rfl
  · exact (InlineFunctions.keepsLegal_transform (scopes_analyze ..) h.nodup hnodes).run hmeets hplaced
      rfl (List.nil_subset _)
  · exact (TailCalls.keepsLegal_transform _ _).run (TailCalls.meets_demands hnodes) hplaced rfl
      (List.Subset.refl _)
  · exact (UnrollLoops.keepsLegal_transform _).run hmeets hplaced rfl (List.nil_subset _)
  · exact (RemoveUnused.keepsLegal_transform _).run hmeets hplaced rfl (List.nil_subset _)
  · exact (SimplifyBlocks.keepsLegal_transform _).run hmeets hplaced rfl (List.nil_subset _)

theorem Source.Numbered.isLegal_optimizeFrom {src : Source} (h : src.Numbered)
    (hlegal : src.program.isLegal = true) (options : Options) (rounds : Nat) (facts : Facts) :
    (src.optimizeFrom options rounds facts).1.program.isLegal = true := by
  refine (preserved_by_optimizeFrom (o := options)
    (P := fun src => src.Numbered ∧ src.program.isLegal = true) ?_ rounds facts ⟨h, hlegal⟩).2
  rintro src facts ⟨h, hlegal⟩ pass hpass
  exact ⟨h.pass (scopes_analyze ..) hpass, h.isLegal_pass hlegal facts hpass⟩

/-- What was parsed has ids of its own and no holes. -/
theorem numbered_of_parse {text : String} {src : Source} (h : parse text = .ok src) :
    src.Numbered := by
  have hstock := (legal_of_parse h).2
  have hcount (i : Nat) : src.program.ids.count i ≤ Tally.new 0 src.nextId (some i) := by
    have := hstock (some i)
    rwa [stock, supplied_none_some, Tally.ids_some] at this
  refine ⟨List.nodup_iff_count_le_one.mpr fun (i : Nat) => ?_, fun (i : Nat) hi => ?_, ?_⟩
  · exact Nat.le_trans (hcount i) (Tally.new_le_one _ _ _)
  · have hle := Nat.le_trans (List.count_pos_iff.mpr hi) (hcount i)
    rw [Tally.new] at hle
    split at hle
    · rename_i hnew
      exact hnew.2
    · cases hle
  · refine supplied_none_eq_zero.mp ?_
    have := hstock none
    rw [stock, Tally.ids_none, Nat.zero_add] at this
    exact Nat.le_zero.mp this

/-- Whatever text is parsed and whatever the options, the optimizer leaves a program that is as the
grammar asks: only what can be assigned to is assigned to, jumps, labels and `return` stand where they
may, and nothing that has to have parts is left without. -/
theorem isLegal_optimize_of_parse {text : String} {src : Source} (h : parse text = .ok src)
    (options : Options) : (src.optimize options).1.program.isLegal = true := by
  have hlegal := (legal_of_parse h).1
  unfold Source.optimize
  split
  · exact hlegal
  · exact (numbered_of_parse h).isLegal_optimizeFrom hlegal options _ _

/-- A tail call and a labeled jump, which the passes turn into a loop and look through. -/
def countdown : String :=
  "function f(n) \x7b if (n) return f(n - 1); return 0; \x7d a: for (k in o) continue a;"

theorem isLegal_optimize_countdown : ∃ src, parse countdown = .ok src ∧
    (src.optimize .trusting).1.program.isLegal = true := by
  have hparses : (parse countdown).toOption.isSome = true := by decide +kernel
  cases h : parse countdown with
  | error e =>
    rw [h] at hparses
    cases hparses
  | ok src => exact ⟨src, rfl, isLegal_optimize_of_parse h .trusting⟩

end EsOptimizer
