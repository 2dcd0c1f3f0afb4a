import EsOptimizer.Proofs.Pass.Unique
import EsOptimizer.Proofs.Rewrite.Carries
import Mathlib.Data.List.Forall2

/-!
# Simple lists run alike

What is dropped from a list of statements has no effect on runs: nothing behind a statement that
leaves the list runs, an expression that is known to be pure changes no variable, and a block runs as
its members do. Names that are declared in what is dropped are declared again.
-/

namespace EsOptimizer

open Run

namespace SimplifyBlocks

variable {a : Analysis} {b : Basis} {inner : List String}

/-! ## Members -/

/-- A list with some of its members simplified. -/
inductive Simplifies (a : Analysis) : List Stmt → List Stmt → Prop where
  | nil : Simplifies a [] []
  | keep (s : Stmt) {rest xs : List Stmt} (h : Simplifies a rest xs) :
    Simplifies a (s :: rest) (s :: xs)
  | simplify {s : Stmt} {ss rest xs : List Stmt} (hs : simplified? a s = some ss)
    (h : Simplifies a rest xs) : Simplifies a (s :: rest) (ss ++ xs)

theorem simplifies_members (a : Analysis) (ss : List Stmt) :
    Yields b.Fresh (simplifyMembers a ss) (Simplifies a ss) := by
  induction ss with
  | nil => exact .pure .nil
  | cons s rest ih =>
    rw [simplifyMembers]
    split
    · exact ih.bind fun xs hxs => .pure (.keep s hxs)
    · rename_i ss hss
      exact Basis.yields_changed (ih.bind fun xs hxs => .pure (.simplify hss hxs))

theorem Simplifies.append_left {rest xs : List Stmt} (h : Simplifies a rest xs) (kept : List Stmt) :
    Simplifies a (kept ++ rest) (kept ++ xs) := by
  induction kept with
  | nil => exact h
  | cons s kept ih => exact .keep s ih

theorem Simplifies.of_append {ss rest xs : List Stmt} (h : Simplifies a (ss ++ rest) xs) :
    ∃ xs₁ xs₂, xs = xs₁ ++ xs₂ ∧ Simplifies a ss xs₁ ∧ Simplifies a rest xs₂ := by
  induction ss generalizing xs with
  | nil => exact ⟨[], xs, rfl, .nil, h⟩
  | cons s ss ih =>
    cases h with
    | keep _ h =>
      obtain ⟨xs₁, xs₂, rfl, h₁, h₂⟩ := ih h
      exact ⟨s :: xs₁, xs₂, rfl, .keep s h₁, h₂⟩
    | @simplify _ ts _ _ hs h =>
      obtain ⟨xs₁, xs₂, rfl, h₁, h₂⟩ := ih h
      exact ⟨ts ++ xs₁, xs₂, (List.append_assoc _ _ _).symm, .simplify hs h₁, h₂⟩

theorem exists_of_isPure {node : NodeId} (h : a.isPure node = true) :
    ∃ f, a.nodeFacts[node]? = some f ∧ f.pure = true := by
  rw [Analysis.isPure, Analysis.factsOf] at h
  cases hf : a.nodeFacts[node]? with
  | none => simp [hf] at h
  | some f => exact ⟨f, rfl, by simpa [hf] using h⟩

/-- What is left of a statement may take its place. -/
theorem stands_simplified (hfacts : b.facts = a.nodeFacts) {s s' : Stmt}
    (h : s.SameShape b inner s') {ss : List Stmt} (hs : simplified? a s' = some ss) :
    StmtsStand b inner [s] ss := by
  cases h with
  | empty id =>
    cases hs
    refine ⟨fun n cx _ _ _ => ?_, fun x => by simp [stmtNodes, Stmt.nodes, Node.varNames]⟩
    rw [execAll_singleton]
    exact .pure .normal
  | @expr id e e' he =>
    rw [simplified?, Option.ite_none_right_eq_some] at hs
    obtain ⟨hpure, hs⟩ := hs
    cases hs
    refine ⟨fun n cx _ _ _ => ?_, fun x => by simp [stmtNodes, Stmt.nodes, Node.varNames]⟩
    obtain ⟨f, hf, hpure⟩ := exists_of_isPure hpure
    rw [execAll_singleton]
    intro w w' hagree hexplained
    have hunchanged := (he.known w hexplained f (by rw [hfacts, hf])).2 hpure
    refine ⟨.normal, ?_⟩
    change Env.Agree b.named inner (e.eval w).2.env w'.env
    rwa [hunchanged]
  | @block id ss₀ ss₀' hblock =>
    rw [simplified?, Option.ite_none_left_eq_some] at hs
    cases hs.2
    refine ⟨fun n cx hcx hown hplaced => ?_, fun x => ?_⟩
    · rw [allPlaced, allPlaced, Bool.and_true] at hplaced
      rw [execAll_singleton]
      exact hblock.exec n cx.inside hcx.inside rfl hplaced
    · simpa [stmtNodes, Stmt.nodes, Block.nodes, Node.varNames] using hblock.names x
  | _ => cases hs

theorem Simplifies.stands (hfacts : b.facts = a.nodeFacts) {ss ss' xs : List Stmt}
    (h : List.Forall₂ (Stmt.SameShape b inner) ss ss') (hxs : Simplifies a ss' xs) :
    StmtsStand b inner ss xs := by
  induction h generalizing xs with
  | nil =>
    cases hxs
    exact .nil
  | cons hs _ ih =>
    cases hxs with
    | keep _ hxs => exact hs.stands.single.append (ih hxs)
    | simplify hsimple hxs => exact (stands_simplified hfacts hs hsimple).append (ih hxs)

/-! ## Statements that are not reached -/

/-- Nothing behind what leaves the list matters, except for the names that it declares. -/
theorem stands_cut {reached reached' xs unreached rest : List Stmt}
    (hreached : StmtsStand b inner reached reached') (habrupt : anyAbrupt reached' = true)
    (hxs : StmtsStand b inner reached xs)
    (hnames : ∀ x, Declares (stmtNodes false rest) x ↔ Declares (stmtNodes false unreached) x) :
    StmtsStand b inner (reached ++ unreached) (xs ++ rest) where
  exec n cx hcx hown hplaced := by
    rw [allPlaced_iff, List.forall_mem_append, ← allPlaced_iff, ← allPlaced_iff] at hplaced
    rw [execAll_append, execAll_append]
    intro w w' hagree hexplained
    have hfirst : b.Explained (execAll n reached w).2 := fun ev hev =>
      hexplained ev (Extends.ite (extends_execAll n unreached) (.pure _) _ hev)
    have hne : (execAll n reached w).1 ≠ .normal := fun hnormal =>
      execAll_ne_normal reached' habrupt n w'
        ((hreached.exec n cx hcx hown hplaced.1 w w' hagree hfirst).1.eq_normal_iff.mp hnormal)
    obtain ⟨halike, hagree'⟩ := hxs.exec n cx hcx hown hplaced.1 w w' hagree hfirst
    rw [andThen_of_ne_normal hne,
      andThen_of_ne_normal fun hnormal => hne (halike.eq_normal_iff.mpr hnormal)]
    exact ⟨halike, hagree'⟩
  names x := by
    rw [declares_stmtNodes_append, declares_stmtNodes_append, hxs.names x, hnames x]

theorem anyAbrupt_cut {ss : List Stmt} (h : (cut ss).2 ≠ []) : anyAbrupt (cut ss).1 = true := by
  induction ss with
  | nil => exact absurd rfl h
  | cons s rest ih =>
    rw [cut] at h ⊢
    split at h
    · rename_i habrupt
      rw [if_pos habrupt, anyAbrupt, habrupt, Bool.true_or]
    · rename_i habrupt
      rw [if_neg habrupt, anyAbrupt, ih h, Bool.or_true]

/-- Where no functions are declared, only the names of variables are left. -/
theorem hoisted_onlyDeclares {ss : List Stmt} (h : ∀ s ∈ ss, isFunction s = false) :
    Yields b.Fresh (hoisted ss) fun xs => (∀ s ∈ xs, ∃ names, s.OnlyDeclares names) ∧
      ∀ x, Declares (stmtNodes false xs) x ↔ Declares (stmtNodes false ss) x := by
  have hfunctions : ss.filter isFunction = [] := by
    rw [List.filter_eq_nil_iff]
    exact fun s hs => by simp [h s hs]
  have hothers : ss.filter (!isFunction ·) = ss := by
    rw [List.filter_eq_self]
    exact fun s hs => by simp [h s hs]
  have hnames (x : String) : x ∈ (ss.flatMap fun s => s.varNames.map (·.name)) ↔
      Declares (stmtNodes false ss) x := by
    rw [declares_stmtNodes, List.mem_flatMap]
    simp only [declares_iff, Stmt.varNames]
  unfold hoisted
  simp only [hfunctions, hothers]
  split
  · rename_i hempty
    refine .pure ⟨List.forall_mem_nil _, fun x => ?_⟩
    rw [← hnames x, List.isEmpty_iff.mp hempty]
    simp [stmtNodes]
  · refine (Make.vars_onlyDeclares _).bind fun s hs => .pure ⟨fun t ht => ?_, fun x => ?_⟩
    · cases List.mem_singleton.mp ht
      exact ⟨_, hs⟩
    · rw [← hnames x, ← hs.declares x]
      simp [stmtNodes]

theorem Simplifies.eq_of_onlyDeclares {ss xs : List Stmt} (h : Simplifies a ss xs)
    (hss : ∀ s ∈ ss, ∃ names, s.OnlyDeclares names) : xs = ss := by
  induction h with
  | nil => rfl
  | keep s _ ih => rw [ih (List.forall_mem_cons.mp hss).2]
  | simplify hs _ _ =>
    obtain ⟨names, hdeclares⟩ := (List.forall_mem_cons.mp hss).1
    cases hdeclares
    cases hs

theorem isFunction_eq_false {ss ss' : List Stmt} (h : List.Forall₂ (Stmt.SameShape b inner) ss ss') :
    ∀ s ∈ ss', isFunction s = false := by
  induction h with
  | nil => exact List.forall_mem_nil _
  | cons hs _ ih => exact List.forall_mem_cons.mpr ⟨by cases hs <;> rfl, ih⟩

/-! ## The pass -/

/-- The directives that a list begins with stay. -/
theorem simplifies_behind_directives (a : Analysis) (ss : List Stmt) :
    Yields b.Fresh (do
      let (directives, rest) := ss.span Stmt.isDirective
      return directives ++ (← simplifyMembers a rest)) (Simplifies a ss) := by
  rw [List.span_eq_takeWhile_dropWhile]
  refine (simplifies_members a _).bind fun xs hxs => .pure ?_
  have hkept := hxs.append_left (ss.takeWhile Stmt.isDirective)
  rwa [List.takeWhile_append_dropWhile] at hkept

/-- Dropping what is not reached, and then simplifying members. -/
theorem stands_dropUnreached (hfacts : b.facts = a.nodeFacts) {ss ss' : List Stmt}
    (h : List.Forall₂ (Stmt.SameShape b inner) ss ss') :
    Yields b.Fresh (dropUnreached ss') fun ts => ∀ xs, Simplifies a ts xs →
      StmtsStand b inner ss xs := by
  unfold dropUnreached
  change Yields _ (if ((cut ss').2.all isHoistedOnly || (cut ss').2.any mustStay) = true then _ else _) _
  split
  · exact .pure fun xs hxs => hxs.stands hfacts h
  · rename_i hdrop
    have hne : (cut ss').2 ≠ [] := fun hnil => hdrop (by simp [hnil])
    have happend := cut_append ss'
    have habrupt := anyAbrupt_cut hne
    generalize (cut ss').1 = reached', (cut ss').2 = unreached' at happend habrupt ⊢
    subst happend
    have hreached := List.forall₂_take_append _ _ _ h
    have hunreached := List.forall₂_drop_append _ _ _ h
    have hsplit := List.take_append_drop reached'.length ss
    generalize ss.take _ = reached, ss.drop _ = unreached at hreached hunreached hsplit
    subst hsplit
    refine Basis.yields_changed ((hoisted_onlyDeclares (isFunction_eq_false hunreached)).bind
      fun rest hrest => .pure fun xs hxs => ?_)
    obtain ⟨xs₁, xs₂, rfl, h₁, h₂⟩ := hxs.of_append
    rw [h₂.eq_of_onlyDeclares hrest.1]
    have hmembers {ts ts' : List Stmt} (hts : List.Forall₂ (Stmt.SameShape b inner) ts ts') :
        StmtsStand b inner ts ts' := .of_members (hts.imp fun _ _ hs => hs.stands)
    refine stands_cut (hmembers hreached) habrupt (h₁.stands hfacts hreached) fun x => ?_
    rw [hrest.2 x, (hmembers hunreached).names x]

theorem preserves (hfacts : b.facts = a.nodeFacts) :
    (transform a).Preserves b fun inner s s' => s.SameShape b inner s' where
  entersFunctions := rfl
  entersValues _ := rfl
  target _ := rfl
  expr inner e e' h := .pure h.stands
  stmt inner place s s' h := .pure ⟨s', rfl, h⟩
  stands _ _ _ h := h.stands
  list inner isBody ss ss' h := by
    refine (stands_dropUnreached hfacts h).bind fun ts hts => ?_
    split
    · exact (simplifies_behind_directives a ts).imp hts
    · exact (simplifies_members a ts).imp hts
  func _ := rfl

/-! ### Functions -/

theorem hoisted_mem (ss : List Stmt) :
    Yields b.Fresh (hoisted ss) fun xs => ∀ s ∈ xs, s ∈ ss ∨ ∃ names, s.OnlyDeclares names := by
  have hfunctions : ∀ s ∈ ss.filter isFunction, s ∈ ss ∨ ∃ names, s.OnlyDeclares names :=
    fun s hs => .inl (List.mem_of_mem_filter hs)
  unfold hoisted
  dsimp only
  split
  · exact .pure hfunctions
  · refine (Make.vars_onlyDeclares _).bind fun s hs => .pure ?_
    exact List.forall_mem_append.mpr ⟨hfunctions, List.forall_mem_singleton.mpr (.inr ⟨_, hs⟩)⟩

theorem dropUnreached_mem (ss : List Stmt) :
    Yields b.Fresh (dropUnreached ss) fun xs =>
      ∀ s ∈ xs, s ∈ ss ∨ ∃ names, s.OnlyDeclares names := by
  unfold dropUnreached
  change Yields _ (if ((cut ss).2.all isHoistedOnly || (cut ss).2.any mustStay) = true then _ else _) _
  have hcut := cut_append ss
  split
  · exact .pure fun s hs => .inl hs
  · refine Basis.yields_changed ((hoisted_mem _).bind fun xs hxs => .pure ?_)
    refine List.forall_mem_append.mpr ⟨fun s hs => .inl ?_, fun s hs => (hxs s hs).imp_left fun h => ?_⟩
    · exact hcut ▸ List.mem_append_left _ hs
    · exact hcut ▸ List.mem_append_right _ h

theorem Simplifies.allFuncs {P : Func → Prop} {ss xs : List Stmt} (h : Simplifies a ss xs)
    (hss : AllFuncs P (stmtNodes true ss)) : AllFuncs P (stmtNodes true xs) := by
  induction h with
  | nil => exact hss
  | keep s _ ih =>
    obtain ⟨hs, hrest⟩ := allFuncs_append.mp hss
    exact allFuncs_append.mpr ⟨hs, ih hrest⟩
  | @simplify s ss rest xs hs _ ih =>
    obtain ⟨hs', hrest⟩ := allFuncs_append.mp hss
    refine allFuncs_stmtNodes.mpr (List.forall_mem_append.mpr
      ⟨allFuncs_stmtNodes.mp ?_, allFuncs_stmtNodes.mp (ih hrest)⟩)
    cases s with
    | empty id =>
      cases hs
      exact allFuncs_nil
    | expr id e =>
      cases (Option.ite_none_right_eq_some.mp hs).2
      exact allFuncs_nil
    | block c =>
      obtain ⟨id, ts⟩ := c
      cases (Option.ite_none_left_eq_some.mp hs).2
      exact (allFuncs_stmt _).mp hs'
    | _ => cases hs

theorem Simplifies.declares_function {id : NodeId} {name : Ident} {f : Func} {ss xs : List Stmt}
    (h : Simplifies a ss xs) (hf : .function id name f ∈ ss) : .function id name f ∈ xs := by
  induction h with
  | nil => exact hf
  | keep s _ ih =>
    rcases List.mem_cons.mp hf with rfl | hf
    · exact List.mem_cons_self
    · exact List.mem_cons_of_mem _ (ih hf)
  | simplify hs _ ih =>
    rcases List.mem_cons.mp hf with rfl | hf
    · cases hs
    · exact List.mem_append_right _ (ih hf)

theorem dropUnreached_declares {id : NodeId} {name : Ident} {f : Func} {ss : List Stmt}
    (hf : .function id name f ∈ ss) :
    Yields b.Fresh (dropUnreached ss) (.function id name f ∈ ·) := by
  unfold dropUnreached
  change Yields _ (if ((cut ss).2.all isHoistedOnly || (cut ss).2.any mustStay) = true then _ else _) _
  rw [← cut_append ss, List.mem_append] at hf
  split
  · exact .pure (cut_append ss ▸ List.mem_append.mpr hf)
  · have hhoisted : Yields b.Fresh (hoisted (cut ss).2) fun xs =>
        .function id name f ∈ (cut ss).2 → .function id name f ∈ xs := by
      unfold hoisted
      dsimp only
      split
      · exact .pure fun h => List.mem_filter.mpr ⟨h, rfl⟩
      · exact (Make.vars_onlyDeclares _).bind fun s _ =>
          .pure fun h => List.mem_append_left _ (List.mem_filter.mpr ⟨h, rfl⟩)
    exact Basis.yields_changed (hhoisted.bind fun xs hxs =>
      .pure (List.mem_append.mpr (hf.imp_right hxs)))

theorem carries : (transform a).Carries b where
  expr P role e h := .pure h
  stmt P place before after h := .pure (by simpa [stmtNodes] using h)
  list P isBody ss h := by
    refine (dropUnreached_mem ss).bind fun ts hts => ?_
    have hfuncs : AllFuncs P (stmtNodes true ts) := allFuncs_stmtNodes.mpr fun s hs => by
      obtain hs | ⟨names, hs⟩ := hts s hs
      · exact allFuncs_stmtNodes.mp h s hs
      · exact hs.allFuncs
    split
    · exact (simplifies_behind_directives a ts).imp fun xs hxs => hxs.allFuncs hfuncs
    · exact (simplifies_members a ts).imp fun xs hxs => hxs.allFuncs hfuncs
  func _ := rfl
  declaration _ _ _ _ _ := rfl
  declarations isBody ss id name f h := by
    refine (dropUnreached_declares h).bind fun ts hts => ?_
    split
    · exact (simplifies_behind_directives a ts).imp fun xs hxs => hxs.declares_function hts
    · exact (simplifies_members a ts).imp fun xs hxs => hxs.declares_function hts

end SimplifyBlocks

end EsOptimizer
