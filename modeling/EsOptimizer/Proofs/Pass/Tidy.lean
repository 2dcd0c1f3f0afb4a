import EsOptimizer.Proofs.Pass.Lists
import EsOptimizer.Proofs.Rewrite.Hoisted
import Mathlib.Data.List.TakeWhile

/-!
# Tidy lists

Simplifying the lists of a program once leaves nothing to simplify (`simplifyBlocks_again`). What
there is nothing left to do about is a list that is `Tidy`: no member is empty, an expression without
effects or a block without declarations of its own, and what stands behind a statement that leaves
the list is there for what it declares. A program is left alone exactly if all its lists are tidy
(`simplifyBlocks_eq_self_iff`), and all lists are tidy afterwards (`isTidy_simplifyBlocks`).

A list is simplified when the lists inside its members are tidy already. That is why dissolving a
block brings nothing new into the list around it: the members of a tidy block are as they should be,
and where it held a statement that leaves the list, what is behind that statement in the block stays
for the same reason as before (`settled_cut_flatMap`).
-/

namespace EsOptimizer

namespace SimplifyBlocks

variable {a : Analysis} {isBody : Bool} {s : Stmt} {ss xs ys : List Stmt}

/-- The members of a list that are no directives of a body. -/
def members (isBody : Bool) (ss : List Stmt) : List Stmt :=
  if isBody then ss.dropWhile Stmt.isDirective else ss

/-- Statements that are not reached stay if they only declare, or if one of them has to stay. -/
def Settled (ss : List Stmt) : Prop :=
  (∀ s ∈ ss, isHoistedOnly s = true) ∨ ∃ s ∈ ss, mustStay s = true

/-- A list in which nothing is left to simplify. -/
structure Tidy (a : Analysis) (isBody : Bool) (ss : List Stmt) : Prop where
  not_empty : ∀ id, .empty id ∉ members isBody ss
  not_pure : ∀ id e, .expr id e ∈ members isBody ss → a.isPure e.id = false
  not_plain : ∀ id inner, .block ⟨id, inner⟩ ∈ members isBody ss →
    ∃ s ∈ inner, s.declaresBlockScoped = true
  /-- What stands behind the first statement that leaves the list. -/
  unreached : ∀ before s after, ss = before ++ s :: after → anyAbrupt before = false →
    s.isAbrupt = true → Settled after

end SimplifyBlocks

/-- Nothing is left to simplify in any list of the program. -/
def Program.IsTidy (a : Analysis) (p : Program) : Prop :=
  ∀ l ∈ p.lists, SimplifyBlocks.Tidy a l.1 l.2

namespace SimplifyBlocks

variable {a : Analysis} {isBody : Bool} {s : Stmt} {ss xs ys : List Stmt}

/-! ## Statements that leave the list -/

theorem cut_cons_of_abrupt (h : s.isAbrupt = true) : cut (s :: ss) = ([s], ss) := by
  rw [cut, if_pos h]

theorem cut_append_of_reached (h : anyAbrupt xs = false) :
    cut (xs ++ ys) = (xs ++ (cut ys).1, (cut ys).2) := by
  induction xs with
  | nil => rfl
  | cons x xs ih =>
    rw [anyAbrupt, Bool.or_eq_false_iff] at h
    rw [List.cons_append, cut, if_neg (by simp [h.1]), ih h.2]
    rfl

theorem cut_append_of_abrupt (h : anyAbrupt xs = true) :
    cut (xs ++ ys) = ((cut xs).1, (cut xs).2 ++ ys) := by
  induction xs with
  | nil => cases h
  | cons x xs ih =>
    by_cases hx : x.isAbrupt = true
    · rw [List.cons_append, cut_cons_of_abrupt hx, cut_cons_of_abrupt hx]
    · have hxs : anyAbrupt xs = true := by simpa [anyAbrupt, hx] using h
      rw [List.cons_append, cut, cut, if_neg hx, if_neg hx, ih hxs]

/-- Where a list is cut. -/
theorem cut_cases (ss : List Stmt) : anyAbrupt ss = false ∧ cut ss = (ss, []) ∨
    ∃ before s after, ss = before ++ s :: after ∧ anyAbrupt before = false ∧ s.isAbrupt = true ∧
      cut ss = (before ++ [s], after) := by
  induction ss with
  | nil => exact .inl ⟨rfl, rfl⟩
  | cons s rest ih =>
    by_cases hs : s.isAbrupt = true
    · exact .inr ⟨[], s, rest, rfl, rfl, hs, cut_cons_of_abrupt hs⟩
    · rcases ih with ⟨hrest, hcut⟩ | ⟨before, x, after, rfl, hbefore, hx, hcut⟩
      · refine .inl ⟨by simp [anyAbrupt, hs, hrest], ?_⟩
        rw [cut, if_neg hs, hcut]
      · refine .inr ⟨s :: before, x, after, rfl, by simp [anyAbrupt, hs, hbefore], hx, ?_⟩
        rw [cut, if_neg hs, hcut]
        rfl

/-- The cut of a list says what stands behind the first statement that leaves it. -/
theorem settled_cut_iff : Settled (cut ss).2 ↔ ∀ before s after, ss = before ++ s :: after →
    anyAbrupt before = false → s.isAbrupt = true → Settled after := by
  constructor
  · rintro h before s after rfl hbefore hs
    rwa [cut_append_of_reached hbefore, cut_cons_of_abrupt hs] at h
  · intro h
    rcases cut_cases ss with ⟨-, hcut⟩ | ⟨before, s, after, hss, hbefore, hs, hcut⟩
    · rw [hcut]
      exact .inl nofun
    · rw [hcut]
      exact h before s after hss hbefore hs

theorem Settled.append (hxs : Settled xs) (hys : Settled ys) : Settled (xs ++ ys) := by
  rcases hxs with hxs | ⟨s, hs, hstay⟩
  · rcases hys with hys | ⟨s, hs, hstay⟩
    · exact .inl (List.forall_mem_append.mpr ⟨hxs, hys⟩)
    · exact .inr ⟨s, List.mem_append_right xs hs, hstay⟩
  · exact .inr ⟨s, List.mem_append_left ys hs, hstay⟩

/-! ## Members -/

/-- What is left of a statement in a list. -/
def remains (a : Analysis) (s : Stmt) : List Stmt := (simplified? a s).getD [s]

theorem remains_of_none (h : simplified? a s = none) : remains a s = [s] := by rw [remains, h]; rfl

theorem containsFunctionDecl_expr (id : NodeId) (e : Expr) :
    (Stmt.expr id e).containsFunctionDecl = false := by
  rw [Stmt.containsFunctionDecl, Stmt.nodes, List.any_cons, Bool.or_eq_false_iff]
  refine ⟨rfl, List.any_eq_false.mpr ?_⟩
  exact e.forall_nodes (fun _ h => by cases h) (fun _ h => by cases h) (fun _ h => by cases h)

theorem containsFunctionDecl_block (id : NodeId) (xs : List Stmt) :
    (Stmt.block ⟨id, xs⟩).containsFunctionDecl = xs.any Stmt.containsFunctionDecl := by
  have hmembers : (stmtNodes false xs).any Node.isFunctionDecl =
      xs.any Stmt.containsFunctionDecl := by
    induction xs with
    | nil => rfl
    | cons x xs ih =>
      rw [stmtNodes, List.any_append, ih]
      rfl
  rw [Stmt.containsFunctionDecl, Stmt.nodes, List.any_cons, Block.nodes, hmembers]
  rfl

/-- A member that is simplified is gone, or it is a block and its members are left. -/
theorem cases_of_simplified? (h : simplified? a s = some xs) :
    xs = [] ∧ s.isAbrupt = false ∧ mustStay s = false ∧ isHoistedOnly s = false ∨
    ∃ id, s = .block ⟨id, xs⟩ ∧ ∀ x ∈ xs, x.declaresBlockScoped = false := by
  unfold simplified? at h
  split at h
  · cases h
    exact .inl ⟨rfl, rfl, rfl, rfl⟩
  · rename_i id e
    split at h
    · cases h
      exact .inl ⟨rfl, rfl, containsFunctionDecl_expr id e, rfl⟩
    · cases h
  · split at h
    · cases h
    · rename_i hplain
      cases h
      exact .inr ⟨_, rfl, by simpa using hplain⟩
  · cases h

theorem remains_of_isHoistedOnly (h : isHoistedOnly s = true) : remains a s = [s] := by
  cases hs : simplified? a s with
  | none => exact remains_of_none hs
  | some xs =>
    rcases cases_of_simplified? hs with ⟨-, -, -, hnot⟩ | ⟨id, rfl, -⟩
    · rw [h] at hnot
      cases hnot
    · cases h

/-- What keeps a block from going is in the block. -/
theorem exists_mustStay_remains (h : mustStay s = true) : ∃ x ∈ remains a s, mustStay x = true := by
  cases hs : simplified? a s with
  | none => exact ⟨s, by simp [remains_of_none hs], h⟩
  | some xs =>
    rcases cases_of_simplified? hs with ⟨-, -, hnot, -⟩ | ⟨id, rfl, hplain⟩
    · rw [h] at hnot
      cases hnot
    · have hdecl : xs.any Stmt.containsFunctionDecl = true := by
        rw [← containsFunctionDecl_block id]
        exact h
      obtain ⟨x, hx, hxdecl⟩ := List.any_eq_true.mp hdecl
      have hfunction : isFunction x = false := by
        have hscoped := hplain x hx
        cases x with
        | function id name fn => cases hscoped
        | _ => rfl
      refine ⟨x, by simpa [remains, hs] using hx, ?_⟩
      rw [mustStay, hfunction, hxdecl, Bool.or_true]
      rfl

theorem Settled.flatMap_remains (h : Settled ss) : Settled (ss.flatMap (remains a)) := by
  rcases h with hall | ⟨s, hs, hstay⟩
  · have hsame : ss.flatMap (remains a) = ss := by
      rw [List.flatMap_congr fun s hs => remains_of_isHoistedOnly (hall s hs)]
      exact List.flatMap_singleton' ss
    rw [hsame]
    exact .inl hall
  · obtain ⟨x, hx, hstay⟩ := exists_mustStay_remains (a := a) hstay
    exact .inr ⟨x, List.mem_flatMap.mpr ⟨s, hs, hx⟩, hstay⟩

theorem anyAbrupt_remains (h : s.isAbrupt = false) : anyAbrupt (remains a s) = false := by
  cases hs : simplified? a s with
  | none => simp [remains_of_none hs, anyAbrupt, h]
  | some xs =>
    rcases cases_of_simplified? hs with ⟨rfl, -, -, -⟩ | ⟨id, rfl, -⟩
    · simp [remains, hs, anyAbrupt]
    · rw [remains, hs, Option.getD_some]
      exact h

/-- Behind the first statement that leaves a list there is nothing new when its members are
simplified. If that statement is a block, part of what is behind it comes from inside the block. -/
theorem settled_cut_flatMap (hss : Settled (cut ss).2)
    (hblocks : ∀ id inner, .block ⟨id, inner⟩ ∈ ss → Settled (cut inner).2) :
    Settled (cut (ss.flatMap (remains a))).2 := by
  induction ss with
  | nil => exact .inl nofun
  | cons s rest ih =>
    rw [List.flatMap_cons]
    by_cases hs : s.isAbrupt = true
    · rw [cut_cons_of_abrupt hs] at hss
      have hrest := Settled.flatMap_remains (a := a) hss
      cases hsimple : simplified? a s with
      | none =>
        rw [remains_of_none hsimple, List.singleton_append, cut_cons_of_abrupt hs]
        exact hrest
      | some xs =>
        rcases cases_of_simplified? hsimple with ⟨-, hnot, -, -⟩ | ⟨id, rfl, -⟩
        · exact absurd hs (by simp [hnot])
        · have hinner := hblocks id xs List.mem_cons_self
          rw [remains, hsimple, Option.getD_some, cut_append_of_abrupt hs]
          exact hinner.append hrest
    · rw [Bool.not_eq_true] at hs
      rw [cut_append_of_reached (anyAbrupt_remains hs)]
      refine ih ?_ fun id inner hmem => hblocks id inner (List.mem_cons_of_mem s hmem)
      rwa [cut, if_neg (by simp [hs])] at hss

/-! ## Directives -/

/-- The directives that a body begins with. -/
def directives (isBody : Bool) (ss : List Stmt) : List Stmt :=
  if isBody then ss.takeWhile Stmt.isDirective else []

theorem directives_append_members (isBody : Bool) (ss : List Stmt) :
    directives isBody ss ++ members isBody ss = ss := by
  cases isBody
  · rfl
  · exact List.takeWhile_append_dropWhile

theorem anyAbrupt_of_isDirective (h : ∀ s ∈ ss, s.isDirective = true) : anyAbrupt ss = false := by
  induction ss with
  | nil => rfl
  | cons s rest ih =>
    obtain ⟨hs, hrest⟩ := List.forall_mem_cons.mp h
    have hreached : s.isAbrupt = false := by
      cases s with
      | expr id e => rfl
      | _ => cases hs
    rw [anyAbrupt, hreached, ih hrest]
    rfl

theorem isDirective_of_mem (h : s ∈ directives isBody ss) : s.isDirective = true := by
  cases isBody
  · cases h
  · exact List.mem_takeWhile_imp h

theorem settled_cut_members :
    Settled (cut (directives isBody ss ++ xs)).2 ↔ Settled (cut xs).2 := by
  rw [cut_append_of_reached (anyAbrupt_of_isDirective fun _ => isDirective_of_mem)]

/-- What follows the directives is among the members, which may begin with more of them. -/
theorem members_directives_append (isBody : Bool) (ss xs : List Stmt) :
    members isBody (directives isBody ss ++ xs) ⊆ xs := by
  cases isBody
  · exact List.Subset.refl xs
  · have hall : ∀ s ∈ ss.takeWhile Stmt.isDirective, s.isDirective = true :=
      fun _ => List.mem_takeWhile_imp
    change (ss.takeWhile Stmt.isDirective ++ xs).dropWhile Stmt.isDirective ⊆ xs
    rw [List.dropWhile_append_of_pos hall]
    exact (List.dropWhile_sublist _).subset

theorem simplifyList_eq (a : Analysis) (isBody : Bool) (ss : List Stmt) : simplifyList a isBody ss =
    (dropUnreached ss >>= fun xs =>
      simplifyMembers a (members isBody xs) >>= fun ys => pure (directives isBody xs ++ ys)) := by
  unfold simplifyList
  congr 1
  funext xs
  cases isBody
  · simp [members, directives]
  · simp [members, directives, List.span_eq_takeWhile_dropWhile]

/-! ## Tidy lists are left alone -/

theorem Tidy.settled (h : Tidy a isBody ss) : Settled (cut ss).2 := settled_cut_iff.mpr h.unreached

theorem Tidy.simplified?_eq_none (h : Tidy a isBody ss) (hs : s ∈ members isBody ss) :
    simplified? a s = none := by
  cases s with
  | empty id => exact absurd hs (h.not_empty id)
  | expr id e => rw [simplified?, if_neg (by simp [h.not_pure id e hs])]
  | block b =>
    obtain ⟨id, inner⟩ := b
    rw [simplified?, if_pos (List.any_eq_true.mpr (h.not_plain id inner hs))]
  | _ => rfl

theorem simplifyMembers_eq_pure (h : ∀ s ∈ ss, simplified? a s = none) :
    simplifyMembers a ss = pure ss := by
  induction ss with
  | nil => rfl
  | cons s rest ih =>
    obtain ⟨hs, hrest⟩ := List.forall_mem_cons.mp h
    simp [simplifyMembers, hs, ih hrest]

theorem settled_iff : Settled ss ↔ (ss.all isHoistedOnly || ss.any mustStay) = true := by
  rw [Settled, Bool.or_eq_true, List.all_eq_true, List.any_eq_true]

theorem dropUnreached_eq_pure (h : Settled (cut ss).2) : dropUnreached ss = pure ss := by
  unfold dropUnreached
  exact if_pos (settled_iff.mp h)

theorem spares_tidy (a : Analysis) : Transform.Spares (simplifyList a) (Tidy a) := by
  intro isBody ss h
  have hmembers : simplifyMembers a (members isBody ss) = pure (members isBody ss) :=
    simplifyMembers_eq_pure fun s hs => h.simplified?_eq_none hs
  rw [simplifyList_eq, dropUnreached_eq_pure h.settled, pure_bind, hmembers, pure_bind,
    directives_append_members]

/-! ## Lists become tidy -/

theorem tidy_of_settled (hmembers : ∀ s ∈ members isBody ss, simplified? a s = none)
    (hcut : Settled (cut ss).2) : Tidy a isBody ss where
  not_empty id hs := nomatch hmembers _ hs
  not_pure id e hs := by
    have hnone := hmembers _ hs
    rw [simplified?] at hnone
    cases hpure : a.isPure e.id with
    | false => rfl
    | true => rw [hpure] at hnone; cases hnone
  not_plain id inner hs := by
    have hnone := hmembers _ hs
    rw [simplified?] at hnone
    split at hnone
    · rename_i hany
      exact List.any_eq_true.mp hany
    · cases hnone
  unreached := settled_cut_iff.mp hcut

theorem yields_simplifyMembers_eq (a : Analysis) (ss : List Stmt) :
    Yields Basis.blank.Fresh (simplifyMembers a ss) (· = ss.flatMap (remains a)) := by
  induction ss with
  | nil => exact .pure rfl
  | cons s rest ih =>
    rw [simplifyMembers, List.flatMap_cons]
    split
    · rename_i hs
      refine ih.bind fun xs hxs => .pure ?_
      rw [hxs, remains_of_none hs]
      rfl
    · rename_i xs hs
      refine Basis.yields_changed (ih.bind fun ys hys => .pure ?_)
      rw [hys, remains, hs]
      rfl

/-- The lists inside a list are tidy. -/
abbrev TidyInside (a : Analysis) (ss : List Stmt) : Prop := ListsHave (Tidy a) (stmtNodes true ss)

theorem TidyInside.block (h : TidyInside a ss) {id : NodeId} {inner : List Stmt}
    (hs : .block ⟨id, inner⟩ ∈ ss) : Tidy a false inner ∧ TidyInside a inner := by
  have hnodes := listsHave_stmtNodes.mp h _ hs
  rw [Stmt.nodes, listsHave_cons] at hnodes
  exact ⟨hnodes.1 _ List.mem_cons_self, hnodes.2⟩

theorem tidyInside_of_onlyDeclares {names : List String} (h : s.OnlyDeclares names) :
    ListsHave (Tidy a) (s.nodes true) := by
  cases h with
  | @mk id ds hnames hinit =>
    clear hnames
    rw [Stmt.nodes, VarDecl.nodes, listsHave_cons, listsHave_cons]
    refine ⟨nofun, nofun, ?_⟩
    induction ds with
    | nil => exact listsHave_nil
    | cons d rest ih =>
      obtain ⟨id', name, init⟩ := d
      obtain ⟨rfl, hrest⟩ := List.forall_mem_cons.mp hinit
      rw [declNodes, Declarator.nodes, exprNodes?, listsHave_append, listsHave_cons]
      exact ⟨⟨nofun, listsHave_nil⟩, ih hrest⟩

theorem yields_hoisted_only (ss : List Stmt) : Yields Basis.blank.Fresh (hoisted ss) fun xs =>
    ∀ s ∈ xs, isHoistedOnly s = true := by
  have hfunctions : ∀ s ∈ ss.filter isFunction, isHoistedOnly s = true := by
    intro s hs
    have hfunction := (List.mem_filter.mp hs).2
    cases s with
    | function id name fn => rfl
    | _ => cases hfunction
  unfold hoisted
  dsimp only
  split
  · exact .pure hfunctions
  · refine (Make.vars_onlyDeclares _).bind fun s hs => .pure ?_
    refine List.forall_mem_append.mpr ⟨hfunctions, List.forall_mem_singleton.mpr ?_⟩
    obtain ⟨id, -, hinit⟩ := hs
    simp only [isHoistedOnly, beq_self_eq_true, Bool.true_and, List.all_eq_true]
    exact fun d hd => by rw [hinit d hd]; rfl

/-- Behind the first statement that leaves the list there are declarations afterwards, unless
something there has to stay. -/
theorem yields_dropUnreached_settled (ss : List Stmt) :
    Yields Basis.blank.Fresh (dropUnreached ss) fun xs => Settled (cut xs).2 := by
  unfold dropUnreached
  change Yields _
    (if ((cut ss).2.all isHoistedOnly || (cut ss).2.any mustStay) = true then _ else _) _
  split
  · rename_i hkept
    exact .pure (settled_iff.mpr hkept)
  · rename_i hdrop
    refine Basis.yields_changed ((yields_hoisted_only _).bind fun xs hxs => .pure ?_)
    rcases cut_cases ss with ⟨-, hcut⟩ | ⟨before, s, after, -, hbefore, hs, hcut⟩
    · rw [hcut] at hdrop
      exact absurd rfl hdrop
    · rw [hcut, List.append_assoc, List.singleton_append, cut_append_of_reached hbefore,
        cut_cons_of_abrupt hs]
      exact .inl hxs

theorem yields_dropUnreached_inside (h : TidyInside a ss) :
    Yields Basis.blank.Fresh (dropUnreached ss) (TidyInside a) := by
  refine (dropUnreached_mem ss).imp fun xs hxs => listsHave_stmtNodes.mpr fun s hs => ?_
  rcases hxs s hs with hmem | ⟨names, hdeclares⟩
  · exact listsHave_stmtNodes.mp h s hmem
  · exact tidyInside_of_onlyDeclares hdeclares

/-- The members that are left of a list are tidy inside, and nothing is left to do about them. -/
theorem remains_tidy (h : ListsHave (Tidy a) (s.nodes true)) : ∀ x ∈ remains a s,
    simplified? a x = none ∧ ListsHave (Tidy a) (x.nodes true) := by
  intro x hx
  cases hs : simplified? a s with
  | none =>
    rw [remains_of_none hs, List.mem_singleton] at hx
    subst hx
    exact ⟨hs, h⟩
  | some xs =>
    rw [remains, hs, Option.getD_some] at hx
    rcases cases_of_simplified? hs with ⟨rfl, -⟩ | ⟨id, rfl, -⟩
    · cases hx
    · rw [Stmt.nodes, listsHave_cons] at h
      have hinner : Tidy a false xs := h.1 _ List.mem_cons_self
      exact ⟨hinner.simplified?_eq_none hx, listsHave_stmtNodes.mp h.2 x hx⟩

theorem establishes_tidy (a : Analysis) :
    Transform.Establishes Basis.blank.Fresh (simplifyList a) (Tidy a) := by
  intro isBody ss h
  rw [simplifyList_eq]
  refine ((yields_dropUnreached_settled ss).and (yields_dropUnreached_inside h)).bind
    fun xs ⟨hcut, hinside⟩ => (yields_simplifyMembers_eq a _).bind fun ys hys => .pure ?_
  subst hys
  rw [← directives_append_members isBody xs] at hcut hinside
  have hmembers : TidyInside a (members isBody xs) := by
    rw [TidyInside, stmtNodes_append, listsHave_append] at hinside
    exact hinside.2
  have hremains : ∀ x ∈ (members isBody xs).flatMap (remains a),
      simplified? a x = none ∧ ListsHave (Tidy a) (x.nodes true) := by
    intro x hx
    obtain ⟨s, hs, hx⟩ := List.mem_flatMap.mp hx
    exact remains_tidy (listsHave_stmtNodes.mp hmembers s hs) x hx
  refine ⟨tidy_of_settled (fun s hs => ?_) (settled_cut_members.mpr ?_), ?_⟩
  · exact (hremains s (members_directives_append isBody xs _ hs)).1
  · exact settled_cut_flatMap (settled_cut_members.mp hcut) fun id inner hmem =>
      (hmembers.block hmem).1.settled
  · rw [stmtNodes_append, listsHave_append]
    refine ⟨?_, listsHave_stmtNodes.mpr fun x hx => (hremains x hx).2⟩
    rw [TidyInside, stmtNodes_append, listsHave_append] at hinside
    exact hinside.1

end SimplifyBlocks

/-! ## Programs -/

variable {a : Analysis} {src : Source}

/-- Afterwards nothing is left to simplify. -/
theorem isTidy_simplifyBlocks (a : Analysis) (src : Source) :
    (simplifyBlocks a src).1.program.IsTidy a :=
  ((SimplifyBlocks.establishes_tidy a).onProgram src.program
    ⟨src.nextId, false, []⟩ (Nat.zero_le src.nextId)).2

theorem simplifyBlocks_of_isTidy (h : src.program.IsTidy a) : simplifyBlocks a src = (src, false) := by
  have hrun : (SimplifyBlocks.transform a).onProgram src.program = pure src.program :=
    (SimplifyBlocks.spares_tidy a).onProgram src.program h
  rw [simplifyBlocks, Transform.run, hrun]
  rfl

/-- The programs that simplifying leaves alone are those in which nothing is left to simplify. -/
theorem simplifyBlocks_eq_self_iff : simplifyBlocks a src = (src, false) ↔ src.program.IsTidy a := by
  refine ⟨fun h => ?_, simplifyBlocks_of_isTidy⟩
  have htidy := isTidy_simplifyBlocks a src
  rwa [h] at htidy

/-- Simplifying once is enough: afterwards nothing is left to simplify, and a second time with the
same analysis notes no change and leaves the program, ids included, as the first time left it. -/
theorem simplifyBlocks_again (a : Analysis) (src : Source) :
    (simplifyBlocks a src).1.program.IsTidy a ∧
      simplifyBlocks a (simplifyBlocks a src).1 = ((simplifyBlocks a src).1, false) :=
  ⟨isTidy_simplifyBlocks a src, simplifyBlocks_of_isTidy (isTidy_simplifyBlocks a src)⟩

end EsOptimizer
