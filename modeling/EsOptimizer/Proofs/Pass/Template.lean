import EsOptimizer.Pass.InlineFunctions
import EsOptimizer.Proofs.Pass.Transform
import EsOptimizer.Proofs.Scope.Entry
import EsOptimizer.Proofs.Syntax.Parts
import Mathlib.Data.List.Count

/-!
# Templates

A template reads each parameter at most once. That is decided by variables, while arguments are put
in by name; the two agree because the body of a template has no functions in it, so that all its
names mean what is found from the scope of the function. A copy of the body with the arguments put in
therefore uses each argument at most once.
-/

namespace EsOptimizer

open EsOptimizer.Tree (stock)

/-! ## Expressions without functions -/

/-- Expressions without functions have no insides, and use all their names. A name that is assigned
to is not just read. -/
structure Plainly (shallow deep : List Node) (us : List (Ident × SiteKind)) : Prop where
  deep : deep = shallow
  uses : ∀ i, .name i ∈ shallow → i ∈ us.map (·.1)
  assigned : ∀ n ∈ shallow, ∀ i, n.assigned? = some (.ident i) →
    .name i ∈ shallow ∧ ∃ kind, kind ≠ .read ∧ (i, kind) ∈ us

namespace Plainly

variable {ns ms ns' ms' : List Node} {n : Node} {us vs : List (Ident × SiteKind)}

theorem nil : Plainly [] [] us := ⟨rfl, nofun, nofun⟩

theorem append (h : Flat (ns ++ ms)) (hns : Flat ns → Plainly ns ns' us)
    (hms : Flat ms → Plainly ms ms' vs) : Plainly (ns ++ ms) (ns' ++ ms') (us ++ vs) := by
  have h₁ := hns (h.mono (List.subset_append_left _ _))
  have h₂ := hms (h.mono (List.subset_append_right _ _))
  refine ⟨by rw [h₁.deep, h₂.deep], fun i hi => ?_, fun n hn i hi => ?_⟩
  · rw [List.map_append, List.mem_append]
    exact (List.mem_append.mp hi).imp (h₁.uses i) (h₂.uses i)
  · rcases List.mem_append.mp hn with hn | hn
    · obtain ⟨hname, kind, hkind, hmem⟩ := h₁.assigned n hn i hi
      exact ⟨List.mem_append_left _ hname, kind, hkind, List.mem_append_left _ hmem⟩
    · obtain ⟨hname, kind, hkind, hmem⟩ := h₂.assigned n hn i hi
      exact ⟨List.mem_append_right _ hname, kind, hkind, List.mem_append_right _ hmem⟩

/-- A node that assigns to a name, or to nothing. -/
theorem assigning (h : Plainly ns ns' us) (hn : n.variable? = none)
    (hassigned : ∀ i, n.assigned? = some (.ident i) →
      .name i ∈ ns ∧ ∃ kind, kind ≠ .read ∧ (i, kind) ∈ us) : Plainly (n :: ns) (n :: ns') us := by
  refine ⟨by rw [h.deep], fun i hi => ?_, fun m hm i hi => ?_⟩
  · rcases List.mem_cons.mp hi with rfl | hi
    · cases hn
    · exact h.uses i hi
  · have hboth : .name i ∈ ns ∧ ∃ kind, kind ≠ .read ∧ (i, kind) ∈ us := by
      rcases List.mem_cons.mp hm with rfl | hm
      · exact hassigned i hi
      · exact h.assigned m hm i hi
    exact ⟨List.mem_cons_of_mem _ hboth.1, hboth.2⟩

theorem cons (h : Flat (n :: ns)) (hn : n.variable? = none) (hassigned : n.assigned? = none)
    (hns : Flat ns → Plainly ns ns' us) : Plainly (n :: ns) (n :: ns') us := by
  refine (hns (h.mono (List.subset_cons_self _ _))).assigning hn fun i hi => ?_
  rw [hassigned] at hi
  cases hi

/-- The same names, some of them not just read. -/
theorem congr (h : Plainly ns ns' us) (hus : vs.map (·.1) = us.map (·.1))
    (hmore : ∀ x ∈ us, x.2 ≠ .read → x ∈ vs) : Plainly ns ns' vs := by
  refine ⟨h.deep, hus ▸ h.uses, fun n hn i hi => ?_⟩
  obtain ⟨hname, kind, hkind, hmem⟩ := h.assigned n hn i hi
  exact ⟨hname, kind, hkind, hmore _ hmem hkind⟩

end Plainly

theorem Expr.targetUses_names (op : AssignOp) (e : Expr) :
    (e.targetUses op).map (·.1) = e.uses.map (·.1) := by
  cases e with
  | member _ obj _ => cases obj <;> rfl
  | index _ obj _ => cases obj <;> rfl
  | _ => rfl

theorem Expr.mem_targetUses (op : AssignOp) (e : Expr) :
    ∀ x ∈ e.uses, x.2 ≠ .read → x ∈ e.targetUses op := by
  cases e with
  | ident i => simp [Expr.uses]
  | member _ obj _ =>
    cases obj with
    | ident o => simp [Expr.uses]
    | _ => exact fun _ hx _ => hx
  | index _ obj _ =>
    cases obj with
    | ident o =>
      intro x hx hread
      rcases List.mem_cons.mp hx with rfl | hx
      · exact absurd rfl hread
      · exact List.mem_cons_of_mem _ hx
    | _ => exact fun _ hx _ => hx
  | _ => exact fun _ hx _ => hx

theorem Expr.calleeUses_names (e : Expr) : e.calleeUses.map (·.1) = e.uses.map (·.1) := by
  cases e <;> rfl

theorem Expr.mem_calleeUses (e : Expr) : ∀ x ∈ e.uses, x.2 ≠ .read → x ∈ e.calleeUses := by
  cases e with
  | ident i => simp [Expr.uses]
  | _ => exact fun _ hx _ => hx

theorem Expr.uses_update_names (id : NodeId) (op : UpdateOp) (before : Bool) (arg : Expr) :
    (Expr.update id op before arg).uses.map (·.1) = arg.uses.map (·.1) := by
  cases arg <;> rfl

theorem Expr.mem_uses_update (id : NodeId) (op : UpdateOp) (before : Bool) (arg : Expr) :
    ∀ x ∈ arg.uses, x.2 ≠ .read → x ∈ (Expr.update id op before arg).uses := by
  cases arg with
  | ident i => simp [Expr.uses]
  | _ => exact fun _ hx _ => hx

theorem Expr.eq_of_assigned {e x : Expr} (h : (if e.isTarget then some e else none) = some x) :
    e = x := by
  split at h
  · exact Option.some.inj h
  · cases h

theorem Flat.not_func {ns : List Node} {f : Func} (h : Flat ns) (hf : .func f ∈ ns) {P : Prop} : P :=
  absurd hf (h f)

mutual

theorem Expr.plainly (e : Expr) (h : Flat (e.nodes false)) :
    Plainly (e.nodes false) (e.nodes true) e.uses := by
  cases e with
  | array id elems => exact .cons h rfl rfl (elemsPlainly elems)
  | object id props => exact .cons h rfl rfl (propsPlainly props)
  | function id name fn =>
    refine h.not_func (f := fn) ?_
    cases fn
    simp [Expr.nodes, Func.nodes]
  | unary id op arg => exact .cons h rfl rfl (Expr.plainly arg)
  | update id op before arg =>
    have hparts := (Expr.plainly arg (h.mono (List.subset_cons_self _ _))).congr
      (Expr.uses_update_names id op before arg) (Expr.mem_uses_update id op before arg)
    refine hparts.assigning rfl fun i hi => ?_
    obtain rfl : arg = .ident i := Expr.eq_of_assigned hi
    exact ⟨by simp [Expr.nodes], .compound, nofun, List.mem_cons_self⟩
  | binary id op left right =>
    exact .cons h rfl rfl fun h => .append h (Expr.plainly left) (Expr.plainly right)
  | assign id op left right =>
    rw [Expr.uses_assign]
    have hparts := Plainly.append (h.mono (List.subset_cons_self _ _))
      (fun h => (Expr.plainly left h).congr (left.targetUses_names op) (left.mem_targetUses op))
      (Expr.plainly right)
    refine hparts.assigning rfl fun i hi => ?_
    obtain rfl : left = .ident i := Expr.eq_of_assigned hi
    refine ⟨by simp [Expr.nodes], if op = .assign then .assign else .compound, ?_,
      List.mem_append_left _ List.mem_cons_self⟩
    split <;> nofun
  | member id obj name => exact .cons h rfl rfl (Expr.plainly obj)
  | index id obj key =>
    exact .cons h rfl rfl fun h => .append h (Expr.plainly obj) (Expr.plainly key)
  | cond id test yes no =>
    exact .cons h rfl rfl fun h => .append h
      (fun h => .append h (Expr.plainly test) (Expr.plainly yes)) (Expr.plainly no)
  | call id callee args =>
    rw [Expr.uses_call]
    exact .cons h rfl rfl fun h => .append h
      (fun h => (Expr.plainly callee h).congr callee.calleeUses_names callee.mem_calleeUses)
      (exprsPlainly args)
  | new id callee args =>
    exact .cons h rfl rfl fun h => .append h (Expr.plainly callee) (exprsPlainly args)
  | seq id exprs => exact .cons h rfl rfl (exprsPlainly exprs)
  | ident i =>
    refine ⟨rfl, fun j hj => ?_, fun n hn j hj => ?_⟩
    · simpa [Expr.nodes, Expr.uses] using hj
    · rcases List.mem_pair.mp hn with rfl | rfl <;> cases hj
  | _ => exact .cons h rfl rfl fun _ => .nil
termination_by structural e

theorem elemsPlainly (es : List (Option Expr)) (h : Flat (elemNodes false es)) :
    Plainly (elemNodes false es) (elemNodes true es) (elemUses es) := by
  match es with
  | [] => exact .nil
  | none :: rest => exact elemsPlainly rest h
  | some e :: rest => exact .append h (Expr.plainly e) (elemsPlainly rest)
termination_by structural es

theorem exprsPlainly (es : List Expr) (h : Flat (exprNodes false es)) :
    Plainly (exprNodes false es) (exprNodes true es) (exprUses es) := by
  match es with
  | [] => exact .nil
  | e :: rest => exact .append h (Expr.plainly e) (exprsPlainly rest)
termination_by structural es

theorem PropertyKey.plainly (key : PropertyKey) (h : Flat (key.nodes false)) :
    Plainly (key.nodes false) (key.nodes true) key.uses := by
  match key with
  | .computed e => exact Expr.plainly e h
  | .ident _ => exact .nil
  | .string _ _ => exact .nil
  | .number _ _ => exact .nil
termination_by structural key

theorem Property.plainly (p : Property) (h : Flat (p.nodes false)) :
    Plainly (p.nodes false) (p.nodes true) p.uses := by
  match p with
  | .value _ key value => exact .append h (PropertyKey.plainly key) (Expr.plainly value)
  | .getter _ key fn =>
    refine h.not_func (f := fn) ?_
    cases fn
    simp [Property.nodes, Func.nodes]
  | .setter _ key fn =>
    refine h.not_func (f := fn) ?_
    cases fn
    simp [Property.nodes, Func.nodes]
termination_by structural p

theorem propsPlainly (ps : List Property) (h : Flat (propNodes false ps)) :
    Plainly (propNodes false ps) (propNodes true ps) (propUses ps) := by
  match ps with
  | [] => exact .nil
  | p :: rest => exact .append h (Property.plainly p) (propsPlainly rest)
termination_by structural ps

end

namespace InlineFunctions

/-- What a node reads, if that is nothing but parameters. -/
def nodeReads? (scopes : ScopeTree) (info : FunctionInfo) : Node → Option (List VarId)
  | .name i => (paramRead? scopes info i).map ([·])
  | .func _ => none
  | _ => some []

theorem paramReads?_eq (scopes : ScopeTree) (info : FunctionInfo) (e : Expr) :
    paramReads? scopes info e =
      ((e.nodes false).mapM (nodeReads? scopes info)).map List.flatten := by
  have heq : paramReads? scopes info e =
      (((e.nodes false).map (nodeReads? scopes info)).mapM id).map List.flatten := by
    unfold paramReads?
    congr
  rw [heq, List.mapM_map]
  rfl

/-- Each name that is read is read once. -/
theorem reads_spec {scopes : ScopeTree} {info : FunctionInfo} {ns : List Node}
    {reads : List (List VarId)} (h : ns.mapM (nodeReads? scopes info) = some reads) :
    Flat ns ∧ (ns.filterMap Node.variable?).map (paramRead? scopes info) =
      reads.flatten.map some := by
  induction ns generalizing reads with
  | nil =>
    cases h
    exact ⟨nofun, rfl⟩
  | cons n ns ih =>
    simp only [List.mapM_cons, Option.bind_eq_bind, Option.bind_eq_some_iff, Option.pure_def,
      Option.some.injEq] at h
    obtain ⟨here, hhere, rest, hrest, rfl⟩ := h
    obtain ⟨hflat, hreads⟩ := ih hrest
    have hfunc : ∀ f, .func f ≠ n := by
      rintro f rfl
      cases hhere
    refine ⟨fun f hf => (List.mem_cons.mp hf).elim (hfunc f) (hflat f), ?_⟩
    rw [List.flatten_cons, List.map_append, ← hreads]
    cases n with
    | name i =>
      obtain ⟨v, hv, rfl⟩ := Option.map_eq_some_iff.mp hhere
      change paramRead? scopes info i :: _ = _
      rw [hv]
      rfl
    | func f => cases hhere
    | _ =>
      cases hhere
      rw [List.filterMap_cons_none rfl]
      rfl

/-- The names in nodes. -/
def namesIn (ns : List Node) : List String := (ns.filterMap Node.variable?).map (·.name)

/-- A function that is a template has been entered, and its body means its parameters. -/
theorem reads_param {p : Program} (hp : p.ids.Nodup) {f : Func} (hf : f ∈ p.functions)
    {info : FunctionInfo} (hinfo : (ScopeTree.ofProgram p).function? f.id = some info) {e : Expr}
    (he : returned? f = some e) {x : Ident} (hx : x ∈ f.params) :
    ∃ v, ∀ u ∈ e.uses, u.1.name = x.name → (ScopeTree.ofProgram p).varOf u.1.id = some v ∧
      (ScopeTree.ofProgram p).siteKind u.1.id = some u.2 := by
  obtain ⟨hok, hknows⟩ := ScopeTree.knows_ofProgram (.ofNodup hp)
  set t := ScopeTree.ofProgram p
  have hvisited : t.Visited True 1 f := by
    refine ((hknows (.func f) ?_).visits f rfl).resolve_right fun hnone => ?_
    · obtain ⟨n, hn, hfunc⟩ := List.mem_filterMap.mp hf
      cases n <;> cases hfunc
      exact hn
    · rw [hok.entered f.id hnone.2] at hinfo
      cases hinfo
  obtain ⟨returnId, hbody⟩ : ∃ id, f.body.stmts = [.return id (some e)] := by
    unfold returned? at he
    split at he
    · cases he
      exact ⟨_, ‹_›⟩
    · cases he
  have hbare : Bare f.body.stmts := by
    intro d hd
    rw [hbody] at hd
    simp at hd
  obtain ⟨info', Δ, -, hfn⟩ := hvisited.hasFunction hok hbare
  have hsame : info' = info := Option.some.inj (hfn.function.symm.trans hinfo)
  subst hsame
  have huses : t.ResolvesAll e.uses info'.scope := by
    have := hfn.body
    rw [hbody] at this
    exact this.1
  -- The parameter is found in the scope of the function.
  obtain ⟨v, hv, hparam⟩ : ∃ v, Δ.lookup x.name = some v ∧ v ∈ info'.params := by
    obtain ⟨n, hn, rfl⟩ := List.getElem_of_mem hx
    have hlen := hfn.params.length_eq
    refine ⟨info'.params[n], ?_, List.getElem_mem _⟩
    exact List.Forall₂.get hfn.params hn (hlen ▸ hn)
  have hlookup : t.lookup info'.scope x.name = some v := by
    obtain ⟨own, hvars, -⟩ := hfn.vars
    rw [ScopeTree.lookup_eq hok, hvars, List.lookup_append, hv]
    rfl
  refine ⟨v, fun u hu hname => ?_⟩
  rcases huses u hu with ⟨w, hw, hsite⟩ | ⟨-, himplicit⟩
  · rw [hname, hlookup] at hw
    cases hw
    exact hsite
  · have hkind := himplicit v (hname ▸ hlookup)
    rw [hfn.paramKinds v hparam] at hkind
    cases hkind

theorem varOf_of_paramRead? {scopes : ScopeTree} {info : FunctionInfo} {i : Ident} {v : VarId}
    (h : paramRead? scopes info i = some v) : scopes.varOf i.id = some v := by
  unfold paramRead? at h
  split at h
  · exact Option.eq_some_of_filter_eq_some h
  · cases h

/-- A name that means a variable occurs as often as the variable is read. -/
theorem count_names_le {scopes : ScopeTree} {info : FunctionInfo} {ns : List Node}
    {reads : List VarId} (hreads : (ns.filterMap Node.variable?).map (paramRead? scopes info) =
      reads.map some) {name : String} {v : VarId}
    (hv : ∀ i, .name i ∈ ns → i.name = name → scopes.varOf i.id = some v) :
    (namesIn ns).count name ≤ reads.count v := by
  have hsome : reads.count v = (reads.map some).count (some v) :=
    (List.count_map_of_injective reads some (fun _ _ h => Option.some.inj h) v).symm
  rw [hsome, ← hreads, namesIn, List.count, List.count, List.countP_map, List.countP_map]
  refine List.countP_mono_left fun i hi hname => ?_
  have hread : paramRead? scopes info i ∈ reads.map some := hreads ▸ List.mem_map_of_mem hi
  obtain ⟨w, -, hw⟩ := List.mem_map.mp hread
  have hlisted : .name i ∈ ns := by
    obtain ⟨n, hn, hvar⟩ := List.mem_filterMap.mp hi
    cases n <;> cases hvar
    exact hn
  have heq := (varOf_of_paramRead? hw.symm).symm.trans (hv i hlisted (beq_iff_eq.mp hname))
  exact beq_iff_eq.mpr (hw.symm.trans heq)

/-- What makes a function a template. -/
theorem template?_spec {scopes : ScopeTree} {f : Func} {t : Template}
    (h : template? scopes f = some t) : ∃ info, ∃ reads : List VarId,
      scopes.function? f.id = some info ∧
      returned? f = some t.body ∧ t.params = f.params.map (·.name) ∧ Flat (t.body.nodes false) ∧
      ((t.body.nodes false).filterMap Node.variable?).map (paramRead? scopes info) = reads.map some ∧
      reads.Nodup := by
  unfold template? at h
  simp only at h
  split at h
  · rename_i info body hinfo hbody
    split at h
    · rename_i reads hreads
      split at h
      · rename_i hcond
        cases h
        rw [paramReads?_eq] at hreads
        obtain ⟨parts, hparts, rfl⟩ := Option.map_eq_some_iff.mp hreads
        obtain ⟨hflat, hreads⟩ := reads_spec hparts
        simp only [Bool.and_eq_true, decide_eq_true_eq] at hcond
        exact ⟨info, _, hinfo, hbody, rfl, hflat, hreads, hcond.2⟩
      · cases h
    · cases h
  · cases h

/-- A template has every parameter at most once in its body. -/
theorem count_le_one_of_template? {p : Program} (hp : p.ids.Nodup) {f : Func} (hf : f ∈ p.functions)
    {t : Template} (ht : template? (ScopeTree.ofProgram p) f = some t) {name : String}
    (hname : name ∈ t.params) : (namesIn (t.body.nodes true)).count name ≤ 1 := by
  obtain ⟨info, reads, hinfo, hbody, hparams, hflat, hreads, hnodup⟩ := template?_spec ht
  rw [hparams] at hname
  obtain ⟨x, hx, rfl⟩ := List.mem_map.mp hname
  obtain ⟨v, hv⟩ := reads_param hp hf hinfo hbody hx
  refine Nat.le_trans ?_ (List.nodup_iff_count_le_one.mp hnodup v)
  rw [(t.body.plainly hflat).deep]
  refine count_names_le hreads fun i hi hname => ?_
  obtain ⟨u, hu, rfl⟩ := List.mem_map.mp ((t.body.plainly hflat).uses i hi)
  exact (hv u hu hname).1

/-- A template assigns to none of its parameters, since it only reads them. -/
theorem not_mem_params_of_assigned {p : Program} (hp : p.ids.Nodup) {f : Func} (hf : f ∈ p.functions)
    {t : Template} (ht : template? (ScopeTree.ofProgram p) f = some t) {n : Node}
    (hn : n ∈ t.body.nodes true) {i : Ident} (hi : n.assigned? = some (.ident i)) :
    i.name ∉ t.params := by
  intro hname
  obtain ⟨info, reads, hinfo, hbody, hparams, hflat, hreads, -⟩ := template?_spec ht
  rw [hparams] at hname
  obtain ⟨x, hx, hxi⟩ := List.mem_map.mp hname
  obtain ⟨v, hv⟩ := reads_param hp hf hinfo hbody hx
  have hplain := t.body.plainly hflat
  rw [hplain.deep] at hn
  obtain ⟨hlisted, kind, hkind, hmem⟩ := hplain.assigned n hn i hi
  have hsite := (hv _ hmem hxi.symm).2
  have hread : paramRead? (ScopeTree.ofProgram p) info i ∈ reads.map some :=
    hreads ▸ List.mem_map_of_mem (List.mem_filterMap.mpr ⟨.name i, hlisted, rfl⟩)
  obtain ⟨w, -, hw⟩ := List.mem_map.mp hread
  unfold paramRead? at hw
  split at hw
  · rename_i hkindRead
    rw [hsite] at hkindRead
    exact hkind (Option.some.inj (beq_iff_eq.mp hkindRead))
  · cases hw

/-- The templates of a program are those of its functions. -/
theorem template_of_mem {scopes : ScopeTree} {p : Program} {id : NodeId} {t : Template}
    (h : (templates scopes p)[id]? = some t) : ∃ f ∈ p.functions, template? scopes f = some t := by
  rw [templates, Std.TreeMap.ofList_eq_insertMany_empty, Std.TreeMap.getElem?_insertMany_list,
    Std.TreeMap.getElem?_emptyc, Option.or_none, List.findSomeRev?_eq_findSome?_reverse] at h
  obtain ⟨⟨fid, t'⟩, hmem, hsome⟩ := List.exists_of_findSome?_eq_some h
  obtain ⟨f, hf, hft⟩ := List.mem_filterMap.mp (List.mem_reverse.mp hmem)
  obtain ⟨u, hu, heq⟩ := Option.map_eq_some_iff.mp hft
  cases heq
  dsimp only at hsome
  split at hsome
  · cases hsome
    exact ⟨f, hf, hu⟩
  · cases hsome

/-! ## Arguments -/

/-- The arguments come with the names of the parameters. -/
def argSupply (args : List (String × Expr)) : Supply := fun name k =>
  match args.lookup name with
  | some arg => stock .none arg k
  | none => 0

theorem argSupply_le (args : List (String × Expr)) (name : String) (c : String → Nat)
    (k : Option Nat) :
    argSupply args name k + (args.map fun x => c x.1 * stock .none x.2 k).sum ≤
      (args.map fun x => (c x.1 + if x.1 = name then 1 else 0) * stock .none x.2 k).sum := by
  induction args with
  | nil => exact Nat.le_refl _
  | cons x args ih =>
    obtain ⟨p, arg⟩ := x
    simp only [argSupply, List.lookup_cons, List.map_cons, List.sum_cons, Nat.add_mul] at ih ⊢
    by_cases hp : p = name
    · rw [if_pos hp, beq_iff_eq.mpr hp.symm, Nat.one_mul]
      dsimp only
      omega
    · rw [if_neg hp, beq_eq_false_iff_ne.mpr (Ne.symm hp)]
      dsimp only
      omega

/-- What comes with names is used as often as the names occur. -/
theorem supplied_argSupply_le (args : List (String × Expr)) (ns : List Node) (k : Option Nat) :
    supplied (argSupply args) ns k ≤ supplied .none ns k +
      (args.map fun x => (namesIn ns).count x.1 * stock .none x.2 k).sum := by
  induction ns with
  | nil => exact Nat.zero_le _
  | cons n ns ih =>
    rw [supplied_cons, supplied_cons]
    cases n with
    | name i =>
      have hle := argSupply_le args i.name ((namesIn ns).count ·) k
      have hcount (name : String) : (namesIn (.name i :: ns)).count name =
          (namesIn ns).count name + if name = i.name then 1 else 0 := by
        change (i.name :: namesIn ns).count name = _
        rw [List.count_cons]
        simp only [beq_iff_eq, @eq_comm _ i.name]
      simp only [Node.tally, Supply.none_apply, hcount]
      omega
    | expr e =>
      have hsame : (Node.expr e).tally (argSupply args) k = (Node.expr e).tally .none k := by
        cases e <;> rfl
      rw [hsame, Nat.add_assoc]
      exact Nat.add_le_add_left ih _
    | _ =>
      rw [Nat.add_assoc]
      exact Nat.add_le_add_left ih _

/-- Arguments for parameters that occur once are used once. -/
theorem supplied_params_le {params : List String} {ns : List Node}
    (honce : ∀ name ∈ params, (namesIn ns).count name ≤ 1) (args : List Expr) (k : Option Nat) :
    supplied (argSupply (params.zip args)) ns k ≤ supplied .none ns k + stock .none args k := by
  refine Nat.le_trans (supplied_argSupply_le _ ns k) (Nat.add_le_add_left ?_ _)
  induction params generalizing args with
  | nil => exact Nat.zero_le _
  | cons p params ih =>
    cases args with
    | nil => exact Nat.zero_le _
    | cons arg args =>
      have hrest := ih (fun name hname => honce name (List.mem_cons_of_mem _ hname)) args
      have hfirst := Nat.mul_le_mul_right (stock .none arg k) (honce p (List.mem_cons_self ..))
      have hcons : stock .none (arg :: args) k = stock .none arg k + stock .none args k := by
        simp only [stock, Tree.ids, Tree.nodes, exprIds, exprNodes, Tally.ids_append,
          supplied_append]
        omega
      rw [List.zip_cons_cons, List.map_cons, List.sum_cons, hcons]
      dsimp only
      omega

theorem conserves_substitution (params : List String) (args : List Expr) :
    (substitution params args).Conserves (argSupply (params.zip args)) where
  expr role e := by
    cases e with
    | ident i =>
      change Reuses _ (if params.contains i.name then
        match (params.zip args).lookup i.name with
        | some arg => pure arg
        | none => Make.undefined else pure (.ident i)) _
      split
      · split
        · rename_i arg harg
          refine .pure fun k => Nat.le_trans ?_ (Nat.le_add_left _ _)
          dsimp only [argSupply]
          rw [harg]
        · exact Make.reuses_undefined.mono fun k => Nat.zero_le _
      · exact .pure fun k => Nat.le_add_right _ _
    | _ => exact .pure fun k => Nat.le_add_right _ _
  stmt place before after := .pure fun k => by
    simp [stock, Tree.ids, Tree.nodes, stmtIds, stmtNodes]
  list isBody ss := .pure fun k => Nat.le_refl _
  func f := .pure fun k => Nat.le_refl _

/-- A copy of a template takes nothing but the arguments. -/
theorem Template.reuses_instantiate {t : Template} (hwhole : supplied .none (t.body.nodes true) none = 0)
    (honce : ∀ name ∈ t.params, (namesIn (t.body.nodes true)).count name ≤ 1) (args : List Expr) :
    Reuses (stock .none) (t.instantiate args) (stock .none args) := by
  refine ((t.body.reuses_renumber (argSupply (t.params.zip args))).ofFresh.mono fun k => ?_).andThen
    fun body => (conserves_substitution t.params args).onExpr body .value
  refine Nat.le_trans (supplied_params_le honce args k) ?_
  have hzero : supplied .none (t.body.nodes true) k = 0 := by
    cases k with
    | none => exact hwhole
    | some i => exact supplied_none_some _ i
  omega

end InlineFunctions

end EsOptimizer
