import EsOptimizer.Proofs.Scope.Walk

/-!
# The uses that are noted

The walk over a program notes every use of a name with its variable. `Records J t t'` says what a
part of the walk that looks at the names `J` does to these notes: what is noted of other names stays
as it is, and the variables of a scope keep their places in its list. A tree that `Tracks` its
variables knows which of them are used in another function than the one that declares them; that is
kept by every step.
-/

namespace EsOptimizer

/-- All noted uses of a variable. -/
def Variable.sites (x : Variable) : List Site := x.reads ++ x.writes

namespace ScopeTree

/-- All uses that are noted, variable by variable. -/
def allSites (t : ScopeTree) : List Site := t.vars.toList.flatMap Variable.sites

/-- The uses that are noted of one name. -/
def sitesAt (t : ScopeTree) (id : NodeId) : List Site := t.allSites.filter (·.ident == id)

/-- A variable has a use in another function than the one that declares it. -/
def UsedElsewhere (t : ScopeTree) (v : VarId) : Prop :=
  ∃ site ∈ (t.var v).sites, site.fnScope ≠ (t.var v).fnScope

/-- The tree knows which variables other functions use. -/
structure Tracks (t : ScopeTree) : Prop where
  listed : ∀ s, ∀ x ∈ (t.scope s).vars, x.2 < t.vars.size
  captured : ∀ v, v ∈ t.captured ↔ (t.var v).isGlobal = false ∧ t.UsedElsewhere v
  shared : ∀ v, v ∈ t.sharedGlobals ↔ (t.var v).isGlobal = true ∧ t.UsedElsewhere v

/-- What a later stage keeps of the notes of an earlier one, if only the names `J` were looked at in
between. -/
structure Records (J : NodeId → Prop) (t t' : ScopeTree) : Prop where
  siteKind : ∀ id, ¬J id → t'.siteKind id = t.siteKind id
  sitesAt : ∀ id, ¬J id → t'.sitesAt id = t.sitesAt id
  vars : ∀ s, (t.scope s).vars <+: (t'.scope s).vars
  tracks : t.Tracks → t'.Tracks

namespace Records

variable {J J' : NodeId → Prop} {t t' t'' : ScopeTree}

theorem refl (t : ScopeTree) : Records J t t :=
  ⟨fun _ _ => rfl, fun _ _ => rfl, fun _ => List.prefix_rfl, id⟩

theorem trans (h : Records J t t') (h' : Records J t' t'') : Records J t t'' where
  siteKind := fun id hid => (h'.siteKind id hid).trans (h.siteKind id hid)
  sitesAt := fun id hid => (h'.sitesAt id hid).trans (h.sitesAt id hid)
  vars := fun s => (h.vars s).trans (h'.vars s)
  tracks := fun ht => h'.tracks (h.tracks ht)

theorem mono (h : Records J t t') (hJ : ∀ id, J id → J' id) : Records J' t t' :=
  { h with
    siteKind := fun id hid => h.siteKind id fun hJid => hid (hJ id hJid)
    sitesAt := fun id hid => h.sitesAt id fun hJid => hid (hJ id hJid) }

end Records

variable {J : NodeId → Prop} {t t' : ScopeTree}

/-- A variable without uses is not used elsewhere. -/
theorem not_usedElsewhere {v : VarId} (hreads : (t.var v).reads = [])
    (hwrites : (t.var v).writes = []) : ¬t.UsedElsewhere v := by
  rintro ⟨site, hsite, -⟩
  rw [Variable.sites, hreads, hwrites] at hsite
  cases hsite

theorem exists_mem_of_lookup {s : ScopeId} {name : String} {v : VarId}
    (h : t.lookup s name = some v) : ∃ a, (name, v) ∈ (t.scope a).vars := by
  have hwithin (n : Nat) : ∀ s, t.lookupWithin name n s = some v →
      ∃ a, (name, v) ∈ (t.scope a).vars := by
    induction n with
    | zero => exact fun s hs => ⟨s, mem_of_lookup hs⟩
    | succ n ih =>
      intro s hs
      rw [lookupWithin] at hs
      split at hs
      · rename_i u hu
        exact ⟨s, Option.some.inj hs ▸ mem_of_lookup hu⟩
      · obtain ⟨q, -, hq⟩ := Option.bind_eq_some_iff.mp hs
        exact ih q hq
  exact hwithin s s h

theorem var_of_size_le {v : Nat} (h : t.vars.size ≤ v) : t.var v = default := by
  rw [var, Array.getD_eq_getD_getElem?, Array.getElem?_eq_none h]
  rfl

/-- A variable with a use is one of the tree. -/
theorem lt_of_site {v : Nat} {site : Site} (h : site ∈ (t.var v).sites) :
    v < t.vars.size := by
  by_contra hle
  rw [var_of_size_le (Nat.not_lt.mp hle)] at h
  cases h

/-! ## What does not touch the variables -/

/-- A change that leaves variables, uses and the lists of the scopes alone. -/
theorem Records.unchanged (hvars : t'.vars = t.vars) (hsites : t'.sites = t.sites)
    (hcaptured : t'.captured = t.captured) (hshared : t'.sharedGlobals = t.sharedGlobals)
    (hscopes : ∀ s, (t'.scope s).vars = (t.scope s).vars) : Records J t t' := by
  have hvar (v : VarId) : t'.var v = t.var v := by rw [var, var, hvars]
  have hused (v : VarId) : t'.UsedElsewhere v ↔ t.UsedElsewhere v := by
    rw [UsedElsewhere, UsedElsewhere, hvar]
  refine ⟨fun id _ => ?_, fun id _ => ?_, fun s => ?_, fun h => ⟨fun s x hx => ?_, fun v => ?_, fun v => ?_⟩⟩
  · rw [ScopeTree.siteKind, ScopeTree.siteKind, hsites]
  · rw [ScopeTree.sitesAt, ScopeTree.sitesAt, allSites, allSites, hvars]
  · rw [hscopes]
  · rw [hscopes] at hx
    rw [hvars]
    exact h.listed s x hx
  · rw [hcaptured, hvar, hused]
    exact h.captured v
  · rw [hshared, hvar, hused]
    exact h.shared v

theorem records_addScope {x : Scope} (hx : x.vars = []) : Records J t (t.addScope x) := by
  refine .unchanged rfl rfl rfl rfl fun s => ?_
  rw [addScope_scope]
  split
  · rename_i hs
    have hnone : t.scope s = default := by
      rw [hs, scope, Array.getD_eq_getD_getElem?, Array.getElem?_eq_none (Nat.le_refl _)]
      rfl
    rw [hnone, hx]
    rfl
  · rfl

theorem records_addHoisted (scope : ScopeId) (x : VarId × NodeId) :
    Records J t (t.addHoisted scope x) := by
  refine .unchanged rfl rfl rfl rfl fun s => ?_
  rw [addHoisted_scope]
  split <;> rfl

/-! ## New variables -/

/-- A new variable has no uses. -/
theorem records_addVar {x : Variable} (hreads : x.reads = []) (hwrites : x.writes = []) :
    Records J t (t.addVar x) := by
  have hall : (t.addVar x).allSites = t.allSites := by
    change (t.vars.push x).toList.flatMap Variable.sites = _
    rw [Array.toList_push, List.flatMap_append, List.flatMap_singleton, Variable.sites, hreads,
      hwrites, List.append_nil, List.append_nil]
    rfl
  have hused (v : VarId) : (t.addVar x).UsedElsewhere v ↔ t.UsedElsewhere v := by
    rcases Nat.lt_trichotomy v t.vars.size with hlt | heq | hgt
    · rw [UsedElsewhere, UsedElsewhere, addVar_var, if_neg (Nat.ne_of_lt hlt)]
    · have hnew : (t.addVar x).var v = x := by rw [addVar_var, if_pos heq]
      have hold : t.var v = default := var_of_size_le heq.ge
      refine iff_of_false (not_usedElsewhere ?_ ?_) (not_usedElsewhere ?_ ?_)
      · rw [hnew, hreads]
      · rw [hnew, hwrites]
      · rw [hold]
        rfl
      · rw [hold]
        rfl
    · rw [UsedElsewhere, UsedElsewhere, addVar_var, if_neg (Nat.ne_of_gt hgt)]
  have hglobal {v : VarId} (h : t.UsedElsewhere v) :
      ((t.addVar x).var v).isGlobal = (t.var v).isGlobal := by
    obtain ⟨site, hsite, -⟩ := h
    rw [addVar_var, if_neg (Nat.ne_of_lt (lt_of_site hsite))]
  refine ⟨fun _ _ => rfl, fun id _ => ?_, fun s => ?_, fun h => ⟨fun s y hy => ?_, fun v => ?_, fun v => ?_⟩⟩
  · rw [ScopeTree.sitesAt, hall]
    rfl
  · rw [addVar_scope]
    split
    · exact List.prefix_append _ _
    · exact List.prefix_rfl
  · rw [addVar_varsSize]
    rw [addVar_scope] at hy
    split at hy
    · rcases List.mem_append.mp hy with hy | hy
      · exact Nat.lt_succ_of_lt (h.listed s y hy)
      · rw [List.mem_singleton.mp hy]
        exact Nat.lt_succ_self _
    · exact Nat.lt_succ_of_lt (h.listed s y hy)
  · rw [hused]
    refine (h.captured v).trans (and_congr_left fun hu => ?_)
    rw [hglobal hu]
  · rw [hused]
    refine (h.shared v).trans (and_congr_left fun hu => ?_)
    rw [hglobal hu]

/-! ## Uses -/

theorem withUse_var (t : ScopeTree) (v : VarId) (site : Site) (u : VarId) :
    (Resolve.withUse t v site).var u =
      if v = u ∧ u < t.vars.size then Resolve.used site (t.var u) else t.var u :=
  useVar_var t v (Resolve.used site) u

theorem mem_used {site : Site} {x : Variable} {other : Site} :
    other ∈ (Resolve.used site x).sites ↔ other ∈ x.sites ∨ other = site := by
  rw [Resolve.used]
  split
  · simp [Variable.sites, or_assoc]
  · simp [Variable.sites, or_comm, or_left_comm]

theorem exists_sites_used (site : Site) (x : Variable) : ∃ as bs, x.sites = as ++ bs ∧
    (Resolve.used site x).sites = as ++ site :: bs := by
  rw [Resolve.used]
  split
  · exact ⟨x.sites, [], (List.append_nil _).symm, (List.append_assoc _ _ _).symm⟩
  · exact ⟨x.reads, x.writes, rfl, by simp [Variable.sites]⟩

/-- One more use of a variable is one more of all uses. -/
theorem exists_allSites_withUse (site : Site) {v : Nat} (hv : v < t.vars.size) :
    ∃ as bs, t.allSites = as ++ bs ∧ (Resolve.withUse t v site).allSites = as ++ site :: bs := by
  obtain ⟨xs, x, ys, hvars, -, hmodify⟩ :=
    List.exists_of_modify (Resolve.used site) (l := t.vars.toList) (i := v) hv
  obtain ⟨as, bs, hbefore, hafter⟩ := exists_sites_used site x
  refine ⟨xs.flatMap Variable.sites ++ as, bs ++ ys.flatMap Variable.sites, ?_, ?_⟩
  · rw [allSites, hvars, List.flatMap_append, List.flatMap_cons, hbefore]
    simp only [List.append_assoc]
  · change (t.vars.modify v (Resolve.used site)).toList.flatMap Variable.sites = _
    rw [Array.toList_modify, hmodify, List.flatMap_append, List.flatMap_cons, hafter]
    simp only [List.append_assoc, List.cons_append]

/-- A use is noted of its own name only. -/
theorem sitesAt_withUse_of_ne (v : Nat) {site : Site} {id : NodeId} (hid : id ≠ site.ident) :
    (Resolve.withUse t v site).sitesAt id = t.sitesAt id := by
  by_cases hv : v < t.vars.size
  · obtain ⟨as, bs, hbefore, hafter⟩ := exists_allSites_withUse site hv
    have hsite : (site.ident == id) = false := beq_eq_false_iff_ne.mpr hid.symm
    simp [sitesAt, hbefore, hafter, hsite]
  · have hsame : (t.vars.modify v (Resolve.used site)).toList = t.vars.toList := by
      rw [Array.toList_modify]
      exact List.modify_eq_self (Nat.not_lt.mp hv)
    change ((t.vars.modify v (Resolve.used site)).toList.flatMap Variable.sites).filter _ = _
    rw [hsame]
    rfl

/-- The first use of a name that is noted is the only one. -/
theorem sitesAt_withUse_self {v : Nat} (hv : v < t.vars.size) {site : Site}
    (hnone : t.sitesAt site.ident = []) : (Resolve.withUse t v site).sitesAt site.ident = [site] := by
  obtain ⟨as, bs, hbefore, hafter⟩ := exists_allSites_withUse site hv
  rw [sitesAt, hbefore, List.filter_append, List.append_eq_nil_iff] at hnone
  simp [sitesAt, hafter, hnone.1, hnone.2]

theorem usedElsewhere_withUse {v : Nat} (hv : v < t.vars.size) (site : Site) (u : VarId) :
    (Resolve.withUse t v site).UsedElsewhere u ↔
      t.UsedElsewhere u ∨ u = v ∧ site.fnScope ≠ (t.var v).fnScope := by
  by_cases hu : u = v
  · subst hu
    have hvar : (Resolve.withUse t u site).var u = Resolve.used site (t.var u) := by
      rw [withUse_var, if_pos ⟨rfl, hv⟩]
    rw [UsedElsewhere, UsedElsewhere, hvar, (Resolve.used_extends site _).fnScope]
    constructor
    · rintro ⟨other, hother, hne⟩
      rcases mem_used.mp hother with hold | rfl
      · exact Or.inl ⟨other, hold, hne⟩
      · exact Or.inr ⟨rfl, hne⟩
    · rintro (⟨other, hother, hne⟩ | ⟨-, hne⟩)
      · exact ⟨other, mem_used.mpr (Or.inl hother), hne⟩
      · exact ⟨site, mem_used.mpr (Or.inr rfl), hne⟩
  · have hvar : (Resolve.withUse t v site).var u = t.var u := by
      rw [withUse_var, if_neg fun h => hu h.1.symm]
    rw [UsedElsewhere, UsedElsewhere, hvar]
    exact (or_iff_left fun h => hu h.1).symm

theorem withUse_extends (t : ScopeTree) (v : VarId) (site : Site) (u : VarId) :
    (t.var u).Extends ((Resolve.withUse t v site).var u) :=
  t.useVar_extends v (Resolve.used_extends site) u

/-- A variable joins a set if a condition holds. -/
theorem mem_insert_if {c : Bool} {set : VarSet} {u v : VarId} :
    (u ∈ if c then set.insert v else set) ↔ u ∈ set ∨ u = v ∧ c = true := by
  cases c with
  | false => simp
  | true =>
    simp only [if_true, Std.TreeSet.mem_insert, Std.LawfulEqCmp.compare_eq_iff_eq, and_true]
    exact or_comm.trans (or_congr_right eq_comm)

theorem Tracks.withUse (h : t.Tracks) {v : Nat} (hv : v < t.vars.size) (site : Site) :
    (Resolve.withUse t v site).Tracks := by
  have hglobal (u : VarId) : ((Resolve.withUse t v site).var u).isGlobal = (t.var u).isGlobal := by
    rw [Variable.isGlobal, Variable.isGlobal, (withUse_extends t v site u).scope]
  refine ⟨fun s x hx => ?_, fun u => ?_, fun u => ?_⟩
  · change x.2 < (t.vars.modify v (Resolve.used site)).size
    rw [Array.size_modify]
    exact h.listed s x hx
  · rw [usedElsewhere_withUse hv, hglobal]
    refine mem_insert_if.trans ?_
    rw [h.captured, Bool.and_eq_true, bne_iff_ne, Bool.not_eq_true']
    grind
  · rw [usedElsewhere_withUse hv, hglobal]
    refine mem_insert_if.trans ?_
    rw [h.shared, Bool.and_eq_true, bne_iff_ne]
    grind

/-- A use is noted of one name. -/
theorem records_withUse {v : Nat} (hv : t.Tracks → v < t.vars.size) {site : Site}
    (hsite : J site.ident) :
    Records J t (Resolve.withUse t v site) where
  siteKind := fun id hid => by
    change (t.sites.insert site.ident site.kind)[id]? = _
    rw [Std.TreeMap.getElem?_insert, if_neg]
    · rfl
    · intro heq
      rw [Std.LawfulEqCmp.compare_eq_iff_eq] at heq
      exact hid (heq ▸ hsite)
  sitesAt := fun id hid => sitesAt_withUse_of_ne v fun heq => hid (heq ▸ hsite)
  vars := fun _ => List.prefix_rfl
  tracks := fun h => h.withUse (hv h) site

end ScopeTree

/-! ## Steps of the walk -/

namespace Resolve

open ScopeTree

/-- A step that looks at the names `J` only, as far as notes go. -/
def Recording {α : Type} (J : NodeId → Prop) (a : Resolve α) : Prop :=
  ∀ r, Records J r.tree (a r).2.tree

namespace Recording

variable {α β : Type} {J J' : NodeId → Prop}

theorem pure (x : α) : Recording J (Pure.pure x : Resolve α) := fun r => .refl r.tree

theorem bind {a : Resolve α} {f : α → Resolve β} (ha : Recording J a)
    (hf : ∀ x, Recording J (f x)) : Recording J (a >>= f) :=
  fun r => (ha r).trans (hf _ _)

theorem get_bind {f : Resolution → Resolve β} (hf : ∀ r, Recording J (f r)) :
    Recording J (get >>= f) :=
  fun r => hf r r

theorem mono {a : Resolve α} (ha : Recording J a) (hJ : ∀ id, J id → J' id) : Recording J' a :=
  fun r => (ha r).mono hJ

theorem forIn {items : List α} {f : α → PUnit → Resolve (ForInStep PUnit)}
    (hf : ∀ x, Recording J (f x ⟨⟩)) : Recording J (ForIn.forIn items PUnit.unit f) := by
  induction items with
  | nil => exact .pure _
  | cons x rest ih =>
    rw [List.forIn_cons]
    refine (hf x).bind fun step => ?_
    cases step with
    | done _ => exact .pure _
    | yield _ => exact ih

theorem mapM {items : List α} {f : α → Resolve β} (hf : ∀ x ∈ items, Recording J (f x)) :
    Recording J (items.mapM f) := by
  induction items with
  | nil => exact .pure _
  | cons x rest ih =>
    rw [List.mapM_cons]
    refine (hf x List.mem_cons_self).bind fun _ => ?_
    exact (ih fun y hy => hf y (List.mem_cons_of_mem _ hy)).bind fun _ => .pure _

theorem inside {a : Resolve Unit} (ha : Recording J a) : Recording J (inside a) := fun r => ha r

end Recording

variable {J : NodeId → Prop}

theorem recording_bind (ident : Ident) (v : VarId) : Recording J (bind ident v) :=
  fun _ => .unchanged rfl rfl rfl rfl fun _ => rfl

theorem recording_newVar (scope : ScopeId) (name : String) (kind : VarKind) (decl : Option NodeId)
    (initial : Option Value) : Recording J (newVar scope name kind decl initial) := by
  intro r
  rw [newVar_apply]
  exact records_addVar rfl rfl

theorem recording_declareIn (scope : ScopeId) (ident : Ident) (kind : VarKind) :
    Recording J (declareIn scope ident kind) := by
  refine .get_bind fun r => ?_
  cases (r.tree.scope scope).vars.lookup ident.name with
  | some v => exact (recording_bind ident v).bind fun _ => .pure _
  | none =>
    exact (recording_newVar _ _ _ _ _).bind fun v => (recording_bind ident v).bind fun _ => .pure _

theorem recording_modifyFunction (f : FunctionInfo → FunctionInfo) :
    Recording J (modifyFunction f) := by
  refine .get_bind fun r => ?_
  cases r.functions with
  | nil => exact .pure _
  | cons id rest => exact fun _ => .unchanged rfl rfl rfl rfl fun _ => rfl

theorem recording_noteDynamicScope : Recording J noteDynamicScope :=
  fun _ => .unchanged rfl rfl rfl rfl fun _ => rfl

theorem recording_hoist (body : List Stmt) : Recording J (hoist body) := by
  refine .get_bind fun r => ?_
  refine Recording.bind (.forIn fun i => ?_) fun _ => .forIn fun x => ?_
  · exact (recording_declareIn _ i .var).bind fun _ => .pure _
  · refine (recording_declareIn _ x.1 .function).bind fun v => ?_
    exact Recording.bind (fun r' => records_addHoisted _ (v, x.2.id)) fun _ => .pure _

theorem recording_declareLexical (d : VarDecl) : Recording J (declareLexical d) := by
  rw [declareLexical]
  cases lexicalKind? d.kind with
  | none => exact .pure _
  | some kind =>
    refine .forIn fun x => .get_bind fun r => ?_
    exact (recording_declareIn r.current x.name kind).bind fun _ => .pure _

theorem recording_declareLexicals (stmts : List Stmt) : Recording J (declareLexicals stmts) := by
  refine .forIn fun s => ?_
  split
  · exact (recording_declareLexical _).bind fun _ => .pure _
  · exact .pure _

theorem recording_openScope (kind : ScopeKind) (node : NodeId) :
    Recording J (openScope kind node) := by
  intro r
  rw [openScope_apply]
  have hadd : Records J r.tree
      (r.tree.addScope { parent := some r.current, kind, fnScope := fnScopeOf r kind }) :=
    records_addScope rfl
  exact hadd.trans (.unchanged rfl rfl rfl rfl fun _ => rfl)

theorem recording_resolve (ident : Ident) : Recording J (resolve ident) := by
  refine .get_bind fun r => ?_
  cases r.tree.lookup r.current ident.name with
  | some v => exact .pure _
  | none =>
    dsimp only
    split
    · exact (recording_modifyFunction _).bind fun _ => .pure _
    · exact (recording_newVar _ _ _ _ _).bind fun _ => .pure _

/-- What a name is resolved to is a variable of the tree. -/
theorem lt_of_resolve {r : Resolution} {ident : Ident} {v : VarId}
    (hv : (resolve ident r).1 = some v) (h : (resolve ident r).2.tree.Tracks) :
    v < (resolve ident r).2.tree.vars.size := by
  cases hfound : r.tree.lookup r.current ident.name with
  | some u =>
    rw [resolve_found hfound] at hv h ⊢
    obtain rfl : u = v := Option.some.inj hv
    obtain ⟨s, hmem⟩ := exists_mem_of_lookup hfound
    exact h.listed s _ hmem
  | none =>
    rw [resolve_eq, hfound] at hv ⊢
    dsimp only at hv ⊢
    split at hv
    · cases hv
    · rename_i hname
      obtain rfl : r.tree.vars.size = v := Option.some.inj hv
      rw [if_neg hname]
      exact (addVar_varsSize _ _).ge

theorem recording_addSite {ident : Ident} (hident : J ident.id) (kind : SiteKind) :
    Recording J (addSite ident kind) := by
  intro r
  have hresolve := recording_resolve (J := J) ident r
  have hlt (v : VarId) (hv : (resolve ident r).1 = some v) := lt_of_resolve hv
  rw [addSite_apply]
  generalize resolve ident r = x at hresolve hlt
  obtain ⟨_ | v, r'⟩ := x
  · exact hresolve
  · exact hresolve.trans (records_withUse (hlt v rfl) hident)

theorem recording_noteSite {ident : Ident} (hident : J ident.id) (kind : SiteKind) :
    Recording J (noteSite ident kind) :=
  (recording_addSite hident kind).bind fun _ => .pure _

theorem recording_noteCallee {ident : Ident} (hident : J ident.id) :
    Recording J (noteCallee ident) := by
  refine (recording_addSite hident .callee).bind fun v => ?_
  cases v with
  | none => exact .pure _
  | some v =>
    refine .get_bind fun r => ?_
    split
    · exact recording_noteDynamicScope
    · exact .pure _

theorem recording_declareParams {scope : ScopeId} {params : List Ident}
    (h : ∀ p ∈ params, J p.id) : Recording J (declareParams scope params) :=
  .mapM fun p hp => (recording_declareIn scope p .param).bind fun _ =>
    (recording_noteSite (h p hp) .init).bind fun _ => .pure _

theorem recording_nameVar (scope : ScopeId) {name : FunctionName}
    (h : ∀ i, name = .own i → J i.id) : Recording J (nameVar scope name) := by
  cases name with
  | none => exact .pure _
  | declared i => exact .get_bind fun _ => .pure _
  | own i =>
    refine .get_bind fun r => ?_
    split
    · exact .pure _
    · exact (recording_declareIn scope i .ownName).bind fun _ =>
        (recording_noteSite (h i rfl) .init).bind fun _ => .pure _

theorem recording_declareRest {name : FunctionName} (body : List Stmt) (scope : ScopeId)
    (h : ∀ i, name = .own i → J i.id) : Recording J (declareRest name body scope) :=
  (recording_hoist body).bind fun _ => (recording_declareLexicals body).bind fun _ =>
    (recording_nameVar scope h).bind fun _ => recording_modifyFunction _

theorem records_entered (r : Resolution) (id bodyId : NodeId) :
    Records J r.tree (entered r id bodyId).tree :=
  (recording_openScope (.function id) id r).trans (.unchanged rfl rfl rfl rfl fun _ => rfl)

theorem records_afterParams (r : Resolution) (id : NodeId) {params : List Ident}
    (h : ∀ p ∈ params, J p.id) : Records J r.tree (afterParams id params r).tree :=
  (recording_declareParams h r).trans (.unchanged rfl rfl rfl rfl fun _ => rfl)

end Resolve

end EsOptimizer
