import EsOptimizer.Proofs.Scope.Resolve

/-!
# The walk over a program

`Walks skips ids ns a` says of a part `a` of the walk, which goes over code with the ids `ids` and the
nodes `ns`, what it does to the scope tree: it looks at these ids only, it finishes the scopes that
it opens, and afterwards its nodes are `Known`. The names that it writes have their uses noted, and
every function in it was entered at some point of the walk, after which nothing of the function was
touched again. Values in front of an `in` are not followed, so a function there has no scope.
-/

namespace EsOptimizer

variable {skips : Prop}

/-- The names that a node writes, and whose uses are noted as such. -/
def Node.written : Node → List Ident
  | .expr (.assign _ _ (.ident i) _) | .expr (.update _ _ _ (.ident i))
  | .stmt (.forIn _ (.expr (.ident i)) _ _) => [i]
  | .decl ⟨_, _, decls⟩ => (decls.filter fun x => x.init.isSome).map (·.name)
  | .loopDecl d => d.decls.map (·.name)
  | .stmt (.try _ _ (some ⟨_, some param, _⟩) _) => [param]
  | .stmt (.function _ i _) => [i]
  | .func f => f.params
  | _ => []

/-- The id of the name that a function expression is entered under. -/
def Resolve.FunctionName.ids : FunctionName → List NodeId
  | .own i => [i.id]
  | _ => []

namespace ScopeTree

/-- A use of a name that writes it is noted, unless it has no variable. -/
def NotesWrite (t : ScopeTree) (i : Ident) : Prop :=
  i.name = "arguments" ∨
    ∃ v, t.varOf i.id = some v ∧ v < t.vars.size ∧ ∃ site ∈ (t.var v).writes, site.ident = i.id

/-- None of these nodes has a scope yet. -/
def Unopened (t : ScopeTree) (ids : List NodeId) : Prop := ∀ id ∈ ids, t.scopeOf id = none

/-- A regular function was entered when there were at least `m` scopes, and left alone
afterwards. -/
def Visited (skips : Prop) (m : Nat) (t : ScopeTree) (f : Func) : Prop :=
  Regular skips f.ids (f.nodes true) ∧ ∃ r name, r.Ok ∧ r.tree.Unopened f.ids ∧
    List.Disjoint (Resolve.FunctionName.ids name) f.ids ∧ m ≤ r.tree.scopes.size ∧
    (Resolve.onFunc f name r).2.tree.Ok ∧
    (Resolve.onFunc f name r).2.tree.Grows (Resolve.onFunc f name r).2.tree.scopes.size
      (· ∉ f.ids) (· < r.tree.scopes.size) t

/-- What the walk leaves behind about a node. -/
structure Knows (skips : Prop) (m : Nat) (t : ScopeTree) (n : Node) : Prop where
  writes : ¬skips → ∀ i ∈ n.written, t.NotesWrite i
  visits : ∀ f, n = .func f → t.Visited skips m f ∨ skips ∧ t.scopeOf f.id = none

section

variable {n m k : Nat} {J : NodeId → Prop} {S : ScopeId → Prop} {t t' : ScopeTree}

theorem NotesWrite.grow {i : Ident} (h : t.NotesWrite i) (hgrows : t.Grows n J S t')
    (hi : ¬J i.id) : t'.NotesWrite i := by
  rcases h with h | ⟨v, hv, hlt, site, hsite, hid⟩
  · exact Or.inl h
  · refine Or.inr ⟨v, (hgrows.varOf i.id hi).trans hv, hlt.trans_le hgrows.varsSize, site, ?_, hid⟩
    exact (hgrows.extended v hlt).writes.subset hsite

theorem Unopened.mono {ids ids' : List NodeId} (h : t.Unopened ids') (hids : ids ⊆ ids') :
    t.Unopened ids :=
  fun id hid => h id (hids hid)

theorem Unopened.grow {ids : List NodeId} (h : t.Unopened ids) (hgrows : t.Grows n J S t')
    (hids : ∀ id ∈ ids, ¬J id) : t'.Unopened ids :=
  fun id hid => (hgrows.scopeOf id (hids id hid)).trans (h id hid)

theorem Visited.mono {f : Func} (h : t.Visited skips m f) (hk : k ≤ m) : t.Visited skips k f := by
  obtain ⟨hregular, r, name, hr, hunopened, hname, hm, hrest⟩ := h
  exact ⟨hregular, r, name, hr, hunopened, hname, hk.trans hm, hrest⟩

theorem Visited.grow {f : Func} (h : t.Visited skips m f) (ht : t.Ok) (hgrows : t.Grows n J S t')
    (hn : t.scopes.size ≤ n) (hJ : ∀ id ∈ f.ids, ¬J id) (hS : ∀ s, S s → s < m) :
    t'.Visited skips m f := by
  obtain ⟨hregular, r, name, hr, hunopened, hname, hm, hok, hafter⟩ := h
  have hlater : t.Grows (Resolve.onFunc f name r).2.tree.scopes.size (· ∉ f.ids) S t' :=
    hgrows.mono (hafter.size.trans hn) (fun id hid hf => hJ id hf hid) (fun _ _ h => h) ht
  refine ⟨hregular, r, name, hr, hunopened, hname, hm, hok, ?_⟩
  exact hafter.trans hok hlater fun s _ hs => (hS s hs).trans_le hm

theorem Knows.mono {x : Node} (h : t.Knows skips m x) (hk : k ≤ m) : t.Knows skips k x :=
  ⟨h.writes, fun f hf => (h.visits f hf).imp_left (·.mono hk)⟩

end

end ScopeTree

theorem mem_declIds {x : Declarator} {ds : List Declarator} (h : x ∈ ds) :
    x.name.id ∈ declIds ds := by
  induction ds with
  | nil => cases h
  | cons d rest ih =>
    rw [declIds, List.mem_append]
    rcases List.mem_cons.mp h with rfl | h
    · obtain ⟨id, name, init⟩ := x
      exact Or.inl (by simp [Declarator.ids])
    · exact Or.inr (ih h)

theorem Node.written_subset (n : Node) : ∀ i ∈ n.written, i.id ∈ n.ids := by
  intro i hi
  unfold Node.written at hi
  split at hi
  · rw [List.mem_singleton.mp hi]
    simp [Node.ids, Expr.ids]
  · rw [List.mem_singleton.mp hi]
    simp [Node.ids, Expr.ids]
  · rw [List.mem_singleton.mp hi]
    simp [Node.ids, Stmt.ids, ForHead.ids, Expr.ids]
  · obtain ⟨x, hx, rfl⟩ := List.mem_map.mp hi
    rw [Node.ids, VarDecl.ids]
    exact List.mem_append_left _ (mem_declIds (List.mem_of_mem_filter hx))
  · rename_i d
    obtain ⟨id, kind, decls⟩ := d
    obtain ⟨x, hx, rfl⟩ := List.mem_map.mp hi
    rw [Node.ids, VarDecl.ids]
    exact List.mem_append_left _ (mem_declIds hx)
  · rw [List.mem_singleton.mp hi]
    simp [Node.ids, Stmt.ids, handlerIds?, CatchClause.ids, Ident.ids?]
  · rw [List.mem_singleton.mp hi]
    simp [Node.ids, Stmt.ids]
  · rename_i f
    obtain ⟨id, params, body⟩ := f
    rw [Node.ids, Func.ids]
    exact List.mem_append_left _ (List.mem_append_left _ (List.mem_map_of_mem hi))
  · cases hi

namespace ScopeTree

variable {n m k : Nat} {J : NodeId → Prop} {S : ScopeId → Prop} {t t' : ScopeTree}

theorem Knows.grow {x : Node} (h : t.Knows skips m x) (ht : t.Ok) (hgrows : t.Grows n J S t')
    (hn : t.scopes.size ≤ n) (hJ : ∀ id ∈ x.ids, ¬J id) (hS : ∀ s, S s → s < m) :
    t'.Knows skips m x where
  writes := fun hs i hi => (h.writes hs i hi).grow hgrows (hJ _ (x.written_subset i hi))
  visits := by
    rintro f rfl
    refine (h.visits f rfl).imp (·.grow ht hgrows hn hJ hS) fun ⟨hs, hnone⟩ => ⟨hs, ?_⟩
    obtain ⟨id, params, body⟩ := f
    exact (hgrows.scopeOf id (hJ id (by simp [Node.ids, Func.ids]))).trans hnone

end ScopeTree

namespace Resolve

open Resolution

/-- What a part of the walk does, which goes over code with these ids and nodes. -/
structure Walks (skips : Prop) (ids : List NodeId) (ns : List Node) (a : Resolve Unit) : Prop where
  within : NodesWithin ns ids
  builds : ∀ {r : Resolution}, r.Ok → Builds r.tree.scopes.size (· ∈ ids) r (a r).2
  knows : ∀ {r : Resolution}, r.Ok → r.tree.Unopened ids →
    ∀ x ∈ ns, (a r).2.tree.Knows skips r.tree.scopes.size x

section

variable {ids ids' : List NodeId} {ns ms : List Node} {a b : Resolve Unit}

namespace Walks

theorem skip : Walks skips ids [] (pure ()) := ⟨.nil, fun hr => Builds.refl hr, fun _ _ => nofun⟩

/-- One part after another, with other ids. -/
theorem seq (ha : Walks skips ids ns a) (hb : Walks skips ids' ms b) (hdisj : List.Disjoint ids ids') :
    Walks skips (ids ++ ids') (ns ++ ms) (do a; b) where
  within := nodesWithin_append.mpr
    ⟨ha.within.mono (List.subset_append_left _ _), hb.within.mono (List.subset_append_right _ _)⟩
  builds := fun {r} hr => by
    have h := ha.builds hr
    have hr' := h.ok' hr
    refine (h.mono hr (Nat.le_refl _) fun id hid => List.mem_append_left _ hid).trans hr ?_
    exact (hb.builds hr').mono hr' h.grows.size fun id hid => List.mem_append_right _ hid
  knows := fun {r} hr hunopened x hx => by
    have h := ha.builds hr
    have hr' := h.ok' hr
    have h' := hb.builds hr'
    rcases List.mem_append.mp hx with hx | hx
    · have hfirst := ha.knows hr (hunopened.mono (List.subset_append_left _ _)) x hx
      refine hfirst.grow hr'.tree h'.grows (Nat.le_refl _) (fun id hid hid' => ?_)
        fun s hs => ?_
      · exact hdisj (ha.within x hx hid) hid'
      · refine (hs.le hr'.tree).trans_lt ?_
        rw [h.current]
        exact hr.inside
    · have hrest := (hunopened.mono (List.subset_append_right _ _)).grow h.grows
        fun id hid hid' => hdisj hid' hid
      exact (hb.knows hr' hrest x hx).mono h.grows.size

theorem mono (ha : Walks skips ids ns a) (hids : ids ⊆ ids') : Walks skips ids' ns a where
  within := ha.within.mono hids
  builds := fun hr => (ha.builds hr).mono hr (Nat.le_refl _) hids
  knows := fun hr hunopened => ha.knows hr (hunopened.mono hids)

/-- A node that leaves nothing behind. -/
theorem node {x : Node} (ha : Walks skips ids ns a) (hx : x.ids ⊆ ids) (hwritten : x.written = [])
    (hfunc : ∀ f, x ≠ .func f) : Walks skips ids (x :: ns) a where
  within := nodesWithin_cons.mpr ⟨hx, ha.within⟩
  builds := ha.builds
  knows := fun hr hunopened y hy => by
    rcases List.mem_cons.mp hy with rfl | hy
    · refine ⟨fun _ => ?_, fun f hf => absurd hf (hfunc f)⟩
      rw [hwritten]
      exact nofun
    · exact ha.knows hr hunopened y hy

end Walks

theorem notesWrite_noteSite {r : Resolution} (hr : r.Ok) (i : Ident) {kind : SiteKind}
    (hkind : kind.isWrite = true) : (noteSite i kind r).2.tree.NotesWrite i := by
  by_cases hname : i.name = "arguments"
  · exact Or.inl hname
  · have happly : ∃ v, (addSite i kind r).1 = some v := by
      obtain ⟨v, hv⟩ := resolve_isSome hname r
      refine ⟨v, ?_⟩
      rw [addSite_apply]
      generalize resolve i r = x at hv
      obtain ⟨_, r'⟩ := x
      cases hv
      rfl
    obtain ⟨v, hv⟩ := happly
    have hspec := (@addSite_spec 0 (fun _ => True) r hr i trivial kind).2 v hv
    exact Or.inr ⟨v, hspec.2.1, hspec.1, hspec.2.2.2 hkind⟩

theorem walks_noteSite (i : Ident) (kind : SiteKind) : Walks skips [i.id] [.name i] (noteSite i kind) where
  within := nodesWithin_cons.mpr ⟨List.Subset.refl _, .nil⟩
  builds := fun hr => builds_noteSite hr List.mem_cons_self kind
  knows := fun hr _ x hx => by
    rw [List.mem_singleton.mp hx]
    exact ⟨fun _ => nofun, nofun⟩

/-- A write stays noted. -/
theorem Walks.keeps {i : Ident} {r : Resolution} (hb : Walks skips ids' ms b) (hr : r.Ok)
    (h : r.tree.NotesWrite i) (hi : i.id ∉ ids') : (b r).2.tree.NotesWrite i :=
  h.grow (hb.builds hr).grows hi

/-- A node that writes names. -/
theorem Walks.writing {x : Node} (ha : Walks skips ids ns a) (hx : x.ids ⊆ ids)
    (hwritten : ∀ {r : Resolution}, r.Ok → ∀ i ∈ x.written, (a r).2.tree.NotesWrite i)
    (hfunc : ∀ f, x ≠ .func f) : Walks skips ids (x :: ns) a where
  within := nodesWithin_cons.mpr ⟨hx, ha.within⟩
  builds := ha.builds
  knows := fun hr hunopened y hy => by
    rcases List.mem_cons.mp hy with rfl | hy
    · exact ⟨fun _ => hwritten hr, fun f hf => absurd hf (hfunc f)⟩
    · exact ha.knows hr hunopened y hy

/-- The walk in a regular tree. -/
def Walked (skips : Prop) (ids : List NodeId) (ns : List Node) (a : Resolve Unit) : Prop :=
  Regular skips ids ns → Walks skips ids ns a

namespace Walked

theorem seq (ha : Walked skips ids ns a) (hb : Walked skips ids' ms b) :
    Walked skips (ids ++ ids') (ns ++ ms) (do a; b) :=
  fun h => (ha h.left).seq (hb h.right) h.disjoint

/-- A node with an id of its own that leaves nothing behind. -/
theorem node {x : Node} {id : NodeId} (ha : Walked skips ids ns a) (hx : x.ids ⊆ ids ++ [id])
    (hwritten : x.written = []) (hfunc : ∀ f, x ≠ .func f) : Walked skips (ids ++ [id]) (x :: ns) a :=
  fun h => ((ha h.parts).mono (List.subset_append_left _ _)).node hx hwritten hfunc

/-- A node that is not listed. -/
theorem unlisted {id : NodeId} (ha : Walked skips ids ns a) : Walked skips (ids ++ [id]) ns a :=
  fun h => (ha h.unlisted).mono (List.subset_append_left _ _)

theorem wrap {x : Node} (ha : Walked skips ids ns a) (hx : x.ids ⊆ ids) (hwritten : x.written = [])
    (hfunc : ∀ f, x ≠ .func f) : Walked skips ids (x :: ns) a :=
  fun h => (ha h.tail).node hx hwritten hfunc

/-- A node that writes names. -/
theorem writing {x : Node} {id : NodeId} (ha : Walked skips ids ns a) (hx : x.ids ⊆ ids ++ [id])
    (hwritten : Regular skips ids ns → ∀ {r : Resolution}, r.Ok →
      ∀ i ∈ x.written, (a r).2.tree.NotesWrite i)
    (hfunc : ∀ f, x ≠ .func f) : Walked skips (ids ++ [id]) (x :: ns) a :=
  fun h => ((ha h.parts).mono (List.subset_append_left _ _)).writing hx
    (hwritten h.parts) hfunc

end Walked

/-- A step that leaves nothing behind. -/
theorem Walks.quiet (h : ∀ {r : Resolution}, r.Ok → Builds r.tree.scopes.size (· ∈ ids) r (a r).2) :
    Walks skips ids [] a :=
  ⟨.nil, h, fun _ _ => nofun⟩

/-- A part of the walk after which it returns to where it was. -/
theorem Walks.stays (ha : Walks skips ids ns a) : Walks skips ids ns (inside a) where
  within := ha.within
  builds := fun {r} hr => by
    have h := ha.builds hr
    rw [inside_apply, ← h.current]
    exact h
  knows := ha.knows

/-- A part of the walk in a scope of its own, in which something is declared first. -/
theorem Walks.nested (kind : ScopeKind) {node : NodeId} (decl : ScopeId → Resolve Unit)
    (hids : ids ⊆ ids') (hnode : node ∈ ids') (hnode' : node ∉ ids)
    (hdecl : ∀ {r : Resolution}, r.Ok → Builds r.current (· ∈ ids') r (decl r.current r).2)
    (hopens : ∀ s, OpensNothing (decl s)) (ha : Walks skips ids ns a) :
    Walks skips ids' ns (inside do decl (← openScope kind node); a) where
  within := ha.within.mono hids
  builds := fun {r} hr => by
    refine builds_inside hr (fun scope => do decl scope; a) hnode ?_
    have hopen := ok_openScope hr kind node
    have hcurrent : (openScope kind node r).2.current = r.tree.scopes.size := by
      rw [openScope_apply]
    have h := hdecl hopen
    rw [hcurrent] at h
    have hok := h.ok' hopen
    refine h.trans hopen ((ha.builds hok).mono hok ?_ hids)
    exact (hcurrent ▸ hopen.inside).le.trans h.grows.size
  knows := fun {r} hr hunopened x hx => by
    have hopen := ok_openScope hr kind node
    have hcurrent : (openScope kind node r).2.current = r.tree.scopes.size := by
      rw [openScope_apply]
    have h := hdecl hopen
    rw [hcurrent] at h
    have hfirst : (openScope kind node r).1 = r.tree.scopes.size := by rw [openScope_apply]
    rw [inside_apply, bind_apply, hfirst]
    refine (ha.knows (h.ok' hopen) (fun id hid => ?_) x hx).mono ?_
    · have hgrows : r.tree.Grows 0 (· ∈ [node]) (fun _ => True)
          (withScope r kind node (fnScopeOf r kind)) :=
        grows_withScope kind List.mem_cons_self _ (Nat.zero_le _) trivial
      have hkept := (hopens r.tree.scopes.size (openScope kind node r).2)
      rw [ScopeTree.scopeOf, hkept, openScope_apply]
      refine (hgrows.scopeOf id fun h => ?_).trans (hunopened id (hids hid))
      exact hnode' (List.mem_singleton.mp h ▸ hid)
    · exact (hcurrent ▸ hopen.inside).le.trans h.grows.size

/-! ## Ids of declarations -/

theorem mem_ids_of_varNames {body : List Stmt} {i : Ident}
    (h : i ∈ (stmtNodes false body).flatMap Node.varNames) : i.id ∈ stmtIds body := by
  obtain ⟨n, hn, hi⟩ := List.mem_flatMap.mp h
  refine stmtNodes_within body n hn ?_
  have hdecls (d : VarDecl) (hi : i ∈ if d.kind == .var then d.decls.map (·.name) else []) :
      i.id ∈ d.ids := by
    obtain ⟨id, kind, decls⟩ := d
    split at hi
    · obtain ⟨x, hx, rfl⟩ := List.mem_map.mp hi
      exact List.mem_append_left _ (mem_declIds hx)
    · cases hi
  cases n with
  | decl d => exact hdecls d hi
  | loopDecl d => exact hdecls d hi
  | _ => cases hi

theorem mem_ids_of_functionDecl {body : List Stmt} {x : Ident × Func}
    (h : x ∈ (stmtNodes false body).filterMap Node.functionDecl?) : x.1.id ∈ stmtIds body := by
  obtain ⟨n, hn, hx⟩ := List.mem_filterMap.mp h
  refine stmtNodes_within body n hn ?_
  unfold Node.functionDecl? at hx
  split at hx
  · cases hx
    simp [Node.ids, Stmt.ids]
  · cases hx

theorem mem_ids_of_lexical {body : List Stmt} {d : VarDecl} {x : Declarator}
    (hd : .var d ∈ body) (hx : x ∈ d.decls) : x.name.id ∈ stmtIds body := by
  induction body with
  | nil => cases hd
  | cons s rest ih =>
    rw [stmtIds, List.mem_append]
    rcases List.mem_cons.mp hd with rfl | hd
    · obtain ⟨id, kind, decls⟩ := d
      exact Or.inl (List.mem_append_left _ (mem_declIds hx))
    · exact Or.inr (ih hd)

/-! ## Functions -/

theorem notesWrite_declareParams {r : Resolution} (hr : r.Ok) {scope : Nat}
    (hscope : scope < r.tree.scopes.size) {params : List Ident}
    (hnodup : (params.map (·.id)).Nodup) :
    ∀ p ∈ params, (declareParams scope params r).2.tree.NotesWrite p := by
  induction params generalizing r with
  | nil => exact nofun
  | cons p rest ih =>
    obtain ⟨hp, hrest⟩ := List.nodup_cons.mp hnodup
    have hdeclare : Builds 0 (fun _ => True) r (declareIn scope p .param r).2 :=
      builds_declareIn hr nofun trivial hscope (Nat.zero_le _)
    have hr₁ := hdeclare.ok' hr
    set r₁ := (declareIn scope p .param r).2
    have hsite : Builds 0 (fun _ => True) r₁ (noteSite p .init r₁).2 :=
      builds_noteSite hr₁ trivial .init
    have hr₂ := hsite.ok' hr₁
    have hlt : scope < (noteSite p .init r₁).2.tree.scopes.size :=
      hscope.trans_le (hdeclare.grows.size.trans hsite.grows.size)
    have happly : (declareParams scope (p :: rest) r).2 =
        (declareParams scope rest (noteSite p .init r₁).2).2 := by
      rw [declareParams, List.mapM_cons]
      rfl
    rw [happly]
    intro q hq
    rcases List.mem_cons.mp hq with rfl | hq
    · have hbuilds : Builds 0 (· ∈ rest.map (·.id)) (noteSite q .init r₁).2
          (declareParams scope rest (noteSite q .init r₁).2).2 :=
        builds_declareParams hr₂ hlt (Nat.zero_le _) fun i hi => List.mem_map_of_mem hi
      exact (notesWrite_noteSite hr₁ q rfl).grow hbuilds.grows hp
    · exact ih hr₂ hlt hrest q hq

/-- The walk where the body of a function starts. -/
def atBody (name : FunctionName) (id : NodeId) (params : List Ident) (bodyId : NodeId)
    (body : List Stmt) (r : Resolution) : Resolution :=
  (declareRest name body r.tree.scopes.size (afterParams id params (entered r id bodyId))).2

theorem onFunc_apply (name : FunctionName) (id : NodeId) (params : List Ident) (bodyId : NodeId)
    (body : List Stmt) (r : Resolution) : (onFunc ⟨id, params, ⟨bodyId, body⟩⟩ name r).2 =
      let r' := (onStmts body (atBody name id params bodyId body r)).2
      { r' with current := r.current, functions := r'.functions.tail } := by
  rw [onFunc, inside_apply, bind_apply, enterFunction_apply, bind_apply]
  rfl

section

variable {name : FunctionName} {id bodyId : NodeId} {params : List Ident} {body : List Stmt}
  {r : Resolution} {J : NodeId → Prop}

theorem builds_restOfFunction (hr : r.Ok) (hid : J id) (hname : ∀ i ∈ name.ids, J i)
    (hbody : ∀ i ∈ stmtIds body, J i) {r₂ : Resolution}
    (hr₂ : Builds r.tree.scopes.size (fun _ => True) (entered r id bodyId) r₂) :
    Builds r.tree.scopes.size J r₂ (declareRest name body r.tree.scopes.size r₂).2 := by
  have hr₁ := ok_entered hr id bodyId
  have hcurrent : r₂.current = r.tree.scopes.size := hr₂.current
  have hfn : (r₂.tree.scope r₂.current).fnScope = r₂.current := by
    rw [hr₂.current, hr₂.grows.fnScope _ hr₁.inside]
    exact congrArg Scope.fnScope (entered_scope r id bodyId)
  rw [← hcurrent]
  refine builds_declareRest (hr₂.ok' hr₁) hfn hr₂.functions (Nat.le_refl _) hid
    (fun i hi => hname i.id ?_) (fun i hi => hbody _ (mem_ids_of_varNames hi))
    (fun x hx => hbody _ (mem_ids_of_functionDecl hx))
    (fun d hd x hx => hbody _ (mem_ids_of_lexical hd hx))
  rw [hi]
  exact List.mem_cons_self

theorem builds_atBody (hr : r.Ok) (hid : J id) (hname : ∀ i ∈ name.ids, J i)
    (hparams : ∀ p ∈ params, J p.id) (hbody : ∀ i ∈ stmtIds body, J i) :
    Builds r.tree.scopes.size J (entered r id bodyId) (atBody name id params bodyId body r) := by
  have hr₁ := ok_entered hr id bodyId
  have h : Builds r.tree.scopes.size J (entered r id bodyId)
      (afterParams id params (entered r id bodyId)) :=
    builds_afterParams hr₁ (Nat.le_refl _) (entered_scopeOf r id bodyId) hid hparams
  exact h.trans hr₁ (builds_restOfFunction hr hid hname hbody
    (h.mono hr₁ (Nat.le_refl _) fun _ _ => trivial))

/-- The parameters are noted as written where the body starts. -/
theorem notesWrite_atBody (hr : r.Ok)
    (hnodup : (params.map (·.id)).Nodup) {p : Ident} (hp : p ∈ params) (hid : p.id ≠ id)
    (hname : p.id ∉ name.ids) (hbody : p.id ∉ stmtIds body) :
    (atBody name id params bodyId body r).tree.NotesWrite p := by
  have hr₁ := ok_entered hr id bodyId
  have hafter : (afterParams id params (entered r id bodyId)).tree.NotesWrite p :=
    notesWrite_declareParams hr₁ hr₁.inside hnodup p hp
  have h : Builds r.tree.scopes.size (fun _ => True) (entered r id bodyId)
      (afterParams id params (entered r id bodyId)) :=
    builds_afterParams hr₁ (Nat.le_refl _) (entered_scopeOf r id bodyId) trivial fun _ _ => trivial
  refine hafter.grow (builds_restOfFunction (J := (· ≠ p.id)) hr hid.symm ?_ ?_ h).grows
    (not_not_intro rfl)
  · rintro i hi rfl
    exact hname hi
  · rintro i hi rfl
    exact hbody hi

end

/-- Entering a function opens scopes for it and its body. -/
theorem unopened_atBody {name : FunctionName} {id bodyId : NodeId} {params : List Ident}
    {body : List Stmt} {r : Resolution} {ids : List NodeId} (h : r.tree.Unopened ids)
    (hid : id ∉ ids) (hbody : bodyId ∉ ids) :
    (atBody name id params bodyId body r).tree.Unopened ids := by
  intro key hkey
  have hgrows : r.tree.Grows 0 (fun key => key = id ∨ key = bodyId) (fun _ => True)
      (entered r id bodyId).tree :=
    grows_entered (Or.inl rfl) (Or.inr rfl) (Nat.zero_le _) trivial
  have hkept : (atBody name id params bodyId body r).tree.nodeScopes =
      (entered r id bodyId).tree.nodeScopes :=
    (opensNothing_declareRest name body _ _).trans (opensNothing_declareParams _ params _)
  rw [ScopeTree.scopeOf, hkept]
  refine (hgrows.scopeOf key ?_).trans (h key hkey)
  rintro (rfl | rfl)
  · exact hid hkey
  · exact hbody hkey

theorem walks_func {id bodyId : NodeId} {params : List Ident} {body : List Stmt}
    {name : FunctionName} (hbody : Walked skips (stmtIds body) (stmtNodes true body) (onStmts body))
    (hregular : Regular skips (name.ids ++ Func.ids ⟨id, params, ⟨bodyId, body⟩⟩)
      (Func.nodes true ⟨id, params, ⟨bodyId, body⟩⟩)) :
    Walks skips (name.ids ++ Func.ids ⟨id, params, ⟨bodyId, body⟩⟩)
      (Func.nodes true ⟨id, params, ⟨bodyId, body⟩⟩)
      (onFunc ⟨id, params, ⟨bodyId, body⟩⟩ name) := by
  have hwithin := (nodeRules_within.fn ⟨id, params, ⟨bodyId, body⟩⟩).mono
    (List.subset_append_right name.ids _)
  have hstmts : Walks skips (stmtIds body) (stmtNodes true body) (onStmts body) := by
    refine hbody ⟨?_, fun hs d hd => hregular.bare hs d ?_⟩
    · have h := hregular.nodup
      simp only [Func.ids, Block.ids, List.nodup_append'] at h
      exact h.2.1.1.2.1.1
    · exact List.mem_cons_of_mem _ (List.mem_append_right _ hd)
  have hdistinct : id ∉ stmtIds body ∧ bodyId ∉ stmtIds body := by
    have h := hregular.nodup
    simp only [Func.ids, Block.ids, List.nodup_append', List.disjoint_singleton,
      List.mem_append, not_or] at h
    exact ⟨h.2.1.2.2.2.1, h.2.1.1.2.1.2.2⟩
  have hsub : ∀ i ∈ stmtIds body, i ∈ name.ids ++ Func.ids ⟨id, params, ⟨bodyId, body⟩⟩ := by
    intro i hi
    simp [Func.ids, Block.ids, hi]
  have hatBody {r : Resolution} (hr : r.Ok) : Builds r.tree.scopes.size
      (· ∈ name.ids ++ Func.ids ⟨id, params, ⟨bodyId, body⟩⟩) (entered r id bodyId)
      (atBody name id params bodyId body r) := by
    refine builds_atBody hr (by simp [Func.ids]) (fun i hi => List.mem_append_left _ hi)
      (fun p hp => ?_) hsub
    simp only [Func.ids, List.mem_append, List.mem_map]
    exact Or.inr (Or.inl (Or.inl ⟨p, hp, rfl⟩))
  have hok {r : Resolution} (hr : r.Ok) := (hatBody hr).ok' (ok_entered hr id bodyId)
  have hsize {r : Resolution} (hr : r.Ok) :
      r.tree.scopes.size ≤ (atBody name id params bodyId body r).tree.scopes.size :=
    (ok_entered hr id bodyId).inside.le.trans (hatBody hr).grows.size
  have hwhole {r : Resolution} (hr : r.Ok) : Builds r.tree.scopes.size
      (· ∈ name.ids ++ Func.ids ⟨id, params, ⟨bodyId, body⟩⟩) (entered r id bodyId)
      (onStmts body (atBody name id params bodyId body r)).2 :=
    (hatBody hr).trans (ok_entered hr id bodyId)
      ((hstmts.builds (hok hr)).mono (hok hr) (hsize hr) hsub)
  have hbuilds {r : Resolution} (hr : r.Ok) : Builds r.tree.scopes.size
      (· ∈ name.ids ++ Func.ids ⟨id, params, ⟨bodyId, body⟩⟩) r
      (onFunc ⟨id, params, ⟨bodyId, body⟩⟩ name r).2 := by
    rw [onFunc_apply]
    refine ⟨(hwhole hr).ok, rfl, congrArg List.tail (hwhole hr).functions, ?_⟩
    have hopen : r.tree.Grows r.tree.scopes.size
        (· ∈ name.ids ++ Func.ids ⟨id, params, ⟨bodyId, body⟩⟩) (r.tree.Encloses · r.current)
        (entered r id bodyId).tree :=
      grows_entered (by simp [Func.ids]) (by simp [Func.ids, Block.ids]) (Nat.le_refl _) .refl
    refine grows_nested hr hopen (ok_entered hr id bodyId) rfl ?_ (hwhole hr).grows
    rw [entered_scope]
  refine ⟨hwithin, hbuilds, fun {r} hr hunopened x hx => ?_⟩
  rw [Func.nodes, if_pos rfl, Block.nodes] at hx
  rcases List.mem_cons.mp hx with rfl | hx
  · refine ⟨fun _ p hp => ?_, ?_⟩
    · have hp : p ∈ params := hp
      have hnodup := hregular.nodup
      simp only [Func.ids, Block.ids, List.nodup_append', List.disjoint_append_right,
        List.disjoint_singleton] at hnodup
      have hmem : p.id ∈ params.map (·.id) := List.mem_map_of_mem hp
      have hstmt : p.id ∉ stmtIds body := fun h => hnodup.2.1.1.2.2.1 hmem h
      rw [onFunc_apply]
      refine (notesWrite_atBody hr hnodup.2.1.1.1 hp ?_ ?_ hstmt).grow
        (hstmts.builds (hok hr)).grows hstmt
      · rintro heq
        exact hnodup.2.1.2.2 (heq ▸ List.mem_append_left _ hmem)
      · exact fun h => hnodup.2.2.1.1 h hmem
    · rintro f ⟨⟩
      refine Or.inl ⟨⟨(List.nodup_append'.mp hregular.nodup).2.1, hregular.bare⟩, r, name, hr,
        hunopened.mono (List.subset_append_right _ _), hregular.disjoint, Nat.le_refl _,
        (hbuilds hr).ok, .refl _⟩
  · rcases List.mem_append.mp hx with hx | hx
    · obtain ⟨i, -, rfl⟩ := List.mem_map.mp hx
      exact ⟨fun _ _ hwritten => absurd hwritten List.not_mem_nil, by rintro _ ⟨⟩⟩
    · rw [onFunc_apply]
      refine (hstmts.knows (hok hr) ?_ x hx).mono (hsize hr)
      exact unopened_atBody (hunopened.mono hsub) hdistinct.1 hdistinct.2

/-! ## Parts of expressions -/

/-- The walk over what is assigned to. -/
def onTarget (op : AssignOp) (target : Expr) : Resolve Unit :=
  match target with
  | .ident i => noteSite i (if op = .assign then .assign else .compound)
  | .member _ (.ident o) _ => if op = .assign then noteSite o .propertyWrite else onExpr (.ident o)
  | .index _ (.ident o) key =>
    if op = .assign then do noteSite o .propertyWrite; onExpr key else do onExpr (.ident o); onExpr key
  | target => onExpr target

theorem onExpr_assign (id : NodeId) (op : AssignOp) (left right : Expr) :
    onExpr (.assign id op left right) = (do onTarget op left; onExpr right) := by
  rw [onExpr.eq_def (.assign id op left right)]
  cases left with
  | member _ obj _ => cases obj <;> cases op <;> rfl
  | index _ obj _ => cases obj <;> cases op <;> rfl
  | _ => rfl

/-- The walk over what is called. -/
def onCallee : Expr → Resolve Unit
  | .ident i => noteCallee i
  | callee => onExpr callee

theorem onExpr_call (id : NodeId) (callee : Expr) (args : List Expr) :
    onExpr (.call id callee args) = (do onCallee callee; onExprs args) := by
  cases callee <;> rfl

theorem walked_name (i : Ident) (kind : SiteKind) :
    Walked skips [i.id] [.expr (.ident i), .name i] (noteSite i kind) :=
  fun _ => (walks_noteSite i kind).node (List.Subset.refl _) rfl nofun

theorem walked_onTarget {target : Expr} (op : AssignOp)
    (h : Walked skips target.ids (target.nodes true) (onExpr target))
    (hkey : ∀ id obj key, target = .index id obj key →
      Walked skips key.ids (key.nodes true) (onExpr key)) :
    Walked skips target.ids (target.nodes true) (onTarget op target) := by
  cases target with
  | ident i => exact walked_name i _
  | member id obj name =>
    cases obj with
    | ident o =>
      rw [onTarget]
      split
      · intro _
        have hname : Walks skips _ _ _ :=
          walked_name o .propertyWrite ⟨List.nodup_singleton _, by simp⟩
        exact (hname.mono (List.subset_append_left _ [name.id, id])).node
          (List.Subset.refl _) rfl nofun
      · exact h
    | _ => exact h
  | index id obj key =>
    cases obj with
    | ident o =>
      rw [onTarget]
      split
      · exact ((walked_name o .propertyWrite).seq (hkey id (.ident o) key rfl)).node
          (List.Subset.refl _) rfl nofun
      · exact h
    | _ => exact h
  | _ => exact h

theorem walked_onCallee {callee : Expr} (h : Walked skips callee.ids (callee.nodes true) (onExpr callee)) :
    Walked skips callee.ids (callee.nodes true) (onCallee callee) := by
  cases callee with
  | ident i =>
    refine fun _ => Walks.node (Walks.node (.quiet fun hr => ?_) ?_ rfl nofun) ?_ rfl nofun
    · exact builds_noteCallee hr List.mem_cons_self
    · exact List.Subset.refl _
    · exact List.Subset.refl _
  | _ => exact h

/-! ## Parts of statements -/

/-- What is written and then followed by other code. -/
theorem Walks.wrote {r : Resolution} (hb : Walks skips ids ns b) (hr : r.Ok) (i : Ident)
    (kind : SiteKind) (hkind : kind.isWrite = true) (hi : i.id ∉ ids) :
    ((do noteSite i kind; b) r).2.tree.NotesWrite i := by
  have hsite : Builds r.tree.scopes.size (fun _ => True) r (noteSite i kind r).2 :=
    builds_noteSite hr trivial kind
  exact hb.keeps (hsite.ok' hr) (notesWrite_noteSite hr i hkind) hi

/-- A declared name without a value is only looked up. -/
def bindKnown (i : Ident) : Resolve Unit := do
  let r ← get
  match r.tree.lookup r.current i.name with
  | some v => bind i v
  | none => pure ()

theorem onDeclarators_none (id : NodeId) (name : Ident) (rest : List Declarator) :
    onDeclarators (⟨id, name, none⟩ :: rest) = (do bindKnown name; onDeclarators rest) := by
  funext r
  rw [onDeclarators]
  have hknown : bindKnown name r = (match r.tree.lookup r.current name.name with
    | some v => bind name v
    | none => pure () : Resolve Unit) r := rfl
  change (match r.tree.lookup r.current name.name with
    | some v => do bind name v; onDeclarators rest
    | none => onDeclarators rest : Resolve Unit) r =
      onDeclarators rest (bindKnown name r).2
  rw [hknown]
  cases r.tree.lookup r.current name.name <;> rfl

theorem builds_bindKnown {r : Resolution} (hr : r.Ok) {n : Nat} {J : NodeId → Prop} {i : Ident}
    (hi : J i.id) : Builds n J r (bindKnown i r).2 := by
  change Builds n J r ((match r.tree.lookup r.current i.name with
    | some v => bind i v
    | none => pure () : Resolve Unit) r).2
  cases r.tree.lookup r.current i.name with
  | some v => exact builds_bind hr hi v
  | none => exact Builds.refl hr

/-- A name in front of an `in`. A value there is not followed. -/
theorem walked_loopName (id : NodeId) (name : Ident) {init : Option Expr}
    (hbare : ¬skips → init = none) :
    Walked skips (Declarator.ids ⟨id, name, init⟩) (Declarator.nodes true ⟨id, name, init⟩)
      (noteSite name .forIn) := by
  have hwithin := nodeRules_within.declarator ⟨id, name, init⟩
  have hname : name.id ∈ Declarator.ids ⟨id, name, init⟩ := List.mem_cons_self
  refine fun _ => ⟨hwithin, fun hr => builds_noteSite hr hname .forIn,
    fun {r} hr hunopened x hx => ?_⟩
  rcases List.mem_cons.mp hx with rfl | hvalue
  · exact ⟨fun _ => nofun, nofun⟩
  by_cases hs : skips
  · refine ⟨fun h => absurd hs h, ?_⟩
    rintro ⟨fid, params, body⟩ rfl
    have hfid : fid ∈ Declarator.ids ⟨id, name, init⟩ := hwithin _ hx (by simp [Node.ids, Func.ids])
    refine Or.inr ⟨hs, ?_⟩
    rw [ScopeTree.scopeOf, opensNothing_noteSite name .forIn r]
    exact hunopened fid hfid
  · rw [hbare hs] at hvalue
    cases hvalue

/-- The names in front of an `in`. -/
theorem walked_loopNames (ds : List Declarator) (hbare : ¬skips → ∀ x ∈ ds, x.init = none) :
    Walked skips (declIds ds) (declNodes true ds) (ds.forM fun x => noteSite x.name .forIn) ∧
      (Regular skips (declIds ds) (declNodes true ds) → ∀ {r : Resolution}, r.Ok → ∀ x ∈ ds,
        (ds.forM (fun x => noteSite x.name .forIn) r).2.tree.NotesWrite x.name) := by
  induction ds with
  | nil => exact ⟨fun _ => .skip, fun _ _ _ => List.forall_mem_nil _⟩
  | cons d rest ih =>
    obtain ⟨id, name, init⟩ := d
    obtain ⟨ih, ihw⟩ := ih fun hs x hx => hbare hs x (List.mem_cons_of_mem _ hx)
    have hname := walked_loopName id name fun hs => hbare hs _ List.mem_cons_self
    refine ⟨hname.seq ih, fun hregular r hr x hx => ?_⟩
    have hrest := ih hregular.right
    rcases List.mem_cons.mp hx with rfl | hx
    · exact hrest.wrote hr _ _ rfl fun h => hregular.disjoint List.mem_cons_self h
    · have hsite := (hname hregular.left).builds hr
      exact ihw hregular.right (hsite.ok' hr) x hx

theorem walked_block {id : NodeId} {stmts : List Stmt}
    (h : Walked skips (stmtIds stmts) (stmtNodes true stmts) (onStmts stmts)) :
    Walked skips (Block.ids ⟨id, stmts⟩) (Block.nodes true ⟨id, stmts⟩) (onBlock ⟨id, stmts⟩) := by
  intro hregular
  have hstmts : Walks skips (stmtIds stmts) (stmtNodes true stmts) (onStmts stmts) :=
    h hregular.unlisted
  refine Walks.nested (.block id) (fun _ => declareLexicals stmts) (List.subset_append_left _ _)
    (List.mem_append_right _ List.mem_cons_self) ?_ (fun hr => ?_)
    (fun _ => opensNothing_declareLexicals stmts) hstmts
  · exact fun hid => hregular.disjoint hid List.mem_cons_self
  · exact builds_declareLexicals hr (Nat.le_refl _) fun d hd x hx =>
      List.mem_append_left _ (mem_ids_of_lexical hd hx)

/-- Declares the parameter of a handler. -/
def declareCaught (param : Option Ident) (scope : ScopeId) : Resolve Unit :=
  match param with
  | some p => do
    discard (declareIn scope p .catchParam)
    noteSite p .init
  | none => pure ()

theorem opensNothing_declareCaught (param : Option Ident) (scope : ScopeId) :
    OpensNothing (declareCaught param scope) := by
  cases param with
  | none => exact .pure _
  | some p =>
    have hdeclare : OpensNothing (discard (declareIn scope p .catchParam)) :=
      opensNothing_declareIn scope p .catchParam
    exact hdeclare.bind fun _ => opensNothing_noteSite p .init

theorem onHandler?_some (id : NodeId) (param : Option Ident) (body : Block) :
    onHandler? (some ⟨id, param, body⟩) =
      inside (do declareCaught param (← openScope (.catch id) id); onBlock body) := by
  cases param <;> rfl

theorem walks_handler {id : NodeId} {param : Option Ident} {body : Block}
    (h : Walked skips body.ids (body.nodes true) (onBlock body))
    (hregular : Regular skips (Ident.ids? param ++ body.ids ++ [id])
      (Node.name? param ++ body.nodes true)) :
    Walks skips (Ident.ids? param ++ body.ids ++ [id]) (Node.name? param ++ body.nodes true)
        (onHandler? (some ⟨id, param, body⟩)) ∧
      ∀ p, param = some p → ∀ {r : Resolution}, r.Ok →
        (onHandler? (some ⟨id, param, body⟩) r).2.tree.NotesWrite p := by
  have hnodup := List.nodup_append'.mp (List.nodup_append'.mp hregular.nodup).1
  have hbody := h ⟨hnodup.2.1, fun hs d hd => hregular.bare hs d (List.mem_append_right _ hd)⟩
  have hdecl {r : Resolution} (hr : r.Ok) : Builds r.current
      (· ∈ Ident.ids? param ++ body.ids ++ [id]) r (declareCaught param r.current r).2 := by
    cases param with
    | none => exact Builds.refl hr
    | some p =>
      have hdeclare : Builds r.current (· ∈ Ident.ids? (some p) ++ body.ids ++ [id]) r
          (declareIn r.current p .catchParam r).2 :=
        builds_declareIn hr nofun (by simp [Ident.ids?]) hr.inside (Nat.le_refl _)
      exact hdeclare.trans hr (builds_noteSite (hdeclare.ok' hr) (by simp [Ident.ids?]) _)
  rw [onHandler?_some]
  refine ⟨?_, ?_⟩
  · have hwalks : Walks skips (Ident.ids? param ++ body.ids ++ [id]) (body.nodes true)
        (inside (do declareCaught param (← openScope (.catch id) id); onBlock body)) :=
      .nested (.catch id) (declareCaught param)
        (fun i hi => List.mem_append_left _ (List.mem_append_right _ hi))
        (List.mem_append_right _ List.mem_cons_self)
        (fun hid => hregular.disjoint (List.mem_append_right _ hid) List.mem_cons_self) hdecl
        (opensNothing_declareCaught param) hbody
    cases param with
    | none => exact hwalks
    | some p => exact hwalks.node (by simp [Node.ids, Ident.ids?]) rfl (by rintro _ ⟨⟩)
  · rintro p rfl r hr
    have hopen := ok_openScope hr (.catch id) id
    have hdeclare : Builds 0 (fun _ => True) (openScope (.catch id) id r).2
        (declareIn (openScope (.catch id) id r).1 p .catchParam (openScope (.catch id) id r).2).2 := by
      refine builds_declareIn hopen nofun trivial ?_ (Nat.zero_le _)
      have hinside := hopen.inside
      rw [openScope_apply] at hinside ⊢
      exact hinside
    rw [inside_apply, bind_apply, bind_apply, declareCaught, bind_apply]
    have hwrote := hbody.wrote (hdeclare.ok' hopen) p .init rfl
      fun hi => hnodup.2.2 List.mem_cons_self hi
    rw [bind_apply] at hwrote
    exact hwrote

/-- A loop, whose head may have a scope. -/
theorem walked_loop {id : NodeId} {head : Option ForHead} (ha : Walked skips ids ns a)
    (hhead : ∀ d, head = some (.decl d) → ∀ x ∈ d.decls, x.name.id ∈ ids) :
    Walked skips (ids ++ [id]) ns (inside do openLoop id head; a) := by
  intro hregular
  have hparts := ha hregular.unlisted
  have hwalks := hparts.mono (List.subset_append_left ids [id])
  cases head with
  | none => exact hwalks.stays
  | some head =>
    cases head with
    | expr e => exact hwalks.stays
    | decl d =>
      by_cases hkind : d.kind = .var
      · have hopen : openLoop id (some (.decl d)) = pure () := by
          rw [openLoop, if_neg (not_not_intro hkind)]
        rw [hopen]
        exact hwalks.stays
      · have hopen : openLoop id (some (.decl d)) = (do
            discard (openScope (.block id) id)
            declareLexical d) := by
          rw [openLoop, if_pos hkind]
        rw [hopen]
        refine Walks.nested (.block id) (fun _ => declareLexical d) (List.subset_append_left _ _)
          (List.mem_append_right _ List.mem_cons_self) ?_ (fun hr => ?_)
          (fun _ => opensNothing_declareLexical d) hparts
        · exact fun hid => hregular.disjoint hid List.mem_cons_self
        · exact builds_declareLexical hr (Nat.le_refl _) fun x hx =>
            List.mem_append_left _ (hhead d rfl x hx)

/-! ## The whole walk -/

mutual

theorem walked_onExpr (e : Expr) : Walked skips e.ids (e.nodes true) (onExpr e) := by
  cases e with
  | this id =>
    refine fun _ => Walks.node (.quiet fun hr => ?_) (List.Subset.refl _) rfl nofun
    exact builds_modifyFunction hr fun _ => ⟨rfl, rfl, rfl, rfl⟩
  | array id elems => exact (walked_onElems elems).node (List.Subset.refl _) rfl nofun
  | object id props => exact (walked_onProps props).node (List.Subset.refl _) rfl nofun
  | function id name fn =>
    have hfn := walked_onFunc fn (name.elim .none .own)
    cases name with
    | none => exact hfn.node (List.Subset.refl _) rfl nofun
    | some i =>
      have hname : Walked skips (Ident.ids? (some i) ++ fn.ids) (.name i :: fn.nodes true)
          (onFunc fn (.own i)) :=
        hfn.wrap (List.cons_subset_cons _ (List.nil_subset _)) rfl nofun
      exact hname.node (List.Subset.refl _) rfl nofun
  | unary id op arg => exact (walked_onExpr arg).node (List.Subset.refl _) rfl nofun
  | update id op before arg =>
    have harg := walked_onExpr arg
    cases arg with
    | ident i =>
      refine (walked_name i .compound).writing (List.Subset.refl _) (fun _ r hr j hj => ?_) nofun
      rw [List.mem_singleton.mp hj]
      exact notesWrite_noteSite hr i rfl
    | _ => exact harg.node (List.Subset.refl _) rfl nofun
  | binary id op left right =>
    exact ((walked_onExpr left).seq (walked_onExpr right)).node (List.Subset.refl _) rfl nofun
  | assign id op left right =>
    have hright := walked_onExpr right
    have hkey : ∀ id obj key, left = .index id obj key →
        Walked skips key.ids (key.nodes true) (onExpr key) := by
      cases left with
      | index _ _ key =>
        have hkey := walked_onExpr key
        rintro _ _ _ ⟨⟩
        exact hkey
      | _ => exact nofun
    have hleft := walked_onTarget op (walked_onExpr left) hkey
    rw [onExpr_assign]
    cases left with
    | ident i =>
      refine (hleft.seq hright).writing (List.Subset.refl _) (fun h r hr j hj => ?_) nofun
      rw [List.mem_singleton.mp hj]
      refine (hright h.right).wrote hr i _ ?_ fun hi => h.disjoint List.mem_cons_self hi
      split <;> rfl
    | _ => exact (hleft.seq hright).node (List.Subset.refl _) rfl nofun
  | member id obj name =>
    intro h
    have hobj := walked_onExpr obj h.tail.unlisted
    exact (hobj.mono (List.subset_append_left _ _)).node (List.Subset.refl _) rfl nofun
  | index id obj key =>
    exact ((walked_onExpr obj).seq (walked_onExpr key)).node (List.Subset.refl _) rfl nofun
  | cond id test yes no =>
    exact (((walked_onExpr test).seq (walked_onExpr yes)).seq (walked_onExpr no)).node
      (List.Subset.refl _) rfl nofun
  | call id callee args =>
    rw [onExpr_call]
    exact ((walked_onCallee (walked_onExpr callee)).seq (walked_onExprs args)).node
      (List.Subset.refl _) rfl nofun
  | new id callee args =>
    exact ((walked_onExpr callee).seq (walked_onExprs args)).node (List.Subset.refl _) rfl nofun
  | seq id exprs => exact (walked_onExprs exprs).node (List.Subset.refl _) rfl nofun
  | ident i => exact walked_name i .read
  | _ => exact fun _ => Walks.skip.node (List.Subset.refl _) rfl nofun
termination_by structural e

theorem walked_onElems (es : List (Option Expr)) :
    Walked skips (elemIds es) (elemNodes true es) (onElems es) := by
  match es with
  | [] => exact fun _ => .skip
  | none :: rest => exact walked_onElems rest
  | some e :: rest => exact (walked_onExpr e).seq (walked_onElems rest)
termination_by structural es

theorem walked_onExprs (es : List Expr) : Walked skips (exprIds es) (exprNodes true es) (onExprs es) := by
  match es with
  | [] => exact fun _ => .skip
  | e :: rest => exact (walked_onExpr e).seq (walked_onExprs rest)
termination_by structural es

theorem walked_onExpr? (e : Option Expr) :
    Walked skips (exprIds? e) (exprNodes? true e) (onExpr? e) := by
  match e with
  | none => exact fun _ => .skip
  | some e => exact walked_onExpr e
termination_by structural e

theorem walked_onKey (key : PropertyKey) : Walked skips key.ids (key.nodes true) (onKey key) := by
  match key with
  | .ident _ | .string _ _ | .number _ _ => exact fun _ => .skip
  | .computed e => exact walked_onExpr e
termination_by structural key

theorem walked_onProperty (p : Property) : Walked skips p.ids (p.nodes true) (onProperty p) := by
  match p with
  | .value _ key value => exact ((walked_onKey key).seq (walked_onExpr value)).unlisted
  | .getter _ key fn => exact ((walked_onKey key).seq (walked_onFunc fn .none)).unlisted
  | .setter _ key fn => exact ((walked_onKey key).seq (walked_onFunc fn .none)).unlisted
termination_by structural p

theorem walked_onProps (ps : List Property) : Walked skips (propIds ps) (propNodes true ps) (onProps ps) := by
  match ps with
  | [] => exact fun _ => .skip
  | p :: rest => exact (walked_onProperty p).seq (walked_onProps rest)
termination_by structural ps

theorem walked_onFunc (f : Func) (name : FunctionName) :
    Walked skips (name.ids ++ f.ids) (f.nodes true) (onFunc f name) := by
  match f with
  | ⟨_, _, ⟨_, stmts⟩⟩ => exact fun h => walks_func (walked_onStmts stmts) h
termination_by structural f

theorem walked_onBlock (b : Block) : Walked skips b.ids (b.nodes true) (onBlock b) := by
  match b with
  | ⟨_, stmts⟩ => exact walked_block (walked_onStmts stmts)
termination_by structural b

theorem walked_onBlock? (b : Option Block) :
    Walked skips (blockIds? b) (blockNodes? true b) (onBlock? b) := by
  match b with
  | none => exact fun _ => .skip
  | some b => exact walked_onBlock b
termination_by structural b

theorem walked_onDeclarators (ds : List Declarator) :
    Walked skips (declIds ds) (declNodes true ds) (onDeclarators ds) ∧
      (Regular skips (declIds ds) (declNodes true ds) → ∀ {r : Resolution}, r.Ok →
        ∀ x ∈ ds, x.init.isSome = true → (onDeclarators ds r).2.tree.NotesWrite x.name) := by
  match ds with
  | [] => exact ⟨fun _ => .skip, fun _ _ _ => nofun⟩
  | ⟨id, name, none⟩ :: rest =>
    obtain ⟨hrest, hwrites⟩ := walked_onDeclarators rest
    have hname : Walked skips ([name.id] ++ [id]) [.name name] (bindKnown name) := by
      refine fun _ => Walks.node (.quiet fun hr => ?_) ?_ rfl nofun
      · exact builds_bindKnown hr List.mem_cons_self
      · exact List.cons_subset_cons _ (List.nil_subset _)
    rw [onDeclarators_none]
    refine ⟨hname.seq hrest, fun h r hr x hx hsome => ?_⟩
    rcases List.mem_cons.mp hx with rfl | hx
    · cases hsome
    · exact hwrites h.right (((hname h.left).builds hr).ok' hr) x hx hsome
  | ⟨id, name, some e⟩ :: rest =>
    have he := walked_onExpr e
    obtain ⟨hrest, hwrites⟩ := walked_onDeclarators rest
    have hname : Walked skips [name.id] [.name name] (noteSite name .init) :=
      fun _ => walks_noteSite name .init
    have hfirst : Walked skips ([name.id] ++ e.ids ++ [id]) ([.name name] ++ e.nodes true)
        (do noteSite name .init; onExpr e) :=
      (hname.seq he).unlisted
    refine ⟨hfirst.seq hrest, fun h r hr x hx hsome => ?_⟩
    have hr' := ((hfirst h.left).builds hr).ok' hr
    rcases List.mem_cons.mp hx with rfl | hx
    · have hparts : Regular skips ([name.id] ++ e.ids) ([.name name] ++ e.nodes true) := h.left.unlisted
      have hwrote := (he hparts.right).wrote hr name .init rfl
        fun hi => hparts.disjoint List.mem_cons_self hi
      exact (hrest h.right).keeps hr' hwrote fun hi => h.disjoint List.mem_cons_self hi
    · exact hwrites h.right hr' x hx hsome
termination_by structural ds

theorem walked_onVarDecl (d : VarDecl) : Walked skips d.ids (d.nodes true) (onDeclarators d.decls) := by
  match d with
  | ⟨_, _, decls⟩ =>
    obtain ⟨hwalked, hwrites⟩ := walked_onDeclarators decls
    refine hwalked.writing (List.Subset.refl _) (fun hregular r hr i hi => ?_) nofun
    obtain ⟨x, hx, rfl⟩ := List.mem_map.mp hi
    obtain ⟨hx, hinit⟩ := List.mem_filter.mp hx
    exact hwrites hregular hr x hx hinit
termination_by structural d

theorem walked_onHead? (h : Option ForHead) :
    Walked skips (headIds? h) (headNodes? true h) (onHead? h) := by
  match h with
  | none => exact fun _ => .skip
  | some (.expr e) => exact walked_onExpr e
  | some (.decl d) =>
    have hd := walked_onVarDecl d
    obtain ⟨_, _, decls⟩ := d
    exact hd
termination_by structural h

theorem walked_onLoopHead (h : ForHead) :
    Walked skips h.ids (h.loopNodes true) (onLoopHead h) ∧
      ∀ i, h = .expr (.ident i) → ∀ {r : Resolution}, r.Ok →
        (onLoopHead h r).2.tree.NotesWrite i := by
  match h with
  | .expr e =>
    have he := walked_onExpr e
    cases e with
    | ident i =>
      refine ⟨walked_name i .forIn, ?_⟩
      rintro _ ⟨⟩ r hr
      exact notesWrite_noteSite hr i rfl
    | _ => exact ⟨he, nofun⟩
  | .decl ⟨_, _, decls⟩ =>
    refine ⟨fun hregular => ?_, nofun⟩
    have hbare (hs : ¬skips) : ∀ x ∈ decls, x.init = none := hregular.bare hs _ List.mem_cons_self
    obtain ⟨hwalked, hwrites⟩ := walked_loopNames decls hbare
    refine hwalked.writing (List.Subset.refl _) (fun hregular r hr i hi => ?_) nofun hregular
    obtain ⟨x, hx, rfl⟩ := List.mem_map.mp hi
    exact hwrites hregular hr x hx
termination_by structural h

theorem walked_onHandler? (c : Option CatchClause) :
    Walked skips (handlerIds? c) (handlerNodes? true c) (onHandler? c) ∧
      (Regular skips (handlerIds? c) (handlerNodes? true c) → ∀ {r : Resolution}, r.Ok →
        ∀ id param body, c = some ⟨id, some param, body⟩ →
          (onHandler? c r).2.tree.NotesWrite param) := by
  match c with
  | none => exact ⟨fun _ => .skip, fun _ _ _ => nofun⟩
  | some ⟨id, param, body⟩ =>
    have hbody := walked_onBlock body
    refine ⟨fun h => (walks_handler hbody h).1, ?_⟩
    rintro h r hr _ p _ ⟨⟩
    exact (walks_handler hbody h).2 p rfl hr
termination_by structural c

theorem walked_onStmt (s : Stmt) : Walked skips s.ids (s.nodes true) (onStmt s) := by
  cases s with
  | block b => exact (walked_onBlock b).wrap (List.Subset.refl _) rfl nofun
  | expr id e => exact (walked_onExpr e).node (List.Subset.refl _) rfl nofun
  | var d =>
    have hd := walked_onVarDecl d
    obtain ⟨_, _, decls⟩ := d
    exact hd.wrap (List.Subset.refl _) rfl nofun
  | function id name fn =>
    have hfn := walked_onFunc fn (.declared name)
    have hname : Walked skips [name.id] [.name name] (noteSite name .init) :=
      fun _ => walks_noteSite name .init
    refine (hname.seq hfn).writing (List.Subset.refl _) (fun h r hr i hi => ?_) nofun
    rw [List.mem_singleton.mp hi]
    exact (hfn h.right).wrote hr name .init rfl fun hi => h.disjoint List.mem_cons_self hi
  | «if» id test yes no =>
    exact (((walked_onExpr test).seq (walked_onStmt yes)).seq (walked_onStmt? no)).node
      (List.Subset.refl _) rfl nofun
  | «for» id init test update body =>
    have hparts := (((walked_onHead? init).seq (walked_onExpr? test)).seq
      (walked_onExpr? update)).seq (walked_onStmt body)
    refine (walked_loop hparts ?_).wrap (List.Subset.refl _) rfl nofun
    rintro ⟨_, _, decls⟩ rfl x hx
    simp only [headIds?, ForHead.ids, VarDecl.ids, List.mem_append]
    exact Or.inl (Or.inl (Or.inl (Or.inl (mem_declIds hx))))
  | forIn id head obj body =>
    obtain ⟨hhead, hwrites⟩ := walked_onLoopHead head
    have hobj := walked_onExpr obj
    have hbody := walked_onStmt body
    have hloop : Walked skips (head.ids ++ obj.ids ++ body.ids ++ [id])
        (head.loopNodes true ++ obj.nodes true ++ body.nodes true)
        (inside do openLoop id (some head); onLoopHead head; onExpr obj; onStmt body) := by
      refine walked_loop ((hhead.seq hobj).seq hbody) ?_
      rintro ⟨_, _, decls⟩ ⟨⟩ x hx
      simp only [ForHead.ids, VarDecl.ids, List.mem_append]
      exact Or.inl (Or.inl (Or.inl (mem_declIds hx)))
    refine fun h => (hloop h.tail).writing (List.Subset.refl _) (fun {r} hr i hi => ?_) nofun
    cases head with
    | decl d => cases hi
    | expr e =>
      cases e with
      | ident name =>
        rw [List.mem_singleton.mp hi]
        have hparts := h.parts
        have hwrote := (hobj hparts.left.right).wrote hr name .forIn rfl
          fun hi => hparts.left.disjoint List.mem_cons_self hi
        have hbuilds := ((hhead.seq hobj) hparts.left).builds hr
        exact (hbody hparts.right).keeps (hbuilds.ok' hr) hwrote
          fun hi => hparts.disjoint List.mem_cons_self hi
      | _ => cases hi
  | «while» id test body =>
    exact ((walked_onExpr test).seq (walked_onStmt body)).node (List.Subset.refl _) rfl nofun
  | doWhile id body test =>
    exact ((walked_onStmt body).seq (walked_onExpr test)).node (List.Subset.refl _) rfl nofun
  | «return» id arg => exact (walked_onExpr? arg).node (List.Subset.refl _) rfl nofun
  | labeled id label body =>
    have hlabel : Walked skips [label.id] [] (pure ()) := fun _ => .skip
    exact (hlabel.seq (walked_onStmt body)).node (List.Subset.refl _) rfl nofun
  | throw id arg => exact (walked_onExpr arg).node (List.Subset.refl _) rfl nofun
  | «with» id obj body =>
    have hnote : Walked skips [] [] noteDynamicScope := fun _ => .quiet builds_noteDynamicScope
    exact ((hnote.seq (walked_onExpr obj)).seq (walked_onStmt body)).node
      (List.Subset.refl _) rfl nofun
  | «try» id block handler finalizer =>
    obtain ⟨hhandler, hwrites⟩ := walked_onHandler? handler
    have hfinalizer := walked_onBlock? finalizer
    have hblock := walked_onBlock block
    have hparts := (hblock.seq hhandler).seq hfinalizer
    refine hparts.writing (List.Subset.refl _) (fun h r hr i hi => ?_) nofun
    have hblock' := ((hblock h.left.left).builds hr).ok' hr
    have hhandler' := ((hhandler h.left.right).builds hblock').ok' hblock'
    match handler with
    | none => cases hi
    | some ⟨_, none, _⟩ => cases hi
    | some ⟨cid, some param, body⟩ =>
      rw [List.mem_singleton.mp hi]
      have hwrote := hwrites h.left.right hblock' cid param body rfl
      refine (hfinalizer h.right).keeps hhandler' hwrote fun hi => h.disjoint ?_ hi
      exact List.mem_append_right _ List.mem_cons_self
  | _ => exact fun _ => Walks.skip.node (List.Subset.refl _) rfl nofun
termination_by structural s

theorem walked_onStmt? (s : Option Stmt) :
    Walked skips (stmtIds? s) (stmtNodes? true s) (onStmt? s) := by
  match s with
  | none => exact fun _ => .skip
  | some s => exact walked_onStmt s
termination_by structural s

theorem walked_onStmts (ss : List Stmt) : Walked skips (stmtIds ss) (stmtNodes true ss) (onStmts ss) := by
  match ss with
  | [] => exact fun _ => .skip
  | s :: rest => exact (walked_onStmt s).seq (walked_onStmts rest)
termination_by structural ss

end

end

/-- The walk before anything is declared. -/
def atProgram (p : Program) : Resolution :=
  { tree := {
      scopes := #[{ parent := none, kind := .program, fnScope := ScopeTree.root }]
      nodeScopes := Std.TreeMap.empty.insert p.id ScopeTree.root } }

theorem ok_atProgram (p : Program) : (atProgram p).Ok := by
  have hscope : ∀ s, ((atProgram p).tree.scope s).parent = none ∧
      ((atProgram p).tree.scope s).vars = [] := by
    intro s
    cases s <;> exact ⟨rfl, rfl⟩
  refine ⟨⟨Nat.zero_lt_one, rfl, fun s q hq => ?_, fun s hs hroot => ?_, fun s x hx => ?_,
    fun s => ?_, fun v hv => absurd hv (Nat.not_lt_zero v),
    fun v hv => absurd hv (Nat.not_lt_zero v), fun _ _ => rfl⟩, Nat.zero_lt_one⟩
  · rw [(hscope s).1] at hq
    cases hq
  · exact absurd (Nat.lt_one_iff.mp hs) hroot
  · rw [(hscope s).2] at hx
    cases hx
  · rw [(hscope s).2]
    exact List.nodup_nil

/-- The walk where the body of a program starts. -/
def atProgramBody (p : Program) : Resolution :=
  (declareLexicals p.body (hoist p.body (atProgram p)).2).2

theorem builds_atProgramBody (p : Program) :
    Builds 0 (· ∈ p.ids) (atProgram p) (atProgramBody p) := by
  have hstart := ok_atProgram p
  have hhoist : Builds 0 (· ∈ p.ids) (atProgram p) (hoist p.body (atProgram p)).2 :=
    builds_hoist hstart rfl (Nat.zero_le _)
      (fun i hi => List.mem_append_left _ (mem_ids_of_varNames hi))
      (fun x hx => List.mem_append_left _ (mem_ids_of_functionDecl hx))
  exact hhoist.trans hstart (builds_declareLexicals (hhoist.ok' hstart) (Nat.zero_le _)
    fun d hd x hx => List.mem_append_left _ (mem_ids_of_lexical hd hx))

/-- The program itself is the only node with a scope where its body starts. -/
theorem unopened_atProgramBody {p : Program} (h : Regular skips p.ids p.nodes) :
    (atProgramBody p).tree.Unopened (stmtIds p.body) := by
  intro id hid
  have hkept : (atProgramBody p).tree.nodeScopes = (atProgram p).tree.nodeScopes :=
    (opensNothing_declareLexicals p.body _).trans (opensNothing_hoist p.body _)
  rw [ScopeTree.scopeOf, hkept]
  change ((Std.TreeMap.empty : Std.TreeMap NodeId ScopeId).insert p.id ScopeTree.root)[id]? = none
  rw [Std.TreeMap.getElem?_insert, if_neg]
  · rfl
  · rw [Std.LawfulEqCmp.compare_eq_iff_eq]
    rintro rfl
    exact h.disjoint hid List.mem_cons_self

end Resolve

/-- The tree of a regular program knows of all its nodes. -/
theorem ScopeTree.knows_ofProgram {p : Program} (h : Regular skips p.ids p.nodes) :
    (ofProgram p).Ok ∧ ∀ x ∈ p.nodes, (ofProgram p).Knows skips 1 x := by
  have hbody := Resolve.builds_atProgramBody p
  have hok := hbody.ok' (Resolve.ok_atProgram p)
  have hwalks := Resolve.walked_onStmts p.body h.unlisted
  refine ⟨(hwalks.builds hok).ok, fun x hx => ?_⟩
  exact (hwalks.knows hok (Resolve.unopened_atProgramBody h) x hx).mono hbody.grows.size

end EsOptimizer
