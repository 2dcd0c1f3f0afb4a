import EsOptimizer.Proofs.Pass.Reuse

/-!
# Legal programs

What the grammar asks of a program beyond the shape of its tree. Most of it concerns a single node
(`Node.isLegal`): what is assigned to can be assigned to, a sequence has at least two members, and
so on. The rest concerns jumps and labels, which depend on what stands around a statement within its
function (`Stmt.isPlaced`). Both are checks that can be run.
-/

namespace EsOptimizer

/-! ## Jumps and labels -/

/-- What stands around a statement, within its function or program. -/
structure Surroundings where
  inFunction : Bool := false
  inLoop : Bool := false
  /-- The labels around. -/
  labels : List String := []
  /-- Those of them that stand directly on a loop around. -/
  loops : List String := []
  /-- The label that stands directly on the statement. -/
  own : Option String := none
deriving DecidableEq, Repr

namespace Surroundings

/-- Around the body of a function. -/
def function : Surroundings := { inFunction := true }

/-- Around the parts of a statement. -/
def inside (cx : Surroundings) : Surroundings := { cx with own := none }

/-- Around the body of a loop. -/
def loop (cx : Surroundings) : Surroundings :=
  { cx with inLoop := true, loops := cx.own.toList ++ cx.loops, own := none }

/-- Behind a label. -/
def labeled (cx : Surroundings) (label : String) : Surroundings :=
  { cx with labels := label :: cx.labels, own := some label }

end Surroundings

mutual

/-- Whether jumps and labels may stand where they do. Functions inside are left out. -/
def Stmt.isPlaced (cx : Surroundings) : Stmt → Bool
  | .block b => b.isPlaced cx.inside
  | .if _ _ yes no => yes.isPlaced cx.inside && isPlaced? cx.inside no
  | .for _ _ _ _ body | .forIn _ _ _ body | .while _ _ body | .doWhile _ body _ =>
    body.isPlaced cx.loop
  | .return _ _ => cx.inFunction
  | .break _ none | .continue _ none => cx.inLoop
  | .break _ (some label) => cx.labels.contains label.name
  | .continue _ (some label) => cx.loops.contains label.name
  | .labeled _ label body =>
    !cx.labels.contains label.name && body.isPlaced (cx.labeled label.name)
  | .with _ _ body => body.isPlaced cx.inside
  | .try _ block handler finalizer =>
    block.isPlaced cx.inside && handlerPlaced? cx.inside handler &&
      blockPlaced? cx.inside finalizer
  | .empty _ | .expr _ _ | .var _ | .function _ _ _ | .throw _ _ => true

def isPlaced? (cx : Surroundings) : Option Stmt → Bool
  | none => true
  | some s => s.isPlaced cx

def Block.isPlaced (cx : Surroundings) : Block → Bool
  | ⟨_, stmts⟩ => allPlaced cx stmts

def blockPlaced? (cx : Surroundings) : Option Block → Bool
  | none => true
  | some b => b.isPlaced cx

def handlerPlaced? (cx : Surroundings) : Option CatchClause → Bool
  | none => true
  | some ⟨_, _, body⟩ => body.isPlaced cx

def allPlaced (cx : Surroundings) : List Stmt → Bool
  | [] => true
  | s :: rest => s.isPlaced cx && allPlaced cx rest

end

/-! ## Single nodes -/

/-- A getter has no parameter, and a setter one. -/
def Property.isLegal : Property → Bool
  | .value _ _ _ => true
  | .getter _ _ fn => fn.params.length == 0
  | .setter _ _ fn => fn.params.length == 1

/-- Whether a node by itself is as the grammar asks. -/
def Node.isLegal : Node → Bool
  | .expr (.assign _ _ left _) => left.isTarget
  | .expr (.update _ _ _ arg) => arg.isTarget
  | .expr (.seq _ exprs) => 2 ≤ exprs.length
  | .expr (.object _ props) => props.all Property.isLegal
  | .decl d => !d.decls.isEmpty
  | .loopDecl d =>
    match d.decls with
    | [x] => x.init.isNone
    | _ => false
  | .stmt (.forIn _ (.expr e) _ _) => e.isTarget
  | .stmt (.try _ _ handler finalizer) => handler.isSome || finalizer.isSome
  | .func f => f.body.isPlaced .function
  | _ => true

/-- Whether a program is as the grammar asks. -/
def Program.isLegal (p : Program) : Bool := p.nodes.all Node.isLegal && allPlaced {} p.body

/-- Whether a declaration is as the grammar asks depends on which of its names get values. -/
theorem VarDecl.isLegal_congr {d d' : VarDecl}
    (h : d'.decls.map (·.init.isNone) = d.decls.map (·.init.isNone)) :
    (Node.decl d').isLegal = (Node.decl d).isLegal ∧
      (Node.loopDecl d').isLegal = (Node.loopDecl d).isLegal := by
  obtain ⟨id, kind, ds⟩ := d
  obtain ⟨id', kind', ds'⟩ := d'
  match ds, ds' with
  | [], [] => exact ⟨rfl, rfl⟩
  | [_], [_] => exact ⟨rfl, (List.cons.inj h).1⟩
  | _ :: _ :: _, _ :: _ :: _ => exact ⟨rfl, rfl⟩
  | [], _ :: _ | _ :: _, [] | [_], _ :: _ :: _ | _ :: _ :: _, [_] => simp at h

/-! ## Lists -/

theorem allPlaced_iff {cx : Surroundings} {ss : List Stmt} :
    allPlaced cx ss = true ↔ ∀ s ∈ ss, s.isPlaced cx = true := by
  induction ss with
  | nil => simp [allPlaced]
  | cons s rest ih => simp [allPlaced, ih]

/-- Every node of a list is as the grammar asks. -/
def AllLegal (ns : List Node) : Prop := ∀ n ∈ ns, n.isLegal = true

section

variable {n : Node} {ns ms : List Node}

@[simp] theorem allLegal_nil : AllLegal [] := nofun

@[simp] theorem allLegal_cons : AllLegal (n :: ns) ↔ n.isLegal = true ∧ AllLegal ns :=
  List.forall_mem_cons

@[simp] theorem allLegal_append : AllLegal (ns ++ ms) ↔ AllLegal ns ∧ AllLegal ms :=
  List.forall_mem_append

@[simp] theorem allLegal_names (is : List Ident) : AllLegal (is.map .name) := by
  intro n hn
  obtain ⟨i, -, rfl⟩ := List.mem_map.mp hn
  rfl

@[simp] theorem allLegal_name? (name : Option Ident) : AllLegal (Node.name? name) := by
  cases name <;> simp [Node.name?, Node.isLegal]

/-- Every node of a tree is as the grammar asks. -/
def Tree.Legal {α : Type} [Tree α] (a : α) : Prop := AllLegal (Tree.nodes a)

theorem allLegal_stmtNodes {ss : List Stmt} :
    AllLegal (stmtNodes true ss) ↔ ∀ s ∈ ss, AllLegal (s.nodes true) := by
  induction ss with
  | nil => simp [stmtNodes]
  | cons s rest ih => simp [stmtNodes, ih]

end

/-! ## Other surroundings -/

/-- Whatever may stand in `a` may stand in `b`, labels aside. Where there are no jumps, only `return`
counts. -/
structure Surroundings.Within (a : Surroundings) (jumps : Prop) (b : Surroundings) : Prop where
  inFunction : a.inFunction = true → b.inFunction = true
  inLoop : jumps → a.inLoop = true → b.inLoop = true
  labels : jumps → a.labels ⊆ b.labels
  loops : jumps → a.loops ⊆ b.loops
  own : jumps → a.own = none ∨ a.own = b.own

namespace Surroundings.Within

variable {jumps : Prop} {a b : Surroundings}

theorem inside (h : Within a jumps b) : Within a.inside jumps b.inside :=
  { h with own := fun _ => .inl rfl }

theorem loop (h : Within a jumps b) : Within a.loop jumps b.loop := by
  refine { h with inLoop := fun _ _ => rfl, loops := fun hj => ?_, own := fun _ => .inl rfl }
  rcases h.own hj with hown | hown
  · rw [Surroundings.loop, hown]
    exact List.Subset.trans (h.loops hj) (List.subset_append_right _ _)
  · rw [Surroundings.loop, hown]
    exact List.append_subset.mpr ⟨List.subset_append_left _ _,
      List.Subset.trans (h.loops hj) (List.subset_append_right _ _)⟩

theorem labeled (h : Within a jumps b) (label : String) :
    Within (a.labeled label) jumps (b.labeled label) :=
  { h with labels := fun hj => List.cons_subset_cons _ (h.labels hj), own := fun _ => .inr rfl }

end Surroundings.Within

/-- The labels in `b` that are not in `a` occur in no node, and there are jumps only if `jumps`. -/
def Portable (jumps : Prop) (a b : Surroundings) (ns : List Node) : Prop :=
  ∀ n ∈ ns, (n.isJump = true → jumps) ∧ ∀ id label body, n = .stmt (.labeled id label body) →
    label.name ∈ b.labels → label.name ∈ a.labels

section

variable {jumps : Prop} {a b : Surroundings} {n : Node} {ns ms : List Node}

theorem portable_append :
    Portable jumps a b (ns ++ ms) ↔ Portable jumps a b ns ∧ Portable jumps a b ms :=
  List.forall_mem_append

theorem Portable.tail (h : Portable jumps a b (n :: ns)) : Portable jumps a b ns :=
  (List.forall_mem_cons.mp h).2

theorem Portable.labeled (h : Portable jumps a b ns) (name : String) :
    Portable jumps (a.labeled name) (b.labeled name) ns := by
  refine fun n hn => ⟨(h n hn).1, fun id label body hlabel hb => ?_⟩
  rcases List.mem_cons.mp hb with hname | hb
  · rw [hname]
    exact List.mem_cons_self
  · exact List.mem_cons_of_mem _ ((h n hn).2 id label body hlabel hb)

end

mutual

/-- A statement may stand where more is allowed, unless a label there is one of its own. -/
theorem Stmt.isPlaced_mono {jumps : Prop} {a b : Surroundings} (s : Stmt) (hab : a.Within jumps b)
    (hnew : Portable jumps a b (s.nodes false)) (h : s.isPlaced a = true) : s.isPlaced b = true := by
  cases s with
  | block block => exact Block.isPlaced_mono block hab.inside hnew.tail h
  | «if» id test yes no =>
    have hparts := portable_append.mp hnew.tail
    simp only [Stmt.isPlaced, Bool.and_eq_true] at h ⊢
    exact ⟨Stmt.isPlaced_mono yes hab.inside (portable_append.mp hparts.1).2 h.1,
      isPlaced?_mono no hab.inside hparts.2 h.2⟩
  | «for» id init test update body =>
    exact Stmt.isPlaced_mono body hab.loop (portable_append.mp hnew.tail).2 h
  | forIn id head obj body =>
    exact Stmt.isPlaced_mono body hab.loop (portable_append.mp hnew.tail).2 h
  | «while» id test body =>
    exact Stmt.isPlaced_mono body hab.loop (portable_append.mp hnew.tail).2 h
  | doWhile id body test =>
    exact Stmt.isPlaced_mono body hab.loop (portable_append.mp hnew.tail).1 h
  | «return» => exact hab.inFunction h
  | «break» id label =>
    have hj := (hnew _ List.mem_cons_self).1 rfl
    cases label with
    | none => exact hab.inLoop hj h
    | some label => exact List.contains_iff_mem.mpr (hab.labels hj (List.contains_iff_mem.mp h))
  | «continue» id label =>
    have hj := (hnew _ List.mem_cons_self).1 rfl
    cases label with
    | none => exact hab.inLoop hj h
    | some label => exact List.contains_iff_mem.mpr (hab.loops hj (List.contains_iff_mem.mp h))
  | labeled id label body =>
    simp only [Stmt.isPlaced, Bool.and_eq_true, Bool.not_eq_true', List.contains_eq_mem,
      decide_eq_false_iff_not] at h ⊢
    refine ⟨fun hb => h.1 ((hnew _ List.mem_cons_self).2 id label body rfl hb), ?_⟩
    exact Stmt.isPlaced_mono body (hab.labeled _) (hnew.tail.labeled _) h.2
  | «with» id obj body =>
    exact Stmt.isPlaced_mono body hab.inside (portable_append.mp hnew.tail).2 h
  | «try» id block handler finalizer =>
    have hparts := portable_append.mp hnew.tail
    have hfirst := portable_append.mp hparts.1
    simp only [Stmt.isPlaced, Bool.and_eq_true] at h ⊢
    exact ⟨⟨Block.isPlaced_mono block hab.inside hfirst.1 h.1.1,
      handlerPlaced?_mono handler hab.inside hfirst.2 h.1.2⟩,
      blockPlaced?_mono finalizer hab.inside hparts.2 h.2⟩
  | empty | expr | var | function | throw => rfl
termination_by structural s

theorem isPlaced?_mono {jumps : Prop} {a b : Surroundings} (s : Option Stmt) (hab : a.Within jumps b)
    (hnew : Portable jumps a b (stmtNodes? false s)) (h : isPlaced? a s = true) :
    isPlaced? b s = true := by
  match s with
  | none => rfl
  | some s => exact Stmt.isPlaced_mono s hab hnew h
termination_by structural s

theorem Block.isPlaced_mono {jumps : Prop} {a b : Surroundings} (block : Block) (hab : a.Within jumps b)
    (hnew : Portable jumps a b (block.nodes false)) (h : block.isPlaced a = true) :
    block.isPlaced b = true := by
  match block with
  | ⟨_, stmts⟩ => exact allPlaced_mono stmts hab hnew h
termination_by structural block

theorem blockPlaced?_mono {jumps : Prop} {a b : Surroundings} (block : Option Block) (hab : a.Within jumps b)
    (hnew : Portable jumps a b (blockNodes? false block)) (h : blockPlaced? a block = true) :
    blockPlaced? b block = true := by
  match block with
  | none => rfl
  | some block => exact Block.isPlaced_mono block hab hnew h
termination_by structural block

theorem handlerPlaced?_mono {jumps : Prop} {a b : Surroundings} (c : Option CatchClause) (hab : a.Within jumps b)
    (hnew : Portable jumps a b (handlerNodes? false c)) (h : handlerPlaced? a c = true) :
    handlerPlaced? b c = true := by
  match c with
  | none => rfl
  | some ⟨_, _, body⟩ =>
    exact Block.isPlaced_mono body hab (portable_append.mp hnew).2 h
termination_by structural c

theorem allPlaced_mono {jumps : Prop} {a b : Surroundings} (ss : List Stmt) (hab : a.Within jumps b)
    (hnew : Portable jumps a b (stmtNodes false ss)) (h : allPlaced a ss = true) :
    allPlaced b ss = true := by
  match ss with
  | [] => rfl
  | s :: rest =>
    simp only [allPlaced, Bool.and_eq_true] at h ⊢
    exact ⟨Stmt.isPlaced_mono s hab (portable_append.mp hnew).1 h.1,
      allPlaced_mono rest hab (portable_append.mp hnew).2 h.2⟩
termination_by structural ss

end

/-- A label on a statement takes nothing from it. -/
theorem Stmt.isPlaced_of_inside {cx : Surroundings} {s : Stmt} (h : s.isPlaced cx.inside = true) :
    s.isPlaced cx = true := by
  have hwithin : cx.inside.Within True cx :=
    ⟨fun h => h, fun _ h => h, fun _ => List.Subset.refl _, fun _ => List.Subset.refl _,
      fun _ => .inl rfl⟩
  exact s.isPlaced_mono hwithin (fun _ _ => ⟨fun _ => trivial, fun _ _ _ _ h => h⟩) h

/-- Without jumps, a loop around makes no difference. -/
theorem Stmt.isPlaced_of_loop {cx : Surroundings} {s : Stmt} (hjump : s.containsJump = false)
    (h : s.isPlaced cx.loop = true) : s.isPlaced cx.inside = true := by
  have hwithin : cx.loop.Within False cx.inside := ⟨fun h => h, nofun, nofun, nofun, nofun⟩
  refine s.isPlaced_mono hwithin (fun n hn => ⟨fun hn' => ?_, fun _ _ _ _ h => h⟩) h
  rw [Stmt.containsJump, List.any_eq_false] at hjump
  exact hjump n hn hn'

end EsOptimizer
