import EsOptimizer.Proofs.Syntax.Functions
import EsOptimizer.Syntax.Edit
import Mathlib.Algebra.GroupWithZero.Nat

/-!
# What a change is made of

The ids of a changed tree are those of the tree before, each used at most as often as it was there,
and new ones, each used at most once. `Reuses` says so of a computation, given the stock it may draw
on. Holes count as well: a change may move a hole, but not make one.

Substitution puts a tree in the place of a name. So a name may come with a supply of its own, which
stands for the tree to be put there.
-/

namespace EsOptimizer

/-! ## Counting -/

/-- How often things occur: ids, and under no id, holes. -/
abbrev Tally := Option Nat → Nat

/-- What comes with each name. -/
abbrev Supply := String → Tally

namespace Tally

/-- One id. -/
def id (i : Nat) : Tally := fun k => if k = some i then 1 else 0

/-- One hole. -/
def hole : Tally := fun k => if k = none then 1 else 0

def ids (is : List Nat) : Tally := fun k => (is.map fun i => Tally.id i k).sum

/-- The ids from `n` up to `m`. -/
def new (n m : Nat) : Tally
  | some i => if n ≤ i ∧ i < m then 1 else 0
  | none => 0

section

variable {i n m l : Nat} {is js : List Nat} {k : Option Nat}

@[simp] theorem ids_nil : ids [] k = 0 := rfl

@[simp] theorem ids_cons : ids (i :: is) k = Tally.id i k + ids is k := rfl

@[simp] theorem ids_append : ids (is ++ js) k = ids is k + ids js k := by
  rw [ids, List.map_append, List.sum_append]
  rfl

theorem ids_some : ids is (some i) = is.count i := by
  induction is with
  | nil => rfl
  | cons j js ih =>
    rw [ids_cons, ih, List.count_cons, Nat.add_comm, Tally.id]
    simp only [Option.some.injEq, beq_iff_eq, @eq_comm _ i]

@[simp] theorem ids_none : ids is none = 0 := by
  induction is with
  | nil => rfl
  | cons i is ih => rw [ids_cons, ih, Tally.id, if_neg nofun]

/-- What is new in two steps is different. -/
theorem new_add_new (h : n ≤ m) (h' : m ≤ l) : new n m k + new m l k ≤ new n l k := by
  cases k with
  | none => exact Nat.le_refl _
  | some i =>
    simp only [new]
    split <;> split <;> split <;> omega

theorem new_le_one (n m i : Nat) : new n m (some i) ≤ 1 := by
  rw [new]
  split <;> decide

theorem id_le_new : Tally.id n k ≤ new n (n + 1) k := by
  cases k with
  | none => exact Nat.le_refl _
  | some i =>
    simp only [Tally.id, new, Option.some.injEq]
    split <;> split <;> omega

end

end Tally

theorem sum_filter_le {α : Type} (p : α → Bool) (as : List α) (f : α → Nat) :
    ((as.filter p).map f).sum ≤ (as.map f).sum := by
  induction as with
  | nil => exact Nat.le_refl _
  | cons a as ih =>
    rw [List.filter_cons, List.map_cons, List.sum_cons]
    split
    · exact Nat.add_le_add_left ih _
    · exact Nat.le_trans ih (Nat.le_add_left _ _)

/-- What a node by itself adds to a tally. -/
def Node.tally (τ : Supply) : Node → Tally
  | .name i => τ i.name
  | .expr (.invalid _) => Tally.hole
  | _ => fun _ => 0

/-- The holes in nodes, and what comes with their names. -/
def supplied (τ : Supply) (ns : List Node) : Tally := fun k => (ns.map fun n => n.tally τ k).sum

section

variable {τ : Supply} {n : Node} {ns ms : List Node} {k : Option Nat}

@[simp] theorem supplied_nil : supplied τ [] k = 0 := rfl

@[simp] theorem supplied_cons : supplied τ (n :: ns) k = n.tally τ k + supplied τ ns k := rfl

@[simp] theorem supplied_append : supplied τ (ns ++ ms) k = supplied τ ns k + supplied τ ms k := by
  rw [supplied, List.map_append, List.sum_append]
  rfl

end

/-- Names by themselves. -/
def Supply.none : Supply := fun _ _ => 0

@[simp] theorem Supply.none_apply (name : String) (k : Option Nat) : Supply.none name k = 0 := rfl

@[simp] theorem supplied_name? (name : Option Ident) (k : Option Nat) :
    supplied Supply.none (Node.name? name) k = 0 := by
  cases name <;> rfl

@[simp] theorem supplied_names (is : List Ident) (k : Option Nat) :
    supplied Supply.none (is.map .name) k = 0 := by
  induction is with
  | nil => rfl
  | cons i is ih => rw [List.map_cons, supplied_cons, ih, Node.tally, Supply.none_apply]

theorem supplied_none_le (τ : Supply) (ns : List Node) (k : Option Nat) :
    supplied Supply.none ns k ≤ supplied τ ns k := by
  induction ns with
  | nil => exact Nat.le_refl _
  | cons n ns ih =>
    rw [supplied_cons, supplied_cons]
    refine Nat.add_le_add ?_ ih
    cases n with
    | name i => exact Nat.zero_le _
    | expr e => cases e <;> exact Nat.le_refl _
    | _ => exact Nat.le_refl _

/-- Without what comes with names, only holes count. -/
theorem supplied_none_some (ns : List Node) (i : Nat) : supplied Supply.none ns (some i) = 0 := by
  induction ns with
  | nil => rfl
  | cons n ns ih =>
    rw [supplied_cons, ih]
    cases n with
    | expr e => cases e <;> rfl
    | _ => rfl

/-- The head of a loop over properties declares names like any other. -/
theorem supplied_loopNodes (τ : Supply) (h : ForHead) (k : Option Nat) :
    supplied τ (h.loopNodes true) k = supplied τ (h.nodes true) k := by
  cases h with
  | decl d =>
    cases d
    rw [ForHead.loopNodes, ForHead.nodes, VarDecl.nodes]
    rfl
  | expr e => rw [ForHead.loopNodes, ForHead.nodes]

/-- What is made of ids and nodes. -/
class Tree (α : Type) where
  ids : α → List NodeId
  nodes : α → List Node

namespace Tree

/-- All that occurs in a tree. -/
def stock {α : Type} [Tree α] (τ : Supply) (a : α) : Tally := fun k =>
  Tally.ids (ids a) k + supplied τ (nodes a) k

theorem stock_none_le {α : Type} [Tree α] (τ : Supply) (a : α) (k : Option Nat) :
    stock .none a k ≤ stock τ a k :=
  Nat.add_le_add_left (supplied_none_le τ _ k) _

instance : Tree (Option Ident) := ⟨Ident.ids?, Node.name?⟩
instance : Tree (List Ident) := ⟨List.map (·.id), List.map .name⟩
instance : Tree Expr := ⟨Expr.ids, Expr.nodes true⟩
instance : Tree (List (Option Expr)) := ⟨elemIds, elemNodes true⟩
instance : Tree (List Expr) := ⟨exprIds, exprNodes true⟩
instance : Tree (Option Expr) := ⟨exprIds?, exprNodes? true⟩
instance : Tree PropertyKey := ⟨PropertyKey.ids, PropertyKey.nodes true⟩
instance : Tree Property := ⟨Property.ids, Property.nodes true⟩
instance : Tree (List Property) := ⟨propIds, propNodes true⟩
instance : Tree Func := ⟨Func.ids, Func.nodes true⟩
instance : Tree Block := ⟨Block.ids, Block.nodes true⟩
instance : Tree (Option Block) := ⟨blockIds?, blockNodes? true⟩
instance : Tree Declarator := ⟨Declarator.ids, Declarator.nodes true⟩
instance : Tree (List Declarator) := ⟨declIds, declNodes true⟩
instance : Tree VarDecl := ⟨VarDecl.ids, VarDecl.nodes true⟩
instance : Tree ForHead := ⟨ForHead.ids, ForHead.nodes true⟩
instance : Tree (Option ForHead) := ⟨headIds?, headNodes? true⟩
instance : Tree CatchClause := ⟨CatchClause.ids, CatchClause.nodes true⟩
instance : Tree (Option CatchClause) := ⟨handlerIds?, handlerNodes? true⟩
instance : Tree Stmt := ⟨Stmt.ids, Stmt.nodes true⟩
instance : Tree (Option Stmt) := ⟨stmtIds?, stmtNodes? true⟩
instance : Tree (List Stmt) := ⟨stmtIds, stmtNodes true⟩
instance : Tree Program := ⟨Program.ids, Program.nodes⟩

theorem stock_stmts (τ : Supply) (ss : List Stmt) (k : Option Nat) :
    stock τ ss k = (ss.map (stock τ · k)).sum := by
  induction ss with
  | nil => simp [stock, ids, nodes, stmtIds, stmtNodes]
  | cons s ss ih =>
    simp only [stock, ids, nodes, stmtIds, stmtNodes, Tally.ids_append, supplied_append,
      List.map_cons, List.sum_cons] at ih ⊢
    omega

theorem stock_decls (τ : Supply) (ds : List Declarator) (k : Option Nat) :
    stock τ ds k = (ds.map (stock τ · k)).sum := by
  induction ds with
  | nil => simp [stock, ids, nodes, declIds, declNodes]
  | cons d ds ih =>
    simp only [stock, ids, nodes, declIds, declNodes, Tally.ids_append, supplied_append,
      List.map_cons, List.sum_cons] at ih ⊢
    omega

theorem stock_append (τ : Supply) (ss ts : List Stmt) (k : Option Nat) :
    stock τ (ss ++ ts) k = stock τ ss k + stock τ ts k := by
  simp only [stock_stmts, List.map_append, List.sum_append]

theorem stock_filter_le (τ : Supply) (p : Stmt → Bool) (ss : List Stmt) (k : Option Nat) :
    stock τ (ss.filter p) k ≤ stock τ ss k := by
  rw [stock_stmts, stock_stmts]
  exact sum_filter_le p ss _

end Tree

/-! ## Drawing on a stock -/

/-- States that hold the next id. -/
class Numbering (σ : Type) where
  next : σ → Nat

instance : Numbering NodeId := ⟨fun n => n⟩
instance : Numbering EditState := ⟨EditState.nextId⟩

/-- The result, as measured by `m`, is made of what is in stock and of new ids, each used at most
once. A stock with holes promises nothing. -/
def Reuses {σ α : Type} [Numbering σ] (m : α → Tally) (x : StateM σ α) (total : Tally) : Prop :=
  total none = 0 → ∀ s, Numbering.next s ≤ Numbering.next (x s).2 ∧ ∀ k, m (x s).1 k ≤
    total k + Tally.new (Numbering.next s) (Numbering.next (x s).2) k

/-- A computation whose result is the next id. -/
def HandsOut {σ : Type} [Numbering σ] (x : StateM σ NodeId) : Prop :=
  ∀ s, (x s).1 = Numbering.next s ∧ Numbering.next (x s).2 = Numbering.next s + 1

theorem handsOut_fresh : HandsOut fresh := fun _ => ⟨rfl, rfl⟩

theorem handsOut_newId : HandsOut Edit.newId := fun _ => ⟨rfl, rfl⟩

theorem Edit.reuses_markChanged : Reuses (fun _ _ => 0) Edit.markChanged fun _ => 0 :=
  fun _ _ => ⟨Nat.le_refl _, fun _ => Nat.zero_le _⟩

theorem Edit.reuses_uniqueName (base : String) :
    Reuses (fun _ _ => 0) (Edit.uniqueName base) fun _ => 0 :=
  fun _ _ => ⟨Nat.le_refl _, fun _ => Nat.zero_le _⟩

namespace Reuses

variable {σ α β γ δ ε : Type} [Numbering σ]
variable {m : α → Tally} {m₂ : β → Tally} {m₃ : γ → Tally} {m₄ : δ → Tally} {m₅ : ε → Tally}
variable {total s₁ s₂ s₃ s₄ : Tally}

theorem pure {a : α} (h : ∀ k, m a k ≤ total k) : Reuses m (Pure.pure a : StateM σ α) total :=
  fun _ _ => ⟨Nat.le_refl _, fun k => Nat.le_trans (h k) (Nat.le_add_right _ _)⟩

/-- Only a stock without holes matters. -/
theorem ofWhole {x : StateM σ α} (h : total none = 0 → Reuses m x total) : Reuses m x total :=
  fun hwhole => h hwhole hwhole

/-- Another measure of the same results. -/
theorem result {m' : α → Tally} {x : StateM σ α} (h : Reuses m x total)
    (hm : ∀ a k, m' a k = m a k) : Reuses m' x total := fun hwhole s =>
  ⟨(h hwhole s).1, fun k => Nat.le_trans (Nat.le_of_eq (hm _ k)) ((h hwhole s).2 k)⟩

/-- What the first step draws on, and what the second draws on beyond the result of the first, is in
stock. -/
theorem bind {x : StateM σ α} {f : α → StateM σ β} {g : α → Tally} (hx : Reuses m x s₁)
    (hf : ∀ a, Reuses m₂ (f a) (g a))
    (hle : ∀ a k, g a k + s₁ k ≤ m a k + total k ∧ s₁ k ≤ total k) :
    Reuses m₂ (x >>= f) total := by
  intro hwhole s
  obtain ⟨hwhole₁, hwhole₂⟩ := hle (x s).1 none
  obtain ⟨hnext, hfirst⟩ := hx (by omega) s
  have hnone := hfirst none
  obtain ⟨hnext', hsecond⟩ := hf (x s).1 (by dsimp only [Tally.new] at hnone; omega) (x s).2
  refine ⟨Nat.le_trans hnext hnext', fun k => ?_⟩
  have hnew := Tally.new_add_new (k := k) hnext hnext'
  have := hfirst k
  have := hsecond k
  have := hle (x s).1 k
  change m₂ (f (x s).1 (x s).2).1 k ≤
    total k + Tally.new _ (Numbering.next (f (x s).1 (x s).2).2) k
  omega

theorem mono {x : StateM σ α} (h : Reuses m x s₁) (hle : ∀ k, s₁ k ≤ total k) :
    Reuses m x total := by
  intro hwhole s
  have hnone := hle none
  obtain ⟨hnext, hdrawn⟩ := h (by omega) s
  exact ⟨hnext, fun k => Nat.le_trans (hdrawn k) (Nat.add_le_add_right (hle k) _)⟩

theorem andThen {x : StateM σ α} {f : α → StateM σ β} (hx : Reuses m x total)
    (hf : ∀ a, Reuses m₂ (f a) (m a)) : Reuses m₂ (x >>= f) total :=
  hx.bind hf fun _ _ => ⟨Nat.le_refl _, Nat.le_refl _⟩

/-- A step that draws on nothing. -/
theorem skip {x : StateM σ α} {f : α → StateM σ β} (hx : Reuses (fun _ _ => 0) x fun _ => 0)
    (hf : ∀ a, Reuses m₂ (f a) total) : Reuses m₂ (x >>= f) total :=
  hx.bind hf fun _ _ => by omega

theorem map₁ {x : StateM σ α} {f : α → β} (hx : Reuses m x s₁)
    (h : ∀ a k, m₂ (f a) k + s₁ k ≤ m a k + total k ∧ s₁ k ≤ total k) :
    Reuses m₂ (x >>= fun a => Pure.pure (f a)) total :=
  hx.bind (fun _ => .pure fun _ => Nat.le_refl _) h

theorem pair {x : StateM σ α} {y : StateM σ β} (hx : Reuses m x s₁) (hy : Reuses m₂ y s₂) :
    Reuses (fun p k => m p.1 k + m₂ p.2 k) (x >>= fun a => y >>= fun b => Pure.pure (a, b))
      fun k => s₁ k + s₂ k := by
  refine hx.bind (g := fun a k => m a k + s₂ k) (fun a => ?_) fun a k => by omega
  exact hy.map₁ fun b k => by
    dsimp only
    omega

theorem bind₂ {x : StateM σ α} {y : StateM σ β} {f : α → β → StateM σ γ} {g : α → β → Tally}
    (hx : Reuses m x s₁) (hy : Reuses m₂ y s₂) (hf : ∀ a b, Reuses m₃ (f a b) (g a b))
    (h : ∀ a b k, g a b k + s₁ k + s₂ k ≤ m a k + m₂ b k + total k ∧ s₁ k + s₂ k ≤ total k) :
    Reuses m₃ (x >>= fun a => y >>= fun b => f a b) total :=
  (hx.pair hy).bind (f := fun p => f p.1 p.2) (g := fun p => g p.1 p.2) (fun p => hf p.1 p.2)
    fun p k => by
      have := h p.1 p.2 k
      omega

theorem map₂ {x : StateM σ α} {y : StateM σ β} {f : α → β → γ} (hx : Reuses m x s₁)
    (hy : Reuses m₂ y s₂) (h : ∀ a b k, m₃ (f a b) k + s₁ k + s₂ k ≤ m a k + m₂ b k + total k ∧
      s₁ k + s₂ k ≤ total k) :
    Reuses m₃ (x >>= fun a => y >>= fun b => Pure.pure (f a b)) total :=
  hx.bind₂ hy (fun _ _ => .pure fun _ => Nat.le_refl _) h

theorem map₃ {x : StateM σ α} {y : StateM σ β} {z : StateM σ γ} {f : α → β → γ → δ}
    (hx : Reuses m x s₁) (hy : Reuses m₂ y s₂) (hz : Reuses m₃ z s₃)
    (h : ∀ a b c k, m₄ (f a b c) k + s₁ k + s₂ k + s₃ k ≤ m a k + m₂ b k + m₃ c k + total k ∧
      s₁ k + s₂ k + s₃ k ≤ total k) :
    Reuses m₄ (x >>= fun a => y >>= fun b => z >>= fun c => Pure.pure (f a b c)) total :=
  (hx.pair hy).map₂ (f := fun p => f p.1 p.2) hz fun p c k => by
    have := h p.1 p.2 c k
    omega

theorem map₄ {x : StateM σ α} {y : StateM σ β} {z : StateM σ γ} {w : StateM σ δ}
    {f : α → β → γ → δ → ε} (hx : Reuses m x s₁) (hy : Reuses m₂ y s₂) (hz : Reuses m₃ z s₃)
    (hw : Reuses m₄ w s₄) (h : ∀ a b c d k, m₅ (f a b c d) k + s₁ k + s₂ k + s₃ k + s₄ k ≤
      m a k + m₂ b k + m₃ c k + m₄ d k + total k ∧ s₁ k + s₂ k + s₃ k + s₄ k ≤ total k) :
    Reuses m₅ (x >>= fun a => y >>= fun b => z >>= fun c => w >>= fun d => Pure.pure (f a b c d))
      total :=
  (hx.pair hy).map₃ (f := fun p => f p.1 p.2) hz hw fun p c d k => by
    have := h p.1 p.2 c d k
    omega

/-- A new id is in stock from then on. -/
theorem fresh {x : StateM σ NodeId} {f : NodeId → StateM σ α} (hx : HandsOut x)
    (h : ∀ i, Reuses m (f i) fun k => Tally.id i k + total k) : Reuses m (x >>= f) total := by
  intro hwhole s
  obtain ⟨hid, hnext⟩ := hx s
  obtain ⟨hnext', htotal⟩ := h (Numbering.next s) ((Nat.zero_add _).trans hwhole) (x s).2
  have hrun : (x >>= f) s = f (Numbering.next s) (x s).2 := congrArg (f · (x s).2) hid
  rw [hrun]
  rw [hnext] at hnext' htotal
  have hle : Numbering.next s ≤ Numbering.next s + 1 := Nat.le_succ _
  refine ⟨Nat.le_trans hle hnext', fun k => ?_⟩
  have hnew := Tally.new_add_new (k := k) hle hnext'
  have hone := Tally.id_le_new (n := Numbering.next s) (k := k)
  have := htotal k
  dsimp only at this
  omega

/-- A list of computations, each of which draws on its own part. -/
theorem mapM {f : α → StateM σ β} {g : α → Tally} (h : ∀ a, Reuses m₂ (f a) (g a)) (as : List α) :
    Reuses (fun bs k => (bs.map (m₂ · k)).sum) (as.mapM f) fun k => (as.map (g · k)).sum := by
  induction as with
  | nil => exact .pure fun k => Nat.le_refl _
  | cons a as ih =>
    rw [List.mapM_cons]
    exact (h a).map₂ ih fun b bs k => by
      simp only [List.map_cons, List.sum_cons]
      omega

/-- A computation that only hands out ids. -/
theorem ofFresh {x : Fresh α} (h : Reuses m x total) : Reuses m (Edit.ofFresh x) total :=
  fun hwhole s => h hwhole s.nextId

end Reuses

end EsOptimizer
