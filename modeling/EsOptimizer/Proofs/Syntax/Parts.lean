import EsOptimizer.Proofs.Pass.Reuse
import Mathlib.Data.List.ReduceOption

/-!
# Parts that are evaluated and parts that are assigned to

The expressions directly below a node are of two sorts: those that it evaluates, and the one that it
assigns to. No expression is directly below two nodes, or below one in two places. So where no id
occurs twice, what is assigned to has another id than all that is evaluated.
-/

namespace EsOptimizer

/-! ## The two sorts -/

/-- What stands where something is assigned to. What cannot be assigned to is evaluated instead. -/
def Expr.operands : Expr → List Expr := fun e => if e.isTarget then [] else [e]

/-- The expression of a computed key. -/
def PropertyKey.operands : PropertyKey → List Expr
  | .computed e => [e]
  | _ => []

/-- The expressions that a property of an object literal evaluates. -/
def Property.operands : Property → List Expr
  | .value _ key e => key.operands ++ [e]
  | .getter _ key _ | .setter _ key _ => key.operands

/-- The expression in the head of a loop that is not a declaration. -/
def ForHead.expr? : ForHead → Option Expr
  | .decl _ => none
  | .expr e => some e

/-- The expressions that a node evaluates. -/
def Node.operands : Node → List Expr
  | .expr (.array _ elems) => elems.reduceOption
  | .expr (.object _ props) => props.flatMap Property.operands
  | .expr (.unary _ _ arg) => [arg]
  | .expr (.update _ _ _ arg) => arg.operands
  | .expr (.binary _ _ left right) => [left, right]
  | .expr (.assign _ _ left right) => left.operands ++ [right]
  | .expr (.member _ obj _) => [obj]
  | .expr (.index _ obj key) => [obj, key]
  | .expr (.cond _ test yes no) => [test, yes, no]
  | .expr (.call _ callee args) | .expr (.new _ callee args) => callee :: args
  | .expr (.seq _ exprs) => exprs
  | .decl d => d.decls.filterMap (·.init)
  | .stmt (.expr _ e) | .stmt (.throw _ e) => [e]
  | .stmt (.if _ test _ _) | .stmt (.while _ test _) | .stmt (.doWhile _ _ test) => [test]
  | .stmt (.for _ init test update _) =>
    (init.bind ForHead.expr?).toList ++ test.toList ++ update.toList
  | .stmt (.forIn _ head obj _) => head.expr?.elim [] Expr.operands ++ [obj]
  | .stmt (.return _ arg) => arg.toList
  | .stmt (.with _ obj _) => [obj]
  | _ => []

/-- The expression that a node assigns to. -/
def Node.assigned? : Node → Option Expr
  | .expr (.assign _ _ left _) | .expr (.update _ _ _ left) | .stmt (.forIn _ (.expr left) _ _) =>
    if left.isTarget then some left else none
  | _ => none

/-! ## Counting -/

/-- The ids of the expressions directly below nodes, both sorts together. -/
def partTally (ns : List Node) : Tally := fun k =>
  Tally.ids (ns.flatMap fun n => n.operands.map Expr.id) k +
    Tally.ids (ns.flatMap fun n => (n.assigned?.map Expr.id).toList) k

section

variable {n : Node} {ns ms : List Node} {k : Option Nat}

@[simp] theorem partTally_nil : partTally [] k = 0 := rfl

theorem partTally_cons : partTally (n :: ns) k =
    Tally.ids (n.operands.map Expr.id) k + Tally.ids (n.assigned?.map Expr.id).toList k +
      partTally ns k := by
  simp only [partTally, List.flatMap_cons, Tally.ids_append]
  omega

@[simp] theorem partTally_append : partTally (ns ++ ms) k = partTally ns k + partTally ms k := by
  simp only [partTally, List.flatMap_append, Tally.ids_append]
  omega

/-- A node that has no expressions directly below it. -/
theorem partTally_cons_of_nil (h : n.operands = []) (h' : n.assigned? = none) :
    partTally (n :: ns) k = partTally ns k := by
  rw [partTally_cons, h, h']
  exact Nat.zero_add _

@[simp] theorem partTally_name? (name : Option Ident) : partTally (Node.name? name) k = 0 := by
  cases name <;> rfl

@[simp] theorem partTally_names (is : List Ident) : partTally (is.map .name) k = 0 := by
  induction is with
  | nil => rfl
  | cons i is ih => rwa [List.map_cons, partTally_cons_of_nil rfl rfl]

end

attribute [local simp] partTally_cons Node.operands Node.assigned? ForHead.expr? Expr.ids Expr.nodes elemIds elemNodes exprIds exprNodes exprIds?
  exprNodes? PropertyKey.ids PropertyKey.nodes Property.ids Property.nodes propIds propNodes Func.ids
  Func.nodes Block.ids Block.nodes blockIds? blockNodes? Declarator.ids Declarator.nodes declIds
  declNodes VarDecl.ids VarDecl.nodes ForHead.ids ForHead.nodes headIds? headNodes? CatchClause.ids
  CatchClause.nodes handlerIds? handlerNodes? Stmt.ids Stmt.nodes stmtIds? stmtNodes? stmtIds stmtNodes

/-- A part where something is assigned to is of one sort or the other. -/
theorem Expr.tally_operands (e : Expr) (k : Option Nat) :
    Tally.ids (e.operands.map Expr.id) k +
      Tally.ids ((if e.isTarget then some e else none).map Expr.id).toList k = Tally.id e.id k := by
  unfold Expr.operands
  split <;> simp

mutual

theorem Expr.partTally_le (e : Expr) (k : Option Nat) :
    partTally (e.nodes true) k + Tally.id e.id k ≤ Tally.ids e.ids k := by
  cases e with
  | array id elems =>
    have := elems_partTally_le elems k
    change _ + Tally.id id k ≤ _
    simp
    omega
  | object id props =>
    have := props_partTally_le props k
    change _ + Tally.id id k ≤ _
    simp
    omega
  | function id name fn =>
    have := Func.partTally_le fn k
    change _ + Tally.id id k ≤ _
    simp
    omega
  | unary id op arg =>
    have := Expr.partTally_le arg k
    change _ + Tally.id id k ≤ _
    simp
    omega
  | update id op before arg =>
    have := Expr.partTally_le arg k
    have := arg.tally_operands k
    change _ + Tally.id id k ≤ _
    simp at this ⊢
    omega
  | binary id op left right =>
    have := Expr.partTally_le left k
    have := Expr.partTally_le right k
    change _ + Tally.id id k ≤ _
    simp
    omega
  | assign id op left right =>
    have := Expr.partTally_le left k
    have := Expr.partTally_le right k
    have := left.tally_operands k
    change _ + Tally.id id k ≤ _
    simp at this ⊢
    omega
  | member id obj name =>
    have := Expr.partTally_le obj k
    change _ + Tally.id id k ≤ _
    simp
    omega
  | index id obj key =>
    have := Expr.partTally_le obj k
    have := Expr.partTally_le key k
    change _ + Tally.id id k ≤ _
    simp
    omega
  | cond id test yes no =>
    have := Expr.partTally_le test k
    have := Expr.partTally_le yes k
    have := Expr.partTally_le no k
    change _ + Tally.id id k ≤ _
    simp
    omega
  | call id callee args =>
    have := Expr.partTally_le callee k
    have := exprs_partTally_le args k
    change _ + Tally.id id k ≤ _
    simp
    omega
  | new id callee args =>
    have := Expr.partTally_le callee k
    have := exprs_partTally_le args k
    change _ + Tally.id id k ≤ _
    simp
    omega
  | seq id exprs =>
    have := exprs_partTally_le exprs k
    change _ + Tally.id id k ≤ _
    simp
    omega
  | ident i =>
    change _ + Tally.id i.id k ≤ _
    simp
  | this id | string id | bool id | null id | number id | regex id | invalid id =>
    change _ + Tally.id id k ≤ _
    simp
termination_by structural e

theorem elems_partTally_le (es : List (Option Expr)) (k : Option Nat) :
    partTally (elemNodes true es) k + Tally.ids (es.reduceOption.map Expr.id) k ≤
      Tally.ids (elemIds es) k := by
  match es with
  | [] => exact Nat.le_refl _
  | none :: rest =>
    have := elems_partTally_le rest k
    simpa using this
  | some e :: rest =>
    have := Expr.partTally_le e k
    have := elems_partTally_le rest k
    simp
    omega
termination_by structural es

theorem exprs_partTally_le (es : List Expr) (k : Option Nat) :
    partTally (exprNodes true es) k + Tally.ids (es.map Expr.id) k ≤ Tally.ids (exprIds es) k := by
  match es with
  | [] => exact Nat.le_refl _
  | e :: rest =>
    have := Expr.partTally_le e k
    have := exprs_partTally_le rest k
    simp
    omega
termination_by structural es

theorem expr?_partTally_le (e : Option Expr) (k : Option Nat) :
    partTally (exprNodes? true e) k + Tally.ids (e.toList.map Expr.id) k ≤
      Tally.ids (exprIds? e) k := by
  match e with
  | none => exact Nat.le_refl _
  | some e =>
    have := Expr.partTally_le e k
    simpa using this
termination_by structural e

theorem PropertyKey.partTally_le (key : PropertyKey) (k : Option Nat) :
    partTally (key.nodes true) k + Tally.ids (key.operands.map Expr.id) k ≤
      Tally.ids key.ids k := by
  match key with
  | .computed e =>
    have := Expr.partTally_le e k
    simpa [PropertyKey.operands] using this
  | .ident _ | .string _ _ | .number _ _ => simp [PropertyKey.operands]
termination_by structural key

theorem Property.partTally_le (p : Property) (k : Option Nat) :
    partTally (p.nodes true) k + Tally.ids (p.operands.map Expr.id) k ≤ Tally.ids p.ids k := by
  match p with
  | .value _ key e =>
    have := PropertyKey.partTally_le key k
    have := Expr.partTally_le e k
    simp [Property.operands]
    omega
  | .getter _ key fn =>
    have := PropertyKey.partTally_le key k
    have := Func.partTally_le fn k
    simp [Property.operands]
    omega
  | .setter _ key fn =>
    have := PropertyKey.partTally_le key k
    have := Func.partTally_le fn k
    simp [Property.operands]
    omega
termination_by structural p

theorem props_partTally_le (ps : List Property) (k : Option Nat) :
    partTally (propNodes true ps) k +
      Tally.ids ((ps.flatMap Property.operands).map Expr.id) k ≤ Tally.ids (propIds ps) k := by
  match ps with
  | [] => exact Nat.le_refl _
  | p :: rest =>
    have := Property.partTally_le p k
    have := props_partTally_le rest k
    simp only [propNodes, propIds, partTally_append, Tally.ids_append, List.flatMap_cons,
      List.map_append]
    omega
termination_by structural ps

theorem Func.partTally_le (f : Func) (k : Option Nat) :
    partTally (f.nodes true) k ≤ Tally.ids f.ids k := by
  match f with
  | ⟨id, params, body⟩ =>
    have := Block.partTally_le body k
    simp
    omega
termination_by structural f

theorem Block.partTally_le (b : Block) (k : Option Nat) :
    partTally (b.nodes true) k ≤ Tally.ids b.ids k := by
  match b with
  | ⟨id, stmts⟩ =>
    have := stmts_partTally_le stmts k
    simp
    omega
termination_by structural b

theorem block?_partTally_le (b : Option Block) (k : Option Nat) :
    partTally (blockNodes? true b) k ≤ Tally.ids (blockIds? b) k := by
  match b with
  | none => exact Nat.le_refl _
  | some b => exact Block.partTally_le b k
termination_by structural b

theorem decls_partTally_le (ds : List Declarator) (k : Option Nat) :
    partTally (declNodes true ds) k + Tally.ids ((ds.filterMap (·.init)).map Expr.id) k ≤
      Tally.ids (declIds ds) k := by
  match ds with
  | [] => exact Nat.le_refl _
  | ⟨id, name, init⟩ :: rest =>
    have := expr?_partTally_le init k
    have := decls_partTally_le rest k
    cases init <;> simp at * <;> omega
termination_by structural ds

theorem head?_partTally_le (h : Option ForHead) (k : Option Nat) :
    partTally (headNodes? true h) k +
      Tally.ids ((h.bind ForHead.expr?).toList.map Expr.id) k ≤ Tally.ids (headIds? h) k := by
  match h with
  | none => exact Nat.le_refl _
  | some (.decl ⟨id, kind, decls⟩) =>
    have := decls_partTally_le decls k
    simp
    omega
  | some (.expr e) =>
    have := Expr.partTally_le e k
    simpa using this
termination_by structural h

theorem loopHead_partTally_le (h : ForHead) (k : Option Nat) :
    partTally (h.loopNodes true) k +
      Tally.ids (h.expr?.toList.map Expr.id) k ≤ Tally.ids h.ids k := by
  match h with
  | .decl ⟨id, kind, decls⟩ =>
    have := decls_partTally_le decls k
    simp [ForHead.loopNodes]
    omega
  | .expr e =>
    have := Expr.partTally_le e k
    simpa [ForHead.loopNodes] using this
termination_by structural h

theorem handler?_partTally_le (c : Option CatchClause) (k : Option Nat) :
    partTally (handlerNodes? true c) k ≤ Tally.ids (handlerIds? c) k := by
  match c with
  | none => exact Nat.le_refl _
  | some ⟨id, param, body⟩ =>
    have := Block.partTally_le body k
    simp
    omega
termination_by structural c

theorem Stmt.partTally_le (s : Stmt) (k : Option Nat) :
    partTally (s.nodes true) k ≤ Tally.ids s.ids k := by
  cases s with
  | block b =>
    have := Block.partTally_le b k
    simpa using this
  | expr id e =>
    have := Expr.partTally_le e k
    simp
    omega
  | var d =>
    obtain ⟨id, kind, decls⟩ := d
    have := decls_partTally_le decls k
    simp
    omega
  | function id name fn =>
    have := Func.partTally_le fn k
    simp
    omega
  | «if» id test yes no =>
    have := Expr.partTally_le test k
    have := Stmt.partTally_le yes k
    have := stmt?_partTally_le no k
    simp
    omega
  | «for» id init test update body =>
    have := head?_partTally_le init k
    have := expr?_partTally_le test k
    have := expr?_partTally_le update k
    have := Stmt.partTally_le body k
    simp
    omega
  | forIn id head obj body =>
    have := loopHead_partTally_le head k
    have := Expr.partTally_le obj k
    have := Stmt.partTally_le body k
    cases head with
    | decl d => simp at *; omega
    | expr e =>
      have := e.tally_operands k
      simp at *
      omega
  | «while» id test body =>
    have := Expr.partTally_le test k
    have := Stmt.partTally_le body k
    simp
    omega
  | doWhile id body test =>
    have := Expr.partTally_le test k
    have := Stmt.partTally_le body k
    simp
    omega
  | «return» id arg =>
    have := expr?_partTally_le arg k
    simp
    omega
  | labeled id label body =>
    have := Stmt.partTally_le body k
    simp
    omega
  | throw id arg =>
    have := Expr.partTally_le arg k
    simp
    omega
  | «with» id obj body =>
    have := Expr.partTally_le obj k
    have := Stmt.partTally_le body k
    simp
    omega
  | «try» id block handler finalizer =>
    have := Block.partTally_le block k
    have := handler?_partTally_le handler k
    have := block?_partTally_le finalizer k
    simp
    omega
  | _ => simp
termination_by structural s

theorem stmt?_partTally_le (s : Option Stmt) (k : Option Nat) :
    partTally (stmtNodes? true s) k ≤ Tally.ids (stmtIds? s) k := by
  match s with
  | none => exact Nat.le_refl _
  | some s => exact Stmt.partTally_le s k
termination_by structural s

theorem stmts_partTally_le (ss : List Stmt) (k : Option Nat) :
    partTally (stmtNodes true ss) k ≤ Tally.ids (stmtIds ss) k := by
  match ss with
  | [] => exact Nat.le_refl _
  | s :: rest =>
    have := Stmt.partTally_le s k
    have := stmts_partTally_le rest k
    simp
    omega
termination_by structural ss

end

/-- What is evaluated has an id of the list. -/
theorem operand_id_mem {ss : List Stmt} {n : Node} (hn : n ∈ stmtNodes true ss) {e : Expr}
    (he : e ∈ n.operands) : e.id ∈ stmtIds ss := by
  have hle := stmts_partTally_le ss (some e.id)
  rw [partTally, Tally.ids_some, Tally.ids_some, Tally.ids_some] at hle
  have hevaluated : 0 < ((stmtNodes true ss).flatMap fun n => n.operands.map Expr.id).count e.id :=
    List.count_pos_iff.mpr (List.mem_flatMap.mpr ⟨n, hn, List.mem_map_of_mem he⟩)
  exact List.count_pos_iff.mp (by omega)

/-- What is evaluated has an id of the program. -/
theorem Program.operand_id_mem {p : Program} {n : Node} (hn : n ∈ p.nodes) {e : Expr}
    (he : e ∈ n.operands) : e.id ∈ p.ids :=
  List.mem_append_left _ (EsOptimizer.operand_id_mem hn he)

/-- What is assigned to has another id than all that is evaluated. -/
theorem Program.assigned_ne_operand {p : Program} (hp : p.ids.Nodup) {n m : Node} (hn : n ∈ p.nodes)
    (hm : m ∈ p.nodes) {target e : Expr} (htarget : n.assigned? = some target)
    (he : e ∈ m.operands) : e.id ≠ target.id := by
  intro hid
  have hle := stmts_partTally_le p.body (some target.id)
  have hone : (stmtIds p.body).count target.id ≤ 1 :=
    List.nodup_iff_count_le_one.mp (List.nodup_append.mp hp).1 _
  rw [partTally, Tally.ids_some, Tally.ids_some, Tally.ids_some] at hle
  have hevaluated : 0 < (p.nodes.flatMap fun n => n.operands.map Expr.id).count target.id :=
    List.count_pos_iff.mpr (List.mem_flatMap.mpr ⟨m, hm, hid ▸ List.mem_map_of_mem he⟩)
  have hassigned :
      0 < (p.nodes.flatMap fun n => (n.assigned?.map Expr.id).toList).count target.id := by
    refine List.count_pos_iff.mpr (List.mem_flatMap.mpr ⟨n, hn, ?_⟩)
    rw [htarget]
    exact List.mem_singleton_self _
  change (p.nodes.flatMap _).count _ + (p.nodes.flatMap _).count _ ≤ _ at hle
  omega

end EsOptimizer
