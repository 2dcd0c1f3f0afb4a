import EsOptimizer.Proofs.Flow.Intermediate
import EsOptimizer.Proofs.Flow.Reach
import EsOptimizer.Proofs.Value.Union

/-!
# Noticing changes

The analysis goes on as long as something new is found out, so it has to know whether a union made a
difference. `Written.absorb` says no if and only if the union already holds all that is added
(`absorb_unchanged_iff`); a merge through a union says no if and only if joining all of it changes
nothing (`mergeUnsureNoting_unchanged_iff`). Joins are idempotent, so in both cases the second time
makes no difference.

Versions and values are compared up to the order in which they list properties and members.
-/

namespace EsOptimizer

namespace Written

/-! ## Comparing unions -/

/-- The other union holds everything at least. A variable without an entry reaches nothing. -/
structure HeldBy (w w' : Written) : Prop where
  value : ∀ (v : VarId) (x : Value), w.vars[v]? = some x →
    ∃ y : Value, w'.vars[v]? = some y ∧ (x.or y == y) = true
  version : ∀ (r : Reference) (o : HeapObject), w.heap[r]? = some o →
    ∃ p : HeapObject, w'.heap[r]? = some p ∧ (o.or p == p) = true
  reach : ∀ v r, r ∈ w.reach.getD v {} → r ∈ w'.reach.getD v {}

/-- The unions have the same entries, and those are equal. -/
structure Same (w w' : Written) : Prop where
  value : ∀ v : VarId, (w.vars[v]? == w'.vars[v]?) = true
  version : ∀ r : Reference, (w.heap[r]? == w'.heap[r]?) = true
  reach : ∀ v : VarId, w.reach[v]?.isSome = w'.reach[v]?.isSome ∧
    ∀ r, r ∈ w.reach.getD v {} ↔ r ∈ w'.reach.getD v {}

namespace HeldBy

variable {w w' w'' : Written}

theorem refl (w : Written) : w.HeldBy w :=
  ⟨fun _ x hx => ⟨x, hx, Value.or_self_beq x⟩, fun _ o ho => ⟨o, ho, HeapObject.or_self_beq o⟩,
    fun _ _ hr => hr⟩

theorem trans (h : w.HeldBy w') (h' : w'.HeldBy w'') : w.HeldBy w'' where
  value v x hx := by
    obtain ⟨y, hy, hxy⟩ := h.value v x hx
    obtain ⟨z, hz, hyz⟩ := h'.value v y hy
    exact ⟨z, hz, Value.below_iff_or_beq.mp
      ((Value.below_iff_or_beq.mpr hxy).trans (Value.below_iff_or_beq.mpr hyz))⟩
  version r o ho := by
    obtain ⟨p, hp, hop⟩ := h.version r o ho
    obtain ⟨q, hq, hpq⟩ := h'.version r p hp
    exact ⟨q, hq, HeapObject.below_iff_or_beq.mp
      ((HeapObject.below_iff_or_beq.mpr hop).trans (HeapObject.below_iff_or_beq.mpr hpq))⟩
  reach v r hr := h'.reach v r (h.reach v r hr)

end HeldBy

/-- Of two entries that are equal, if there is one, so is the other. -/
theorem some_of_beq {α : Type} [BEq α] {a b : Option α} (h : (a == b) = true) {x : α}
    (hx : a = some x) : ∃ y, b = some y ∧ (x == y) = true := by
  subst hx
  cases b with
  | none => cases h
  | some y => exact ⟨y, rfl, h⟩

theorem Same.heldBy {w w' : Written} (h : w.Same w') : w.HeldBy w' where
  value v x hx := by
    obtain ⟨y, hy, hxy⟩ := some_of_beq (h.value v) hx
    exact ⟨y, hy, Value.below_iff_or_beq.mp (Value.beq_iff_below.mp hxy).1⟩
  version r o ho := by
    obtain ⟨p, hp, hop⟩ := some_of_beq (h.version r) ho
    exact ⟨p, hp, HeapObject.below_iff_or_beq.mp (HeapObject.beq_iff_below.mp hop).1⟩
  reach v r := ((h.reach v).2 r).mp

/-! ## Adding references -/

@[simp] theorem addValue_reach (w : Written) (v : VarId) (x : Value) :
    (w.addValue v x).1.reach = w.reach := by
  unfold addValue
  split <;> rfl

@[simp] theorem addObject_reach (w : Written) (r : Reference) (o : HeapObject) :
    (w.addObject r o).1.reach = w.reach := by
  unfold addObject
  split <;> rfl

/-- What a variable reaches is united with what is added. -/
theorem addReach_at (w : Written) (v u : VarId) (refs : RefSet) : (w.addReach v refs).1.reach[u]? =
    if v = u then some ((w.reach[u]?.getD {}).union refs) else w.reach[u]? := by
  unfold addReach
  simp only
  rw [getElem?_insert_of_key]
  split
  · rename_i hvu
    rw [← hvu, Std.TreeMap.getD_eq_getD_getElem?]
  · rfl

/-- Of a variable, the union holds what either union held. -/
theorem absorb_reach_at (w other : Written) (v : VarId) : (w.absorb other).1.reach[v]? =
    other.reach[v]?.elim w.reach[v]? fun refs => some ((w.reach[v]?.getD {}).union refs) := by
  unfold absorb
  simp only
  rw [addAll_fst, foldl_toList_at (fun (w : Written) v => w.reach[v]?) other.reach
      (F := fun _ refs known => some ((known.getD {}).union refs))
      (fun w e u => addReach_at w e.1 u e.2),
    addAll_keeps Written.reach (fun w (e : Reference × HeapObject) => addObject_reach w e.1 e.2),
    addAll_keeps Written.reach (fun w (e : VarId × Value) => addValue_reach w e.1 e.2)]

theorem mem_absorb_reach {w other : Written} {v : VarId} {r : Reference} :
    r ∈ (w.absorb other).1.reach.getD v {} ↔ r ∈ w.reach.getD v {} ∨ r ∈ other.reach.getD v {} := by
  simp only [Std.TreeMap.getD_eq_getD_getElem?, absorb_reach_at]
  cases other.reach[v]? with
  | none => simp
  | some refs => exact RefSet.mem_union

theorem isSome_absorb_reach (w other : Written) (v : VarId) :
    (w.absorb other).1.reach[v]?.isSome = (w.reach[v]?.isSome || other.reach[v]?.isSome) := by
  rw [absorb_reach_at]
  cases other.reach[v]? <;> simp

theorem heldBy_absorb_left (w other : Written) : w.HeldBy (w.absorb other).1 where
  value v x hx := by
    obtain ⟨y, hy, hxy⟩ := (absorb_vars w other).1 v x hx
    exact ⟨y, hy, Value.below_iff_or_beq.mp hxy⟩
  version r o ho := by
    obtain ⟨p, hp, hop⟩ := (absorb_heap w other).1 r o ho
    exact ⟨p, hp, HeapObject.below_iff_or_beq.mp hop⟩
  reach _ _ hr := mem_absorb_reach.mpr (Or.inl hr)

theorem heldBy_absorb_right (w other : Written) : other.HeldBy (w.absorb other).1 where
  value v x hx := by
    obtain ⟨y, hy, hxy⟩ := (absorb_vars w other).2 v x hx
    exact ⟨y, hy, Value.below_iff_or_beq.mp hxy⟩
  version r o ho := by
    obtain ⟨p, hp, hop⟩ := (absorb_heap w other).2 r o ho
    exact ⟨p, hp, HeapObject.below_iff_or_beq.mp hop⟩
  reach _ _ hr := mem_absorb_reach.mpr (Or.inr hr)

/-! ## What made a difference -/

theorem addAll_cons_snd {α : Type} (add : Written → α → Written × Bool) (a : α) (rest : List α)
    (w : Written) : (addAll add (a :: rest) w).2 =
      ((add w a).2 || (addAll add rest (add w a).1).2) := by
  have hfold (acc : Written × Bool) : (rest.foldl (fun acc item =>
      ((add acc.1 item).1, acc.2 || (add acc.1 item).2)) acc).2 =
        (acc.2 || (addAll add rest acc.1).2) := by
    unfold addAll
    induction rest generalizing acc with
    | nil => simp
    | cons b rest ih =>
      rw [List.foldl_cons, List.foldl_cons, ih, ih (_, false || _), Bool.false_or, Bool.or_assoc]
  exact hfold _

/-- No member of a list makes a difference if and only if all are held from the start: those before it
are about other keys. -/
theorem addAll_unchanged_iff {α κ : Type} (key : α → κ) {add : Written → α → Written × Bool}
    {Held : Written → α → Prop} (hone : ∀ w a, (add w a).2 = false ↔ Held w a)
    (hother : ∀ w a b, key a ≠ key b → (Held (add w a).1 b ↔ Held w b))
    {items : List α} (hd : (items.map key).Nodup) (w : Written) :
    (addAll add items w).2 = false ↔ ∀ a ∈ items, Held w a := by
  induction items generalizing w with
  | nil => exact ⟨fun _ a ha => (nomatch ha), fun _ => rfl⟩
  | cons a rest ih =>
    rw [List.map_cons, List.nodup_cons] at hd
    rw [addAll_cons_snd, Bool.or_eq_false_iff, hone, ih hd.2, List.forall_mem_cons]
    refine and_congr_right fun _ => forall₂_congr fun b hb => hother w a b fun hab => ?_
    exact hd.1 (List.mem_map.mpr ⟨b, hb, hab.symm⟩)

theorem addValue_unchanged_iff (w : Written) (v : VarId) (x : Value) :
    (w.addValue v x).2 = false ↔ ∃ y, w.vars[v]? = some y ∧ (x.or y == y) = true := by
  unfold addValue
  split <;> rename_i h
  · simp [h]
  · rename_i y
    simp only [h, Option.some.injEq, exists_eq_left', bne, Bool.not_eq_false']
    rw [Value.or_beq_iff_below, Value.below_iff_or_beq]

theorem addObject_unchanged_iff (w : Written) (r : Reference) (o : HeapObject) :
    (w.addObject r o).2 = false ↔ ∃ p, w.heap[r]? = some p ∧ (o.or p == p) = true := by
  unfold addObject
  split <;> rename_i h
  · simp [h]
  · rename_i p
    simp only [h, Option.some.injEq, exists_eq_left', bne, Bool.not_eq_false']
    rw [HeapObject.or_beq_iff_below, HeapObject.below_iff_or_beq]

theorem addReach_unchanged_iff (w : Written) (v : VarId) (refs : RefSet) :
    (w.addReach v refs).2 = false ↔ ∀ r ∈ refs, r ∈ w.reach.getD v {} := by
  unfold addReach
  simp only [bne, Bool.not_eq_false', beq_iff_eq]
  exact RefSet.size_union_eq_iff

/-- A union tells that nothing changed exactly if it held all that was added. -/
theorem absorb_unchanged_iff (w other : Written) :
    (w.absorb other).2 = false ↔ other.HeldBy w := by
  unfold absorb
  simp only [Bool.or_eq_false_iff]
  rw [addAll_unchanged_iff Prod.fst (fun w (e : VarId × Value) => addValue_unchanged_iff w e.1 e.2)
      (fun w a b hab => by rw [addValue_of_ne w a.2 hab]) (nodup_keys_toList other.vars),
    addAll_unchanged_iff Prod.fst
      (fun w (e : Reference × HeapObject) => addObject_unchanged_iff w e.1 e.2)
      (fun w a b hab => by rw [addObject_at, if_neg hab]) (nodup_keys_toList other.heap),
    addAll_unchanged_iff Prod.fst (fun w (e : VarId × RefSet) => addReach_unchanged_iff w e.1 e.2)
      (fun w a b hab => by
        simp only [Std.TreeMap.getD_eq_getD_getElem?, addReach_at, if_neg hab])
      (nodup_keys_toList other.reach),
    addAll_keeps Written.heap (fun w (e : VarId × Value) => addValue_heap w e.1 e.2),
    addAll_keeps Written.reach (fun w (e : Reference × HeapObject) => addObject_reach w e.1 e.2),
    addAll_keeps Written.reach (fun w (e : VarId × Value) => addValue_reach w e.1 e.2)]
  rw [Reach.forall_mem_toList_iff (P := fun v r => r ∈ w.reach.getD v {})]
  constructor
  · rintro ⟨⟨hvalue, hversion⟩, hreach⟩
    exact ⟨fun v x hx => hvalue (v, x) (Values.mem_toList.mpr hx),
      fun r o ho => hversion (r, o) (Objects.mem_toList.mpr ho), hreach⟩
  · intro h
    exact ⟨⟨fun e he => h.value e.1 e.2 (Values.mem_toList.mp he),
      fun e he => h.version e.1 e.2 (Objects.mem_toList.mp he)⟩, h.reach⟩

/-- Adding what a union holds leaves it as it is, if it has an entry for each variable. -/
theorem HeldBy.absorb_same {w other : Written} (h : other.HeldBy w)
    (hentries : ∀ v : VarId, other.reach[v]?.isSome → w.reach[v]?.isSome) : (w.absorb other).1.Same w where
  value v := by
    rw [absorb_vars_at]
    cases hx : other.vars[v]? with
    | none => rw [Option.merge_none_right, BEq.rfl]
    | some x =>
      obtain ⟨y, hy, hxy⟩ := h.value v x hx
      rw [hy]
      exact Value.or_beq_iff_below.mpr (Value.below_iff_or_beq.mpr hxy)
  version r := by
    rw [absorb_heap_at]
    cases ho : other.heap[r]? with
    | none => rw [Option.merge_none_right, BEq.rfl]
    | some o =>
      obtain ⟨p, hp, hop⟩ := h.version r o ho
      rw [hp]
      exact HeapObject.or_beq_iff_below.mpr (HeapObject.below_iff_or_beq.mpr hop)
  reach v := by
    refine ⟨?_, fun r => mem_absorb_reach.trans ⟨fun hr => hr.elim id (h.reach v r), Or.inl⟩⟩
    rw [isSome_absorb_reach, Bool.or_eq_left_iff_imp]
    exact hentries v

end Written

namespace State

open Escaping

/-! ## Merging, and noticing -/

/-- One step of a loop, taken and noted only if it changes anything. -/
def noting {α : Type} (changes : State → α → Bool) (put : State → α → State) (acc : State × Bool)
    (a : α) : State × Bool :=
  if changes acc.1 a then (put acc.1 a, true) else acc

section Noting

variable {α : Type} {changes : State → α → Bool} {put : State → α → State} {items : List α}
  {acc : State × Bool}

theorem foldl_noting_fst : (items.foldl (noting changes put) acc).1 =
    items.foldl (fun s a => if changes s a then put s a else s) acc.1 := by
  induction items generalizing acc with
  | nil => rfl
  | cons a rest ih =>
    rw [List.foldl_cons, ih, List.foldl_cons, noting]
    split <;> rfl

theorem foldl_noting_of_noted (h : acc.2 = true) :
    (items.foldl (noting changes put) acc).2 = true := by
  induction items generalizing acc with
  | nil => exact h
  | cons a rest ih =>
    refine ih ?_
    unfold noting
    split
    · rfl
    · exact h

/-- As long as no step changes anything, each starts from the same state. -/
theorem foldl_noting_of_unchanged (h : ∀ a ∈ items, changes acc.1 a = false) :
    items.foldl (noting changes put) acc = acc := by
  induction items with
  | nil => rfl
  | cons a rest ih =>
    rw [List.forall_mem_cons] at h
    rw [List.foldl_cons, noting, if_neg (Bool.eq_false_iff.mp h.1)]
    exact ih h.2

theorem foldl_noting_unchanged_iff : (items.foldl (noting changes put) acc).2 = false ↔
    acc.2 = false ∧ ∀ a ∈ items, changes acc.1 a = false := by
  constructor
  · intro h
    induction items generalizing acc with
    | nil => exact ⟨h, fun a ha => nomatch ha⟩
    | cons a rest ih =>
      rw [List.foldl_cons, noting] at h
      cases ha : changes acc.1 a with
      | true =>
        rw [if_pos ha, foldl_noting_of_noted rfl] at h
        cases h
      | false =>
        rw [if_neg (Bool.eq_false_iff.mp ha)] at h
        obtain ⟨hacc, hrest⟩ := ih h
        exact ⟨hacc, List.forall_mem_cons.mpr ⟨ha, hrest⟩⟩
  · intro h
    rw [foldl_noting_of_unchanged h.2]
    exact h.1

end Noting

/-- Whether joining a value to that of a variable changes it. -/
def changesValue (scopes : ScopeTree) (s : State) (e : VarId × Value) : Bool :=
  (s.current scopes e.1).or e.2 != s.current scopes e.1 || (s.lookup e.1).isNone

/-- Whether joining a version to that of an object changes it. -/
def changesVersion (s : State) (e : Reference × HeapObject) : Bool :=
  s.object? e.1 != some (joinWith (s.object? e.1) e.2)

/-- Whether a variable reaches something new. -/
def changesReach (s : State) (e : VarId × RefSet) : Bool :=
  ((s.reachOf e.1).union e.2).size != (s.reachOf e.1).size

/-- Joins a value to that of a variable. -/
def putMerged (scopes : ScopeTree) (s : State) (e : VarId × Value) : State :=
  s.putValue e.1 ((s.current scopes e.1).or e.2)

theorem gives_mergeUnsure_eq (s : State) (scopes : ScopeTree) (w : Written) :
    Gives (s.mergeUnsure scopes w) (· = (w.reach.toList.foldl putUnsureReach
      (w.heap.toList.foldl putUnsureVersion
        (w.vars.toList.foldl (putUnsure scopes) s))).absorb w) := by
  unfold mergeUnsure
  refine (Gives.loop_eq (g := putUnsure scopes) (fun e s => ?_) _ _).bind fun t ht => ?_
  · refine (gives_join _ _).bind fun x hx => ?_
    subst hx
    unfold putUnsure
    split <;> exact Gives.pure rfl
  · subst ht
    refine (Gives.loop_eq (g := putUnsureVersion) (fun e s => ?_) _ _).bind fun u hu => ?_
    · refine (gives_joinVersions s e.1 none (some e.2)).bind fun version hversion => ?_
      have hsome : version = some (joinWith (s.object? e.1) e.2) :=
        hversion.trans (joinVersion_some _ _)
      rw [hsome]
      unfold putUnsureVersion
      simp only
      split <;> exact Gives.pure rfl
    · subst hu
      refine (Gives.loop_eq (g := putUnsureReach) (fun e s => ?_) _ _).bind fun v hv => ?_
      · unfold putUnsureReach
        simp only
        split <;> exact Gives.pure rfl
      · subst hv
        exact Gives.pure rfl

theorem gives_mergeUnsureNoting (s : State) (scopes : ScopeTree) (w : Written) :
    Gives (s.mergeUnsureNoting scopes w) fun p =>
      let merged := w.reach.toList.foldl (noting changesReach putMaybeReach)
        (w.heap.toList.foldl (noting changesVersion putMaybeVersion)
          (w.vars.toList.foldl (noting (changesValue scopes) (putMerged scopes)) (s, false)))
      p = (merged.1.absorb w, merged.2) := by
  unfold mergeUnsureNoting
  refine (Gives.loop_eq (g := noting (changesValue scopes) (putMerged scopes))
    (fun e acc => ?_) _ _).bind fun t ht => ?_
  · refine (gives_join _ _).bind fun x hx => ?_
    subst hx
    unfold noting changesValue
    split <;> exact Gives.pure rfl
  · subst ht
    refine (Gives.loop_eq (g := noting changesVersion putMaybeVersion)
      (fun e acc => ?_) _ _).bind fun u hu => ?_
    · refine (gives_joinVersions acc.1 e.1 none (some e.2)).bind fun version hversion => ?_
      have hsome : version = some (joinWith (acc.1.object? e.1) e.2) :=
        hversion.trans (joinVersion_some _ _)
      rw [hsome]
      unfold noting changesVersion
      simp only
      split <;> exact Gives.pure rfl
    · subst hu
      refine (Gives.loop_eq (g := noting changesReach putMaybeReach)
        (fun e acc => ?_) _ _).bind fun v hv => ?_
      · unfold noting changesReach
        simp only
        split <;> exact Gives.pure rfl
      · subst hv
        exact Gives.pure rfl

/-- Noting what changes does not influence the merge. -/
theorem mergeUnsureNoting_fst (s : State) (scopes : ScopeTree) (w : Written) (esc esc' : RefSet) :
    (s.mergeUnsureNoting scopes w esc).1.1 = (s.mergeUnsure scopes w esc').1 := by
  rw [gives_mergeUnsureNoting s scopes w esc, gives_mergeUnsure_eq s scopes w esc']
  simp only [foldl_noting_fst]
  rfl

/-- Joining all that a union holds to what is known changes nothing. -/
structure NothingNew (scopes : ScopeTree) (s : State) (w : Written) : Prop where
  value : ∀ (v : VarId) (x : Value), w.vars[v]? = some x →
    (x.or (s.current scopes v) == s.current scopes v) = true ∧ (s.lookup v).isSome
  version : ∀ (r : Reference) (o : HeapObject), w.heap[r]? = some o →
    ∃ p : HeapObject, s.object? r = some p ∧ (o.or p == p) = true
  reach : ∀ v r, r ∈ w.reach.getD v {} → r ∈ s.reachOf v

theorem changesValue_eq_false {scopes : ScopeTree} {s : State} {e : VarId × Value} :
    changesValue scopes s e = false ↔
      (e.2.or (s.current scopes e.1) == s.current scopes e.1) = true ∧ (s.lookup e.1).isSome := by
  rw [changesValue, Bool.or_eq_false_iff, bne, Bool.not_eq_false', Value.or_beq_iff_below,
    Value.below_iff_or_beq, Option.isNone_eq_false_iff]

theorem changesVersion_eq_false {s : State} {e : Reference × HeapObject} :
    changesVersion s e = false ↔ ∃ p, s.object? e.1 = some p ∧ (e.2.or p == p) = true := by
  rw [changesVersion, bne, Bool.not_eq_false']
  cases s.object? e.1 with
  | none => exact ⟨fun h => (by cases h), fun ⟨p, hp, _⟩ => by cases hp⟩
  | some p =>
    change (p == p.or e.2) = true ↔ _
    rw [BEq.comm, HeapObject.or_beq_iff_below, HeapObject.below_iff_or_beq]
    exact ⟨fun h => ⟨p, rfl, h⟩, fun ⟨q, hq, h⟩ => by cases hq; exact h⟩

theorem changesReach_eq_false {s : State} {e : VarId × RefSet} :
    changesReach s e = false ↔ ∀ r ∈ e.2, r ∈ s.reachOf e.1 := by
  rw [changesReach, bne, Bool.not_eq_false', beq_iff_eq, RefSet.size_union_eq_iff]

theorem nothingNew_iff {scopes : ScopeTree} {s : State} {w : Written} : NothingNew scopes s w ↔
    (∀ e ∈ w.vars.toList, changesValue scopes s e = false) ∧
      (∀ e ∈ w.heap.toList, changesVersion s e = false) ∧
        ∀ e ∈ w.reach.toList, changesReach s e = false := by
  simp only [changesValue_eq_false, changesVersion_eq_false, changesReach_eq_false]
  rw [Reach.forall_mem_toList_iff (P := fun v r => r ∈ s.reachOf v)]
  constructor
  · intro h
    exact ⟨fun e he => h.value e.1 e.2 (Values.mem_toList.mp he),
      fun e he => h.version e.1 e.2 (Objects.mem_toList.mp he), h.reach⟩
  · rintro ⟨hvalue, hversion, hreach⟩
    exact ⟨fun v x hx => hvalue (v, x) (Values.mem_toList.mpr hx),
      fun r o ho => hversion (r, o) (Objects.mem_toList.mpr ho), hreach⟩

/-- A merge through a union that holds nothing new changes nothing, and tells so. -/
theorem mergeUnsureNoting_of_nothingNew {scopes : ScopeTree} {s : State} {w : Written}
    (h : NothingNew scopes s w) : Gives (s.mergeUnsureNoting scopes w) (· = (s.absorb w, false)) := by
  intro esc
  obtain ⟨hvalue, hversion, hreach⟩ := nothingNew_iff.mp h
  have hvars : w.vars.toList.foldl (noting (changesValue scopes) (putMerged scopes)) (s, false) =
      (s, false) := foldl_noting_of_unchanged hvalue
  have hheap : w.heap.toList.foldl (noting changesVersion putMaybeVersion) (s, false) = (s, false) :=
    foldl_noting_of_unchanged hversion
  have hreach : w.reach.toList.foldl (noting changesReach putMaybeReach) (s, false) = (s, false) :=
    foldl_noting_of_unchanged hreach
  rw [gives_mergeUnsureNoting s scopes w esc, hvars, hheap, hreach]

/-- A merge tells that nothing changed exactly if there was nothing new. -/
theorem mergeUnsureNoting_unchanged_iff (s : State) (scopes : ScopeTree) (w : Written) :
    Gives (s.mergeUnsureNoting scopes w) fun p => p.2 = false ↔ NothingNew scopes s w := by
  intro esc
  constructor
  · rw [gives_mergeUnsureNoting s scopes w esc]
    intro h
    obtain ⟨hheap, hreach⟩ := foldl_noting_unchanged_iff.mp h
    obtain ⟨hvars, hversion⟩ := foldl_noting_unchanged_iff.mp hheap
    have hvalue := (foldl_noting_unchanged_iff.mp hvars).2
    rw [foldl_noting_of_unchanged hversion, foldl_noting_of_unchanged hvalue] at hreach
    rw [foldl_noting_of_unchanged hvalue] at hversion
    exact nothingNew_iff.mpr ⟨hvalue, hversion, hreach⟩
  · intro h
    rw [mergeUnsureNoting_of_nothingNew h esc]

/-- After a merge through a union, that union holds nothing new. -/
theorem nothingNew_mergeUnsure (s : State) (scopes : ScopeTree) (w : Written) :
    Gives (s.mergeUnsure scopes w) fun t => NothingNew scopes t w := by
  intro esc
  refine ⟨fun v x hx => ⟨?_, ?_⟩, fun r o ho => ?_, fun v r hr => ?_⟩
  · exact Value.below_iff_or_beq.mp ((mergeUnsure_current s scopes w v esc).2.1 x hx)
  · rw [mergeUnsure_lookup s scopes w v esc, hx]
    simp only
    split
    · rfl
    · rename_i h
      simpa using (Bool.or_eq_false_iff.mp (Bool.eq_false_iff.mpr h)).2
  · have hobject := mergeUnsure_object s scopes w r esc
    rw [ho] at hobject
    obtain ⟨p, hp, hop⟩ := (VersionBelow.join_right (s.object? r) (some o)).trans
      (VersionBelow.of_beq hobject).2 o rfl
    exact ⟨p, hp, HeapObject.below_iff_or_beq.mp hop⟩
  · exact (mergeUnsure_reachOf s scopes w v r esc).mpr (Or.inr hr)

/-- What holds nothing new holds nothing new in another form either. -/
theorem NothingNew.of_heldBy {scopes : ScopeTree} {s : State} {w w' : Written}
    (h : NothingNew scopes s w) (hw : w'.HeldBy w) : NothingNew scopes s w' where
  value v x hx := by
    obtain ⟨y, hy, hxy⟩ := hw.value v x hx
    obtain ⟨hys, hsome⟩ := h.value v y hy
    exact ⟨Value.below_iff_or_beq.mp
      ((Value.below_iff_or_beq.mpr hxy).trans (Value.below_iff_or_beq.mpr hys)), hsome⟩
  version r o ho := by
    obtain ⟨p, hp, hop⟩ := hw.version r o ho
    obtain ⟨q, hq, hpq⟩ := h.version r p hp
    exact ⟨q, hq, HeapObject.below_iff_or_beq.mp
      ((HeapObject.below_iff_or_beq.mpr hop).trans (HeapObject.below_iff_or_beq.mpr hpq))⟩
  reach v r hr := h.reach v r (hw.reach v r hr)

/-! ## The second time -/

/-- Versions of an object are a join semilattice with `unknown` on top. A union tells that nothing
changed exactly if it held all that was added; adding the same again changes nothing, and nor does a
second merge through an equal union. -/
theorem join_laws_and_changes (a b c : HeapObject) (w other : Written) (s : State)
    (scopes : ScopeTree) (esc esc' : RefSet) :
    ((a.or a == a) = true ∧ (a.or b == b.or a) = true ∧
      ((a.or b).or c == a.or (b.or c)) = true ∧ ((a.or b).or b == a.or b) = true ∧
      (a.or .unknown == .unknown) = true ∧ (HeapObject.unknown.or a == .unknown) = true) ∧
    ((w.absorb other).2 = false ↔ other.HeldBy w) ∧
    (let once := (w.absorb other).1;
      (once.absorb other).2 = false ∧ (once.absorb other).1.Same once) ∧
    (let once := (s.mergeUnsureNoting scopes other esc).1.1;
      ∀ again : Written, again.Same other →
        (once.mergeUnsureNoting scopes again esc').1 = (once.absorb again, false)) := by
  refine ⟨⟨a.or_self_beq, a.or_comm_beq b, a.or_assoc_beq b c, a.or_or_self_beq b,
    a.or_unknown_beq, a.unknown_or_beq⟩, Written.absorb_unchanged_iff w other, ⟨?_, ?_⟩, ?_⟩
  · exact (Written.absorb_unchanged_iff _ other).mpr (Written.heldBy_absorb_right w other)
  · refine (Written.heldBy_absorb_right w other).absorb_same fun v hv => ?_
    rw [Written.isSome_absorb_reach, hv, Bool.or_true]
  · intro once again hagain
    have hnew : NothingNew scopes once other := by
      rw [show once = _ from mergeUnsureNoting_fst s scopes other esc esc]
      exact nothingNew_mergeUnsure s scopes other esc
    exact mergeUnsureNoting_of_nothingNew (hnew.of_heldBy hagain.heldBy) esc'

theorem second_merge_unnoticed :
    let scopes : ScopeTree := { scopes := #[] }
    let written : Written := { vars := ({} : Values).insert 0 .undefined }
    let once := ({} : State).mergeUnsureNoting scopes written {}
    once.1.2 = true ∧ (once.1.1.mergeUnsureNoting scopes written {}).1.2 = false := by
  intro scopes written once
  refine ⟨by decide, ?_⟩
  have h := (join_laws_and_changes .unknown .unknown .unknown {} written {} scopes {} {}).2.2.2
    written ⟨fun v => BEq.rfl, fun r => BEq.rfl, fun v => ⟨rfl, fun r => Iff.rfl⟩⟩
  rw [h]

end State

end EsOptimizer
