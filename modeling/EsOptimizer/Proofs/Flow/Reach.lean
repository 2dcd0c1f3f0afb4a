import EsOptimizer.Proofs.Flow.Versions

/-!
# Merging, and what a variable reaches

What each of the four merges makes of the references that may be reached from a variable, in the same
way as for values and versions. These are sets that only ever unite, so they are described by their
members (`RefSet.mem_union`).

- `mergeBack_reachOf`: the child's set, if it has one and the variable is not discarded;
- `mergeLive_reachOf`: the union of what both children have;
- `mergeMaybe_reachOf`: the union of what was there and what the child has;
- `mergeUnsure_reachOf`: the union of what was there and all that was added.

Neither values nor objects influence them: `SameReach` says that two states differ at most in those.
-/

namespace EsOptimizer

/-! ## Sets of references -/

namespace RefSet

theorem mem_extend {s : RefSet} {rs : List Reference} {r : Reference} :
    r ∈ s.extend rs ↔ r ∈ s ∨ r ∈ rs := by
  unfold extend
  induction rs generalizing s with
  | nil => simp
  | cons q rest ih =>
    rw [List.foldl_cons, ih, Std.TreeSet.mem_insert, Std.LawfulEqCmp.compare_eq_iff_eq,
      List.mem_cons, eq_comm (a := q), or_assoc, or_left_comm]

theorem mem_ofList {rs : List Reference} {r : Reference} : r ∈ ofList rs ↔ r ∈ rs := by
  rw [ofList, Std.TreeSet.mem_ofList, List.contains_iff_mem]

theorem mem_union {a b : RefSet} {r : Reference} : r ∈ a.union b ↔ r ∈ a ∨ r ∈ b := by
  rw [union, mem_extend, Std.TreeSet.mem_toList]

theorem size_le_extend (s : RefSet) (rs : List Reference) : s.size ≤ (s.extend rs).size := by
  unfold extend
  induction rs generalizing s with
  | nil => exact Nat.le_refl _
  | cons q rest ih => exact Nat.le_trans Std.TreeSet.size_le_size_insert (ih (s.insert q))

/-- Adding references makes a set larger unless it has them all. -/
theorem size_extend_eq_iff {s : RefSet} {rs : List Reference} :
    (s.extend rs).size = s.size ↔ ∀ r ∈ rs, r ∈ s := by
  induction rs generalizing s with
  | nil => exact ⟨fun _ r hr => (nomatch hr), fun _ => rfl⟩
  | cons q rest ih =>
    have hsize := Std.TreeSet.size_insert (t := s) (k := q)
    have hle := size_le_extend (s.insert q) rest
    change (extend (s.insert q) rest).size = s.size ↔ _
    rw [List.forall_mem_cons]
    by_cases hq : q ∈ s
    · rw [if_pos (Std.TreeSet.contains_iff_mem.mpr hq)] at hsize
      rw [← hsize, ih]
      have hinsert (r : Reference) : r ∈ s.insert q ↔ r ∈ s := by
        rw [Std.TreeSet.mem_insert, Std.LawfulEqCmp.compare_eq_iff_eq]
        exact ⟨fun h => h.elim (fun hqr => hqr ▸ hq) id, Or.inr⟩
      exact ⟨fun h => ⟨hq, fun r hr => (hinsert r).mp (h r hr)⟩,
        fun h r hr => (hinsert r).mpr (h.2 r hr)⟩
    · rw [if_neg fun h => hq (Std.TreeSet.contains_iff_mem.mp h)] at hsize
      exact ⟨fun h => (by omega), fun h => absurd h.1 hq⟩

theorem size_union_eq_iff {a b : RefSet} : (a.union b).size = a.size ↔ ∀ r ∈ b, r ∈ a := by
  rw [union, size_extend_eq_iff]
  simp only [Std.TreeSet.mem_toList]

end RefSet

/-- What holds of all references in a map holds of what each variable has there. -/
theorem Reach.forall_mem_toList_iff {m : Reach} {P : VarId → Reference → Prop} :
    (∀ e ∈ m.toList, ∀ r ∈ e.2, P e.1 r) ↔ ∀ v r, r ∈ m.getD v {} → P v r := by
  simp only [Std.TreeMap.getD_eq_getD_getElem?]
  constructor
  · intro h v r hr
    cases hrefs : m[v]? with
    | none => simp [hrefs] at hr
    | some refs =>
      rw [hrefs] at hr
      exact h (v, refs) (Std.TreeMap.mem_toList_iff_getElem?_eq_some.mpr hrefs) r hr
  · intro h e he r hr
    refine h e.1 r ?_
    rwa [Std.TreeMap.mem_toList_iff_getElem?_eq_some.mp he]

namespace State

open Escaping

/-! ## Reading what is reached -/

theorem reachOf_eq (s : State) (v : VarId) : s.reachOf v = s.top.reach[v]?.getD
    (match s.top.boundary.bind (·.reach[v]?) with
      | some extra => (Layer.reachIn v s.below).union extra
      | none => Layer.reachIn v s.below) := by
  unfold reachOf layers
  rw [Layer.reachIn]
  cases s.top.reach[v]? <;> rfl

/-- The states differ at most in the values of variables, in objects and in what was written. -/
structure SameReach (s t : State) : Prop where
  below : t.below = s.below
  boundary : t.top.boundary = s.top.boundary
  reach : t.top.reach = s.top.reach

namespace SameReach

theorem refl (s : State) : SameReach s s := ⟨rfl, rfl, rfl⟩

theorem trans {s t u : State} (hst : SameReach s t) (htu : SameReach t u) : SameReach s u :=
  ⟨htu.below.trans hst.below, htu.boundary.trans hst.boundary, htu.reach.trans hst.reach⟩

theorem reachOf {s t : State} (h : SameReach s t) (v : VarId) : t.reachOf v = s.reachOf v := by
  rw [reachOf_eq, reachOf_eq, h.reach, h.below, h.boundary]

theorem foldl {α : Type} {f : State → α → State} (h : ∀ s a, SameReach s (f s a))
    (items : List α) (s : State) : SameReach s (items.foldl f s) := by
  induction items generalizing s with
  | nil => exact refl s
  | cons a rest ih => exact (h s a).trans (ih _)

end SameReach

theorem reachOf_child (s : State) (v : VarId) : s.child.reachOf v = s.reachOf v := by
  simp [State.reachOf, child, layers, Layer.reachIn]

theorem reachOf_withLayer {s : State} {delta : Layer} (h : delta.boundary = none) (v : VarId) :
    (s.withLayer delta).reachOf v = delta.reach[v]?.getD (s.reachOf v) := by
  rw [reachOf_eq, withLayer, h]
  rfl

/-! ## Steps -/

theorem putValue_sameReach (s : State) (v : VarId) (x : Value) : SameReach s (s.putValue v x) :=
  ⟨rfl, rfl, rfl⟩

theorem putVersion_sameReach (s : State) (r : Reference) (o : HeapObject) :
    SameReach s (s.putVersion r o) := ⟨rfl, rfl, rfl⟩

theorem absorb_sameReach (s : State) (w : Written) : SameReach s (s.absorb w) := ⟨rfl, rfl, rfl⟩

@[simp] theorem putReach_reachOf (s : State) (v w : VarId) (refs : RefSet) :
    (s.putReach v refs).reachOf w = if v = w then refs else s.reachOf w := by
  rw [reachOf_eq, reachOf_eq]
  change ((s.top.reach.insert v refs)[w]?).getD _ = _
  rw [getElem?_insert_of_key]
  split <;> rfl

/-- Joining versions of an object leaves what is reached alone. -/
theorem gives_putJoined_sameReach (s : State) (r : Reference) (a b : Option HeapObject) :
    Gives (do
      match ← s.joinVersions r a b with
      | some o => pure (ForInStep.yield (s.putVersion r o))
      | none => pure (ForInStep.yield s)) fun step => ∃ t, step = .yield t ∧ SameReach s t := by
  refine (Gives.any _).bind fun version _ => ?_
  cases version with
  | none => exact Gives.pure ⟨s, rfl, SameReach.refl s⟩
  | some o => exact Gives.pure ⟨_, rfl, putVersion_sameReach s r o⟩

/-! ## Code that certainly ran -/

theorem mergeBack_reachOf (s : State) (scopes : ScopeTree) (delta : Layer)
    (discard : Option ScopeId) (v : VarId) : (s.mergeBack scopes delta discard).reachOf v =
      if discard = some (scopes.var v).scope then s.reachOf v
      else delta.reach[v]?.getD (s.reachOf v) := by
  unfold mergeBack
  simp only
  rw [(SameReach.foldl (fun s (e : Reference × HeapObject) => putVersion_sameReach s e.1 e.2)
    _ _).reachOf]
  rw [foldl_filter_toList_at State.reachOf delta.reach
      (fun v => discard != some (scopes.var v).scope) (F := fun _ refs _ => refs)
      (fun s e w => putReach_reachOf s e.1 w e.2),
    (SameReach.foldl (fun s (e : VarId × Value) => putValue_sameReach s e.1 e.2) _ _).reachOf]
  simp only [bne_iff_ne, ne_eq, ite_not]
  refine if_congr Iff.rfl rfl ?_
  cases delta.reach[v]? <;> rfl

/-! ## Exactly one of two -/

/-- Unites what may be reached from a variable at the ends of two pieces of code. -/
def putUnion (a b : Layer) (s : State) (v : VarId) : State :=
  s.putReach v ((a.reach.getD v (s.reachOf v)).union (b.reach.getD v (s.reachOf v)))

theorem gives_mergeLive_reach (s : State) (scopes : ScopeTree) (a b : Layer) :
    Gives (s.mergeLive scopes a b) fun t => ∃ u, SameReach s u ∧
      t = (eitherKey a.reach b.reach).foldl (putUnion a b) u := by
  unfold mergeLive
  refine (Gives.loop SameReach.refl SameReach.trans (fun v s => ?_) _ _).bind fun u hu => ?_
  · exact (Gives.any _).bind fun x _ => Gives.pure ⟨_, rfl, putValue_sameReach s v x⟩
  · refine (Gives.loop SameReach.refl SameReach.trans
      (fun r s => gives_putJoined_sameReach s r _ _) _ _).bind fun w hw => ?_
    refine (Gives.loop_eq (g := putUnion a b) (fun v s => Gives.pure rfl) _ _).bind fun t ht => ?_
    subst ht
    exact Gives.pure ⟨w, (absorb_sameReach _ _).trans ((absorb_sameReach _ _).trans (hu.trans hw)),
      rfl⟩

/-- From a variable may be reached what may be reached from it at the end of either piece of code. -/
theorem mergeLive_reachOf (s : State) (scopes : ScopeTree) {a b : Layer} (ha : a.boundary = none)
    (hb : b.boundary = none) (v : VarId) (r : Reference) :
    Gives (s.mergeLive scopes a b) fun t => r ∈ t.reachOf v ↔
      r ∈ (s.withLayer a).reachOf v ∨ r ∈ (s.withLayer b).reachOf v := by
  intro esc
  obtain ⟨u, hu, ht⟩ := gives_mergeLive_reach s scopes a b esc
  have hreach : u.reachOf v = s.reachOf v := hu.reachOf v
  rw [ht, reachOf_withLayer ha, reachOf_withLayer hb]
  rw [foldl_eitherKey_at State.reachOf a.reach b.reach
    (F := fun v known => (a.reach.getD v known).union (b.reach.getD v known))
    (fun s v w => by
      rw [putUnion, putReach_reachOf]
      split
      · subst w
        rfl
      · rfl), hreach]
  split
  · rw [RefSet.mem_union, Std.TreeMap.getD_eq_getD_getElem?, Std.TreeMap.getD_eq_getD_getElem?]
  · rename_i hv
    obtain ⟨hna, hnb⟩ := not_or.mp hv
    rw [Option.not_isSome_iff_eq_none.mp hna, Option.not_isSome_iff_eq_none.mp hnb]
    exact or_self_iff.symm

/-! ## Code that may not have run -/

/-- Unites what could be reached from a variable and what can be reached from it at the end of code. -/
def putMaybeReach (s : State) (e : VarId × RefSet) : State :=
  s.putReach e.1 ((s.reachOf e.1).union e.2)

theorem gives_mergeMaybe_reach (s : State) (scopes : ScopeTree) {delta : Layer}
    (hlive : delta.dead = false) :
    Gives (s.mergeMaybe scopes delta) fun t => ∃ u, SameReach s u ∧
      t = delta.reach.toList.foldl putMaybeReach u := by
  unfold mergeMaybe
  simp only [hlive, Bool.false_eq_true, if_false]
  refine (Gives.loop SameReach.refl SameReach.trans (fun e s => ?_) _ _).bind fun u hu => ?_
  · exact (Gives.any _).bind fun x _ => Gives.pure ⟨_, rfl, putValue_sameReach s e.1 x⟩
  · refine (Gives.loop SameReach.refl SameReach.trans
      (fun (e : Reference × HeapObject) s => gives_putJoined_sameReach s e.1 _ _) _ _).bind
        fun w hw => ?_
    refine (Gives.loop_eq (g := putMaybeReach) (fun e s => Gives.pure rfl) _ _).bind fun t ht => ?_
    subst ht
    exact Gives.pure ⟨w, (absorb_sameReach _ _).trans (hu.trans hw), rfl⟩

/-- Afterwards may be reached what could be reached before, and what can be reached at the end of code
that comes to its end. -/
theorem mergeMaybe_reachOf (s : State) (scopes : ScopeTree) {delta : Layer}
    (hb : delta.boundary = none) (v : VarId) (r : Reference) :
    Gives (s.mergeMaybe scopes delta) fun t => r ∈ t.reachOf v ↔
      r ∈ s.reachOf v ∨ delta.dead = false ∧ r ∈ (s.withLayer delta).reachOf v := by
  cases hd : delta.dead with
  | true =>
    unfold mergeMaybe
    simp only [hd, if_true]
    refine Gives.pure ?_
    rw [(absorb_sameReach s delta.written).reachOf]
    simp
  | false =>
    intro esc
    obtain ⟨u, hu, ht⟩ := gives_mergeMaybe_reach s scopes hd esc
    have hreach : u.reachOf v = s.reachOf v := hu.reachOf v
    rw [ht, reachOf_withLayer hb]
    rw [foldl_toList_at State.reachOf delta.reach (F := fun _ refs known => known.union refs)
      (fun s e w => by
        rw [putMaybeReach, putReach_reachOf]
        split
        · rename_i heq
          rw [heq]
        · rfl), hreach]
    cases delta.reach[v]? with
    | some refs => simp [RefSet.mem_union]
    | none => simp

/-! ## Code that may have stopped anywhere -/

/-- Unites what could be reached from a variable and all that code added, unless that adds nothing. -/
def putUnsureReach (s : State) (e : VarId × RefSet) : State :=
  if ((s.reachOf e.1).union e.2).size != (s.reachOf e.1).size then putMaybeReach s e else s

theorem gives_mergeUnsure_reach (s : State) (scopes : ScopeTree) (w : Written) :
    Gives (s.mergeUnsure scopes w) fun t => ∃ u, SameReach s u ∧
      t = (w.reach.toList.foldl putUnsureReach u).absorb w := by
  unfold mergeUnsure
  refine (Gives.loop SameReach.refl SameReach.trans (fun e s => ?_) _ _).bind fun u hu => ?_
  · refine (Gives.any _).bind fun x _ => ?_
    simp only
    split
    · exact Gives.pure ⟨_, rfl, putValue_sameReach s e.1 x⟩
    · exact Gives.pure ⟨_, rfl, SameReach.refl s⟩
  · refine (Gives.loop SameReach.refl SameReach.trans (fun e s => ?_) _ _).bind fun t ht => ?_
    · refine (Gives.any _).bind fun version _ => ?_
      cases version with
      | none => exact Gives.pure ⟨s, rfl, SameReach.refl s⟩
      | some o =>
        simp only
        split
        · exact Gives.pure ⟨_, rfl, putVersion_sameReach s e.1 o⟩
        · exact Gives.pure ⟨s, rfl, SameReach.refl s⟩
    · refine (Gives.loop_eq (g := putUnsureReach) (fun e s => ?_) _ _).bind fun v hv => ?_
      · unfold putUnsureReach
        simp only
        split
        · exact Gives.pure rfl
        · exact Gives.pure rfl
      · subst hv
        exact Gives.pure ⟨t, hu.trans ht, rfl⟩

/-- Afterwards may be reached what could be reached before, and all that code added. -/
theorem mergeUnsure_reachOf (s : State) (scopes : ScopeTree) (w : Written) (v : VarId)
    (r : Reference) :
    Gives (s.mergeUnsure scopes w) fun t => r ∈ t.reachOf v ↔
      r ∈ s.reachOf v ∨ r ∈ w.reach.getD v {} := by
  intro esc
  obtain ⟨u, hu, ht⟩ := gives_mergeUnsure_reach s scopes w esc
  have hreach : u.reachOf v = s.reachOf v := hu.reachOf v
  rw [ht, (absorb_sameReach _ w).reachOf, Std.TreeMap.getD_eq_getD_getElem?]
  rw [foldl_toList_at State.reachOf w.reach
    (F := fun _ refs known =>
      if (known.union refs).size != known.size then known.union refs else known)
    (fun s e w => by
      unfold putUnsureReach
      by_cases hew : e.1 = w
      · subst hew
        rw [if_pos rfl]
        split
        · rw [putMaybeReach, putReach_reachOf, if_pos rfl]
        · rfl
      · rw [if_neg hew]
        split
        · rw [putMaybeReach, putReach_reachOf, if_neg hew]
        · rfl), hreach]
  cases w.reach[v]? with
  | none => simp
  | some refs =>
    rw [Option.elim_some, Option.getD_some]
    split
    · rw [RefSet.mem_union]
    · rename_i hsame
      have hsub := RefSet.size_union_eq_iff.mp (by simpa using hsame)
      exact ⟨Or.inl, fun h => h.elim id (hsub r)⟩

end State

end EsOptimizer
