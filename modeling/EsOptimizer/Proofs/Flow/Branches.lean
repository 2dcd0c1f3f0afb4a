import EsOptimizer.Proofs.Flow.Unions

/-!
# Branches are exact

A branch takes exactly one of its arms, and nothing is known afterwards but that: each fact is the
join of what the ends of both arms know (`JoinOf`), and if only one arm comes to its end, it is what
that arm knows (`SameFacts`). Code that may not run is a branch whose other arm does nothing. Which
arm comes first plays no role (`Alike`): joins commute up to the order in which members are listed.

An arm only lists what it changed, so each entry that is missing on one side is completed with what
the code around knows. That is what reading a child through its layer does (`withLayer`), which is
why the arms are described by `lookup`, `reachOf` and `object?` and not by the entries they have.
-/

namespace EsOptimizer

/-! ## Joins in another order -/

theorem joinVersion_comm (a b : Option HeapObject) : (joinVersion a b == joinVersion b a) = true := by
  cases a with
  | none => cases b <;> exact BEq.rfl
  | some o =>
    cases b with
    | none => exact BEq.rfl
    | some p => exact HeapObject.or_comm_beq o p

/-- Two entries joined to a third, each of which may be missing. -/
theorem merge_right_comm_beq {α : Type} [BEq α] [ReflBEq α] {f : α → α → α}
    (hcomm : ∀ x y, (f x y == f y x) = true)
    (hright : ∀ x y z, (f (f x y) z == f (f x z) y) = true) (a b c : Option α) :
    (Option.merge f (Option.merge f a b) c == Option.merge f (Option.merge f a c) b) = true := by
  cases a with
  | none =>
    cases b with
    | none => cases c <;> exact BEq.rfl
    | some y =>
      cases c with
      | none => exact BEq.rfl
      | some z => exact hcomm y z
  | some x =>
    cases b with
    | none => cases c <;> exact BEq.rfl
    | some y =>
      cases c with
      | none => exact BEq.rfl
      | some z => exact hright x y z

namespace Written

theorem Same.refl (w : Written) : w.Same w :=
  ⟨fun _ => BEq.rfl, fun _ => BEq.rfl, fun _ => ⟨rfl, fun _ => Iff.rfl⟩⟩

/-- The order in which two unions are added plays no role. -/
theorem absorb_right_comm (w a b : Written) :
    ((w.absorb a).1.absorb b).1.Same ((w.absorb b).1.absorb a).1 where
  value v := by
    simp only [absorb_vars_at]
    exact merge_right_comm_beq Value.or_comm_beq Value.or_right_comm_beq _ _ _
  version r := by
    simp only [absorb_heap_at]
    exact merge_right_comm_beq HeapObject.or_comm_beq HeapObject.or_right_comm_beq _ _ _
  reach v := by
    refine ⟨?_, fun r => ?_⟩
    · simp only [isSome_absorb_reach, Bool.or_right_comm]
    · simp only [mem_absorb_reach, or_right_comm]

end Written

namespace State

open Escaping

/-! ## Comparing states -/

/-- Both states know the same of all variables and objects. -/
structure SameFacts (s t : State) : Prop where
  value : ∀ v, t.lookup v = s.lookup v
  reach : ∀ v, t.reachOf v = s.reachOf v
  version : ∀ r, t.object? r = s.object? r

namespace SameFacts

variable {s t : State}

theorem refl (s : State) : SameFacts s s := ⟨fun _ => rfl, fun _ => rfl, fun _ => rfl⟩

theorem absorb (h : SameFacts s t) (w : Written) : SameFacts s (t.absorb w) :=
  ⟨h.value, h.reach, h.version⟩

theorem markDead (h : SameFacts s t) : SameFacts s t.markDead := ⟨h.value, h.reach, h.version⟩

end SameFacts

/-- The state knows what two others have in common. Of an object that only one of them knows, it has
the version of that one. -/
structure JoinOf (scopes : ScopeTree) (a b t : State) : Prop where
  value : ∀ v, (t.current scopes v == (a.current scopes v).or (b.current scopes v)) = true
  reach : ∀ v r, r ∈ t.reachOf v ↔ r ∈ a.reachOf v ∨ r ∈ b.reachOf v
  both : ∀ r, (a.object? r).isSome → (b.object? r).isSome → t.deref r = (a.deref r).or (b.deref r)
  first : ∀ r, b.object? r = none → t.object? r = a.object? r
  second : ∀ r, a.object? r = none → t.object? r = b.object? r

/-- The states differ at most in the order in which they list members and properties. -/
structure Alike (s t : State) : Prop where
  below : t.below = s.below
  boundary : t.top.boundary = s.top.boundary
  dead : t.isDead = s.isDead
  value : ∀ v, (s.lookup v == t.lookup v) = true
  reach : ∀ v r, r ∈ s.reachOf v ↔ r ∈ t.reachOf v
  version : ∀ r, (s.object? r == t.object? r) = true
  written : s.top.written.Same t.top.written

theorem Alike.refl (s : State) : Alike s s :=
  ⟨rfl, rfl, rfl, fun _ => BEq.rfl, fun _ _ => Iff.rfl, fun _ => BEq.rfl, Written.Same.refl _⟩

/-! ## Only one arm comes to its end -/

/-- Code that certainly ran, and that keeps all its variables: afterwards is known what it knows. -/
theorem mergeBack_sameFacts (s : State) (scopes : ScopeTree) {delta : Layer}
    (hb : delta.boundary = none) : SameFacts (s.withLayer delta) (s.mergeBack scopes delta none) where
  value v := by rw [mergeBack_lookup, if_neg (by simp), lookup_withLayer hb]
  reach v := by rw [mergeBack_reachOf, if_neg (by simp), reachOf_withLayer hb]
  version r := mergeBack_object s scopes hb none r

/-- What two arms wrote plays no role where neither comes to its end. -/
theorem deadEnds_sameFacts (s : State) (w w' : Written) :
    SameFacts s ((s.absorb w).absorb w').markDead :=
  (((SameFacts.refl s).absorb w).absorb w').markDead

/-- What another arm wrote on the way plays no role. -/
theorem mergeBack_beside_sameFacts (s : State) (scopes : ScopeTree) {delta : Layer}
    (hb : delta.boundary = none) (w : Written) :
    SameFacts (s.withLayer delta) ((s.absorb w).mergeBack scopes delta none) := by
  have h := mergeBack_sameFacts (s.absorb w) scopes hb
  refine ⟨fun v => ?_, fun v => ?_, fun r => ?_⟩
  · rw [h.value, lookup_withLayer hb, lookup_withLayer hb, absorb_lookup]
  · rw [h.reach, reachOf_withLayer hb, reachOf_withLayer hb, (absorb_sameReach s w).reachOf]
  · rw [h.version, object?_withLayer hb, object?_withLayer hb, absorb_object]

/-! ## Both arms come to their ends -/

theorem mergeLive_joinOf (s : State) (scopes : ScopeTree) {a b : Layer} (ha : a.boundary = none)
    (hb : b.boundary = none) :
    Gives (s.mergeLive scopes a b) (JoinOf scopes (s.withLayer a) (s.withLayer b)) := by
  intro esc
  have hlookup v := mergeLive_lookup s scopes a b v esc
  have hobject r := mergeLive_object s scopes ha hb r esc
  refine ⟨fun v => ?_, fun v r => mergeLive_reachOf s scopes ha hb v r esc,
    fun r hra hrb => ?_, fun r hr => ?_, fun r hr => ?_⟩
  · rw [current_eq _ scopes v, hlookup, current_withLayer ha, current_withLayer hb]
    split
    · exact BEq.rfl
    · rename_i hv
      obtain ⟨hva, hvb⟩ := not_or.mp hv
      rw [Std.TreeMap.getD_eq_getD_getElem?, Std.TreeMap.getD_eq_getD_getElem?,
        Option.not_isSome_iff_eq_none.mp hva, Option.not_isSome_iff_eq_none.mp hvb]
      exact PartialEquivBEq.symm (Value.or_self_beq _)
  · obtain ⟨o, ho⟩ := Option.isSome_iff_exists.mp hra
    obtain ⟨p, hp⟩ := Option.isSome_iff_exists.mp hrb
    rw [deref, hobject, deref, deref, ho, hp]
    rfl
  · rw [hobject, hr]
    cases (s.withLayer a).object? r <;> rfl
  · rw [hobject, hr]
    cases (s.withLayer b).object? r <;> rfl

/-- Swapping the arms makes no difference. -/
theorem mergeLive_alike (s : State) (scopes : ScopeTree) {a b : Layer} (ha : a.boundary = none)
    (hb : b.boundary = none) :
    Gives (s.mergeLive scopes a b) fun t => Gives (s.mergeLive scopes b a) (Alike t) := by
  intro esc esc'
  have hframe := mergeLive_frame s scopes a b esc
  have hframe' := mergeLive_frame s scopes b a esc'
  refine ⟨hframe'.below.trans hframe.below.symm, hframe'.boundary.trans hframe.boundary.symm, ?_,
    fun v => ?_, fun v r => ?_, fun r => ?_, ?_⟩
  · exact (mergeLive_merged s scopes b a esc').2.trans (mergeLive_merged s scopes a b esc).2.symm
  · rw [mergeLive_lookup s scopes a b v esc, mergeLive_lookup s scopes b a v esc']
    by_cases hv : a.vars[v]?.isSome ∨ b.vars[v]?.isSome
    · rw [if_pos hv, if_pos hv.symm]
      exact Value.or_comm_beq _ _
    · rw [if_neg hv, if_neg fun h => hv h.symm]
      exact BEq.rfl
  · exact (mergeLive_reachOf s scopes ha hb v r esc).trans
      (or_comm.trans (mergeLive_reachOf s scopes hb ha v r esc').symm)
  · rw [mergeLive_object s scopes ha hb r esc, mergeLive_object s scopes hb ha r esc']
    exact joinVersion_comm _ _
  · rw [hframe.written, hframe'.written]
    exact Written.absorb_right_comm _ _ _

/-! ## All four cases -/

section Arms

variable (s : State) (scopes : ScopeTree) {a b : Layer}

theorem mergeOr_of_live (ha : a.boundary = none) (hb : b.boundary = none) (hda : a.dead = false)
    (hdb : b.dead = false) :
    Gives (s.mergeOr scopes a b) (JoinOf scopes (s.withLayer a) (s.withLayer b)) := by
  unfold mergeOr
  rw [hda, hdb]
  exact mergeLive_joinOf s scopes ha hb

theorem mergeOr_of_dead_left (hb : b.boundary = none) (hda : a.dead = true) (hdb : b.dead = false) :
    Gives (s.mergeOr scopes a b) (SameFacts (s.withLayer b)) := by
  unfold mergeOr
  rw [hda, hdb]
  exact Gives.pure (mergeBack_beside_sameFacts s scopes hb a.written)

theorem mergeOr_of_dead_right (ha : a.boundary = none) (hda : a.dead = false) (hdb : b.dead = true) :
    Gives (s.mergeOr scopes a b) (SameFacts (s.withLayer a)) := by
  unfold mergeOr
  rw [hda, hdb]
  exact Gives.pure (mergeBack_beside_sameFacts s scopes ha b.written)

theorem mergeOr_of_dead (hda : a.dead = true) (hdb : b.dead = true) :
    Gives (s.mergeOr scopes a b) (SameFacts s) := by
  unfold mergeOr
  rw [hda, hdb]
  exact Gives.pure (deadEnds_sameFacts s a.written b.written)

end Arms

/-- All that was written in either arm counts as written. -/
theorem mergeOr_heldBy (s : State) (scopes : ScopeTree) (a b : Layer) :
    Gives (s.mergeOr scopes a b) fun t => s.top.written.HeldBy t.top.written ∧
      a.written.HeldBy t.top.written ∧ b.written.HeldBy t.top.written := by
  have hheld (w w' : Written) : let all := ((s.top.written.absorb w).1.absorb w').1;
      s.top.written.HeldBy all ∧ w.HeldBy all ∧ w'.HeldBy all :=
    ⟨(Written.heldBy_absorb_left _ w).trans (Written.heldBy_absorb_left _ w'),
      (Written.heldBy_absorb_right _ w).trans (Written.heldBy_absorb_left _ w'),
      Written.heldBy_absorb_right _ w'⟩
  have hback (c d : Layer) : let t := (s.absorb c.written).mergeBack scopes d none;
      s.top.written.HeldBy t.top.written ∧ c.written.HeldBy t.top.written ∧
        d.written.HeldBy t.top.written := by
    intro t
    rw [(mergeBack_frame (s.absorb c.written) scopes d none).written]
    exact hheld c.written d.written
  unfold mergeOr
  cases a.dead <;> cases b.dead
  · intro esc
    rw [(mergeLive_frame s scopes a b esc).written]
    exact hheld a.written b.written
  · obtain ⟨hs, hb, ha⟩ := hback b a
    exact Gives.pure ⟨hs, ha, hb⟩
  · exact Gives.pure (hback a b)
  · exact Gives.pure (hheld a.written b.written)

theorem mergeOr_alike (s : State) (scopes : ScopeTree) {a b : Layer} (ha : a.boundary = none)
    (hb : b.boundary = none) :
    Gives (s.mergeOr scopes a b) fun t => Gives (s.mergeOr scopes b a) (Alike t) := by
  unfold mergeOr
  cases a.dead <;> cases b.dead
  · exact mergeLive_alike s scopes ha hb
  · exact Gives.pure (Gives.pure (Alike.refl _))
  · exact Gives.pure (Gives.pure (Alike.refl _))
  · have hab := deadEnds_sameFacts s a.written b.written
    have hba := deadEnds_sameFacts s b.written a.written
    refine Gives.pure (Gives.pure ⟨rfl, rfl, rfl, fun v => ?_, fun v r => ?_, fun r => ?_,
      Written.absorb_right_comm _ _ _⟩)
    · rw [hab.value, hba.value, BEq.rfl]
    · rw [hab.reach, hba.reach]
    · rw [hab.version, hba.version, BEq.rfl]

/-- Code that may not have run is a branch whose other arm does nothing. -/
theorem mergeMaybe_alike (s : State) (scopes : ScopeTree) {a : Layer} (ha : a.boundary = none)
    (hlive : a.dead = false) :
    Gives (s.mergeMaybe scopes a) fun m => Gives (s.mergeOr scopes a s.child.top) (Alike m) := by
  have hchild : s.child.top.dead = false := rfl
  have hb : s.child.top.boundary = none := rfl
  intro esc
  unfold mergeOr
  rw [hlive, hchild]
  intro esc'
  have hframe := mergeMaybe_frame s scopes a esc
  have hframe' := mergeLive_frame s scopes a s.child.top esc'
  refine ⟨hframe'.below.trans hframe.below.symm, hframe'.boundary.trans hframe.boundary.symm, ?_,
    fun v => ?_, fun v r => ?_, fun r => ?_, ?_⟩
  · exact (mergeLive_merged s scopes a s.child.top esc').2.trans
      (mergeMaybe_merged s scopes a esc).2.symm
  · rw [mergeMaybe_lookup s scopes a v esc, mergeLive_lookup s scopes a s.child.top v esc', hlive,
      Std.TreeMap.getD_eq_getD_getElem?]
    cases a.vars[v]? with
    | none => exact BEq.rfl
    | some x => exact Value.or_comm_beq _ _
  · refine (mergeMaybe_reachOf s scopes ha v r esc).trans
      (Iff.trans ?_ (mergeLive_reachOf s scopes ha hb v r esc').symm)
    rw [reachOf_withLayer hb, or_comm, and_iff_right hlive]
    rfl
  · rw [mergeMaybe_object s scopes ha r esc, mergeLive_object s scopes ha hb r esc', hlive,
      object?_withLayer hb]
    exact joinVersion_comm _ _
  · rw [hframe.written, hframe'.written]
    exact Written.Same.refl _

theorem mergeMaybe_of_dead (s : State) (scopes : ScopeTree) {a : Layer} (hdead : a.dead = true) :
    Gives (s.mergeMaybe scopes a) (SameFacts s) := by
  unfold mergeMaybe
  rw [if_pos hdead]
  exact Gives.pure ⟨fun _ => rfl, fun _ => rfl, fun _ => rfl⟩

theorem mergeMaybe_heldBy (s : State) (scopes : ScopeTree) (a : Layer) :
    Gives (s.mergeMaybe scopes a) fun t =>
      s.top.written.HeldBy t.top.written ∧ a.written.HeldBy t.top.written := by
  intro esc
  rw [(mergeMaybe_frame s scopes a esc).written]
  exact ⟨Written.heldBy_absorb_left _ _, Written.heldBy_absorb_right _ _⟩

/-- Whatever happens in the arms of a branch, the merge is the exact join of what they know at their
ends, and it plays no role which of them comes first. Code that may not run is merged as a branch
whose other arm does nothing. -/
theorem branches_joined (scopes : ScopeTree) (s : State) (first second : List Step) :
    Gives (Step.runAll scopes first s.child) fun a =>
    Gives (Step.runAll scopes second s.child) fun b =>
      Gives (s.mergeOr scopes a.top b.top) (fun t =>
        t.isDead = (s.isDead || a.isDead && b.isDead) ∧
        (a.isDead = false → b.isDead = false → JoinOf scopes a b t) ∧
        (a.isDead = true → b.isDead = false → SameFacts b t) ∧
        (a.isDead = false → b.isDead = true → SameFacts a t) ∧
        (a.isDead = true → b.isDead = true → SameFacts s t) ∧
        (s.top.written.HeldBy t.top.written ∧ a.top.written.HeldBy t.top.written ∧
          b.top.written.HeldBy t.top.written) ∧
        Gives (s.mergeOr scopes b.top a.top) (Alike t)) ∧
      Gives (s.mergeMaybe scopes a.top) (fun t =>
        (a.isDead = false → Gives (s.mergeOr scopes a.top s.child.top) (Alike t)) ∧
        (a.isDead = true → SameFacts s t) ∧
        s.top.written.HeldBy t.top.written ∧ a.top.written.HeldBy t.top.written) := by
  intro esc₁ esc₂
  have ha := (Covered.keeps_run scopes first (Covered.child scopes s) esc₁).covered
  have hb := (Covered.keeps_run scopes second (Covered.child scopes s) esc₂).covered
  set a := (Step.runAll scopes first s.child esc₁).1
  set b := (Step.runAll scopes second s.child esc₂).1
  constructor
  · intro esc
    have hlive := mergeOr_of_live s scopes ha.boundary hb.boundary
    have hleft := mergeOr_of_dead_left s scopes (a := a.top) hb.boundary
    have hright := mergeOr_of_dead_right s scopes (b := b.top) ha.boundary
    rw [← ha.eq_withLayer, ← hb.eq_withLayer] at hlive
    rw [← hb.eq_withLayer] at hleft
    rw [← ha.eq_withLayer] at hright
    exact ⟨(mergeOr_merged s scopes a.top b.top esc).2, fun hda hdb => hlive hda hdb esc,
      fun hda hdb => hleft hda hdb esc, fun hda hdb => hright hda hdb esc,
      fun hda hdb => mergeOr_of_dead s scopes hda hdb esc, mergeOr_heldBy s scopes a.top b.top esc,
      mergeOr_alike s scopes ha.boundary hb.boundary esc⟩
  · intro esc
    exact ⟨fun hda => mergeMaybe_alike s scopes ha.boundary hda esc,
      fun hda => mergeMaybe_of_dead s scopes hda esc, mergeMaybe_heldBy s scopes a.top esc⟩

theorem branches_joined_of_live_and_dead :
    let scopes : ScopeTree := { scopes := #[] }
    let s : State := {}
    let live := (Step.runAll scopes [.set 0 .undefined] s.child {}).1
    let dead := (Step.runAll scopes [.set 0 .undefined, .stop] s.child {}).1
    JoinOf scopes live live (s.mergeOr scopes live.top live.top {}).1 ∧
      SameFacts live (s.mergeOr scopes dead.top live.top {}).1 ∧
      SameFacts live (s.mergeOr scopes live.top dead.top {}).1 ∧
      SameFacts s (s.mergeOr scopes dead.top dead.top {}).1 ∧
      Alike (s.mergeMaybe scopes live.top {}).1 (s.mergeOr scopes live.top s.child.top {}).1 ∧
      SameFacts s (s.mergeMaybe scopes dead.top {}).1 := by
  intro scopes s live dead
  have hlive : live.isDead = false := rfl
  have hdead : dead.isDead = true := rfl
  have hll := branches_joined scopes s [.set 0 .undefined] [.set 0 .undefined] {} {}
  have hdl := branches_joined scopes s [.set 0 .undefined, .stop] [.set 0 .undefined] {} {}
  have hld := branches_joined scopes s [.set 0 .undefined] [.set 0 .undefined, .stop] {} {}
  have hdd := branches_joined scopes s [.set 0 .undefined, .stop] [.set 0 .undefined, .stop] {} {}
  exact ⟨(hll.1 {}).2.1 hlive hlive, (hdl.1 {}).2.2.1 hdead hlive, (hld.1 {}).2.2.2.1 hlive hdead,
    (hdd.1 {}).2.2.2.2.1 hdead hdead, (hll.2 {}).1 hlive {}, (hdd.2 {}).2.1 hdead⟩

end State

end EsOptimizer
