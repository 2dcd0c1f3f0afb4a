import EsOptimizer.Proofs.Value.SameValue

/-!
# What a value holds

`Value.Holds v s` says that `s` is one of the values that `v` allows; `unknown` allows everything.
The module shows that the operations of the lattice lose nothing: a join holds what its parts hold
(`Holds.or_left`, `Holds.or_right`), and `map`, `product` and `filter` hold the results for every
member. A function is applied to whichever member stands for a value, so it has to give the same
for the same.
-/

namespace EsOptimizer

namespace Single

theorem contains_iff {s : Single} {ss : List Single} :
    ss.contains s = true ↔ ∃ t ∈ ss, (s == t) = true := by
  rw [List.contains_eq_any_beq, List.any_eq_true]

theorem contains_of_mem {s : Single} {ss : List Single} (h : s ∈ ss) : ss.contains s = true :=
  contains_iff.mpr ⟨s, h, BEq.rfl⟩

theorem contains_congr {s t : Single} {ss : List Single} (hst : (s == t) = true)
    (h : ss.contains s = true) : ss.contains t = true := by
  obtain ⟨u, hu, hsu⟩ := contains_iff.mp h
  exact contains_iff.mpr ⟨u, hu, PartialEquivBEq.trans (PartialEquivBEq.symm hst) hsu⟩

/-- A list without doubles that is part of one no longer than itself is all of it. -/
theorem contains_of_length_le {as bs : List Single} (hd : Distinct as)
    (hsub : ∀ a ∈ as, bs.contains a = true) (hlen : bs.length ≤ as.length) :
    ∀ b ∈ bs, as.contains b = true := by
  induction as generalizing bs with
  | nil =>
    intro b hb
    rw [List.eq_nil_of_length_eq_zero (Nat.le_zero.mp hlen)] at hb
    cases hb
  | cons a as ih =>
    obtain ⟨hne, hd⟩ := List.pairwise_cons.mp hd
    obtain ⟨x, hx, hax⟩ := contains_iff.mp (hsub a List.mem_cons_self)
    obtain ⟨l, r, rfl⟩ := List.append_of_mem hx
    -- without `x`, the one member that stands for `a`, both lists are one shorter
    have hrest : ∀ c ∈ as, (l ++ r).contains c = true := by
      intro c hc
      obtain ⟨y, hy, hcy⟩ := contains_iff.mp (hsub c (List.mem_cons_of_mem _ hc))
      rcases List.mem_append.mp hy with hy | hy
      · exact contains_iff.mpr ⟨y, List.mem_append_left _ hy, hcy⟩
      · rcases List.mem_cons.mp hy with rfl | hy
        · have hca : (c == a) = true := PartialEquivBEq.trans hcy (PartialEquivBEq.symm hax)
          rw [hne c hc] at hca
          cases hca
        · exact contains_iff.mpr ⟨y, List.mem_append_right _ hy, hcy⟩
    have hlen' : (l ++ r).length ≤ as.length := by
      simp only [List.length_append, List.length_cons] at hlen ⊢
      omega
    intro b hb
    have hb' : b = x ∨ b ∈ l ++ r := by
      simp only [List.mem_append, List.mem_cons] at hb ⊢
      tauto
    rcases hb' with rfl | hb'
    · exact contains_iff.mpr ⟨a, List.mem_cons_self, PartialEquivBEq.symm hax⟩
    · obtain ⟨y, hy, hby⟩ := contains_iff.mp (ih hd hrest hlen' b hb')
      exact contains_iff.mpr ⟨y, List.mem_cons_of_mem _ hy, hby⟩

end Single

namespace Value

/-- Whether a value allows `s`. -/
def Holds (v : Value) (s : Single) : Prop :=
  ∀ ss, v.singles? = some ss → ss.contains s = true

/-- Everything that `a` holds, `b` holds. -/
def Below (a b : Value) : Prop := ∀ s, a.Holds s → b.Holds s

theorem Below.refl (a : Value) : Below a a := fun _ h => h

theorem Below.trans {a b c : Value} (hab : Below a b) (hbc : Below b c) : Below a c :=
  fun s h => hbc s (hab s h)

theorem holds_unknown (s : Single) : unknown.Holds s := by
  intro ss h
  cases h

theorem below_unknown (a : Value) : Below a unknown := fun s _ => holds_unknown s

theorem holds_single_iff {t s : Single} : (single t).Holds s ↔ (s == t) = true := by
  simp [Holds, singles?, Single.contains_iff]

theorem holds_set_iff {members : List Single} {h : Single.IsSet members} {s : Single} :
    (@set members h).Holds s ↔ members.contains s = true := by
  simp [Holds, singles?]

theorem holds_ofPrimitive (p : Primitive) : (ofPrimitive p).Holds (.primitive p) :=
  holds_single_iff.mpr BEq.rfl

theorem Holds.congr {v : Value} {s t : Single} (h : v.Holds s) (hst : (s == t) = true) :
    v.Holds t :=
  fun ss hss => Single.contains_congr hst (h ss hss)

/-- A value that is not `unknown` holds a value through one of its members. -/
theorem Holds.exists_mem {v : Value} {s : Single} {ss : List Single} (h : v.Holds s)
    (hss : v.singles? = some ss) : ∃ t ∈ ss, (s == t) = true :=
  Single.contains_iff.mp (h ss hss)

/-! ## Equal values -/

theorem distinct_of_singles {v : Value} {ss : List Single} (h : v.singles? = some ss) :
    Single.Distinct ss := by
  cases v with
  | single s =>
    cases h
    exact List.pairwise_singleton _ _
  | @set members isSet =>
    cases h
    exact isSet.distinct
  | unknown => cases h

/-- Values that are equal up to the order of their members hold the same. -/
theorem holds_iff_of_beq {a b : Value} (h : (a == b) = true) (s : Single) :
    a.Holds s ↔ b.Holds s := by
  change same a b = true at h
  cases a <;> cases b <;> simp only [same, Bool.and_eq_true, beq_iff_eq, reduceCtorEq] at h
  · rw [holds_single_iff, holds_single_iff]
    exact ⟨fun hs => PartialEquivBEq.trans hs h,
      fun hs => PartialEquivBEq.trans hs (PartialEquivBEq.symm h)⟩
  · rename_i as ha bs hb
    obtain ⟨hlen, hall⟩ := h
    have hsub : ∀ a ∈ as, bs.contains a = true := fun a hmem => List.all_eq_true.mp hall a hmem
    have hsup := Single.contains_of_length_le ha.distinct hsub (Nat.le_of_eq hlen.symm)
    rw [holds_set_iff, holds_set_iff]
    constructor
    · intro hs
      obtain ⟨t, ht, hst⟩ := Single.contains_iff.mp hs
      exact Single.contains_congr (PartialEquivBEq.symm hst) (hsub t ht)
    · intro hs
      obtain ⟨t, ht, hst⟩ := Single.contains_iff.mp hs
      exact Single.contains_congr (PartialEquivBEq.symm hst) (hsup t ht)
  · exact Iff.rfl

/-! ## Building -/

theorem contains_addMember {members : List Single} {s t : Single} :
    (addMember members t).contains s = true ↔ members.contains s = true ∨ (s == t) = true := by
  unfold addMember
  split
  · rename_i ht
    refine ⟨Or.inl, fun h => h.elim id fun hst => ?_⟩
    exact Single.contains_congr (PartialEquivBEq.symm hst) ht
  · simp only [Single.contains_iff, List.mem_append, List.mem_singleton]
    constructor
    · rintro ⟨u, hu | rfl, hsu⟩
      · exact Or.inl ⟨u, hu, hsu⟩
      · exact Or.inr hsu
    · rintro (⟨u, hu, hsu⟩ | hst)
      · exact ⟨u, Or.inl hu, hsu⟩
      · exact ⟨t, Or.inr rfl, hst⟩

theorem contains_distinct {ss : List Single} {s : Single} :
    (distinct ss).contains s = true ↔ ss.contains s = true := by
  have h (acc : List Single) : (ss.foldl addMember acc).contains s = true ↔
      acc.contains s = true ∨ ss.contains s = true := by
    induction ss generalizing acc with
    | nil => simp
    | cons t rest ih =>
      rw [List.foldl_cons, ih, contains_addMember, List.contains_cons, Bool.or_eq_true, or_assoc]
  simpa [distinct] using h []

/-- A value that is built from a list without doubles lists it, unless it is `unknown`. -/
theorem eq_of_singles_ofDistinct {ss members : List Single} {hd : Single.Distinct ss}
    (h : (ofDistinct ss hd).singles? = some members) : members = ss := by
  match ss, hd with
  | [], _ => cases h
  | [s], _ =>
    cases h
    rfl
  | s :: t :: rest, _ =>
    rw [ofDistinct] at h
    split at h
    · cases h
      rfl
    · cases h

/-- The members of a value that was built from a list are those of the list. -/
theorem contains_of_singles_ofSingles {ss members : List Single} {s : Single}
    (h : (ofSingles ss).singles? = some members) :
    members.contains s = true ↔ ss.contains s = true := by
  rw [eq_of_singles_ofDistinct h, contains_distinct]

theorem holds_ofSingles {ss : List Single} {s : Single} (h : ss.contains s = true) :
    (ofSingles ss).Holds s :=
  fun _ hm => (contains_of_singles_ofSingles hm).mpr h

theorem holds_eitherBool (b : Bool) : eitherBool.Holds (.primitive (.bool b)) := by
  apply holds_ofSingles
  cases b <;> rfl

/-! ## Joins -/

theorem Holds.or_left {a b : Value} {s : Single} (h : a.Holds s) : (a.or b).Holds s := by
  unfold Value.or
  split
  · rename_i as bs ha hb
    split
    · exact h
    · obtain ⟨t, ht, hst⟩ := h.exists_mem ha
      exact holds_ofSingles (Single.contains_iff.mpr ⟨t, List.mem_append_left _ ht, hst⟩)
  · exact holds_unknown s

theorem Holds.or_right {a b : Value} {s : Single} (h : b.Holds s) : (a.or b).Holds s := by
  unfold Value.or
  split
  · rename_i as bs ha hb
    split
    · rename_i hab
      exact (holds_iff_of_beq hab s).mpr h
    · obtain ⟨t, ht, hst⟩ := h.exists_mem hb
      exact holds_ofSingles (Single.contains_iff.mpr ⟨t, List.mem_append_right _ ht, hst⟩)
  · exact holds_unknown s

theorem below_or_left (a b : Value) : Below a (a.or b) := fun _ h => h.or_left

theorem below_or_right (a b : Value) : Below b (a.or b) := fun _ h => h.or_right

theorem foldl_or_below (vs : List Value) (acc : Value) : Below acc (vs.foldl Value.or acc) := by
  induction vs generalizing acc with
  | nil => exact Below.refl _
  | cons v rest ih => exact (below_or_left acc v).trans (ih _)

theorem Holds.joinAll {vs : List Value} {v : Value} {s : Single} (hv : v ∈ vs) (h : v.Holds s) :
    (Value.joinAll vs).Holds s := by
  match vs, hv with
  | w :: rest, hv =>
    have hfold (acc : Value) (hmem : v ∈ rest) : (rest.foldl Value.or acc).Holds s := by
      clear hv
      induction rest generalizing acc with
      | nil => cases hmem
      | cons u rest ih =>
        rcases List.mem_cons.mp hmem with rfl | hmem
        · exact foldl_or_below rest (acc.or v) s h.or_right
        · exact ih _ hmem
    rcases List.mem_cons.mp hv with rfl | hmem
    · exact foldl_or_below _ _ s h
    · exact hfold w hmem

/-! ## Functions of members -/

theorem mem_of_mapM_eq_some {α β : Type} {f : α → Option β} {as : List α} {bs : List β} {a : α}
    (h : as.mapM f = some bs) (ha : a ∈ as) : ∃ b ∈ bs, f a = some b := by
  induction as generalizing bs with
  | nil => cases ha
  | cons x rest ih =>
    simp only [List.mapM_cons, Option.bind_eq_bind, Option.bind_eq_some_iff, Option.pure_def,
      Option.some.injEq] at h
    obtain ⟨y, hy, ys, hys, rfl⟩ := h
    rcases List.mem_cons.mp ha with rfl | ha
    · exact ⟨y, List.mem_cons_self, hy⟩
    · obtain ⟨b, hb, hab⟩ := ih hys ha
      exact ⟨b, List.mem_cons_of_mem _ hb, hab⟩

theorem Holds.map {a : Value} {f : Single → Value} {s u : Single} (h : a.Holds s)
    (hu : ∀ t, (s == t) = true → (f t).Holds u) : (a.map f).Holds u := by
  unfold Value.map
  split
  · exact holds_unknown u
  · rename_i as ha
    obtain ⟨t, ht, hst⟩ := h.exists_mem ha
    split
    · exact holds_unknown u
    · rename_i results hresults
      obtain ⟨ts, hmem, hts⟩ := mem_of_mapM_eq_some hresults ht
      obtain ⟨w, hw, huw⟩ := (hu t hst).exists_mem hts
      exact holds_ofSingles
        (Single.contains_iff.mpr ⟨w, List.mem_flatten.mpr ⟨ts, hmem, hw⟩, huw⟩)

theorem Holds.product {a b : Value} {f : Single → Single → Value} {s t u : Single}
    (ha : a.Holds s) (hb : b.Holds t)
    (hu : ∀ s' t', (s == s') = true → (t == t') = true → (f s' t').Holds u) :
    (a.product b f).Holds u := by
  unfold Value.product
  split
  · exact holds_unknown u
  · rename_i bs hbs
    obtain ⟨t', ht', htt'⟩ := hb.exists_mem hbs
    refine ha.map fun s' hss' => ?_
    exact (hu s' t' hss' htt').joinAll (List.mem_map_of_mem ht')

theorem Holds.filter {a : Value} {p : Single → Bool} {s : Single} (h : a.Holds s)
    (hp : ∀ t, (s == t) = true → p t = true) : (a.filter p).Holds s := by
  unfold Value.filter
  split
  · exact holds_unknown s
  · rename_i as ha
    obtain ⟨t, ht, hst⟩ := h.exists_mem ha
    exact holds_ofSingles
      (Single.contains_iff.mpr ⟨t, List.mem_filter.mpr ⟨ht, hp t hst⟩, hst⟩)

/-! ## Truth -/

theorem truthy_of_truthiness {a : Value} {b : Bool} {s : Single} (h : a.Holds s)
    (ht : a.truthiness = some b) : s.truthy = b := by
  unfold truthiness at ht
  split at ht
  · rename_i first rest ha
    split at ht
    · rename_i hall
      cases ht
      obtain ⟨t, hmem, hst⟩ := h.exists_mem ha
      rw [Single.truthy_congr hst]
      rcases List.mem_cons.mp hmem with rfl | hmem
      · rfl
      · exact beq_iff_eq.mp (List.all_eq_true.mp hall t hmem)
    · cases ht
  · cases ht

end Value

end EsOptimizer
