import EsOptimizer.Proofs.Value.Holds

/-!
# The lattice of values

Values are ordered by what they hold. `or` is the least upper bound in that order
(`or_below_iff`), in spite of the limit on the size of a set: what lies below a set has no more
members than it. Two values are equal exactly if each lies below the other (`beq_iff_below`), so the
order can be read off a join as well: `a` lies below `b` if and only if joining it to `b` changes
nothing (`below_iff_or_beq`).
-/

namespace EsOptimizer

/-- A list without doubles is no longer than a list that has all of its members. -/
theorem Single.Distinct.length_le {as bs : List Single} (hd : Distinct as)
    (hsub : ∀ a ∈ as, bs.contains a = true) : as.length ≤ bs.length := by
  by_contra hlt
  match as, hd with
  | [], _ => exact hlt (Nat.zero_le _)
  | a :: rest, hd =>
    obtain ⟨hne, hrest⟩ := List.pairwise_cons.mp hd
    have hshort : bs.length ≤ rest.length := by
      rw [List.length_cons] at hlt
      omega
    -- if the rest already fills `bs`, then it has to contain `a` too
    have hback := contains_of_length_le hrest (fun b hb => hsub b (List.mem_cons_of_mem _ hb)) hshort
    obtain ⟨b, hb, hab⟩ := contains_iff.mp (hsub a List.mem_cons_self)
    obtain ⟨c, hc, hbc⟩ := contains_iff.mp (hback b hb)
    have hca : (c == a) = true := PartialEquivBEq.symm (PartialEquivBEq.trans hab hbc)
    rw [hne c hc] at hca
    cases hca

namespace Value

/-! ## Members -/

theorem length_singles {v : Value} {ss : List Single} (h : v.singles? = some ss) :
    1 ≤ ss.length ∧ ss.length ≤ maxSetSize := by
  cases v with
  | single s =>
    cases h
    exact ⟨Nat.le_refl 1, show 1 ≤ 16 by decide⟩
  | @set members isSet =>
    cases h
    exact ⟨Nat.le_of_succ_le isSet.several, isSet.few⟩
  | unknown => cases h

theorem eq_unknown_of_singles {v : Value} (h : v.singles? = none) : v = unknown := by
  cases v with
  | single s => cases h
  | set members => cases h
  | unknown => rfl

theorem holds_iff_of_singles {v : Value} {ss : List Single} (h : v.singles? = some ss)
    (s : Single) : v.Holds s ↔ ss.contains s = true := by
  constructor
  · intro hs
    exact hs ss h
  · intro hs ss' hss'
    rw [h] at hss'
    cases hss'
    exact hs

/-- Among known values, order is inclusion of the members. -/
theorem below_iff_of_singles {a b : Value} {as bs : List Single} (ha : a.singles? = some as)
    (hb : b.singles? = some bs) : a.Below b ↔ ∀ s ∈ as, bs.contains s = true := by
  constructor
  · intro h s hs
    exact (holds_iff_of_singles hb s).mp
      (h s ((holds_iff_of_singles ha s).mpr (Single.contains_of_mem hs)))
  · intro h s hs
    obtain ⟨t, ht, hst⟩ := hs.exists_mem ha
    exact (holds_iff_of_singles hb s).mpr
      (Single.contains_congr (PartialEquivBEq.symm hst) (h t ht))

/-- More references than a set can hold. -/
def manyReferences : List Single := (List.range (maxSetSize + 1)).map fun n => .reference (.object n)

/-- What is above everything is `unknown`. -/
theorem eq_unknown_of_below {b : Value} (h : unknown.Below b) : b = unknown := by
  cases hb : b.singles? with
  | none => exact eq_unknown_of_singles hb
  | some bs =>
    have hd : Single.Distinct manyReferences := by
      unfold Single.Distinct
      decide
    have hlen := hd.length_le fun s _ => h s (holds_unknown s) bs hb
    exact absurd (Nat.le_trans hlen (length_singles hb).2) (by decide)

/-! ## Equality -/

theorem beq_iff_of_singles {a b : Value} {as bs : List Single} (ha : a.singles? = some as)
    (hb : b.singles? = some bs) :
    (a == b) = true ↔ as.length = bs.length ∧ ∀ s ∈ as, bs.contains s = true := by
  change same a b = true ↔ _
  cases a with
  | unknown => cases ha
  | single s =>
    cases ha
    cases b with
    | unknown => cases hb
    | single t =>
      cases hb
      simp [same]
    | @set members isSet =>
      cases hb
      have hlen := isSet.several
      simp only [same, Bool.false_eq_true, List.length_singleton, false_iff, not_and]
      omega
  | @set members isSet =>
    cases ha
    cases b with
    | unknown => cases hb
    | single t =>
      cases hb
      have hlen := isSet.several
      simp only [same, Bool.false_eq_true, List.length_singleton, false_iff, not_and]
      omega
    | set others =>
      cases hb
      simp [same]

/-- Values are equal if each holds what the other holds. -/
theorem beq_iff_below {a b : Value} : (a == b) = true ↔ a.Below b ∧ b.Below a := by
  constructor
  · intro h
    exact ⟨fun s => (holds_iff_of_beq h s).mp, fun s => (holds_iff_of_beq h s).mpr⟩
  · rintro ⟨hab, hba⟩
    cases ha : a.singles? with
    | none =>
      obtain rfl := eq_unknown_of_singles ha
      rw [eq_unknown_of_below hab]
      rfl
    | some as =>
      cases hb : b.singles? with
      | none =>
        obtain rfl := eq_unknown_of_singles hb
        rw [eq_unknown_of_below hba]
        rfl
      | some bs =>
        have hsub := (below_iff_of_singles ha hb).mp hab
        have hsup := (below_iff_of_singles hb ha).mp hba
        have hlen := Nat.le_antisymm ((distinct_of_singles ha).length_le hsub)
          ((distinct_of_singles hb).length_le hsup)
        exact (beq_iff_of_singles ha hb).mpr ⟨hlen, hsub⟩

instance : EquivBEq Value where
  rfl := beq_iff_below.mpr ⟨Below.refl _, Below.refl _⟩
  symm h := beq_iff_below.mpr (beq_iff_below.mp h).symm
  trans hab hbc := by
    obtain ⟨hab, hba⟩ := beq_iff_below.mp hab
    obtain ⟨hbc, hcb⟩ := beq_iff_below.mp hbc
    exact beq_iff_below.mpr ⟨hab.trans hbc, hcb.trans hba⟩

/-! ## Joins -/

/-- What is built from members of a known value lies below it: the limit is not reached. -/
theorem ofSingles_below {ss cs : List Single} {c : Value} (hc : c.singles? = some cs)
    (hne : ss ≠ []) (hsub : ∀ s ∈ ss, cs.contains s = true) : (ofSingles ss).Below c := by
  have hmem : ∀ s ∈ distinct ss, cs.contains s = true := by
    intro s hs
    obtain ⟨t, ht, hst⟩ := Single.contains_iff.mp
      (contains_distinct.mp (Single.contains_of_mem hs))
    exact Single.contains_congr (PartialEquivBEq.symm hst) (hsub t ht)
  have hlen : (distinct ss).length ≤ maxSetSize :=
    Nat.le_trans ((distinct_distinct ss).length_le hmem) (length_singles hc).2
  have hsome : ∃ ms, (ofSingles ss).singles? = some ms := by
    unfold ofSingles
    obtain ⟨s, hs⟩ := List.exists_mem_of_ne_nil ss hne
    obtain ⟨t, ht, -⟩ := Single.contains_iff.mp
      (contains_distinct.mpr (Single.contains_of_mem hs))
    generalize distinct_distinct ss = hd
    generalize distinct ss = ds at hd ht hlen
    match ds, hd with
    | [u], _ => exact ⟨_, rfl⟩
    | u :: w :: rest, _ =>
      rw [ofDistinct, dif_pos hlen]
      exact ⟨_, rfl⟩
  obtain ⟨ms, hms⟩ := hsome
  intro s hs
  obtain ⟨t, ht, hst⟩ := Single.contains_iff.mp
    ((contains_of_singles_ofSingles hms).mp (hs ms hms))
  exact (holds_iff_of_singles hc s).mpr
    (Single.contains_congr (PartialEquivBEq.symm hst) (hsub t ht))

/-- A join lies below all that lies above both its parts. -/
theorem or_below {a b c : Value} (ha : a.Below c) (hb : b.Below c) : (a.or b).Below c := by
  cases has : a.singles? with
  | none =>
    obtain rfl := eq_unknown_of_singles has
    rw [eq_unknown_of_below ha]
    exact below_unknown _
  | some as =>
    cases hbs : b.singles? with
    | none =>
      obtain rfl := eq_unknown_of_singles hbs
      rw [eq_unknown_of_below hb]
      exact below_unknown _
    | some bs =>
      cases hcs : c.singles? with
      | none =>
        rw [eq_unknown_of_singles hcs]
        exact below_unknown _
      | some cs =>
        simp only [Value.or, has, hbs]
        split
        · exact ha
        · have hne : as ++ bs ≠ [] := by
            have hpos := (length_singles has).1
            intro h
            rw [(List.append_eq_nil_iff.mp h).1] at hpos
            cases hpos
          refine ofSingles_below hcs hne fun s hs => ?_
          rcases List.mem_append.mp hs with hs | hs
          · exact (below_iff_of_singles has hcs).mp ha s hs
          · exact (below_iff_of_singles hbs hcs).mp hb s hs

theorem or_below_iff {a b c : Value} : (a.or b).Below c ↔ a.Below c ∧ b.Below c :=
  ⟨fun h => ⟨(below_or_left a b).trans h, (below_or_right a b).trans h⟩,
    fun ⟨ha, hb⟩ => or_below ha hb⟩

theorem or_below_or {a b c d : Value} (hac : a.Below c) (hbd : b.Below d) :
    (a.or b).Below (c.or d) :=
  or_below (hac.trans (below_or_left c d)) (hbd.trans (below_or_right c d))

/-- A value lies below another if and only if joining it changes nothing. -/
theorem below_iff_or_beq {a b : Value} : a.Below b ↔ (a.or b == b) = true := by
  rw [beq_iff_below]
  constructor
  · intro h
    exact ⟨or_below h (Below.refl b), below_or_right a b⟩
  · intro h
    exact (below_or_left a b).trans h.1

/-- Nor does joining what lies below. -/
theorem or_beq_iff_below {a b : Value} : (b.or a == b) = true ↔ a.Below b := by
  rw [beq_iff_below]
  constructor
  · intro h
    exact (below_or_right b a).trans h.1
  · intro h
    exact ⟨or_below (Below.refl b) h, below_or_left b a⟩

end Value

end EsOptimizer
