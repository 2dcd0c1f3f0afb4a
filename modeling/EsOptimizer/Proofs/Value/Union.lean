import EsOptimizer.Pass.Literal
import EsOptimizer.Proofs.Value.Lattice
import Mathlib.Data.List.Basic

/-!
# Unions of values

Every operation that builds a value collects members from somewhere, and all of them do it in the
same way: the result is `unknown` if a source cannot be listed or if there are more members than a
set may have, and otherwise its members are those of the sources and no others. `Value.IsUnion` says
this once, and the module shows it for `ofSingles`, `or`, `map`, `product` and `filter`.

The limit on the size of a set is what makes this more than bookkeeping. `product` joins row by row,
so a row may become `unknown` on the way; that does no harm, since the members of a row are members
of the whole. A union is determined by its sources up to the order of its members
(`IsUnion.beq_of_iff`), whence `map` commutes with joins as long as the join is not `unknown`.
-/

namespace EsOptimizer

/-- A function of single values that gives the same for the same. -/
def Single.Respected (f : Single → Value) : Prop :=
  ∀ s t : Single, (s == t) = true → (f s == f t) = true

namespace Value

/-! ## Members and their number -/

/-- A value is one single value, anything, or a set of several distinct ones, but not too many. -/
def WellFormed : Value → Prop
  | single _ | unknown => True
  | set members => Single.Distinct members ∧ 2 ≤ members.length ∧ members.length ≤ maxSetSize

theorem wellFormed (v : Value) : v.WellFormed := by
  cases v with
  | single s => trivial
  | unknown => trivial
  | @set members isSet => exact ⟨isSet.distinct, isSet.several, isSet.few⟩

/-- The members that a value lists. -/
def members (v : Value) : List Single := v.singles?.getD []

/-- A value lists a member. -/
def Has (v : Value) (s : Single) : Prop := v.members.contains s = true

/-- More distinct values have a property than a set may have members. -/
def TooMany (P : Single → Prop) : Prop :=
  ∃ ss, Single.Distinct ss ∧ maxSetSize < ss.length ∧ ∀ s ∈ ss, P s

theorem TooMany.mono {P Q : Single → Prop} (h : TooMany P) (hPQ : ∀ s, P s → Q s) : TooMany Q := by
  obtain ⟨ss, hd, hlen, hss⟩ := h
  exact ⟨ss, hd, hlen, fun s hs => hPQ s (hss s hs)⟩

theorem members_of_singles {v : Value} {ss : List Single} (h : v.singles? = some ss) :
    v.members = ss := by
  rw [members, h]
  rfl

theorem singles_of_ne_unknown {v : Value} (h : v ≠ unknown) : v.singles? = some v.members := by
  cases hv : v.singles? with
  | none => exact absurd (eq_unknown_of_singles hv) h
  | some ss => rw [members_of_singles hv]

theorem members_ne_nil {v : Value} (h : v ≠ unknown) : v.members ≠ [] := by
  have hlen := (length_singles (singles_of_ne_unknown h)).1
  intro hnil
  rw [hnil] at hlen
  cases hlen

theorem holds_iff_has {v : Value} (h : v ≠ unknown) (s : Single) : v.Holds s ↔ v.Has s :=
  holds_iff_of_singles (singles_of_ne_unknown h) s

theorem members_distinct (v : Value) : Single.Distinct v.members := by
  cases hv : v.singles? with
  | none =>
    rw [members, hv]
    exact List.Pairwise.nil
  | some ss =>
    rw [members_of_singles hv]
    exact distinct_of_singles hv

theorem has_of_mem {v : Value} {s : Single} (h : s ∈ v.members) : v.Has s :=
  Single.contains_of_mem h

/-- The members of one value are few. -/
theorem not_tooMany_has (v : Value) : ¬TooMany v.Has := by
  rintro ⟨ss, hd, hlen, hss⟩
  have hle := hd.length_le hss
  cases hv : v.singles? with
  | none =>
    rw [members, hv] at hle
    exact absurd (Nat.lt_of_lt_of_le hlen hle) (Nat.not_lt_zero _)
  | some vs =>
    rw [members_of_singles hv] at hle
    exact absurd (Nat.le_trans hle (length_singles hv).2) (Nat.not_le_of_lt hlen)

/-! ## Unions -/

/-- The value collects what has the property `P`, unless that is `blocked`. -/
structure IsUnion (v : Value) (blocked : Prop) (P : Single → Prop) : Prop where
  unknown_iff : v = unknown ↔ blocked ∨ TooMany P
  has_iff : v ≠ unknown → ∀ s, v.Has s ↔ P s

namespace IsUnion

variable {v w : Value} {B B' : Prop} {P P' : Single → Prop}

/-- Only what is collected counts, not how it is described. -/
theorem congr (h : IsUnion v B P) (hB : B ↔ B') (hP : ∀ s, P s ↔ P' s) : IsUnion v B' P' := by
  refine ⟨?_, fun hv s => (h.has_iff hv s).trans (hP s)⟩
  rw [h.unknown_iff, hB]
  exact or_congr_right ⟨fun hm => hm.mono fun s => (hP s).mp, fun hm => hm.mono fun s => (hP s).mpr⟩

/-- Two unions of the same are equal. -/
theorem beq_of_iff (h : IsUnion v B P) (h' : IsUnion w B P) : (v == w) = true := by
  have hiff : v = unknown ↔ w = unknown := h.unknown_iff.trans h'.unknown_iff.symm
  by_cases hv : v = unknown
  · rw [hv, hiff.mp hv]
    exact BEq.rfl
  · have hw : w ≠ unknown := fun hw => hv (hiff.mpr hw)
    have hsame (s : Single) : v.Holds s ↔ w.Holds s := by
      rw [holds_iff_has hv, holds_iff_has hw, h.has_iff hv, h'.has_iff hw]
    exact beq_iff_below.mpr ⟨fun s => (hsame s).mp, fun s => (hsame s).mpr⟩

/-- A union of more lies above. -/
theorem below (h : IsUnion v B P) (h' : IsUnion w B' P') (hB : B → B') (hP : ∀ s, P s → P' s) :
    v.Below w := by
  intro s hs
  by_cases hw : w = unknown
  · rw [hw]
    exact holds_unknown s
  · have hv : v ≠ unknown := by
      intro hv
      refine hw (h'.unknown_iff.mpr ?_)
      exact (h.unknown_iff.mp hv).imp hB fun hm => hm.mono hP
    rw [holds_iff_has hw, h'.has_iff hw]
    rw [holds_iff_has hv, h.has_iff hv] at hs
    exact hP s hs

/-- A union of unions collects what these collect, even if one of them is `unknown` for having too
many members. -/
theorem nested {ι : Type} {src : ι → Prop} {part : ι → Value} {C : ι → Prop}
    {Q : ι → Single → Prop}
    (h : IsUnion v (B ∨ ∃ i, src i ∧ part i = unknown) fun s => ∃ i, src i ∧ (part i).Has s)
    (hpart : ∀ i, src i → IsUnion (part i) (C i) (Q i)) :
    IsUnion v (B ∨ ∃ i, src i ∧ C i) fun s => ∃ i, src i ∧ Q i s := by
  have hlisted (hall : ¬∃ i, src i ∧ part i = unknown) (s : Single) :
      (∃ i, src i ∧ (part i).Has s) ↔ ∃ i, src i ∧ Q i s := by
    refine exists_congr fun i => and_congr_right fun hi => ?_
    exact (hpart i hi).has_iff (fun hu => hall ⟨i, hi, hu⟩) s
  have hblocked : ((∃ i, src i ∧ part i = unknown) → (∃ i, src i ∧ C i) ∨
      TooMany fun s => ∃ i, src i ∧ Q i s) := by
    rintro ⟨i, hi, hu⟩
    exact ((hpart i hi).unknown_iff.mp hu).imp (fun hC => ⟨i, hi, hC⟩)
      fun hm => hm.mono fun s hs => ⟨i, hi, hs⟩
  refine ⟨?_, fun hv s => ?_⟩
  · rw [h.unknown_iff]
    by_cases hall : ∃ i, src i ∧ part i = unknown
    · refine ⟨fun _ => ?_, fun _ => Or.inl (Or.inr hall)⟩
      rcases hblocked hall with hC | hm
      · exact Or.inl (Or.inr hC)
      · exact Or.inr hm
    · have hC : ¬∃ i, src i ∧ C i := fun ⟨i, hi, hC⟩ =>
        hall ⟨i, hi, (hpart i hi).unknown_iff.mpr (Or.inl hC)⟩
      simp only [hall, hC, hlisted hall]
  · have hall : ¬∃ i, src i ∧ part i = unknown := fun hall =>
      hv (h.unknown_iff.mpr (Or.inl (Or.inr hall)))
    exact (h.has_iff hv s).trans (hlisted hall s)

end IsUnion

/-- A value is the union of its own members. -/
theorem isUnion_self (v : Value) : IsUnion v (v = unknown) v.Has where
  unknown_iff := ⟨Or.inl, fun h => h.elim id fun hm => absurd hm (not_tooMany_has v)⟩
  has_iff := fun _ _ => Iff.rfl

theorem distinct_eq_nil_iff {ss : List Single} : distinct ss = [] ↔ ss = [] := by
  constructor
  · intro h
    by_contra hne
    obtain ⟨s, hs⟩ := List.exists_mem_of_ne_nil ss hne
    have hmem := contains_distinct.mpr (Single.contains_of_mem hs)
    rw [h] at hmem
    cases hmem
  · rintro rfl
    rfl

theorem ofDistinct_eq_unknown_iff {ss : List Single} (hd : Single.Distinct ss) :
    ofDistinct ss hd = unknown ↔ ss = [] ∨ maxSetSize < ss.length := by
  rcases ss with _ | ⟨s, _ | ⟨t, rest⟩⟩
  · exact ⟨fun _ => Or.inl rfl, fun _ => rfl⟩
  · simp [ofDistinct, maxSetSize]
  · rw [ofDistinct]
    split
    · rename_i hfew
      simpa using hfew
    · rename_i hmany
      exact ⟨fun _ => Or.inr (Nat.lt_of_not_le hmany), fun _ => rfl⟩

/-- Building a value from a list collects its members. -/
theorem isUnion_ofSingles (ss : List Single) :
    IsUnion (ofSingles ss) (ss = []) fun s => ss.contains s = true where
  unknown_iff := by
    rw [ofSingles, ofDistinct_eq_unknown_iff, distinct_eq_nil_iff]
    refine or_congr_right ⟨fun hlen => ?_, fun ⟨ms, hd, hlen, hms⟩ => ?_⟩
    · exact ⟨distinct ss, distinct_distinct ss, hlen,
        fun s hs => contains_distinct.mp (Single.contains_of_mem hs)⟩
    · exact Nat.lt_of_lt_of_le hlen (hd.length_le fun s hs => contains_distinct.mpr (hms s hs))
  has_iff := fun h s => contains_of_singles_ofSingles (singles_of_ne_unknown h)

theorem or_of_known {a b : Value} (ha : a ≠ unknown) (hb : b ≠ unknown) :
    a.or b = if a == b then a else ofSingles (a.members ++ b.members) := by
  unfold Value.or
  rw [singles_of_ne_unknown ha, singles_of_ne_unknown hb]

/-- A join collects the members of both. -/
theorem isUnion_or (a b : Value) :
    IsUnion (a.or b) (a = unknown ∨ b = unknown) fun s => a.Has s ∨ b.Has s := by
  by_cases ha : a = unknown
  · subst ha
    exact ⟨⟨fun _ => Or.inl (Or.inl rfl), fun _ => rfl⟩, fun h => absurd rfl h⟩
  by_cases hb : b = unknown
  · subst hb
    have hor : a.or unknown = unknown := by
      unfold Value.or
      split
      · rename_i hnone
        cases hnone
      · rfl
    rw [hor]
    exact ⟨⟨fun _ => Or.inl (Or.inr rfl), fun _ => rfl⟩, fun h => absurd rfl h⟩
  have hblocked : (a = unknown ∨ b = unknown) ↔ False := by simp [ha, hb]
  rw [hblocked, or_of_known ha hb]
  split
  · rename_i hab
    refine (isUnion_self a).congr (by simp [ha]) fun s => ?_
    have hsame := holds_iff_of_beq hab s
    rw [holds_iff_has ha, holds_iff_has hb] at hsame
    rw [← hsame, or_self]
  · refine (isUnion_ofSingles (a.members ++ b.members)).congr ?_ fun s => ?_
    · simp [members_ne_nil ha]
    · rw [List.contains_eq_any_beq, List.any_append, Bool.or_eq_true, ← List.contains_eq_any_beq,
        ← List.contains_eq_any_beq]
      rfl

theorem ne_unknown_of_or {a b : Value} (h : a.or b ≠ unknown) : a ≠ unknown ∧ b ≠ unknown :=
  not_or.mp fun hu => h ((isUnion_or a b).unknown_iff.mpr (Or.inl hu))

/-- A join of unions is a union. -/
theorem IsUnion.or {a b : Value} {B C : Prop} {P Q : Single → Prop} (ha : IsUnion a B P)
    (hb : IsUnion b C Q) : IsUnion (a.or b) (B ∨ C) fun s => P s ∨ Q s := by
  have hparts : IsUnion (a.or b) (False ∨ ∃ i : Bool, True ∧ (bif i then a else b) = unknown)
      fun s => ∃ i : Bool, True ∧ (bif i then a else b).Has s :=
    (isUnion_or a b).congr (by simp [or_comm]) fun s => by simp [or_comm]
  have h := hparts.nested (C := fun i => bif i then B else C) (Q := fun i => bif i then P else Q)
    fun i _ => by cases i with
      | true => exact ha
      | false => exact hb
  exact h.congr (by simp [or_comm]) fun s => by simp [or_comm]

/-- Joining several values collects the members of all. -/
theorem isUnion_joinAll {vs : List Value} (hne : vs ≠ []) :
    IsUnion (joinAll vs) (∃ v ∈ vs, v = unknown) fun s => ∃ v ∈ vs, v.Has s := by
  have hfold (rest : List Value) (acc : Value) {B : Prop} {P : Single → Prop}
      (hacc : IsUnion acc B P) :
      IsUnion (rest.foldl Value.or acc) (B ∨ ∃ v ∈ rest, v = unknown)
        fun s => P s ∨ ∃ v ∈ rest, v.Has s := by
    induction rest generalizing acc B P with
    | nil => exact hacc.congr (by simp) fun s => by simp
    | cons w rest ih =>
      refine (ih (acc.or w) (hacc.or (isUnion_self w))).congr ?_ fun s => ?_
      · rw [List.exists_mem_cons_iff, or_assoc]
      · rw [List.exists_mem_cons_iff, or_assoc]
  match vs, hne with
  | v :: rest, _ =>
    refine (hfold rest v (isUnion_self v)).congr ?_ fun s => ?_
    · rw [List.exists_mem_cons_iff]
    · rw [List.exists_mem_cons_iff]

/-! ## Functions of members -/

theorem mapM_eq_none_iff {α β : Type} {f : α → Option β} {as : List α} :
    as.mapM f = none ↔ ∃ a ∈ as, f a = none := by
  induction as with
  | nil => simp
  | cons a rest ih =>
    rw [List.exists_mem_cons_iff, ← ih, List.mapM_cons]
    cases f a <;> cases rest.mapM f <;> simp

theorem mapM_singles_eq {as : List Single} {f : Single → Value} {results : List (List Single)}
    (h : as.mapM (fun s => (f s).singles?) = some results) : results = as.map fun s => (f s).members := by
  induction as generalizing results with
  | nil =>
    cases h
    rfl
  | cons s rest ih =>
    simp only [List.mapM_cons, Option.bind_eq_bind, Option.bind_eq_some_iff, Option.pure_def,
      Option.some.injEq] at h
    obtain ⟨ms, hms, others, hothers, rfl⟩ := h
    rw [List.map_cons, members_of_singles hms, ih hothers]

/-- `map` collects the members of all results. -/
theorem isUnion_map (a : Value) (f : Single → Value) :
    IsUnion (a.map f) (a = unknown ∨ ∃ s ∈ a.members, f s = unknown)
      fun t => ∃ s ∈ a.members, (f s).Has t := by
  by_cases ha : a = unknown
  · subst ha
    exact ⟨⟨fun _ => Or.inl (Or.inl rfl), fun _ => rfl⟩, fun h => absurd rfl h⟩
  unfold Value.map
  rw [singles_of_ne_unknown ha]
  dsimp only
  split
  · rename_i hnone
    obtain ⟨s, hs, hs'⟩ := mapM_eq_none_iff.mp hnone
    have hblocked : ∃ s ∈ a.members, f s = unknown := ⟨s, hs, eq_unknown_of_singles hs'⟩
    exact ⟨⟨fun _ => Or.inl (Or.inr hblocked), fun _ => rfl⟩, fun h => absurd rfl h⟩
  · rename_i results hresults
    have hlisted : ∀ s ∈ a.members, f s ≠ unknown := by
      intro s hs hu
      obtain ⟨ms, -, hms⟩ := mem_of_mapM_eq_some hresults hs
      rw [hu] at hms
      cases hms
    rw [mapM_singles_eq hresults]
    refine (isUnion_ofSingles _).congr ?_ fun t => ?_
    · constructor
      · intro hnil
        obtain ⟨s, hs⟩ := List.exists_mem_of_ne_nil _ (members_ne_nil ha)
        exact absurd (List.flatten_eq_nil_iff.mp hnil _ (List.mem_map_of_mem hs))
          (members_ne_nil (hlisted s hs))
      · rintro (hu | ⟨s, hs, hu⟩)
        · exact absurd hu ha
        · exact absurd hu (hlisted s hs)
    · simp only [Single.contains_iff, List.mem_flatten, List.mem_map, Has]
      constructor
      · rintro ⟨u, ⟨_, ⟨s, hs, rfl⟩, hu⟩, htu⟩
        exact ⟨s, hs, u, hu, htu⟩
      · rintro ⟨s, hs, u, hu, htu⟩
        exact ⟨u, ⟨_, ⟨s, hs, rfl⟩, hu⟩, htu⟩

/-- `product` collects the members of the results for all pairs. -/
theorem isUnion_product (a b : Value) (f : Single → Single → Value) :
    IsUnion (a.product b f)
      (a = unknown ∨ b = unknown ∨ ∃ l ∈ a.members, ∃ r ∈ b.members, f l r = unknown)
      fun t => ∃ l ∈ a.members, ∃ r ∈ b.members, (f l r).Has t := by
  by_cases hb : b = unknown
  · subst hb
    exact ⟨⟨fun _ => Or.inl (Or.inr (Or.inl rfl)), fun _ => rfl⟩, fun h => absurd rfl h⟩
  unfold Value.product
  rw [singles_of_ne_unknown hb]
  have hrow (l : Single) : IsUnion (joinAll (b.members.map (f l)))
      (∃ r ∈ b.members, f l r = unknown) fun t => ∃ r ∈ b.members, (f l r).Has t := by
    refine (isUnion_joinAll ?_).congr ?_ fun t => ?_
    · simp [members_ne_nil hb]
    · simp
    · simp
  refine ((isUnion_map a _).nested fun l _ => hrow l).congr ?_ fun t => Iff.rfl
  simp [hb]

/-- `filter` collects the members that are wanted. -/
theorem isUnion_filter (a : Value) (p : Single → Bool) :
    IsUnion (a.filter p) (a = unknown ∨ ∀ s ∈ a.members, p s = false)
      fun t => ∃ s ∈ a.members, p s = true ∧ (t == s) = true := by
  by_cases ha : a = unknown
  · subst ha
    exact ⟨⟨fun _ => Or.inl (Or.inl rfl), fun _ => rfl⟩, fun h => absurd rfl h⟩
  unfold Value.filter
  rw [singles_of_ne_unknown ha]
  refine (isUnion_ofSingles _).congr ?_ fun t => ?_
  · simp [ha]
  · simp only [Single.contains_iff, List.mem_filter, and_assoc]

/-! ## The members of a join -/

theorem mem_addMember {ss : List Single} {s t : Single} :
    s ∈ addMember ss t ↔ s ∈ ss ∨ s = t ∧ ss.contains t = false := by
  cases ht : ss.contains t <;> simp [addMember, ht]

/-- Of a list without doubles, those members are added that were not there. -/
theorem mem_foldl_addMember {ss : List Single} (hd : Single.Distinct ss) (acc : List Single)
    (s : Single) :
    s ∈ ss.foldl addMember acc ↔ s ∈ acc ∨ s ∈ ss ∧ acc.contains s = false := by
  induction ss generalizing acc with
  | nil => simp
  | cons t rest ih =>
    obtain ⟨hne, hrest⟩ := List.pairwise_cons.mp hd
    have hnew (hs : s ∈ rest) :
        (addMember acc t).contains s = false ↔ acc.contains s = false := by
      rw [← Bool.not_eq_true, ← Bool.not_eq_true, contains_addMember, hne s hs]
      simp
    rw [List.foldl_cons, ih hrest, mem_addMember, or_assoc]
    refine or_congr_right ?_
    constructor
    · rintro (⟨rfl, ht⟩ | ⟨hs, hnot⟩)
      · exact ⟨List.mem_cons_self, ht⟩
      · exact ⟨List.mem_cons_of_mem _ hs, (hnew hs).mp hnot⟩
    · rintro ⟨hs, hnot⟩
      rcases List.mem_cons.mp hs with rfl | hs
      · exact Or.inl ⟨rfl, hnot⟩
      · exact Or.inr ⟨hs, (hnew hs).mpr hnot⟩

theorem mem_distinct_append {as bs : List Single} (has : Single.Distinct as)
    (hbs : Single.Distinct bs) (s : Single) :
    s ∈ distinct (as ++ bs) ↔ s ∈ as ∨ s ∈ bs ∧ as.contains s = false := by
  have hleft (t : Single) : t ∈ as.foldl addMember [] ↔ t ∈ as := by
    simp [mem_foldl_addMember has]
  have hcontains : (as.foldl addMember []).contains s = as.contains s :=
    Bool.eq_iff_iff.mpr contains_distinct
  rw [distinct, List.foldl_append, mem_foldl_addMember hbs, hleft, hcontains]

/-- A known join has the members of its left part, and of the right part those that the left one does
not have. -/
theorem mem_or_iff {a b : Value} (h : a.or b ≠ unknown) (s : Single) :
    s ∈ (a.or b).members ↔ s ∈ a.members ∨ s ∈ b.members ∧ ¬a.Has s := by
  obtain ⟨ha, hb⟩ := ne_unknown_of_or h
  rw [or_of_known ha hb] at h ⊢
  split at h
  · rename_i hab
    have hall (hs : s ∈ b.members) : a.Has s := by
      rw [← holds_iff_has ha, holds_iff_of_beq hab, holds_iff_has hb]
      exact has_of_mem hs
    rw [if_pos hab]
    exact ⟨Or.inl, fun hs => hs.elim id fun hs => absurd (hall hs.1) hs.2⟩
  · rename_i hab
    have hmembers : (ofSingles (a.members ++ b.members)).members =
        distinct (a.members ++ b.members) := eq_of_singles_ofDistinct (singles_of_ne_unknown h)
    rw [if_neg hab, hmembers, mem_distinct_append a.members_distinct b.members_distinct, Has,
      Bool.not_eq_true]

/-! ## Joins and functions -/

/-- A function gives the same for a member of one value as for the same member of another. -/
def Agree (f : Single → Value) (a b : Value) : Prop :=
  ∀ s ∈ a.members, ∀ t ∈ b.members, (s == t) = true → (f s == f t) = true

theorem exists_mem_of_or {a b : Value} (h : a.or b ≠ unknown) {P : Single → Prop} :
    (∃ s ∈ (a.or b).members, P s) → (∃ s ∈ a.members, P s) ∨ ∃ s ∈ b.members, P s := by
  rintro ⟨s, hs, hPs⟩
  exact ((mem_or_iff h s).mp hs).imp (fun hs => ⟨s, hs, hPs⟩) fun hs => ⟨s, hs.1, hPs⟩

theorem exists_mem_or_left {a b : Value} (h : a.or b ≠ unknown) {P : Single → Prop} :
    (∃ s ∈ a.members, P s) → ∃ s ∈ (a.or b).members, P s := by
  rintro ⟨s, hs, hPs⟩
  exact ⟨s, (mem_or_iff h s).mpr (Or.inl hs), hPs⟩

/-- The members of a join are those of its parts, as far as a property can tell. -/
theorem exists_mem_or_iff {a b : Value} (h : a.or b ≠ unknown) {P : Single → Prop}
    (hP : ∀ s ∈ a.members, ∀ t ∈ b.members, (s == t) = true → (P s ↔ P t)) :
    (∃ s ∈ (a.or b).members, P s) ↔ (∃ s ∈ a.members, P s) ∨ ∃ s ∈ b.members, P s := by
  refine ⟨exists_mem_of_or h, fun hex => hex.elim (exists_mem_or_left h) ?_⟩
  rintro ⟨t, ht, hPt⟩
  by_cases hhas : a.Has t
  · -- `t` gives way to the member of `a` that is the same
    obtain ⟨s, hs, hts⟩ := Single.contains_iff.mp hhas
    exact exists_mem_or_left h ⟨s, hs, (hP s hs t ht (PartialEquivBEq.symm hts)).mpr hPt⟩
  · exact ⟨t, (mem_or_iff h t).mpr (Or.inr ⟨ht, hhas⟩), hPt⟩

theorem eq_unknown_congr {v w : Value} (h : (v == w) = true) : v = unknown ↔ w = unknown := by
  obtain ⟨hvw, hwv⟩ := beq_iff_below.mp h
  constructor
  · rintro rfl
    exact eq_unknown_of_below hvw
  · rintro rfl
    exact eq_unknown_of_below hwv

theorem has_congr {v w : Value} (h : (v == w) = true) (s : Single) : v.Has s ↔ w.Has s := by
  by_cases hv : v = unknown
  · rw [hv, (eq_unknown_congr h).mp hv]
  · have hw : w ≠ unknown := fun hw => hv ((eq_unknown_congr h).mpr hw)
    rw [← holds_iff_has hv, ← holds_iff_has hw]
    exact holds_iff_of_beq h s

/-- `map` makes no less of a join than of its left part, whose members it keeps. -/
theorem map_below_or_map (a b : Value) (f : Single → Value) :
    (a.map f).Below ((a.or b).map f) := by
  by_cases h : a.or b = unknown
  · rw [h]
    exact below_unknown _
  · refine (isUnion_map a f).below (isUnion_map (a.or b) f) ?_ fun t => exists_mem_or_left h
    rintro (ha | hu)
    · exact absurd ha (ne_unknown_of_or h).1
    · exact Or.inr (exists_mem_or_left h hu)

/-- `map` makes no more of a known join than of its parts. -/
theorem or_map_below {a b : Value} (f : Single → Value) (h : a.or b ≠ unknown) :
    ((a.or b).map f).Below ((a.map f).or (b.map f)) := by
  refine (isUnion_map (a.or b) f).below ((isUnion_map a f).or (isUnion_map b f)) ?_
    fun t => exists_mem_of_or h
  rintro (hu | hu)
  · exact absurd hu h
  · exact (exists_mem_of_or h hu).imp Or.inr Or.inr

/-- `map` commutes with a join that can be listed, if the function agrees on the parts. -/
theorem map_or_beq {a b : Value} {f : Single → Value} (hf : Agree f a b)
    (h : a.or b ≠ unknown) : ((a.map f).or (b.map f) == (a.or b).map f) = true := by
  have hleft := (isUnion_map a f).or (isUnion_map b f)
  refine hleft.beq_of_iff ((isUnion_map (a.or b) f).congr ?_ fun t => ?_)
  · rw [exists_mem_or_iff h fun s hs t ht hst => eq_unknown_congr (hf s hs t ht hst)]
    simp [h, ne_unknown_of_or h]
  · exact exists_mem_or_iff h fun s hs u hu hsu => has_congr (hf s hs u hu hsu) t

theorem map_or_below {a b : Value} {f : Single → Value} (hf : Agree f a b) :
    ((a.map f).or (b.map f)).Below ((a.or b).map f) := by
  by_cases h : a.or b = unknown
  · rw [h]
    exact below_unknown _
  · exact (beq_iff_below.mp (map_or_beq hf h)).1

/-! ## The laws -/

theorem or_self_beq (a : Value) : (a.or a == a) = true :=
  below_iff_or_beq.mp (Below.refl a)

theorem or_comm_beq (a b : Value) : (a.or b == b.or a) = true :=
  beq_iff_below.mpr ⟨or_below (below_or_right b a) (below_or_left b a),
    or_below (below_or_right a b) (below_or_left a b)⟩

theorem or_assoc_beq (a b c : Value) : ((a.or b).or c == a.or (b.or c)) = true := by
  have hiff (d : Value) : ((a.or b).or c).Below d ↔ (a.or (b.or c)).Below d := by
    rw [or_below_iff, or_below_iff, or_below_iff, or_below_iff, and_assoc]
  exact beq_iff_below.mpr ⟨(hiff _).mpr (Below.refl _), (hiff _).mp (Below.refl _)⟩

theorem or_right_comm_beq (a b c : Value) : ((a.or b).or c == (a.or c).or b) = true := by
  have hiff (d : Value) : ((a.or b).or c).Below d ↔ ((a.or c).or b).Below d := by
    rw [or_below_iff, or_below_iff, or_below_iff, or_below_iff, and_right_comm]
  exact beq_iff_below.mpr ⟨(hiff _).mpr (Below.refl _), (hiff _).mp (Below.refl _)⟩

theorem or_unknown_beq (a : Value) : (a.or unknown == unknown) = true :=
  below_iff_or_beq.mp (below_unknown a)

/-- Values are a join semilattice with `unknown` on top, in which sets are bounded, and the functions
of members are exact in it. All results are well formed. A join is the least value above its parts.
`map` and `product` give `unknown` exactly if an operand or a result is unknown or there are too
many results, and otherwise the results and no more. So `map` makes no less of a join than of its
left part, and no more of a known join than of both parts. With a function that agrees on the parts
it commutes with joins, from below in any case and exactly if the join is known. -/
theorem lattice_laws (a b c : Value) (ss : List Single) (p : Single → Bool) (f : Single → Value)
    (g : Single → Single → Value) :
    ((ofSingles ss).WellFormed ∧ (a.or b).WellFormed ∧ (a.map f).WellFormed ∧
      (a.product b g).WellFormed ∧ (a.filter p).WellFormed) ∧
    ((a.or a == a) = true ∧ (a.or b == b.or a) = true ∧
      ((a.or b).or c == a.or (b.or c)) = true ∧
      (a.or unknown == unknown) = true ∧ (unknown.or a == unknown) = true) ∧
    (a.Below (a.or b) ∧ b.Below (a.or b) ∧ (a.Below c → b.Below c → (a.or b).Below c)) ∧
    IsUnion (ofSingles ss) (ss = []) (fun t => ss.contains t = true) ∧
    IsUnion (a.filter p) (a = unknown ∨ ∀ s ∈ a.members, p s = false)
      (fun t => ∃ s ∈ a.members, p s = true ∧ (t == s) = true) ∧
    IsUnion (a.map f) (a = unknown ∨ ∃ s ∈ a.members, f s = unknown)
      (fun t => ∃ s ∈ a.members, (f s).Has t) ∧
    IsUnion (a.product b g)
      (a = unknown ∨ b = unknown ∨ ∃ l ∈ a.members, ∃ r ∈ b.members, g l r = unknown)
      (fun t => ∃ l ∈ a.members, ∃ r ∈ b.members, (g l r).Has t) ∧
    (a.map f).Below ((a.or b).map f) ∧
    (a.or b ≠ unknown → ((a.or b).map f).Below ((a.map f).or (b.map f))) ∧
    (Agree f a b →
      ((a.map f).or (b.map f)).Below ((a.or b).map f) ∧
      (a.or b ≠ unknown → ((a.map f).or (b.map f) == (a.or b).map f) = true)) := by
  refine ⟨⟨wellFormed _, wellFormed _, wellFormed _, wellFormed _, wellFormed _⟩,
    ⟨or_self_beq a, or_comm_beq a b, or_assoc_beq a b c, or_unknown_beq a, BEq.rfl⟩,
    ⟨below_or_left a b, below_or_right a b, or_below⟩,
    isUnion_ofSingles ss, isUnion_filter a p, isUnion_map a f, isUnion_product a b g,
    map_below_or_map a b f, or_map_below f, fun hf => ⟨map_or_below hf, map_or_beq hf⟩⟩

/-- The types of `1` or `true`, joined with those of `1` or `2`, are the types of all three. -/
theorem lattice_laws_typeOf :
    let a := (nat 1).or (bool true)
    let b := (nat 1).or (nat 2)
    let f : Single → Value := fun s => string s.typeOf
    a.or b ≠ unknown ∧ Agree f a b ∧ ((a.map f).or (b.map f) == (a.or b).map f) = true := by
  intro a b f
  have hne : a.or b ≠ unknown := by decide
  have hf : Agree f a b := by
    unfold Agree
    decide
  exact ⟨hne, hf, ((lattice_laws a b unknown [] (fun _ => true) f
    (fun _ _ => unknown)).2.2.2.2.2.2.2.2.2 hf).2 hne⟩

/-- Not every function agrees on all values. `NaN` and `-NaN` are the same, and a join keeps the left
one. The test whether `-NaN` already is the written form of a value reads the sign bit: what it says
of the right part is lost, and the order of the join shows. -/
theorem map_or_nan_sign :
    let a := number .nan
    let b := number Number.nan.neg
    let written : Expr := .unary 1 .minus (.ident ⟨0, "NaN"⟩)
    let f : Single → Value := fun s => bool (s.primitive?.any written.writes)
    (a == b) = true ∧ a.or b ≠ unknown ∧
      ¬((a.map f).or (b.map f)).Below ((a.or b).map f) ∧
      ((a.map f).or (b.map f) == (a.or b).map f) = false ∧
      ((a.or b).map f == (b.or a).map f) = false := by
  intro a b written f
  have hne : ((a.map f).or (b.map f) == (a.or b).map f) = false := by decide
  refine ⟨by decide, by decide, fun hbelow => ?_, hne, by decide⟩
  have hsame := beq_iff_below.mpr ⟨hbelow, or_map_below f (by decide)⟩
  rw [hne] at hsame
  cases hsame

end Value

end EsOptimizer
