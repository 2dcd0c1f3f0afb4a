import EsOptimizer.Heap.Object
import EsOptimizer.Proofs.Value.Lattice
import Mathlib.Data.List.Perm.Subperm

/-!
# The lattice of object versions

What is known of an object is ordered by how much it allows. Of two versions that are not dirty, the
greater one lists fewer properties, each allowing at least as much, and claims less about those that
it does not list (`HeapObject.Within`). An object about which nothing is known is above all others.

`HeapObject.or` is the least upper bound (`or_below`, `below_or_left`, `below_or_right`), and the
order can be read off a join (`below_iff_or_beq`). Equality is taken up to the order in which
properties were added, so objects are compared name by name (`beq_iff`).
-/

namespace EsOptimizer

/-! ## Properties -/

/-- Everything that one content allows, the other allows. -/
def Content.Below : Content → Content → Prop
  | .data x, .data y => x.Below y
  | .accessor get set, .accessor get' set' => get = get' ∧ set = set'
  | _, _ => False

namespace Content

theorem Below.refl (c : Content) : c.Below c := by
  cases c with
  | data x => exact Value.Below.refl x
  | accessor get set => exact ⟨rfl, rfl⟩

theorem Below.trans {a b c : Content} (hab : a.Below b) (hbc : b.Below c) : a.Below c := by
  cases a <;> cases b <;> cases c <;> simp only [Below] at hab hbc ⊢
  · exact hab.trans hbc
  · exact ⟨hab.1.trans hbc.1, hab.2.trans hbc.2⟩

theorem beq_iff_below {a b : Content} : (a == b) = true ↔ a.Below b ∧ b.Below a := by
  cases a with
  | data x =>
    cases b with
    | data y => exact Value.beq_iff_below
    | accessor get set => exact ⟨fun h => (by cases h), fun h => h.1.elim⟩
  | accessor get set =>
    cases b with
    | data y => exact ⟨fun h => (by cases h), fun h => h.1.elim⟩
    | accessor get' set' =>
      change (get == get' && set == set') = true ↔ _
      rw [Bool.and_eq_true, beq_iff_eq, beq_iff_eq]
      exact ⟨fun h => ⟨h, h.1.symm, h.2.symm⟩, fun h => h.1⟩

end Content

namespace Descriptor

theorem sameFlags_iff {a b : Descriptor} : a.sameFlags b = true ↔
    a.enumerable = b.enumerable ∧ a.writable = b.writable ∧ a.configurable = b.configurable ∧
      a.hiddenSetter = b.hiddenSetter := by
  simp only [sameFlags, Bool.and_eq_true, beq_iff_eq, and_assoc]

/-- Everything that one property allows, the other allows. -/
structure Below (a b : Descriptor) : Prop where
  flags : a.sameFlags b = true
  content : a.content.Below b.content

theorem Below.refl (d : Descriptor) : d.Below d :=
  ⟨sameFlags_iff.mpr ⟨rfl, rfl, rfl, rfl⟩, Content.Below.refl _⟩

theorem sameFlags_symm {a b : Descriptor} (h : a.sameFlags b = true) : b.sameFlags a = true := by
  obtain ⟨h₁, h₂, h₃, h₄⟩ := sameFlags_iff.mp h
  exact sameFlags_iff.mpr ⟨h₁.symm, h₂.symm, h₃.symm, h₄.symm⟩

theorem sameFlags_trans {a b c : Descriptor} (hab : a.sameFlags b = true)
    (hbc : b.sameFlags c = true) : a.sameFlags c = true := by
  obtain ⟨h₁, h₂, h₃, h₄⟩ := sameFlags_iff.mp hab
  obtain ⟨k₁, k₂, k₃, k₄⟩ := sameFlags_iff.mp hbc
  exact sameFlags_iff.mpr ⟨h₁.trans k₁, h₂.trans k₂, h₃.trans k₃, h₄.trans k₄⟩

theorem Below.trans {a b c : Descriptor} (hab : a.Below b) (hbc : b.Below c) : a.Below c :=
  ⟨sameFlags_trans hab.flags hbc.flags, hab.content.trans hbc.content⟩

theorem beq_iff_below {a b : Descriptor} : (a == b) = true ↔ a.Below b ∧ b.Below a := by
  have hfields : (a == b) = true ↔ a.sameFlags b = true ∧ (a.content == b.content) = true := by
    rw [sameFlags_iff]
    obtain ⟨e, w, c, s, x⟩ := a
    obtain ⟨e', w', c', s', x'⟩ := b
    change (e == e' && (w == w' && (c == c' && (s == s' && x == x')))) = true ↔ _
    simp only [Bool.and_eq_true, beq_iff_eq, and_assoc]
  rw [hfields, Content.beq_iff_below]
  constructor
  · rintro ⟨hflags, hab, hba⟩
    exact ⟨⟨hflags, hab⟩, ⟨sameFlags_symm hflags, hba⟩⟩
  · rintro ⟨hab, hba⟩
    exact ⟨hab.flags, hab.content, hba.content⟩

instance : EquivBEq Descriptor where
  rfl := beq_iff_below.mpr ⟨Below.refl _, Below.refl _⟩
  symm h := beq_iff_below.mpr (beq_iff_below.mp h).symm
  trans hab hbc := by
    obtain ⟨hab, hba⟩ := beq_iff_below.mp hab
    obtain ⟨hbc, hcb⟩ := beq_iff_below.mp hbc
    exact beq_iff_below.mpr ⟨hab.trans hbc, hcb.trans hba⟩

/-- A joined property allows what its parts allow. -/
theorem below_of_or? {a b d : Descriptor} (h : a.or? b = some d) : a.Below d ∧ b.Below d := by
  unfold or? at h
  split at h
  · cases h
  · rename_i hflags
    have hflags : a.sameFlags b = true := by simpa using hflags
    split at h
    · rename_i x y hx hy
      cases h
      have hd : a.sameFlags { a with content := .data (x.or y) } = true :=
        sameFlags_iff.mpr ⟨rfl, rfl, rfl, rfl⟩
      refine ⟨⟨hd, ?_⟩, ⟨sameFlags_trans (sameFlags_symm hflags) hd, ?_⟩⟩
      · rw [hx]
        exact Value.below_or_left x y
      · rw [hy]
        exact Value.below_or_right x y
    · split at h
      · rename_i heq
        cases h
        exact ⟨Below.refl a, ⟨sameFlags_symm hflags, (Content.beq_iff_below.mp heq).2⟩⟩
      · cases h
    · cases h

/-- Properties that one property allows have a join, which it allows as well. -/
theorem or?_of_below {a b c : Descriptor} (hac : a.Below c) (hbc : b.Below c) :
    ∃ d, a.or? b = some d ∧ d.Below c := by
  have hflags : a.sameFlags b = true := sameFlags_trans hac.flags (sameFlags_symm hbc.flags)
  have ha := hac.content
  have hb := hbc.content
  unfold or?
  rw [hflags]
  cases hac' : a.content with
  | data x =>
    cases hcc : c.content with
    | accessor get set =>
      rw [hac', hcc] at ha
      exact ha.elim
    | data z =>
      cases hbc' : b.content with
      | accessor get set =>
        rw [hbc', hcc] at hb
        exact hb.elim
      | data y =>
        rw [hac', hcc] at ha
        rw [hbc', hcc] at hb
        refine ⟨_, rfl, ⟨sameFlags_trans (sameFlags_iff.mpr ⟨rfl, rfl, rfl, rfl⟩) hac.flags, ?_⟩⟩
        rw [hcc]
        exact Value.or_below ha hb
  | accessor get set =>
    -- an accessor lies below itself only
    have hsame : (a.content == b.content) = true := by
      rw [Content.beq_iff_below, hac']
      rw [hac'] at ha
      cases hcc : c.content with
      | data z =>
        rw [hcc] at ha
        exact ha.elim
      | accessor get' set' =>
        rw [hcc] at ha hb
        cases hbc' : b.content with
        | data y =>
          rw [hbc'] at hb
          exact hb.elim
        | accessor get'' set'' =>
          rw [hbc'] at hb
          exact ⟨⟨ha.1.trans hb.1.symm, ha.2.trans hb.2.symm⟩,
            ⟨hb.1.trans ha.1.symm, hb.2.trans ha.2.symm⟩⟩
    rw [hac'] at hsame
    simp only [Bool.not_true, Bool.false_eq_true, if_false, hsame, if_true]
    exact ⟨a, rfl, hac⟩

end Descriptor

namespace Properties

theorem lookup_eq_some_iff {ps : Properties} (h : ps.Distinct) {name : String} {d : Descriptor} :
    ps.lookup name = some d ↔ (name, d) ∈ ps := by
  induction ps with
  | nil => simp
  | cons p rest ih =>
    obtain ⟨hp, hrest⟩ := List.nodup_cons.mp h
    rw [List.lookup_cons, List.mem_cons]
    by_cases hname : name = p.1
    · subst hname
      have hnot : (p.1, d) ∉ rest := fun hmem => hp (List.mem_map.mpr ⟨_, hmem, rfl⟩)
      simp only [beq_self_eq_true, Option.some.injEq]
      constructor
      · rintro rfl
        exact Or.inl rfl
      · rintro (heq | hmem)
        · exact (congrArg Prod.snd heq).symm
        · exact absurd hmem hnot
    · have hne : (name, d) ≠ p := fun heq => hname (congrArg Prod.fst heq)
      rw [beq_eq_false_iff_ne.mpr hname]
      simp only [hne, false_or]
      exact ih hrest

theorem lookup_isSome_iff {ps : Properties} {name : String} :
    (ps.lookup name).isSome = true ↔ name ∈ ps.map (·.1) := by
  induction ps with
  | nil => simp
  | cons p rest ih =>
    rw [List.lookup_cons, List.map_cons, List.mem_cons]
    by_cases hname : name = p.1
    · simp [hname]
    · rw [beq_eq_false_iff_ne.mpr hname]
      simp only [hname, false_or]
      exact ih

/-- Properties are the same if they are the same name by name. -/
theorem same_iff {as bs : Properties} (ha : as.Distinct) (hb : bs.Distinct) :
    same as bs = true ↔ ∀ name, (bs.lookup name == as.lookup name) = true := by
  have hall : (as.all fun p => bs.lookup p.1 == some p.2) = true ↔
      ∀ name d, as.lookup name = some d → (bs.lookup name == some d) = true := by
    rw [List.all_eq_true]
    constructor
    · intro h name d hd
      exact h (name, d) ((lookup_eq_some_iff ha).mp hd)
    · intro h p hp
      exact h p.1 p.2 ((lookup_eq_some_iff ha).mpr hp)
  have hlen : as.length = (as.map (·.1)).length := List.length_map _ |>.symm
  have hlen' : bs.length = (bs.map (·.1)).length := List.length_map _ |>.symm
  rw [same, Bool.and_eq_true, beq_iff_eq, hall, hlen, hlen']
  constructor
  · rintro ⟨heq, h⟩ name
    cases hd : as.lookup name with
    | some d => exact h name d hd
    | none =>
      -- the names of `as` are among those of `bs`, and as many
      have hsub : as.map (·.1) ⊆ bs.map (·.1) := by
        intro n hn
        obtain ⟨d, hd⟩ := Option.isSome_iff_exists.mp (lookup_isSome_iff.mpr hn)
        have hb := h n d hd
        rw [← lookup_isSome_iff]
        cases hx : bs.lookup n with
        | none =>
          rw [hx] at hb
          cases hb
        | some e => rfl
      have hperm := (List.subperm_of_subset ha hsub).perm_of_length_le (Nat.le_of_eq heq.symm)
      cases hx : bs.lookup name with
      | none => rfl
      | some e =>
        have hmem := lookup_isSome_iff.mp (Option.isSome_of_eq_some hx)
        have hmem := lookup_isSome_iff.mpr (hperm.mem_iff.mpr hmem)
        rw [hd] at hmem
        cases hmem
  · intro h
    have hnames : ∀ n, n ∈ as.map (·.1) ↔ n ∈ bs.map (·.1) := by
      intro n
      have hn := h n
      rw [← lookup_isSome_iff, ← lookup_isSome_iff]
      cases hx : as.lookup n <;> cases hy : bs.lookup n <;> rw [hx, hy] at hn <;> simp at hn ⊢
    exact ⟨((List.perm_ext_iff_of_nodup ha hb).mpr hnames).length_eq,
      fun name d hd => by rw [← hd]; exact h name⟩

end Properties

namespace Knowledge

theorem rank_injective {a b : Knowledge} (h : a.rank = b.rank) : a = b := by
  cases a <;> cases b <;> first | rfl | cases h

theorem rank_min (a b : Knowledge) : (a.min b).rank = Nat.min a.rank b.rank := by
  unfold min
  split
  · exact (Nat.min_eq_left ‹_›).symm
  · exact (Nat.min_eq_right (by omega)).symm

theorem eq_mayHaveNew_of_rank_le {a : Knowledge} (h : a.rank ≤ mayHaveNew.rank) : a = mayHaveNew :=
  rank_injective (Nat.le_antisymm h (Nat.zero_le _))

end Knowledge

namespace HeapObject

/-! ## Equality -/

theorem owns_iff {o : HeapObject} {name : String} :
    o.owns name = true ↔ ∃ d, o.get? name = some d :=
  Option.isSome_iff_exists

theorem beq_iff {a b : HeapObject} : (a == b) = true ↔
    a.proto = b.proto ∧ (∀ name, (b.get? name == a.get? name) = true) ∧
      a.knowledge = b.knowledge ∧ a.host = b.host ∧ a.dirty = b.dirty := by
  change (_ && Properties.same _ _ && _ && _ && _) = true ↔ _
  simp only [Bool.and_eq_true, beq_iff_eq, and_assoc, Properties.same_iff a.distinct b.distinct]
  rfl

/-- Two answers to the question for a property are the same. -/
theorem beq_get?_iff {x y : Option Descriptor} : (x == y) = true ↔
    (∀ d, x = some d → ∃ e, y = some e ∧ (d == e) = true) ∧ (x = none → y = none) := by
  cases x <;> cases y <;> simp

instance : EquivBEq HeapObject where
  rfl {a} := beq_iff.mpr ⟨rfl, fun name => by cases a.get? name <;> simp, rfl, rfl, rfl⟩
  symm {a b} h := by
    obtain ⟨hp, hg, hk, hh, hd⟩ := beq_iff.mp h
    refine beq_iff.mpr ⟨hp.symm, fun name => ?_, hk.symm, hh.symm, hd.symm⟩
    have hname := hg name
    cases hx : a.get? name <;> cases hy : b.get? name <;> rw [hx, hy] at hname <;> simp at hname ⊢
    exact PartialEquivBEq.symm hname
  trans {a b c} hab hbc := by
    obtain ⟨hp, hg, hk, hh, hd⟩ := beq_iff.mp hab
    obtain ⟨hp', hg', hk', hh', hd'⟩ := beq_iff.mp hbc
    refine beq_iff.mpr ⟨hp.trans hp', fun name => ?_, hk.trans hk', hh.trans hh', hd.trans hd'⟩
    have hname := hg name
    have hname' := hg' name
    cases hx : a.get? name <;> cases hy : b.get? name <;> cases hz : c.get? name <;>
      rw [hx, hy] at hname <;> rw [hy, hz] at hname' <;> simp at hname hname' ⊢
    exact PartialEquivBEq.trans hname' hname

/-! ## The order -/

/-- Of two versions that are not dirty, everything that `a` allows, `b` allows. -/
structure Within (a b : HeapObject) : Prop where
  clean : a.dirty = false
  clean' : b.dirty = false
  proto : a.proto = b.proto
  host : b.host = none ∨ b.host = a.host
  properties : ∀ name d, b.get? name = some d → ∃ c, a.get? name = some c ∧ c.Below d
  knowledge : b.knowledge.rank ≤ a.knowledge.rank
  /-- Only an object that may have any property gives up some that are listed. -/
  complete : b.knowledge ≠ .mayHaveNew → ∀ name, a.owns name = true → b.owns name = true

/-- Everything that `a` allows, `b` allows. -/
def Below (a b : HeapObject) : Prop := (a == b) = true ∨ (b == unknown) = true ∨ Within a b

theorem Within.trans {a b c : HeapObject} (hab : Within a b) (hbc : Within b c) : Within a c where
  clean := hab.clean
  clean' := hbc.clean'
  proto := hab.proto.trans hbc.proto
  host := by
    rcases hbc.host with h | h
    · exact Or.inl h
    · rw [h]
      exact hab.host
  properties := by
    intro name d hd
    obtain ⟨e, he, hed⟩ := hbc.properties name d hd
    obtain ⟨f, hf, hfe⟩ := hab.properties name e he
    exact ⟨f, hf, hfe.trans hed⟩
  knowledge := Nat.le_trans hbc.knowledge hab.knowledge
  complete := by
    intro hc name hname
    refine hbc.complete hc name (hab.complete (fun hb => hc ?_) name hname)
    exact Knowledge.eq_mayHaveNew_of_rank_le (hb ▸ hbc.knowledge)

theorem within_of_beq {a b : HeapObject} (h : (a == b) = true) (hclean : a.dirty = false) :
    Within a b := by
  obtain ⟨hp, hg, hk, hh, hd⟩ := beq_iff.mp h
  refine ⟨hclean, hd ▸ hclean, hp, Or.inr hh.symm, fun name d hname => ?_,
    Nat.le_of_eq (by rw [hk]), ?_⟩
  · obtain ⟨e, he, hde⟩ := (beq_get?_iff.mp (hg name)).1 d hname
    exact ⟨e, he, (Descriptor.beq_iff_below.mp hde).2⟩
  · intro _ name hname
    obtain ⟨d, hd⟩ := owns_iff.mp hname
    cases hb : b.get? name with
    | some e => exact owns_iff.mpr ⟨e, hb⟩
    | none =>
      rw [(beq_get?_iff.mp (hg name)).2 hb] at hd
      cases hd

theorem beq_of_within {a b : HeapObject} (hab : Within a b) (hba : Within b a) :
    (a == b) = true := by
  have hk : a.knowledge = b.knowledge :=
    Knowledge.rank_injective (Nat.le_antisymm hba.knowledge hab.knowledge)
  have hhost : a.host = b.host := by
    rcases hab.host with h | h
    · rcases hba.host with h' | h'
      · rw [h, h']
      · exact h'
    · exact h.symm
  refine beq_iff.mpr ⟨hab.proto, fun name => ?_, hk, hhost, by rw [hab.clean, hab.clean']⟩
  refine beq_get?_iff.mpr ⟨fun d hd => ?_, fun hnone => ?_⟩
  · obtain ⟨c, hc, hcd⟩ := hab.properties name d hd
    obtain ⟨d', hd', hdc⟩ := hba.properties name c hc
    rw [hd] at hd'
    cases hd'
    exact ⟨c, hc, Descriptor.beq_iff_below.mpr ⟨hdc, hcd⟩⟩
  · cases ha : a.get? name with
    | none => rfl
    | some c =>
      obtain ⟨d, hd, -⟩ := hba.properties name c ha
      rw [hnone] at hd
      cases hd

theorem dirty_of_beq_unknown {o : HeapObject} (h : (o == unknown) = true) : o.dirty = true :=
  (beq_iff.mp h).2.2.2.2

theorem below_unknown (o : HeapObject) : o.Below unknown := Or.inr (Or.inl BEq.rfl)

theorem Below.refl (o : HeapObject) : o.Below o := Or.inl BEq.rfl

theorem below_of_beq {a b : HeapObject} (h : (a == b) = true) : a.Below b := Or.inl h

theorem within_of_below {a b : HeapObject} (h : a.Below b) (hclean : b.dirty = false) :
    Within a b := by
  rcases h with h | h | h
  · exact within_of_beq h ((beq_iff.mp h).2.2.2.2.trans hclean)
  · rw [dirty_of_beq_unknown h] at hclean
    cases hclean
  · exact h

/-- Above a dirty object there is nothing but what is unknown, and itself. -/
theorem below_dirty {a b : HeapObject} (h : a.Below b) (hdirty : b.dirty = true) :
    (b == unknown) = true ∨ (a == b) = true := by
  rcases h with h | h | h
  · exact Or.inr h
  · exact Or.inl h
  · rw [h.clean'] at hdirty
    cases hdirty

theorem Below.trans {a b c : HeapObject} (hab : a.Below b) (hbc : b.Below c) : a.Below c := by
  rcases hbc with hbc | hbc | hbc
  · rcases hab with hab | hab | hab
    · exact Or.inl (PartialEquivBEq.trans hab hbc)
    · exact Or.inr (Or.inl (PartialEquivBEq.trans (PartialEquivBEq.symm hbc) hab))
    · exact Or.inr (Or.inr (hab.trans (within_of_beq hbc hab.clean')))
  · exact Or.inr (Or.inl hbc)
  · exact Or.inr (Or.inr ((within_of_below hab hbc.clean).trans hbc))

theorem beq_iff_below {a b : HeapObject} : (a == b) = true ↔ a.Below b ∧ b.Below a := by
  constructor
  · intro h
    exact ⟨below_of_beq h, below_of_beq (PartialEquivBEq.symm h)⟩
  · rintro ⟨hab, hba⟩
    cases hb : b.dirty with
    | false =>
      have hab := within_of_below hab hb
      exact beq_of_within hab (within_of_below hba hab.clean)
    | true =>
      rcases below_dirty hab hb with hunknown | heq
      · cases ha : a.dirty with
        | false =>
          have hba := within_of_below hba ha
          rw [hba.clean] at hb
          cases hb
        | true =>
          rcases below_dirty hba ha with hunknown' | heq
          · exact PartialEquivBEq.trans hunknown' (PartialEquivBEq.symm hunknown)
          · exact PartialEquivBEq.symm heq
      · exact heq

/-! ## Joins -/

/-- Two versions that differ, but can be joined name by name. -/
structure Comparable (a b : HeapObject) : Prop where
  differ : (a == b) = false
  clean : a.dirty = false
  clean' : b.dirty = false
  proto : a.proto = b.proto

theorem or_of_beq {a b : HeapObject} (h : (a == b) = true) : a.or b = a := by
  rw [HeapObject.or, if_pos h]

theorem or_cases (a b : HeapObject) :
    ((a == b) = true ∧ a.or b = a) ∨ a.or b = unknown ∨ Comparable a b := by
  by_cases heq : (a == b) = true
  · exact Or.inl ⟨heq, or_of_beq heq⟩
  · by_cases hno : (a.dirty || b.dirty || a.proto != b.proto) = true
    · refine Or.inr (Or.inl ?_)
      rw [HeapObject.or, if_neg heq, if_pos hno]
    · simp only [Bool.or_eq_true, bne_iff_ne, not_or, Bool.not_eq_true, not_not] at hno
      exact Or.inr (Or.inr ⟨by simpa using heq, hno.1.1, hno.1.2, hno.2⟩)

namespace Comparable

variable {a b : HeapObject}

theorem or_eq (h : Comparable a b) : a.or b =
    { proto := a.proto
      properties := a.properties.filterMap fun p =>
        ((b.get? p.1).bind p.2.or?).map fun d => (p.1, d)
      knowledge :=
        if (a.properties.filterMap fun p =>
            ((b.get? p.1).bind p.2.or?).map fun d => (p.1, d)).length == a.properties.length &&
          b.properties.all fun p => a.owns p.1 then a.knowledge.min b.knowledge else .mayHaveNew
      host := if a.host == b.host then a.host else none
      distinct := a.distinct.filterMap fun p => (b.get? p.1).bind p.2.or? } := by
  have hno : ¬(a.dirty || b.dirty || a.proto != b.proto) = true := by
    simp [h.clean, h.clean', h.proto]
  rw [HeapObject.or, if_neg (by simp [h.differ]), if_neg hno]

/-- The join has the properties that have a join. -/
theorem get?_or (h : Comparable a b) {name : String} {d : Descriptor} :
    (a.or b).get? name = some d ↔
      ∃ c e, a.get? name = some c ∧ b.get? name = some e ∧ c.or? e = some d := by
  have hmem : (a.or b).get? name = some d ↔ (name, d) ∈ (a.or b).properties :=
    Properties.lookup_eq_some_iff (a.or b).distinct
  rw [hmem, h.or_eq]
  simp only [List.mem_filterMap, Option.map_eq_some_iff, Option.bind_eq_some_iff, Prod.mk.injEq]
  constructor
  · rintro ⟨p, hp, x, ⟨e, he, hx⟩, rfl, rfl⟩
    exact ⟨p.2, e, (Properties.lookup_eq_some_iff a.distinct).mpr hp, he, hx⟩
  · rintro ⟨c, e, hc, he, hd⟩
    exact ⟨(name, c), (Properties.lookup_eq_some_iff a.distinct).mp hc, d, ⟨e, he, hd⟩, rfl, rfl⟩

theorem dirty_or (h : Comparable a b) : (a.or b).dirty = false := by rw [h.or_eq]

theorem proto_or (h : Comparable a b) : (a.or b).proto = a.proto := by rw [h.or_eq]

theorem host_or (h : Comparable a b) :
    (a.or b).host = if a.host == b.host then a.host else none := by rw [h.or_eq]

/-- A property of the one or the other is given up unless both have it and it has a join. -/
theorem knowledge_or (h : Comparable a b) :
    ((∀ name, a.owns name = true ∨ b.owns name = true → (a.or b).owns name = true) ∧
        (a.or b).knowledge = a.knowledge.min b.knowledge) ∨ (a.or b).knowledge = .mayHaveNew := by
  have hknow := congrArg knowledge h.or_eq
  simp only at hknow
  split at hknow
  · rename_i hcomplete
    rw [Bool.and_eq_true, beq_iff_eq, List.all_eq_true] at hcomplete
    obtain ⟨hlen, hall⟩ := hcomplete
    refine Or.inl ⟨?_, hknow⟩
    have ha : ∀ name, a.owns name = true → (a.or b).owns name = true := by
      intro name hname
      obtain ⟨c, hc⟩ := owns_iff.mp hname
      rw [List.length_filterMap_eq_countP, List.countP_eq_length] at hlen
      have hkept := hlen (name, c) ((Properties.lookup_eq_some_iff a.distinct).mp hc)
      simp only [Option.isSome_map] at hkept
      obtain ⟨d, hd⟩ := Option.isSome_iff_exists.mp hkept
      obtain ⟨e, he, hd⟩ := Option.bind_eq_some_iff.mp hd
      exact owns_iff.mpr ⟨d, h.get?_or.mpr ⟨c, e, hc, he, hd⟩⟩
    rintro name (hname | hname)
    · exact ha name hname
    · obtain ⟨e, he⟩ := owns_iff.mp hname
      exact ha name (hall (name, e) ((Properties.lookup_eq_some_iff b.distinct).mp he))
  · exact Or.inr hknow

/-- Nothing is given up if the join has all the names. -/
theorem knowledge_of_complete (h : Comparable a b)
    (hall : ∀ name, a.owns name = true ∨ b.owns name = true → (a.or b).owns name = true) :
    (a.or b).knowledge = a.knowledge.min b.knowledge := by
  have hlen : (a.properties.filterMap fun p =>
      ((b.get? p.1).bind p.2.or?).map fun d => (p.1, d)).length = a.properties.length := by
    rw [List.length_filterMap_eq_countP, List.countP_eq_length]
    intro p hp
    have hc := (Properties.lookup_eq_some_iff a.distinct).mpr hp
    obtain ⟨d, hd⟩ := owns_iff.mp (hall p.1 (Or.inl (owns_iff.mpr ⟨p.2, hc⟩)))
    obtain ⟨c, e, hc', he, hd⟩ := h.get?_or.mp hd
    have hcp : c = p.2 := Option.some.inj (hc'.symm.trans hc)
    rw [Option.isSome_map, he, Option.bind_some, ← hcp, hd]
    rfl
  have hnames : (b.properties.all fun p => a.owns p.1) = true := by
    rw [List.all_eq_true]
    intro p hp
    have he := (Properties.lookup_eq_some_iff b.distinct).mpr hp
    obtain ⟨d, hd⟩ := owns_iff.mp (hall p.1 (Or.inr (owns_iff.mpr ⟨p.2, he⟩)))
    obtain ⟨c, -, hc, -, -⟩ := h.get?_or.mp hd
    exact owns_iff.mpr ⟨c, hc⟩
  have hknow := congrArg knowledge h.or_eq
  simp only at hknow
  rw [hknow, hlen, hnames]
  simp

theorem rank_or_le (h : Comparable a b) :
    (a.or b).knowledge.rank ≤ a.knowledge.rank ∧ (a.or b).knowledge.rank ≤ b.knowledge.rank := by
  rcases h.knowledge_or with ⟨-, hk⟩ | hk
  · rw [hk, Knowledge.rank_min]
    exact ⟨Nat.min_le_left _ _, Nat.min_le_right _ _⟩
  · rw [hk]
    exact ⟨Nat.zero_le _, Nat.zero_le _⟩

theorem owns_or (h : Comparable a b) (hk : (a.or b).knowledge ≠ .mayHaveNew) {name : String}
    (hname : a.owns name = true ∨ b.owns name = true) : (a.or b).owns name = true := by
  rcases h.knowledge_or with ⟨hall, -⟩ | hk'
  · exact hall name hname
  · exact absurd hk' hk

theorem within_or_left (h : Comparable a b) : Within a (a.or b) where
  clean := h.clean
  clean' := h.dirty_or
  proto := h.proto_or.symm
  host := by
    rw [h.host_or]
    split
    · exact Or.inr rfl
    · exact Or.inl rfl
  properties := by
    intro name d hd
    obtain ⟨c, e, hc, -, hor⟩ := h.get?_or.mp hd
    exact ⟨c, hc, (Descriptor.below_of_or? hor).1⟩
  knowledge := h.rank_or_le.1
  complete := fun hk _ hname => h.owns_or hk (Or.inl hname)

theorem within_or_right (h : Comparable a b) : Within b (a.or b) where
  clean := h.clean'
  clean' := h.dirty_or
  proto := h.proto.symm.trans h.proto_or.symm
  host := by
    rw [h.host_or]
    split
    · rename_i heq
      exact Or.inr (beq_iff_eq.mp heq)
    · exact Or.inl rfl
  properties := by
    intro name d hd
    obtain ⟨c, e, -, he, hor⟩ := h.get?_or.mp hd
    exact ⟨e, he, (Descriptor.below_of_or? hor).2⟩
  knowledge := h.rank_or_le.2
  complete := fun hk _ hname => h.owns_or hk (Or.inr hname)

theorem or_within (h : Comparable a b) {c : HeapObject} (hac : Within a c) (hbc : Within b c) :
    Within (a.or b) c where
  clean := h.dirty_or
  clean' := hac.clean'
  proto := h.proto_or.trans hac.proto
  host := by
    rw [h.host_or]
    rcases hac.host with hc | hc
    · exact Or.inl hc
    · rcases hbc.host with hc' | hc'
      · exact Or.inl hc'
      · refine Or.inr ?_
        rw [if_pos (beq_iff_eq.mpr (hc.symm.trans hc')), hc]
  properties := by
    intro name d hd
    obtain ⟨x, hx, hxd⟩ := hac.properties name d hd
    obtain ⟨y, hy, hyd⟩ := hbc.properties name d hd
    obtain ⟨z, hz, hzd⟩ := Descriptor.or?_of_below hxd hyd
    exact ⟨z, h.get?_or.mpr ⟨x, y, hx, hy, hz⟩, hzd⟩
  knowledge := by
    by_cases hc : c.knowledge = .mayHaveNew
    · rw [hc]
      exact Nat.zero_le _
    · -- then `c` lists all names, and so does the join
      have hall : ∀ name, a.owns name = true ∨ b.owns name = true → (a.or b).owns name = true := by
        intro name hname
        have hcname : c.owns name = true := by
          rcases hname with hname | hname
          · exact hac.complete hc name hname
          · exact hbc.complete hc name hname
        obtain ⟨d, hd⟩ := owns_iff.mp hcname
        obtain ⟨x, hx, hxd⟩ := hac.properties name d hd
        obtain ⟨y, hy, hyd⟩ := hbc.properties name d hd
        obtain ⟨z, hz, -⟩ := Descriptor.or?_of_below hxd hyd
        exact owns_iff.mpr ⟨z, h.get?_or.mpr ⟨x, y, hx, hy, hz⟩⟩
      rw [h.knowledge_of_complete hall, Knowledge.rank_min]
      exact Nat.le_min.mpr ⟨hac.knowledge, hbc.knowledge⟩
  complete := by
    intro hc name hname
    obtain ⟨d, hd⟩ := owns_iff.mp hname
    obtain ⟨x, -, hx, -, -⟩ := h.get?_or.mp hd
    exact hac.complete hc name (owns_iff.mpr ⟨x, hx⟩)

end Comparable

theorem below_or_left (a b : HeapObject) : a.Below (a.or b) := by
  rcases or_cases a b with ⟨-, heq⟩ | hunknown | h
  · rw [heq]
    exact Below.refl a
  · rw [hunknown]
    exact below_unknown a
  · exact Or.inr (Or.inr h.within_or_left)

theorem below_or_right (a b : HeapObject) : b.Below (a.or b) := by
  rcases or_cases a b with ⟨hab, heq⟩ | hunknown | h
  · rw [heq]
    exact below_of_beq (PartialEquivBEq.symm hab)
  · rw [hunknown]
    exact below_unknown b
  · exact Or.inr (Or.inr h.within_or_right)

/-- A join lies below all that lies above both its parts. -/
theorem or_below {a b c : HeapObject} (ha : a.Below c) (hb : b.Below c) : (a.or b).Below c := by
  by_cases hab : (a == b) = true
  · rw [or_of_beq hab]
    exact ha
  · cases hc : c.dirty with
    | true =>
      rcases below_dirty ha hc with hunknown | hac
      · exact Or.inr (Or.inl hunknown)
      · rcases below_dirty hb hc with hunknown | hbc
        · exact Or.inr (Or.inl hunknown)
        · exact absurd (PartialEquivBEq.trans hac (PartialEquivBEq.symm hbc)) hab
    | false =>
      have ha := within_of_below ha hc
      have hb := within_of_below hb hc
      have hcomp : Comparable a b :=
        ⟨by simpa using hab, ha.clean, hb.clean, ha.proto.trans hb.proto.symm⟩
      exact Or.inr (Or.inr (hcomp.or_within ha hb))

theorem or_below_iff {a b c : HeapObject} : (a.or b).Below c ↔ a.Below c ∧ b.Below c :=
  ⟨fun h => ⟨(below_or_left a b).trans h, (below_or_right a b).trans h⟩,
    fun ⟨ha, hb⟩ => or_below ha hb⟩

/-- A version lies below another if and only if joining it changes nothing. -/
theorem below_iff_or_beq {a b : HeapObject} : a.Below b ↔ (a.or b == b) = true := by
  rw [beq_iff_below]
  constructor
  · intro h
    exact ⟨or_below h (Below.refl b), below_or_right a b⟩
  · intro h
    exact (below_or_left a b).trans h.1

/-- Nor does joining what lies below. -/
theorem or_beq_iff_below {a b : HeapObject} : (b.or a == b) = true ↔ a.Below b := by
  rw [beq_iff_below]
  constructor
  · intro h
    exact (below_or_right b a).trans h.1
  · intro h
    exact ⟨or_below (Below.refl b) h, below_or_left b a⟩

/-! ## The laws -/

theorem or_self_beq (a : HeapObject) : (a.or a == a) = true := below_iff_or_beq.mp (Below.refl a)

theorem or_comm_beq (a b : HeapObject) : (a.or b == b.or a) = true :=
  beq_iff_below.mpr ⟨or_below (below_or_right b a) (below_or_left b a),
    or_below (below_or_right a b) (below_or_left a b)⟩

/-- Joins with the same upper bounds are equal. -/
theorem beq_of_below_iff {a b : HeapObject} (h : ∀ c, a.Below c ↔ b.Below c) : (a == b) = true :=
  beq_iff_below.mpr ⟨(h b).mpr (Below.refl b), (h a).mp (Below.refl a)⟩

theorem or_assoc_beq (a b c : HeapObject) : ((a.or b).or c == a.or (b.or c)) = true :=
  beq_of_below_iff fun d => by
    rw [or_below_iff, or_below_iff, or_below_iff, or_below_iff, and_assoc]

theorem or_right_comm_beq (a b c : HeapObject) : ((a.or b).or c == (a.or c).or b) = true :=
  beq_of_below_iff fun d => by
    rw [or_below_iff, or_below_iff, or_below_iff, or_below_iff, and_right_comm]

theorem or_or_self_beq (a b : HeapObject) : ((a.or b).or b == a.or b) = true :=
  beq_of_below_iff fun d => by
    rw [or_below_iff, or_below_iff, and_assoc, and_self]

theorem or_unknown_beq (a : HeapObject) : (a.or unknown == unknown) = true :=
  below_iff_or_beq.mp (below_unknown a)

theorem unknown_or_beq (a : HeapObject) : (unknown.or a == unknown) = true :=
  PartialEquivBEq.trans (or_comm_beq unknown a) (or_unknown_beq a)

end HeapObject

end EsOptimizer
