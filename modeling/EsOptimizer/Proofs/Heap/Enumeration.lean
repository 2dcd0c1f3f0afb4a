import EsOptimizer.Heap.Query
import EsOptimizer.Proofs.Heap.Answers
import Mathlib.Data.Nat.Digits.Defs
import Mathlib.Data.List.Nodup

/-!
# What a joined object enumerates

A join that can be enumerated gave up no name, so both its parts enumerate the same names. It has
the order of the left part. Indices come first and in ascending order whatever the parts look like,
and different indices have different names (`arrayIndex?_injective`). The other names come in the
order in which they were added, and two parts may differ in that: they have the same order if those
names have it (`keys?_or`).
-/

namespace EsOptimizer

/-! ## Indices -/

namespace Number

/-- The value of a decimal digit. -/
def digitValue (c : Char) : Nat := c.toNat - '0'.toNat

theorem isDigit_iff {c : Char} : isDigit c = true ↔ 48 ≤ c.toNat ∧ c.toNat ≤ 57 := by
  rw [isDigit, Bool.and_eq_true, decide_eq_true_eq, decide_eq_true_eq]
  exact Iff.rfl

theorem digitValue_lt {c : Char} (h : isDigit c = true) : digitValue c < 10 := by
  have h := isDigit_iff.mp h
  change c.toNat - 48 < 10
  omega

theorem digitChar_digitValue {c : Char} (h : isDigit c = true) : digitChar (digitValue c) = c := by
  have h := isDigit_iff.mp h
  have hvalue : '0'.toNat + digitValue c = c.toNat := by
    change 48 + (c.toNat - 48) = c.toNat
    omega
  rw [digitChar, hvalue, Char.ofNat_toNat]

theorem natOfDigits_eq (cs : List Char) :
    natOfDigits cs = Nat.ofDigits 10 (cs.reverse.map digitValue) := by
  have h : ∀ (cs : List Char) (n : Nat),
      cs.foldl (fun acc c => acc * 10 + (c.toNat - '0'.toNat)) n =
        Nat.ofDigits 10 (cs.reverse.map digitValue) + 10 ^ cs.length * n := by
    intro cs
    induction cs with
    | nil => simp
    | cons c cs ih =>
      intro n
      rw [List.foldl_cons, ih, List.reverse_cons, List.map_append, Nat.ofDigits_append]
      simp [digitValue, Nat.pow_succ]
      ring
  simpa [natOfDigits] using h cs 0

/-- The digits that a number was read from, the last one first, unless there were leading zeros. -/
theorem digits_natOfDigits {cs : List Char} (hcs : cs.all isDigit = true)
    (hhead : cs.head? ≠ some '0') : Nat.digits 10 (natOfDigits cs) = cs.reverse.map digitValue := by
  have hdigit := List.all_eq_true.mp hcs
  rw [natOfDigits_eq]
  refine Nat.digits_ofDigits 10 (by decide) _ (fun d hd => ?_) (fun hne => ?_)
  · obtain ⟨c, hc, rfl⟩ := List.mem_map.mp hd
    exact digitValue_lt (hdigit c (List.mem_reverse.mp hc))
  · cases cs with
    | nil => exact absurd rfl hne
    | cons c cs =>
      simp only [List.reverse_cons, List.map_append, List.map_cons, List.map_nil,
        List.getLast_append_singleton]
      intro hzero
      have hc := digitChar_digitValue (hdigit c List.mem_cons_self)
      rw [hzero] at hc
      exact hhead (congrArg some hc.symm)

/-- So they can be told from the number. -/
theorem eq_of_natOfDigits {cs : List Char} (hcs : cs.all isDigit = true)
    (hhead : cs.head? ≠ some '0') :
    cs = ((Nat.digits 10 (natOfDigits cs)).map digitChar).reverse := by
  have hdigit := List.all_eq_true.mp hcs
  have hback : ((cs.reverse.map digitValue).map digitChar) = cs.reverse := by
    rw [List.map_map]
    exact (List.map_congr_left fun c hc =>
      digitChar_digitValue (hdigit c (List.mem_reverse.mp hc))).trans (List.map_id' _)
  rw [digits_natOfDigits hcs hhead, hback, List.reverse_reverse]

end Number

/-- An index is spelled as zero or without a leading zero. -/
theorem arrayIndex?_eq_some {name : String} {i : Nat} (h : arrayIndex? name = some i) :
    (name = "0" ∧ i = 0) ∨ (i ≠ 0 ∧ name.toList.all Number.isDigit = true ∧
      name.toList.head? ≠ some '0' ∧ i = Number.natOfDigits name.toList) := by
  unfold arrayIndex? at h
  dsimp only at h
  split at h
  · cases h
  · rename_i hspelled
    simp only [Bool.or_eq_true, Bool.and_eq_true, not_or, not_and, Bool.not_eq_true,
      Bool.not_eq_true', Bool.not_eq_false, decide_eq_true_eq, beq_iff_eq] at hspelled
    obtain ⟨⟨hne, hdigits⟩, hzero⟩ := hspelled
    split at h
    · cases h
      by_cases hhead : name.toList.head? = some '0'
      · refine Or.inl ?_
        have hname : name.toList = ['0'] := by
          obtain ⟨rest, hcs⟩ := List.head?_eq_some_iff.mp hhead
          have hlength : ¬name.toList.length > 1 := fun hlong => hzero hlong hhead
          rw [hcs, List.length_cons] at hlength
          have hrest : rest = [] := List.eq_nil_of_length_eq_zero (by omega)
          rw [hcs, hrest]
        exact ⟨String.toList_inj.mp hname, by rw [hname]; rfl⟩
      · refine Or.inr ⟨fun h0 => ?_, hdigits, hhead, rfl⟩
        have hempty := Number.eq_of_natOfDigits hdigits hhead
        rw [h0, Nat.digits_zero] at hempty
        rw [hempty] at hne
        cases hne
    · cases h

theorem arrayIndex?_injective {name other : String} {i : Nat} (h : arrayIndex? name = some i)
    (h' : arrayIndex? other = some i) : name = other := by
  rcases arrayIndex?_eq_some h with ⟨hname, hi⟩ | ⟨hi, hdigits, hhead, heq⟩
  · rcases arrayIndex?_eq_some h' with ⟨hother, -⟩ | ⟨hi', -⟩
    · rw [hname, hother]
    · exact absurd hi hi'
  · rcases arrayIndex?_eq_some h' with ⟨-, hi'⟩ | ⟨-, hdigits', hhead', heq'⟩
    · exact absurd hi' hi
    · rw [← String.toList_inj, Number.eq_of_natOfDigits hdigits hhead,
        Number.eq_of_natOfDigits hdigits' hhead', ← heq, ← heq']

namespace HeapObject

/-! ## The names of an object's own -/

/-- The names of the enumerable properties, in the order in which they were added. -/
def enumerated (o : HeapObject) : List String :=
  (o.properties.filter fun p => p.2.enumerable).map (·.1)

/-- Those that are no indices. -/
def namedKeys (o : HeapObject) : List String :=
  o.enumerated.filter fun k => (arrayIndex? k).isNone

/-- The indices among a list of names, in ascending order. -/
def sortedIndices (keys : List String) : List (Nat × String) :=
  (keys.filterMap fun k => (arrayIndex? k).map fun i => (i, k)).mergeSort fun a b => a.1 ≤ b.1

theorem ownKeys_eq (o : HeapObject) :
    o.ownKeys = (sortedIndices o.enumerated).map (·.2) ++ o.namedKeys := rfl

theorem enumerated_nodup (o : HeapObject) : o.enumerated.Nodup := o.distinct.filter _

theorem mem_enumerated {o : HeapObject} {name : String} :
    name ∈ o.enumerated ↔ ∃ d, o.get? name = some d ∧ d.enumerable = true := by
  simp only [enumerated, List.mem_map, List.mem_filter]
  constructor
  · rintro ⟨p, ⟨hp, henum⟩, rfl⟩
    exact ⟨p.2, (Properties.lookup_eq_some_iff o.distinct).mpr hp, henum⟩
  · rintro ⟨d, hd, henum⟩
    exact ⟨(name, d), ⟨(Properties.lookup_eq_some_iff o.distinct).mp hd, henum⟩, rfl⟩

theorem sortedIndices_sorted (keys : List String) :
    (sortedIndices keys).Pairwise fun a b => a.1 ≤ b.1 := by
  have htrans (a b c : Nat × String) (hab : decide (a.1 ≤ b.1) = true)
      (hbc : decide (b.1 ≤ c.1) = true) : decide (a.1 ≤ c.1) = true :=
    decide_eq_true (Nat.le_trans (of_decide_eq_true hab) (of_decide_eq_true hbc))
  have htotal (a b : Nat × String) : (decide (a.1 ≤ b.1) || decide (b.1 ≤ a.1)) = true := by
    simp only [Bool.or_eq_true, decide_eq_true_eq]
    exact Nat.le_total _ _
  have h := List.pairwise_mergeSort htrans htotal
    (keys.filterMap fun k => (arrayIndex? k).map fun i => (i, k))
  simpa only [sortedIndices, decide_eq_true_eq] using h

theorem arrayIndex?_of_mem_sortedIndices {keys : List String} {e : Nat × String}
    (h : e ∈ sortedIndices keys) : arrayIndex? e.2 = some e.1 := by
  rw [sortedIndices, List.mem_mergeSort, List.mem_filterMap] at h
  obtain ⟨k, -, hk⟩ := h
  obtain ⟨i, hi, rfl⟩ := Option.map_eq_some_iff.mp hk
  exact hi

/-- The order in which names were added has no influence on their order as indices. -/
theorem sortedIndices_eq {keys keys' : List String} (h : keys.Perm keys') :
    sortedIndices keys = sortedIndices keys' := by
  have hperm : (sortedIndices keys).Perm (sortedIndices keys') :=
    (List.mergeSort_perm _ _).trans ((h.filterMap _).trans (List.mergeSort_perm _ _).symm)
  refine hperm.eq_of_pairwise ?_ (sortedIndices_sorted keys) (sortedIndices_sorted keys')
  intro a b ha hb hab hba
  have hindex : a.1 = b.1 := Nat.le_antisymm hab hba
  have ha := arrayIndex?_of_mem_sortedIndices ha
  have hb := arrayIndex?_of_mem_sortedIndices hb
  exact Prod.ext hindex (arrayIndex?_injective ha (hindex ▸ hb))

theorem ownKeys_perm {a b : HeapObject} (h : a.enumerated.Perm b.enumerated) :
    a.ownKeys.Perm b.ownKeys := by
  rw [ownKeys_eq, ownKeys_eq, sortedIndices_eq h]
  exact (h.filter _).append_left _

theorem ownKeys_congr {a b : HeapObject} (h : a.enumerated.Perm b.enumerated)
    (hnamed : a.namedKeys = b.namedKeys) : a.ownKeys = b.ownKeys := by
  rw [ownKeys_eq, ownKeys_eq, sortedIndices_eq h, hnamed]

/-! ## Versions -/

section

variable {a b : HeapObject} {heap : Heap}

/-- Versions that are known well enough to be enumerated have the same names. -/
theorem Within.enumerated_perm (h : Within a b) (hb : b.knowledge ≠ .mayHaveNew) :
    a.enumerated.Perm b.enumerated := by
  refine (List.perm_ext_iff_of_nodup a.enumerated_nodup b.enumerated_nodup).mpr fun name => ?_
  rw [mem_enumerated, mem_enumerated]
  constructor
  · rintro ⟨c, hc, henum⟩
    obtain ⟨d, hd⟩ := owns_iff.mp (h.complete hb name (owns_iff.mpr ⟨c, hc⟩))
    obtain ⟨c', hc', hbelow⟩ := h.properties name d hd
    cases hc.symm.trans hc'
    exact ⟨d, hd, (Descriptor.sameFlags_iff.mp hbelow.flags).1 ▸ henum⟩
  · rintro ⟨d, hd, henum⟩
    obtain ⟨c, hc, hbelow⟩ := h.properties name d hd
    exact ⟨c, hc, (Descriptor.sameFlags_iff.mp hbelow.flags).1.trans henum⟩

/-- An object that can be enumerated is known well enough. -/
theorem knowledge_of_keysWithin {n : Nat} {keys : List String}
    (h : keysWithin heap n b = some keys) : b.knowledge ≠ .mayHaveNew := by
  cases n with
  | zero => cases h
  | succ n =>
    intro hk
    rw [keysWithin, hk] at h
    simp [Knowledge.rank] at h

theorem clean_of_keysWithin {n : Nat} {keys : List String}
    (h : keysWithin heap n b = some keys) : b.dirty = false := by
  cases n with
  | zero => cases h
  | succ n =>
    cases hd : b.dirty with
    | false => rfl
    | true =>
      rw [keysWithin, isTrusted, hd] at h
      cases h

/-- What is enumerated of an object, given the names that its prototype has. -/
theorem Within.keysWithin_perm (h : Within a b) (hhost : a.host = b.host) {n : Nat}
    {keys : List String} (hkeys : keysWithin heap n b = some keys) :
    ∃ keys', keysWithin heap n a = some keys' ∧ keys'.Perm keys ∧
      (a.namedKeys = b.namedKeys → keys' = keys) := by
  have hknown := knowledge_of_keysWithin hkeys
  have hperm := h.enumerated_perm hknown
  cases n with
  | zero => cases hkeys
  | succ n =>
    rw [keysWithin] at hkeys ⊢
    split at hkeys
    · cases hkeys
    · rename_i hopen
      have hopen' : ¬(!a.isTrusted heap ||
          a.knowledge.rank < Knowledge.noUnknownOverrideOrEnumerable.rank) = true := by
        have hrank := h.knowledge
        simp only [Bool.or_eq_true, decide_eq_true_eq, not_or, not_lt] at hopen ⊢
        exact ⟨h.isTrusted_eq hhost ▸ hopen.1, hopen.2.trans hrank⟩
      rw [if_neg hopen', h.proto]
      cases hproto : b.proto with
      | none =>
        rw [hproto] at hkeys
        cases hkeys
        exact ⟨a.ownKeys, rfl, ownKeys_perm hperm, ownKeys_congr hperm⟩
      | some proto =>
        rw [hproto] at hkeys
        obtain ⟨inherited, hinherited, rfl⟩ := Option.map_eq_some_iff.mp hkeys
        refine ⟨a.ownKeys ++ inherited.filter fun k => !a.owns k, ?_, ?_, fun hnamed => ?_⟩
        · simp only [hinherited, Option.map_some]
        · rw [funext (h.owns_eq hknown)]
          exact (ownKeys_perm hperm).append_right _
        · rw [funext (h.owns_eq hknown), ownKeys_congr hperm hnamed]

end

/-! ## Joins -/

/-- Giving each property another value leaves the names as they are. -/
theorem enumerated_filterMap {ps : Properties} {f : String × Descriptor → Option (String × Descriptor)}
    (hf : ∀ p ∈ ps, ∃ d, f p = some (p.1, d) ∧ d.enumerable = p.2.enumerable) :
    (((ps.filterMap f).filter fun p => p.2.enumerable).map (·.1)) =
      (ps.filter fun p => p.2.enumerable).map (·.1) := by
  induction ps with
  | nil => rfl
  | cons p rest ih =>
    obtain ⟨d, hd, henum⟩ := hf p List.mem_cons_self
    have ih := ih fun q hq => hf q (List.mem_cons_of_mem p hq)
    rw [List.filterMap_cons_some hd, List.filter_cons, List.filter_cons, henum]
    split
    · rw [List.map_cons, List.map_cons, ih]
    · exact ih

/-- A join that gave up no property has the order of its left part. -/
theorem Comparable.enumerated_or {a b : HeapObject} (h : Comparable a b)
    (hknown : (a.or b).knowledge ≠ .mayHaveNew) : (a.or b).enumerated = a.enumerated := by
  have hproperties := congrArg properties h.or_eq
  dsimp only at hproperties
  rw [enumerated, hproperties]
  refine enumerated_filterMap fun p hp => ?_
  have hown := (Properties.lookup_eq_some_iff a.distinct).mpr hp
  obtain ⟨d, hd⟩ := owns_iff.mp (h.owns_or hknown (Or.inl (owns_iff.mpr ⟨p.2, hown⟩)))
  obtain ⟨c, e, hc, he, hor⟩ := h.get?_or.mp hd
  cases hown.symm.trans hc
  have hflags := (Descriptor.below_of_or? hor).1.flags
  exact ⟨d, by rw [he, Option.bind_some, hor, Option.map_some],
    (Descriptor.sameFlags_iff.mp hflags).1.symm⟩

theorem enumerated_or {a b : HeapObject} (hknown : (a.or b).knowledge ≠ .mayHaveNew) :
    (a.or b).enumerated = a.enumerated := by
  rcases or_cases a b with ⟨-, heq⟩ | hunknown | h
  · rw [heq]
  · exact absurd (congrArg knowledge hunknown) hknown
  · exact h.enumerated_or hknown

/-- What is enumerated of a join is what is enumerated of its left part. Of its right part the same
names are enumerated, indices first and in ascending order; the others are in the same order if they
were added in the same order. -/
theorem keys?_or {a b : HeapObject} (hhost : a.host = b.host) {heap : Heap} {keys : List String}
    (h : (a.or b).keys? heap = some keys) :
    a.keys? heap = some keys ∧
      ∃ keys', b.keys? heap = some keys' ∧ keys'.Perm keys ∧
        (b.namedKeys = a.namedKeys → keys' = keys) := by
  have hknown := knowledge_of_keysWithin h
  have hclean := clean_of_keysWithin h
  have hhosta := host_eq_or hhost hclean
  have hnamed : (a.or b).namedKeys = a.namedKeys := by
    rw [namedKeys, enumerated_or hknown, namedKeys]
  have hleft := within_of_below (below_or_left a b) hclean
  have hright := within_of_below (below_or_right a b) hclean
  obtain ⟨keysa, ha, -, heq⟩ := hleft.keysWithin_perm hhosta h
  obtain ⟨keysb, hb, hperm, heqb⟩ := hright.keysWithin_perm (hhost.symm.trans hhosta) h
  rw [heq hnamed.symm] at ha
  exact ⟨ha, keysb, hb, hperm, fun hsame => heqb (hsame.trans hnamed.symm)⟩

/-- Joined versions that added the same properties in different orders: a loop visits the right one
in another order than the join. -/
example :
    let base := empty none .knowsAll
    let a := (base.insert "x" (.data .null)).insert "y" (.data .undefined)
    let b := (base.insert "y" (.data .undefined)).insert "x" (.data .null)
    let heap : Heap := ⟨fun _ => unknown, true⟩
    (a.or b).keys? heap = some ["x", "y"] ∧ b.keys? heap = some ["y", "x"] := by
  decide +kernel

end HeapObject

end EsOptimizer
