import EsOptimizer.Flow.State
import Std.Data.TreeMap.Lemmas
import Std.Data.TreeSet.Lemmas

/-!
# Maps, entry by entry

Merges go through the entries of ordered maps. No two of those have the same key, so that what a fold
over them makes of one key is what the step for that key makes of it (`foldl_at`): for the entries of
one map (`foldl_toList_at`) and for the keys of two (`foldl_eitherKey_at`).

`GrowsBy` compares maps: each entry of one is still in the other, or a greater one.
-/

namespace EsOptimizer

/-! ## Growing maps -/

/-- Every entry of `a` is still there in `b`, or a greater one. -/
def GrowsBy {κ β : Type} [Ord κ] (R : β → β → Prop) (a b : Std.TreeMap κ β) : Prop :=
  ∀ (k : κ) (x : β), a[k]? = some x → ∃ y : β, b[k]? = some y ∧ R x y

namespace GrowsBy

variable {κ β : Type} [Ord κ] {R : β → β → Prop}

theorem refl (hR : ∀ x, R x x) (a : Std.TreeMap κ β) : GrowsBy R a a := fun _ x h => ⟨x, h, hR x⟩

theorem trans (hR : ∀ x y z, R x y → R y z → R x z) {a b c : Std.TreeMap κ β}
    (hab : GrowsBy R a b) (hbc : GrowsBy R b c) : GrowsBy R a c := by
  intro k x hx
  obtain ⟨y, hy, hxy⟩ := hab k x hx
  obtain ⟨z, hz, hyz⟩ := hbc k y hy
  exact ⟨z, hz, hR x y z hxy hyz⟩

theorem insert [Std.TransOrd κ] [Std.LawfulEqOrd κ] (hR : ∀ x, R x x) {m : Std.TreeMap κ β} {k : κ}
    {x : β} (h : ∀ old, m[k]? = some old → R old x) : GrowsBy R m (m.insert k x) := by
  intro l y hy
  rw [Std.TreeMap.getElem?_insert]
  by_cases hkl : k = l
  · subst hkl
    exact ⟨x, by rw [if_pos Std.ReflCmp.compare_self], h y hy⟩
  · refine ⟨y, ?_, hR y⟩
    rw [if_neg fun hc => hkl (Std.LawfulEqCmp.eq_of_compare hc)]
    exact hy

/-- A map whose entries are joins grows on both sides. -/
theorem of_merge {f : β → β → β} (hl : ∀ x y, R x (f x y)) (hr : ∀ x y, R y (f x y))
    (hR : ∀ x, R x x) {a b m : Std.TreeMap κ β}
    (h : ∀ k : κ, m[k]? = Option.merge f a[k]? b[k]?) :
    GrowsBy R a m ∧ GrowsBy R b m := by
  constructor
  · intro k x hx
    rw [h, hx]
    cases b[k]? with
    | none => exact ⟨x, rfl, hR x⟩
    | some y => exact ⟨_, rfl, hl x y⟩
  · intro k y hy
    rw [h, hy]
    cases a[k]? with
    | none => exact ⟨y, rfl, hR y⟩
    | some x => exact ⟨_, rfl, hr x y⟩

end GrowsBy

/-! ## Keys -/

section Keys

variable {κ β : Type} [Ord κ] [Std.TransOrd κ]

theorem nodup_keys_toList (m : Std.TreeMap κ β) : (m.toList.map (·.1)).Nodup := by
  rw [List.Nodup, List.pairwise_map]
  exact Std.TreeMap.distinct_keys_toList.imp fun h heq => h (by rw [heq]; exact Std.ReflCmp.compare_self)

theorem nodup_eitherKey (a b : Std.TreeMap κ β) : (State.eitherKey a b).Nodup :=
  Std.TreeSet.distinct_toList.imp fun h heq => h (by rw [heq]; exact Std.ReflCmp.compare_self)

variable [Std.LawfulEqOrd κ]

theorem mem_eitherKey [BEq κ] [Std.LawfulBEqOrd κ] [LawfulBEq κ] {a b : Std.TreeMap κ β} {v : κ} :
    v ∈ State.eitherKey a b ↔ a[v]?.isSome ∨ b[v]?.isSome := by
  rw [State.eitherKey, Std.TreeSet.mem_toList, Std.TreeSet.mem_insertMany_list,
    Std.TreeSet.mem_ofList]
  simp only [List.contains_iff_mem, Std.TreeMap.mem_keys, Std.TreeMap.mem_iff_isSome_getElem?]

theorem getElem?_insert_of_key [DecidableEq κ] {m : Std.TreeMap κ β} {k l : κ} {x : β} :
    (m.insert k x)[l]? = if k = l then some x else m[l]? := by
  rw [Std.TreeMap.getElem?_insert]
  simp only [Std.LawfulEqCmp.compare_eq_iff_eq]

end Keys

/-! ## Folds over distinct keys -/

section Folds

variable {σ α κ β : Type} [DecidableEq κ] (seen : σ → κ → β)

/-- Steps that are each about one key, no two about the same: what is seen at a key afterwards is what
its own step makes of what was seen there before. -/
theorem foldl_at (key : α → κ) {g : σ → α → σ} {F : α → β → β}
    (h : ∀ s a k, seen (g s a) k = if key a = k then F a (seen s k) else seen s k)
    {items : List α} (hd : (items.map key).Nodup) (s : σ) (k : κ) :
    (∀ a ∈ items, key a = k → seen (items.foldl g s) k = F a (seen s k)) ∧
      ((∀ a ∈ items, key a ≠ k) → seen (items.foldl g s) k = seen s k) := by
  induction items generalizing s with
  | nil => exact ⟨fun a ha => (nomatch ha), fun _ => rfl⟩
  | cons b rest ih =>
    rw [List.map_cons, List.nodup_cons] at hd
    obtain ⟨hone, hnone⟩ := ih hd.2 (g s b)
    constructor
    · intro a ha hak
      rcases List.mem_cons.mp ha with rfl | ha
      · have hne : ∀ c ∈ rest, key c ≠ k := fun c hc hck =>
          hd.1 (List.mem_map.mpr ⟨c, hc, hck.trans hak.symm⟩)
        rw [List.foldl_cons, hnone hne, h, if_pos hak]
      · have hne : key b ≠ k := fun hbk =>
          hd.1 (List.mem_map.mpr ⟨a, ha, hak.trans hbk.symm⟩)
        rw [List.foldl_cons, hone a ha hak, h, if_neg hne]
    · intro hne
      rw [List.foldl_cons, hnone fun a ha => hne a (List.mem_cons_of_mem _ ha), h,
        if_neg (hne b List.mem_cons_self)]

variable [Ord κ] [Std.TransOrd κ] [Std.LawfulEqOrd κ]

/-- One step for each entry of a map whose key passes a test. -/
theorem foldl_filter_toList_at {γ : Type} (m : Std.TreeMap κ γ) (test : κ → Bool)
    {g : σ → κ × γ → σ} {F : κ → γ → β → β}
    (h : ∀ s e k, seen (g s e) k = if e.1 = k then F e.1 e.2 (seen s k) else seen s k)
    (s : σ) (k : κ) : seen ((m.toList.filter (test ·.1)).foldl g s) k =
      if test k then m[k]?.elim (seen s k) (F k · (seen s k)) else seen s k := by
  have hmem (x : γ) : (k, x) ∈ m.toList.filter (test ·.1) ↔ m[k]? = some x ∧ test k = true := by
    rw [List.mem_filter, Std.TreeMap.mem_toList_iff_getElem?_eq_some]
  obtain ⟨hone, hnone⟩ := foldl_at seen Prod.fst (F := fun e => F e.1 e.2) h
    ((nodup_keys_toList m).sublist (List.filter_sublist.map _)) s k
  split
  · rename_i htest
    cases hx : m[k]? with
    | some x => exact hone (k, x) ((hmem x).mpr ⟨hx, htest⟩) rfl
    | none =>
      refine hnone fun e he hek => ?_
      have := ((hmem e.2).mp (by rwa [← hek])).1
      rw [hx] at this
      cases this
  · rename_i htest
    exact hnone fun e he hek => htest ((hmem e.2).mp (by rwa [← hek])).2

/-- One step for each entry of a map. -/
theorem foldl_toList_at {γ : Type} (m : Std.TreeMap κ γ) {g : σ → κ × γ → σ} {F : κ → γ → β → β}
    (h : ∀ s e k, seen (g s e) k = if e.1 = k then F e.1 e.2 (seen s k) else seen s k)
    (s : σ) (k : κ) :
    seen (m.toList.foldl g s) k = m[k]?.elim (seen s k) (F k · (seen s k)) := by
  have hall := foldl_filter_toList_at seen m (fun _ => true) h s k
  rwa [List.filter_eq_self.mpr fun _ _ => rfl, if_pos rfl] at hall

/-- One step for each key of two maps. -/
theorem foldl_eitherKey_at {γ : Type} [BEq κ] [Std.LawfulBEqOrd κ] [LawfulBEq κ]
    (a b : Std.TreeMap κ γ) {g : σ → κ → σ} {F : κ → β → β}
    (h : ∀ s l k, seen (g s l) k = if l = k then F l (seen s k) else seen s k) (s : σ) (k : κ) :
    seen ((State.eitherKey a b).foldl g s) k =
      if a[k]?.isSome ∨ b[k]?.isSome then F k (seen s k) else seen s k := by
  obtain ⟨hone, hnone⟩ := foldl_at seen id h (by rw [List.map_id]; exact nodup_eitherKey a b) s k
  split
  · rename_i hkey
    exact hone k (mem_eitherKey.mpr hkey) rfl
  · rename_i hkey
    exact hnone fun l hl hlk => hkey (mem_eitherKey.mp (by rwa [← show l = k from hlk]))

end Folds

end EsOptimizer
