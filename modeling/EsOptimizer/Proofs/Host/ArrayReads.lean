import EsOptimizer.Host.Call
import EsOptimizer.Proofs.Value.Union

/-!
# Searching and joining arrays

What `join` gives for an array of primitive values is what the loop of the language definition
computes (`callArray_join`). So is what `indexOf` gives for a search from the first element on
(`callArray_indexOf`). The second argument, which names the index to start at, is not read: the
result is right exactly if what is searched for does not stand in front of that index
(`searchFrom_eq_zero_iff`, `callArray_indexOf_of_unmatched`).
-/

namespace EsOptimizer

namespace Native

/-! ## Joining -/

/-- The loop of `join` after the first element. -/
def joinLoop (sep : String) (acc : String) : List Primitive → String
  | [] => acc
  | p :: rest => joinLoop sep (acc ++ sep ++ joinText p) rest

/-- What `join` gives for an array of primitive values. -/
def joined (sep : String) : List Primitive → String
  | [] => ""
  | p :: rest => joinLoop sep (joinText p) rest

/-- The text between the elements: a comma, unless another is asked for. -/
def separator (args : List Primitive) : String :=
  if arg args 0 = .undefined then "," else (arg args 0).toText

/-- What the loop has so far stays in front. -/
theorem joinLoop_append (sep s t : String) (ps : List Primitive) :
    joinLoop sep (s ++ t) ps = s ++ joinLoop sep t ps := by
  induction ps generalizing t with
  | nil => rfl
  | cons p rest ih =>
    rw [joinLoop, joinLoop, String.append_assoc, String.append_assoc, ih, String.append_assoc]

theorem intercalate_eq_joined (sep : String) (ps : List Primitive) :
    sep.intercalate (ps.map joinText) = joined sep ps := by
  induction ps with
  | nil => exact String.intercalate_nil
  | cons p rest ih =>
    cases rest with
    | nil => exact String.intercalate_singleton
    | cons q rest =>
      calc sep.intercalate (joinText p :: joinText q :: rest.map joinText)
          = joinText p ++ sep ++ sep.intercalate ((q :: rest).map joinText) :=
            String.intercalate_cons_cons
        _ = joinText p ++ sep ++ joinLoop sep (joinText q) rest := by rw [ih, joined]
        _ = joined sep (p :: q :: rest) := by rw [joined, joinLoop, joinLoop_append]

theorem separator?_ofPrimitive (args : List Primitive) :
    separator? (args.map .ofPrimitive) = some (separator args) := by
  cases args with
  | nil => rfl
  | cons p rest => rfl

theorem mapM_primitive?_ofPrimitive (ps : List Primitive) :
    (ps.map Value.ofPrimitive).mapM Value.primitive? = some ps := by
  induction ps with
  | nil => rfl
  | cons p rest ih =>
    rw [List.map_cons, List.mapM_cons, ih]
    rfl

theorem callArray_join (ps args : List Primitive) :
    callArray .arrayJoin (ps.map .ofPrimitive) (args.map .ofPrimitive) =
      some (ps.map .ofPrimitive, .value (.string (joined (separator args) ps))) := by
  simp only [callArray, separator?_ofPrimitive, mapM_primitive?_ofPrimitive,
    ← intercalate_eq_joined]
  rfl

/-! ## Searching -/

/-- The loop of `indexOf` from the index `k` on. -/
def searchFrom (ps : List Primitive) (search : Primitive) (k : Nat) : Option Nat :=
  if h : k < ps.length then
    if ps[k].strictEquals search then some k else searchFrom ps search (k + 1)
  else none
termination_by ps.length - k

/-- Where `indexOf` starts: at the second argument, from the end if it is negative. -/
def searchStart (args : List Primitive) (len : Nat) : Nat := relativeIndex (arg args 1) len 0

theorem searchFrom_eq_findIdx? (ps : List Primitive) (search : Primitive) (k : Nat) :
    searchFrom ps search k = ((ps.drop k).findIdx? (·.strictEquals search)).map (· + k) := by
  fun_induction searchFrom ps search k with
  | case1 k hk hmatch =>
    rw [List.drop_eq_getElem_cons hk, List.findIdx?_cons, if_pos hmatch, Option.map_some,
      Nat.zero_add]
  | case2 k hk hmatch ih =>
    rw [ih, List.drop_eq_getElem_cons hk, List.findIdx?_cons, if_neg hmatch, Option.map_map]
    congr 1
    funext i
    exact Nat.add_right_comm i k 1
  | case3 k hk => rw [List.drop_of_length_le (Nat.not_lt.mp hk)]; rfl

/-- Starting behind some elements changes nothing exactly if none of them is what is searched
for. -/
theorem searchFrom_eq_zero_iff (ps : List Primitive) (search : Primitive) (k : Nat) :
    searchFrom ps search k = searchFrom ps search 0 ↔
      ∀ p ∈ ps.take k, p.strictEquals search = false := by
  have hall : ps.findIdx? (·.strictEquals search) =
      ((ps.take k).findIdx? (·.strictEquals search)).or
        (((ps.drop k).findIdx? (·.strictEquals search)).map (· + (ps.take k).length)) := by
    rw [← List.findIdx?_append, List.take_append_drop]
  rw [searchFrom_eq_findIdx? ps search 0, searchFrom_eq_findIdx? ps search k, List.drop_zero, hall,
    ← List.findIdx?_eq_none_iff]
  cases hfront : (ps.take k).findIdx? (·.strictEquals search) with
  | none =>
    rcases Nat.le_total k ps.length with hk | hk
    · simp [List.length_take_of_le hk, Function.comp_def]
    · simp [List.drop_of_length_le hk]
  | some i =>
    -- The match in front has a lesser index than all that are found from `k` on.
    have hi : i < k :=
      Nat.lt_of_lt_of_le (List.findIdx?_eq_some_iff_findIdx_eq.mp hfront).1
        (List.length_take_le k ps)
    refine iff_of_false (fun h => ?_) (Option.some_ne_none i)
    rw [Option.some_or] at h
    obtain ⟨j, -, hj⟩ := Option.map_eq_some_iff.mp h
    have hj : j + k = i := hj
    omega

theorem callArray_indexOf (ps args : List Primitive) :
    callArray .arrayIndexOf (ps.map .ofPrimitive) (args.map .ofPrimitive) =
      some (ps.map .ofPrimitive,
        .value (.number (indexOrMinusOne (searchFrom ps (arg args 0) 0)))) := by
  have hsearch : ((args.map Value.ofPrimitive).head?.getD .undefined).primitive? =
      some (arg args 0) := by
    cases args <;> rfl
  simp only [callArray, hsearch, mapM_primitive?_ofPrimitive, searchFrom_eq_findIdx? ps _ 0,
    List.drop_zero]
  simp

/-- What `indexOf` gives is right if nothing in front of the index to start at equals what is
searched for. -/
theorem callArray_indexOf_of_unmatched (ps args : List Primitive)
    (h : ∀ p ∈ ps.take (searchStart args ps.length), p.strictEquals (arg args 0) = false) :
    callArray .arrayIndexOf (ps.map .ofPrimitive) (args.map .ofPrimitive) =
      some (ps.map .ofPrimitive, .value (.number
        (indexOrMinusOne (searchFrom ps (arg args 0) (searchStart args ps.length))))) := by
  rw [callArray_indexOf, (searchFrom_eq_zero_iff ps _ _).mpr h]

end Native

end EsOptimizer
