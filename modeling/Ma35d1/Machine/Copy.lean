import Mathlib.Data.List.Basic
import Mathlib.Logic.Function.Basic

/-!
# Copies into and out of a memory

The memory is a function of a place. `copyTo mem i l` is the memory with the list copied to place
`i` on, and `copyFrom mem i n` the `n` cells from place `i` on. Nothing here depends on what a cell
holds.
-/

namespace Ma35d1.Machine.Copy

variable {α : Type*} {mem : Nat → α} {l l' : List α} {i j k n : Nat}

/-- The list is copied to place `i` on. -/
def copyTo (mem : Nat → α) (i : Nat) (l : List α) : Nat → α := fun k =>
  if i ≤ k then l.getD (k - i) (mem k) else mem k

/-- The `n` cells from place `i` on -/
def copyFrom (mem : Nat → α) (i n : Nat) : List α :=
  (List.range n).map fun j => mem (i + j)

theorem copyTo_add (hj : j < l.length) : copyTo mem i l (i + j) = l[j] := by
  rw [copyTo, if_pos (by omega), Nat.add_sub_cancel_left, List.getD_eq_getElem?_getD,
    List.getElem?_eq_getElem hj, Option.getD_some]

theorem copyTo_of_not (h : ¬ (i ≤ k ∧ k < i + l.length)) : copyTo mem i l k = mem k := by
  rw [copyTo]
  split
  · rw [List.getD_eq_getElem?_getD, List.getElem?_eq_none (by omega), Option.getD_none]
  · rfl

theorem copyTo_nil : copyTo mem i [] = mem :=
  funext fun _ => copyTo_of_not fun h => absurd h.2 (Nat.not_lt.2 h.1)

theorem copyTo_singleton (a : α) : copyTo mem i [a] = Function.update mem i a := by
  funext k
  by_cases hk : k = i
  · subst hk
    rw [Function.update_self]
    exact copyTo_add (l := [a]) (j := 0) Nat.one_pos
  · rw [Function.update_of_ne hk, copyTo_of_not]
    simp only [List.length_singleton]
    omega

/-- What a copy adds to one that ends where it begins -/
theorem copyTo_append (mem : Nat → α) (i : Nat) (l l' : List α) :
    copyTo (copyTo mem i l) (i + l.length) l' = copyTo mem i (l ++ l') := by
  funext x
  by_cases hin : i + l.length ≤ x ∧ x < i + l.length + l'.length
  · obtain ⟨j, rfl⟩ := Nat.exists_eq_add_of_le hin.1
    have hj : j < l'.length := by omega
    have hj' : l.length + j < (l ++ l').length := by rw [List.length_append]; omega
    rw [copyTo_add hj, Nat.add_assoc, copyTo_add hj', List.getElem_append_right (by omega)]
    congr 1
    omega
  · rw [copyTo_of_not hin]
    by_cases hl : i ≤ x ∧ x < i + l.length
    · obtain ⟨j, rfl⟩ := Nat.exists_eq_add_of_le hl.1
      have hj : j < l.length := by omega
      have hj' : j < (l ++ l').length := by rw [List.length_append]; omega
      rw [copyTo_add hj, copyTo_add hj', List.getElem_append_left hj]
    · rw [copyTo_of_not hl, copyTo_of_not]
      rw [List.length_append]
      omega

/-- Copies to places that do not overlap can be swapped. -/
theorem copyTo_comm (h : i + l.length ≤ j) :
    copyTo (copyTo mem j l') i l = copyTo (copyTo mem i l) j l' := by
  funext x
  by_cases hl : i ≤ x ∧ x < i + l.length
  · obtain ⟨k, rfl⟩ := Nat.exists_eq_add_of_le hl.1
    have hk : k < l.length := by omega
    have hout : ¬ (j ≤ i + k ∧ i + k < j + l'.length) := by omega
    rw [copyTo_add hk, copyTo_of_not hout, copyTo_add hk]
  · by_cases hl' : j ≤ x ∧ x < j + l'.length
    · obtain ⟨k, rfl⟩ := Nat.exists_eq_add_of_le hl'.1
      have hk : k < l'.length := by omega
      rw [copyTo_of_not hl, copyTo_add hk, copyTo_add hk]
    · rw [copyTo_of_not hl, copyTo_of_not hl', copyTo_of_not hl', copyTo_of_not hl]

@[simp] theorem length_copyFrom : (copyFrom mem i n).length = n := by
  rw [copyFrom, List.length_map, List.length_range]

theorem getElem_copyFrom (hj : j < (copyFrom mem i n).length) :
    (copyFrom mem i n)[j] = mem (i + j) := by
  simp [copyFrom]

/-- What was copied to a place is found there. -/
theorem copyFrom_copyTo (h : l.length = n) : copyFrom (copyTo mem i l) i n = l := by
  subst h
  refine List.ext_getElem length_copyFrom fun j hj hj' => ?_
  rw [getElem_copyFrom, copyTo_add hj']

/-- A copy does not touch what stands beside it. -/
theorem copyFrom_copyTo_of_disjoint (h : j + n ≤ i ∨ i + l.length ≤ j) :
    copyFrom (copyTo mem i l) j n = copyFrom mem j n := by
  refine List.map_congr_left fun k hk => ?_
  have hk := List.mem_range.mp hk
  rw [copyTo_of_not (by omega)]

theorem copyFrom_add (n k : Nat) :
    copyFrom mem i (n + k) = copyFrom mem i n ++ copyFrom mem (i + n) k := by
  simp only [copyFrom, List.range_add, List.map_append, List.map_map]
  congr 1
  refine List.map_congr_left fun j _ => ?_
  rw [Function.comp_apply, Nat.add_assoc]

theorem copyFrom_eq_iff {mem' : Nat → α} :
    copyFrom mem' i n = copyFrom mem i n ↔ ∀ j < n, mem' (i + j) = mem (i + j) := by
  simp only [copyFrom, List.map_inj_left, List.mem_range]

theorem copyFrom_succ : copyFrom mem i (n + 1) = mem i :: copyFrom mem (i + 1) n := by
  rw [Nat.add_comm n 1, copyFrom_add]
  rfl

theorem take_copyFrom (h : n ≤ k) : (copyFrom mem i k).take n = copyFrom mem i n := by
  obtain ⟨j, rfl⟩ := Nat.exists_eq_add_of_le h
  rw [copyFrom_add, List.take_left' length_copyFrom]

end Ma35d1.Machine.Copy
