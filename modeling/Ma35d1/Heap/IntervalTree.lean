import Mathlib.Algebra.GroupWithZero.Nat
import Mathlib.Data.List.Perm.Subperm
import Mathlib.Logic.Function.Basic

/-!
# Interval trees

A periodic schedule of a power of two slots. There is one list for each interval `2^i`,
behind a head of its own; each list goes on into the one of half its interval, and the
slot `idx` leads to the head of the largest interval that divides `idx + 1`. All slots
thus share tails of one list.
-/

namespace Ma35d1.Heap.IntervalTree

variable {α : Type*}

/-- The list from the head `n-1` on: each head, and what lies under it. -/
def chainFrom (head : Nat → α) (under : Nat → List α) : Nat → List α
  | 0 => []
  | n + 1 => head n :: (under n ++ chainFrom head under n)

/-- The highest head, up to `n`, whose interval divides `idx + 1`. -/
def levelFrom : Nat → Nat → Nat
  | 0, _ => 0
  | n + 1, idx => if 2 ^ (n + 1) ∣ idx + 1 then n + 1 else levelFrom n idx

/-! ## The list -/

theorem mem_chainFrom {head : Nat → α} {under : Nat → List α} {n : Nat} {a : α} :
    a ∈ chainFrom head under n ↔ ∃ i < n, a = head i ∨ a ∈ under i := by
  induction n with
  | zero => simp [chainFrom]
  | succ n ih =>
    simp only [chainFrom, List.mem_cons, List.mem_append, ih]
    constructor
    · rintro (rfl | hm | ⟨i, hi, hm⟩)
      · exact ⟨n, Nat.lt_succ_self n, .inl rfl⟩
      · exact ⟨n, Nat.lt_succ_self n, .inr hm⟩
      · exact ⟨i, Nat.lt_succ_of_lt hi, hm⟩
    · rintro ⟨i, hi, hm⟩
      rcases Nat.lt_succ_iff_lt_or_eq.mp hi with hi | rfl
      · exact .inr (.inr ⟨i, hi, hm⟩)
      · rcases hm with rfl | hm
        · exact .inl rfl
        · exact .inr (.inl hm)

theorem chainFrom_congr {head : Nat → α} {under under' : Nat → List α} {n : Nat}
    (hu : ∀ i < n, under' i = under i) : chainFrom head under' n = chainFrom head under n := by
  induction n with
  | zero => rfl
  | succ n ih =>
    rw [chainFrom, chainFrom, hu n (Nat.lt_succ_self n), ih fun i hi => hu i (Nat.lt_succ_of_lt hi)]

/-- The chain around the head `head i`, whatever lies under that head. -/
theorem chainFrom_split (head : Nat → α) (under : Nat → List α) {n i : Nat} (hi : i < n) :
    ∃ pre, ∀ l, chainFrom head (Function.update under i l) n =
      pre ++ head i :: (l ++ chainFrom head under i) := by
  induction n with
  | zero => simp at hi
  | succ n ih =>
    by_cases hin : i = n
    · subst hin
      refine ⟨[], fun l => ?_⟩
      have hc : chainFrom head (Function.update under i l) i = chainFrom head under i :=
        chainFrom_congr fun j hj => Function.update_of_ne (Nat.ne_of_lt hj) _ _
      rw [chainFrom, hc, Function.update_self]
      rfl
    · obtain ⟨pre, hpre⟩ := ih (by omega)
      refine ⟨head n :: (under n ++ pre), fun l => ?_⟩
      rw [chainFrom, hpre l, Function.update_of_ne (Ne.symm hin)]
      simp

theorem chainFrom_suffix (head : Nat → α) (under : Nat → List α) {n i : Nat} (hi : i ≤ n) :
    ∃ pre, chainFrom head under n = pre ++ chainFrom head under i := by
  induction n with
  | zero => exact ⟨[], by rw [Nat.le_zero.mp hi]; rfl⟩
  | succ n ih =>
    rcases Nat.lt_succ_iff_lt_or_eq.mp (Nat.lt_succ_of_le hi) with hlt | rfl
    · obtain ⟨pre, hpre⟩ := ih (Nat.lt_succ_iff.mp hlt)
      exact ⟨head n :: (under n ++ pre), by rw [chainFrom, hpre]; simp⟩
    · exact ⟨[], rfl⟩

/-! ## Levels -/

theorem levelFrom_le (n idx : Nat) : levelFrom n idx ≤ n := by
  induction n with
  | zero => exact Nat.le_refl 0
  | succ n ih =>
    rw [levelFrom]
    split
    · exact Nat.le_refl _
    · omega

/-- The head `i` is on the way of the slot `idx` iff its interval divides `idx + 1`. -/
theorem le_levelFrom_iff {n i idx : Nat} (hi : i ≤ n) : i ≤ levelFrom n idx ↔ 2 ^ i ∣ idx + 1 := by
  induction n with
  | zero =>
    obtain rfl : i = 0 := Nat.le_zero.mp hi
    simp
  | succ n ih =>
    rw [levelFrom]
    split
    · rename_i hd
      exact ⟨fun _ => Nat.dvd_trans (Nat.pow_dvd_pow 2 hi) hd, fun _ => hi⟩
    · rename_i hd
      rcases Nat.lt_succ_iff_lt_or_eq.mp (Nat.lt_succ_of_le hi) with hlt | rfl
      · exact ih (Nat.lt_succ_iff.mp hlt)
      · have hle := levelFrom_le n idx
        exact ⟨fun h => absurd h (by omega), fun h => absurd h hd⟩

/-! ## Lengths -/

theorem nodup_length_le {l : List Nat} {n : Nat} (hd : l.Nodup) (hl : ∀ a ∈ l, a < n) :
    l.length ≤ n := by
  have hsub : l ⊆ List.range n := fun a ha => List.mem_range.mpr (hl a ha)
  simpa using (List.subperm_of_subset hd hsub).length_le

end Ma35d1.Heap.IntervalTree
