import Mathlib.Init

/-!
# What lies where in a memory

A memory is a function of the address. `LiesAt b p xs` says that the cells from `p` on hold
`xs`, and nothing about the cells behind them. It does not depend on what a cell holds.
-/

namespace Ma35d1.Machine.Layout

variable {α : Type*} {b : Nat → α} {p : Nat} {x : α} {xs ys : List α}

/-- The cells from `p` on hold `xs`. -/
def LiesAt (b : Nat → α) : Nat → List α → Prop
  | _, [] => True
  | p, x :: xs => b p = x ∧ LiesAt b (p + 1) xs

theorem LiesAt.head (h : LiesAt b p (x :: xs)) : b p = x := h.1

theorem LiesAt.tail (h : LiesAt b p (x :: xs)) : LiesAt b (p + 1) xs := h.2

/-- A sequence lies in two pieces, the second behind the first. -/
theorem liesAt_append : LiesAt b p (xs ++ ys) ↔ LiesAt b p xs ∧ LiesAt b (p + xs.length) ys := by
  induction xs generalizing p with
  | nil => exact ⟨fun h => ⟨trivial, h⟩, fun h => h.2⟩
  | cons x xs ih =>
    have hlen : p + (x :: xs).length = p + 1 + xs.length := by
      rw [List.length_cons]
      omega
    rw [hlen]
    show b p = x ∧ LiesAt b (p + 1) (xs ++ ys) ↔ (b p = x ∧ LiesAt b (p + 1) xs) ∧ _
    rw [ih, and_assoc]

theorem LiesAt.left (h : LiesAt b p (xs ++ ys)) : LiesAt b p xs := (liesAt_append.mp h).1

theorem LiesAt.right (h : LiesAt b p (xs ++ ys)) : LiesAt b (p + xs.length) ys :=
  (liesAt_append.mp h).2

/-- Cell by cell. -/
theorem liesAt_iff : LiesAt b p xs ↔ ∀ i (h : i < xs.length), b (p + i) = xs[i] := by
  induction xs generalizing p with
  | nil => exact iff_of_true trivial fun i h => absurd h (Nat.not_lt_zero i)
  | cons x xs ih =>
    constructor
    · intro h i hi
      cases i with
      | zero => exact h.1
      | succ i =>
        have hcell := ih.mp h.2 i (by simpa using hi)
        rw [show p + (i + 1) = p + 1 + i by omega, hcell]
        rfl
    · intro h
      refine ⟨h 0 (by simp), ih.mpr fun i hi => ?_⟩
      have hcell := h (i + 1) (by simpa using hi)
      rw [show p + 1 + i = p + (i + 1) by omega, hcell]
      rfl

/-- A memory made of the sequence holds it. -/
theorem liesAt_getD (xs : List α) (x : α) : LiesAt (fun i => xs.getD i x) 0 xs :=
  liesAt_iff.mpr fun i h => by
    rw [Nat.zero_add, List.getD_eq_getElem?_getD, List.getElem?_eq_getElem h]
    rfl

end Ma35d1.Machine.Layout
