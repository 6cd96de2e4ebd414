import Mathlib.Logic.Function.Basic
import Mathlib.Data.Nat.ModEq

/-!
# Rings

A ring of `n` places is used for an endless sequence of items: item `k` stands at place
`k % n`. `Window n t q P F f` says that the items `t..q-1` stand in the ring `f`, each as `P`
says, and that the other places are free as `F` says. Nothing here depends on what stands at
a place.
-/

namespace Ma35d1.Machine.Ring

variable {α : Type*} {n t q j k : Nat} {P Q : Nat → α → Prop} {F : α → Prop} {f : Nat → α} {v : α}

/-- The place after `i`. -/
def next (n i : Nat) : Nat := if i + 1 = n then 0 else i + 1

/-- The step as it is usually written. -/
theorem wrap_eq_next {i : Nat} (hi : i < n) : (if n ≤ i + 1 then 0 else i + 1) = next n i := by
  unfold next
  split <;> split <;> omega

theorem next_mod (hn : 0 < n) (k : Nat) : next n (k % n) = (k + 1) % n := by
  have hlt := Nat.mod_lt k hn
  unfold next
  rw [Nat.add_mod]
  by_cases hone : n = 1
  · subst hone
    simp [Nat.mod_one]
  · rw [Nat.mod_eq_of_lt (show 1 < n by omega)]
    split
    · rename_i h
      rw [h, Nat.mod_self]
    · exact (Nat.mod_eq_of_lt (by omega)).symm

/-- Within one round no two items share a place. -/
theorem mod_inj (hj : t ≤ j) (hjn : j < t + n) (hk : t ≤ k) (hkn : k < t + n)
    (h : j % n = k % n) : j = k := by
  have hj' := Nat.div_add_mod j n
  have hk' := Nat.div_add_mod k n
  rcases Nat.lt_trichotomy (j / n) (k / n) with hlt | heq | hgt
  · have hmul := Nat.mul_le_mul_left n hlt
    rw [Nat.mul_succ] at hmul
    omega
  · rw [heq] at hj'
    omega
  · have hmul := Nat.mul_le_mul_left n hgt
    rw [Nat.mul_succ] at hmul
    omega

structure Window (n t q : Nat) (P : Nat → α → Prop) (F : α → Prop) (f : Nat → α) : Prop where
  le : t ≤ q
  cap : q ≤ t + n
  item : ∀ k, t ≤ k → k < q → P k (f (k % n))
  free : ∀ k, q ≤ k → k < t + n → F (f (k % n))

theorem Window.empty (h : ∀ i < n, F (f i)) (hn : 0 < n) : Window n 0 0 P F f :=
  ⟨Nat.le_refl 0, Nat.zero_le _, fun k _ hk => absurd hk (Nat.not_lt_zero k),
    fun k _ _ => h (k % n) (Nat.mod_lt k hn)⟩

/-- An item comes to the first free place. -/
theorem Window.push (h : Window n t q P F f) (hroom : q < t + n) (hv : Q q v)
    (hP : ∀ k, t ≤ k → k < q → P k (f (k % n)) → Q k (f (k % n))) :
    Window n t (q + 1) Q F (Function.update f (q % n) v) := by
  have hle := h.le
  refine ⟨by omega, by omega, fun k hk hkq => ?_, fun k hk hkn => ?_⟩
  · by_cases heq : k = q
    · rw [heq, Function.update_self]
      exact hv
    · have hne : k % n ≠ q % n := fun hmod => heq (mod_inj hk (by omega) hle hroom hmod)
      rw [Function.update_of_ne hne]
      exact hP k hk (by omega) (h.item k hk (by omega))
  · have hne : k % n ≠ q % n := fun hmod =>
      absurd (mod_inj (by omega) hkn hle hroom hmod) (by omega)
    rw [Function.update_of_ne hne]
    exact h.free k (by omega) hkn

/-- The oldest item leaves. -/
theorem Window.pop (h : Window n t q P F f) (hne : t < q) (hv : F v) :
    Window n (t + 1) q P F (Function.update f (t % n) v) := by
  have hcap := h.cap
  refine ⟨hne, by omega, fun k hk hkq => ?_, fun k hk hkn => ?_⟩
  · have hne : k % n ≠ t % n := fun hmod =>
      absurd (mod_inj (by omega) (by omega) (Nat.le_refl t) (by omega) hmod) (by omega)
    rw [Function.update_of_ne hne]
    exact h.item k (by omega) hkq
  · by_cases heq : k = t + n
    · rw [heq, Nat.add_mod_right, Function.update_self]
      exact hv
    · have hne : k % n ≠ t % n := fun hmod =>
        absurd (mod_inj (by omega) (by omega) (Nat.le_refl t) (by omega) hmod) (by omega)
      rw [Function.update_of_ne hne]
      exact h.free k hk (by omega)

/-- An item changes at its place. -/
theorem Window.change (h : Window n t q P F f) (hj : t ≤ j) (hjq : j < q) (hv : Q j v)
    (hP : ∀ k, t ≤ k → k < q → k ≠ j → P k (f (k % n)) → Q k (f (k % n))) :
    Window n t q Q F (Function.update f (j % n) v) := by
  have hcap := h.cap
  refine ⟨h.le, h.cap, fun k hk hkq => ?_, fun k hk hkn => ?_⟩
  · by_cases heq : k = j
    · rw [heq, Function.update_self]
      exact hv
    · have hne : k % n ≠ j % n := fun hmod =>
        heq (mod_inj hk (by omega) hj (by omega) hmod)
      rw [Function.update_of_ne hne]
      exact hP k hk hkq heq (h.item k hk hkq)
  · have hne : k % n ≠ j % n := fun hmod =>
      absurd (mod_inj (by omega) hkn hj (by omega) hmod) (by omega)
    rw [Function.update_of_ne hne]
    exact h.free k hk hkn

/-- A free place changes and stays free. -/
theorem Window.touch (h : Window n t q P F f) (hj : q ≤ j) (hjn : j < t + n) (hv : F v) :
    Window n t q P F (Function.update f (j % n) v) := by
  have hle := h.le
  refine ⟨h.le, h.cap, fun k hk hkq => ?_, fun k hk hkn => ?_⟩
  · have hne : k % n ≠ j % n := fun hmod =>
      absurd (mod_inj hk (by omega) (by omega) hjn hmod) (by omega)
    rw [Function.update_of_ne hne]
    exact h.item k hk hkq
  · by_cases heq : k % n = j % n
    · rw [heq, Function.update_self]
      exact hv
    · rw [Function.update_of_ne heq]
      exact h.free k hk hkn

/-- Every place is that of an item or free. -/
theorem exists_mod {i : Nat} (t : Nat) (hi : i < n) : ∃ k, t ≤ k ∧ k < t + n ∧ k % n = i := by
  have hlt := Nat.mod_lt t (Nat.zero_lt_of_lt hi)
  have hdiv := Nat.div_add_mod t n
  by_cases hle : t % n ≤ i
  · refine ⟨t + (i - t % n), by omega, by omega, ?_⟩
    rw [show t + (i - t % n) = i + n * (t / n) by omega, Nat.add_mul_mod_self_left,
      Nat.mod_eq_of_lt hi]
  · refine ⟨t + (n + i - t % n), by omega, by omega, ?_⟩
    rw [show t + (n + i - t % n) = i + n + n * (t / n) by omega, Nat.add_mul_mod_self_left,
      Nat.add_mod_right, Nat.mod_eq_of_lt hi]

/-- The places of the `k` items from `c` on. -/
def places (n c k : Nat) : List Nat := (List.range k).map fun j => (c + j) % n

theorem places_succ (n c k : Nat) : places n c (k + 1) = places n c k ++ [(c + k) % n] := by
  unfold places
  rw [List.range_succ, List.map_append, List.map_singleton]

theorem places_cons (n c k : Nat) : places n c (k + 1) = c % n :: places n (c + 1) k := by
  unfold places
  rw [List.range_succ_eq_map, List.map_cons, List.map_map, Nat.add_zero]
  congr 1
  apply List.map_congr_left
  intro j _
  show (c + (j + 1)) % n = (c + 1 + j) % n
  rw [Nat.add_assoc, Nat.add_comm 1 j]

/-- The place after fewer than `n` items is none of theirs. -/
theorem not_mem_places (c : Nat) (hk : k < n) : (c + k) % n ∉ places n c k := by
  intro hmem
  obtain ⟨j, hj, hmod⟩ := List.mem_map.mp hmem
  have hjk := List.mem_range.1 hj
  have heq := mod_inj (t := c) (by omega) (by omega) (by omega) (by omega) hmod
  omega

end Ma35d1.Machine.Ring
