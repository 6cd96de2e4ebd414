import Mathlib.Tactic.Linarith
import Mathlib.Tactic.Ring

/-!
# The integers nearest to a quotient

There are two of them where the quotient lies in the middle. As a divisor, the nearest integer
need not give the quotient that is nearest to another number: the one after it may be better.
-/

namespace Ma35d1.Machine

variable {s r n : Nat}

/-- No multiple of `r` is nearer to `s` than the `n`-fold. -/
def Nearest (s r n : Nat) : Prop :=
  ∀ k : Nat, ((s : Int) - (n * r : Nat)).natAbs ≤ ((s : Int) - (k * r : Nat)).natAbs

/-- The nearest multiple is at most half a step away. -/
theorem nearest_iff (hr : 0 < r) :
    Nearest s r n ↔ 2 * (n * r) ≤ 2 * s + r ∧ 2 * s ≤ 2 * (n * r) + r := by
  constructor
  · intro h
    have hup := h (n + 1)
    rw [Nat.succ_mul] at hup
    refine ⟨?_, by omega⟩
    cases n with
    | zero => omega
    | succ m =>
      have hdown := h m
      rw [Nat.succ_mul m] at hdown ⊢
      omega
  · rintro ⟨hlow, hhigh⟩ k
    rcases Nat.lt_trichotomy k n with hk | rfl | hk
    · have hle : (k + 1) * r ≤ n * r := Nat.mul_le_mul_right r hk
      rw [Nat.succ_mul] at hle
      omega
    · exact Nat.le_refl _
    · have hle : (n + 1) * r ≤ k * r := Nat.mul_le_mul_right r hk
      rw [Nat.succ_mul] at hle
      omega

/-- One of the first `m` integers is a nearest one unless the quotient is well above them. -/
theorem exists_nearest_le_iff (hr : 0 < r) (m : Nat) :
    (∃ n ≤ m, Nearest s r n) ↔ 2 * s ≤ 2 * (m * r) + r := by
  constructor
  · rintro ⟨n, hn, h⟩
    have hle : n * r ≤ m * r := Nat.mul_le_mul_right r hn
    have hhigh := ((nearest_iff hr).mp h).2
    omega
  · intro h
    rcases Nat.lt_or_ge s (m * r) with hs | hs
    · -- the quotient, or the integer after it
      have hfloor := Nat.div_mul_le_self s r
      have hceil := Nat.lt_div_mul_add (a := s) hr
      have hlt : s / r < m := (Nat.div_lt_iff_lt_mul hr).mpr hs
      by_cases hhalf : 2 * s ≤ 2 * (s / r * r) + r
      · exact ⟨s / r, Nat.le_of_lt hlt, (nearest_iff hr).mpr ⟨by omega, hhalf⟩⟩
      · refine ⟨s / r + 1, hlt, (nearest_iff hr).mpr ?_⟩
        rw [Nat.succ_mul (s / r)]
        omega
    · exact ⟨m, Nat.le_refl m, (nearest_iff hr).mpr ⟨by omega, h⟩⟩

/-- The rounded quotient -/
theorem nearest_of_bounds (hlow : 2 * (n * r) ≤ 2 * s + r) (hhigh : 2 * s < 2 * (n * r) + r) :
    Nearest s r n :=
  (nearest_iff (by omega)).mpr ⟨hlow, by omega⟩

/-- Of the quotients of `s` by the integers from `lo` to `top`, none is nearer to `r` than the one
by `n`. The distances are multiplied by both divisors. -/
def NearestRate (s r lo top n : Nat) : Prop :=
  ∀ k, lo ≤ k → k ≤ top →
    ((s : Int) - (n * r : Nat)).natAbs * k ≤ ((s : Int) - (k * r : Nat)).natAbs * n

variable {lo top : Nat}

/-- The rounded quotient is the best divisor unless the harmonic mean of it and its successor is
below the quotient. -/
theorem nearestRate_iff (hlow : 2 * (n * r) ≤ 2 * s + r) (hhigh : 2 * s < 2 * (n * r) + r)
    (hlo : lo ≤ n) (hn : 0 < n) (htop : n ≤ top) :
    NearestRate s r lo top n ↔ n = top ∨ s * (2 * n + 1) ≤ 2 * (n * (n + 1) * r) := by
  have hnear := nearest_of_bounds hlow hhigh
  constructor
  · intro h
    by_cases hnt : n = top
    · exact .inl hnt
    · have hnext := h (n + 1) (by omega) (by omega)
      refine .inr ?_
      rcases Nat.lt_or_ge s (n * r) with hs | hs
      · have hmul : s * (2 * n + 1) ≤ n * r * (2 * n + 1) := Nat.mul_le_mul_right _ (by omega)
        have hnext' : 2 * (n * (n + 1) * r) = n * r * (2 * n + 1) + n * r := by ring
        omega
      · obtain ⟨a, rfl⟩ := Nat.exists_eq_add_of_le hs
        rw [Nat.succ_mul] at hnext
        have hthis : ((n * r + a : Nat) - (n * r : Nat) : Int).natAbs = a := by omega
        have hother : ((n * r + a : Nat) - (n * r + r : Nat) : Int).natAbs = r - a := by omega
        rw [hthis, hother] at hnext
        have hsub : (r - a) * n + a * n = r * n := by
          rw [← Nat.add_mul, Nat.sub_add_cancel (by omega)]
        nlinarith
  · intro h k hk hkt
    rcases Nat.lt_trichotomy k n with hlt | rfl | hgt
    · -- a smaller divisor is not better: its multiple is not nearer either
      exact Nat.mul_le_mul (hnear k) hlt.le
    · exact Nat.le_refl _
    · have hcond := h.resolve_left (by omega)
      obtain ⟨j, rfl⟩ := Nat.exists_eq_add_of_lt hgt
      have hdist : (n + j + 1) * r = n * r + (j + 1) * r := by ring
      have hj : r ≤ (j + 1) * r := Nat.le_mul_of_pos_left r (by omega)
      have hother : ((s : Int) - ((n + j + 1) * r : Nat)).natAbs + s = n * r + (j + 1) * r := by
        omega
      rcases Nat.lt_or_ge s (n * r) with hs | hs
      · have hthis : ((s : Int) - (n * r : Nat)).natAbs + s = n * r := by omega
        nlinarith
      · obtain ⟨a, rfl⟩ := Nat.exists_eq_add_of_le hs
        have hthis : (((n * r + a : Nat) : Int) - (n * r : Nat)).natAbs = a := by omega
        rw [hthis]
        nlinarith

/-- The quotient does not lie between the harmonic and the arithmetic mean of two neighbours. -/
def OutsideMeans (s r lo top : Nat) : Prop :=
  ∀ k, lo ≤ k → k < top → s * (2 * k + 1) ≤ 2 * (k * (k + 1) * r) ∨ 2 * (k * r) + r ≤ 2 * s

/-- Only the means of the rounded quotient and its successor matter. -/
theorem nearestRate_iff_outsideMeans (hlow : 2 * (n * r) ≤ 2 * s + r)
    (hhigh : 2 * s < 2 * (n * r) + r) (hlo : lo ≤ n) (hn : 0 < n) (htop : n ≤ top) :
    NearestRate s r lo top n ↔ OutsideMeans s r lo top := by
  rw [nearestRate_iff hlow hhigh hlo hn htop]
  constructor
  · intro h k hk hkt
    rcases Nat.lt_trichotomy k n with hlt | rfl | hgt
    · have hle : (k + 1) * r ≤ n * r := Nat.mul_le_mul_right r hlt
      rw [Nat.succ_mul] at hle
      exact .inr (by omega)
    · exact .inl (h.resolve_left hkt.ne)
    · have hle : (n + 1) * r ≤ k * r := Nat.mul_le_mul_right r hgt
      rw [Nat.succ_mul] at hle
      have hmul : s * (2 * k + 1) ≤ k * r * (2 * k + 1) := Nat.mul_le_mul_right _ (by omega)
      have hmean : 2 * (k * (k + 1) * r) = k * r * (2 * k + 1) + k * r := by ring
      exact .inl (by omega)
  · intro h
    by_cases hnt : n = top
    · exact .inl hnt
    · exact .inr ((h n hlo (by omega)).resolve_right (by omega))

end Ma35d1.Machine
