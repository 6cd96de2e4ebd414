import Mathlib.Data.BitVec
import Mathlib.Data.Fin.Basic

/-!
# Numbers as digits, the highest first

`n` words of `w` bits stand for a number below `2 ^ (w * n)`. Adding one goes from the last digit
on: each digit that becomes zero has the one before it go up. Nothing here depends on what the
number counts.
-/

namespace Ma35d1.Machine.BigEndian

variable {n w i : Nat} {b b' : Fin n → BitVec w}

/-- The number that the first `i` digits stand for -/
def leading (b : Fin n → BitVec w) : Nat → Nat
  | 0 => 0
  | i + 1 => 2 ^ w * leading b i + if h : i < n then (b ⟨i, h⟩).toNat else 0

/-- The number that the digits stand for -/
def value (b : Fin n → BitVec w) : Nat := leading b n

/-- The digits of a number, as many as there is room for -/
def digits (n w v : Nat) : Fin n → BitVec w := fun i => BitVec.ofNat w (v / 2 ^ (w * (n - 1 - i)))

theorem leading_succ (h : i < n) : leading b (i + 1) = 2 ^ w * leading b i + (b ⟨i, h⟩).toNat := by
  rw [leading, dif_pos h]

theorem leading_congr (h : ∀ j : Fin n, j < i → b j = b' j) : leading b i = leading b' i := by
  induction i with
  | zero => rfl
  | succ i ih =>
    rw [leading, leading, ih fun j hj => h j (by omega)]
    by_cases hi : i < n
    · rw [dif_pos hi, dif_pos hi, h ⟨i, hi⟩ (Nat.lt_succ_self i)]
    · rw [dif_neg hi, dif_neg hi]

theorem leading_lt (hi : i ≤ n) : leading b i < 2 ^ (w * i) := by
  induction i with
  | zero => exact Nat.lt_pow_self (by decide)
  | succ i ih =>
    have hlt := ih (by omega)
    have hdigit := (b ⟨i, hi⟩).isLt
    rw [leading_succ hi, Nat.mul_succ, Nat.pow_add, Nat.mul_comm (2 ^ (w * i))]
    have hstep : 2 ^ w * (leading b i + 1) ≤ 2 ^ w * 2 ^ (w * i) := Nat.mul_le_mul_left _ hlt
    rw [Nat.mul_succ] at hstep
    omega

/-- The digits are told by the number. -/
theorem eq_of_leading_eq (hi : i ≤ n) (h : leading b i = leading b' i) :
    ∀ j : Fin n, j < i → b j = b' j := by
  induction i with
  | zero => exact fun j hj => absurd hj (Nat.not_lt_zero _)
  | succ i ih =>
    rw [leading_succ hi, leading_succ hi] at h
    have hlow : (b ⟨i, hi⟩).toNat = (b' ⟨i, hi⟩).toNat := by
      have hmod := congrArg (· % 2 ^ w) h
      simpa [Nat.mod_eq_of_lt (b ⟨i, hi⟩).isLt, Nat.mod_eq_of_lt (b' ⟨i, hi⟩).isLt] using hmod
    have hhigh : leading b i = leading b' i :=
      Nat.eq_of_mul_eq_mul_left (Nat.two_pow_pos w) (by omega)
    intro j hj
    by_cases he : j.val = i
    · obtain rfl : j = ⟨i, hi⟩ := Fin.ext he
      exact BitVec.eq_of_toNat_eq hlow
    · exact ih (by omega) hhigh j (by omega)

theorem eq_of_value_eq (h : value b = value b') : b = b' :=
  funext fun j => eq_of_leading_eq (Nat.le_refl n) h j j.isLt

theorem leading_digits {v : Nat} (hi : i ≤ n) :
    leading (digits n w v) i = v / 2 ^ (w * (n - i)) % 2 ^ (w * i) := by
  induction i with
  | zero => simp [leading, Nat.mod_one]
  | succ i ih =>
    have hsub : n - i = n - 1 - i + 1 := by omega
    have hsub' : n - (i + 1) = n - 1 - i := by omega
    rw [leading_succ hi, ih (by omega), hsub, hsub', digits, BitVec.toNat_ofNat, Nat.mul_succ,
      Nat.mul_succ, Nat.pow_add, Nat.pow_add, ← Nat.div_div_eq_div_mul]
    generalize v / 2 ^ (w * (n - 1 - i)) = u
    rw [Nat.mul_comm (2 ^ (w * i)), Nat.mod_mul]
    omega

theorem value_digits (v : Nat) : value (digits n w v) = v % 2 ^ (w * n) := by
  rw [value, leading_digits (Nat.le_refl n), Nat.sub_self, Nat.mul_zero, Nat.pow_zero, Nat.div_one]

theorem digits_value : digits n w (value b) = b := by
  refine eq_of_value_eq ?_
  rw [value_digits]
  exact Nat.mod_eq_of_lt (leading_lt (Nat.le_refl n))

/-! ## One more -/

theorem toNat_add_one (x : BitVec w) : (x + 1).toNat = (x.toNat + 1) % 2 ^ w := by
  rw [BitVec.toNat_add]
  show (x.toNat + 1 % 2 ^ w) % 2 ^ w = _
  rw [Nat.add_mod_mod]

/-- The digits in front of one that is changed -/
theorem leading_update (hi : i < n) (x : BitVec w) :
    leading (Function.update b ⟨i, hi⟩ x) i = leading b i := by
  refine leading_congr fun j hj => Function.update_of_ne (fun he => ?_) _ _
  rw [he] at hj
  exact Nat.lt_irrefl i hj

/-- The last of `i + 1` digits goes up, and does not become zero. -/
theorem leading_up (hi : i < n) (hne : b ⟨i, hi⟩ + 1 ≠ 0) :
    leading (Function.update b ⟨i, hi⟩ (b ⟨i, hi⟩ + 1)) (i + 1) = leading b (i + 1) + 1 := by
  have hlt : (b ⟨i, hi⟩).toNat + 1 < 2 ^ w := by
    refine lt_of_le_of_ne (b ⟨i, hi⟩).isLt fun he => hne (BitVec.eq_of_toNat_eq ?_)
    rw [toNat_add_one, he, Nat.mod_self]
    rfl
  rw [leading_succ hi, leading_succ hi, leading_update hi, Function.update_self, toNat_add_one,
    Nat.mod_eq_of_lt hlt, Nat.add_assoc]

/-- It becomes zero, and the digits in front of it stand for one more, or for nothing. -/
theorem leading_carry (hi : i < n) (hz : b ⟨i, hi⟩ + 1 = 0) {b' : Fin n → BitVec w}
    (hfront : leading b' i = (leading b i + 1) % 2 ^ (w * i)) (hdigit : b' ⟨i, hi⟩ = 0) :
    leading b' (i + 1) = (leading b (i + 1) + 1) % 2 ^ (w * (i + 1)) := by
  have hfull : (b ⟨i, hi⟩).toNat + 1 = 2 ^ w := by
    have h0 := congrArg BitVec.toNat hz
    rw [toNat_add_one] at h0
    have hlt := (b ⟨i, hi⟩).isLt
    have hdvd : 2 ^ w ∣ (b ⟨i, hi⟩).toNat + 1 := Nat.dvd_of_mod_eq_zero h0
    have := Nat.le_of_dvd (Nat.succ_pos _) hdvd
    omega
  have hdigit' : (b' ⟨i, hi⟩).toNat = 0 := by rw [hdigit]; rfl
  rw [leading_succ hi, leading_succ hi, hfront, hdigit', Nat.add_zero, Nat.add_assoc, hfull,
    ← Nat.mul_succ, Nat.mul_succ w i, Nat.add_comm (w * i) w, Nat.pow_add, Nat.mul_mod_mul_left]

end Ma35d1.Machine.BigEndian
