import Mathlib.Data.BitVec

/-!
# Fields of machine words

Words that are put together with bitwise or, and what their fields read as numbers.
-/

namespace Ma35d1.Machine

variable {w k lo n : Nat} {x y : BitVec w}

/-- The `n` bits of a word from bit `lo` on -/
def field (x : BitVec w) (lo n : Nat) : Nat := (x.extractLsb' lo n).toNat

theorem field_eq (x : BitVec w) (lo n : Nat) : field x lo n = x.toNat / 2 ^ lo % 2 ^ n := by
  rw [field, BitVec.extractLsb'_toNat, Nat.shiftRight_eq_div_pow]

/-- Parts that do not overlap add up. -/
theorem toNat_or_of_dvd (hx : 2 ^ k ∣ x.toNat) (hy : y.toNat < 2 ^ k) :
    (x ||| y).toNat = x.toNat + y.toNat := by
  obtain ⟨a, ha⟩ := hx
  rw [BitVec.toNat_or, ha, Nat.two_pow_add_eq_or_of_lt hy]

/-- A part that leaves a field alone -/
theorem field_or_of_zero (hy : field y lo n = 0) : field (x ||| y) lo n = field x lo n := by
  have hzero : y.extractLsb' lo n = 0#n := BitVec.eq_of_toNat_eq hy
  rw [field, BitVec.extractLsb'_or, hzero, BitVec.or_zero, field]

end Ma35d1.Machine
