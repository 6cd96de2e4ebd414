import Mathlib.Data.BitVec

/-!
# Runs of cells in a memory

A memory is a function of an address of `w` bits, and addresses wrap. `addrs a n` are the `n`
addresses from `a` on, and `store` writes to them. Nothing here depends on what a cell holds.
-/

namespace Ma35d1.Machine.Memory

variable {α : Type*} {w : Nat} {mem : BitVec w → α} {f : Nat → α} {a b x : BitVec w} {n k m : Nat}

def addrs (a : BitVec w) (n : Nat) : List (BitVec w) :=
  (List.range n).map fun i => a + BitVec.ofNat w i

/-- `f 0` to `f (n - 1)` written from `a` on -/
def store (mem : BitVec w → α) (a : BitVec w) (n : Nat) (f : Nat → α) : BitVec w → α := fun x =>
  if (x - a).toNat < n then f (x - a).toNat else mem x

@[simp] theorem length_addrs : (addrs a n).length = n := by
  rw [addrs, List.length_map, List.length_range]

theorem mem_addrs : x ∈ addrs a n ↔ ∃ i < n, a + BitVec.ofNat w i = x := by
  simp [addrs]

/-- Two runs, the second behind the first, are one. -/
theorem addrs_add : addrs a (n + k) = addrs a n ++ addrs (a + BitVec.ofNat w n) k := by
  simp only [addrs, List.range_add, List.map_append, List.map_map]
  congr 1
  refine List.map_congr_left fun i _ => ?_
  rw [Function.comp_apply, BitVec.ofNat_add, BitVec.add_assoc]

theorem sub_add_ofNat (h : (x - a).toNat = n) : a + BitVec.ofNat w n = x := by
  subst h
  rw [BitVec.ofNat_toNat, BitVec.setWidth_eq, BitVec.add_comm, BitVec.sub_add_cancel]

/-- How far a cell of a run is from where the run starts. -/
theorem add_ofNat_sub (hn : n < 2 ^ w) : (a + BitVec.ofNat w n - a).toNat = n := by
  rw [BitVec.add_comm, BitVec.add_sub_cancel, BitVec.toNat_ofNat, Nat.mod_eq_of_lt hn]

theorem mem_addrs_iff (hn : n ≤ 2 ^ w) : x ∈ addrs a n ↔ (x - a).toNat < n := by
  rw [mem_addrs]
  constructor
  · rintro ⟨i, hi, rfl⟩
    rw [add_ofNat_sub (by omega)]
    exact hi
  · exact fun h => ⟨_, h, sub_add_ofNat rfl⟩

/-- A run that starts `x` behind `b` stays within `m` cells of `b` exactly when it ends there. -/
theorem forall_addrs_sub_lt (hm : m < 2 ^ w) :
    (∀ y ∈ addrs (b + x) n, (y - b).toNat < m) ↔ n = 0 ∨ x.toNat + n ≤ m := by
  have hfar : ∀ i, x.toNat + i < 2 ^ w → (b + x + BitVec.ofNat w i - b).toNat = x.toNat + i := by
    intro i hi
    rw [BitVec.add_assoc, BitVec.add_comm, BitVec.add_sub_cancel, BitVec.toNat_add,
      BitVec.toNat_ofNat, Nat.add_mod_mod, Nat.mod_eq_of_lt hi]
  have hx := x.isLt
  constructor
  · intro h
    by_contra hno
    obtain ⟨hpos, hlong⟩ := not_or.mp hno
    have hfirst := h _ (mem_addrs.mpr ⟨0, by omega, rfl⟩)
    rw [hfar 0 (by omega)] at hfirst
    have hlast := h _ (mem_addrs.mpr ⟨m - x.toNat, by omega, rfl⟩)
    rw [hfar _ (by omega)] at hlast
    omega
  · rintro (rfl | hle) y hy
    · exact absurd hy (by simp [addrs])
    · obtain ⟨i, hi, rfl⟩ := mem_addrs.mp hy
      rw [hfar i (by omega)]
      omega

theorem store_of_lt (h : (x - a).toNat < n) : store mem a n f x = f (x - a).toNat := if_pos h

theorem store_of_le (h : n ≤ (x - a).toNat) : store mem a n f x = mem x :=
  if_neg (Nat.not_lt.mpr h)

theorem store_add_ofNat (hk : k < n) (hn : n ≤ 2 ^ w) :
    store mem a n f (a + BitVec.ofNat w k) = f k := by
  have hsub : (a + BitVec.ofNat w k - a).toNat = k := add_ofNat_sub (by omega)
  rw [store_of_lt (by omega), hsub]

/-- A cell of a run is as far from `a` as the run's start and the cell's place in it say. -/
theorem toNat_sub_of_lt (h : n + k ≤ 2 ^ w) (hx : (x - (a + BitVec.ofNat w n)).toNat < k) :
    (x - a).toNat = n + (x - (a + BitVec.ofNat w n)).toNat := by
  have hcell := sub_add_ofNat (x := x) (a := a + BitVec.ofNat w n) rfl
  rw [BitVec.add_assoc, ← BitVec.ofNat_add] at hcell
  rw [← hcell, add_ofNat_sub (by omega), hcell]

/-- Two writes, the second behind the first, are one. -/
theorem store_store (h : n + k ≤ 2 ^ w) :
    store (store mem a n f) (a + BitVec.ofNat w n) k (fun i => f (n + i)) =
      store mem a (n + k) f := by
  funext x
  by_cases hk : (x - (a + BitVec.ofNat w n)).toNat < k
  · have hfar := toNat_sub_of_lt h hk
    rw [store_of_lt hk, store_of_lt (by omega), hfar]
  rw [store_of_le (Nat.not_lt.mp hk)]
  by_cases hn : (x - a).toNat < n
  · rw [store_of_lt hn, store_of_lt (by omega)]
  · have hfar : n + k ≤ (x - a).toNat := by
      by_contra hlt
      -- a cell behind the first run and before the end of the second is in the second
      have hcell : x = a + BitVec.ofNat w n + BitVec.ofNat w ((x - a).toNat - n) := by
        rw [BitVec.add_assoc, ← BitVec.ofNat_add]
        exact (sub_add_ofNat (by omega)).symm
      rw [hcell, add_ofNat_sub (by omega)] at hk
      omega
    rw [store_of_le (Nat.not_lt.mp hn), store_of_le hfar]

end Ma35d1.Machine.Memory
