import Mathlib.Data.BitVec
import Mathlib.Data.Nat.Bitwise

/-!
# Descriptors of the translation tables

A descriptor is an address, a type in its two lowest bits and attributes in the bits that are left.
The three do not overlap, so that an address may be added to one of them.
-/

namespace Ma35d1.Mmu

def invalidDesc : BitVec 64 := 0x0
def blockDesc : BitVec 64 := 0x1
def tableDesc : BitVec 64 := 0x3
def pageDesc : BitVec 64 := 0x3
def descMask : BitVec 64 := 0x3

/-- The mark of a table that is not used, in its first entry -/
def unusedDesc : BitVec 64 := 0x6EbAAD0BBADbA6E0

/-- `XLAT_ADDR_MASK`: `BITS_PER_VA` bits without those of a granule -/
def xlatAddrMask : BitVec 64 := 0xFFFFFF000

/-- The bits of the attributes -/
def attrMask : BitVec 64 := 0xFFFFFFF000000FFC

/-- `GRANULE_SIZE`, and what an entry of a table covers at each level -/
def granuleSize : Nat := 4096
def l1XlatSize : Nat := 0x40000000
def l2XlatSize : Nat := 0x200000
def l3XlatSize : Nat := 0x1000

/-- The tags of the ranges -/
def maMem : BitVec 64 := 1
def maNs : BitVec 64 := 2
def maRo : BitVec 64 := 4
def maMemNc : BitVec 64 := 8
def devMem : BitVec 64 := 0
def cachedMem : BitVec 64 := maMem ||| maNs
def uncachedMem : BitVec 64 := maMem ||| maNs ||| maMemNc

/-- `get_block_attr` -/
def getBlockAttr (tag : BitVec 64) : BitVec 64 :=
  (if tag &&& maNs ≠ 0 then 1 <<< 5 else 0) ||| (if tag &&& maRo ≠ 0 then 1 <<< 7 else 0) |||
    1 <<< 10 |||
    if tag &&& maMem ≠ 0 then
      3 <<< 8 ||| if tag &&& maMemNc ≠ 0 then 3 <<< 2 else 4 <<< 2
    else 1 <<< 54

theorem getBlockAttr_mask (tag : BitVec 64) : getBlockAttr tag &&& attrMask = getBlockAttr tag := by
  unfold getBlockAttr
  split <;> split <;> split <;> (try split) <;> rfl

/-! ## The parts of a descriptor -/

variable {x y k z d : BitVec 64}

theorem and_eq_zero_of_disjoint {a b : BitVec 64} (h : a &&& b = 0#64) (hx : x &&& a = x) :
    x &&& b = 0#64 := by
  rw [← hx, BitVec.and_assoc, h, BitVec.and_zero]

/-- The parts of a descriptor are what it was made of. -/
theorem desc_parts (hx : x &&& xlatAddrMask = x) (hk : k &&& descMask = k)
    (hz : z &&& attrMask = z) : (x ||| k ||| z) &&& xlatAddrMask = x ∧
      (x ||| k ||| z) &&& descMask = k ∧ (x ||| k ||| z) &&& attrMask = z := by
  simp only [BitVec.and_or_distrib_right, hx, hk, hz]
  rw [and_eq_zero_of_disjoint (by rfl) hk, and_eq_zero_of_disjoint (by rfl) hz,
    and_eq_zero_of_disjoint (by rfl) hx, and_eq_zero_of_disjoint (by rfl) hz,
    and_eq_zero_of_disjoint (by rfl) hx, and_eq_zero_of_disjoint (by rfl) hk]
  simp only [BitVec.or_zero, BitVec.zero_or, and_self]

/-- A descriptor is made of its parts. -/
theorem desc_eq (d : BitVec 64) :
    (d &&& xlatAddrMask) ||| (d &&& descMask) ||| (d &&& attrMask) = d := by
  rw [← BitVec.and_or_distrib_left, ← BitVec.and_or_distrib_left]
  exact BitVec.and_allOnes

theorem desc_eq_add (hx : x &&& xlatAddrMask = x) (hk : k &&& descMask = k)
    (hz : z &&& attrMask = z) : x ||| k ||| z = x + k + z := by
  have hxk : x &&& k = 0#64 := by
    rw [← hk, BitVec.and_comm k, ← BitVec.and_assoc, and_eq_zero_of_disjoint (by rfl) hx]
    exact BitVec.zero_and
  have hxkz : (x ||| k) &&& z = 0#64 := by
    rw [← hz, BitVec.and_comm z, ← BitVec.and_assoc, BitVec.and_or_distrib_right,
      and_eq_zero_of_disjoint (by rfl) hx, and_eq_zero_of_disjoint (by rfl) hk, BitVec.or_zero]
    exact BitVec.zero_and
  rw [BitVec.add_eq_or_of_and_eq_zero _ _ hxk, BitVec.add_eq_or_of_and_eq_zero _ _ hxkz]

/-- An address that is added to a descriptor changes its address only. -/
theorem desc_add (hx : (d &&& xlatAddrMask) + y &&& xlatAddrMask = (d &&& xlatAddrMask) + y) :
    d + y = ((d &&& xlatAddrMask) + y) ||| (d &&& descMask) ||| (d &&& attrMask) := by
  have hsplit := desc_eq d
  have hmask (m : BitVec 64) : d &&& m &&& m = d &&& m := by
    rw [BitVec.and_assoc, BitVec.and_self]
  rw [desc_eq_add hx (hmask _) (hmask _)]
  rw [desc_eq_add (hmask _) (hmask _) (hmask _)] at hsplit
  calc d + y = (d &&& xlatAddrMask) + (d &&& descMask) + (d &&& attrMask) + y := by rw [hsplit]
    _ = (d &&& xlatAddrMask) + y + (d &&& descMask) + (d &&& attrMask) := by
      rw [add_right_comm _ _ y, add_right_comm _ _ y]

/-- A whole number of granules below 64 GB is an address. -/
theorem and_xlatAddrMask {n : Nat} (hn : n % granuleSize = 0) (hlt : n < 0x1000000000) :
    BitVec.ofNat 64 n &&& xlatAddrMask = BitVec.ofNat 64 n := by
  obtain ⟨q, rfl⟩ : ∃ q, n = q * granuleSize := ⟨n / granuleSize, by
    rw [Nat.div_mul_cancel (Nat.dvd_of_mod_eq_zero hn)]⟩
  have hq : q < 0x1000000 := by
    unfold granuleSize at hlt
    omega
  have hshift : BitVec.ofNat 64 (q * granuleSize) = BitVec.ofNat 64 q <<< 12 := by
    refine BitVec.eq_of_toNat_eq ?_
    rw [BitVec.toNat_shiftLeft, BitVec.toNat_ofNat, BitVec.toNat_ofNat, Nat.shiftLeft_eq,
      Nat.mod_eq_of_lt (show q < 2 ^ 64 by omega)]
    rfl
  have hmask : xlatAddrMask = 0xFFFFFF#64 <<< 12 := rfl
  rw [hshift, hmask, ← BitVec.shiftLeft_and_distrib]
  congr 1
  refine BitVec.eq_of_toNat_eq ?_
  rw [BitVec.toNat_and, BitVec.toNat_ofNat, Nat.mod_eq_of_lt (show q < 2 ^ 64 by omega)]
  exact (Nat.and_two_pow_sub_one_eq_mod q 24).trans (Nat.mod_eq_of_lt hq)

theorem and_mask_self (m : BitVec 64) : d &&& m &&& m = d &&& m := by
  rw [BitVec.and_assoc, BitVec.and_self]

/-- The address in a descriptor is below 64 GB. -/
theorem addr_lt (d : BitVec 64) : (d &&& xlatAddrMask).toNat < 0x1000000000 := by
  rw [BitVec.toNat_and]
  exact Nat.lt_of_le_of_lt Nat.and_le_right (by decide)

theorem toNat_ofNat_addr {n : Nat} (hlt : n < 0x1000000000) : (BitVec.ofNat 64 n).toNat = n := by
  rw [BitVec.toNat_ofNat, Nat.mod_eq_of_lt (by omega)]

/-- The parts of a descriptor to which an address was added -/
theorem add_parts {n : Nat} (hn : ((d &&& xlatAddrMask).toNat + n) % granuleSize = 0)
    (hlt : (d &&& xlatAddrMask).toNat + n < 0x1000000000) :
    ((d + BitVec.ofNat 64 n) &&& xlatAddrMask).toNat = (d &&& xlatAddrMask).toNat + n ∧
      (d + BitVec.ofNat 64 n) &&& descMask = d &&& descMask ∧
      (d + BitVec.ofNat 64 n) &&& attrMask = d &&& attrMask := by
  have hsum : (d &&& xlatAddrMask) + BitVec.ofNat 64 n =
      BitVec.ofNat 64 ((d &&& xlatAddrMask).toNat + n) := by
    rw [BitVec.ofNat_add, BitVec.ofNat_toNat, BitVec.setWidth_eq]
  have hx : (d &&& xlatAddrMask) + BitVec.ofNat 64 n &&& xlatAddrMask =
      (d &&& xlatAddrMask) + BitVec.ofNat 64 n := by
    rw [hsum, and_xlatAddrMask hn hlt]
  have hparts := desc_parts hx (and_mask_self (d := d) descMask) (and_mask_self (d := d) attrMask)
  rw [← desc_add hx] at hparts
  refine ⟨?_, hparts.2⟩
  rw [hparts.1, hsum, toNat_ofNat_addr hlt]

end Ma35d1.Mmu
