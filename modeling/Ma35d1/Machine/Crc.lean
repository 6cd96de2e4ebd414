import Mathlib.Data.BitVec

/-!
# Cyclic redundancy checks

The remainder of a bit string by a divisor of `w + 1` bits, one bit after the other from the top.
A register that takes several bits at once, and is then shifted as often, has the same remainder.
-/

namespace Ma35d1.Machine.Crc

variable {w v n : Nat} (poly : BitVec w)

/-- One shift of the register: the bit that leaves it subtracts the divisor. -/
def shift (c : BitVec w) : BitVec w := (c <<< 1) ^^^ if c.msb then poly else 0

def shifts : Nat → BitVec w → BitVec w
  | 0, c => c
  | n + 1, c => shifts n (shift poly c)

/-- One bit of the message, against the bit that leaves. -/
def feed (c : BitVec w) (b : Bool) : BitVec w := (c <<< 1) ^^^ if c.msb ^^ b then poly else 0

/-- The remainder of a message. -/
def remainder (c : BitVec w) (bits : List Bool) : BitVec w := bits.foldl (feed poly) c

/-- The first `n` bits of a word, from the top. -/
def top (n : Nat) (d : BitVec v) : List Bool := (List.range n).map d.getMsbD

variable {poly} {c d : BitVec w}

theorem top_succ (n : Nat) (d : BitVec v) : top (n + 1) d = d.msb :: top n (d <<< 1) := by
  rw [top, List.range_succ_eq_map, List.map_cons, List.map_map, top]
  congr 1
  refine List.map_congr_left fun k _ => ?_
  rw [BitVec.getMsbD_shiftLeft]
  rfl

theorem shift_xor (c d : BitVec w) : shift poly (c ^^^ d) = feed poly c d.msb ^^^ (d <<< 1) := by
  rw [shift, feed, BitVec.shiftLeft_xor_distrib, BitVec.msb_xor, BitVec.xor_assoc, BitVec.xor_assoc,
    BitVec.xor_comm (d <<< 1)]

/-- What is added to the register is fed bit by bit as the register is shifted. -/
theorem shifts_xor (n : Nat) (c d : BitVec w) :
    shifts poly n (c ^^^ d) = remainder poly c (top n d) ^^^ (d <<< n) := by
  induction n generalizing c d with
  | zero => rw [shifts, BitVec.shiftLeft_zero]; rfl
  | succ n ih =>
    rw [shifts, shift_xor, ih, top_succ, ← BitVec.shiftLeft_add, Nat.add_comm 1 n]
    rfl

/-- All the bits of a word, when they are put at the top of the register. -/
theorem shifts_word (b : BitVec v) (h : v ≤ w) (c : BitVec w) :
    shifts poly v (c ^^^ (b.setWidth w <<< (w - v))) = remainder poly c (top v b) := by
  have hgone : b.setWidth w <<< (w - v) <<< v = 0#w := by
    rw [← BitVec.shiftLeft_add, Nat.sub_add_cancel h, BitVec.shiftLeft_eq_zero (Nat.le_refl w)]
  have htop : top v (b.setWidth w <<< (w - v)) = top v b := by
    refine List.map_congr_left fun k _ => ?_
    have hback : k + (w - v) + v - w = k := by omega
    rw [BitVec.getMsbD_shiftLeft, BitVec.getMsbD_setWidth,
      decide_eq_true (Nat.le_add_left _ _), hback, Bool.true_and]
  rw [shifts_xor, hgone, htop, BitVec.xor_zero]

theorem remainder_append (c : BitVec w) (a b : List Bool) :
    remainder poly c (a ++ b) = remainder poly (remainder poly c a) b := List.foldl_append

end Ma35d1.Machine.Crc
