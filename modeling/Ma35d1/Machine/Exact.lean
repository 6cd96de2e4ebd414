import Mathlib.Init

/-!
# Exact arithmetic of 32 bits

The operations on numbers that fit in 32 bits, with `none` where the machine's result is not the
number's: an overflow, a difference below zero, or a division by zero.
-/

namespace Ma35d1.Machine.Exact

variable {a b : Nat}

def add (a b : Nat) : Option Nat := if a + b < 0x100000000 then some (a + b) else none

def sub (a b : Nat) : Option Nat := if b ≤ a then some (a - b) else none

def mul (a b : Nat) : Option Nat := if a * b < 0x100000000 then some (a * b) else none

def div (a b : Nat) : Option Nat := if b = 0 then none else some (a / b)

theorem add_eq (h : a + b < 0x100000000) : add a b = some (a + b) := if_pos h

theorem sub_eq (h : b ≤ a) : sub a b = some (a - b) := if_pos h

theorem mul_eq (h : a * b < 0x100000000) : mul a b = some (a * b) := if_pos h

theorem div_eq (h : 0 < b) : div a b = some (a / b) := if_neg (Nat.ne_of_gt h)

end Ma35d1.Machine.Exact
