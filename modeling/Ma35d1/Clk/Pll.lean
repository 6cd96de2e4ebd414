import Mathlib.Data.BitVec
import Mathlib.Data.Rat.Floor
import Ma35d1.Machine.Scan

/-!
# The advanced PLLs

`clk.c`: the divider search `CLK_CalPLLFreq_Mode0`, and the registers that `CLK_SetAdvPLLFreq`
writes and `CLK_GetAdvPLLClockFreq` reads back.
-/

namespace Ma35d1.Clk

open Machine

/-! ## The search -/

def freq1Mhz : Nat := 1000000
def freq40Mhz : Nat := 40000000
def freq85700Khz : Nat := 85700000
def freq600Mhz : Nat := 600000000
def freq1000Mhz : Nat := 1000000000
def freq2400Mhz : Nat := 2400000000

/-- The crystal, `__HXT` -/
def hxt : Nat := 24000000

/-- `u32MinM`, `u32MinN` and `u32MinP` -/
structure PllDiv where
  m : Nat
  n : Nat
  p : Nat
  deriving DecidableEq

/-- Why a loop is left: a division by zero, or a good result -/
inductive Exit where
  | divZero
  | found (b : Nat × PllDiv)

/-- A division in C -/
def divide (a b : Nat) : Except Exit Nat := if b = 0 then .error .divZero else .ok (a / b)

/-- `for (x = lo; x < hi + 1; x++)` -/
def span (lo hi : Nat) : List Nat := List.range' lo (hi + 1 - lo)

def rngMinM (src : Nat) : Nat := (if 1 < src / freq40Mhz then src / freq40Mhz else 1) % 0x100000000

def rngMaxM (src : Nat) : Nat := if src / freq1Mhz < 63 then src / freq1Mhz else 63

def rngMinN (con1 : Nat) : Nat := if 16 < freq600Mhz / con1 then freq600Mhz / con1 else 16

def rngMaxN (con1 : Nat) : Nat := if freq2400Mhz / con1 < 2047 then freq2400Mhz / con1 else 2047

def rngMinP (con2 : Nat) : Nat := if 1 < con2 / freq2400Mhz then con2 / freq2400Mhz else 1

def rngMaxP (con2 : Nat) : Nat := if con2 / freq85700Khz < 7 then con2 / freq85700Khz else 7

/-- `u32Tmp`; the difference of two `uint64_t` is cut to 32 bits. -/
def pllDiff (con3 pllFreq : Nat) : Nat :=
  (if pllFreq < con3 then con3 - pllFreq else pllFreq - con3) % 0x100000000

/-- The innermost loop's body -/
def tryP (pllFreq con2 m n : Nat) (b : Nat × PllDiv) (p : Nat) : Except Exit (Nat × PllDiv) := do
  let con3 ← divide con2 p
  let tmp := pllDiff con3 pllFreq
  if tmp < b.1 then
    if tmp = 0 then .error (.found (0, ⟨m, n, p⟩)) else .ok (tmp, ⟨m, n, p⟩)
  else .ok b

def tryN (pllFreq con1 m : Nat) (b : Nat × PllDiv) (n : Nat) : Except Exit (Nat × PllDiv) :=
  let con2 := con1 * n
  (span (rngMinP con2) (rngMaxP con2)).foldlM (tryP pllFreq con2 m n) b

/-- Both bounds for `u32TmpN` divide by `u64Con1`. -/
def tryM (src pllFreq : Nat) (b : Nat × PllDiv) (m : Nat) : Except Exit (Nat × PllDiv) := do
  let con1 ← divide src m
  if con1 = 0 then .error .divZero
  else (span (rngMinN con1) (rngMaxN con1)).foldlM (tryN pllFreq con1 m) b

def searchPll (src pllFreq : Nat) : Except Exit (Nat × PllDiv) :=
  (span (rngMinM src) (rngMaxM src)).foldlM (tryM src pllFreq) (0xFFFFFFFF, ⟨0, 0, 0⟩)

/-- `u32Reg[0]` and `u32Reg[1]` -/
def PllDiv.regs (t : PllDiv) : BitVec 32 × BitVec 32 :=
  (BitVec.ofNat 32 t.m <<< 12 ||| BitVec.ofNat 32 t.n, BitVec.ofNat 32 t.p <<< 4)

/-- `CLK_CalPLLFreq_Mode0`: the register values and the frequency. `none` is a division by zero. -/
def calPllFreqMode0 (src pllFreq : Nat) : Option ((BitVec 32 × BitVec 32) × Nat) :=
  if pllFreq < freq85700Khz ∨ freq2400Mhz < pllFreq then
    some ((0x307D#32, 0x10#32), freq1000Mhz)
  else
    match searchPll src pllFreq with
    | .error .divZero => none
    | .error (.found b) | .ok b =>
      if b.2.p * b.2.m = 0 then none
      else some (b.2.regs, src * b.2.n % 0x10000000000000000 / (b.2.p * b.2.m))

/-! ## The registers -/

structure PllRegs where
  ctl0 : BitVec 32
  ctl1 : BitVec 32
  ctl2 : BitVec 32

def sysPll : Nat := 1

def pllOpmodeInteger : Nat := 0

def modeMsk : BitVec 32 := 0xC0000#32
def fbdivMsk : BitVec 32 := 0x7FF#32
def indivMsk : BitVec 32 := 0x3F000#32
def pdMsk : BitVec 32 := 0x1#32
def outdivMsk : BitVec 32 := 0x70#32
def fracMsk : BitVec 32 := 0xFFFFFF00#32

/-- The mode and the dividers are set, and the power-down bit is cleared. -/
def PllRegs.write (c : PllRegs) (opMode : Nat) (r : BitVec 32 × BitVec 32) : PllRegs :=
  let ctl0 := (c.ctl0 &&& ~~~ modeMsk) ||| (BitVec.ofNat 32 opMode <<< 18)
  { ctl0 := (ctl0 &&& ~~~ (indivMsk ||| fbdivMsk)) ||| r.1
    ctl1 := ((c.ctl1 &&& ~~~ outdivMsk) ||| r.2) &&& ~~~ pdMsk
    ctl2 := c.ctl2 }

/-- `CLK_SetAdvPLLFreq`: the frequency and the registers -/
def setAdvPllFreq (idx opMode src pllFreq : Nat) (clk : Nat → PllRegs) :
    Option (Nat × (Nat → PllRegs)) :=
  if opMode = pllOpmodeInteger then
    (calPllFreqMode0 src pllFreq).map fun r =>
      (r.2, Function.update clk idx ((clk idx).write opMode r.1))
  else some (0, clk)

/-- What the dividers are in the registers -/
def PllRegs.dividers (c : PllRegs) : PllDiv where
  m := ((c.ctl0 &&& indivMsk) >>> 12).toNat
  n := (c.ctl0 &&& fbdivMsk).toNat
  p := ((c.ctl1 &&& outdivMsk) >>> 4).toNat

/-- `CLK_GetAdvPLLClockFreq`. `__HXT` is an `unsigned long`, of 64 bits on AArch64, so only the
result is cut to 32 bits. -/
def getAdvPllClockFreq (idx : Nat) (clk : Nat → PllRegs) : Option Nat :=
  if idx < sysPll then some 0
  else
    let c := clk idx
    if c.ctl1 &&& pdMsk ≠ 0 then some 0
    else
      let mode := ((c.ctl0 &&& modeMsk) >>> 18).toNat
      let d := c.dividers
      if d.p * d.m = 0 then none
      else if mode = pllOpmodeInteger then some (hxt * d.n / (d.p * d.m) % 0x100000000)
      else
        let x := ((c.ctl1 &&& fracMsk) >>> 8).toNat
        let x := (x * 1000 + 500) / 0x1000000
        some (hxt / 1000 * (d.n * 1000 + x) / (d.p * d.m) % 0x100000000)

/-! ## What is promised -/

/-- The limits on the dividers, the reference and the VCO -/
structure Legal (src : Nat) (t : PllDiv) : Prop where
  m : 1 ≤ t.m ∧ t.m ≤ 63
  n : 16 ≤ t.n ∧ t.n ≤ 2047
  p : 1 ≤ t.p ∧ t.p ≤ 7
  ref : freq1Mhz * t.m ≤ src ∧ src ≤ freq40Mhz * t.m
  vco : freq600Mhz * t.m ≤ src * t.n ∧ src * t.n ≤ freq2400Mhz * t.m

/-- How far the output is from the target -/
def deviation (src pllFreq : Nat) (t : PllDiv) : ℚ :=
  |(src * t.n : ℚ) / (t.m * t.p) - pllFreq|

/-- Within the limits, and nothing within them is closer. -/
def Nearest (src pllFreq : Nat) (t : PllDiv) : Prop :=
  Legal src t ∧ ∀ t', Legal src t' → deviation src pllFreq t ≤ deviation src pllFreq t'

/-- The frequency that was set is read back, whatever was in the registers. -/
def ReadsBack (pllFreq : Nat) : Prop :=
  ∀ idx, sysPll < idx → ∀ clk, ∃ r clk',
    setAdvPllFreq idx pllOpmodeInteger hxt pllFreq clk = some (r, clk') ∧
      getAdvPllClockFreq idx clk' = some r

/-- The search ends without a division by zero, and its registers hold the nearest dividers; with
the crystal as the source, the frequency is read back. -/
def FindsNearest (src pllFreq : Nat) : Prop :=
  (∃ r f, calPllFreqMode0 src pllFreq = some (r, f) ∧
    Nearest src pllFreq (PllRegs.mk r.1 r.2 0).dividers) ∧
    (src = hxt → ReadsBack pllFreq)

/-! ## The searched dividers -/

/-- In the order of the loops -/
def searched (src : Nat) : List PllDiv :=
  (span (rngMinM src) (rngMaxM src)).flatMap fun m =>
    (span (rngMinN (src / m)) (rngMaxN (src / m))).flatMap fun n =>
      (span (rngMinP (src / m * n)) (rngMaxP (src / m * n))).map fun p => ⟨m, n, p⟩

/-- The distance that the search compares, with its three divisions -/
def truncDiff (src pllFreq : Nat) (t : PllDiv) : Nat :=
  pllDiff (src / t.m * t.n / t.p) pllFreq

end Ma35d1.Clk
