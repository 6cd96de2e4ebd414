import Mathlib.Data.BitVec
import Ma35d1.Machine.Fields
import Ma35d1.Machine.Nearest

/-!
# The baud rates of the UARTs

`UART_Open`, `UART_SetLineConfig` and `UART_SelectIrDAMode` each decode the port, the source of its
clock and the divider of the source. The last two begin at port 1, and take the PLL at twice the
rate that it is divided to.
-/

namespace Ma35d1.Uart

open Machine

/-! ## The code -/

/-- The clock registers that are read -/
structure ClkRegs where
  clksel2 : BitVec 32
  clksel3 : BitVec 32
  clkdiv1 : BitVec 32
  clkdiv2 : BitVec 32
  clkdiv3 : BitVec 32

/-- The registers of a port that are written -/
structure UartRegs where
  funcsel : BitVec 32
  line : BitVec 32
  fifo : BitVec 32
  baud : BitVec 32
  irda : BitVec 32
  deriving DecidableEq

/-- `UART0_BASE` to `UART16_BASE` -/
def uartBase (n : Fin 17) : BitVec 32 :=
  if n = 16 then 0x40880000 else 0x40700000 + BitVec.ofNat 32 n <<< 16

/-- `u32UartPort` -/
def uartPort (uart : BitVec 32) : Nat :=
  if uart = uartBase 16 then 16 else ((uart &&& 0xf0000) >>> 16).toNat

/-- `u32UartClkSrcSel` and `u32UartClkDivNum`; `first` is the port that the decoding begins at. -/
def clkSelDiv (first : Nat) (c : ClkRegs) (port : Nat) : BitVec 32 × BitVec 32 :=
  if first ≤ port ∧ port ≤ 7 then
    ((c.clksel2 >>> (16 + port * 2)) &&& 0x3,
      if first ≤ port ∧ port ≤ 3 then (c.clkdiv1 >>> ((port + 4) * 4)) &&& 0xf
      else (c.clkdiv2 >>> ((port - 4) * 4)) &&& 0xf)
  else if 8 ≤ port ∧ port ≤ 16 then
    ((c.clksel3 >>> ((port - 8) * 2)) &&& 0x3,
      if 8 ≤ port ∧ port ≤ 11 then (c.clkdiv2 >>> ((port - 4) * 4)) &&& 0xf
      else (c.clkdiv3 >>> ((port - 12) * 4)) &&& 0xf)
  else (0, 0)

/-- `u32ClkTbl`, with the entry that is written when it is selected -/
def clkTbl (pll sel : BitVec 32) : BitVec 32 :=
  if sel = 0 then 24000000 else if sel = 1 then pll else if sel = 2 then 32768 else 12000000

/-- The frequency that is divided to the baud rate; `unsigned long` has 64 bits. -/
def clkFreq (first : Nat) (pll : BitVec 32) (c : ClkRegs) (uart : BitVec 32) : BitVec 64 :=
  let (sel, div) := clkSelDiv first c (uartPort uart)
  (clkTbl pll sel).setWidth 64 / (div.setWidth 64 + 1)

def baudMode0 : BitVec 32 := 0

def baudMode2 : BitVec 32 := 1#32 <<< 29 ||| 1#32 <<< 28

/-- `UART_BAUD_MODE0_DIVIDER` -/
def baudMode0Divider (srcFreq baudRate : BitVec 64) : BitVec 64 :=
  ((srcFreq + baudRate * 8) / baudRate) >>> 4 - 2

/-- `UART_BAUD_MODE2_DIVIDER` -/
def baudMode2Divider (srcFreq baudRate : BitVec 64) : BitVec 64 :=
  (srcFreq + baudRate / 2) / baudRate - 2

/-- What is written to `BAUD` -/
def baudReg (freq : BitVec 64) (baudrate old : BitVec 32) : BitVec 32 :=
  if baudrate = 0 then old
  else
    let div := (baudMode2Divider freq (baudrate.setWidth 64)).setWidth 32
    if 0xffff#32 < div then
      baudMode0 ||| (baudMode0Divider freq (baudrate.setWidth 64)).setWidth 32
    else baudMode2 ||| div

/-- `UART_Open` -/
def uartOpen (sysclk1 : BitVec 32) (c : ClkRegs) (uart baudrate : BitVec 32) (r : UartRegs) :
    UartRegs :=
  { r with
    funcsel := 0
    line := 3
    fifo := r.fifo &&& ~~~(0xf#32 <<< 4 ||| 0xf#32 <<< 16)
    baud := baudReg (clkFreq 0 (sysclk1 / 2) c uart) baudrate r.baud }

/-- `UART_SetLineConfig` -/
def uartSetLineConfig (sysclk1 : BitVec 32) (c : ClkRegs)
    (uart baudrate dataWidth parity stopBits : BitVec 32) (r : UartRegs) : UartRegs :=
  { r with
    baud := baudReg (clkFreq 1 sysclk1 c uart) baudrate r.baud
    line := dataWidth ||| parity ||| stopBits }

/-- The clock of `UART_SelectIrDAMode` -/
def irdaFreq (sysclk1 : BitVec 32) (c : ClkRegs) (uart : BitVec 32) : BitVec 64 :=
  clkFreq 1 sysclk1 c uart

/-- `UART_SelectIrDAMode` -/
def uartSelectIrdaMode (sysclk1 : BitVec 32) (c : ClkRegs) (uart baudrate direction : BitVec 32)
    (r : UartRegs) : UartRegs :=
  let div := (baudMode0Divider (irdaFreq sysclk1 c uart) (baudrate.setWidth 64)).setWidth 32
  { r with
    funcsel := 2
    baud := if baudrate ≠ 0 ∧ div < 0xffff#32 then baudMode0 ||| div else r.baud
    irda :=
      if direction = 0 then (r.irda ||| 1#32 <<< 6) &&& ~~~(1#32 <<< 1)
      else r.irda &&& ~~~(1#32 <<< 5) ||| 1#32 <<< 1 }

/-! ## What the clock registers select -/

/-- `UARTnSEL` -/
def ClkRegs.sel (c : ClkRegs) (n : Nat) : Nat :=
  if n < 8 then field c.clksel2 (16 + 2 * n) 2 else field c.clksel3 (2 * (n - 8)) 2

/-- `UARTnDIV` -/
def ClkRegs.div (c : ClkRegs) (n : Nat) : Nat :=
  if n < 4 then field c.clkdiv1 (16 + 4 * n) 4
  else if n < 12 then field c.clkdiv2 (4 * (n - 4)) 4
  else field c.clkdiv3 (4 * (n - 12)) 4

/-- `HXT`, `SYSCLK1_DIV2`, `LXT` and `HIRC` -/
def sourceFreq (sysclk1 sel : Nat) : Nat :=
  if sel = 0 then 24000000 else if sel = 1 then sysclk1 / 2 else if sel = 2 then 32768 else 12000000

/-- The clock of a port -/
def portFreq (sysclk1 : BitVec 32) (c : ClkRegs) (n : Nat) : Nat :=
  sourceFreq sysclk1.toNat (c.sel n) / (c.div n + 1)

/-- The quotient by the baud rate, rounded, fits mode 2 after the 2 is taken off. -/
def FitsMode2 (src baud : Nat) : Prop := (2 * src + baud) / (2 * baud) ≤ 0xffff + 2

instance (src baud : Nat) : Decidable (FitsMode2 src baud) := by
  unfold FitsMode2
  infer_instance

/-- The clocks of a bit, for one count of the divider -/
def unit (src baud : Nat) : Nat := if FitsMode2 src baud then baud else 16 * baud

/-- The register has the bits of mode 2 if its divider fits, and no others but those of a divider
that is a best one. -/
def BaudLaw (best : Nat → Nat → Nat → Prop) (src baud : Nat) (reg : BitVec 32) : Prop :=
  ∃ d ≤ 0xffff, reg.toNat = (if FitsMode2 src baud then baudMode2.toNat else 0) + d ∧
    best src (unit src baud) (d + 2)

/-- All three functions go by the clock of the port. -/
def PortLaw (best : Nat → Nat → Nat → Prop) (sysclk1 : BitVec 32) (c : ClkRegs) (n baud : Nat)
    (opened line : UartRegs) (irda : BitVec 64) : Prop :=
  opened.baud = line.baud ∧ BaudLaw best (portFreq sysclk1 c n) baud opened.baud ∧
    irda.toNat = portFreq sysclk1 c n

/-- A divider whose rate is nearest -/
def BestRate (src unit n : Nat) : Prop := NearestRate src unit 2 (0xffff + 2) n

/-- Port 0 runs at 24 MHz, and no other port from the PLL. -/
def SameClock (sysclk1 : BitVec 32) (c : ClkRegs) (n : Nat) : Prop :=
  if n = 0 then portFreq sysclk1 c n = 24000000 else c.sel n ≠ 1

/-! ## The clocks -/

section Clocks

variable {sysclk1 : BitVec 32} {c : ClkRegs} {n : Fin 17}

theorem uartPort_base (n : Fin 17) : uartPort (uartBase n) = n := by
  revert n
  decide

theorem toNat_shift_and (x : BitVec 32) {lo : Nat} (k : Nat) {m : BitVec 32}
    (hm : m.toNat = 2 ^ k - 1) : ((x >>> lo) &&& m).toNat = field x lo k := by
  rw [field_eq, BitVec.toNat_and, hm, Nat.and_two_pow_sub_one_eq_mod, BitVec.toNat_ushiftRight,
    Nat.shiftRight_eq_div_pow]

/-- The ports that are decoded are decoded as the registers are laid out. -/
theorem clkSelDiv_eq {first : Nat} (hfirst : first ≤ n.val) :
    (clkSelDiv first c n).1.toNat = c.sel n ∧ (clkSelDiv first c n).2.toNat = c.div n := by
  have hn := n.isLt
  unfold clkSelDiv ClkRegs.sel ClkRegs.div
  rcases Nat.lt_or_ge n.val 8 with h8 | h8
  · rw [if_pos ⟨hfirst, by omega⟩, if_pos h8]
    refine ⟨(toNat_shift_and _ 2 rfl).trans (by rw [Nat.mul_comm]), ?_⟩
    rcases Nat.lt_or_ge n.val 4 with h4 | h4
    · rw [if_pos ⟨hfirst, by omega⟩, if_pos h4]
      exact (toNat_shift_and _ 4 rfl).trans (congrArg (field _ · _) (by omega))
    · rw [if_neg (by omega), if_neg (by omega), if_pos (by omega)]
      exact (toNat_shift_and _ 4 rfl).trans (congrArg (field _ · _) (by omega))
  · rw [if_neg (by omega), if_pos ⟨h8, by omega⟩, if_neg (Nat.not_lt.mpr h8)]
    refine ⟨(toNat_shift_and _ 2 rfl).trans (congrArg (field _ · _) (by omega)), ?_⟩
    rw [if_neg (show ¬ n.val < 4 by omega)]
    rcases Nat.lt_or_ge n.val 12 with h12 | h12
    · rw [if_pos ⟨h8, by omega⟩, if_pos h12]
      exact (toNat_shift_and _ 4 rfl).trans (congrArg (field _ · _) (by omega))
    · rw [if_neg (by omega), if_neg (Nat.not_lt.mpr h12)]
      exact (toNat_shift_and _ 4 rfl).trans (congrArg (field _ · _) (by omega))

/-- The frequency for what is decoded -/
theorem toNat_clkFreq {first : Nat} {pll uart : BitVec 32} :
    (clkFreq first pll c uart).toNat =
      (clkTbl pll (clkSelDiv first c (uartPort uart)).1).toNat /
        ((clkSelDiv first c (uartPort uart)).2.toNat + 1) := by
  have htbl := (clkTbl pll (clkSelDiv first c (uartPort uart)).1).isLt
  have hdiv := (clkSelDiv first c (uartPort uart)).2.isLt
  unfold clkFreq
  rw [BitVec.toNat_udiv, BitVec.toNat_add, BitVec.toNat_setWidth, BitVec.toNat_setWidth,
    Nat.mod_eq_of_lt (by omega)]
  refine congrArg _ ?_
  show (_ % 2 ^ 64 + 1) % 2 ^ 64 = _
  omega

theorem toNat_clkTbl (sysclk1 pll sel : BitVec 32) :
    (clkTbl pll sel).toNat =
      if sel.toNat = 1 then pll.toNat else sourceFreq sysclk1.toNat sel.toNat := by
  have hne : ∀ k : BitVec 32, ¬ sel = k → ¬ sel.toNat = k.toNat := fun _ h h' =>
    h (BitVec.eq_of_toNat_eq h')
  unfold clkTbl sourceFreq
  by_cases h0 : sel = 0
  · subst h0
    rfl
  · by_cases h1 : sel = 1
    · subst h1
      rfl
    · have h0' : ¬ sel.toNat = 0 := hne 0 h0
      have h1' : ¬ sel.toNat = 1 := hne 1 h1
      rw [if_neg h0, if_neg h1, if_neg h1', if_neg h0', if_neg h1']
      by_cases h2 : sel = 2
      · subst h2
        rfl
      · have h2' : ¬ sel.toNat = 2 := hne 2 h2
        rw [if_neg h2, if_neg h2']
        rfl

theorem openFreq_eq : (clkFreq 0 (sysclk1 / 2) c (uartBase n)).toNat = portFreq sysclk1 c n := by
  obtain ⟨hsel, hdiv⟩ := clkSelDiv_eq (c := c) (Nat.zero_le n.val)
  have hhalf : (sysclk1 / 2).toNat = sysclk1.toNat / 2 := BitVec.toNat_udiv
  rw [toNat_clkFreq, uartPort_base, toNat_clkTbl sysclk1, hsel, hdiv, portFreq, hhalf]
  refine congrArg (· / _) ?_
  by_cases h1 : c.sel n = 1
  · rw [if_pos h1, h1]
    rfl
  · rw [if_neg h1]

theorem irdaFreq_zero : (irdaFreq sysclk1 c (uartBase 0)).toNat = 24000000 := by
  have hdecode : clkSelDiv 1 c 0 = (0, 0) := rfl
  unfold irdaFreq
  rw [toNat_clkFreq, uartPort_base, Fin.val_zero, hdecode]
  exact Nat.div_one 24000000

theorem irdaFreq_succ (hn : n.val ≠ 0) :
    (irdaFreq sysclk1 c (uartBase n)).toNat =
      if c.sel n = 1 then sysclk1.toNat / (c.div n + 1) else portFreq sysclk1 c n := by
  obtain ⟨hsel, hdiv⟩ := clkSelDiv_eq (c := c) (Nat.one_le_iff_ne_zero.mpr hn)
  unfold irdaFreq
  rw [toNat_clkFreq, uartPort_base, toNat_clkTbl sysclk1, hsel, hdiv]
  by_cases h1 : c.sel n = 1
  · rw [if_pos h1, if_pos h1]
  · rw [if_neg h1, if_neg h1, portFreq]

/-- From the PLL the other two functions see twice the clock, if there is one. -/
theorem irdaFreq_eq_iff (hpos : 0 < portFreq sysclk1 c n) :
    (irdaFreq sysclk1 c (uartBase n)).toNat = portFreq sysclk1 c n ↔ SameClock sysclk1 c n := by
  unfold SameClock
  by_cases hn : n.val = 0
  · obtain rfl : n = 0 := Fin.ext hn
    rw [irdaFreq_zero, if_pos hn]
    exact eq_comm
  · rw [if_neg hn, irdaFreq_succ hn]
    by_cases h1 : c.sel n = 1
    · rw [if_pos h1]
      refine iff_of_false (fun h => ?_) (fun h => h h1)
      have hhalf : portFreq sysclk1 c n = sysclk1.toNat / 2 / (c.div n + 1) := by
        rw [portFreq, h1]
        rfl
      rw [hhalf, Nat.div_div_eq_div_mul, Nat.mul_comm, ← Nat.div_div_eq_div_mul] at hpos h
      omega
    · rw [if_neg h1]
      exact iff_of_true rfl h1

end Clocks

/-! ## The register -/

section Register

variable {freq : BitVec 64} {baudrate old reg : BitVec 32} {src baud n : Nat}
  {best : Nat → Nat → Nat → Prop}

/-- The rounded quotient in the mode that is used -/
def rounded (src baud : Nat) : Nat := (2 * src + unit src baud) / (2 * unit src baud)

theorem half_up (hpos : 0 < baud) : (src + baud / 2) / baud = (2 * src + baud) / (2 * baud) := by
  refine Nat.le_antisymm ?_ ?_
  · refine (Nat.le_div_iff_mul_le (by omega)).mpr ?_
    have hfloor := Nat.div_mul_le_self (src + baud / 2) baud
    rw [Nat.mul_left_comm]
    omega
  · refine (Nat.le_div_iff_mul_le hpos).mpr ?_
    have hfloor := Nat.div_mul_le_self (2 * src + baud) (2 * baud)
    rw [Nat.mul_left_comm] at hfloor
    omega

theorem rounded_bounds (hpos : 0 < unit src baud) :
    2 * (rounded src baud * unit src baud) ≤ 2 * src + unit src baud ∧
      2 * src < 2 * (rounded src baud * unit src baud) + unit src baud := by
  have hfloor := Nat.div_mul_le_self (2 * src + unit src baud) (2 * unit src baud)
  have hceil := Nat.lt_div_mul_add (a := 2 * src + unit src baud)
    (Nat.mul_pos Nat.two_pos hpos)
  rw [Nat.mul_left_comm] at hfloor hceil
  unfold rounded
  omega

theorem unit_pos (src : Nat) (hpos : 0 < baud) : 0 < unit src baud := by
  unfold unit
  split <;> omega

/-- The rates for which the divider can be taken off -/
theorem two_le_rounded (hpos : 0 < baud) (hmin : 2 * baud ≤ src) : 2 ≤ rounded src baud := by
  refine (Nat.le_div_iff_mul_le (Nat.mul_pos Nat.two_pos (unit_pos src hpos))).mpr ?_
  unfold unit
  split
  · omega
  · rename_i hfit
    have hbig : 65538 ≤ (2 * src + baud) / (2 * baud) := Nat.lt_of_not_le hfit
    rw [Nat.le_div_iff_mul_le (by omega)] at hbig
    omega

theorem toNat_mode2Divider (hsrc : freq.toNat = src) (hlt : src < 2 ^ 32)
    (hpos : 0 < baudrate.toNat) (hmin : 2 * baudrate.toNat ≤ src) :
    ((baudMode2Divider freq (baudrate.setWidth 64)).setWidth 32).toNat =
      (src + baudrate.toNat / 2) / baudrate.toNat - 2 := by
  have hbaud : (baudrate.setWidth 64).toNat = baudrate.toNat :=
    BitVec.toNat_setWidth_of_le (by decide)
  have hsum : (freq + baudrate.setWidth 64 / 2).toNat = src + baudrate.toNat / 2 := by
    rw [BitVec.toNat_add, BitVec.toNat_udiv, hbaud, hsrc]
    have := baudrate.isLt
    exact Nat.mod_eq_of_lt (by show _ + _ / 2 < _; omega)
  have hge : 2 ≤ (src + baudrate.toNat / 2) / baudrate.toNat :=
    (Nat.le_div_iff_mul_le hpos).mpr (by omega)
  have hle : (src + baudrate.toNat / 2) / baudrate.toNat < 2 ^ 32 := by
    refine (Nat.div_lt_iff_lt_mul hpos).mpr ?_
    omega
  unfold baudMode2Divider
  rw [BitVec.toNat_setWidth, BitVec.toNat_sub, BitVec.toNat_udiv, hsum, hbaud]
  show (2 ^ 64 - 2 + _) % 2 ^ 64 % 2 ^ 32 = _
  generalize (src + baudrate.toNat / 2) / baudrate.toNat = q at hge hle
  omega

theorem toNat_mode0Divider (hsrc : freq.toNat = src) (hlt : src < 2 ^ 32)
    (hpos : 0 < baudrate.toNat) (hge : 2 ≤ (src + 8 * baudrate.toNat) / (16 * baudrate.toNat))
    (hle : (src + 8 * baudrate.toNat) / (16 * baudrate.toNat) ≤ 0xffff + 2) :
    ((baudMode0Divider freq (baudrate.setWidth 64)).setWidth 32).toNat =
      (src + 8 * baudrate.toNat) / (16 * baudrate.toNat) - 2 := by
  have hbaud : (baudrate.setWidth 64).toNat = baudrate.toNat :=
    BitVec.toNat_setWidth_of_le (by decide)
  have hsum : (freq + baudrate.setWidth 64 * 8).toNat = src + 8 * baudrate.toNat := by
    rw [BitVec.toNat_add, BitVec.toNat_mul, hbaud, hsrc]
    have := baudrate.isLt
    show (src + baudrate.toNat * 8 % 2 ^ 64) % 2 ^ 64 = _
    omega
  unfold baudMode0Divider
  rw [BitVec.toNat_setWidth, BitVec.toNat_sub, BitVec.toNat_ushiftRight, BitVec.toNat_udiv, hsum,
    hbaud, Nat.shiftRight_eq_div_pow, Nat.div_div_eq_div_mul, Nat.mul_comm baudrate.toNat]
  show (2 ^ 64 - 2 + (src + 8 * baudrate.toNat) / (16 * baudrate.toNat)) % 2 ^ 64 % 2 ^ 32 = _
  generalize (src + 8 * baudrate.toNat) / (16 * baudrate.toNat) = q at hge hle
  omega

/-- A rate of mode 0 that 16 bits can hold -/
def FitsMode0 (src baud : Nat) : Prop := (src + 8 * baud) / (16 * baud) ≤ 0xffff + 2

instance (src baud : Nat) : Decidable (FitsMode0 src baud) := by
  unfold FitsMode0
  infer_instance

theorem rounded_le (hmax : FitsMode0 src baud) : rounded src baud ≤ 0xffff + 2 := by
  unfold rounded unit
  split
  · assumption
  · rw [show 2 * src + 16 * baud = 2 * (src + 8 * baud) by omega,
      Nat.mul_div_mul_left _ _ Nat.two_pos]
    exact hmax

/-- The mode and the divider do not overlap. -/
theorem toNat_baudReg (old : BitVec 32) (hsrc : freq.toNat = src) (hlt : src < 2 ^ 32)
    (hpos : 0 < baudrate.toNat) (hmin : 2 * baudrate.toNat ≤ src)
    (hmax : FitsMode0 src baudrate.toNat) :
    (baudReg freq baudrate old).toNat =
      (if FitsMode2 src baudrate.toNat then baudMode2.toNat else 0) +
        (rounded src baudrate.toNat - 2) := by
  have hne : baudrate ≠ 0 := fun h => by simp [h] at hpos
  have htwo := two_le_rounded hpos hmin
  have hle := rounded_le hmax
  have hmode2 := toNat_mode2Divider hsrc hlt hpos hmin
  rw [half_up hpos] at hmode2
  unfold baudReg
  rw [if_neg hne]
  dsimp only
  have hfit : 0xffff#32 < (baudMode2Divider freq (baudrate.setWidth 64)).setWidth 32 ↔
      ¬ FitsMode2 src baudrate.toNat := by
    rw [BitVec.lt_def, hmode2, FitsMode2]
    show 65535 < _ ↔ _
    omega
  by_cases h2 : FitsMode2 src baudrate.toNat
  · have hquot : (2 * src + baudrate.toNat) / (2 * baudrate.toNat) =
        rounded src baudrate.toNat := by
      rw [rounded, unit, if_pos h2]
    rw [hquot] at hmode2
    rw [if_neg (fun h => hfit.mp h h2), if_pos h2,
      toNat_or_of_dvd (k := 16) (by decide) (by rw [hmode2]; omega), hmode2]
  · have hquot : (src + 8 * baudrate.toNat) / (16 * baudrate.toNat) =
        rounded src baudrate.toNat := by
      rw [rounded, unit, if_neg h2, ← Nat.mul_div_mul_left _ _ Nat.two_pos]
      exact congrArg (· / _) (by omega)
    have hmode0 := toNat_mode0Divider hsrc hlt hpos (hquot ▸ htwo) hmax
    rw [if_pos (hfit.mpr h2), if_neg h2, baudMode0, Nat.zero_add, ← hquot]
    exact (congrArg BitVec.toNat BitVec.zero_or).trans hmode0

/-- The register holds the rounded quotient. -/
theorem baudLaw_iff (hsrc : freq.toNat = src) (hlt : src < 2 ^ 32) (hpos : 0 < baudrate.toNat)
    (hmin : 2 * baudrate.toNat ≤ src) (hmax : FitsMode0 src baudrate.toNat) :
    BaudLaw best src baudrate.toNat (baudReg freq baudrate old) ↔
      best src (unit src baudrate.toNat) (rounded src baudrate.toNat) := by
  have htwo := two_le_rounded hpos hmin
  have hle := rounded_le hmax
  have hreg := toNat_baudReg old hsrc hlt hpos hmin hmax
  constructor
  · rintro ⟨d, -, hd, hbest⟩
    have heq : d + 2 = rounded src baudrate.toNat := by omega
    exact heq ▸ hbest
  · intro hbest
    refine ⟨rounded src baudrate.toNat - 2, by omega, hreg, ?_⟩
    rw [Nat.sub_add_cancel htwo]
    exact hbest

end Register

section Port

variable {best : Nat → Nat → Nat → Prop} {sysclk1 : BitVec 32} {c : ClkRegs} {n : Fin 17}
  {baudrate dataWidth parity stopBits : BitVec 32} {r r' : UartRegs}

theorem portFreq_lt : portFreq sysclk1 c n < 2 ^ 32 := by
  have hlt := sysclk1.isLt
  refine Nat.lt_of_le_of_lt (Nat.div_le_self _ _) ?_
  unfold sourceFreq
  split
  · omega
  · split
    · omega
    · split <;> omega

/-- The three functions agree where they see the same clock and its quotient is a best one. -/
theorem portLaw_iff (hpos : 0 < baudrate.toNat)
    (hmin : 2 * baudrate.toNat ≤ portFreq sysclk1 c n)
    (hmax : FitsMode0 (portFreq sysclk1 c n) baudrate.toNat) :
    PortLaw best sysclk1 c n baudrate.toNat (uartOpen sysclk1 c (uartBase n) baudrate r)
        (uartSetLineConfig sysclk1 c (uartBase n) baudrate dataWidth parity stopBits r')
        (irdaFreq sysclk1 c (uartBase n)) ↔
      SameClock sysclk1 c n ∧
        best (portFreq sysclk1 c n) (unit (portFreq sysclk1 c n) baudrate.toNat)
          (rounded (portFreq sysclk1 c n) baudrate.toNat) := by
  have hclock : _ ↔ SameClock sysclk1 c n := irdaFreq_eq_iff (by omega)
  have hlaw : BaudLaw best _ _ (uartOpen sysclk1 c (uartBase n) baudrate r).baud ↔ _ :=
    baudLaw_iff openFreq_eq portFreq_lt hpos hmin hmax
  constructor
  · rintro ⟨-, hbaud, hirda⟩
    exact ⟨hclock.mp hirda, hlaw.mp hbaud⟩
  · rintro ⟨hsame, hbest⟩
    have hirda := hclock.mpr hsame
    have hfreq : clkFreq 0 (sysclk1 / 2) c (uartBase n) = clkFreq 1 sysclk1 c (uartBase n) :=
      BitVec.eq_of_toNat_eq (openFreq_eq.trans hirda.symm)
    have hne : baudrate ≠ 0 := fun h => by simp [h] at hpos
    refine ⟨?_, hlaw.mpr hbest, hirda⟩
    unfold uartOpen uartSetLineConfig
    dsimp only
    rw [hfreq, baudReg, baudReg, if_neg hne, if_neg hne]

end Port

/-- The functions agree exactly on ports that do not run from the PLL, of which port 0 has to run
at 24 MHz. The divider is the integer nearest to the quotient; its rate is the nearest one unless
the quotient is between the harmonic and the arithmetic mean of two dividers. -/
theorem baud_law_iff (sysclk1 : BitVec 32) (c : ClkRegs) (n : Fin 17)
    (baudrate dataWidth parity stopBits : BitVec 32) (r r' : UartRegs)
    (hpos : 0 < baudrate.toNat) (hmin : 2 * baudrate.toNat ≤ portFreq sysclk1 c n)
    (hmax : FitsMode0 (portFreq sysclk1 c n) baudrate.toNat) :
    (PortLaw Nearest sysclk1 c n baudrate.toNat (uartOpen sysclk1 c (uartBase n) baudrate r)
        (uartSetLineConfig sysclk1 c (uartBase n) baudrate dataWidth parity stopBits r')
        (irdaFreq sysclk1 c (uartBase n)) ↔ SameClock sysclk1 c n) ∧
    (PortLaw BestRate sysclk1 c n baudrate.toNat (uartOpen sysclk1 c (uartBase n) baudrate r)
        (uartSetLineConfig sysclk1 c (uartBase n) baudrate dataWidth parity stopBits r')
        (irdaFreq sysclk1 c (uartBase n)) ↔
      SameClock sysclk1 c n ∧
        OutsideMeans (portFreq sysclk1 c n) (unit (portFreq sysclk1 c n) baudrate.toNat) 2
          (0xffff + 2)) := by
  obtain ⟨hlow, hhigh⟩ := rounded_bounds (unit_pos (portFreq sysclk1 c n) hpos)
  have htwo := two_le_rounded hpos hmin
  rw [portLaw_iff hpos hmin hmax, portLaw_iff hpos hmin hmax]
  refine ⟨and_iff_left (nearest_of_bounds hlow hhigh), and_congr_right fun _ => ?_⟩
  exact nearestRate_iff_outsideMeans hlow hhigh htwo (by omega) (rounded_le hmax)

/-- All ports run from 24 MHz and are not divided. -/
def crystal : ClkRegs := ⟨0, 0, 0, 0, 0⟩

/-- 115200 baud from 24 MHz -/
theorem baud_law_iff_crystal :
    PortLaw Nearest 180000000 crystal 3 115200
      (uartOpen 180000000 crystal (uartBase 3) 115200 ⟨0, 0, 0, 0, 0⟩)
      (uartSetLineConfig 180000000 crystal (uartBase 3) 115200 3 0 0 ⟨0, 0, 0, 0, 0⟩)
      (irdaFreq 180000000 crystal (uartBase 3)) :=
  (baud_law_iff 180000000 crystal 3 115200 3 0 0 ⟨0, 0, 0, 0, 0⟩ ⟨0, 0, 0, 0, 0⟩ (by decide)
    (by decide) (by decide)).1.mpr (by unfold SameClock; decide)

/-- Port 1 runs from the PLL. -/
def pllPort1 : ClkRegs := ⟨1 <<< 18, 0, 0, 0, 0⟩

/-- On a port that runs from the PLL, `UART_SetLineConfig` halves the rate of `UART_Open`. -/
theorem not_baud_law_pll :
    ¬ PortLaw Nearest 180000000 pllPort1 1 115200
      (uartOpen 180000000 pllPort1 (uartBase 1) 115200 ⟨0, 0, 0, 0, 0⟩)
      (uartSetLineConfig 180000000 pllPort1 (uartBase 1) 115200 3 0 0 ⟨0, 0, 0, 0, 0⟩)
      (irdaFreq 180000000 pllPort1 (uartBase 1)) := fun h => absurd h.1 (by decide)

end Ma35d1.Uart
