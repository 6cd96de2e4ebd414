import Mathlib.Data.BitVec
import Ma35d1.Machine.Fields
import Ma35d1.Machine.Nearest

/-!
# The bus clocks of SPI and QSPI

`SPI_Open` and `SPI_SetBusClock` divide the source that `CLKSEL4` selects, and `QSPI_Open` and
`QSPI_SetBusClock` do it once more. The field of the divider has nine bits: the two that open a
port stop at eight, and what all four return at the end of the field is a quotient by 256.
-/

namespace Ma35d1.Spi

open Machine

/-! ## The code -/

/-- What `CLK_GetPLLClockFreq(APLL)`, `CLK_GetSYSCLK0Freq` and `CLK_GetSYSCLK1Freq` return. -/
structure Freqs where
  apll : BitVec 32
  sysclk0 : BitVec 32
  sysclk1 : BitVec 32

/-- `CLK_GetPCLK0Freq`, `CLK_GetPCLK1Freq` and `CLK_GetPCLK2Freq` -/
def Freqs.pclk (f : Freqs) : BitVec 32 := f.sysclk1

/-- The registers of a port, and `CLKSEL4` -/
structure Regs where
  i2sctl : BitVec 32
  ssctl : BitVec 32
  ctl : BitVec 32
  clkdiv : BitVec 32
  clksel4 : BitVec 32
  deriving DecidableEq

/-- `SPI_CLKDIV_DIVIDER_Msk` and `QSPI_CLKDIV_DIVIDER_Msk` -/
def dividerMsk : BitVec 32 := 0x1ff

/-- What a port's functions are written with: its field of `CLKSEL4` and the value of it that
selects `APLL`, the bits that are compared with that value, the frequency from which on a request
is not divided, and what `CLKDIV` is set to then. -/
structure Port where
  selMsk : BitVec 32
  selApll : BitVec 32
  apllMsk : BitVec 32
  sysFreq : Freqs → BitVec 32
  whole : BitVec 32
  /-- The compared bits are of the field, and tell `APLL` from `PCLK`. -/
  apllMsk_sel : selMsk &&& apllMsk = apllMsk
  apllMsk_apll : selApll &&& apllMsk = selApll
  selApll_ne : selApll ≠ 0
  whole_le : whole ≤ 1

/-- The clock source; `none` where no branch assigns it. -/
def Port.clkSrc (p : Port) (f : Freqs) (clksel4 : BitVec 32) : Option (BitVec 32) :=
  if clksel4 &&& p.apllMsk = p.selApll then some f.apll
  else if clksel4 &&& p.selMsk = 0 then some f.pclk
  else none

/-- A request of the system clock or more selects `PCLK`. -/
def Port.select (p : Port) (f : Freqs) (busClock clksel4 : BitVec 32) : BitVec 32 :=
  if p.sysFreq f ≤ busClock then clksel4 &&& ~~~p.selMsk ||| 0 else clksel4

/-- What is returned, and `CLKDIV`; `top` is the greatest divider that is not cut. -/
def Port.divide (p : Port) (top : BitVec 32) (f : Freqs) (clkSrc busClock clkdiv : BitVec 32) :
    BitVec 32 × BitVec 32 :=
  if p.sysFreq f ≤ busClock then (clkSrc, p.whole)
  else if clkSrc ≤ busClock then (clkSrc, p.whole)
  else if busClock = 0 then (clkSrc / (0xff + 1), clkdiv ||| dividerMsk)
  else
    let div := (clkSrc * 10 / busClock + 5) / 10 - 1
    if top < div then (clkSrc / (0xff + 1), clkdiv ||| dividerMsk)
    else (clkSrc / (div + 1), clkdiv &&& ~~~dividerMsk ||| div <<< 0)

/-- `SPI_Open` from the frequency on, and `QSPI_Open` -/
def Port.openBus (p : Port) (f : Freqs) (masterSlave mode dataWidth busClock : BitVec 32)
    (r : Regs) : BitVec 32 × Regs :=
  let dataWidth := if dataWidth = 32 then 0 else dataWidth
  let r := { r with ssctl := 0, ctl := masterSlave ||| dataWidth <<< 8 ||| mode ||| 1 }
  if masterSlave = 0 then
    let sel := p.select f busClock r.clksel4
    -- the variable is 0 to begin with
    let out := p.divide 0xff f ((p.clkSrc f sel).getD 0) busClock r.clkdiv
    (out.1, { r with clkdiv := out.2, clksel4 := sel })
  else
    (f.pclk, { r with clkdiv := p.whole, clksel4 := r.clksel4 &&& ~~~p.selMsk ||| 0 })

def Port.setBusClock (p : Port) (f : Freqs) (busClock : BitVec 32) (r : Regs) :
    Option (BitVec 32 × Regs) := do
  let sel := p.select f busClock r.clksel4
  let clkSrc ← p.clkSrc f sel
  let out := p.divide 0x1ff f clkSrc busClock r.clkdiv
  return (out.1, { r with clkdiv := out.2, clksel4 := sel })

def Port.getBusClock (p : Port) (f : Freqs) (r : Regs) : Option (BitVec 32) := do
  let div := (r.clkdiv &&& dividerMsk) >>> 0
  let clkSrc ← p.clkSrc f r.clksel4
  return clkSrc / (div + 1)

/-- `SPI0` to `SPI3` -/
inductive SpiModule
  | spi0 | spi1 | spi2 | spi3
  deriving DecidableEq

/-- `CLK_CLKSEL4_SPI0SEL_Pos` and its like -/
def SpiModule.selPos : SpiModule → Nat
  | .spi0 => 0
  | .spi1 => 2
  | .spi2 => 4
  | .spi3 => 6

def SpiModule.port (m : SpiModule) : Port where
  selMsk := 3 <<< m.selPos
  selApll := 1 <<< m.selPos
  apllMsk := 3 <<< m.selPos
  sysFreq := Freqs.sysclk0
  whole := 0
  apllMsk_sel := by cases m <;> decide
  apllMsk_apll := by cases m <;> decide
  selApll_ne := by cases m <;> decide
  whole_le := by decide

/-- The test for `APLL` reads only the bit that `APLL` sets. -/
def qspi0 : Port where
  selMsk := 3 <<< 8
  selApll := 1 <<< 8
  apllMsk := 1 <<< 8
  sysFreq := Freqs.sysclk1
  whole := 1
  apllMsk_sel := by decide
  apllMsk_apll := by decide
  selApll_ne := by decide
  whole_le := by decide

/-- `SPI_Open` -/
def spiOpen (m : SpiModule) (f : Freqs) (masterSlave mode dataWidth busClock : BitVec 32)
    (r : Regs) : BitVec 32 × Regs :=
  m.port.openBus f masterSlave mode dataWidth busClock { r with i2sctl := r.i2sctl &&& ~~~1 }

/-- `SPI_SetBusClock` -/
def spiSetBusClock (m : SpiModule) := m.port.setBusClock

/-- `SPI_GetBusClock` -/
def spiGetBusClock (m : SpiModule) := m.port.getBusClock

/-- `QSPI_Open` -/
def qspiOpen := qspi0.openBus

/-- `QSPI_SetBusClock` -/
def qspiSetBusClock := qspi0.setBusClock

/-- `QSPI_GetBusClock` -/
def qspiGetBusClock := qspi0.getBusClock

/-! ## What the bus clock is to be -/

/-- `DIVIDER` -/
def Regs.divider (r : Regs) : Nat := field r.clkdiv 0 9

/-- What the field of `CLKSEL4` selects -/
def Port.source (p : Port) (f : Freqs) (clksel4 : BitVec 32) : Option (BitVec 32) :=
  if clksel4 &&& p.selMsk = p.selApll then some f.apll
  else if clksel4 &&& p.selMsk = 0 then some f.pclk
  else none

/-- `CLKSEL4` selects `APLL` or `PCLK`. -/
def Port.Selects (p : Port) (clksel4 : BitVec 32) : Prop :=
  clksel4 &&& p.selMsk = p.selApll ∨ clksel4 &&& p.selMsk = 0

/-- The divider is one less than an integer from 1 on that is nearest to the quotient; it is the
greatest there is if that does not fit, or for no request. -/
def DividerLaw (src req divider : Nat) : Prop :=
  if req = 0 then divider = 511 else ∃ n, Nearest src req n ∧ divider = min (max 1 n - 1) 511

/-- What a call returns is what it has programmed, and what is read back. -/
structure Truthful (p : Port) (f : Freqs) (src busClock clkdiv : BitVec 32)
    (out : BitVec 32 × Regs) : Prop where
  divider : DividerLaw src.toNat busClock.toNat out.2.divider
  fits : out.2.clkdiv >>> 9 = 0 ∨ out.2.clkdiv >>> 9 = clkdiv >>> 9
  returned : out.1.toNat = src.toNat / (out.2.divider + 1)
  readBack : p.getBusClock f out.2 = some out.1

/-- Both calls leave the same source and the same divider, and say so. -/
def BusClockLaw (p : Port) (f : Freqs) (busClock : BitVec 32) (r : Regs)
    (opened : BitVec 32 × Regs) (set : Option (BitVec 32 × Regs)) : Prop :=
  ∃ out src, set = some out ∧
    opened.2.clksel4 &&& p.selMsk = out.2.clksel4 &&& p.selMsk ∧
    p.source f opened.2.clksel4 = some src ∧
    opened.2.divider = out.2.divider ∧
    Truthful p f src busClock r.clkdiv opened ∧ Truthful p f src busClock r.clkdiv out

/-- A request that is not divided is to be of two thirds of the source or more, and `CLKDIV` 0; no
request is honest only below 256 Hz; any other is to have a nearest integer of at most 256 that is
also that of the product in 32 bits. -/
def Divides (p : Port) (f : Freqs) (busClock clksel4 : BitVec 32) : Prop :=
  let src := ((p.source f (p.select f busClock clksel4)).getD 0).toNat
  let req := busClock.toNat
  if p.sysFreq f ≤ busClock ∨ src ≤ req then p.whole = 0 ∧ 0 < req ∧ 2 * src ≤ 3 * req
  else if req = 0 then src < 256
  else ∃ n ≤ 256, Nearest src req n ∧
    10 * (n * req) ≤ src * 10 % 2 ^ 32 + 5 * req ∧ src * 10 % 2 ^ 32 < 10 * (n * req) + 5 * req

/-! ## The field of the divider -/

section Divider

variable {x d : BitVec 32}

theorem field_or_dividerMsk : field (x ||| dividerMsk) 0 9 = 511 := by
  have hand : (x ||| dividerMsk).extractLsb' 0 9 = 511#9 := by
    rw [BitVec.extractLsb'_or]
    exact BitVec.or_allOnes
  rw [field, hand]
  rfl

theorem shift_or_dividerMsk : (x ||| dividerMsk) >>> 9 = x >>> 9 := by
  rw [BitVec.ushiftRight_or_distrib]
  exact BitVec.or_zero

theorem field_put (hd : d ≤ 0x1ff) : field (x &&& ~~~dividerMsk ||| d) 0 9 = d.toNat := by
  have hlt : d.toNat < 2 ^ 9 := Nat.lt_succ_of_le hd
  have hand : (x &&& ~~~dividerMsk).extractLsb' 0 9 = 0#9 := by
    rw [BitVec.extractLsb'_and]
    exact BitVec.and_zero
  rw [field, BitVec.extractLsb'_or, hand, BitVec.zero_or, ← field, field_eq]
  omega

theorem shift_put (hd : d ≤ 0x1ff) : (x &&& ~~~dividerMsk ||| d) >>> 9 = x >>> 9 := by
  have hlt : d.toNat < 2 ^ 9 := Nat.lt_succ_of_le hd
  have hzero : d >>> 9 = 0#32 := by
    refine BitVec.eq_of_toNat_eq ?_
    rw [BitVec.toNat_ushiftRight, Nat.shiftRight_eq_div_pow]
    exact Nat.div_eq_of_lt hlt
  have hones : (~~~dividerMsk) >>> 9 = BitVec.allOnes 32 >>> 9 := by decide
  rw [BitVec.ushiftRight_or_distrib, BitVec.ushiftRight_and_distrib, hzero, BitVec.or_zero, hones,
    ← BitVec.ushiftRight_and_distrib, BitVec.and_allOnes]

theorem and_dividerMsk : (x &&& dividerMsk).toNat = field x 0 9 := by
  rw [field_eq, BitVec.toNat_and]
  exact (Nat.and_two_pow_sub_one_eq_mod _ 9).trans (by rw [Nat.pow_zero, Nat.div_one])

end Divider

/-! ## The source -/

section Source

variable {p : Port} {f : Freqs} {clksel4 busClock src : BitVec 32} {r : Regs}

theorem Port.clkSrc_eq (h : p.Selects clksel4) : p.clkSrc f clksel4 = p.source f clksel4 := by
  have hand : clksel4 &&& p.apllMsk = clksel4 &&& p.selMsk &&& p.apllMsk := by
    rw [BitVec.and_assoc, p.apllMsk_sel]
  unfold Port.clkSrc Port.source
  rcases h with h | h
  · rw [hand, h, p.apllMsk_apll, if_pos rfl]
  · have hzero : (0 : BitVec 32) &&& p.apllMsk = 0 := BitVec.zero_and
    rw [hand, h, hzero]

theorem Port.exists_source (h : p.Selects clksel4) : ∃ src, p.source f clksel4 = some src := by
  unfold Port.source
  split
  · exact ⟨_, rfl⟩
  · rename_i hapll
    exact ⟨_, if_pos (h.resolve_left hapll)⟩

theorem Port.Selects.select (h : p.Selects clksel4) :
    p.Selects (p.select f busClock clksel4) := by
  unfold Port.select
  split
  · refine .inr ?_
    simp [BitVec.and_assoc, BitVec.and_comm (~~~p.selMsk)]
  · exact h

theorem getBusClock_eq (hsel : p.Selects r.clksel4) (hsrc : p.source f r.clksel4 = some src) :
    p.getBusClock f r = some (src / ((r.clkdiv &&& dividerMsk) + 1)) := by
  simp [Port.getBusClock, Port.clkSrc_eq hsel, hsrc]

/-- What is returned is read back. -/
theorem readBack_iff {ret : BitVec 32} (hsel : p.Selects r.clksel4)
    (hsrc : p.source f r.clksel4 = some src) :
    p.getBusClock f r = some ret ↔ ret.toNat = src.toNat / (r.divider + 1) := by
  have hlt : r.divider < 2 ^ 9 := by
    unfold Regs.divider
    rw [field_eq]
    exact Nat.mod_lt _ (by decide)
  have hsum : ((r.clkdiv &&& dividerMsk) + 1).toNat = r.divider + 1 := by
    rw [BitVec.toNat_add, and_dividerMsk]
    exact Nat.mod_eq_of_lt (by unfold Regs.divider at hlt; show _ + 1 < _; omega)
  rw [getBusClock_eq hsel hsrc, Option.some.injEq, ← BitVec.toNat_inj, BitVec.toNat_udiv, hsum,
    eq_comm]

end Source

/-! ## The quotient in 32 bits -/

section Quotient

variable {x r n : Nat}

/-- The rounded quotient of the product is the integer whose half steps enclose it. -/
theorem rounded_iff (hr : 0 < r) (hn : 1 ≤ n) :
    (x / r + 5) / 10 = n ↔ 10 * (n * r) ≤ x + 5 * r ∧ x < 10 * (n * r) + 5 * r := by
  have hlow : 10 * n - 5 ≤ x / r ↔ (10 * n - 5) * r ≤ x := Nat.le_div_iff_mul_le hr
  have hhigh : x / r < 10 * n + 5 ↔ x < (10 * n + 5) * r := Nat.div_lt_iff_lt_mul hr
  have hmul : 5 * r ≤ 10 * n * r := Nat.mul_le_mul_right r (by omega)
  rw [Nat.sub_mul] at hlow
  rw [Nat.add_mul] at hhigh
  rw [← Nat.mul_assoc]
  omega

variable {src busClock : BitVec 32}

/-- `u32Div` -/
def rounded (src busClock : BitVec 32) : BitVec 32 := (src * 10 / busClock + 5) / 10 - 1

/-- A divider of eight bits is that of an integer up to 256. -/
theorem rounded_eq_iff (hreq : busClock ≠ 0) (hn : 1 ≤ n) (hn' : n ≤ 256) :
    (rounded src busClock).toNat + 1 = n ↔
      10 * (n * busClock.toNat) ≤ src.toNat * 10 % 2 ^ 32 + 5 * busClock.toNat ∧
        src.toNat * 10 % 2 ^ 32 < 10 * (n * busClock.toNat) + 5 * busClock.toNat := by
  have hpos : 0 < busClock.toNat := Nat.pos_of_ne_zero fun h => hreq (BitVec.eq_of_toNat_eq h)
  have hmul : (src * 10).toNat = src.toNat * 10 % 2 ^ 32 := BitVec.toNat_mul _ _
  have hquot : (rounded src busClock).toNat =
      ((src.toNat * 10 % 2 ^ 32 / busClock.toNat + 5) % 2 ^ 32 / 10 + (2 ^ 32 - 1)) % 2 ^ 32 := by
    unfold rounded
    rw [BitVec.toNat_sub, BitVec.toNat_udiv, BitVec.toNat_add, BitVec.toNat_udiv, hmul,
      Nat.add_comm]
    rfl
  have hlt : src.toNat * 10 % 2 ^ 32 / busClock.toNat < 2 ^ 32 :=
    Nat.lt_of_le_of_lt (Nat.div_le_self _ _) (Nat.mod_lt _ (by decide))
  rw [← rounded_iff hpos hn, hquot]
  generalize src.toNat * 10 % 2 ^ 32 / busClock.toNat = q at hlt
  -- neither the sum nor the difference wraps for such an integer
  have hsub : ((q + 5) % 2 ^ 32 / 10 + (2 ^ 32 - 1)) % 2 ^ 32 + 1 = n ↔
      (q + 5) % 2 ^ 32 / 10 = n := by
    have hle : (q + 5) % 2 ^ 32 / 10 < 2 ^ 31 := by omega
    generalize (q + 5) % 2 ^ 32 / 10 = t at hle
    omega
  rw [hsub]
  rcases Nat.lt_or_ge (q + 5) (2 ^ 32) with hq | hq
  · rw [Nat.mod_eq_of_lt hq]
  · have hwrap : (q + 5) % 2 ^ 32 < 5 := by omega
    omega

end Quotient

/-! ## When the calls agree -/

section Outcome

variable {p : Port} {f : Freqs} {src busClock clksel4 : BitVec 32} {r : Regs}
  {opened set : BitVec 32 × Regs} {top : BitVec 32}

/-- What the two kinds of call leave, with the greatest divider that they do not cut -/
structure Divided (p : Port) (top : BitVec 32) (f : Freqs) (src busClock : BitVec 32) (r : Regs)
    (out : BitVec 32 × Regs) : Prop where
  returned : out.1 = (p.divide top f src busClock r.clkdiv).1
  clkdiv : out.2.clkdiv = (p.divide top f src busClock r.clkdiv).2
  clksel4 : out.2.clksel4 = p.select f busClock r.clksel4

theorem openBus_divided (mode dataWidth : BitVec 32) (hsel : p.Selects r.clksel4)
    (hsrc : p.source f (p.select f busClock r.clksel4) = some src) :
    Divided p 0xff f src busClock r (p.openBus f 0 mode dataWidth busClock r) := by
  have hclk : p.clkSrc f (p.select f busClock r.clksel4) = some src :=
    (Port.clkSrc_eq hsel.select).trans hsrc
  constructor <;> simp [Port.openBus, hclk]

theorem setBusClock_divided (hsel : p.Selects r.clksel4)
    (hsrc : p.source f (p.select f busClock r.clksel4) = some src) :
    ∃ out, p.setBusClock f busClock r = some out ∧ Divided p 0x1ff f src busClock r out := by
  have hclk : p.clkSrc f (p.select f busClock r.clksel4) = some src :=
    (Port.clkSrc_eq hsel.select).trans hsrc
  refine ⟨_, by simp only [Port.setBusClock, hclk]; rfl, ?_⟩
  constructor <;> rfl

/-- What is to be shown of a call, once its source is known -/
theorem truthful_iff (hsel : p.Selects opened.2.clksel4)
    (hsrc : p.source f opened.2.clksel4 = some src) :
    Truthful p f src busClock r.clkdiv opened ↔
      DividerLaw src.toNat busClock.toNat opened.2.divider ∧
        (opened.2.clkdiv >>> 9 = 0 ∨ opened.2.clkdiv >>> 9 = r.clkdiv >>> 9) ∧
        opened.1.toNat = src.toNat / (opened.2.divider + 1) := by
  constructor
  · exact fun h => ⟨h.divider, h.fits, h.returned⟩
  · rintro ⟨hdiv, hfits, hret⟩
    exact ⟨hdiv, hfits, hret, (readBack_iff hsel hsrc).mpr hret⟩

/-- A divider of 0 is for requests of two thirds of the source and more, and one of 1 is not for
requests that are not below the source. -/
theorem whole_law_iff {src req whole : Nat} (hw : whole ≤ 1) :
    DividerLaw src req whole ∧ src = src / (whole + 1) ↔
      whole = 0 ∧ 0 < req ∧ 2 * src ≤ 3 * req := by
  unfold DividerLaw
  by_cases hreq : req = 0
  · rw [if_pos hreq]
    omega
  · have hpos := Nat.pos_of_ne_zero hreq
    rw [if_neg hreq]
    obtain rfl | rfl : whole = 0 ∨ whole = 1 := by omega
    · have hex := exists_nearest_le_iff (s := src) hpos 1
      constructor
      · rintro ⟨⟨n, hn, hmin⟩, -⟩
        have hle := hex.mp ⟨n, by omega, hn⟩
        omega
      · rintro ⟨-, -, hle⟩
        obtain ⟨n, hn, hnear⟩ := hex.mpr (by omega)
        exact ⟨⟨n, hnear, by omega⟩, (Nat.div_one src).symm⟩
    · refine iff_of_false ?_ (by omega)
      rintro ⟨⟨n, hn, hmin⟩, hsrc⟩
      -- only a source of 0 is half of itself, and 2 is far from its quotient
      obtain rfl : n = 2 := by omega
      have hnear := ((nearest_iff hpos).mp hn).1
      omega

/-- At the end of the field, 512 is told from 256 by every source from 256 on. -/
theorem top_law_iff {src req : Nat} :
    DividerLaw src req 511 ∧ src / 256 = src / (511 + 1) ↔ req = 0 ∧ src < 256 := by
  unfold DividerLaw
  by_cases hreq : req = 0
  · rw [if_pos hreq]
    omega
  · have hpos := Nat.pos_of_ne_zero hreq
    rw [if_neg hreq]
    refine iff_of_false ?_ (fun h => hreq h.1)
    rintro ⟨⟨n, hn, hmin⟩, hsrc⟩
    have hnear := ((nearest_iff hpos).mp hn).1
    have hle : 512 * 1 ≤ n * req := Nat.mul_le_mul (by omega) hpos
    have hle' : 512 * req ≤ n * req := Nat.mul_le_mul_right req (by omega)
    omega

theorem divide_whole {x : BitVec 32} (h : p.sysFreq f ≤ busClock ∨ src ≤ busClock) :
    p.divide top f src busClock x = (src, p.whole) := by
  unfold Port.divide
  by_cases hsys : p.sysFreq f ≤ busClock
  · rw [if_pos hsys]
  · rw [if_neg hsys, if_pos (h.resolve_left hsys)]

theorem divide_top {x : BitVec 32} (h : ¬ (p.sysFreq f ≤ busClock ∨ src ≤ busClock))
    (htop : busClock = 0 ∨ top < rounded src busClock) :
    p.divide top f src busClock x = (src / (0xff + 1), x ||| dividerMsk) := by
  obtain ⟨hsys, hsrc⟩ := not_or.mp h
  unfold Port.divide
  rw [if_neg hsys, if_neg hsrc]
  by_cases hreq : busClock = 0
  · rw [if_pos hreq]
  · rw [if_neg hreq]
    exact if_pos (htop.resolve_left hreq)

theorem divide_put {x : BitVec 32} (h : ¬ (p.sysFreq f ≤ busClock ∨ src ≤ busClock))
    (hreq : busClock ≠ 0) (hd : ¬ top < rounded src busClock) :
    p.divide top f src busClock x =
      (src / (rounded src busClock + 1), x &&& ~~~dividerMsk ||| rounded src busClock) := by
  obtain ⟨hsys, hsrc⟩ := not_or.mp h
  unfold Port.divide
  rw [if_neg hsys, if_neg hsrc, if_neg hreq]
  refine (if_neg hd).trans ?_
  rw [BitVec.shiftLeft_zero]
  rfl

theorem truthful_whole (hsel : p.Selects opened.2.clksel4)
    (hsrc : p.source f opened.2.clksel4 = some src) (hout : Divided p top f src busClock r opened)
    (h : p.sysFreq f ≤ busClock ∨ src ≤ busClock) :
    Truthful p f src busClock r.clkdiv opened ↔
      p.whole = 0 ∧ 0 < busClock.toNat ∧ 2 * src.toNat ≤ 3 * busClock.toNat := by
  have hle : p.whole.toNat ≤ 1 := p.whole_le
  have hzero : p.whole = 0 ↔ p.whole.toNat = 0 := by rw [← BitVec.toNat_inj]; rfl
  have hdiv : opened.2.divider = p.whole.toNat := by
    unfold Regs.divider
    rw [hout.clkdiv, divide_whole h, field_eq, Nat.pow_zero, Nat.div_one]
    exact Nat.mod_eq_of_lt (Nat.lt_of_le_of_lt hle (by decide))
  have hfits : opened.2.clkdiv >>> 9 = 0 := by
    rw [hout.clkdiv, divide_whole h]
    refine BitVec.eq_of_toNat_eq ?_
    rw [BitVec.toNat_ushiftRight, Nat.shiftRight_eq_div_pow]
    exact Nat.div_eq_of_lt (Nat.lt_of_le_of_lt hle (by decide))
  rw [truthful_iff hsel hsrc, hdiv, hout.returned, divide_whole h, hzero, ← whole_law_iff hle]
  exact and_congr_right fun _ => and_iff_right (.inl hfits)

theorem truthful_top (hsel : p.Selects opened.2.clksel4)
    (hsrc : p.source f opened.2.clksel4 = some src) (hout : Divided p top f src busClock r opened)
    (h : ¬ (p.sysFreq f ≤ busClock ∨ src ≤ busClock))
    (htop : busClock = 0 ∨ top < rounded src busClock) :
    Truthful p f src busClock r.clkdiv opened ↔ busClock.toNat = 0 ∧ src.toNat < 256 := by
  have hdiv : opened.2.divider = 511 := by
    unfold Regs.divider
    rw [hout.clkdiv, divide_top h htop, field_or_dividerMsk]
  have hfits : opened.2.clkdiv >>> 9 = r.clkdiv >>> 9 := by
    rw [hout.clkdiv, divide_top h htop, shift_or_dividerMsk]
  have hret : opened.1.toNat = src.toNat / 256 := by
    rw [hout.returned, divide_top h htop]
    exact BitVec.toNat_udiv
  rw [truthful_iff hsel hsrc, hdiv, hret, ← top_law_iff]
  exact and_congr_right fun _ => and_iff_right (.inr hfits)

theorem truthful_put (hsel : p.Selects opened.2.clksel4)
    (hsrc : p.source f opened.2.clksel4 = some src) (hout : Divided p top f src busClock r opened)
    (h : ¬ (p.sysFreq f ≤ busClock ∨ src ≤ busClock)) (hreq : busClock ≠ 0)
    (hd : ¬ top < rounded src busClock) (htop : top ≤ 0x1ff) :
    opened.2.divider = (rounded src busClock).toNat ∧
      (Truthful p f src busClock r.clkdiv opened ↔
        DividerLaw src.toNat busClock.toNat (rounded src busClock).toNat) := by
  have hle : rounded src busClock ≤ 0x1ff := BitVec.le_trans (BitVec.not_lt.mp hd) htop
  have hdiv : opened.2.divider = (rounded src busClock).toNat := by
    unfold Regs.divider
    rw [hout.clkdiv, divide_put h hreq hd, field_put hle]
  have hfits : opened.2.clkdiv >>> 9 = r.clkdiv >>> 9 := by
    rw [hout.clkdiv, divide_put h hreq hd, shift_put hle]
  have hret : opened.1.toNat = src.toNat / ((rounded src busClock).toNat + 1) := by
    have hlt : (rounded src busClock).toNat ≤ 511 := hle
    rw [hout.returned, divide_put h hreq hd, BitVec.toNat_udiv, BitVec.toNat_add]
    exact congrArg _ (Nat.mod_eq_of_lt (by show _ + 1 < _; omega))
  refine ⟨hdiv, ?_⟩
  rw [truthful_iff hsel hsrc, hdiv]
  exact and_iff_left ⟨.inr hfits, hret⟩

/-- The integer that a request between 0 and the source is divided by -/
theorem divided_iff (hlt : ¬ src ≤ busClock) (hreq : busClock ≠ 0) :
    (∃ n ≤ 256, Nearest src.toNat busClock.toNat n ∧
      10 * (n * busClock.toNat) ≤ src.toNat * 10 % 2 ^ 32 + 5 * busClock.toNat ∧
      src.toNat * 10 % 2 ^ 32 < 10 * (n * busClock.toNat) + 5 * busClock.toNat) ↔
    ¬ 0xff < rounded src busClock ∧
      DividerLaw src.toNat busClock.toNat (rounded src busClock).toNat := by
  have hpos : 0 < busClock.toNat := Nat.pos_of_ne_zero fun h => hreq (BitVec.eq_of_toNat_eq h)
  have hsrc : busClock.toNat < src.toNat := BitVec.lt_def.mp (BitVec.not_le.mp hlt)
  have hbig : 0xff < rounded src busClock ↔ 255 < (rounded src busClock).toNat := Iff.rfl
  -- 0 is not nearest to a quotient above 1
  have hone : ∀ n, Nearest src.toNat busClock.toNat n → 1 ≤ n := by
    intro n hn
    have hnear := ((nearest_iff hpos).mp hn).2
    refine Nat.pos_of_ne_zero fun h => ?_
    subst h
    omega
  rw [DividerLaw, if_neg (Nat.ne_of_gt hpos), hbig]
  constructor
  · rintro ⟨n, hle, hn, hbounds⟩
    have hround := (rounded_eq_iff hreq (hone n hn) hle).mpr hbounds
    exact ⟨by omega, n, hn, by omega⟩
  · rintro ⟨hsmall, n, hn, hmin⟩
    have hpos' := hone n hn
    exact ⟨n, by omega, hn, (rounded_eq_iff hreq hpos' (by omega)).mp (by omega)⟩

theorem busClockLaw_iff (hsel : p.Selects r.clksel4)
    (hopen : ∀ src, p.source f (p.select f busClock r.clksel4) = some src →
      Divided p 0xff f src busClock r opened) :
    BusClockLaw p f busClock r opened (p.setBusClock f busClock r) ↔
      Divides p f busClock r.clksel4 := by
  have hsel' : p.Selects (p.select f busClock r.clksel4) := hsel.select
  obtain ⟨src, hsrc⟩ := p.exists_source (f := f) hsel'
  obtain ⟨set, hset, hdset⟩ := setBusClock_divided hsel hsrc
  have hdopen := hopen src hsrc
  have hsel₁ : p.Selects opened.2.clksel4 := hdopen.clksel4 ▸ hsel'
  have hsel₂ : p.Selects set.2.clksel4 := hdset.clksel4 ▸ hsel'
  have hsrc₁ : p.source f opened.2.clksel4 = some src := by rw [hdopen.clksel4]; exact hsrc
  have hsrc₂ : p.source f set.2.clksel4 = some src := by rw [hdset.clksel4]; exact hsrc
  have hlaw : BusClockLaw p f busClock r opened (p.setBusClock f busClock r) ↔
      opened.2.divider = set.2.divider ∧ Truthful p f src busClock r.clkdiv opened ∧
        Truthful p f src busClock r.clkdiv set := by
    unfold BusClockLaw
    rw [hset]
    constructor
    · rintro ⟨_, _, ⟨⟩, -, hs, hdiv, ho, ht⟩
      obtain rfl := Option.some.inj (hsrc₁.symm.trans hs)
      exact ⟨hdiv, ho, ht⟩
    · rintro ⟨hdiv, ho, ht⟩
      exact ⟨set, src, rfl, by rw [hdopen.clksel4, hdset.clksel4], hsrc₁, hdiv, ho, ht⟩
  have hle : src ≤ busClock ↔ src.toNat ≤ busClock.toNat := Iff.rfl
  have hreq : busClock = 0 ↔ busClock.toNat = 0 := by rw [← BitVec.toNat_inj]; rfl
  rw [hlaw]
  simp only [Divides, hsrc, Option.getD_some, ← hle, ← hreq]
  by_cases hwhole : p.sysFreq f ≤ busClock ∨ src ≤ busClock
  · have hdiv : opened.2.divider = set.2.divider := by
      unfold Regs.divider
      rw [hdopen.clkdiv, hdset.clkdiv, divide_whole hwhole, divide_whole hwhole]
    rw [if_pos hwhole, truthful_whole hsel₁ hsrc₁ hdopen hwhole,
      truthful_whole hsel₂ hsrc₂ hdset hwhole, and_self]
    exact and_iff_right hdiv
  · rw [if_neg hwhole]
    by_cases h0 : busClock = 0
    · have hdiv : opened.2.divider = set.2.divider := by
        unfold Regs.divider
        rw [hdopen.clkdiv, hdset.clkdiv, divide_top hwhole (.inl h0), divide_top hwhole (.inl h0)]
      rw [if_pos h0, truthful_top hsel₁ hsrc₁ hdopen hwhole (.inl h0),
        truthful_top hsel₂ hsrc₂ hdset hwhole (.inl h0), and_self, ← hreq, and_iff_right h0]
      exact and_iff_right hdiv
    · rw [if_neg h0, divided_iff (not_or.mp hwhole).2 h0]
      by_cases hcut : 0xff < rounded src busClock
      · rw [truthful_top hsel₁ hsrc₁ hdopen hwhole (.inr hcut), ← hreq]
        exact iff_of_false (fun h => h0 h.2.1.1) (fun h => h.1 hcut)
      · have hcut' : ¬ 0x1ff < rounded src busClock := fun h =>
          hcut (BitVec.lt_trans (by decide) h)
        obtain ⟨hd₁, ht₁⟩ := truthful_put hsel₁ hsrc₁ hdopen hwhole h0 hcut (by decide)
        obtain ⟨hd₂, ht₂⟩ := truthful_put hsel₂ hsrc₂ hdset hwhole h0 hcut' (by decide)
        rw [ht₁, ht₂, hd₁, hd₂, and_self]
        exact (and_iff_right rfl).trans (and_iff_right hcut).symm

end Outcome

/-- The calls of a port agree and tell the truth exactly where the request is divided by the
nearest integer within eight bits, or is not divided and need not be. -/
theorem busClock_law_iff (f : Freqs) (mode dataWidth busClock : BitVec 32) (r : Regs) :
    (∀ m : SpiModule, m.port.Selects r.clksel4 →
      (BusClockLaw m.port f busClock r (spiOpen m f 0 mode dataWidth busClock r)
        (spiSetBusClock m f busClock r) ↔ Divides m.port f busClock r.clksel4)) ∧
    (qspi0.Selects r.clksel4 →
      (BusClockLaw qspi0 f busClock r (qspiOpen f 0 mode dataWidth busClock r)
        (qspiSetBusClock f busClock r) ↔ Divides qspi0 f busClock r.clksel4)) := by
  refine ⟨fun m hsel => busClockLaw_iff hsel fun src hsrc => ?_,
    fun hsel => busClockLaw_iff hsel fun src hsrc => openBus_divided mode dataWidth hsel hsrc⟩
  obtain ⟨hret, hclkdiv, hclksel4⟩ := openBus_divided mode dataWidth
    (r := { r with i2sctl := r.i2sctl &&& ~~~1 }) hsel hsrc
  exact ⟨hret, hclkdiv, hclksel4⟩

/-- A port whose source is `APLL` at 100 MHz -/
def apllRegs : Regs := ⟨0, 0, 0, 0, 0x101⟩

def someFreqs : Freqs := ⟨100000000, 200000000, 180000000⟩

/-- 30 MHz are a third of 100 MHz, to the nearest integer. -/
theorem busClock_law_iff_third :
    BusClockLaw SpiModule.spi0.port someFreqs 30000000 apllRegs
        (spiOpen .spi0 someFreqs 0 0 8 30000000 apllRegs)
        (spiSetBusClock .spi0 someFreqs 30000000 apllRegs) ∧
      BusClockLaw qspi0 someFreqs 30000000 apllRegs
        (qspiOpen someFreqs 0 0 8 30000000 apllRegs)
        (qspiSetBusClock someFreqs 30000000 apllRegs) := by
  obtain ⟨hspi, hqspi⟩ := busClock_law_iff someFreqs 0 8 30000000 apllRegs
  have hnear : Nearest 100000000 30000000 3 := (nearest_iff (by decide)).mpr (by decide)
  exact ⟨(hspi .spi0 (.inl (by decide))).mpr ⟨3, by decide, hnear, by decide⟩,
    (hqspi (.inl (by decide))).mpr ⟨3, by decide, hnear, by decide⟩⟩

/-- Without a request a port of SPI returns twice its clock; QSPI halves a source that it is asked
for whole. -/
theorem not_busClock_law_zero :
    ¬ BusClockLaw SpiModule.spi0.port someFreqs 0 apllRegs
        (spiOpen .spi0 someFreqs 0 0 8 0 apllRegs) (spiSetBusClock .spi0 someFreqs 0 apllRegs) ∧
      ¬ BusClockLaw qspi0 someFreqs 100000000 apllRegs
        (qspiOpen someFreqs 0 0 8 100000000 apllRegs)
        (qspiSetBusClock someFreqs 100000000 apllRegs) := by
  constructor
  · rintro ⟨out, src, -, -, hsrc, -, hopen, -⟩
    obtain rfl : someFreqs.apll = src := Option.some.inj hsrc
    exact absurd hopen.returned (by decide)
  · rintro ⟨out, src, -, -, hsrc, -, hopen, -⟩
    obtain rfl : someFreqs.apll = src := Option.some.inj hsrc
    exact absurd hopen.returned (by decide)

end Ma35d1.Spi
