import Mathlib.Data.BitVec
import Mathlib.Logic.Function.Basic
import Mathlib.Order.Bounds.Basic
import Ma35d1.Machine.Exact

/-!
# The search for a prescaler

`EPWM_ConfigOutputChannel`, `EPWM_ConfigCaptureChannel` and `TPWM_ConfigOutputFreqAndDuty` look
for the first prescaler that makes a period fit, or a unit time long enough. The prescaler is
written less one, into 12 bits; the period less one and the compare value, into 16.
-/

namespace Ma35d1.Pwm

open Machine

/-! ## The registers -/

/-- The registers of an `EPWM_T` that are written; two channels share a prescaler. -/
structure Epwm where
  ctl1 : BitVec 32
  wgctl0 : BitVec 32
  wgctl1 : BitVec 32
  clkpsc : Nat → Nat
  period : Nat → Nat
  cmpdat : Nat → Nat

/-- The registers of a `TIMER_T` that are written. -/
structure Timer where
  pwmctl : BitVec 32
  pwmclkpsc : Nat
  pwmperiod : Nat
  pwmcmpdat : Nat

/-! ## `EPWM_ConfigOutputChannel` -/

/-- The loop of `EPWM_ConfigOutputChannel`, with `n` prescalers left below `0xFFF`:
`u32Prescale` and `u32CNR`. -/
def outputSearch (src freq : Nat) : Nat → Nat → Option (Nat × Nat)
  | 0, prescale => some (prescale, 0xFFFF)
  | n + 1, prescale => do
    let i ← Exact.div (← Exact.div src freq) prescale
    if i < 0x10000 then some (prescale, i) else outputSearch src freq n (prescale + 1)

/-- `EPWM_ConfigOutputChannel`: the returned frequency, and the registers. -/
def epwmConfigOutputChannel (src freq duty ch : Nat) (r : Epwm) : Option (Nat × Epwm) := do
  let (prescale, cnr) ← outputSearch src freq 0xFFE 1
  let i ← Exact.div src (← Exact.mul prescale cnr)
  let prescale ← Exact.sub prescale 1
  let r := { r with
    clkpsc := Function.update r.clkpsc (ch / 2) prescale
    ctl1 := r.ctl1 &&& ~~~(0x3#32 <<< (ch * 2) ||| 0x10000#32 <<< ch) }
  let cnr ← Exact.sub cnr 1
  let cmr ← Exact.div (← Exact.mul duty (← Exact.add cnr 1)) 100
  some (i, { r with
    period := Function.update r.period ch cnr
    cmpdat := Function.update r.cmpdat ch cmr
    -- high from the zero point, low from the compare point
    wgctl0 := r.wgctl0 &&& ~~~(0x30003#32 <<< (ch * 2)) ||| 2#32 <<< (ch * 2)
    wgctl1 := r.wgctl1 &&& ~~~(0x30003#32 <<< (ch * 2)) ||| 1#32 <<< (ch * 2) })

/-! ## `EPWM_ConfigCaptureChannel` -/

/-- The loop of `EPWM_ConfigCaptureChannel`, with `n` prescalers left up to `0x1000`:
`u16Prescale` and `u32NearestUnitTimeNsec`. -/
def captureSearch (src unit : Nat) : Nat → Nat → Nat → Option (Nat × Nat)
  | 0, prescale, near => some (prescale, near)
  | n + 1, prescale, _ => do
    let near ← Exact.div (← Exact.mul 1000000 prescale) src
    if near < unit then
      -- the exit that is chosen at the last prescaler is overwritten by this one
      let longer ← Exact.mul 1000000 (← Exact.add prescale 1)
      let u32Exit := !decide (longer > (← Exact.mul near src))
      if u32Exit then some (prescale, near) else captureSearch src unit n (prescale + 1) near
    else some (prescale, near)

/-- `EPWM_ConfigCaptureChannel`: the returned unit time, and the registers. -/
def epwmConfigCaptureChannel (src unit ch : Nat) (r : Epwm) : Option (Nat × Epwm) := do
  let (prescale, near) ← captureSearch (← Exact.div src 1000) unit 0x1000 1 0
  let prescale ← Exact.sub prescale 1
  some (near, { r with
    clkpsc := Function.update r.clkpsc (ch / 2) prescale
    -- a down counter that reloads
    ctl1 := (r.ctl1 &&& ~~~(0x3#32 <<< (ch * 2)) ||| 1#32 <<< (ch * 2)) &&& ~~~(0x10000#32 <<< ch)
    period := Function.update r.period ch 0xFFFF })

/-! ## `TPWM_ConfigOutputFreqAndDuty` -/

/-- The loop of `TPWM_ConfigOutputFreqAndDuty`, with `n` prescalers left up to `0x1000`:
`u32Prescaler` and `u32Period`. -/
def timerSearch (src freq : Nat) : Nat → Nat → Nat → Option (Nat × Nat)
  | 0, prescaler, period => some (prescaler, period)
  | n + 1, prescaler, _ => do
    let period ← Exact.div (← Exact.div src prescaler) freq
    if period ≤ 0x10000 then some (prescaler, period)
    else timerSearch src freq n (prescaler + 1) period

/-- `u32CMP` of `TPWM_ConfigOutputFreqAndDuty`. -/
def timerCompare (duty period : Nat) : Option Nat :=
  if duty ≠ 0 then do Exact.div (← Exact.mul duty period) 100 else some 0

/-- `TPWM_ConfigOutputFreqAndDuty`: the returned frequency, and the registers. -/
def tpwmConfigOutputFreqAndDuty (src freq duty : Nat) (r : Timer) : Option (Nat × Timer) := do
  let (prescaler, period) ← timerSearch src freq 0x1000 1 0
  let target ← Exact.div (← Exact.div src prescaler) period
  let cmp ← timerCompare duty period
  some (target,
    { pwmctl := r.pwmctl &&& ~~~0x6#32 &&& ~~~0x8#32
      pwmclkpsc := ← Exact.sub prescaler 1
      pwmperiod := ← Exact.sub period 1
      pwmcmpdat := cmp })

/-! ## The laws -/

/-- What is programmed: the fields, and what is returned. -/
structure Programmed where
  clkpsc : Nat
  period : Nat
  cmp : Nat
  ret : Nat

/-- The prescalers of the 12-bit field that make a period of 16 bits. -/
def Fits (src freq : Nat) : Set Nat := {p | 1 ≤ p ∧ p ≤ 0x1000 ∧ src / freq / p ≤ 0x10000}

/-- A setting of an output: its fields, the frequency, the prescaler and the duty. -/
structure OutputLaw (src freq duty : Nat) (s : Programmed) : Prop where
  clkpsc : s.clkpsc < 0x1000
  period : s.period < 0x10000
  cmp : s.cmp < 0x10000
  ret : s.ret = src / ((s.clkpsc + 1) * (s.period + 1))
  least : (Fits src freq).Nonempty → IsLeast (Fits src freq) (s.clkpsc + 1)
  duty : s.cmp * 100 ≤ duty * (s.period + 1) ∧ duty * (s.period + 1) < (s.cmp + 1) * 100

/-- The call comes to an end without overflow and leaves a setting that keeps the law. -/
def EpwmOutputLaw (src freq duty ch : Nat) (r : Epwm) : Prop :=
  ∃ x ∈ epwmConfigOutputChannel src freq duty ch r,
    OutputLaw src freq duty ⟨x.2.clkpsc (ch / 2), x.2.period ch, x.2.cmpdat ch, x.1⟩

def TpwmOutputLaw (src freq duty : Nat) (r : Timer) : Prop :=
  ∃ x ∈ tpwmConfigOutputFreqAndDuty src freq duty r,
    OutputLaw src freq duty ⟨x.2.pwmclkpsc, x.2.pwmperiod, x.2.pwmcmpdat, x.1⟩

/-- The returned unit time is that of the prescaler, in nanoseconds. -/
def CaptureLaw (src unit ch : Nat) (r : Epwm) : Prop :=
  ∃ x ∈ epwmConfigCaptureChannel src unit ch r,
    x.2.clkpsc (ch / 2) < 0x1000 ∧ x.2.period ch < 0x10000 ∧
      x.1 = 1000000000 * (x.2.clkpsc (ch / 2) + 1) / src

/-- No prescaler fits, or none that is smaller than the one used makes a period of `0x10000`. -/
def EpwmKeeps (src freq : Nat) : Prop :=
  0x1000 ≤ src / freq / 0x10001 ∨
    min (src / freq / 0x10000 + 1) 0xFFF = src / freq / 0x10001 + 1

/-- A prescaler fits, and a full duty is not asked of a period of `0x10000`. -/
def TpwmKeeps (src freq duty : Nat) : Prop :=
  src / freq / 0x10001 < 0x1000 ∧
    ¬ (duty = 100 ∧ src / freq / (src / freq / 0x10001 + 1) = 0x10000)

/-- The first prescaler whose unit time, for a clock of `khz`, is not below `unit`. -/
def unitPrescale (khz unit : Nat) : Nat := max 1 ((unit * khz + 999999) / 1000000)

/-- A prescaler is long enough, and its unit time is the same for the clock cut to kHz. -/
def CaptureKeeps (src unit : Nat) : Prop :=
  unitPrescale (src / 1000) unit ≤ 0x1000 ∧
    1000000 * unitPrescale (src / 1000) unit / (src / 1000) =
      1000000000 * unitPrescale (src / 1000) unit / src

/-! ## The prescaler of an output -/

section Output

variable {src freq duty ch q p n : Nat}

/-- A quotient stays within `b` from the prescaler on that follows `q / (b + 1)`. -/
theorem div_le_iff (b : Nat) (hp : 0 < p) : q / p ≤ b ↔ q / (b + 1) < p := by
  rw [← Nat.lt_succ_iff, Nat.div_lt_iff_lt_mul hp, Nat.div_lt_iff_lt_mul (Nat.succ_pos b),
    Nat.mul_comm]

theorem mem_fits : p ∈ Fits src freq ↔ src / freq / 0x10001 < p ∧ p ≤ 0x1000 := by
  constructor
  · rintro ⟨h1, h2, h3⟩
    exact ⟨(div_le_iff 0x10000 h1).1 h3, h2⟩
  · rintro ⟨h1, h2⟩
    have hp : 0 < p := Nat.zero_lt_of_lt h1
    exact ⟨hp, h2, (div_le_iff 0x10000 hp).2 h1⟩

/-- The prescaler in use is the least one that fits, where any fits. -/
theorem least_iff : ((Fits src freq).Nonempty → IsLeast (Fits src freq) p) ↔
    0x1000 ≤ src / freq / 0x10001 ∨ p = src / freq / 0x10001 + 1 := by
  have hnonempty : (Fits src freq).Nonempty ↔ src / freq / 0x10001 < 0x1000 := by
    constructor
    · rintro ⟨x, hx⟩
      obtain ⟨h1, h2⟩ := mem_fits.1 hx
      omega
    · exact fun h => ⟨0x1000, mem_fits.2 ⟨h, Nat.le_refl _⟩⟩
  rw [hnonempty]
  constructor
  · intro h
    by_cases hlt : src / freq / 0x10001 < 0x1000
    · obtain ⟨hmem, hlow⟩ := h hlt
      have hle := hlow (mem_fits.2 ⟨Nat.lt_succ_self _, hlt⟩)
      have hge := (mem_fits.1 hmem).1
      exact .inr (by omega)
    · exact .inl (Nat.le_of_not_lt hlt)
  · rintro (h | rfl) hlt
    · omega
    · exact ⟨mem_fits.2 ⟨Nat.lt_succ_self _, hlt⟩, fun x hx => (mem_fits.1 hx).1⟩

/-- The first prescaler whose quotient is below `0x10000`, or the last. -/
theorem outputSearch_eq (hfreq : 0 < freq) (hq : q = src / freq) (hp : 0 < p)
    (hn : p + n = 0xFFF) (hle : p ≤ q / 0x10000 + 1) :
    outputSearch src freq n p =
      some (min (q / 0x10000 + 1) 0xFFF,
        if q / 0x10000 + 1 < 0xFFF then q / (q / 0x10000 + 1) else 0xFFFF) := by
  induction n generalizing p with
  | zero =>
    obtain rfl : p = 0xFFF := by omega
    rw [outputSearch, Nat.min_eq_right hle, if_neg (Nat.not_lt.2 hle)]
  | succ n ih =>
    rw [outputSearch, Exact.div_eq hfreq]
    simp only [Option.bind_eq_bind, Option.bind_some, Exact.div_eq hp, ← hq]
    by_cases hfit : q / p < 0x10000
    · have hfirst : p = q / 0x10000 + 1 := by
        have hlt := (div_le_iff 0xFFFF hp).1 (Nat.le_of_lt_succ hfit)
        omega
      rw [if_pos hfit, ← hfirst, Nat.min_eq_left (by omega), if_pos (by omega)]
    · have hlater : ¬ q / 0x10000 < p := fun h =>
        hfit (Nat.lt_succ_of_le ((div_le_iff 0xFFFF hp).2 h))
      rw [if_neg hfit]
      exact ih (Nat.succ_pos p) (by omega) (by omega)

/-- The compare value is within one step of the duty. -/
theorem duty_step (duty period : Nat) :
    duty * period / 100 * 100 ≤ duty * period ∧
      duty * period < (duty * period / 100 + 1) * 100 := by
  omega

/-- A duty of at most 100 asks for no more than the period. -/
theorem duty_le (hduty : duty ≤ 100) (period : Nat) : duty * period ≤ 100 * period :=
  Nat.mul_le_mul_right _ hduty

theorem quotient_pos (hfreq : 0 < freq) (hle : freq ≤ src) : 0 < src / freq :=
  Nat.div_pos hle hfreq

/-- What `EPWM_ConfigOutputChannel` returns and programs. -/
theorem epwmOutput_spec (ch : Nat) (hfreq : 0 < freq) (hle : freq ≤ src) (hduty : duty ≤ 100)
    (r : Epwm) :
    ∃ p cnr, p = min (src / freq / 0x10000 + 1) 0xFFF ∧ (0 < p ∧ p < 0x1000) ∧
      (0 < cnr ∧ cnr < 0x10000) ∧
      ∃ r', epwmConfigOutputChannel src freq duty ch r = some (src / (p * cnr), r') ∧
        r'.clkpsc (ch / 2) = p - 1 ∧ r'.period ch = cnr - 1 ∧ r'.cmpdat ch = duty * cnr / 100 := by
  have hq := quotient_pos hfreq hle
  have hsearch := outputSearch_eq (n := 0xFFE) (p := 1) hfreq rfl Nat.one_pos rfl
    (Nat.le_add_left 1 (src / freq / 0x10000))
  generalize src / freq = q at hq hsearch ⊢
  generalize hp : min (q / 0x10000 + 1) 0xFFF = p at hsearch ⊢
  generalize hcnr : (if q / 0x10000 + 1 < 0xFFF then q / (q / 0x10000 + 1) else 0xFFFF) = cnr
    at hsearch
  have hp1 : 0 < p := by omega
  have hp2 : p ≤ 0xFFF := by omega
  have hcnr1 : 0 < cnr ∧ cnr < 0x10000 := by
    subst hcnr
    split
    · exact ⟨Nat.div_pos (by omega) (Nat.succ_pos _),
        Nat.lt_succ_of_le ((div_le_iff 0xFFFF (Nat.succ_pos _)).2 (Nat.lt_succ_self _))⟩
    · exact ⟨by decide, by decide⟩
  have hmul : p * cnr ≤ 0xFFF * 0xFFFF := Nat.mul_le_mul hp2 (by omega)
  have hfull := duty_le hduty cnr
  have hsum : cnr - 1 + 1 = cnr := by omega
  refine ⟨p, cnr, rfl, ⟨hp1, Nat.lt_succ_of_le hp2⟩, hcnr1, ?_⟩
  unfold epwmConfigOutputChannel
  rw [hsearch]
  simp only [Option.bind_eq_bind, Option.bind_some]
  rw [Exact.mul_eq (by omega)]
  simp only [Option.bind_some]
  rw [Exact.div_eq (Nat.mul_pos hp1 hcnr1.1)]
  simp only [Option.bind_some]
  rw [Exact.sub_eq (by omega)]
  simp only [Option.bind_some]
  rw [Exact.sub_eq (by omega)]
  simp only [Option.bind_some]
  rw [Exact.add_eq (by omega), hsum]
  simp only [Option.bind_some]
  rw [Exact.mul_eq (by omega)]
  simp only [Option.bind_some]
  rw [Exact.div_eq (by decide)]
  exact ⟨_, rfl, Function.update_self _ _ _, Function.update_self _ _ _, Function.update_self _ _ _⟩

theorem epwmOutputLaw_iff (hfreq : 0 < freq) (hle : freq ≤ src) (hduty : duty ≤ 100) (r : Epwm) :
    EpwmOutputLaw src freq duty ch r ↔ EpwmKeeps src freq := by
  obtain ⟨p, cnr, hp, ⟨hp1, hp2⟩, ⟨hcnr1, hcnr2⟩, r', hcall, hpsc, hper, hcmp⟩ :=
    epwmOutput_spec ch hfreq hle hduty r
  have hpos : p - 1 + 1 = p := Nat.sub_add_cancel hp1
  have hsum : cnr - 1 + 1 = cnr := Nat.sub_add_cancel hcnr1
  have hfull := duty_le hduty cnr
  unfold EpwmOutputLaw EpwmKeeps
  rw [hcall, ← hp]
  simp only [Option.mem_def, Option.some.injEq, exists_eq_left']
  rw [hpsc, hper, hcmp]
  constructor
  · intro h
    have hleast := h.least
    simp only [hpos] at hleast
    exact least_iff.1 hleast
  · intro h
    refine ⟨(Nat.sub_le p 1).trans_lt hp2, (Nat.sub_le cnr 1).trans_lt hcnr2, ?_, ?_, ?_, ?_⟩
    · exact Nat.div_lt_of_lt_mul
        (hfull.trans_lt (Nat.mul_lt_mul_of_pos_left hcnr2 (by decide)))
    · simp only [hpos, hsum]
    · simp only [hpos]
      exact least_iff.2 h
    · simp only [hsum]
      exact duty_step duty cnr

/-- The first prescaler whose quotient is at most `0x10000`, or one more than there are. -/
theorem timerSearch_eq (hfreq : 0 < freq) (hq : q = src / freq) (hp : 0 < p)
    (hn : p + n = 0x1001) (hle : p ≤ q / 0x10001 + 1) {period : Nat}
    (hperiod : n = 0 → period = q / 0x1000) :
    timerSearch src freq n p period =
      if q / 0x10001 < 0x1000 then some (q / 0x10001 + 1, q / (q / 0x10001 + 1))
      else some (0x1001, q / 0x1000) := by
  induction n generalizing p period with
  | zero =>
    obtain rfl : p = 0x1001 := by omega
    rw [timerSearch, if_neg (by omega), hperiod rfl]
  | succ n ih =>
    have hswap : src / p / freq = q / p := by
      rw [Nat.div_div_eq_div_mul, Nat.mul_comm, ← Nat.div_div_eq_div_mul, hq]
    rw [timerSearch, Exact.div_eq hp]
    simp only [Option.bind_eq_bind, Option.bind_some, Exact.div_eq hfreq, hswap]
    by_cases hfit : q / p ≤ 0x10000
    · have hfirst : p = q / 0x10001 + 1 := by
        have hlt := (div_le_iff 0x10000 hp).1 hfit
        omega
      rw [if_pos hfit, if_pos (by omega), ← hfirst]
    · have hlater : ¬ q / 0x10001 < p := fun h => hfit ((div_le_iff 0x10000 hp).2 h)
      rw [if_neg hfit]
      refine ih (Nat.succ_pos p) (by omega) (by omega) fun hn0 => ?_
      have hlast : p = 0x1000 := by omega
      rw [hlast]

theorem timerSearch_first (src : Nat) (hfreq : 0 < freq) :
    timerSearch src freq 0x1000 1 0 =
      if src / freq / 0x10001 < 0x1000 then
        some (src / freq / 0x10001 + 1, src / freq / (src / freq / 0x10001 + 1))
      else some (0x1001, src / freq / 0x1000) :=
  timerSearch_eq hfreq rfl Nat.one_pos rfl (Nat.le_add_left 1 _) fun h => absurd h (by decide)

theorem timerCompare_eq {duty period : Nat} (hduty : duty ≤ 100) (hperiod : period ≤ 0x10000) :
    timerCompare duty period = some (duty * period / 100) := by
  have hfull := duty_le hduty period
  have hword : duty * period < 0x100000000 := by omega
  unfold timerCompare
  by_cases h0 : duty = 0
  · subst h0
    rw [if_neg (by decide), Nat.zero_mul]
  · rw [if_pos h0, Exact.mul_eq hword]
    exact Exact.div_eq (Nat.zero_lt_succ 99)

/-- What `TPWM_ConfigOutputFreqAndDuty` returns and programs, when a prescaler fits. -/
theorem tpwm_spec (hfreq : 0 < freq) (hle : freq ≤ src) (hduty : duty ≤ 100) (r : Timer)
    (hfit : src / freq / 0x10001 < 0x1000) :
    ∃ p period, p = src / freq / 0x10001 + 1 ∧ period = src / freq / p ∧
      (0 < p ∧ p < 0x1001) ∧ (0 < period ∧ period ≤ 0x10000) ∧
      ∃ r', tpwmConfigOutputFreqAndDuty src freq duty r = some (src / (p * period), r') ∧
        r'.pwmclkpsc = p - 1 ∧ r'.pwmperiod = period - 1 ∧ r'.pwmcmpdat = duty * period / 100 := by
  have hq := quotient_pos hfreq hle
  have hsearch := timerSearch_first src hfreq
  rw [if_pos hfit] at hsearch
  generalize src / freq = q at hq hsearch hfit ⊢
  generalize hp : q / 0x10001 + 1 = p at hsearch ⊢
  have hp1 : 0 < p ∧ p < 0x1001 := by omega
  have hle : q / p ≤ 0x10000 := (div_le_iff 0x10000 hp1.1).2 (by omega)
  have hpos : 0 < q / p := Nat.div_pos (by omega) hp1.1
  generalize hperiod : q / p = period at hsearch hle hpos
  refine ⟨p, period, rfl, hperiod.symm, hp1, ⟨hpos, hle⟩, ?_⟩
  unfold tpwmConfigOutputFreqAndDuty
  rw [hsearch]
  simp only [Option.bind_eq_bind, Option.bind_some]
  rw [Exact.div_eq hp1.1]
  simp only [Option.bind_some]
  rw [Exact.div_eq hpos, Nat.div_div_eq_div_mul]
  simp only [Option.bind_some]
  rw [timerCompare_eq hduty hle]
  simp only [Option.bind_some]
  rw [Exact.sub_eq hp1.1, Exact.sub_eq hpos]
  exact ⟨_, rfl, rfl, rfl, rfl⟩

/-- Without one, the prescaler that is programmed has 13 bits. -/
theorem tpwm_overflow (hfreq : 0 < freq) (hfit : ¬ src / freq / 0x10001 < 0x1000) (r : Timer) :
    ∀ x ∈ tpwmConfigOutputFreqAndDuty src freq duty r, x.2.pwmclkpsc = 0x1000 := by
  have hsearch := timerSearch_first src hfreq
  rw [if_neg hfit] at hsearch
  intro x hx
  unfold tpwmConfigOutputFreqAndDuty at hx
  rw [hsearch] at hx
  simp only [Option.bind_eq_bind, Option.bind_some, Option.mem_def, Option.bind_eq_some_iff] at hx
  obtain ⟨_, _, _, _, _, _, psc, hpsc, _, _, hx⟩ := hx
  obtain rfl := Option.some.inj hx
  exact (Option.some.inj hpsc).symm

theorem tpwmOutputLaw_iff (hfreq : 0 < freq) (hle : freq ≤ src) (hduty : duty ≤ 100) (r : Timer) :
    TpwmOutputLaw src freq duty r ↔ TpwmKeeps src freq duty := by
  unfold TpwmOutputLaw TpwmKeeps
  by_cases hfit : src / freq / 0x10001 < 0x1000
  · obtain ⟨p, period, hp, hperiod, ⟨hp1, hp2⟩, ⟨hper1, hper2⟩, r', hcall, hpsc, hper, hcmp⟩ :=
      tpwm_spec hfreq hle hduty r hfit
    have hpos : p - 1 + 1 = p := Nat.sub_add_cancel hp1
    have hsum : period - 1 + 1 = period := Nat.sub_add_cancel hper1
    have hlim : duty * period / 100 < 0x10000 ↔ ¬ (duty = 100 ∧ period = 0x10000) := by
      clear hp hperiod hfit hcall hpsc hper hcmp hle
      constructor
      · rintro h ⟨rfl, rfl⟩
        exact absurd h (by decide)
      · intro h
        rw [Nat.div_lt_iff_lt_mul (by decide)]
        by_cases hd : duty = 100
        · subst hd
          omega
        · have hlow : duty * period ≤ 99 * period := Nat.mul_le_mul_right _ (by omega)
          omega
    rw [hcall, and_iff_right hfit, ← hp, ← hperiod, ← hlim]
    simp only [Option.mem_def, Option.some.injEq, exists_eq_left']
    rw [hpsc, hper, hcmp]
    constructor
    · exact fun h => h.cmp
    · intro h
      have hpsc' : p - 1 < 0x1000 := Nat.sub_lt_right_of_lt_add hp1 hp2
      have hper' : period - 1 < 0x10000 :=
        Nat.sub_lt_right_of_lt_add hper1 (Nat.lt_succ_of_le hper2)
      refine ⟨hpsc', hper', h, ?_, ?_, ?_⟩
      · simp only [hpos, hsum]
      · simp only [hpos]
        exact least_iff.2 (.inr hp)
      · simp only [hsum]
        exact duty_step duty period
  · refine iff_of_false ?_ fun h => hfit h.1
    rintro ⟨x, hx, h⟩
    have hpsc := h.clkpsc
    simp only [tpwm_overflow hfreq hfit r x hx] at hpsc
    omega

end Output

/-! ## The prescaler of a capture -/

section Capture

variable {src khz unit p n ch : Nat}

/-- The unit time reaches what is asked from `unitPrescale` on. -/
theorem unit_lt_iff (hkhz : 0 < khz) (hp : 0 < p) :
    1000000 * p / khz < unit ↔ p < unitPrescale khz unit := by
  rw [Nat.div_lt_iff_lt_mul hkhz]
  unfold unitPrescale
  generalize unit * khz = m
  omega

/-- A longer unit time is always longer than what is left of the present one. -/
theorem near_mul_le (khz p : Nat) : 1000000 * p / khz * khz ≤ 1000000 * p := Nat.div_mul_le_self _ _

theorem captureSearch_eq (hkhz : 0 < khz) (hp : 0 < p) (hn : p + n = 0x1001)
    (hle : p ≤ unitPrescale khz unit) {near : Nat}
    (hnear : n = 0 → near = 1000000 * 0x1000 / khz) :
    captureSearch khz unit n p near =
      if unitPrescale khz unit ≤ 0x1000 then
        some (unitPrescale khz unit, 1000000 * unitPrescale khz unit / khz)
      else some (0x1001, 1000000 * 0x1000 / khz) := by
  induction n generalizing p near with
  | zero =>
    obtain rfl : p = 0x1001 := by omega
    rw [captureSearch, if_neg (by omega), hnear rfl]
  | succ n ih =>
    have hnow : 1000000 * p < 0x100000000 := by omega
    have hnext : 1000000 * (p + 1) < 0x100000000 := by omega
    have hback := near_mul_le khz p
    have hlonger : 1000000 * (p + 1) > 1000000 * p / khz * khz := by omega
    rw [captureSearch, Exact.mul_eq hnow]
    simp only [Option.bind_eq_bind, Option.bind_some, Exact.div_eq hkhz]
    by_cases hlt : 1000000 * p / khz < unit
    · have hlater := (unit_lt_iff hkhz hp).1 hlt
      have hsucc : p + 1 < 0x100000000 := by omega
      rw [if_pos hlt, Exact.add_eq hsucc, Option.bind_some, Exact.mul_eq hnext, Option.bind_some,
        Exact.mul_eq (hback.trans_lt hnow), Option.bind_some, decide_eq_true hlonger]
      refine ih (Nat.succ_pos p) (by omega) hlater fun hn0 => ?_
      have hlast : p = 0x1000 := by omega
      rw [hlast]
    · have hfirst : p = unitPrescale khz unit :=
        Nat.le_antisymm hle (Nat.le_of_not_lt fun h => hlt ((unit_lt_iff hkhz hp).2 h))
      rw [if_neg hlt, ← hfirst, if_pos (by omega)]

theorem captureSearch_first (hkhz : 0 < khz) (unit : Nat) :
    captureSearch khz unit 0x1000 1 0 =
      if unitPrescale khz unit ≤ 0x1000 then
        some (unitPrescale khz unit, 1000000 * unitPrescale khz unit / khz)
      else some (0x1001, 1000000 * 0x1000 / khz) :=
  captureSearch_eq hkhz Nat.one_pos rfl (Nat.le_max_left _ _) fun h => absurd h (by decide)

/-- What `EPWM_ConfigCaptureChannel` returns and programs, from what its search finds. -/
theorem epwmCapture_spec (ch : Nat) {near : Nat} (hp : 0 < p)
    (hsearch : captureSearch (src / 1000) unit 0x1000 1 0 = some (p, near)) (r : Epwm) :
    ∃ r', epwmConfigCaptureChannel src unit ch r = some (near, r') ∧
      r'.clkpsc (ch / 2) = p - 1 ∧ r'.period ch = 0xFFFF := by
  unfold epwmConfigCaptureChannel
  rw [Exact.div_eq (Nat.zero_lt_succ 999)]
  simp only [Option.bind_eq_bind, Option.bind_some]
  rw [hsearch]
  simp only [Option.bind_some]
  rw [Exact.sub_eq hp]
  exact ⟨_, rfl, Function.update_self _ _ _, Function.update_self _ _ _⟩

theorem captureLaw_iff (hsrc : 1000 ≤ src) (r : Epwm) :
    CaptureLaw src unit ch r ↔ CaptureKeeps src unit := by
  have hkhz : 0 < src / 1000 := by omega
  have hone : 0 < unitPrescale (src / 1000) unit := Nat.le_max_left _ _
  have hsearch := captureSearch_first hkhz unit
  unfold CaptureLaw CaptureKeeps
  generalize unitPrescale (src / 1000) unit = p at hone hsearch ⊢
  by_cases hp : p ≤ 0x1000
  · rw [if_pos hp] at hsearch
    obtain ⟨r', hcall, hpsc, hper⟩ := epwmCapture_spec ch hone hsearch r
    have hlow : p - 1 < 0x1000 := by omega
    rw [hcall]
    simp only [Option.mem_def, Option.some.injEq, exists_eq_left', hpsc, hper,
      Nat.sub_add_cancel hone]
    exact ⟨fun h => ⟨hp, h.2.2⟩, fun h => ⟨hlow, by decide, h.2⟩⟩
  · rw [if_neg hp] at hsearch
    obtain ⟨r', hcall, hpsc, -⟩ := epwmCapture_spec ch (Nat.zero_lt_succ 4096) hsearch r
    refine iff_of_false ?_ fun h => hp h.1
    rintro ⟨x, hx, hfield, -⟩
    obtain rfl := Option.some.inj (hcall.symm.trans hx)
    rw [hpsc] at hfield
    exact absurd hfield (by decide)

end Capture

/-- When the three functions keep their laws: the prescaler of `EPWM_ConfigOutputChannel` is the
least where no smaller one makes a period of `0x10000`; `EPWM_ConfigCaptureChannel` needs a
prescaler that is long enough and a clock whose cut to kHz is not seen; and
`TPWM_ConfigOutputFreqAndDuty` one that fits, and no full duty of a period of `0x10000`. -/
theorem periodSearch_law_iff {src : Nat} (hsrc : 1000 ≤ src) :
    (∀ (freq duty ch : Nat) (r : Epwm), 1 ≤ freq → freq ≤ src → duty ≤ 100 →
      (EpwmOutputLaw src freq duty ch r ↔ EpwmKeeps src freq)) ∧
    (∀ (unit ch : Nat) (r : Epwm), CaptureLaw src unit ch r ↔ CaptureKeeps src unit) ∧
    ∀ (freq duty : Nat) (r : Timer), 1 ≤ freq → freq ≤ src → duty ≤ 100 →
      (TpwmOutputLaw src freq duty r ↔ TpwmKeeps src freq duty) :=
  ⟨fun _ _ _ r h1 h2 h3 => epwmOutputLaw_iff h1 h2 h3 r, fun _ _ r => captureLaw_iff hsrc r,
    fun _ _ r h1 h2 h3 => tpwmOutputLaw_iff h1 h2 h3 r⟩

def Epwm.reset : Epwm := ⟨0, 0, 0, fun _ => 0, fun _ => 0, fun _ => 0⟩

/-- 1 kHz at half duty, and a unit time of 1 us, from 180 MHz. -/
theorem periodSearch_law_iff_kilohertz :
    EpwmOutputLaw 180000000 1000 50 0 .reset ∧ CaptureLaw 180000000 1000 0 .reset ∧
      TpwmOutputLaw 180000000 1000 50 ⟨0, 0, 0, 0⟩ := by
  have hsrc : 1000 ≤ 180000000 := by decide
  have hlaw := periodSearch_law_iff hsrc
  exact ⟨(hlaw.1 1000 50 0 _ (by decide) (by decide) (by decide)).2 (.inr (by decide)),
    (hlaw.2.1 1000 0 _).2 ⟨by decide, by decide⟩,
    (hlaw.2.2 1000 50 _ (by decide) (by decide) (by decide)).2 ⟨by decide, by decide⟩⟩

/-- A unit time of 30 us from 180 MHz takes a prescaler of 13 bits; 1 Hz from 65536 Hz takes the
second prescaler; and the full duty of that period takes 17 bits. -/
theorem not_periodSearch_law :
    ¬ CaptureLaw 180000000 30000 0 .reset ∧ ¬ EpwmOutputLaw 65536 1 50 0 .reset ∧
      ¬ TpwmOutputLaw 65536 1 100 ⟨0, 0, 0, 0⟩ := by
  refine ⟨fun h => ?_, fun h => ?_, fun h => ?_⟩
  · exact absurd ((captureLaw_iff (by decide) _).1 h).1 (by decide)
  · obtain h | h := (epwmOutputLaw_iff (by decide) (by decide) (by decide) _).1 h
    · exact absurd h (by decide)
    · exact absurd h (by decide)
  · exact absurd ((tpwmOutputLaw_iff (by decide) (by decide) (by decide) _).1 h).2 (by decide)

end Ma35d1.Pwm
