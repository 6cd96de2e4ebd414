import Mathlib.Tactic.Ring
import Ma35d1.Machine.Trace
import Ma35d1.Rtc.Snapshot

/-!
# Setting the clock and the alarm

`RTC_SetDateAndTime` and `RTC_SetAlarmDateAndTime` write the caller's structure into the
registers in decimal digits. In the 12-hour format both add 20 to the hour after noon, and
they add it to the caller's structure, so that a second call with it finds an hour that is
none. The clock is stopped: nothing but these calls writes the registers.
-/

namespace Ma35d1.Rtc

open Machine.Trace

/-- An `RTC_T`: the registers of the clock and those of the alarm. -/
structure RtcT extends RtcRegs where
  calm : BitVec 32
  talm : BitVec 32

/-- The registers that `RTC_GetAlarmDateAndTime` reads, in the places of the clock's. -/
def RtcT.alarm (r : RtcT) : RtcRegs := { r.toRtcRegs with cal := r.calm, time := r.talm }

/-- `RTC_GetAlarmDateAndTime`: the masks of `CALM` and `TALM` are those of `CAL` and `TIME`. -/
def getAlarmDateAndTime (r : RtcT) (u32AmPm : BitVec 32) : TimeData :=
  getDateAndTime (fun _ => r.alarm) u32AmPm

/-- `u32RegCAL`, `u32RegTIME` and those of the alarm: three numbers in decimal digits. -/
def regWord (hi mid lo : BitVec 32) : BitVec 32 :=
  (hi / 10) <<< 20 ||| (hi % 10) <<< 16 ||| (mid / 10) <<< 12 ||| (mid % 10) <<< 8 |||
    (lo / 10) <<< 4 ||| lo % 10

/-- What the call makes of the caller's structure before it writes a register. -/
def adjust (clkfmt : BitVec 32) (sPt : TimeData) : TimeData :=
  { sPt with
    u32TimeScale := clkfmt &&& 0x1#32
    -- the hour of the 12-hour format is 21 up to 32 after noon
    u32Hour :=
      if clkfmt &&& 0x1#32 = rtcClock12 ∧ sPt.u32AmPm = rtcPm then sPt.u32Hour + 20
      else sPt.u32Hour }

def TimeData.calWord (d : TimeData) : BitVec 32 :=
  regWord (d.u32Year - rtcYear2000) d.u32Month d.u32Day

def TimeData.timeWord (d : TimeData) : BitVec 32 := regWord d.u32Hour d.u32Minute d.u32Second

/-- `RTC_SetDateAndTime`: the registers and the caller's structure after it. -/
def setDateAndTime (r : RtcT) (sPt : TimeData) : RtcT × TimeData :=
  let sPt := adjust r.clkfmt sPt
  ({ r with weekday := sPt.u32DayOfWeek, cal := sPt.calWord, time := sPt.timeWord }, sPt)

/-- `RTC_SetAlarmDateAndTime`, which writes no `WEEKDAY`. -/
def setAlarmDateAndTime (r : RtcT) (sPt : TimeData) : RtcT × TimeData :=
  let sPt := adjust r.clkfmt sPt
  ({ r with calm := sPt.calWord, talm := sPt.timeWord }, sPt)

/-! ## Calls with one structure -/

inductive Call
  | setDateAndTime | setAlarmDateAndTime
  deriving DecidableEq

/-- The registers, the structure that all calls are handed, and which calls were made. -/
structure Setting where
  rtc : RtcT
  sPt : TimeData
  clockSet : Bool
  alarmSet : Bool

def step (s : Setting) : Call → Option Setting
  | .setDateAndTime =>
    let r := setDateAndTime s.rtc s.sPt
    some { s with rtc := r.1, sPt := r.2, clockSet := true }
  | .setAlarmDateAndTime =>
    let r := setAlarmDateAndTime s.rtc s.sPt
    some { s with rtc := r.1, sPt := r.2, alarmSet := true }

def start (r : RtcT) (sPt : TimeData) : Setting := ⟨r, sPt, false, false⟩

/-- Whether `CLKFMT` selects the 24-hour format. -/
def RtcT.is24 (r : RtcT) : Bool := r.clkfmt &&& 0x1#32 == rtcClock24

/-- A date and time as the caller may ask for it. -/
structure TimeData.Valid (d : TimeData) (h24 : Bool) : Prop where
  year : 2000 ≤ d.u32Year.toNat ∧ d.u32Year.toNat ≤ 2099
  month : 1 ≤ d.u32Month.toNat ∧ d.u32Month.toNat ≤ 12
  day : 1 ≤ d.u32Day.toNat ∧ d.u32Day.toNat ≤ daysIn (d.u32Year.toNat - 2000) d.u32Month.toNat
  dayOfWeek : d.u32DayOfWeek.toNat < 7
  hour24 : h24 = true → d.u32Hour.toNat < 24
  hour12 : h24 = false → 1 ≤ d.u32Hour.toNat ∧ d.u32Hour.toNat ≤ 12
  amPm : h24 = false → d.u32AmPm = rtcAm ∨ d.u32AmPm = rtcPm
  minute : d.u32Minute.toNat < 60
  second : d.u32Second.toNat < 60

/-- What a reading of `d` returns; the 24-hour format leaves the caller's `u32AmPm`. -/
def TimeData.reading (d : TimeData) (h24 : Bool) (u32AmPm : BitVec 32) : TimeData :=
  { d with
    u32TimeScale := if h24 then rtcClock24 else rtcClock12
    u32AmPm := if h24 then u32AmPm else d.u32AmPm }

/-- The bits of each digit's field, the lowest digit first. -/
def calWidths : List Nat := [4, 2, 4, 1, 4, 4]
def timeWidths : List Nat := [4, 3, 4, 3, 4, 2]

/-- Every digit is a decimal one inside its field, and no other bit is set. -/
def LegalBcd (widths : List Nat) (w : BitVec 32) : Prop :=
  w.toNat < 16 ^ widths.length ∧
    ∀ x ∈ widths.zipIdx, w.toNat / 16 ^ x.2 % 16 < 10 ∧ w.toNat / 16 ^ x.2 % 16 < 2 ^ x.1

/-- What the registers are to hold of `d` after the calls made so far. -/
structure RoundTrip (h24 : Bool) (d : TimeData) (s : Setting) : Prop where
  clock : s.clockSet = true →
    ∀ a, getDateAndTime (fun _ => s.rtc.toRtcRegs) a = d.reading h24 a
  clockLegal : s.clockSet = true → LegalBcd calWidths s.rtc.cal ∧ LegalBcd timeWidths s.rtc.time
  alarm : s.alarmSet = true → ∀ a, getAlarmDateAndTime s.rtc a = d.reading h24 a
  alarmLegal : s.alarmSet = true → LegalBcd calWidths s.rtc.calm ∧ LegalBcd timeWidths s.rtc.talm

/-- No second call after noon in the 12-hour format, and no alarm on a day of the week that
`WEEKDAY` does not hold. -/
def Fresh (r : RtcT) (d : TimeData) (calls : List Call) : Prop :=
  (r.is24 = true ∨ d.u32AmPm ≠ rtcPm ∨ calls.length ≤ 1) ∧
    (calls.head? = some .setAlarmDateAndTime → r.weekday &&& 0x7#32 = d.u32DayOfWeek)

/-! ## Decimal digits in a word -/

/-- One more digit below. -/
theorem or_digit (x k : Nat) {y : Nat} (hy : y < 16) :
    x * 2 ^ (k + 4) ||| y * 2 ^ k = (x * 16 + y) * 2 ^ k := by
  have hlt : y * 2 ^ k < 2 ^ (k + 4) := by
    rw [Nat.pow_add, Nat.mul_comm]
    exact Nat.mul_lt_mul_of_pos_left hy (Nat.two_pow_pos k)
  rw [Nat.mul_comm x, ← Nat.two_pow_add_eq_or_of_lt hlt, Nat.pow_add]
  ring

theorem toNat_digit {x : BitVec 32} (k : Nat) (hx : x.toNat * 2 ^ k < 2 ^ 32) :
    (x <<< k).toNat = x.toNat * 2 ^ k := by
  rw [BitVec.toNat_shiftLeft, Nat.shiftLeft_eq, Nat.mod_eq_of_lt hx]

/-- Numbers that take no more than two hexadecimal digits are put side by side. -/
theorem regWord_toNat {hi mid lo : BitVec 32} (hhi : hi.toNat < 160) (hmid : mid.toNat < 160)
    (hlo : lo.toNat < 160) : (regWord hi mid lo).toNat =
    hi.toNat / 10 * 0x100000 + hi.toNat % 10 * 0x10000 + mid.toNat / 10 * 0x1000 +
      mid.toNat % 10 * 0x100 + lo.toNat / 10 * 0x10 + lo.toNat % 10 := by
  have htens : ∀ x : BitVec 32, (x / 10).toNat = x.toNat / 10 := fun x => BitVec.toNat_udiv
  have hunits : ∀ x : BitVec 32, (x % 10).toNat = x.toNat % 10 := fun x => BitVec.toNat_umod
  unfold regWord
  simp only [BitVec.toNat_or]
  rw [toNat_digit 20 (by rw [htens]; omega), toNat_digit 16 (by rw [hunits]; omega),
    toNat_digit 12 (by rw [htens]; omega), toNat_digit 8 (by rw [hunits]; omega),
    toNat_digit 4 (by rw [htens]; omega)]
  simp only [htens, hunits]
  rw [or_digit _ 16 (by omega), or_digit _ 12 (by omega), or_digit _ 8 (by omega),
    or_digit _ 4 (by omega)]
  have hlast := or_digit (((((hi.toNat / 10) * 16 + hi.toNat % 10) * 16 + mid.toNat / 10) * 16 +
    mid.toNat % 10) * 16 + lo.toNat / 10) 0 (y := lo.toNat % 10) (by omega)
  simp only [Nat.zero_add, Nat.pow_zero, Nat.mul_one] at hlast
  rw [hlast]
  omega

/-- A word of six digits is legal where each of them is. -/
theorem legalBcd_six {w : BitVec 32} {v0 v1 v2 v3 v4 v5 a b c e f g : Nat}
    (hw : w.toNat = a * 0x100000 + b * 0x10000 + c * 0x1000 + e * 0x100 + f * 0x10 + g)
    (ha : a < 10 ∧ a < 2 ^ v5) (hb : b < 10 ∧ b < 2 ^ v4) (hc : c < 10 ∧ c < 2 ^ v3)
    (he : e < 10 ∧ e < 2 ^ v2) (hf : f < 10 ∧ f < 2 ^ v1) (hg : g < 10 ∧ g < 2 ^ v0) :
    LegalBcd [v0, v1, v2, v3, v4, v5] w := by
  have hlt : w.toNat < 16 ^ 6 := by
    obtain ⟨⟨ha, -⟩, ⟨hb, -⟩, ⟨hc, -⟩, ⟨he, -⟩, ⟨hf, -⟩, ⟨hg, -⟩⟩ := ha, hb, hc, he, hf, hg
    omega
  obtain ⟨h5, h4, h3, h2, h1, h0⟩ := six_digits hw ha.1 hb.1 hc.1 he.1 hf.1 hg.1
  refine ⟨hlt, fun x hx => ?_⟩
  simp only [List.zipIdx_cons, List.zipIdx_nil, List.mem_cons, List.not_mem_nil, or_false] at hx
  rcases hx with rfl | rfl | rfl | rfl | rfl | rfl
  · rw [show w.toNat / 16 ^ 0 % 16 = g from h0]
    exact hg
  · rw [show w.toNat / 16 ^ (0 + 1) % 16 = f from h1]
    exact hf
  · rw [show w.toNat / 16 ^ (0 + 1 + 1) % 16 = e from h2]
    exact he
  · rw [show w.toNat / 16 ^ (0 + 1 + 1 + 1) % 16 = c from h3]
    exact hc
  · rw [show w.toNat / 16 ^ (0 + 1 + 1 + 1 + 1) % 16 = b from h4]
    exact hb
  · rw [show w.toNat / 16 ^ (0 + 1 + 1 + 1 + 1 + 1) % 16 = a from h5]
    exact ha

theorem regs_legal (h24 : Bool) (c : Clock) :
    LegalBcd calWidths (c.regs h24).cal ∧ LegalBcd timeWidths (c.regs h24).time := by
  have hlt := value_lt h24 c
  have hmon := c.date.mon_range
  have hday := c.date.day_range.2.trans (daysIn_le _ _)
  have hhour := rawHour_le h24 c.hour_lt
  have hmin := c.min_lt
  have hsec := c.sec_lt
  have hfit : ∀ x : Item, x.value h24 c < 10 ∧ x.value h24 c < 2 ^ 4 :=
    fun x => ⟨hlt x, (hlt x).trans (by decide)⟩
  constructor
  · exact legalBcd_six (cal_toNat h24 c) (hfit .tenYear) (hfit .year) ⟨hlt .tenMon, by omega⟩
      (hfit .mon) ⟨hlt .tenDay, by omega⟩ (hfit .day)
  · exact legalBcd_six (time_toNat h24 c) ⟨hlt .tenHr, by omega⟩ (hfit .hr) ⟨hlt .tenMin, by omega⟩
      (hfit .min) ⟨hlt .tenSec, by omega⟩ (hfit .sec)

/-! ## A valid structure is a clock -/

section Valid

variable {h24 : Bool} {d : TimeData} {r : RtcT} {s : Setting}

/-- The hour counted from midnight. -/
def TimeData.hourOfDay (d : TimeData) (h24 : Bool) : Nat :=
  if h24 then d.u32Hour.toNat
  else if d.u32AmPm = rtcAm then d.u32Hour.toNat % 12
  else d.u32Hour.toNat % 12 + 12

theorem hourOfDay_lt (hd : d.Valid h24) : d.hourOfDay h24 < 24 := by
  unfold TimeData.hourOfDay
  split
  · exact hd.hour24 ‹_›
  · split <;> omega

/-- The clock that shows `d`. -/
def TimeData.clock (d : TimeData) (hd : d.Valid h24) : Clock where
  date := ⟨d.u32Year.toNat - 2000, d.u32Month.toNat, d.u32Day.toNat, d.u32DayOfWeek.toNat,
    by have := hd.year; omega, hd.month, hd.day, hd.dayOfWeek⟩
  hour := d.hourOfDay h24
  min := d.u32Minute.toNat
  sec := d.u32Second.toNat
  hour_lt := hourOfDay_lt hd
  min_lt := hd.minute
  sec_lt := hd.second

theorem rtcPm_ne_rtcAm : rtcPm ≠ rtcAm := by decide

theorem clock_held (hd : d.Valid h24) (a : BitVec 32) :
    (d.clock hd).held h24 a = d.reading h24 a := by
  have hyear := hd.year
  have hofNat : ∀ x : BitVec 32, BitVec.ofNat 32 x.toNat = x := fun x => by
    rw [BitVec.ofNat_toNat, BitVec.setWidth_eq]
  apply TimeData.ext
  · show BitVec.ofNat 32 (2000 + (d.u32Year.toNat - 2000)) = d.u32Year
    rw [Nat.add_sub_cancel' hyear.1, hofNat]
  · exact hofNat _
  · exact hofNat _
  · exact hofNat _
  · cases h24 with
    | true => exact hofNat _
    | false =>
      obtain ⟨h1, h2⟩ := hd.hour12 rfl
      have hhour : (if d.hourOfDay false % 12 = 0 then 12 else d.hourOfDay false % 12) =
          d.u32Hour.toNat := by
        simp only [TimeData.hourOfDay, Bool.false_eq_true, if_false]
        repeat' split
        all_goals omega
      exact (congrArg (BitVec.ofNat 32) hhour).trans (hofNat _)
  · exact hofNat _
  · exact hofNat _
  · rfl
  · cases h24 with
    | true => rfl
    | false =>
      show (if d.hourOfDay false < 12 then rtcAm else rtcPm) = d.u32AmPm
      simp only [TimeData.hourOfDay, Bool.false_eq_true, if_false]
      obtain ham | hpm := hd.amPm rfl
      · rw [if_pos ham, if_pos (by omega), ham]
      · have hne : d.u32AmPm ≠ rtcAm := fun h => rtcPm_ne_rtcAm (hpm.symm.trans h)
        rw [if_neg hne, if_neg (by omega), hpm]

theorem clkfmt_eq (r : RtcT) :
    r.clkfmt &&& 0x1#32 = if r.is24 then rtcClock24 else rtcClock12 := by
  have hbit : r.clkfmt &&& 0x1#32 = 0 ∨ r.clkfmt &&& 0x1#32 = 1 := by
    have htoNat : (r.clkfmt &&& 0x1#32).toNat = r.clkfmt.toNat % 2 := by
      rw [BitVec.toNat_and]
      exact Nat.and_one_is_mod _
    obtain h | h := Nat.mod_two_eq_zero_or_one r.clkfmt.toNat
    · exact .inl (BitVec.eq_of_toNat_eq (htoNat.trans h))
    · exact .inr (BitVec.eq_of_toNat_eq (htoNat.trans h))
  unfold RtcT.is24
  obtain h | h := hbit <;> rw [h] <;> decide

/-- The hour that the call writes is the one that the register has for it. -/
theorem adjust_hour (hd : d.Valid r.is24) :
    (adjust r.clkfmt d).u32Hour.toNat = rawHour r.is24 (d.clock hd).hour := by
  show (if r.clkfmt &&& 0x1#32 = rtcClock12 ∧ d.u32AmPm = rtcPm then d.u32Hour + 20
    else d.u32Hour).toNat = rawHour r.is24 (d.hourOfDay r.is24)
  rw [clkfmt_eq]
  unfold TimeData.hourOfDay
  cases h24 : r.is24 with
  | true => rfl
  | false =>
    obtain ⟨h1, h2⟩ := hd.hour12 h24
    simp only [Bool.false_eq_true, if_false, true_and]
    obtain ham | hpm := hd.amPm h24
    · rw [if_neg fun h => rtcPm_ne_rtcAm (h.symm.trans ham), if_pos ham]
      simp only [rawHour, Bool.false_eq_true, if_false]
      repeat' split
      all_goals omega
    · have hne : d.u32AmPm ≠ rtcAm := fun h => rtcPm_ne_rtcAm (hpm.symm.trans h)
      have hadd : (d.u32Hour + 20).toNat = d.u32Hour.toNat + 20 := by
        rw [BitVec.toNat_add]
        exact Nat.mod_eq_of_lt (by show d.u32Hour.toNat + 20 < 2 ^ 32; omega)
      rw [if_pos hpm, if_neg hne, hadd]
      simp only [rawHour, Bool.false_eq_true, if_false]
      repeat' split
      all_goals omega

theorem adjust_calWord (hd : d.Valid r.is24) :
    (adjust r.clkfmt d).calWord = ((d.clock hd).regs r.is24).cal := by
  have hyear := hd.year
  have hmonth := hd.month
  have hday := hd.day.2.trans (daysIn_le _ _)
  have hsub : (d.u32Year - rtcYear2000).toNat = d.u32Year.toNat - 2000 := by
    rw [BitVec.toNat_sub]
    show (2 ^ 32 - 2000 + d.u32Year.toNat) % 2 ^ 32 = _
    omega
  apply BitVec.eq_of_toNat_eq
  show (regWord (d.u32Year - rtcYear2000) d.u32Month d.u32Day).toNat = _
  rw [regWord_toNat (by omega) (by omega) (by omega), cal_toNat, hsub]
  rfl

theorem adjust_timeWord (hd : d.Valid r.is24) :
    (adjust r.clkfmt d).timeWord = ((d.clock hd).regs r.is24).time := by
  have hhour := adjust_hour hd
  have hraw := rawHour_le r.is24 (d.clock hd).hour_lt
  have hmin := hd.minute
  have hsec := hd.second
  apply BitVec.eq_of_toNat_eq
  show (regWord (adjust r.clkfmt d).u32Hour d.u32Minute d.u32Second).toNat = _
  rw [regWord_toNat (by omega) (by omega) (by omega), time_toNat, hhour]
  rfl

/-! ## Reading back -/

/-- Registers that agree in what is read of them are read alike. -/
theorem getDateAndTime_congr {R R' : RtcRegs} (hc : R.clkfmt &&& 0x1#32 = R'.clkfmt &&& 0x1#32)
    (hw : R.weekday &&& 0x7#32 = R'.weekday &&& 0x7#32) (hcal : R.cal = R'.cal)
    (htime : R.time = R'.time) (a : BitVec 32) :
    getDateAndTime (fun _ => R) a = getDateAndTime (fun _ => R') a := by
  simp only [getDateAndTime, readDigits, hc, hw, hcal, htime]

/-- Registers that hold the words of `d` are read as `d`. -/
theorem reads_of_words (hd : d.Valid r.is24) {R : RtcRegs} (hc : R.clkfmt = r.clkfmt)
    (hw : R.weekday &&& 0x7#32 = d.u32DayOfWeek) (hcal : R.cal = (adjust r.clkfmt d).calWord)
    (htime : R.time = (adjust r.clkfmt d).timeWord) (a : BitVec 32) :
    getDateAndTime (fun _ => R) a = d.reading r.is24 a := by
  have hregs : getDateAndTime (fun _ => R) a =
      getDateAndTime (fun _ => (d.clock hd).regs r.is24) a := by
    apply getDateAndTime_congr
    · rw [hc, clkfmt_eq, clkfmt_field]
    · rw [hw, weekday_field]
      show d.u32DayOfWeek = BitVec.ofNat 32 d.u32DayOfWeek.toNat
      rw [BitVec.ofNat_toNat, BitVec.setWidth_eq]
    · rw [hcal, adjust_calWord hd]
    · rw [htime, adjust_timeWord hd]
  rw [hregs, getDateAndTime_eq r.is24 (fun _ => d.clock hd), ← held_eq, clock_held]

end Valid

/-! ## Runs -/

section Runs

variable {d : TimeData} {r : RtcT} {s t : Setting} {e : Call}

/-- The registers that were written hold the words of `d`. -/
structure Loaded (r : RtcT) (d : TimeData) (s : Setting) : Prop where
  clkfmt : s.rtc.clkfmt = r.clkfmt
  dayOfWeek : s.rtc.weekday &&& 0x7#32 = d.u32DayOfWeek
  clock : s.clockSet = true →
    s.rtc.cal = (adjust r.clkfmt d).calWord ∧ s.rtc.time = (adjust r.clkfmt d).timeWord
  alarm : s.alarmSet = true →
    s.rtc.calm = (adjust r.clkfmt d).calWord ∧ s.rtc.talm = (adjust r.clkfmt d).timeWord

theorem roundTrip_of_loaded (hd : d.Valid r.is24) (h : Loaded r d s) : RoundTrip r.is24 d s where
  clock hset := reads_of_words hd h.clkfmt h.dayOfWeek (h.clock hset).1 (h.clock hset).2
  clockLegal hset := by
    rw [(h.clock hset).1, (h.clock hset).2, adjust_calWord hd, adjust_timeWord hd]
    exact regs_legal _ _
  alarm hset := reads_of_words (R := s.rtc.alarm) hd h.clkfmt h.dayOfWeek (h.alarm hset).1
    (h.alarm hset).2
  alarmLegal hset := by
    rw [(h.alarm hset).1, (h.alarm hset).2, adjust_calWord hd, adjust_timeWord hd]
    exact regs_legal _ _

theorem dayOfWeek_masked {h24 : Bool} (hd : d.Valid h24) :
    d.u32DayOfWeek &&& 0x7#32 = d.u32DayOfWeek := by
  have hlt := hd.dayOfWeek
  apply BitVec.eq_of_toNat_eq
  rw [BitVec.toNat_and]
  exact (Nat.and_two_pow_sub_one_eq_mod _ 3).trans (Nat.mod_eq_of_lt (by omega))

/-- A call that finds the words of `d` to write leaves them in the registers. -/
theorem loaded_step (hd : d.Valid r.is24) (hs : s.rtc.clkfmt = r.clkfmt)
    (hclock : s.clockSet = true → Loaded r d s) (halarm : s.alarmSet = true → Loaded r d s)
    (hday : e = .setAlarmDateAndTime → s.rtc.weekday &&& 0x7#32 = d.u32DayOfWeek)
    (hadjust : adjust r.clkfmt s.sPt = adjust r.clkfmt d) (ht : step s e = some t) :
    Loaded r d t ∧ t.sPt = adjust r.clkfmt d := by
  cases e with
  | setDateAndTime =>
    obtain rfl := Option.some.inj ht
    have hsPt : adjust s.rtc.clkfmt s.sPt = adjust r.clkfmt d := by rw [hs, hadjust]
    refine ⟨⟨hs, ?_, fun _ => ?_, fun hset => (halarm hset).alarm hset⟩, hsPt⟩
    · show (adjust s.rtc.clkfmt s.sPt).u32DayOfWeek &&& 0x7#32 = d.u32DayOfWeek
      have hday : (adjust r.clkfmt d).u32DayOfWeek = d.u32DayOfWeek := rfl
      rw [hsPt, hday, dayOfWeek_masked hd]
    · exact ⟨congrArg TimeData.calWord hsPt, congrArg TimeData.timeWord hsPt⟩
  | setAlarmDateAndTime =>
    obtain rfl := Option.some.inj ht
    have hsPt : adjust s.rtc.clkfmt s.sPt = adjust r.clkfmt d := by rw [hs, hadjust]
    refine ⟨⟨hs, hday rfl, fun hset => (hclock hset).clock hset, fun _ => ?_⟩, hsPt⟩
    exact ⟨congrArg TimeData.calWord hsPt, congrArg TimeData.timeWord hsPt⟩

/-- Where no hours are added, adjusting twice is adjusting once. -/
theorem adjust_adjust (h : r.is24 = true ∨ d.u32AmPm ≠ rtcPm) :
    adjust r.clkfmt (adjust r.clkfmt d) = adjust r.clkfmt d := by
  have hno : ¬ (r.clkfmt &&& 0x1#32 = rtcClock12 ∧ d.u32AmPm = rtcPm) := by
    rintro ⟨h12, hpm⟩
    obtain h | h := h
    · rw [clkfmt_eq, h] at h12
      exact absurd h12 (by decide)
    · exact h hpm
  simp only [adjust, if_neg hno]

/-- The run after the first call, where calls add no hours. -/
theorem always_loaded (hd : d.Valid r.is24) (h : r.is24 = true ∨ d.u32AmPm ≠ rtcPm)
    (hs : Loaded r d s ∧ s.sPt = adjust r.clkfmt d) (calls : List Call) :
    Always step (RoundTrip r.is24 d) s calls := by
  have hkeep : ∀ s e t, Loaded r d s ∧ s.sPt = adjust r.clkfmt d → step s e = some t →
      Loaded r d t ∧ t.sPt = adjust r.clkfmt d := by
    intro s e t hs ht
    have hadjust : adjust r.clkfmt s.sPt = adjust r.clkfmt d := by
      rw [hs.2]
      exact adjust_adjust h
    exact loaded_step hd hs.1.clkfmt (fun _ => hs.1) (fun _ => hs.1) (fun _ => hs.1.dayOfWeek)
      hadjust ht
  exact (always_of_step hkeep hs).mono fun s hs => roundTrip_of_loaded hd hs.1

/-- An hour with 40 too many is read as one before noon. -/
theorem reading_am {R : RtcRegs} {hour mid lo : BitVec 32} (h12 : R.clkfmt &&& 0x1#32 = rtcClock12)
    (htime : R.time = regWord hour mid lo) (hhour : 41 ≤ hour.toNat ∧ hour.toNat ≤ 52)
    (hmid : mid.toNat < 60) (hlo : lo.toNat < 60) (a : BitVec 32) :
    (getDateAndTime (fun _ => R) a).u32AmPm = rtcAm := by
  have hraw : hour.toNat / 10 % 4 * 10 + hour.toNat % 10 < 21 := by omega
  have hword := regWord_toNat (show hour.toNat < 160 by omega) (show mid.toNat < 160 by omega)
    (show lo.toNat < 160 by omega)
  rw [← htime] at hword
  obtain ⟨h5, h4, -⟩ := six_digits hword (by omega) (by omega) (by omega) (by omega) (by omega)
    (by omega)
  -- the field of the tens has two bits: the 4 of forty is lost
  have htens : (R.time &&& 0x300000#32) >>> 20 = BitVec.ofNat 32 (hour.toNat / 10 % 4) := by
    apply BitVec.eq_of_toNat_eq
    rw [field_toNat R.time 20 2 (m := 0x3) rfl rfl, BitVec.toNat_ofNat, ← h5,
      Nat.mod_mod_of_dvd _ (by decide : 4 ∣ 16)]
    exact (Nat.mod_eq_of_lt ((Nat.mod_lt _ (by decide)).trans (by decide))).symm
  have hunits : (R.time &&& 0xf0000#32) >>> 16 = BitVec.ofNat 32 (hour.toNat % 10) := by
    apply BitVec.eq_of_toNat_eq
    rw [field_toNat R.time 16 4 (m := 0xf) rfl rfl, BitVec.toNat_ofNat, ← h4]
    exact (Nat.mod_eq_of_lt ((Nat.mod_lt _ (by decide)).trans (by decide))).symm
  show (if R.clkfmt &&& 0x1#32 = rtcClock12 then
    if (21 : BitVec 32) ≤ ((R.time &&& 0x300000#32) >>> 20) * (10 : BitVec 32) +
      (R.time &&& 0xf0000#32) >>> 16 then rtcPm else rtcAm else a) = rtcAm
  rw [if_pos h12, htens, hunits, two_digits, if_neg]
  rw [twentyOne_le (hraw.trans (by decide))]
  exact Nat.not_le_of_lt hraw

theorem adjust_afternoon {c : BitVec 32} (h12 : c &&& 0x1#32 = rtcClock12)
    (hpm : d.u32AmPm = rtcPm) : (adjust c d).u32Hour = d.u32Hour + 20 :=
  if_pos ⟨h12, hpm⟩

/-- The second call after noon in the 12-hour format. -/
theorem not_roundTrip_twice {e₁ e₂ : Call} {s₁ s₂ : Setting} (hd : d.Valid r.is24)
    (h12 : r.is24 = false) (hpm : d.u32AmPm = rtcPm) (h₁ : step (start r d) e₁ = some s₁)
    (h₂ : step s₁ e₂ = some s₂) : ¬ RoundTrip r.is24 d s₂ := by
  intro h
  have hfmt : r.clkfmt &&& 0x1#32 = rtcClock12 := by
    rw [clkfmt_eq, h12]
    rfl
  have hrange := hd.hour12 h12
  have hne : rtcAm ≠ (d.reading r.is24 0).u32AmPm := by
    rw [h12]
    show rtcAm ≠ d.u32AmPm
    rw [hpm]
    exact rtcPm_ne_rtcAm.symm
  have hs₁ : s₁.rtc.clkfmt = r.clkfmt ∧ s₁.sPt = adjust r.clkfmt d := by
    cases e₁ <;> obtain rfl := Option.some.inj h₁ <;> exact ⟨rfl, rfl⟩
  have hhour : (adjust r.clkfmt (adjust r.clkfmt d)).u32Hour = d.u32Hour + 20 + 20 := by
    rw [adjust_afternoon (d := adjust r.clkfmt d) hfmt hpm, adjust_afternoon hfmt hpm]
  have htoNat : (d.u32Hour + 20 + 20).toNat = d.u32Hour.toNat + 40 := by
    rw [BitVec.toNat_add, BitVec.toNat_add]
    show ((d.u32Hour.toNat + 20) % 2 ^ 32 + 20) % 2 ^ 32 = d.u32Hour.toNat + 40
    omega
  have hbad : ∀ R : RtcRegs, R.clkfmt = r.clkfmt →
      R.time = (adjust r.clkfmt (adjust r.clkfmt d)).timeWord →
      getDateAndTime (fun _ => R) 0 ≠ d.reading r.is24 0 := by
    intro R hclkfmt htime hread
    have ham := reading_am (a := 0) (by rw [hclkfmt, hfmt]) htime (by rw [hhour]; omega) hd.minute
      hd.second
    exact hne (ham.symm.trans (congrArg TimeData.u32AmPm hread))
  have hsPt : adjust s₁.rtc.clkfmt s₁.sPt = adjust r.clkfmt (adjust r.clkfmt d) := by
    rw [hs₁.1, hs₁.2]
  cases e₂ with
  | setDateAndTime =>
    obtain rfl := Option.some.inj h₂
    exact hbad (setDateAndTime s₁.rtc s₁.sPt).1.toRtcRegs hs₁.1
      (congrArg TimeData.timeWord hsPt) (h.clock rfl 0)
  | setAlarmDateAndTime =>
    obtain rfl := Option.some.inj h₂
    exact hbad (setAlarmDateAndTime s₁.rtc s₁.sPt).1.alarm hs₁.1
      (congrArg TimeData.timeWord hsPt) (h.alarm rfl 0)

/-- After every call with the same structure both readings return what was put into it, from
legal registers, exactly when no call after noon in the 12-hour format is followed by another
and the first is not an alarm on a day of the week that `WEEKDAY` does not hold. -/
theorem run_roundTrip_iff (hd : d.Valid r.is24) (calls : List Call) :
    Always step (RoundTrip r.is24 d) (start r d) calls ↔ Fresh r d calls := by
  have hstart : RoundTrip r.is24 d (start r d) :=
    ⟨nofun, nofun, nofun, nofun⟩
  constructor
  · intro h
    constructor
    · by_contra hno
      push Not at hno
      obtain ⟨h12, hpm, hlen⟩ := hno
      obtain _ | ⟨e₁, _ | ⟨e₂, es⟩⟩ := calls
      · simp at hlen
      · simp at hlen
      · cases h₁ : step (start r d) e₁ with
        | none => cases e₁ <;> cases h₁
        | some s₁ =>
          cases h₂ : step s₁ e₂ with
          | none => cases e₂ <;> cases h₂
          | some s₂ =>
            have hlaw := ((h.2 s₁ h₁).2 s₂ h₂).head
            exact not_roundTrip_twice hd (by simpa using h12) hpm h₁ h₂ hlaw
    · intro hhead
      obtain _ | ⟨e, es⟩ := calls
      · cases hhead
      · obtain rfl := Option.some.inj hhead
        have hread := (h.2 _ rfl).head.alarm rfl 0
        exact congrArg TimeData.u32DayOfWeek hread
  · intro h
    obtain _ | ⟨e, es⟩ := calls
    · exact hstart
    · refine ⟨hstart, fun t ht => ?_⟩
      have hday : e = .setAlarmDateAndTime → r.weekday &&& 0x7#32 = d.u32DayOfWeek :=
        fun he => h.2 (congrArg some he)
      have hload := loaded_step hd (s := start r d) rfl nofun nofun hday rfl ht
      obtain hmode | hmode | hlen := h.1
      · exact always_loaded hd (.inl hmode) hload es
      · exact always_loaded hd (.inr hmode) hload es
      · obtain rfl : es = [] := List.length_eq_zero_iff.1 (by simpa using hlen)
        exact roundTrip_of_loaded hd hload.1

end Runs

/-- The registers of a clock in the 12-hour format, before they are set. -/
def stopped : RtcT := ⟨⟨0, 0, 0, 0⟩, 0, 0⟩

/-- Saturday, the first of January 2000, at one in the afternoon. -/
def onePm : TimeData where
  u32Year := 2000
  u32Month := 1
  u32Day := 1
  u32DayOfWeek := 6
  u32Hour := 1
  u32Minute := 0
  u32Second := 0
  u32TimeScale := 0
  u32AmPm := rtcPm

theorem onePm_valid : onePm.Valid stopped.is24 where
  year := by decide
  month := by decide
  day := by decide
  dayOfWeek := by decide
  hour24 := by decide
  hour12 := by decide
  amPm := by decide
  minute := by decide
  second := by decide

/-- One call after noon. -/
theorem run_roundTrip_iff_onePm :
    Always step (RoundTrip stopped.is24 onePm) (start stopped onePm) [.setDateAndTime] :=
  (run_roundTrip_iff onePm_valid [.setDateAndTime]).2 ⟨.inr (.inr (by decide)), by decide⟩

/-- The alarm is set with the structure that has set the clock, and is read as one before noon. -/
theorem not_run_roundTrip_onePm : onePm.Valid stopped.is24 ∧
    ¬ Always step (RoundTrip stopped.is24 onePm) (start stopped onePm)
      [.setDateAndTime, .setAlarmDateAndTime] := by
  refine ⟨onePm_valid, fun h => ?_⟩
  have hread := ((h.2 _ rfl).2 _ rfl).head.alarm rfl 0
  exact absurd (congrArg TimeData.u32AmPm hread) (by decide)

end Ma35d1.Rtc
