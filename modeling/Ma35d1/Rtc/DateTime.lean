import Mathlib.Data.BitVec
import Mathlib.Data.Nat.ModEq
import Mathlib.Logic.Function.Iterate

/-!
# Reading the real-time clock

`RTC_GetDateAndTime` reads `CLKFMT` and `WEEKDAY` once and `CAL` and `TIME` six times each,
one digit at a time. The clock ticks when it likes; a call is given by the number of ticks
before each of its reads and after the last one.
-/

namespace Ma35d1.Rtc

def rtcClock12 : BitVec 32 := 0
def rtcClock24 : BitVec 32 := 1
def rtcAm : BitVec 32 := 1
def rtcPm : BitVec 32 := 2
def rtcYear2000 : BitVec 32 := 2000

/-- The registers of an `RTC_T` that are read. -/
structure RtcRegs where
  clkfmt : BitVec 32
  weekday : BitVec 32
  cal : BitVec 32
  time : BitVec 32

/-- `S_RTC_TIME_DATA_T` -/
@[ext]
structure TimeData where
  u32Year : BitVec 32
  u32Month : BitVec 32
  u32Day : BitVec 32
  u32DayOfWeek : BitVec 32
  u32Hour : BitVec 32
  u32Minute : BitVec 32
  u32Second : BitVec 32
  u32TimeScale : BitVec 32
  u32AmPm : BitVec 32
  deriving DecidableEq

/-- The digits `g_u32hiYear` to `g_u32loSec`. -/
structure Digits where
  hiYear : BitVec 32
  loYear : BitVec 32
  hiMonth : BitVec 32
  loMonth : BitVec 32
  hiDay : BitVec 32
  loDay : BitVec 32
  hiHour : BitVec 32
  loHour : BitVec 32
  hiMin : BitVec 32
  loMin : BitVec 32
  hiSec : BitVec 32
  loSec : BitVec 32

/-- The digits, with `rd i` what the registers hold at the `i`-th read. -/
def readDigits (rd : Nat → RtcRegs) : Digits :=
  { hiYear := ((rd 2).cal &&& 0xf00000#32) >>> 20
    loYear := ((rd 3).cal &&& 0xf0000#32) >>> 16
    hiMonth := ((rd 4).cal &&& 0x1000#32) >>> 12
    loMonth := ((rd 5).cal &&& 0xf00#32) >>> 8
    hiDay := ((rd 6).cal &&& 0x30#32) >>> 4
    loDay := ((rd 7).cal &&& 0xf#32) >>> 0
    hiHour := ((rd 8).time &&& 0x300000#32) >>> 20
    loHour := ((rd 9).time &&& 0xf0000#32) >>> 16
    hiMin := ((rd 10).time &&& 0x7000#32) >>> 12
    loMin := ((rd 11).time &&& 0xf00#32) >>> 8
    hiSec := ((rd 12).time &&& 0x70#32) >>> 4
    loSec := ((rd 13).time &&& 0xf#32) >>> 0 }

/-- The date and time that the digits make. -/
def compute (u32TimeScale u32DayOfWeek : BitVec 32) (g : Digits) (u32AmPm : BitVec 32) : TimeData :=
  let u32Hour := g.hiHour * 10 + g.loHour
  { u32TimeScale, u32DayOfWeek
    u32Year := g.hiYear * 10 + g.loYear + rtcYear2000
    u32Month := g.hiMonth * 10 + g.loMonth
    u32Day := g.hiDay * 10 + g.loDay
    -- in the 12-hour format AM is 1..12 and PM is 21..32
    u32Hour := if u32TimeScale = rtcClock12 ∧ 21 ≤ u32Hour then u32Hour - 20 else u32Hour
    u32AmPm :=
      if u32TimeScale = rtcClock12 then if 21 ≤ u32Hour then rtcPm else rtcAm else u32AmPm
    u32Minute := g.hiMin * 10 + g.loMin
    u32Second := g.hiSec * 10 + g.loSec }

/-- `RTC_GetDateAndTime`; `u32AmPm` is what `sPt->u32AmPm` holds before the call. -/
def getDateAndTime (rd : Nat → RtcRegs) (u32AmPm : BitVec 32) : TimeData :=
  compute ((rd 0).clkfmt &&& 0x1#32) ((rd 1).weekday &&& 0x7#32) (readDigits rd) u32AmPm

/-! ## The clock -/

/-- The days of a month, of a year counted from 2000. -/
def daysIn (yr mon : Nat) : Nat :=
  if mon = 2 then if yr % 4 = 0 then 29 else 28
  else if mon = 4 ∨ mon = 6 ∨ mon = 9 ∨ mon = 11 then 30 else 31

structure Date where
  yr : Nat
  mon : Nat
  day : Nat
  wday : Nat
  yr_lt : yr < 100
  mon_range : 1 ≤ mon ∧ mon ≤ 12
  day_range : 1 ≤ day ∧ day ≤ daysIn yr mon
  wday_lt : wday < 7

theorem one_le_daysIn (yr mon : Nat) : 1 ≤ daysIn yr mon := by
  unfold daysIn
  repeat' split
  all_goals decide

theorem daysIn_le (yr mon : Nat) : daysIn yr mon ≤ 31 := by
  unfold daysIn
  repeat' split
  all_goals decide

/-- The day after. -/
def Date.next (d : Date) : Date :=
  have hwday : (d.wday + 1) % 7 < 7 := Nat.mod_lt _ (by decide)
  if hday : d.day < daysIn d.yr d.mon then
    ⟨d.yr, d.mon, d.day + 1, (d.wday + 1) % 7, d.yr_lt, d.mon_range, ⟨by omega, hday⟩, hwday⟩
  else if hmon : d.mon < 12 then
    ⟨d.yr, d.mon + 1, 1, (d.wday + 1) % 7, d.yr_lt, ⟨by omega, hmon⟩,
      ⟨Nat.le_refl 1, one_le_daysIn _ _⟩, hwday⟩
  else
    ⟨(d.yr + 1) % 100, 1, 1, (d.wday + 1) % 7, Nat.mod_lt _ (by decide), ⟨by decide, by decide⟩,
      ⟨Nat.le_refl 1, one_le_daysIn _ _⟩, hwday⟩

structure Clock where
  date : Date
  hour : Nat
  min : Nat
  sec : Nat
  hour_lt : hour < 24
  min_lt : min < 60
  sec_lt : sec < 60

/-- One second later. -/
def Clock.tick (c : Clock) : Clock :=
  if hsec : c.sec + 1 < 60 then { c with sec := c.sec + 1, sec_lt := hsec }
  else if hmin : c.min + 1 < 60 then
    { c with min := c.min + 1, min_lt := hmin, sec := 0, sec_lt := by decide }
  else if hhour : c.hour + 1 < 24 then
    ⟨c.date, c.hour + 1, 0, 0, hhour, by decide, by decide⟩
  else ⟨c.date.next, 0, 0, 0, by decide, by decide, by decide⟩

/-- What `TIME` holds for the hour: `0..23`, or `1..12` before noon and `21..32` after it. -/
def rawHour (h24 : Bool) (hour : Nat) : Nat :=
  if h24 then hour
  else if hour = 0 then 12
  else if hour < 12 then hour
  else if hour = 12 then 32
  else hour + 8

/-- The registers, in decimal digits. -/
def Clock.regs (h24 : Bool) (c : Clock) : RtcRegs :=
  { clkfmt := if h24 then 1 else 0
    weekday := BitVec.ofNat 32 c.date.wday
    cal := BitVec.ofNat 32 (c.date.yr / 10 * 0x100000 + c.date.yr % 10 * 0x10000 +
      c.date.mon / 10 * 0x1000 + c.date.mon % 10 * 0x100 +
      c.date.day / 10 * 0x10 + c.date.day % 10)
    time := BitVec.ofNat 32 (rawHour h24 c.hour / 10 * 0x100000 + rawHour h24 c.hour % 10 * 0x10000 +
      c.min / 10 * 0x1000 + c.min % 10 * 0x100 + c.sec / 10 * 0x10 + c.sec % 10) }

/-- The date and time that the clock holds. -/
def Clock.held (h24 : Bool) (u32AmPm : BitVec 32) (c : Clock) : TimeData :=
  { u32TimeScale := if h24 then rtcClock24 else rtcClock12
    u32DayOfWeek := BitVec.ofNat 32 c.date.wday
    u32Year := BitVec.ofNat 32 (2000 + c.date.yr)
    u32Month := BitVec.ofNat 32 c.date.mon
    u32Day := BitVec.ofNat 32 c.date.day
    u32Hour := BitVec.ofNat 32 (if h24 then c.hour else if c.hour % 12 = 0 then 12 else c.hour % 12)
    u32AmPm := if h24 then u32AmPm else if c.hour < 12 then rtcAm else rtcPm
    u32Minute := BitVec.ofNat 32 c.min
    u32Second := BitVec.ofNat 32 c.sec }

/-! ## Digits -/

/-- What is read with one read each, in the order of the source. -/
inductive Item
  | weekday | tenYear | year | tenMon | mon | tenDay | day | tenHr | hr | tenMin | min | tenSec | sec
  deriving DecidableEq

/-- The number of the item's read; read 0 is that of `CLKFMT`. -/
def Item.read : Item → Nat
  | .weekday => 1 | .tenYear => 2 | .year => 3 | .tenMon => 4 | .mon => 5 | .tenDay => 6
  | .day => 7 | .tenHr => 8 | .hr => 9 | .tenMin => 10 | .min => 11 | .tenSec => 12 | .sec => 13

/-- What the clock shows of it. -/
def Item.value (h24 : Bool) (c : Clock) : Item → Nat
  | .weekday => c.date.wday
  | .tenYear => c.date.yr / 10
  | .year => c.date.yr % 10
  | .tenMon => c.date.mon / 10
  | .mon => c.date.mon % 10
  | .tenDay => c.date.day / 10
  | .day => c.date.day % 10
  | .tenHr => rawHour h24 c.hour / 10
  | .hr => rawHour h24 c.hour % 10
  | .tenMin => c.min / 10
  | .min => c.min % 10
  | .tenSec => c.sec / 10
  | .sec => c.sec % 10

/-- The date and time with the digits `d`. -/
def assemble (h24 : Bool) (u32AmPm : BitVec 32) (d : Item → Nat) : TimeData :=
  let raw := d .tenHr * 10 + d .hr
  { u32TimeScale := if h24 then rtcClock24 else rtcClock12
    u32DayOfWeek := BitVec.ofNat 32 (d .weekday)
    u32Year := BitVec.ofNat 32 (d .tenYear * 10 + d .year + 2000)
    u32Month := BitVec.ofNat 32 (d .tenMon * 10 + d .mon)
    u32Day := BitVec.ofNat 32 (d .tenDay * 10 + d .day)
    u32Hour := BitVec.ofNat 32 (if h24 = false ∧ 21 ≤ raw then raw - 20 else raw)
    u32AmPm := if h24 then u32AmPm else if 21 ≤ raw then rtcPm else rtcAm
    u32Minute := BitVec.ofNat 32 (d .tenMin * 10 + d .min)
    u32Second := BitVec.ofNat 32 (d .tenSec * 10 + d .sec) }

section Digits

variable {h24 : Bool} {c : Clock} {u32AmPm : BitVec 32} {d d' : Item → Nat}

theorem rawHour_le (h24 : Bool) (h : c.hour < 24) : rawHour h24 c.hour ≤ 32 := by
  unfold rawHour
  repeat' split
  all_goals omega

/-- Every item is one decimal digit. -/
theorem value_lt (h24 : Bool) (c : Clock) (x : Item) : x.value h24 c < 10 := by
  have hyr := c.date.yr_lt
  have hmon := c.date.mon_range
  have hday := c.date.day_range.2.trans (daysIn_le _ _)
  have hwday := c.date.wday_lt
  have hhour := rawHour_le h24 c.hour_lt
  have hmin := c.min_lt
  have hsec := c.sec_lt
  cases x <;> simp only [Item.value] <;> omega

theorem ofNat_inj {a b : Nat} (ha : a < 4096) (hb : b < 4096)
    (h : BitVec.ofNat 32 a = BitVec.ofNat 32 b) : a = b := by
  have hn := congrArg BitVec.toNat h
  rw [BitVec.toNat_ofNat, BitVec.toNat_ofNat, Nat.mod_eq_of_lt (by omega),
    Nat.mod_eq_of_lt (by omega)] at hn
  exact hn

/-- Before noon the register holds the hour as it is shown, after it 20 more. -/
theorem rawHour_am {h : Nat} (ham : h < 12) :
    rawHour false h < 21 ∧ rawHour false h = if h % 12 = 0 then 12 else h % 12 := by
  unfold rawHour
  rw [if_neg Bool.false_ne_true]
  repeat' split
  all_goals omega

theorem rawHour_pm {h : Nat} (hpm : 12 ≤ h) (hlt : h < 24) :
    21 ≤ rawHour false h ∧ rawHour false h - 20 = if h % 12 = 0 then 12 else h % 12 := by
  unfold rawHour
  rw [if_neg Bool.false_ne_true]
  repeat' split
  all_goals omega

/-- A date and time has its digits only once. -/
theorem assemble_inj (hd : ∀ x, d x < 10) (hd' : ∀ x, d' x < 10)
    (h : assemble h24 u32AmPm d = assemble h24 u32AmPm d') : d = d' := by
  simp only [assemble, TimeData.mk.injEq, true_and] at h
  obtain ⟨hyear, hmon, hday, hwday, hhour, hmin, hsec, hampm⟩ := h
  have hbound := fun x => And.intro (hd x) (hd' x)
  have hb1 := hbound .weekday; have hb2 := hbound .tenYear; have hb3 := hbound .year
  have hb4 := hbound .tenMon; have hb5 := hbound .mon; have hb6 := hbound .tenDay
  have hb7 := hbound .day; have hb8 := hbound .tenHr; have hb9 := hbound .hr
  have hb10 := hbound .tenMin; have hb11 := hbound .min; have hb12 := hbound .tenSec
  have hb13 := hbound .sec
  have hwday := ofNat_inj (by omega) (by omega) hwday
  have hyear := ofNat_inj (by omega) (by omega) hyear
  have hmon := ofNat_inj (by omega) (by omega) hmon
  have hday := ofNat_inj (by omega) (by omega) hday
  have hmin := ofNat_inj (by omega) (by omega) hmin
  have hsec := ofNat_inj (by omega) (by omega) hsec
  have hhour := ofNat_inj (by split <;> omega) (by split <;> omega) hhour
  have hraw : d .tenHr * 10 + d .hr = d' .tenHr * 10 + d' .hr := by
    cases h24 with
    | true => simpa using hhour
    | false =>
      simp only [Bool.false_eq_true, if_false] at hampm
      -- the half of the day tells which of the two hours was shortened
      have hhalf : 21 ≤ d .tenHr * 10 + d .hr ↔ 21 ≤ d' .tenHr * 10 + d' .hr := by
        by_cases h1 : 21 ≤ d .tenHr * 10 + d .hr <;> by_cases h2 : 21 ≤ d' .tenHr * 10 + d' .hr
        · simp [h1, h2]
        · simp [h1, h2, rtcAm, rtcPm] at hampm
        · simp [h1, h2, rtcAm, rtcPm] at hampm
        · simp [h1, h2]
      simp only [hhalf, true_and] at hhour
      split at hhour <;> omega
  funext x
  cases x <;> omega

/-- A clock shows what it holds. -/
theorem held_eq (h24 : Bool) (u32AmPm : BitVec 32) (c : Clock) :
    c.held h24 u32AmPm = assemble h24 u32AmPm (Item.value h24 c) := by
  have hraw : rawHour h24 c.hour / 10 * 10 + rawHour h24 c.hour % 10 = rawHour h24 c.hour :=
    Nat.div_add_mod' _ 10
  have hlt := c.hour_lt
  simp only [Clock.held, assemble, Item.value, hraw, Nat.div_add_mod', TimeData.mk.injEq,
    true_and]
  refine ⟨by rw [Nat.add_comm], ?_⟩
  cases h24 with
  | true => simp [rawHour]
  | false =>
    simp only [Bool.false_eq_true, if_false, true_and]
    by_cases ham : c.hour < 12
    · have hr := rawHour_am ham
      have hno : ¬ 21 ≤ rawHour false c.hour := by omega
      rw [← hr.2, if_neg hno, if_pos ham, if_neg hno]
      exact ⟨rfl, rfl⟩
    · have hr := rawHour_pm (by omega) hlt
      rw [← hr.2, if_pos hr.1, if_neg ham, if_pos hr.1]
      exact ⟨rfl, rfl⟩

/-- `(w & (m << p)) >> p` for a mask of `k` ones -/
theorem field_toNat (w : BitVec 32) {msk m : BitVec 32} (p k : Nat) (hm : msk >>> p = m)
    (hk : m.toNat = 2 ^ k - 1) : ((w &&& msk) >>> p).toNat = w.toNat / 2 ^ p % 2 ^ k := by
  rw [BitVec.ushiftRight_and_distrib, hm, BitVec.toNat_and, BitVec.toNat_ushiftRight, hk,
    Nat.and_two_pow_sub_one_eq_mod, Nat.shiftRight_eq_div_pow]

theorem cal_toNat (h24 : Bool) (c : Clock) : (c.regs h24).cal.toNat =
    c.date.yr / 10 * 0x100000 + c.date.yr % 10 * 0x10000 + c.date.mon / 10 * 0x1000 +
      c.date.mon % 10 * 0x100 + c.date.day / 10 * 0x10 + c.date.day % 10 := by
  have hyr := c.date.yr_lt
  have hmon := c.date.mon_range
  have hday := c.date.day_range.2.trans (daysIn_le _ _)
  simp only [Clock.regs, BitVec.toNat_ofNat]
  exact Nat.mod_eq_of_lt (by omega)

theorem time_toNat (h24 : Bool) (c : Clock) : (c.regs h24).time.toNat =
    rawHour h24 c.hour / 10 * 0x100000 + rawHour h24 c.hour % 10 * 0x10000 +
      c.min / 10 * 0x1000 + c.min % 10 * 0x100 + c.sec / 10 * 0x10 + c.sec % 10 := by
  have hhour := rawHour_le h24 c.hour_lt
  have hmin := c.min_lt
  have hsec := c.sec_lt
  simp only [Clock.regs, BitVec.toNat_ofNat]
  exact Nat.mod_eq_of_lt (by omega)

/-- The digits of a word that is put together from six of them. -/
theorem six_digits {w a b d e f g : Nat}
    (hw : w = a * 0x100000 + b * 0x10000 + d * 0x1000 + e * 0x100 + f * 0x10 + g)
    (ha : a < 10) (hb : b < 10) (hd : d < 10) (he : e < 10) (hf : f < 10) (hg : g < 10) :
    w / 2 ^ 20 % 16 = a ∧ w / 2 ^ 16 % 16 = b ∧ w / 2 ^ 12 % 16 = d ∧ w / 2 ^ 8 % 16 = e ∧
      w / 2 ^ 4 % 16 = f ∧ w / 2 ^ 0 % 16 = g := by
  refine ⟨?_, ?_, ?_, ?_, ?_, ?_⟩ <;> omega

/-- A field of `k` bits holds the digit at its place, where the digit fits. -/
theorem field_eq {w msk m : BitVec 32} {d : Nat} (p k : Nat) (hm : msk >>> p = m)
    (hk : m.toNat = 2 ^ k - 1) (hk4 : k ≤ 4) (hd : w.toNat / 2 ^ p % 16 = d) (hlt : d < 2 ^ k) :
    (w &&& msk) >>> p = BitVec.ofNat 32 d := by
  apply BitVec.eq_of_toNat_eq
  have hdvd : 2 ^ k ∣ 16 := Nat.pow_dvd_pow 2 hk4
  rw [field_toNat w p k hm hk, BitVec.toNat_ofNat, ← Nat.mod_mod_of_dvd _ hdvd, hd,
    Nat.mod_eq_of_lt hlt, Nat.mod_eq_of_lt (by omega)]

/-- A field of `CAL` is the digit it is named after. -/
theorem cal_field (h24 : Bool) (c : Clock) :
    ((c.regs h24).cal &&& 0xf00000#32) >>> 20 = BitVec.ofNat 32 (c.date.yr / 10) ∧
    ((c.regs h24).cal &&& 0xf0000#32) >>> 16 = BitVec.ofNat 32 (c.date.yr % 10) ∧
    ((c.regs h24).cal &&& 0x1000#32) >>> 12 = BitVec.ofNat 32 (c.date.mon / 10) ∧
    ((c.regs h24).cal &&& 0xf00#32) >>> 8 = BitVec.ofNat 32 (c.date.mon % 10) ∧
    ((c.regs h24).cal &&& 0x30#32) >>> 4 = BitVec.ofNat 32 (c.date.day / 10) ∧
    ((c.regs h24).cal &&& 0xf#32) >>> 0 = BitVec.ofNat 32 (c.date.day % 10) := by
  have hmon := c.date.mon_range
  have hday := c.date.day_range.2.trans (daysIn_le _ _)
  have hlt := value_lt h24 c
  obtain ⟨h1, h2, h3, h4, h5, h6⟩ := six_digits (cal_toNat h24 c) (hlt .tenYear) (hlt .year)
    (hlt .tenMon) (hlt .mon) (hlt .tenDay) (hlt .day)
  refine ⟨field_eq 20 4 rfl (m := 0xf) rfl (by decide) h1 ((hlt .tenYear).trans (by decide)),
    field_eq 16 4 rfl (m := 0xf) rfl (by decide) h2 ((hlt .year).trans (by decide)),
    field_eq 12 1 rfl (m := 0x1) rfl (by decide) h3 (by omega),
    field_eq 8 4 rfl (m := 0xf) rfl (by decide) h4 ((hlt .mon).trans (by decide)),
    field_eq 4 2 rfl (m := 0x3) rfl (by decide) h5 (by omega),
    field_eq 0 4 rfl (m := 0xf) rfl (by decide) h6 ((hlt .day).trans (by decide))⟩

theorem time_field (h24 : Bool) (c : Clock) :
    ((c.regs h24).time &&& 0x300000#32) >>> 20 = BitVec.ofNat 32 (rawHour h24 c.hour / 10) ∧
    ((c.regs h24).time &&& 0xf0000#32) >>> 16 = BitVec.ofNat 32 (rawHour h24 c.hour % 10) ∧
    ((c.regs h24).time &&& 0x7000#32) >>> 12 = BitVec.ofNat 32 (c.min / 10) ∧
    ((c.regs h24).time &&& 0xf00#32) >>> 8 = BitVec.ofNat 32 (c.min % 10) ∧
    ((c.regs h24).time &&& 0x70#32) >>> 4 = BitVec.ofNat 32 (c.sec / 10) ∧
    ((c.regs h24).time &&& 0xf#32) >>> 0 = BitVec.ofNat 32 (c.sec % 10) := by
  have hhour := rawHour_le h24 c.hour_lt
  have hmin := c.min_lt
  have hsec := c.sec_lt
  have hlt := value_lt h24 c
  obtain ⟨h1, h2, h3, h4, h5, h6⟩ := six_digits (time_toNat h24 c) (hlt .tenHr) (hlt .hr)
    (hlt .tenMin) (hlt .min) (hlt .tenSec) (hlt .sec)
  refine ⟨field_eq 20 2 rfl (m := 0x3) rfl (by decide) h1 (by omega),
    field_eq 16 4 rfl (m := 0xf) rfl (by decide) h2 ((hlt .hr).trans (by decide)),
    field_eq 12 3 rfl (m := 0x7) rfl (by decide) h3 (by omega),
    field_eq 8 4 rfl (m := 0xf) rfl (by decide) h4 ((hlt .min).trans (by decide)),
    field_eq 4 3 rfl (m := 0x7) rfl (by decide) h5 (by omega),
    field_eq 0 4 rfl (m := 0xf) rfl (by decide) h6 ((hlt .sec).trans (by decide))⟩

theorem weekday_field (h24 : Bool) (c : Clock) :
    (c.regs h24).weekday &&& 0x7#32 = BitVec.ofNat 32 c.date.wday := by
  have hwday := c.date.wday_lt
  apply BitVec.eq_of_toNat_eq
  rw [BitVec.toNat_and, show (0x7#32).toNat = 2 ^ 3 - 1 from rfl, Nat.and_two_pow_sub_one_eq_mod]
  simp only [Clock.regs, BitVec.toNat_ofNat]
  omega

theorem clkfmt_field (h24 : Bool) (c : Clock) :
    (c.regs h24).clkfmt &&& 0x1#32 = if h24 then rtcClock24 else rtcClock12 := by
  cases h24 <;> simp [Clock.regs, rtcClock12, rtcClock24]

theorem two_digits (a b : Nat) :
    BitVec.ofNat 32 a * 10 + BitVec.ofNat 32 b = BitVec.ofNat 32 (a * 10 + b) := by
  rw [BitVec.ofNat_add, BitVec.ofNat_mul]
  rfl

/-- The digits read, each at its own instant. -/
theorem readDigits_eq (h24 : Bool) (c : Nat → Clock) :
    readDigits (fun i => (c i).regs h24) =
      { hiYear := BitVec.ofNat 32 (Item.tenYear.value h24 (c 2))
        loYear := BitVec.ofNat 32 (Item.year.value h24 (c 3))
        hiMonth := BitVec.ofNat 32 (Item.tenMon.value h24 (c 4))
        loMonth := BitVec.ofNat 32 (Item.mon.value h24 (c 5))
        hiDay := BitVec.ofNat 32 (Item.tenDay.value h24 (c 6))
        loDay := BitVec.ofNat 32 (Item.day.value h24 (c 7))
        hiHour := BitVec.ofNat 32 (Item.tenHr.value h24 (c 8))
        loHour := BitVec.ofNat 32 (Item.hr.value h24 (c 9))
        hiMin := BitVec.ofNat 32 (Item.tenMin.value h24 (c 10))
        loMin := BitVec.ofNat 32 (Item.min.value h24 (c 11))
        hiSec := BitVec.ofNat 32 (Item.tenSec.value h24 (c 12))
        loSec := BitVec.ofNat 32 (Item.sec.value h24 (c 13)) } := by
  simp only [readDigits, Item.value, (cal_field h24 (c 2)).1, (cal_field h24 (c 3)).2.1,
    (cal_field h24 (c 4)).2.2.1, (cal_field h24 (c 5)).2.2.2.1, (cal_field h24 (c 6)).2.2.2.2.1,
    (cal_field h24 (c 7)).2.2.2.2.2, (time_field h24 (c 8)).1, (time_field h24 (c 9)).2.1,
    (time_field h24 (c 10)).2.2.1, (time_field h24 (c 11)).2.2.2.1,
    (time_field h24 (c 12)).2.2.2.2.1, (time_field h24 (c 13)).2.2.2.2.2]

theorem twentyOne_le {raw : Nat} (h : raw < 4096) :
    (21 : BitVec 32) ≤ BitVec.ofNat 32 raw ↔ 21 ≤ raw := by
  rw [BitVec.le_def, BitVec.toNat_ofNat, Nat.mod_eq_of_lt (by omega)]
  rfl

theorem sub_twenty {raw : Nat} (h : raw < 4096) (hge : 21 ≤ raw) :
    BitVec.ofNat 32 raw - 20 = BitVec.ofNat 32 (raw - 20) := by
  apply BitVec.eq_of_toNat_eq
  rw [BitVec.toNat_sub, BitVec.toNat_ofNat, BitVec.toNat_ofNat,
    show (20 : BitVec 32).toNat = 20 from rfl]
  omega

theorem clock12_iff : (if h24 then rtcClock24 else rtcClock12) = rtcClock12 ↔ h24 = false := by
  cases h24 <;> decide

theorem hour_eq {w : BitVec 32} {raw : Nat} (hw : w = BitVec.ofNat 32 raw) (hraw : raw < 4096) :
    (if (if h24 then rtcClock24 else rtcClock12) = rtcClock12 ∧ 21 ≤ w then w - 20 else w) =
      BitVec.ofNat 32 (if h24 = false ∧ 21 ≤ raw then raw - 20 else raw) := by
  subst hw
  by_cases h : h24 = false ∧ 21 ≤ raw
  · rw [if_pos ⟨clock12_iff.2 h.1, (twentyOne_le hraw).2 h.2⟩, if_pos h, sub_twenty hraw h.2]
  · rw [if_neg fun h' => h ⟨clock12_iff.1 h'.1, (twentyOne_le hraw).1 h'.2⟩, if_neg h]

theorem amPm_eq {w : BitVec 32} {raw : Nat} (hw : w = BitVec.ofNat 32 raw) (hraw : raw < 4096) :
    (if (if h24 then rtcClock24 else rtcClock12) = rtcClock12 then
      if 21 ≤ w then rtcPm else rtcAm else u32AmPm) =
      if h24 then u32AmPm else if 21 ≤ raw then rtcPm else rtcAm := by
  subst hw
  cases h24 with
  | true => rfl
  | false =>
    by_cases h : 21 ≤ raw
    · have hle := (twentyOne_le hraw).2 h
      rw [if_pos (clock12_iff.2 rfl), if_neg Bool.false_ne_true, if_pos hle, if_pos h]
    · have hle := fun hle => h ((twentyOne_le hraw).1 hle)
      rw [if_pos (clock12_iff.2 rfl), if_neg Bool.false_ne_true, if_neg hle, if_neg h]

/-- What the function returns is put together from the digits at their reads. -/
theorem getDateAndTime_eq (h24 : Bool) (c : Nat → Clock) (u32AmPm : BitVec 32) :
    getDateAndTime (fun i => (c i).regs h24) u32AmPm =
      assemble h24 u32AmPm fun x => x.value h24 (c x.read) := by
  have htens := value_lt h24 (c 8) .tenHr
  have hunits := value_lt h24 (c 9) .hr
  have hraw : Item.tenHr.value h24 (c 8) * 10 + Item.hr.value h24 (c 9) < 4096 := by omega
  unfold getDateAndTime
  rw [readDigits_eq, clkfmt_field, weekday_field]
  apply TimeData.ext
  · exact (congrArg (· + rtcYear2000) (two_digits _ _)).trans (BitVec.ofNat_add _ 2000).symm
  · exact two_digits _ _
  · exact two_digits _ _
  · rfl
  · exact hour_eq (two_digits _ _) hraw
  · exact two_digits _ _
  · exact two_digits _ _
  · rfl
  · exact amPm_eq (two_digits _ _) hraw

end Digits

end Ma35d1.Rtc
