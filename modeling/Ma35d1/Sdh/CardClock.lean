import Mathlib.Data.BitVec
import Ma35d1.Machine.Fields
import Ma35d1.Sdh.Transfer

/-!
# The clock of a card

`SDH_set_clock` divides half of the reference clock by the requested clock and keeps eight bits
of the quotient. The division rounds down, so that the card runs faster than requested unless
it leaves no remainder; and a quotient of nine bits loses its top.
-/

namespace Ma35d1.Sdh.CardClock

/-! ## The code -/

/-- `_SDH0_ReferenceClock` and `_SDH1_ReferenceClock` -/
def referenceClock : BitVec 32 := 180000000

/-- `SDH_CHCEK_FREQ` -/
def sdhChcekFreq : BitVec 32 := 100000000

/-- `CLK_CTRL_R` and, of the vendor specific area, `MSHC_CTRL_R` -/
structure ClockRegs where
  clkCtrl : BitVec 16
  mshcCtrl : BitVec 8
  deriving DecidableEq

/-- How the two waits of a call end: whether `PSTATE_REG` shows no inhibit, and whether
`CLK_CTRL_R` shows a stable clock, before the time is out. -/
structure Waits where
  free : Bool
  stable : Bool

/-- `SDH_set_clock` -/
def setClock (clock : BitVec 32) (w : Waits) (r : ClockRegs) : ClockRegs :=
  if w.free = false then r
  else if clock = 0 then { r with clkCtrl := 0 }
  else
    let div := referenceClock / 2 / clock
    let clk := ((div &&& 0xff#32) <<< 8 ||| 0x01#32).setWidth 16
    if w.stable = false then { r with clkCtrl := clk }
    else
      -- bit 1 is the controller's, bit 2 starts the card's clock
      { clkCtrl := clk ||| 0x2#16 ||| 0x4#16
        mshcCtrl := if sdhChcekFreq ≤ clock then r.mshcCtrl &&& ~~~1#8 else r.mshcCtrl ||| 1#8 }

/-- The modes of `enum bus_mode` that the driver knows of. -/
inductive BusMode
  | mmcLegacy | sdLegacy | mmcHs | sdHs | mmcHs52 | mmcDdr52
  | uhsSdr12 | uhsSdr25 | uhsSdr50 | uhsDdr50 | uhsSdr104 | mmcHs200
  deriving DecidableEq

/-- `freqs` -/
def freqs : BusMode → BitVec 32
  | .mmcLegacy => 25000000
  | .sdLegacy => 25000000
  | .mmcHs => 26000000
  | .sdHs => 50000000
  | .mmcHs52 => 52000000
  | .mmcDdr52 => 52000000
  | .uhsSdr12 => 25000000
  | .uhsSdr25 => 50000000
  | .uhsSdr50 => 100000000
  | .uhsDdr50 => 50000000
  | .uhsSdr104 => 200000000
  | .mmcHs200 => 200000000

def sdModes : List BusMode := [.uhsSdr104, .uhsSdr50, .uhsSdr25, .sdHs, .uhsSdr12, .sdLegacy]

def mmcModes : List BusMode := [.mmcHs200, .mmcHs52, .mmcHs, .mmcLegacy]

/-- `SDH_set_card_speed`; `sent` is the result of the switch command for each mode. -/
def setCardSpeed (type : CardType) (sent : BusMode → Int) (mode : BusMode) : Int :=
  if type ≠ .emmc then
    if type = .sdLow then 0
    else
      match mode with
      | .sdLegacy | .sdHs | .uhsSdr12 | .uhsSdr25 | .uhsSdr50 | .uhsDdr50 | .uhsSdr104 => sent mode
      | .mmcLegacy | .mmcHs | .mmcHs52 | .mmcDdr52 | .mmcHs200 => -1
  else
    match mode with
    | .mmcHs | .mmcHs52 | .mmcDdr52 | .mmcHs200 | .mmcLegacy => sent mode
    | .sdLegacy | .sdHs | .uhsSdr12 | .uhsSdr25 | .uhsSdr50 | .uhsDdr50 | .uhsSdr104 => -1

/-- `SDH_tuning`: `SDH_dll_reset` puts `CLK_CTRL_R` back after the reset, and not `MSHC_CTRL_R`. -/
def tuning (r : ClockRegs) : ClockRegs := { r with mshcCtrl := 0 }

/-- A call of `SDH_set_mode`: on `SDH1` or not, for a card, with the results of the switch
commands and of the waits. -/
structure ModeCall where
  sdh1 : Bool
  type : CardType
  freq : BitVec 32
  sent : BusMode → Int
  waits : Waits

/-- The loop over the modes. -/
def tryModes (c : ModeCall) : List BusMode → ClockRegs → Option BusMode × ClockRegs
  | [], r => (none, r)
  | m :: ms, r =>
    if freqs m ≤ c.freq then
      if setCardSpeed c.type c.sent m = 0 then
        let r := setClock (freqs m) c.waits r
        (some m, if 100000000#32 ≤ c.freq ∧ c.sdh1 = true then tuning r else r)
      else tryModes c ms r
    else tryModes c ms r

/-- `SDH_set_mode`, with `none` for -1. -/
def setMode (c : ModeCall) (r : ClockRegs) : Option BusMode × ClockRegs :=
  tryModes c (if c.type ≠ .emmc then sdModes else mmcModes) r

/-! ## What the clock is to be -/

/-- The divider that is programmed. -/
def ClockRegs.divider (r : ClockRegs) : Nat := (r.clkCtrl >>> 8).toNat

/-- Whether the card has a clock. -/
def ClockRegs.Running (r : ClockRegs) : Prop := r.clkCtrl.getLsbD 2 = true

instance (r : ClockRegs) : Decidable r.Running := by unfold ClockRegs.Running; infer_instance

/-- The reference clock, divided by twice the divider unless that is 0, is at most `f`. -/
def ClockRegs.AtMost (r : ClockRegs) (f : BitVec 32) : Prop :=
  if r.divider = 0 then referenceClock.toNat ≤ f.toNat
  else referenceClock.toNat ≤ 2 * r.divider * f.toNat

instance (r : ClockRegs) (f : BitVec 32) : Decidable (r.AtMost f) := by
  unfold ClockRegs.AtMost
  infer_instance

/-- The output is at most the requested clock, or the slowest there is. -/
def NotFaster (r : ClockRegs) (clock : BitVec 32) : Prop := r.AtMost clock ∨ r.divider = 255

/-- The mode that the card is switched to does not run faster than its frequency. -/
def ModeLaw (c : ModeCall) (r : ClockRegs) : Prop :=
  ∀ m ∈ (setMode c r).1, (setMode c r).2.Running → (setMode c r).2.AtMost (freqs m)

/-- The quotient is 0, or exact in eight bits, or ends in eight ones. -/
def Exact (clock : BitVec 32) : Prop :=
  referenceClock ≤ clock ∨
    (clock.toNat ∣ 90000000 ∧ 90000000 / clock.toNat < 256) ∨
    90000000 / clock.toNat % 256 = 255

/-- The first mode of the list that is not above `freq` and that the card takes. -/
def switched (c : ModeCall) : Option BusMode :=
  (if c.type ≠ .emmc then sdModes else mmcModes).find? fun m =>
    decide (freqs m ≤ c.freq) && decide (setCardSpeed c.type c.sent m = 0)

/-- The mode is one of 200 MHz, or its clock does not start; or the inhibit leaves a clock as it
is that is not too fast for the mode. -/
def ModeKeepsClock (c : ModeCall) (r : ClockRegs) : Prop :=
  ∀ m ∈ switched c,
    if c.waits.free = true then c.waits.stable = true → freqs m = 200000000
    else r.Running → r.AtMost (freqs m)

section Divider

variable {clock : BitVec 32} {w : Waits} {r : ClockRegs} {f : BitVec 32} {d : Nat}

/-- The word that is written to `CLK_CTRL_R`. -/
def clkWord (div : BitVec 32) : BitVec 16 := ((div &&& 0xff#32) <<< 8 ||| 0x01#32).setWidth 16

theorem clkWord_divider (div : BitVec 32) : (clkWord div >>> 8).toNat = div.toNat % 256 := by
  have hlow : (div &&& 0xff#32).toNat = div.toNat % 256 := by
    rw [BitVec.toNat_and]
    exact Nat.and_two_pow_sub_one_eq_mod _ 8
  have hshift : ((div &&& 0xff#32) <<< 8).toNat = div.toNat % 256 * 256 := by
    rw [BitVec.toNat_shiftLeft, hlow, Nat.shiftLeft_eq]
    omega
  have hor := Machine.toNat_or_of_dvd (k := 8) (x := (div &&& 0xff#32) <<< 8) (y := 0x01#32)
    (by rw [hshift]; exact Nat.dvd_mul_left _ _) (by decide)
  rw [BitVec.toNat_ushiftRight, Nat.shiftRight_eq_div_pow, clkWord, BitVec.toNat_setWidth, hor,
    hshift]
  show (div.toNat % 256 * 256 + 1) % 2 ^ 16 / 2 ^ 8 = _
  omega

theorem clkWord_stopped (div : BitVec 32) : (clkWord div).getLsbD 2 = false := by
  simp [clkWord]

/-- The bits above the lowest byte are not touched afterwards. -/
theorem started_divider (x : BitVec 16) :
    ((x ||| 0x2#16 ||| 0x4#16) >>> 8).toNat = (x >>> 8).toNat := by
  rw [BitVec.ushiftRight_or_distrib, BitVec.ushiftRight_or_distrib]
  simp

theorem started_running (x : BitVec 16) : (x ||| 0x2#16 ||| 0x4#16).getLsbD 2 = true := by
  simp

/-- What a call leaves that has found the lines free. -/
theorem setClock_divider (hfree : w.free = true) (hclock : clock ≠ 0) :
    (setClock clock w r).divider = 90000000 / clock.toNat % 256 := by
  have hdiv : (referenceClock / 2 / clock).toNat = 90000000 / clock.toNat := BitVec.toNat_udiv
  unfold setClock ClockRegs.divider
  rw [if_neg (by rw [hfree]; decide), if_neg hclock]
  cases w.stable with
  | false => exact (clkWord_divider _).trans (congrArg (· % 256) hdiv)
  | true => exact ((started_divider _).trans (clkWord_divider _)).trans (congrArg (· % 256) hdiv)

theorem setClock_running (hfree : w.free = true) (hclock : clock ≠ 0) :
    (setClock clock w r).Running ↔ w.stable = true := by
  unfold setClock ClockRegs.Running
  rw [if_neg (by rw [hfree]; decide), if_neg hclock]
  cases w.stable with
  | false => exact iff_of_false (by rw [Bool.not_eq_true]; exact clkWord_stopped _) (by decide)
  | true => exact iff_of_true (started_running _) rfl

/-- A divider cut from the quotient keeps the clock down only where nothing is cut or rounded. -/
theorem atMost_iff (hclock : clock ≠ 0) (hd : r.divider = 90000000 / clock.toNat % 256) :
    r.AtMost clock ↔
      referenceClock ≤ clock ∨ (clock.toNat ∣ 90000000 ∧ 90000000 / clock.toNat < 256) := by
  have hpos : 0 < clock.toNat := Nat.pos_of_ne_zero fun h => hclock (BitVec.eq_of_toNat_eq h)
  have hle : referenceClock ≤ clock ↔ 180000000 ≤ clock.toNat := Iff.rfl
  have hmul : 90000000 / clock.toNat * clock.toNat ≤ 90000000 := Nat.div_mul_le_self _ _
  unfold ClockRegs.AtMost
  show (if r.divider = 0 then 180000000 ≤ clock.toNat
    else 180000000 ≤ 2 * r.divider * clock.toNat) ↔ _
  rw [hle, hd]
  by_cases h0 : 90000000 / clock.toNat % 256 = 0
  · rw [if_pos h0]
    refine ⟨.inl, ?_⟩
    rintro (h | ⟨hdvd, hlt⟩)
    · exact h
    · have hquot := Nat.div_pos (Nat.le_of_dvd (by decide) hdvd) hpos
      omega
  · rw [if_neg h0]
    have hcut : 90000000 / clock.toNat % 256 * clock.toNat ≤
        90000000 / clock.toNat * clock.toNat := Nat.mul_le_mul_right _ (Nat.mod_le _ _)
    have hassoc : 2 * (90000000 / clock.toNat % 256) * clock.toNat =
        2 * (90000000 / clock.toNat % 256 * clock.toNat) := Nat.mul_assoc _ _ _
    rw [hassoc]
    constructor
    · intro h
      have heq : 90000000 / clock.toNat % 256 * clock.toNat = 90000000 := by omega
      have hquot : 90000000 / clock.toNat = 90000000 / clock.toNat % 256 :=
        Nat.div_eq_of_eq_mul_left hpos heq.symm
      exact .inr ⟨⟨_, heq.symm.trans (Nat.mul_comm _ _)⟩, by omega⟩
    · rintro (h | ⟨hdvd, hlt⟩)
      · have hquot : 90000000 / clock.toNat = 0 := Nat.div_eq_of_lt (by omega)
        omega
      · rw [Nat.mod_eq_of_lt hlt, Nat.div_mul_cancel hdvd]

theorem notFaster_iff (hfree : w.free = true) (hclock : clock ≠ 0) :
    NotFaster (setClock clock w r) clock ↔ Exact clock := by
  have hd := setClock_divider (r := r) hfree hclock
  unfold NotFaster Exact
  rw [atMost_iff hclock hd, hd, or_assoc]

end Divider

/-! ## Modes -/

section Modes

variable {c : ModeCall} {r : ClockRegs}

theorem freqs_ne_zero (m : BusMode) : freqs m ≠ 0 := by cases m <;> decide

/-- Of the modes only those of 200 MHz get a clock that is slow enough: the reference itself. -/
theorem freqs_exact_iff (m : BusMode) :
    referenceClock ≤ freqs m ∨
      ((freqs m).toNat ∣ 90000000 ∧ 90000000 / (freqs m).toNat < 256) ↔ freqs m = 200000000 := by
  cases m <;> decide

theorem tryModes_eq (c : ModeCall) (ms : List BusMode) (r : ClockRegs) :
    tryModes c ms r =
      match ms.find? fun m =>
        decide (freqs m ≤ c.freq) && decide (setCardSpeed c.type c.sent m = 0) with
      | none => (none, r)
      | some m =>
        (some m, if 100000000#32 ≤ c.freq ∧ c.sdh1 = true then tuning (setClock (freqs m) c.waits r)
          else setClock (freqs m) c.waits r) := by
  induction ms with
  | nil => rfl
  | cons m ms ih =>
    rw [tryModes, List.find?_cons]
    by_cases hfreq : freqs m ≤ c.freq
    · by_cases hspeed : setCardSpeed c.type c.sent m = 0
      · simp [hfreq, hspeed]
      · rw [if_pos hfreq, if_neg hspeed, ih]
        simp [hspeed]
    · rw [if_neg hfreq, ih]
      simp [hfreq]

theorem setMode_none (h : switched c = none) : setMode c r = (none, r) := by
  unfold setMode
  rw [tryModes_eq]
  unfold switched at h
  rw [h]

theorem setMode_some {m : BusMode} (h : switched c = some m) :
    (setMode c r).1 = some m ∧
      (setMode c r).2.clkCtrl = (setClock (freqs m) c.waits r).clkCtrl := by
  unfold setMode
  rw [tryModes_eq]
  unfold switched at h
  rw [h]
  refine ⟨rfl, ?_⟩
  dsimp only
  split <;> rfl

/-- The clock of the mode that the card is switched to. -/
theorem modeLaw_iff (c : ModeCall) (r : ClockRegs) : ModeLaw c r ↔ ModeKeepsClock c r := by
  unfold ModeLaw ModeKeepsClock
  cases hs : switched c with
  | none =>
    rw [setMode_none hs]
    exact iff_of_true (fun m hm => by cases hm) (fun m hm => by cases hm)
  | some m =>
    obtain ⟨hmode, hclk⟩ := setMode_some (r := r) hs
    have hrun : (setMode c r).2.Running ↔ (setClock (freqs m) c.waits r).Running := by
      unfold ClockRegs.Running
      rw [hclk]
    have hdiv : (setMode c r).2.divider = (setClock (freqs m) c.waits r).divider := by
      unfold ClockRegs.divider
      rw [hclk]
    have hat : (setMode c r).2.AtMost (freqs m) ↔
        (setClock (freqs m) c.waits r).AtMost (freqs m) := by
      unfold ClockRegs.AtMost
      rw [hdiv]
    simp only [hmode, Option.mem_def, Option.some.injEq, forall_eq']
    rw [hrun, hat]
    by_cases hfree : c.waits.free = true
    · rw [if_pos hfree, setClock_running hfree (freqs_ne_zero m),
        atMost_iff (freqs_ne_zero m) (setClock_divider hfree (freqs_ne_zero m)), freqs_exact_iff]
    · have hsame : setClock (freqs m) c.waits r = r := by
        unfold setClock
        rw [if_pos (by simpa using hfree)]
      rw [if_neg hfree, hsame]

end Modes

/-- The divider keeps the output down to the request exactly where the request divides half of
the reference with a quotient of eight bits, or is the reference or more; and the card does not
run too fast for its mode exactly where the mode is one of 200 MHz or the clock is not set. -/
theorem setClock_law_iff (clock : BitVec 32) (w : Waits) (r : ClockRegs) (c : ModeCall) :
    (clock ≠ 0 → w.free = true → (NotFaster (setClock clock w r) clock ↔ Exact clock)) ∧
      (ModeLaw c r ↔ ModeKeepsClock c r) :=
  ⟨fun hclock hfree => notFaster_iff hfree hclock, modeLaw_iff c r⟩

/-- A card in a high speed mode whose commands all succeed. -/
def highSpeed (freq : BitVec 32) : ModeCall := ⟨false, .sdHigh, freq, fun _ => 0, ⟨true, true⟩⟩

/-- 45 MHz is a quarter of the reference, and 200 MHz is above it. -/
theorem setClock_law_iff_exact :
    NotFaster (setClock 45000000 ⟨true, true⟩ ⟨0, 0⟩) 45000000 ∧
      ModeLaw (highSpeed 200000000) ⟨0, 0⟩ := by
  obtain ⟨hclock, hmode⟩ :=
    setClock_law_iff 45000000 ⟨true, true⟩ ⟨0, 0⟩ (highSpeed 200000000)
  refine ⟨(hclock (by decide) rfl).2 (.inr (.inl (by decide))), hmode.2 fun m hm => ?_⟩
  obtain rfl : .uhsSdr104 = m := Option.some.inj hm
  exact fun _ => rfl

/-- A request of 50 MHz gives 90 MHz, and so does a card in the mode of 50 MHz. -/
theorem not_setClock_law_fifty :
    ¬ NotFaster (setClock 50000000 ⟨true, true⟩ ⟨0, 0⟩) 50000000 ∧
      ¬ ModeLaw (highSpeed 50000000) ⟨0, 0⟩ := by
  refine ⟨by unfold NotFaster; decide, fun h => ?_⟩
  exact absurd (h .uhsSdr25 (by decide) (by decide)) (by decide)

end Ma35d1.Sdh.CardClock
