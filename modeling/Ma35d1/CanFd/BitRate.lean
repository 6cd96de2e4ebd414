import Mathlib.Data.BitVec
import Ma35d1.Machine.Fields

/-!
# The bit timing

`CANFD_SetBitRate` looks for a prescaler and a number of time quanta, and `CANFD_Update_Spt`
divides the quanta into two segments at the sample point.
-/

namespace Ma35d1.CanFd

open Machine

/-! ## The limits -/

/-- What differs between the nominal and the data bit rate -/
structure BtLimits where
  tseg1Min : Nat
  tseg1Max : Nat
  tseg2Min : Nat
  tseg2Max : Nat
  brpMin : Nat
  brpMax : Nat
  sjwMax : Nat
  brpInc : Nat

/-- `N_TSEG1_MIN` to `N_BRP_INC` -/
def nLimits : BtLimits := ⟨2, 256, 2, 128, 1, 512, 128, 1⟩

/-- `D_TSEG1_MIN` to `D_BRP_INC` -/
def dLimits : BtLimits := ⟨1, 32, 1, 16, 1, 32, 16, 1⟩

/-- `u32Set_NBTP` -/
def limits (setNbtp : Bool) : BtLimits := if setNbtp then nLimits else dLimits

/-! ## The sample point -/

/-- `*tseg1`, `*tseg2` and the returned sample point -/
structure Spt where
  tseg1 : Int
  tseg2 : Int
  spt : Int

/-- `CANFD_Update_Spt` -/
def updateSpt (l : BtLimits) (samplPt tseg : Int) : Spt :=
  let tseg2 := tseg + 1 - (samplPt * (tseg + 1)).tdiv 1000
  let tseg2 := if tseg2 < l.tseg2Min then (l.tseg2Min : Int) else tseg2
  let tseg2 := if (l.tseg2Max : Int) < tseg2 then (l.tseg2Max : Int) else tseg2
  let tseg1 := tseg - tseg2
  let tseg2 := if (l.tseg1Max : Int) < tseg1 then tseg - l.tseg1Max else tseg2
  let tseg1 := if (l.tseg1Max : Int) < tseg1 then (l.tseg1Max : Int) else tseg1
  ⟨tseg1, tseg2, (1000 * (tseg + 1 - tseg2)).tdiv (tseg + 1)⟩

/-- The recommended sample points -/
def samplPt (baud : Nat) : Nat := if 800000 < baud then 750 else if 500000 < baud then 800 else 875

/-! ## The search -/

structure BestTiming where
  bestError : Nat
  bestTseg : Nat
  bestBrp : Nat
  sptError : Nat

/-- Why the loop is left -/
inductive Leave where
  | divZero
  | done (s : BestTiming)

def divide (a b : Nat) : Except Leave Nat := if b = 0 then .error .divZero else .ok (a / b)

/-- The loop's body. The product of `tsegall` and the rate has 32 bits. -/
def tryTseg (l : BtLimits) (baud clock : Nat) (s : BestTiming) (tseg : Nat) :
    Except Leave BestTiming := do
  let tsegall := 1 + tseg / 2
  let quot ← divide clock (tsegall * baud % 0x100000000)
  let brp := (quot + tseg % 2) / l.brpInc * l.brpInc
  if brp < l.brpMin ∨ l.brpMax < brp then .ok s
  else
    let rate ← divide clock (brp * tsegall)
    let error := ((baud : Int) - rate).natAbs
    if s.bestError < error then .ok s
    else if error = 0 then
      let spt := (updateSpt l (samplPt baud) (tseg / 2 : Nat)).spt
      let error := ((samplPt baud : Int) - spt).natAbs
      -- the rate error is kept even where the sample point is refused
      if s.sptError < error then .ok { s with bestError := 0 }
      else if error = 0 then .error (.done ⟨0, tseg / 2, brp, 0⟩)
      else .ok ⟨0, tseg / 2, brp, error⟩
    else .ok ⟨error, tseg / 2, brp, s.sptError⟩

/-- The values of `tseg`, from the largest on -/
def tsegs (l : BtLimits) : List Nat :=
  (List.range' ((l.tseg1Min + l.tseg2Min) * 2)
    ((l.tseg1Max + l.tseg2Max) * 2 + 2 - (l.tseg1Min + l.tseg2Min) * 2)).reverse

def searchTiming (l : BtLimits) (baud clock : Nat) : Except Leave BestTiming :=
  (tsegs l).foldlM (tryTseg l baud clock) ⟨1000000000, 0, 0, 1000⟩

/-! ## The registers -/

structure BtRegs where
  nbtp : BitVec 32
  dbtp : BitVec 32
  tdcr : BitVec 32
  deriving DecidableEq

/-- `NBTP`, from the values less one -/
def nbtpWord (brp tseg1 tseg2 sjw : Int) : BitVec 32 :=
  (BitVec.ofInt 32 brp <<< 16) ||| (BitVec.ofInt 32 sjw <<< 25) |||
    (BitVec.ofInt 32 tseg1 <<< 8) ||| BitVec.ofInt 32 tseg2

/-- `DBTP`, from the values less one -/
def dbtpWord (brp tseg1 tseg2 sjw : Int) : BitVec 32 :=
  (BitVec.ofInt 32 brp <<< 16) ||| BitVec.ofInt 32 sjw |||
    (BitVec.ofInt 32 tseg1 <<< 8) ||| (BitVec.ofInt 32 tseg2 <<< 4)

/-- `CANFD_SetBitRate`: the real rate and the registers. `none` is a division by zero. -/
def setBitRate (setNbtp : Bool) (baud clock : Nat) (r : BtRegs) : Option (Nat × BtRegs) :=
  let l := limits setNbtp
  match searchTiming l baud clock with
  | .error .divZero => none
  | .error (.done s) | .ok s =>
    let spt := updateSpt l (samplPt baud) s.bestTseg
    let sjw : Int := if (l.sjwMax : Int) < 2 then (l.sjwMax : Int) else 2
    let sjw := (if spt.tseg2 < sjw then spt.tseg2 else sjw) - 1
    let bestBrp := (s.bestBrp : Int) - 1
    let tseg1 := spt.tseg1 - 1
    let tseg2 := spt.tseg2 - 1
    let quanta := (bestBrp + 1) * (tseg1 + tseg2 + 3)
    if quanta = 0 then none
    else
      let rate := clock / (quanta.toNat)
      if setNbtp then some (rate, { r with nbtp := nbtpWord bestBrp tseg1 tseg2 sjw })
      else
        let word := dbtpWord bestBrp tseg1 tseg2 sjw
        if 2500000 < rate then
          let tdco := clock / 1000 * samplPt baud / rate
          let tdco := if 127 < tdco then 127 else tdco
          some (rate, { r with
            dbtp := 0x800000#32 ||| word
            tdcr := BitVec.ofNat 32 tdco <<< 8 })
        else some (rate, { r with dbtp := word })

/-! ## What is promised -/

/-- A prescaler, two segments and the jump width -/
structure Timing where
  brp : Nat
  tseg1 : Nat
  tseg2 : Nat
  sjw : Nat

/-- The time quanta of a bit -/
def Timing.quanta (t : Timing) : Nat := 1 + t.tseg1 + t.tseg2

/-- What the controller reads from its register -/
def BtRegs.timing (r : BtRegs) (setNbtp : Bool) : Timing :=
  if setNbtp then
    ⟨field r.nbtp 16 9 + 1, field r.nbtp 8 8 + 1, field r.nbtp 0 7 + 1, field r.nbtp 25 7 + 1⟩
  else ⟨field r.dbtp 16 5 + 1, field r.dbtp 8 5 + 1, field r.dbtp 4 4 + 1, field r.dbtp 0 4 + 1⟩

/-- Within the limits of the controller -/
structure Timing.InLimits (l : BtLimits) (t : Timing) : Prop where
  brp : l.brpMin ≤ t.brp ∧ t.brp ≤ l.brpMax
  tseg1 : l.tseg1Min ≤ t.tseg1 ∧ t.tseg1 ≤ l.tseg1Max
  tseg2 : l.tseg2Min ≤ t.tseg2 ∧ t.tseg2 ≤ l.tseg2Max
  sjw : 1 ≤ t.sjw ∧ t.sjw ≤ l.sjwMax ∧ t.sjw ≤ t.tseg2

/-- The rate, in whole bits a second -/
def Timing.rate (t : Timing) (clock : Nat) : Nat := clock / (t.quanta * t.brp)

/-- How far a rate is from the request -/
def rateError (baud rate : Nat) : Nat := ((baud : Int) - rate).natAbs

/-- What is programmed is within the limits and has the returned rate, and no rate within the
limits is closer to the request. -/
structure BestRate (l : BtLimits) (baud clock rate : Nat) (t : Timing) : Prop where
  inLimits : t.InLimits l
  rate_eq : rate = t.rate clock
  best : ∀ t' : Timing, t'.InLimits l → rateError baud rate ≤ rateError baud (t'.rate clock)

/-- The slowest clock that no prescaler divides down to the rate -/
def clockLimit (l : BtLimits) (baud : Nat) : Nat :=
  (l.brpMax + 1) * (1 + l.tseg1Max + l.tseg2Max) * baud

end Ma35d1.CanFd
