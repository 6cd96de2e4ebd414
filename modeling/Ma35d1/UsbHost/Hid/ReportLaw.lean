import Ma35d1.UsbHost.Hid.Report

/-!
# What an input report says

A report of the list has its bits behind those of the INPUT reports before it with the same report
ID, and behind the ID itself. The law compares the stores of the walk with what these bits say, and
the condition for it looks at the layout alone.
-/

namespace Ma35d1.UsbHost.Hid

/-! ## The bits of a report -/

def bitAt (data : List (BitVec 8)) (p : Nat) : Bool := (data.getD (p / 8) 0).getLsbD (p % 8)

/-- The bits `f 0` to `f (k - 1)`, the lowest first -/
def packBits (w : Nat) (f : Nat → Bool) : Nat → BitVec w
  | 0 => 0
  | k + 1 => packBits w f k ||| if f k then 1#w <<< k else 0

/-- The report is looked at: it is an INPUT of this report ID. -/
def lookedAt (hasReportId : Bool) (id : BitVec 8) (r : RpInfo) : Bool :=
  !(hasReportId && r.reportId != id) && r.type == .input

/-- `bit_idx` behind the report ID -/
def Rpd.base (rpd : Rpd) : Nat := if rpd.hasReportId then 8 else 0

def Rpd.looked (rpd : Rpd) (id : BitVec 8) : List RpInfo :=
  rpd.report.filter (lookedAt rpd.hasReportId id)

/-- What a report of a mouse at the bit `t` says -/
def mouseField (data : List (BitVec 8)) (t : Nat) (r : RpInfo) : Option MouseStore :=
  if r.isButton then
    if r.status.variable_ ∧ t + (r.count - 1) * r.size < 8 * data.length then
      some (.buttons r.reportCount (packBits 32 (fun i => bitAt data (t + i * r.size)) r.count))
    else none
  else if r.isAxis then
    if t < 8 * data.length ∧ t + r.size ≤ 8 * data.length then
      axisStore r ((packBits 32 (fun i => bitAt data (t + i)) r.size).setWidth r.size).toInt
    else none
  else none

/-- Single bit `i` of a report at the bit `t`: the byte it is in, with the bits of the report there
so far -/
def keyBitAt (data : List (BitVec 8)) (base t i : Nat) : Option KeyStore :=
  if t + i < 8 * data.length then
    bitStore (t - base + i) (packBits 8 (fun k =>
      decide (t - base ≤ (t - base + i) / 8 * 8 + k ∧ (t - base + i) / 8 * 8 + k ≤ t - base + i) &&
        bitAt data (base + ((t - base + i) / 8 * 8 + k))) 8)
  else none

/-- Byte `i` of a report at the bit `t` -/
def keyByteAt (data : List (BitVec 8)) (base t i : Nat) : Option KeyStore :=
  if t + 8 * i < 8 * data.length then
    byteStore ((t - base) / 8 + i) (packBits 8 (fun k => bitAt data (t + 8 * i + k)) 8)
  else none

/-- What a report of a keyboard at the bit `t` says: behind the report ID a byte of modifiers, a
reserved one and six key codes follow one another. -/
def keyFields (data : List (BitVec 8)) (base t : Nat) (r : RpInfo) : List (Option KeyStore) :=
  if r.isKey then
    if r.size = 1 then (List.range r.count).map (keyBitAt data base t)
    else (List.range r.count).map (keyByteAt data base t)
  else []

/-! ## The law -/

section Law

variable {σ : Type}

/-- What each report says, from the bit `t` on -/
def expectedFrom (field : Nat → RpInfo → σ) : Nat → List RpInfo → List (RpInfo × σ)
  | _, [] => []
  | t, r :: rs => (r, field t r) :: expectedFrom field (t + r.size * r.count) rs

/-- The stores are those expected, and the reports that were not reached say nothing. -/
def SameStores (silent : σ → Prop) : List (RpInfo × σ) → List (RpInfo × σ) → Prop
  | [], ys => ∀ y ∈ ys, silent y.2
  | _ :: _, [] => False
  | x :: xs, y :: ys => x = y ∧ SameStores silent xs ys

end Law

/-- What the reports of a mouse say -/
def mouseExpected (rpd : Rpd) (data : List (BitVec 8)) : List (RpInfo × Option MouseStore) :=
  expectedFrom (mouseField data) rpd.base (rpd.looked (data.getD 0 0))

/-- What the reports of a keyboard say -/
def keyExpected (rpd : Rpd) (data : List (BitVec 8)) : List (RpInfo × List (Option KeyStore)) :=
  expectedFrom (keyFields data rpd.base) rpd.base (rpd.looked (data.getD 0 0))

/-- Nothing is stored. -/
def NoStore (l : List (Option KeyStore)) : Prop := ∀ x ∈ l, x = none

inductive HidDecoder
  | mouse | keyboard
  deriving DecidableEq, Repr

/-- A buffer is decoded as it should be: nothing behind it is read, and if a field is reported, then
all are what their bits say. -/
def Decoded : HidDecoder → Rpd → List (BitVec 8) → Prop
  | .mouse, rpd, data => ∃ o, walkReports (mouseEntry data) rpd data = .ok o ∧
    ∀ stores, o = some stores → SameStores (· = none) stores (mouseExpected rpd data)
  | .keyboard, rpd, data => ∃ o, walkReports (keyboardEntry data) rpd data = .ok o ∧
    ∀ stores, o = some stores → SameStores NoStore stores (keyExpected rpd data)

/-- A buffer of this length, with this report ID if there are any -/
def Received (hasReportId : Bool) (n : Nat) (id : BitVec 8) (data : List (BitVec 8)) : Prop :=
  data.length = n ∧ (hasReportId = true → 0 < n → data.getD 0 0 = id)

/-! ## The condition -/

/-- By how much a report of a mouse moves `bit_idx` -/
def mouseMove (r : RpInfo) : Nat := if r.isButton then r.count * r.size else r.size

/-- An axis that the event has a field for -/
def RpInfo.isReported (r : RpInfo) : Bool :=
  r.dataUsage == usageIdX || r.dataUsage == usageIdY || r.dataUsage == usageIdWheel

/-- What is read of a report at `bit_idx` lies within `n` bytes and within an `int`. -/
def MouseReads (n bitIdx : Nat) (r : RpInfo) : Prop :=
  if r.isButton then
    r.status.variable_ = true → bitIdx + (r.count - 1) * r.size < 8 * n ∧ r.count ≤ 32
  else r.isAxis = true → (r.size = 0 ∨ bitIdx + r.size ≤ 8 * n) ∧ r.size ≤ 32

/-- The report at the bit `t` is read there, and an axis has a size that the casts know. -/
def MouseFits (n bitIdx t : Nat) (r : RpInfo) : Prop :=
  if r.isButton then r.status.variable_ = true → bitIdx = t
  else r.isAxis = true → r.isReported = true →
    t < 8 * n ∧ (r.size = 0 ∨ bitIdx = t ∧ (r.size = 8 ∨ r.size = 16 ∨ r.size = 32))

/-- All reports up to the end of the buffer, with `bit_idx` and the bit they begin at -/
def MouseLayout (n : Nat) : Nat → Nat → List RpInfo → Prop
  | _, _, [] => True
  | bitIdx, t, r :: rs => MouseReads n bitIdx r ∧ MouseFits n bitIdx t r ∧
    (n ≤ (bitIdx + mouseMove r) / 8 ∨
      MouseLayout n (bitIdx + mouseMove r) (t + r.size * r.count) rs)

/-- The bytes behind the report ID that the event has a field for -/
def KeyPlace (byteIdx : Nat) : Prop := byteIdx = 0 ∨ 2 ≤ byteIdx ∧ byteIdx < 8

instance (byteIdx : Nat) : Decidable (KeyPlace byteIdx) := inferInstanceAs (Decidable (_ ∨ _ ∧ _))

def keyUnsupported (r : RpInfo) : Bool := r.isKey && r.size != 1 && r.size != 8

/-- How a report of a keyboard moves the cursor -/
def keyMove (c : Cursor) (r : RpInfo) : Cursor :=
  if r.isKey then
    if r.size = 1 then c.skip r.count else { c with byteIdx := c.byteIdx + r.count }
  else c.skip (r.size * r.count)

/-- What is read of a report lies within `n` bytes and within an `int`. -/
def KeyReads (n : Nat) (c : Cursor) (r : RpInfo) : Prop :=
  if r.size = 1 then c.byteIdx < n ∧ r.count ≤ 32
  else ∀ i < r.count, KeyPlace (c.byteIdx + i) → c.byteIdx + i < n

/-- No single bit of a report at the bit `t` has a field, or they begin a byte where both indices
stand and have fields in this byte only. -/
def KeyBitsFit (n base : Nat) (c : Cursor) (t : Nat) (r : RpInfo) : Prop :=
  (∀ i < r.count, ¬ KeyPlace ((c.bitIdx + i) / 8) ∧
      (t + i < 8 * n → ¬ KeyPlace ((t - base + i) / 8))) ∨
    c.bitIdx = t - base ∧ t = 8 * c.byteIdx ∧
      ∀ i < r.count, 8 ≤ i → ¬ KeyPlace ((c.bitIdx + i) / 8)

/-- No byte of a report at the bit `t` has a field, or there is no report ID and `byte_idx` stands
where they begin. -/
def KeyBytesFit (n base : Nat) (c : Cursor) (t : Nat) (r : RpInfo) : Prop :=
  (∀ i < r.count, ¬ KeyPlace (c.byteIdx + i) ∧
      (t + 8 * i < 8 * n → ¬ KeyPlace ((t - base) / 8 + i))) ∨
    base = 0 ∧ t = 8 * c.byteIdx

def KeyFits (n base : Nat) (c : Cursor) (t : Nat) (r : RpInfo) : Prop :=
  if r.size = 1 then KeyBitsFit n base c t r else KeyBytesFit n base c t r

/-- All reads up to the end of the buffer, or up to a report that is not supported -/
def KeyWithin (n : Nat) : Cursor → List RpInfo → Prop
  | _, [] => True
  | c, r :: rs => keyUnsupported r = true ∨ (r.isKey = true → KeyReads n c r) ∧
    (n ≤ (keyMove c r).byteIdx ∨ KeyWithin n (keyMove c r) rs)

/-- A report that is not supported is reached. -/
def KeyRefused (n : Nat) : Cursor → List RpInfo → Prop
  | _, [] => False
  | c, r :: rs => keyUnsupported r = true ∨
    ¬ n ≤ (keyMove c r).byteIdx ∧ KeyRefused n (keyMove c r) rs

def KeyInStep (n base : Nat) : Cursor → Nat → List RpInfo → Prop
  | _, _, [] => True
  | c, t, r :: rs => (r.isKey = true → KeyFits n base c t r) ∧
    (n ≤ (keyMove c r).byteIdx ∨ KeyInStep n base (keyMove c r) (t + r.size * r.count) rs)

/-- The condition on the layout of the reports with an ID, and on the length of the buffer -/
def Layout : HidDecoder → Rpd → Nat → BitVec 8 → Prop
  | .mouse, rpd, n, id => (rpd.hasReportId = true → 0 < n) ∧
    MouseLayout n rpd.base rpd.base (rpd.looked id)
  | .keyboard, rpd, n, id => (rpd.hasReportId = true → 0 < n) ∧
    KeyWithin n ⟨rpd.base / 8, rpd.base⟩ (rpd.looked id) ∧
      (KeyRefused n ⟨rpd.base / 8, rpd.base⟩ (rpd.looked id) ∨
        KeyInStep n rpd.base ⟨rpd.base / 8, rpd.base⟩ rpd.base (rpd.looked id))

end Ma35d1.UsbHost.Hid
