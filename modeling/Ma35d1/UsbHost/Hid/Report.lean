import Ma35d1.UsbHost.Hid.Parser

/-!
# Input reports

`hid_parse_mouse_reports` and `hid_parse_keyboard_reports` walk the parsed report list and take the
fields of an event out of a received buffer. The walk says for each report of the list what it
stores into the event; a read behind the received bytes stops it, as does a shift by the width of
an `int` or more.
-/

namespace Ma35d1.UsbHost.Hid

def upGenericDesktop : BitVec 8 := 0x01#8
def upKeycode : BitVec 8 := 0x07#8
def upButton : BitVec 8 := 0x09#8
def usageIdPointer : BitVec 8 := 0x01#8
def usageIdMouse : BitVec 8 := 0x02#8
def usageIdKeyboard : BitVec 8 := 0x06#8

/-- What is left of a report descriptor; a report has one field at least. -/
structure Rpd where
  hasReportId : Bool
  report : List RpInfo
  counted : ∀ r ∈ report, 0 < r.reportCount.toNat

/-- `report_size` and `report_count` -/
def RpInfo.size (r : RpInfo) : Nat := r.reportSize.toNat
def RpInfo.count (r : RpInfo) : Nat := r.reportCount.toNat

/-- What goes wrong in a walk -/
inductive Stray
  | data
  | shift
  deriving DecidableEq, Repr

/-- `byte_idx` and `bit_idx` -/
structure Cursor where
  byteIdx : Nat
  bitIdx : Nat
  deriving DecidableEq, Repr

/-- `bit_idx += n; byte_idx = (bit_idx / 8);` -/
def Cursor.skip (c : Cursor) (n : Nat) : Cursor := ⟨(c.bitIdx + n) / 8, c.bitIdx + n⟩

/-- `((data[byte_idx] >> (bit_idx % 8)) & 0x1) << i` -/
def shiftedBit (data : List (BitVec 8)) (byteIdx bitIdx i : Nat) : Except Stray (BitVec 32) :=
  if byteIdx < data.length then
    if i < 32 then
      .ok (if (data.getD byteIdx 0).getLsbD (bitIdx % 8) then 1#32 <<< i else 0)
    else .error .shift
  else .error .data

/-! ## The walk -/

section Walk

variable {σ : Type} (entry : RpInfo → Cursor → Except Stray (Option (σ × Cursor)))

/-- The loop over the report list from a cursor on: the reports that are looked at with their
stores, or `none` if the function returns `USBH_ERR_NOT_SUPPORTED`. -/
def reportLoop (hasReportId : Bool) (id : BitVec 8) (dataLen : Nat) :
    List RpInfo → Cursor → Except Stray (Option (List (RpInfo × σ)))
  | [], _ => .ok (some [])
  | r :: rs, c =>
    if hasReportId ∧ r.reportId ≠ id then reportLoop hasReportId id dataLen rs c
    else if r.type ≠ .input then reportLoop hasReportId id dataLen rs c
    else match entry r c with
      | .error e => .error e
      | .ok none => .ok none
      | .ok (some (x, c)) =>
        if dataLen ≤ c.byteIdx then .ok (some [(r, x)])
        else (reportLoop hasReportId id dataLen rs c).map (Option.map ((r, x) :: ·))

/-- `if (hdev->rpd.has_report_id && (byte_idx == 0))`, and the loop -/
def walkReports (rpd : Rpd) (data : List (BitVec 8)) :
    Except Stray (Option (List (RpInfo × σ))) :=
  if rpd.hasReportId then
    if 0 < data.length then
      reportLoop entry true (data.getD 0 0) data.length rpd.report ⟨1, 8⟩
    else .error .data
  else reportLoop entry false 0 data.length rpd.report ⟨0, 0⟩

end Walk

/-! ## Mouse -/

/-- What a report stores into the event of a mouse -/
inductive MouseStore
  | buttons (cnt : BitVec 8) (map : BitVec 32)
  | x (value : Int) (relative : Bool) (min max : Int)
  | y (value : Int)
  | wheel (value : Int) (relative : Bool) (min max : Int)
  deriving DecidableEq, Repr

def RpInfo.isPointing (r : RpInfo) : Bool :=
  r.appUsage == usageIdMouse || r.appUsage == usageIdPointer

def RpInfo.isButton (r : RpInfo) : Bool := r.usagePage == upButton && r.isPointing

def RpInfo.isAxis (r : RpInfo) : Bool :=
  r.usagePage == upGenericDesktop && (r.isPointing || r.dataUsage == usageIdWheel)

/-- The loops over bits: bit `i` of the value is read `size` bits behind the one before it. -/
def bitLoop (data : List (BitVec 8)) (size : Nat) :
    Nat → Nat → Cursor → BitVec 32 → Except Stray (BitVec 32 × Cursor)
  | 0, _, c, v => .ok (v, c)
  | k + 1, i, c, v =>
    match shiftedBit data c.byteIdx c.bitIdx i with
    | .error e => .error e
    | .ok bit => bitLoop data size k (i + 1) (c.skip size) (v ||| bit)

/-- `(signed char)usage_val`, `(signed short)usage_val` or the value itself -/
def castUsage (size : Nat) (v : BitVec 32) : Int :=
  if size ≤ 8 then (v.setWidth 8).toInt
  else if size ≤ 16 then (v.setWidth 16).toInt
  else v.toInt

def axisStore (r : RpInfo) (value : Int) : Option MouseStore :=
  if r.dataUsage = usageIdX then
    some (.x value r.status.relative r.logicalMin r.logicalMax)
  else if r.dataUsage = usageIdY then some (.y value)
  else if r.dataUsage = usageIdWheel then
    some (.wheel value r.status.relative r.logicalMin r.logicalMax)
  else none

/-- One report of the list -/
def mouseEntry (data : List (BitVec 8)) (r : RpInfo) (c : Cursor) :
    Except Stray (Option (Option MouseStore × Cursor)) :=
  if r.isButton then
    if r.status.variable_ then
      (bitLoop data r.size r.count 0 c 0).map fun p => some (some (.buttons r.reportCount p.1), p.2)
    else .ok (some (none, c.skip (r.count * r.size)))
  else if r.isAxis then
    (bitLoop data 1 r.size 0 c 0).map fun p => some (axisStore r (castUsage r.size p.1), p.2)
  else .ok (some (none, c.skip r.size))

/-! ## Keyboard -/

/-- What a field of a report stores into the event of a keyboard -/
inductive KeyStore
  | orModifier (v : BitVec 8)
  | modifier (v : BitVec 8)
  | orKeycode (i : Nat) (v : BitVec 8)
  | keycode (i : Nat) (v : BitVec 8)
  deriving DecidableEq, Repr

def RpInfo.isKey (r : RpInfo) : Bool := r.usagePage == upKeycode && r.appUsage == usageIdKeyboard

/-- Where `usage_val` goes by `bit_idx`: the first byte, the second byte (reserved), or a key code -/
def bitStore (bitIdx : Nat) (v : BitVec 8) : Option KeyStore :=
  if bitIdx < 8 then some (.orModifier v)
  else if bitIdx < 16 then none
  else if bitIdx < 8 * 8 then some (.orKeycode ((bitIdx - 16) / 8) v)
  else none

/-- Where `data[byte_idx]` goes -/
def byteStore (byteIdx : Nat) (v : BitVec 8) : Option KeyStore :=
  if byteIdx = 0 then some (.modifier v)
  else if byteIdx = 1 then none
  else if byteIdx < 8 then some (.keycode (byteIdx - 2) v)
  else none

/-- The loop of a report of single bits: `byte_idx` stands still. -/
def keyBits (data : List (BitVec 8)) (byteIdx : Nat) :
    Nat → Nat → Nat → BitVec 32 → Except Stray (List (Option KeyStore))
  | 0, _, _, _ => .ok []
  | k + 1, i, bitIdx, v =>
    match shiftedBit data byteIdx bitIdx i with
    | .error e => .error e
    | .ok bit => (keyBits data byteIdx k (i + 1) (bitIdx + 1) (v ||| bit)).map
        (bitStore bitIdx ((v ||| bit).setWidth 8) :: ·)

/-- `byte_idx` of a byte that is not stored is not read. -/
def keyByte (data : List (BitVec 8)) (byteIdx : Nat) : Except Stray (Option KeyStore) :=
  if byteIdx = 1 ∨ 8 ≤ byteIdx then .ok none
  else if byteIdx < data.length then .ok (byteStore byteIdx (data.getD byteIdx 0))
  else .error .data

/-- The loop of a report of bytes: `bit_idx` stands still. -/
def keyBytes (data : List (BitVec 8)) : Nat → Nat → Except Stray (List (Option KeyStore))
  | 0, _ => .ok []
  | k + 1, byteIdx =>
    match keyByte data byteIdx with
    | .error e => .error e
    | .ok x => (keyBytes data k (byteIdx + 1)).map (x :: ·)

/-- One report of the list -/
def keyboardEntry (data : List (BitVec 8)) (r : RpInfo) (c : Cursor) :
    Except Stray (Option (List (Option KeyStore) × Cursor)) :=
  if r.isKey then
    if r.size ≠ 1 ∧ r.size ≠ 8 then .ok none
    else if r.size = 1 then
      (keyBits data c.byteIdx r.count 0 c.bitIdx 0).map fun l => some (l, c.skip r.count)
    else (keyBytes data r.count c.byteIdx).map fun l => some (l, { c with byteIdx := c.byteIdx + r.count })
  else .ok (some ([], c.skip (r.size * r.count)))

end Ma35d1.UsbHost.Hid
