import Ma35d1.UsbHost.Core.Descriptor

/-!
# HID report descriptors

`hid_parse_report_descriptor` looks for the HID descriptor of an interface in the
configuration, asks the device for the report descriptor and hands its items to
`hid_parse_item`. A read behind what may be read stops the run, as do a store behind
`_data_usages` and a null buffer.
-/

namespace Ma35d1.UsbHost.Hid

open Ma35d1.UsbHost.Core

def hidRetIoErr : Int := -1082
def hidRetInvalidParameter : Int := -1083
def hidRetParsing : Int := -1087

def hidDescriptorType : BitVec 8 := 0x21#8
def reportDescriptorType : BitVec 8 := 0x22#8
def hidSubclassBootDevice : BitVec 8 := 0x01#8
def hidProtocolKeyboard : BitVec 8 := 0x01#8
def usbClassHid : BitVec 8 := 0x03#8
def upLeds : BitVec 8 := 0x08#8
def usageIdX : BitVec 8 := 0x30#8
def usageIdY : BitVec 8 := 0x31#8
def usageIdWheel : BitVec 8 := 0x38#8

/-- `sizeof(DESC_IF_T)`, and `sizeof(DESC_HID_T)` too -/
def sizeofDesc : Nat := 9

/-- the entries of `_data_usages` -/
def maxDataUsages : Nat := 16

/-! ## Items -/

/-- `bTag` -/
def bTag (b : Buf) (p : Nat) : Nat := (b p).toNat / 16

/-- `bSize`, once the long items have theirs -/
def bSize (b : Buf) (p : Nat) : Nat :=
  if bTag b p = 15 then (b (p + 1)).toNat
  else if (b p).toNat % 4 = 3 then 4
  else (b p).toNat % 4

/-- `item_len` -/
def itemLen (b : Buf) (p : Nat) : Nat := if bTag b p = 15 then bSize b p + 3 else bSize b p + 1

inductive ItemTag
  | input | output | feature | collection | endCollection
  | usagePage | logicalMin | logicalMax | physicalMin | physicalMax | unitExponent | unit
  | reportSize | reportId | reportCount | push | pop
  | usage | usageMin | usageMax | designatorIndex | designatorMin | designatorMax
  | stringIndex | stringMin | stringMax | delimiter
  | unknown
  deriving DecidableEq, Repr

/-- The `TAG_` constants -/
def tagOf (tag : BitVec 8) : ItemTag :=
  match tag.toNat with
  | 0x80 => .input
  | 0x90 => .output
  | 0xB0 => .feature
  | 0xA0 => .collection
  | 0xC0 => .endCollection
  | 0x04 => .usagePage
  | 0x14 => .logicalMin
  | 0x24 => .logicalMax
  | 0x34 => .physicalMin
  | 0x44 => .physicalMax
  | 0x54 => .unitExponent
  | 0x64 => .unit
  | 0x74 => .reportSize
  | 0x84 => .reportId
  | 0x94 => .reportCount
  | 0xA4 => .push
  | 0xB4 => .pop
  | 0x08 => .usage
  | 0x18 => .usageMin
  | 0x28 => .usageMax
  | 0x38 => .designatorIndex
  | 0x48 => .designatorMin
  | 0x58 => .designatorMax
  | 0x78 => .stringIndex
  | 0x88 => .stringMin
  | 0x98 => .stringMax
  | 0xA8 => .delimiter
  | _ => .unknown

/-- `tag = buff[0] & 0xFC` -/
def itemTag (b : Buf) (p : Nat) : ItemTag := tagOf (b p &&& 0xFC#8)

def hidReadItemValue (bSize : Nat) (b : Buf) (p : Nat) : Int :=
  if bSize = 1 then (b p).toInt
  else if bSize = 2 then (b (p + 1) ++ b p).toInt
  else if bSize = 4 then (b (p + 3) ++ b (p + 2) ++ b (p + 1) ++ b p).toInt
  else 0

/-- How many bytes from `buff` on the case of a tag reads: a main item reads its status from
two bytes whatever its length. -/
def ItemTag.reads : ItemTag → Nat
  | .input | .output | .feature => 3
  | .collection | .usagePage | .reportSize | .reportId | .reportCount | .usage => 2
  | _ => 0

/-- How many bytes from `buff` on are read. The dump of the item reads all of it, and the
values of the other tags lie within. -/
def itemReads (b : Buf) (p : Nat) : Nat := max (itemLen b p) (itemTag b p).reads

/-! ## Reports -/

/-- `status` of a report -/
structure MainStatus where
  constant : Bool
  variable_ : Bool
  relative : Bool
  wrap : Bool
  nonLinear : Bool
  noPreferred : Bool
  nullState : Bool
  isVolatile : Bool
  bufferedBytes : Bool
  deriving DecidableEq, Repr

/-- An `RP_INFO_T`; the order of `next` is that of a list. -/
structure RpInfo where
  type : ItemTag
  usagePage : BitVec 8
  appUsage : BitVec 8
  dataUsage : BitVec 8
  usageMin : Int
  usageMax : Int
  logicalMin : Int
  logicalMax : Int
  physicalMin : Int
  physicalMax : Int
  unitExponent : Int
  unit : Int
  designatorIndex : Int
  designatorMin : Int
  designatorMax : Int
  stringIndex : Int
  stringMin : Int
  stringMax : Int
  reportId : BitVec 8
  reportSize : BitVec 8
  reportCount : BitVec 8
  status : MainStatus
  deriving DecidableEq, Repr

def MainStatus.zero : MainStatus := ⟨false, false, false, false, false, false, false, false, false⟩

/-- `memset(&_rp_info, 0, sizeof(_rp_info))`; no tag is zero. -/
def RpInfo.zero : RpInfo :=
  ⟨.unknown, 0, 0, 0, 0, 0, 0, 0, 0, 0, 0, 0, 0, 0, 0, 0, 0, 0, 0, 0, 0, .zero⟩

/-- `_rp_info`, the entries of `_data_usages` below `_data_usage_cnt`, and `hdev->rpd`. -/
structure Parser where
  info : RpInfo
  dataUsages : List (BitVec 8)
  hasReportId : Bool
  report : List RpInfo
  deriving DecidableEq, Repr

def Parser.setInfo (s : Parser) (i : RpInfo) : Parser := { s with info := i }

def readMainItemStatus (b : Buf) (p : Nat) (s : MainStatus) : MainStatus :=
  let s := if (b p).getLsbD 0 then { s with constant := true, variable_ := false } else s
  let s := if (b p).getLsbD 1 then { s with constant := false, variable_ := true } else s
  let s := if (b p).getLsbD 2 then { s with relative := true } else s
  let s := if (b p).getLsbD 3 then { s with wrap := true } else s
  let s := if (b p).getLsbD 4 then { s with nonLinear := true } else s
  let s := if (b p).getLsbD 5 then { s with noPreferred := true } else s
  let s := if (b p).getLsbD 6 then { s with nullState := true } else s
  let s := if (b p).getLsbD 7 then { s with isVolatile := true } else s
  if (b (p + 1)).getLsbD 0 then { s with bufferedBytes := true } else s

/-- `read_main_item_status(&buff[1])` on `_rp_info` -/
def Parser.readStatus (s : Parser) (b : Buf) (p : Nat) : Parser :=
  s.setInfo { s.info with status := readMainItemStatus b (p + 1) s.info.status }

/-! ## `hid_parse_item` -/

/-- Why a run goes wrong. -/
inductive Fault
  /-- a byte at or behind `wTotalLength` is read -/
  | config
  /-- a byte behind the received report descriptor is read -/
  | report
  /-- a store behind the entries of `_data_usages` -/
  | dataUsages
  /-- the report descriptor is received at the null pointer -/
  | nullBuff
  /-- the rounds given to the loops are used up -/
  | rounds
  deriving DecidableEq, Repr

variable (mem : Nat → Bool)

/-- `hid_add_report`, where `mem k` says whether the report at place `k` of the list gets its
memory; `.error` is `USBH_ERR_MEMORY_OUT`. -/
def hidAddReport (type : ItemTag) (s : Parser) : Except Parser Parser :=
  if mem s.report.length then .ok { s with report := s.report ++ [{ s.info with type := type }] }
  else .error s

/-- A report of one field for each usage. -/
def addUsages : List (BitVec 8) → Parser → Except Parser Parser
  | [], s => .ok s
  | u :: us, s =>
    match hidAddReport mem .input (s.setInfo { s.info with reportCount := 1, dataUsage := u }) with
    | .ok s => addUsages us s
    | .error s => .error s

/-- Behind the loop over the usages of an item that began with `cnt` fields and `n` usages. -/
def endUsages (cnt : BitVec 8) (n : Nat) (s : Parser) : Parser :=
  { s with
    info := { s.info with reportCount := cnt - BitVec.ofNat 8 n, dataUsage := 0 }
    dataUsages := [] }

/-- `if (_data_usage_cnt > 0)` -/
def splitUsages (s : Parser) : Except Parser Parser :=
  if s.dataUsages = [] then .ok s
  else (addUsages mem s.dataUsages s).map (endUsages s.info.reportCount s.dataUsages.length)

/-- `if (_rp_info.report_count > 0)` -/
def addRest (type : ItemTag) (s : Parser) : Except Parser Parser :=
  if 0 < s.info.reportCount then hidAddReport mem type s else .ok s

def parseInput (s : Parser) : Except Parser Parser :=
  match splitUsages mem s with
  | .ok s => addRest mem .input s
  | .error s => .error s

/-- What `hid_parse_item` returns, with the item's length if all reports have memory. -/
def itemRet (len : Nat) : Except Parser Parser → Int × Parser
  | .ok s => (len, s)
  | .error s => (usbhErrMemoryOut, s)

/-- An interested usage. -/
def isDataUsage (u : BitVec 8) : Bool := u == usageIdX || u == usageIdY || u == usageIdWheel

/-- The items that set a field of `_rp_info`, or nothing. -/
def RpInfo.setField (i : RpInfo) (b : Buf) (p : Nat) : RpInfo :=
  let v := hidReadItemValue (bSize b p) b (p + 1)
  match itemTag b p with
  | .usagePage => { i with usagePage := b (p + 1) }
  | .logicalMin => { i with logicalMin := v }
  | .logicalMax => { i with logicalMax := v }
  | .physicalMin => { i with physicalMin := v }
  | .physicalMax => { i with physicalMax := v }
  | .unitExponent => { i with unitExponent := v }
  | .unit => { i with unit := v }
  | .reportSize => { i with reportSize := b (p + 1) }
  | .reportId => { i with reportId := b (p + 1) }
  | .reportCount => { i with reportCount := b (p + 1) }
  | .usage => { i with appUsage := b (p + 1) }
  | .usageMin => { i with usageMin := v }
  | .usageMax => { i with usageMax := v }
  | .designatorIndex => { i with designatorIndex := v }
  | .designatorMin => { i with designatorMin := v }
  | .designatorMax => { i with designatorMax := v }
  | .stringIndex => { i with stringIndex := v }
  | .stringMin => { i with stringMin := v }
  | .stringMax => { i with stringMax := v }
  | .input | .output | .feature | .collection | .endCollection | .push | .pop | .delimiter
  | .unknown => i

def hidParseItem (b : Buf) (p : Nat) (s : Parser) : Except Fault (Int × Parser) :=
  let len := itemLen b p
  match itemTag b p with
  | .input => .ok (itemRet len (parseInput mem (s.readStatus b p)))
  | .output => .ok (itemRet len (addRest mem .output (s.readStatus b p)))
  | .feature => .ok (len, s.readStatus b p)
  | .usage =>
    if isDataUsage (b (p + 1)) then
      if s.dataUsages.length < maxDataUsages then
        .ok (len, { s with dataUsages := s.dataUsages ++ [b (p + 1)] })
      else .error .dataUsages
    else .ok (len, s.setInfo (s.info.setField b p))
  | .reportId => .ok (len, { s with info := s.info.setField b p, hasReportId := true })
  | _ => .ok (len, s.setInfo (s.info.setField b p))

/-! ## `hid_parse_report_descriptor` -/

/-- A byte of the configuration is read. -/
def rd (b : Buf) (w p : Nat) : Except Fault (BitVec 8) := if p < w then .ok (b p) else .error .config

/-- How a search for a descriptor ends. -/
inductive Search
  | found (p : Nat) (size : Int)
  /-- the function returns -/
  | ret (r : Int)
  deriving DecidableEq, Repr

/-- `while (size >= sizeof(..))` and the test behind it, for at most `n` rounds. The comparison
is unsigned, so a negative `size` enters the loop. A descriptor is skipped by the length of
the one at `stride`, and its own zero length returns `zero`. -/
def seek (b : Buf) (w : Nat) (hit : Nat → Except Fault Bool) (zero : Int) (stride : Nat → Nat) :
    Nat → Nat → Int → Except Fault Search
  | 0, _, _ => .error .rounds
  | n + 1, p, size =>
    if 0 ≤ size ∧ size < sizeofDesc then .ok (.ret hidRetParsing)
    else do
      if ← hit p then .ok (.found p size)
      else do
        if (← rd b w p) = 0 then .ok (.ret zero)
        else do
          let d ← rd b w (stride p)
          seek b w hit zero stride n (p + d.toNat) (size - d.toNat)

/-- The interface descriptor of the interface. -/
def isHidIface (b : Buf) (w : Nat) (ifNum : BitVec 8) (p : Nat) : Except Fault Bool := do
  if (← rd b w (p + 1)) = usbDtInterface then do
    if (← rd b w (p + 2)) = ifNum then return (← rd b w (p + 5)) = usbClassHid
    else return false
  else return false

def isHidDesc (b : Buf) (w p : Nat) : Except Fault Bool := do
  if (← rd b w (p + 1)) = hidDescriptorType then return (← rd b w (p + 6)) = reportDescriptorType
  else return false

def seekIface (b : Buf) (w : Nat) (ifNum : BitVec 8) : Nat → Nat → Int → Except Fault Search :=
  seek b w (isHidIface b w ifNum) (-1) id

/-- The second search skips by `ifd->bLength`. -/
def seekHid (b : Buf) (w ifd : Nat) : Nat → Nat → Int → Except Fault Search :=
  seek b w (isHidDesc b w) hidRetParsing fun _ => ifd

/-- `usbh_hid_get_report_descriptor`, where `reply` is what the device sends, or `none` if the
transfer fails. -/
def usbhHidGetReportDescriptor (bufMaxLen : Nat) (reply : Option (List (BitVec 8))) :
    Except Int (List (BitVec 8)) :=
  if bufMaxLen < 9 then .error hidRetInvalidParameter
  else
    match reply with
    | none | some [] => .error hidRetIoErr
    | some bytes => .ok bytes

/-- `while (remain_len > 0)`, for at most `n` rounds -/
def parseItems (b : Buf) : Nat → Nat → Int → Parser → Except Fault (Int × Parser)
  | 0, _, _, _ => .error .rounds
  | n + 1, p, remain, s =>
    if remain ≤ 0 then .ok (0, s)
    else if remain < itemReads b p then .error .report
    else do
      let (size, s) ← hidParseItem mem b p s
      if size ≤ 0 then .ok (hidRetParsing, s)
      else parseItems b n (p + size.toNat) (remain - size) s

/-- What the device and the memory answer. -/
structure Env where
  /-- `desc_buff` gets its memory -/
  descBuff : Bool
  reply : Option (List (BitVec 8))
  mem : Nat → Bool
  /-- `usbh_hid_set_report` of a byte for the LEDs -/
  setReport : BitVec 8 → Int

/-- The LEDs of a keyboard are turned on and off: the bytes sent. -/
def lightLeds (setReport : BitVec 8 → Int) : List RpInfo → List (BitVec 8)
  | [] => []
  | r :: rs =>
    if r.usagePage = upLeds ∧ r.reportSize = 1 ∧ r.status.variable_ then
      let leds := BitVec.ofNat 8 (2 ^ min 8 r.reportCount.toNat - 1)
      -- `ret` is a `uint8_t`
      if BitVec.ofInt 8 (setReport leds) = 1 then leds :: 0 :: lightLeds setReport rs
      else leds :: lightLeds setReport rs
    else lightLeds setReport rs

structure HidDev where
  bSubClassCode : BitVec 8
  bProtocolCode : BitVec 8
  /-- `rpd.report` -/
  report : List RpInfo

/-- What the function returns and leaves, and the bytes for the LEDs. -/
structure Outcome where
  ret : Int
  parser : Parser
  leds : List (BitVec 8)
  deriving DecidableEq, Repr

/-- The received bytes; there is no reading behind them. -/
def received (bytes : List (BitVec 8)) : Buf := fun i => bytes.getD i 0

/-- Behind the searches, with `len` bytes for the report descriptor. -/
def parseReport (env : Env) (hdev : HidDev) (n len : Nat) (s : Parser) : Except Fault Outcome :=
  match usbhHidGetReportDescriptor len env.reply with
  | .error r => .ok ⟨r, s, []⟩
  | .ok bytes =>
    if env.descBuff then do
      let (r, s) ← parseItems env.mem (received bytes) n 0 bytes.length s
      if r < 0 then .ok ⟨r, s, []⟩
      else if hdev.bSubClassCode = hidSubclassBootDevice ∧
          hdev.bProtocolCode = hidProtocolKeyboard then
        .ok ⟨0, s, lightLeds env.setReport s.report⟩
      else .ok ⟨0, s, []⟩
    else .error .nullBuff

/-- Each loop runs for at most `n` rounds. -/
def hidParseReportDescriptor (env : Env) (b : Buf) (ifNum : BitVec 8) (n : Nat) (hdev : HidDev) :
    Except Fault Outcome := do
  let s : Parser := ⟨.zero, [], false, hdev.report⟩
  let w := wTotalLength b
  let l ← rd b w 0
  let _ ← rd b w 2
  let _ ← rd b w 3
  match ← seekIface b w ifNum n l.toNat (w - l.toNat) with
  | .ret r => .ok ⟨r, s, []⟩
  | .found ifd size =>
    let l ← rd b w ifd
    match ← seekHid b w ifd n (ifd + l.toNat) (size - l.toNat) with
    | .ret r => .ok ⟨r, s, []⟩
    | .found hidd _ =>
      let lo ← rd b w (hidd + 7)
      let hi ← rd b w (hidd + 8)
      parseReport env hdev n (lo.toNat + 256 * hi.toNat + 8) s

end Ma35d1.UsbHost.Hid
