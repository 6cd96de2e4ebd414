import Ma35d1.Machine.Copy
import Ma35d1.Machine.Trace

/-!
# The HID transfer device

The reports of the OUT endpoint are commands or the data of a write command, and the IN endpoint
sends the pages of a read command. One command record serves both, with the signature as the counter
of pages, and the OUT endpoint takes the next report only after it was armed again.
-/

namespace Ma35d1.UsbDevice.HidTransfer

open Ma35d1.Machine.Copy
open Ma35d1.Machine.Trace

/-- `PAGE_SIZE`, and `sizeof(CMD_T)` -/
def pageSize : Nat := 512
def cmdSize : Nat := 18

def hidCmdSignature : BitVec 32 := 0x43444948
def hidCmdNone : BitVec 8 := 0x00
def hidCmdErase : BitVec 8 := 0x71
def hidCmdRead : BitVec 8 := 0xD2
def hidCmdWrite : BitVec 8 := 0xC3
def hidCmdTest : BitVec 8 := 0xB4

/-- The speeds, and `g_u32Ep1MaxPacketSize` for each -/
inductive Speed
  | high
  | full

def Speed.ep1MaxPacketSize : Speed → Nat
  | high => 512
  | full => 64

/-- Where the OUT endpoint puts a report -/
inductive OutBuf
  | ep1BufOut
  | pageBuff
  deriving DecidableEq

structure Device where
  speed : Speed
  /-- what is stored from `gCmd` on, and from `g_u8PageBuff` on -/
  cmd : Nat → BitVec 8
  pageBuff : Nat → BitVec 8
  bytesInPageBuf : Nat
  ep1BufOut : Nat → BitVec 8
  /-- the buffer and the size the OUT endpoint is armed with, and the place in the page buffer and
  the size of the packet the IN endpoint is armed with -/
  ep1Out : Option (OutBuf × Nat)
  ep1In : Option (Nat × Nat)
  /-- a copy went beyond `gCmd` or `g_u8PageBuff` -/
  stray : Bool
  /-- the pages that were programmed -/
  programmed : List (List (BitVec 8))

/-- The word at a place, and its bytes -/
def word (m : Nat → BitVec 8) (k : Nat) : BitVec 32 := m (k + 3) ++ m (k + 2) ++ (m (k + 1) ++ m k)

def wordBytes (v : BitVec 32) : List (BitVec 8) :=
  [v.extractLsb' 0 8, v.extractLsb' 8 8, v.extractLsb' 16 8, v.extractLsb' 24 8]

namespace Device

/-! ## The fields of `gCmd` -/

def u8Cmd (d : Device) : BitVec 8 := d.cmd 0
def u8Size (d : Device) : Nat := (d.cmd 1).toNat
def u32Arg2 (d : Device) : BitVec 32 := word d.cmd 6
def u32Signature (d : Device) : BitVec 32 := word d.cmd 10
def u32Checksum (d : Device) : BitVec 32 := word d.cmd 14

def setCmd (d : Device) (c : BitVec 8) : Device := { d with cmd := copyTo d.cmd 0 [c] }

def setSignature (d : Device) (v : BitVec 32) : Device :=
  { d with cmd := copyTo d.cmd 10 (wordBytes v) }

/-! ## The endpoints -/

/-- The OUT endpoint is set up for a report of any size. -/
def setupOut (d : Device) : Device :=
  { d with ep1Out := some (.ep1BufOut, d.speed.ep1MaxPacketSize) }

/-- The next packet of the page buffer is given to the IN endpoint. -/
def setupIn (d : Device) : Device :=
  { d with
    ep1In := some (pageSize - d.bytesInPageBuf,
      min d.speed.ep1MaxPacketSize d.bytesInPageBuf)
    bytesInPageBuf := d.bytesInPageBuf - min d.speed.ep1MaxPacketSize d.bytesInPageBuf }

/-- A report is put where the OUT endpoint was armed for. -/
def receive (d : Device) (report : List (BitVec 8)) : OutBuf → Device
  | .ep1BufOut => { d with ep1BufOut := copyTo d.ep1BufOut 0 report, ep1Out := none }
  | .pageBuff => { d with pageBuff := copyTo d.pageBuff 0 report, ep1Out := none }

/-! ## The commands -/

/-- `HID_CmdEraseSectors` and `HID_CmdTest` -/
def cmdEraseSectors (d : Device) : Device := d.setCmd hidCmdNone
def cmdTest (d : Device) : Device := d.setCmd hidCmdNone

/-- `HID_CmdReadPages` -/
def cmdReadPages (d : Device) : Device :=
  if d.u32Arg2 ≠ 0 then
    ({ d with
      pageBuff := copyTo d.pageBuff 0 (List.replicate pageSize 0xff)
      bytesInPageBuf := pageSize }.setSignature 1).setupIn
  else d

/-- `HID_CmdWritePages` -/
def cmdWritePages (d : Device) : Device := { d with bytesInPageBuf := 0 }.setSignature 0

/-- `CalCheckSum` of the first bytes of `gCmd` -/
def calCheckSum (d : Device) (size : Nat) : BitVec 32 :=
  (copyFrom d.cmd 0 size).foldl (fun sum b => sum + b.setWidth 32) 0

/-- `HSUSBD_MemCopy` of a report to `gCmd` -/
def copyCmd (d : Device) (len : Nat) : Device :=
  { d with
    cmd := copyTo d.cmd 0 (copyFrom d.ep1BufOut 0 len)
    stray := d.stray || decide (cmdSize < len) }

/-- The checks of `ProcessCommand`: the size, the signature and the checksum -/
def Checked (d : Device) (len : Nat) : Prop :=
  d.u8Size ≤ cmdSize ∧ d.u8Size ≤ len ∧ d.u32Signature = hidCmdSignature ∧
    d.calCheckSum d.u8Size = d.u32Checksum

instance (d : Device) (len : Nat) : Decidable (d.Checked len) :=
  inferInstanceAs (Decidable (_ ∧ _ ∧ _ ∧ _))

/-- The command in `gCmd`, if it is one -/
def runCommand (d : Device) : Option Device :=
  if d.u8Cmd = hidCmdErase then some d.cmdEraseSectors
  else if d.u8Cmd = hidCmdRead then some d.cmdReadPages
  else if d.u8Cmd = hidCmdWrite then some d.cmdWritePages
  else if d.u8Cmd = hidCmdTest then some d.cmdTest
  else none

/-- `ProcessCommand` with the report in `gCmd`, and what it returns -/
def checkCommand (d : Device) (len : Nat) : Device × Int :=
  if d.Checked len then
    match d.runCommand with
    | some d' => (d'.setupOut, 0)
    | none => (d, -1)
  else (d, -1)

/-- `ProcessCommand` -/
def processCommand (d : Device) (len : Nat) : Device × Int := (d.copyCmd len).checkCommand len

/-! ## The data of a write command -/

/-- The data phase of a write command -/
def Writing (d : Device) : Prop := d.u8Cmd = hidCmdWrite ∧ d.u32Signature < d.u32Arg2

instance (d : Device) : Decidable d.Writing := inferInstanceAs (Decidable (_ ∧ _))

/-- A report is copied to the page buffer. -/
def copyData (d : Device) (size : Nat) : Device :=
  { d with
    pageBuff := copyTo d.pageBuff d.bytesInPageBuf (copyFrom d.ep1BufOut 0 size)
    bytesInPageBuf := d.bytesInPageBuf + size
    stray := d.stray || decide (pageSize < d.bytesInPageBuf + size) }

/-- The page is programmed. -/
def programPage (d : Device) : Device :=
  { d with programmed := d.programmed ++ [copyFrom d.pageBuff 0 pageSize], bytesInPageBuf := 0 }

/-- A page is complete: the OUT endpoint is armed for the next one, or for the next command. -/
def pageDone (d : Device) (size : Nat) : Device :=
  if d.u32Signature + 1 < d.u32Arg2 then
    { d.programPage with ep1Out := some (.pageBuff, size) }.setSignature (d.u32Signature + 1)
  else (d.programPage.setupOut.setCmd hidCmdNone).setSignature (d.u32Signature + 1)

/-- `HID_GetOutReport` -/
def getOutReport (d : Device) (size : Nat) : Device :=
  if d.Writing then
    if pageSize ≤ (d.copyData size).bytesInPageBuf then (d.copyData size).pageDone size
    else d.copyData size
  else (d.processCommand size).1

/-! ## The pages of a read command -/

/-- The next page, when the one before was sent -/
def nextPage (d : Device) : Device :=
  if d.bytesInPageBuf = 0 then
    { d with bytesInPageBuf := pageSize }.setSignature (d.u32Signature + 1)
  else d

/-- `HID_SetInReport` -/
def setInReport (d : Device) : Device :=
  if d.u8Cmd = hidCmdNone then d.setupOut
  else if d.u8Cmd = hidCmdRead then
    if d.u32Arg2 ≤ d.u32Signature ∧ d.bytesInPageBuf = 0 then d.setCmd hidCmdNone
    else d.nextPage.setupIn
  else d

end Device

/-- The device, and what the host has asked for: the pages of the write commands that were taken and
the data of their reports, the pages of the read commands and the packets that were sent -/
structure Link where
  dev : Device
  toWrite : Nat
  data : List (BitVec 8)
  toRead : Nat
  sent : List (Nat × Nat)

inductive Event
  /-- a report of the host arrives -/
  | report (bytes : List (BitVec 8))
  /-- a packet of the IN endpoint was sent -/
  | inDone

namespace Link

/-- A report is data as long as pages of a write command are missing; another one may be a command
that is taken. -/
def count (l : Link) (d : Device) (report : List (BitVec 8)) : Link :=
  if l.data.length < pageSize * l.toWrite then { l with data := l.data ++ report }
  else if (d.processCommand report.length).2 = 0 then
    if (d.copyCmd report.length).u8Cmd = hidCmdWrite then
      { l with toWrite := l.toWrite + (d.copyCmd report.length).u32Arg2.toNat }
    else if (d.copyCmd report.length).u8Cmd = hidCmdRead then
      { l with toRead := l.toRead + (d.copyCmd report.length).u32Arg2.toNat }
    else l
  else l

def step (l : Link) : Event → Option Link
  | .report bytes => l.dev.ep1Out.bind fun o =>
    if bytes.length ≤ o.2 then
      some { l.count (l.dev.receive bytes o.1) bytes with
        dev := (l.dev.receive bytes o.1).getOutReport bytes.length }
    else none
  | .inDone => l.dev.ep1In.map fun p =>
    { l with dev := { l.dev with ep1In := none }.setInReport, sent := l.sent ++ [p] }

/-- After the empty packet that `SET_IDLE` sets up was sent -/
def start (speed : Speed) : Link where
  dev := {
    speed := speed
    cmd := fun _ => 0
    pageBuff := fun _ => 0
    bytesInPageBuf := 0
    ep1BufOut := fun _ => 0
    ep1Out := some (.ep1BufOut, speed.ep1MaxPacketSize)
    ep1In := none
    stray := false
    programmed := [] }
  toWrite := 0
  data := []
  toRead := 0
  sent := []

end Link

end Ma35d1.UsbDevice.HidTransfer
