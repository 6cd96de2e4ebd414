import Ma35d1.Machine.Memory

/-!
# The mass storage commands

`MSC_ProcessCmd` on one command block, with the host at the other end of the bulk pipes. The host
moves its data in the direction that the flags give, until all of it is moved or the device halts
the OUT endpoint, and takes what the device sends at any other time. A transfer that the host has
no part in keeps the device waiting for ever: the result is `none`.
-/

namespace Ma35d1.UsbDevice

open Ma35d1.Machine.Memory (addrs store)

inductive BulkState
  | normal | cbw | csw
  deriving DecidableEq

/-- `struct CBW` -/
structure Cbw where
  signature : BitVec 32
  tag : BitVec 32
  dataTransferLength : BitVec 32
  flags : BitVec 8
  opCode : BitVec 8
  data : List (BitVec 8)

/-- `struct CSW` -/
structure Csw where
  tag : BitVec 32
  dataResidue : BitVec 32
  status : BitVec 8
  deriving DecidableEq

/-- Where a byte of the data stage is in the device. -/
inductive Place
  | memory (a : BitVec 32)
  /-- a byte of `g_au8InquiryID` -/
  | inquiry (i : Nat)
  deriving DecidableEq

structure Msc where
  mem : BitVec 32 → BitVec 8
  bulkState : BulkState
  cbwSize : Nat
  prevent : BitVec 8
  remove : Bool
  senseKey : BitVec 8 × BitVec 8 × BitVec 8
  epStallLock : BitVec 32
  csw : Csw
  /-- the Stall bits of endpoint 1 -/
  inStall : Bool
  outStall : Bool
  /-- the data stage of the host: its direction, and what is left of it -/
  hostIn : Bool
  left : Nat
  /-- how much of the reply buffer the command has filled -/
  filled : Nat
  /-- where the bytes of the data stage were, and those that the host was sent -/
  places : List Place
  sent : List (BitVec 8)
  csws : List Csw

def usbdSectorSize : Nat := 512

/-- `USBD_MAX_LEN` -/
def usbdMaxLen : Nat := 32768

/-- `g_TotalSectors`, `g_u32MassBase` and `g_u32StorageBase` -/
def gTotalSectors : Nat := 180

def gMassBase : BitVec 32 := 0x80600000

def gStorageBase : BitVec 32 := 0x80610000

/-- `au8Data[i]` -/
def Cbw.au8Data (cbw : Cbw) (i : Nat) : BitVec 8 := cbw.data.getD i 0

/-- `get_be32` -/
def Cbw.getBe32 (cbw : Cbw) (i : Nat) : BitVec 32 :=
  cbw.au8Data i ++ cbw.au8Data (i + 1) ++ cbw.au8Data (i + 2) ++ cbw.au8Data (i + 3)

/-- The copy of the received block to `g_sCBW`. -/
def Cbw.ofBytes (b : Nat → BitVec 8) : Cbw where
  signature := b 3 ++ b 2 ++ b 1 ++ b 0
  tag := b 7 ++ b 6 ++ b 5 ++ b 4
  dataTransferLength := b 11 ++ b 10 ++ b 9 ++ b 8
  flags := b 12
  opCode := b 15
  data := (List.range 14).map fun i => b (17 + i)

/-- The host takes data, as the flags say. -/
def Cbw.isIn (cbw : Cbw) : Bool := cbw.flags &&& 0x80 == 0x80

def inquiryId : List (BitVec 8) :=
  [0x00, 0x80, 0x00, 0x00, 0x1f, 0x00, 0x00, 0x00,
    0x4e, 0x75, 0x76, 0x6f, 0x74, 0x6f, 0x6e, 0x20,
    0x55, 0x53, 0x42, 0x20, 0x4d, 0x61, 0x73, 0x73, 0x20, 0x53, 0x74, 0x6f, 0x72, 0x61, 0x67, 0x65,
    0x31, 0x2e, 0x30, 0x30]

def modePage01 : List (BitVec 8) :=
  [0x01, 0x0a, 0x00, 0x03, 0x00, 0x00, 0x00, 0x00, 0x03, 0x00, 0x00, 0x00]

def modePage05 : List (BitVec 8) :=
  [0x05, 0x1e, 0x13, 0x88, 0x08, 0x20, 0x02, 0x00, 0x01, 0xf4, 0x00, 0x00, 0x00, 0x00, 0x00, 0x00,
    0x00, 0x00, 0x00, 0x05, 0x1e, 0x00, 0x00, 0x00, 0x00, 0x00, 0x00, 0x00, 0x01, 0x68, 0x00, 0x00]

def modePage1B : List (BitVec 8) :=
  [0x1b, 0x0a, 0x00, 0x01, 0x00, 0x00, 0x00, 0x00, 0x00, 0x00, 0x00, 0x00]

def modePage1C : List (BitVec 8) := [0x1c, 0x06, 0x00, 0x05, 0x00, 0x00, 0x00, 0x00]

/-- What `MSC_ModeSense6` sends of `g_au8ModePage`. -/
def modePage : List (BitVec 8) := [0x03, 0x00, 0x00, 0x00]

/-- Byte `i` of a word, from the lowest -/
def byteOf (n i : Nat) : BitVec 8 := BitVec.ofNat 8 (n / 256 ^ i)

/-! ## Bulk transfers -/

def Msc.byteAt (s : Msc) : Place → BitVec 8
  | .memory a => s.mem a
  | .inquiry i => inquiryId.getD i 0

/-- The host has data for the device and waits for the device to take it. -/
def Msc.hostSends (s : Msc) : Bool := !s.hostIn && !s.outStall && s.left != 0

/-- The bytes at the places go to the host. -/
def Msc.send (s : Msc) (ps : List Place) : Msc :=
  { s with
    places := s.places ++ ps, sent := s.sent ++ ps.map s.byteAt, left := s.left - ps.length }

/-- The host's bytes, numbered from the first of the data stage, go to the addresses from `a`
on. -/
def Msc.take (s : Msc) (out : Nat → BitVec 8) (a : BitVec 32) (n : Nat) : Msc :=
  { s with
    mem := store s.mem a n fun i => out (s.places.length + i)
    places := s.places ++ (addrs a n).map .memory
    left := s.left - n
    bulkState := .cbw }

/-- `MSC_BulkIn`: the count is a field of 16 bits. -/
def Msc.bulkIn (ps : Nat → List Place) (len : Nat) (s : Msc) : Option Msc :=
  if s.hostSends then none
  else some (s.send (ps (if s.hostIn then min (len % 2 ^ 16) s.left else 0)))

def memoryAt (a : BitVec 32) (n : Nat) : List Place := (addrs a n).map .memory

def inquiryBytes (n : Nat) : List Place := (List.range n).map .inquiry

/-- `MSC_BulkOut` -/
def Msc.bulkOut (out : Nat → BitVec 8) (a : BitVec 32) (len : Nat) (s : Msc) : Option Msc :=
  if s.hostSends then some (s.take out a (min (len % 2 ^ 16) s.left)) else none

/-- `MSC_AckCmd` -/
def Msc.ackCmd (s : Msc) : Option Msc :=
  if s.hostSends then none
  else some { s with csws := s.csws ++ [s.csw], bulkState := .normal }

/-- A command ends with a residue and a status. -/
def Msc.finish (s : Msc) (residue : BitVec 32) (status : BitVec 8) : Option Msc :=
  { s with csw := { s.csw with dataResidue := residue, status := status } }.ackCmd

/-! ## Replies -/

/-- `g_au8SenseKey`; its last byte is 0 throughout. -/
def Msc.setSense (s : Msc) (key code : BitVec 8) : Msc := { s with senseKey := (key, code, 0) }

/-- The reply buffer is filled from its start. -/
def Msc.fill (s : Msc) (reply : List (BitVec 8)) : Msc :=
  { s with mem := store s.mem gMassBase reply.length (reply.getD · 0), filled := reply.length }

/-- The reply is built and `dCBWDataTransferLength` bytes of it are sent. -/
def Msc.reply (s : Msc) (cbw : Cbw) (reply : List (BitVec 8)) : Option Msc :=
  (s.fill reply).bulkIn (memoryAt gMassBase) cbw.dataTransferLength.toNat

/-- What `MSC_RequestSense` builds -/
def Msc.senseReply (s : Msc) : List (BitVec 8) :=
  ((((List.replicate 18 0).set 0 (if s.prevent ≠ 0 then 0x70 else 0xf0)).set 2 s.senseKey.1).set 7
    0x0a).set 12 s.senseKey.2.1 |>.set 13 s.senseKey.2.2

/-- `MSC_RequestSense` -/
def Msc.requestSense (s : Msc) (cbw : Cbw) : Option Msc :=
  ({ s with prevent := 0 }.reply cbw s.senseReply).map (Msc.setSense · 0 0)

/-- The four bytes of `n`, highest first, from place `i` of a reply on -/
def setBe32 (reply : List (BitVec 8)) (i n : Nat) : List (BitVec 8) :=
  (((reply.set i (byteOf n 3)).set (i + 1) (byteOf n 2)).set (i + 2) (byteOf n 1)).set (i + 3)
    (byteOf n 0)

/-- What `MSC_ReadFormatCapacity` builds -/
def formatCapacityReply : List (BitVec 8) :=
  let reply := setBe32 ((List.replicate 36 0).set 3 0x10) 4 gTotalSectors
  let reply := (reply.set 8 0x02).set 10 0x02
  (setBe32 reply 12 gTotalSectors).set 18 0x02

/-- What `MSC_ReadCapacity` builds -/
def capacityReply : List (BitVec 8) :=
  (setBe32 (List.replicate 36 0) 0 (gTotalSectors - 1)).set 6 0x02

/-- The heads, sectors and cylinders, for a page 05 at place `i` of a reply -/
def setGeometry (reply : List (BitVec 8)) (i : Nat) : List (BitVec 8) :=
  (((reply.set (i + 4) 2).set (i + 5) 64).set (i + 8) (byteOf (gTotalSectors / 128) 1)).set (i + 9)
    (byteOf (gTotalSectors / 128) 0)

/-- What `MSC_ModeSense10` builds, and whether it knows the page -/
def modeSense10Reply (page : BitVec 8) : List (BitVec 8) × Bool :=
  let header := List.replicate 8 (0 : BitVec 8)
  match page.toNat with
  | 0x01 => (header.set 0 19 ++ modePage01, true)
  | 0x05 => (setGeometry (header.set 0 39 ++ modePage05) 8, true)
  | 0x1b => (header.set 0 19 ++ modePage1B, true)
  | 0x1c => (header.set 0 15 ++ modePage1C, true)
  | 0x3f =>
    (setGeometry (header.set 0 0x47 ++ modePage01 ++ modePage05 ++ modePage1B ++ modePage1C) 20,
      true)
  | _ => (header, false)

/-- `MSC_ModeSense10` -/
def Msc.modeSense10 (s : Msc) (cbw : Cbw) : Option Msc :=
  let (reply, known) := modeSense10Reply (cbw.au8Data 0)
  (if known then s else s.setSense 0x05 0x24).reply cbw reply

/-! ## Commands -/

/-- The transfers of the loop, each of the largest size, and the address behind them. -/
def moveLoop (bulk : BitVec 32 → Nat → Msc → Option Msc) :
    Nat → BitVec 32 → Msc → Option (BitVec 32 × Msc)
  | 0, lba, s => some (lba, s)
  | i + 1, lba, s =>
    (bulk (gStorageBase + lba) usbdMaxLen s).bind
      (moveLoop bulk i (lba + BitVec.ofNat 32 usbdMaxLen))

/-- The data stage of READ and WRITE -/
def moveData (bulk : BitVec 32 → Nat → Msc → Option Msc) (lba : BitVec 32) (len : Nat) (s : Msc) :
    Option Msc :=
  if usbdMaxLen < len then
    (moveLoop bulk (len / usbdMaxLen) lba s).bind fun (lba, s) =>
      if len % usbdMaxLen ≠ 0 then bulk (gStorageBase + lba) (len % usbdMaxLen) s else some s
  else bulk (gStorageBase + lba) len s

/-- `Dcount` -/
def Cbw.dcount (cbw : Cbw) : BitVec 32 := (cbw.getBe32 4 >>> 8) * BitVec.ofNat 32 usbdSectorSize

/-- `g_u32LbaAddress` -/
def Cbw.lbaAddress (cbw : Cbw) : BitVec 32 := cbw.getBe32 0 * BitVec.ofNat 32 usbdSectorSize

/-- READ or WRITE in its own direction: the cases of the lengths, then the data. -/
def Msc.transfer (s : Msc) (cbw : Cbw) (bulk : BitVec 32 → Nat → Msc → Option Msc) : Option Msc :=
  let hcount := cbw.dataTransferLength
  if hcount = cbw.dcount then
    (moveData bulk cbw.lbaAddress hcount.toNat s).bind (Msc.finish · 0 0)
  else
    let s := { s with prevent := 1 }
    if hcount = 0 then s.finish 0 1
    else (moveData bulk cbw.lbaAddress hcount.toNat s).bind (Msc.finish · 0 1)

/-- READ_10 and READ_12 -/
def Msc.read (s : Msc) (cbw : Cbw) : Option Msc :=
  if cbw.flags = 0x80 then s.transfer cbw fun a => Msc.bulkIn (memoryAt a)
  else { s with prevent := 1, outStall := true }.finish cbw.dataTransferLength 1

/-- WRITE_10 and WRITE_12 -/
def Msc.write (s : Msc) (out : Nat → BitVec 8) (cbw : Cbw) : Option Msc :=
  if cbw.flags = 0x00 then s.transfer cbw (Msc.bulkOut out)
  else { s with prevent := 1, inStall := true }.finish cbw.dataTransferLength 1

def Msc.preventAllow (s : Msc) (cbw : Cbw) : Option Msc :=
  if cbw.au8Data 2 &&& 0x01 ≠ 0 then { s.setSense 0x05 0x24 with prevent := 1 }.finish 0 1
  else { s with prevent := 0 }.finish 0 0

def Msc.testUnitReady (s : Msc) (cbw : Cbw) : Option Msc :=
  if cbw.dataTransferLength ≠ 0 then
    if cbw.flags = 0 then
      { s with prevent := 1, outStall := true }.finish cbw.dataTransferLength 1
    else some s
  else if s.remove then { s.setSense 0x02 0x3a with prevent := 1 }.finish 0 1
  else s.finish 0 0

def Msc.startStop (s : Msc) (cbw : Cbw) : Option Msc :=
  (if cbw.au8Data 2 &&& 0x03 = 0x2 then { s with remove := true } else s).finish 0 0

/-- A reply of at most `max` bytes, and a stall if none or more is asked for -/
def Msc.bounded (s : Msc) (cbw : Cbw) (max : Nat) (reply : Msc → Option Msc) : Option Msc :=
  if 0 < cbw.dataTransferLength.toNat ∧ cbw.dataTransferLength.toNat ≤ max then
    (reply s).bind (Msc.finish · 0 0)
  else { s with inStall := true, prevent := 1 }.finish 0 1

def Msc.inquiry (s : Msc) (cbw : Cbw) : Option Msc :=
  s.bounded cbw 36 (Msc.bulkIn inquiryBytes cbw.dataTransferLength.toNat)

def Msc.modeSelect (s : Msc) (out : Nat → BitVec 8) (cbw : Cbw) : Option Msc :=
  if cbw.dataTransferLength ≠ 0 then
    (s.bulkOut out gStorageBase cbw.dataTransferLength.toNat).bind (Msc.finish · 0 0)
  else s.finish 0 0

/-- A command that the device does not have -/
def Msc.unsupported (s : Msc) (cbw : Cbw) : Option Msc :=
  (s.setSense 0x05 0x20).finish cbw.dataTransferLength s.prevent

/-- The switch over the operation code -/
def Msc.command (s : Msc) (out : Nat → BitVec 8) (cbw : Cbw) : Option Msc :=
  match cbw.opCode.toNat with
  | 0xa8 | 0x28 => s.read cbw
  | 0xaa | 0x2a => s.write out cbw
  | 0x1e => s.preventAllow cbw
  | 0x00 => s.testUnitReady cbw
  | 0x1b => s.startStop cbw
  | 0x2f => s.finish 0 0
  | 0x03 => s.bounded cbw 18 (Msc.requestSense · cbw)
  | 0x23 => (s.reply cbw formatCapacityReply).bind (Msc.finish · 0 0)
  | 0x25 => (s.reply cbw capacityReply).bind (Msc.finish · 0 0)
  | 0x15 | 0x55 => s.modeSelect out cbw
  | 0x5a => (s.modeSense10 cbw).bind (Msc.finish · 0 0)
  | 0x1a => (s.reply cbw modePage).bind (Msc.finish · 0 0)
  | 0x12 => s.inquiry cbw
  | 0x9e => { s with inStall := true, prevent := 1 }.finish 0 1
  | _ => s.unsupported cbw

/-! ## A command block -/

/-- `MSC_ReceiveCBW`, with the interrupt that ends it -/
def Msc.receiveCbw (s : Msc) (packet : List (BitVec 8)) : Msc :=
  { s with
    mem := store s.mem gMassBase packet.length (packet.getD · 0)
    cbwSize := packet.length
    bulkState := .cbw }

/-- The pipes are halted until a reset. -/
def Msc.refuse (s : Msc) : Msc :=
  { s with
    mem := store s.mem gMassBase 8 fun _ => 0
    prevent := 1, inStall := true, outStall := true, epStallLock := 1, bulkState := .normal }

/-- The host, which has cleared the halts of the command before, turns to its data stage. -/
def Msc.start (s : Msc) (cbw : Cbw) : Msc :=
  { s with
    csw := { s.csw with tag := cbw.tag }
    hostIn := cbw.isIn, left := cbw.dataTransferLength.toNat, inStall := false, outStall := false
    filled := 0, places := [], sent := [], csws := [] }

/-- The block as it stands in the memory -/
def Msc.cbw (s : Msc) : Cbw := .ofBytes fun i => s.mem (gMassBase + BitVec.ofNat 32 i)

/-- `MSC_ProcessCmd`, when the host sends `packet` and then, if it has data for the device,
`out`. -/
def Msc.processCmd (s : Msc) (packet : List (BitVec 8)) (out : Nat → BitVec 8) : Option Msc :=
  let s := if s.bulkState = .normal then s.receiveCbw packet else s
  if s.bulkState = .cbw then
    let s := { s with bulkState := .csw }
    if s.cbw.signature ≠ 0x43425355 ∨ s.cbwSize ≠ 31 then some s.refuse
    else (s.start s.cbw).command out s.cbw
  else some s

end Ma35d1.UsbDevice
