import Mathlib.Logic.Function.Basic
import Ma35d1.UsbHost.Types

/-!
# Mass-storage transfers

A SCSI command is a command block, its data and a status block, each a bulk transfer of
`msc_bulk_transfer`. What becomes of the transfers is given: `dev n` is the outcome of the
`n`-th one. An `MSC_T` is named by the order of its allocation; `Slots` are the fields that
place it on `g_msc_list` and `Io` those that commands use.
-/

namespace Ma35d1.UsbHost.Msc

abbrev IfaceId := Nat

def umasErrIo : Int := -1033
def umasErrCmdStatus : Int := -1037
def umasErrDriveNotFound : Int := -1039

def mscCbSign : BitVec 32 := 0x43425355#32
def mscCsSign : BitVec 32 := 0x53425355#32
def mscCsWrapLen : Nat := 13

abbrev Buffer := Nat → BitVec 8

/-- A `struct bulk_cb_wrap`. -/
structure BulkCbWrap where
  signature : BitVec 32
  tag : BitVec 32
  dataTransferLength : BitVec 32
  flags : BitVec 8
  lun : BitVec 8
  length : BitVec 8
  cdb : Buffer

/-- What becomes of a bulk transfer: whether its UTR is allocated, what `usbh_bulk_xfer`
returns, the status when it is done in time, and the bytes moved, which for an in transfer
are `data`. -/
structure BulkOutcome where
  alloc : Bool
  ret : Int
  done : Option Int
  xferLen : Nat
  data : Buffer

/-- The list of drives. -/
structure Slots where
  next : Addr → Ptr
  iface : Addr → IfaceId
  lun : Addr → BitVec 8
  maxLun : Addr → BitVec 8
  drvNo : Addr → Int
  gMscList : Ptr
  gFatDrvUsed : Nat → Bool
  /-- the `MSC_T`s allocated and not freed -/
  live : Addr → Bool
  fresh : Addr

structure Io where
  /-- `__tag` -/
  tag : BitVec 32
  cmdBlk : Addr → BulkCbWrap
  /-- `cmd_status`, as bytes -/
  cmdStatus : Addr → Buffer
  scsiBuff : Addr → Buffer
  uTotalSectorN : Addr → BitVec 32
  nSectorSize : Addr → BitVec 32
  /-- UTRs allocated and not freed -/
  utrUsed : Nat
  /-- the bulk transfers so far -/
  pos : Nat

structure Umas where
  slots : Slots
  io : Io

/-! ## One command -/

/-- The buffer behind a transfer. -/
def BulkOutcome.received (o : BulkOutcome) (buff : Buffer) : Buffer := fun i =>
  if o.alloc = true ∧ 0 ≤ o.ret ∧ i < o.xferLen then o.data i else buff i

/-- `msc_bulk_transfer` -/
def mscBulkTransfer (o : BulkOutcome) (io : Io) : Int × Io :=
  let io := { io with pos := io.pos + 1 }
  if o.alloc = false then (usbhErrMemoryOut, io)
  else
    let io := { io with utrUsed := io.utrUsed + 1 }
    if o.ret < 0 then (o.ret, io)
    else
      match o.done with
      | none => (usbhErrTimeout, { io with utrUsed := io.utrUsed - 1 })
      | some status => (status, { io with utrUsed := io.utrUsed - 1 })

/-- The data of a command, if it has any. -/
def dataPhase (dev : Nat → BulkOutcome) (buff : Buffer) (dataLen : BitVec 32) (bIsDataIn : Bool)
    (io : Io) : Int × Buffer × Io :=
  if dataLen = 0 then (0, buff, io)
  else
    let o := dev io.pos
    let r := mscBulkTransfer o io
    (r.1, if bIsDataIn then o.received buff else buff, r.2)

/-- The status of a command. -/
def statusPhase (dev : Nat → BulkOutcome) (msc : Addr) (io : Io) : Int × Io :=
  let o := dev io.pos
  let cmdStatus := o.received (io.cmdStatus msc)
  let r := mscBulkTransfer o io
  let io := { r.2 with cmdStatus := Function.update io.cmdStatus msc cmdStatus }
  if r.1 < 0 then (r.1, io)
  else if cmdStatus 12 ≠ 0 then (umasErrCmdStatus, io)
  else (0, io)

/-- The fields of the command block that `do_scsi_command` sets. -/
def Io.stamp (io : Io) (msc : Addr) (lun : BitVec 8) (dataLen : BitVec 32) : Io :=
  let cmdBlk := { io.cmdBlk msc with
    signature := mscCbSign
    tag := io.tag
    dataTransferLength := dataLen
    lun := lun }
  { io with cmdBlk := Function.update io.cmdBlk msc cmdBlk, tag := io.tag + 1 }

/-- `do_scsi_command` for the command block set up at `msc`, whose unit is `lun` -/
def doScsiCommand (dev : Nat → BulkOutcome) (msc : Addr) (lun : BitVec 8) (buff : Buffer)
    (dataLen : BitVec 32) (bIsDataIn : Bool) (io : Io) : Int × Buffer × Io :=
  let io := io.stamp msc lun dataLen
  let r := mscBulkTransfer (dev io.pos) io
  if r.1 < 0 then (r.1, buff, r.2)
  else
    let d := dataPhase dev buff dataLen bIsDataIn r.2
    if d.1 < 0 then d
    else
      let t := statusPhase dev msc d.2.2
      (t.1, d.2.1, t.2)

/-- The command block is cleared and filled anew. -/
def Io.command (io : Io) (msc : Addr) (flags length : BitVec 8) (cdb : Buffer) : Io :=
  { io with cmdBlk := Function.update io.cmdBlk msc ⟨0, 0, 0, flags, 0, length, cdb⟩ }

/-! ## Reading and writing sectors -/

def read10 : BitVec 8 := 0x28#8
def write10 : BitVec 8 := 0x2a#8

/-- The CDB of `READ_10` and `WRITE_10`. -/
def rwCdb (op lun : BitVec 8) (secNo secCnt : BitVec 32) : Buffer
  | 0 => op
  | 1 => lun <<< 5
  | 2 => (secNo >>> 24).setWidth 8
  | 3 => (secNo >>> 16).setWidth 8
  | 4 => (secNo >>> 8).setWidth 8
  | 5 => secNo.setWidth 8
  | 7 => (secCnt >>> 8).setWidth 8
  | 8 => secCnt.setWidth 8
  | _ => 0

/-- The walk of `find_msc_by_drive` over at most `n` drives. -/
def Slots.findFrom (s : Slots) (drvNo : Int) : Nat → Ptr → Ptr
  | 0, _ => none
  | _ + 1, none => none
  | n + 1, some msc => if s.drvNo msc = drvNo then some msc else s.findFrom drvNo n (s.next msc)

/-- `find_msc_by_drive`; no list is longer than the number of allocations. -/
def Slots.findMscByDrive (s : Slots) (drvNo : Int) : Ptr :=
  s.findFrom drvNo (s.fresh + 1) s.gMscList

/-- `sec_cnt * 512` as the `uint32_t` it is passed as -/
def rwLength (secCnt : Int) : BitVec 32 := BitVec.ofInt 32 (secCnt * 512)

/-- `usbh_umas_read` -/
def usbhUmasRead (dev : Nat → BulkOutcome) (drvNo : Int) (secNo : BitVec 32) (secCnt : Int)
    (buff : Buffer) (s : Umas) : Int × Buffer × Umas :=
  match s.slots.findMscByDrive drvNo with
  | none => (umasErrDriveNotFound, buff, s)
  | some msc =>
    let lun := s.slots.lun msc
    let io := s.io.command msc 0x80 10 (rwCdb read10 lun secNo (BitVec.ofInt 32 secCnt))
    let r := doScsiCommand dev msc lun buff (rwLength secCnt) true io
    if r.1 ≠ 0 then (umasErrIo, r.2.1, { s with io := r.2.2 })
    else (0, r.2.1, { s with io := r.2.2 })

/-- `usbh_umas_write` -/
def usbhUmasWrite (dev : Nat → BulkOutcome) (drvNo : Int) (secNo : BitVec 32) (secCnt : Int)
    (buff : Buffer) (s : Umas) : Int × Buffer × Umas :=
  match s.slots.findMscByDrive drvNo with
  | none => (umasErrDriveNotFound, buff, s)
  | some msc =>
    let lun := s.slots.lun msc
    let io := s.io.command msc 0 10 (rwCdb write10 lun secNo (BitVec.ofInt 32 secCnt))
    let r := doScsiCommand dev msc lun buff (rwLength secCnt) false io
    if r.1 < 0 then (umasErrIo, r.2.1, { s with io := r.2.2 })
    else (0, r.2.1, { s with io := r.2.2 })

end Ma35d1.UsbHost.Msc
