import Ma35d1.Heap.LinkedPath
import Ma35d1.UsbHost.Core.Lookup
import Ma35d1.UsbHost.Msc.Transfer

/-!
# Mounting and unmounting drives

`msc_probe` tries the units of a device one after the other; each one that holds a medium
gets a FAT drive number and an `MSC_T` on `g_msc_list`. `msc_disconnect` takes those of an
interface off again. Mounting a volume (`f_mount`) and resetting a device (`msc_reset`) do
not touch what is modelled here.
-/

namespace Ma35d1.UsbHost.Msc

open Heap.LinkedPath

def usbhErrNotSupported : Int := -101
def usbhErrNotMatched : Int := -103
def usbhErrNotExpected : Int := -104

/-! ## Drive numbers and the list -/

def usbdrvCnt : Nat := 5

namespace Slots

/-- The slot `fatfs_drive_alloc` takes; with `USBDRV_0 = 0` it is the drive number. -/
def freeDrive (s : Slots) : Option Nat :=
  (List.range usbdrvCnt).find? fun i => s.gFatDrvUsed i == false

/-- `fatfs_drive_free` -/
def fatfsDriveFree (s : Slots) (drvNo : Int) : Slots :=
  { s with gFatDrvUsed := Function.update s.gFatDrvUsed drvNo.toNat false }

/-- `msc_list_add` -/
def mscListAdd (s : Slots) (msc : Addr) : Slots :=
  match s.gMscList with
  | none => { s with next := Function.update s.next msc none, gMscList := some msc }
  | some a => { s with next := Function.update s.next msc (some a), gMscList := some msc }

/-- `msc_list_remove`; the walk looks for the drive in front of `msc`. -/
def mscListRemove (s : Slots) (msc : Addr) : Slots :=
  match s.gMscList with
  | none => s
  | some a =>
    if a = msc then { s with gMscList := s.next msc }
    else
      match predFrom s.next (fun p => (s.next p).isNone) msc (s.fresh + 1) a with
      | some (some p) => { s with next := Function.update s.next p (s.next msc) }
      | _ => s

/-- A zeroed `MSC_T` from `usbh_alloc_mem`. -/
def alloc (s : Slots) : Slots :=
  { s with
    next := Function.update s.next s.fresh none
    iface := Function.update s.iface s.fresh 0
    lun := Function.update s.lun s.fresh 0
    maxLun := Function.update s.maxLun s.fresh 0
    drvNo := Function.update s.drvNo s.fresh 0
    live := Function.update s.live s.fresh true
    fresh := s.fresh + 1 }

/-- The `MSC_T` at `msc` is given back with `usbh_free_mem`. -/
def free (s : Slots) (msc : Addr) : Slots := { s with live := Function.update s.live msc false }

/-- `memcpy(a, msc, sizeof(*msc))` -/
def memcpy (s : Slots) (a msc : Addr) : Slots :=
  { s with
    next := Function.update s.next a (s.next msc)
    iface := Function.update s.iface a (s.iface msc)
    lun := Function.update s.lun a (s.lun msc)
    maxLun := Function.update s.maxLun a (s.maxLun msc)
    drvNo := Function.update s.drvNo a (s.drvNo msc) }

/-- `msc->lun = v` -/
def setLun (s : Slots) (msc : Addr) (v : BitVec 8) : Slots :=
  { s with lun := Function.update s.lun msc v }

/-- `msc->drv_no = v` -/
def setDrvNo (s : Slots) (msc : Addr) (v : Int) : Slots :=
  { s with drvNo := Function.update s.drvNo msc v }

/-- A drive number is taken for `msc`, which goes on the list. -/
def mount (s : Slots) (msc : Addr) (drvNo : Nat) : Slots :=
  ({ s with gFatDrvUsed := Function.update s.gFatDrvUsed drvNo true }.setDrvNo msc
    drvNo).mscListAdd msc

end Slots

/-! ## Commands of a probe -/

def Io.zero (io : Io) (a : Addr) : Io :=
  { io with
    cmdBlk := Function.update io.cmdBlk a ⟨0, 0, 0, 0, 0, 0, fun _ => 0⟩
    cmdStatus := Function.update io.cmdStatus a fun _ => 0
    scsiBuff := Function.update io.scsiBuff a fun _ => 0
    uTotalSectorN := Function.update io.uTotalSectorN a 0
    nSectorSize := Function.update io.nSectorSize a 0 }

def Io.memcpy (io : Io) (a msc : Addr) : Io :=
  { io with
    cmdBlk := Function.update io.cmdBlk a (io.cmdBlk msc)
    cmdStatus := Function.update io.cmdStatus a (io.cmdStatus msc)
    scsiBuff := Function.update io.scsiBuff a (io.scsiBuff msc)
    uTotalSectorN := Function.update io.uTotalSectorN a (io.uTotalSectorN msc)
    nSectorSize := Function.update io.nSectorSize a (io.nSectorSize msc) }

section Commands

variable (dev : Nat → BulkOutcome) (msc : Addr) (lun : BitVec 8)

/-- `run_scsi_command(msc, msc->scsi_buff, data_len, 1, …)` -/
def runScsiCommand (dataLen : BitVec 32) (io : Io) : Int × Io :=
  let r := doScsiCommand dev msc lun (io.scsiBuff msc) dataLen true io
  (r.1, { r.2.2 with scsiBuff := Function.update r.2.2.scsiBuff msc r.2.1 })

/-- A CDB of six bytes. -/
def cdb6 (op len : BitVec 8) : Buffer
  | 0 => op
  | 1 => lun <<< 5
  | 4 => len
  | _ => 0

/-- `msc_inquiry` -/
def mscInquiry (io : Io) : Int × Io :=
  runScsiCommand dev msc lun 36 (io.command msc 0x80 6 (cdb6 lun 0x12 36))

/-- `msc_request_sense` -/
def mscRequestSense (io : Io) : Int × Io :=
  let r := runScsiCommand dev msc lun 18 (io.command msc 0x80 6 (cdb6 lun 0x03 18))
  if r.1 < 0 then r
  else if r.2.scsiBuff msc 2 ≠ 0x6 then (-1, r.2)
  else r

/-- `msc_test_unit_ready` -/
def mscTestUnitReady (io : Io) : Int × Io :=
  runScsiCommand dev msc lun 0 (io.command msc 0x80 6 (cdb6 lun 0x00 0))

/-- The first loop over `retries`: whether the unit answers, in at most `n` tries. -/
def findDisk : Nat → Io → Bool × Io
  | 0, io => (false, io)
  | n + 1, io =>
    let io := (mscInquiry dev msc lun io).2
    let io := (mscInquiry dev msc lun io).2
    let r := mscTestUnitReady dev msc lun io
    if r.1 = 0 then (true, r.2)
    else
      let r := mscRequestSense dev msc lun r.2
      if r.1 = 0 then (true, r.2) else findDisk n r.2

/-- The second loop over `retries`; its result is negative when all of them fail. -/
def readCapacity : Nat → Int → Io → Int × Io
  | 0, ret, io => (ret, io)
  | n + 1, _, io =>
    let cdb : Buffer := fun i => if i = 0 then 0x25 else if i = 1 then lun <<< 5 else 0
    let r := runScsiCommand dev msc lun 8 (io.command msc 0x80 10 cdb)
    if r.1 < 0 then readCapacity n r.1 r.2 else r

/-- Four bytes of a buffer, the highest first. -/
def be32 (b : Buffer) (i : Nat) : BitVec 32 := b i ++ b (i + 1) ++ b (i + 2) ++ b (i + 3)

/-- The capacity just read. -/
def Io.capacity (io : Io) (msc : Addr) : Io :=
  { io with
    uTotalSectorN := Function.update io.uTotalSectorN msc (be32 (io.scsiBuff msc) 0)
    nSectorSize := Function.update io.nSectorSize msc (be32 (io.scsiBuff msc) 4) }

end Commands

/-! ## Probing -/

/-- What a probe meets: whether its first `MSC_T` is allocated, the answer to GET MAX LUN (0
when there is none), whether the copy made after unit `lun` is allocated, and the device. -/
structure ProbeEnv where
  alloc : Bool
  maxLun : BitVec 8
  allocCopy : Nat → Bool
  dev : Nat → BulkOutcome

/-- `try_msc` is a copy of `msc`, at the next address. -/
def Umas.duplicate (s : Umas) (msc : Addr) : Umas :=
  let a := s.slots.fresh
  ⟨s.slots.alloc.memcpy a msc, (s.io.zero a).memcpy a msc⟩

/-- The loop of `umass_init_device`, with `n` units to go from `lun` on: `try_msc`,
`bHasMedia`, `ret` and the state when it ends. -/
def initLuns (env : ProbeEnv) (msc : Addr) : Nat → Nat → Addr → Bool → Int → Umas →
    Ptr × Bool × Int × Umas
  | 0, _, tryMsc, bHasMedia, ret, s => (some tryMsc, bHasMedia, ret, s)
  | n + 1, lun, tryMsc, bHasMedia, ret, s =>
    let l := BitVec.ofNat 8 lun
    let slots := s.slots.setLun tryMsc l
    let d := findDisk env.dev tryMsc l 3 s.io
    if d.1 = false then initLuns env msc n (lun + 1) tryMsc bHasMedia ret ⟨slots, d.2⟩
    else
      let c := readCapacity env.dev tryMsc l 3 ret d.2
      if c.1 < 0 then initLuns env msc n (lun + 1) tryMsc bHasMedia c.1 ⟨slots, c.2⟩
      else
        let io := c.2.capacity tryMsc
        match slots.freeDrive with
        | none =>
          (some tryMsc, bHasMedia, usbhErrMemoryOut, ⟨slots.setDrvNo tryMsc usbhErrMemoryOut, io⟩)
        | some drvNo =>
          let slots := slots.mount tryMsc drvNo
          if env.allocCopy lun = false then (none, true, usbhErrMemoryOut, ⟨slots, io⟩)
          else
            initLuns env msc n (lun + 1) slots.fresh true c.1 (Umas.duplicate ⟨slots, io⟩ msc)

/-- `umass_init_device` -/
def umassInitDevice (env : ProbeEnv) (msc : Addr) (s : Umas) : Int × Umas :=
  let r := initLuns env msc ((s.slots.maxLun msc).toNat + 1) 0 msc false usbhErrNotFound s
  if r.2.1 then
    match r.1 with
    | some tryMsc => (0, { r.2.2.2 with slots := r.2.2.2.slots.free tryMsc })
    | none => (0, r.2.2.2)
  else (r.2.2.1, r.2.2.2)

/-- What `msc_probe` reads of an `IFACE_T`. -/
structure Iface where
  id : IfaceId
  bInterfaceClass : BitVec 8
  bInterfaceSubClass : BitVec 8
  bInterfaceProtocol : BitVec 8
  ep : List EpInfo

/-- Whether there is a bulk endpoint of the direction `dir`. -/
def Iface.hasBulk (iface : Iface) (isOut : Bool) : Bool :=
  iface.ep.any fun e => e.xferType == epAttrTtBulk && e.isOut == isOut

/-- The checks of `msc_probe` before it allocates. -/
def Iface.check (iface : Iface) : Int :=
  if iface.bInterfaceClass ≠ 0x08 then usbhErrNotMatched
  else if iface.bInterfaceSubClass ≠ 0x06 ∧ iface.bInterfaceSubClass ≠ 0x05 ∧
      iface.bInterfaceSubClass ≠ 0x01 then usbhErrNotSupported
  else if iface.bInterfaceProtocol ≠ 0x50 then usbhErrNotSupported
  else 0

/-- The state `umass_init_device` starts in. -/
def Umas.prepare (s : Umas) (env : ProbeEnv) (iface : Iface) : Umas :=
  let msc := s.slots.fresh
  let slots := s.slots.alloc
  ⟨{ slots with
      iface := Function.update slots.iface msc iface.id
      maxLun := Function.update slots.maxLun msc env.maxLun }, s.io.zero msc⟩

/-- `msc_probe` -/
def mscProbe (env : ProbeEnv) (iface : Iface) (s : Umas) : Int × Umas :=
  if iface.check ≠ 0 then (iface.check, s)
  else if env.alloc = false then (usbhErrMemoryOut, s)
  else
    let msc := s.slots.fresh
    if iface.hasBulk false = false ∨ iface.hasBulk true = false then
      (usbhErrNotExpected, ⟨s.slots.alloc.free msc, s.io.zero msc⟩)
    else umassInitDevice env msc (s.prepare env iface)

/-- The loop of `msc_disconnect`, over at most `n` drives from `p` on. -/
def disconnectFrom (iface : IfaceId) : Nat → Ptr → Slots → Slots
  | 0, _, s => s
  | _ + 1, none, s => s
  | n + 1, some msc, s =>
    let mscP := s.next msc
    if s.iface msc = iface then
      disconnectFrom iface n mscP (((s.fatfsDriveFree (s.drvNo msc)).mscListRemove msc).free msc)
    else disconnectFrom iface n mscP s

/-- `msc_disconnect` -/
def mscDisconnect (iface : IfaceId) (s : Umas) : Umas :=
  { s with slots := disconnectFrom iface (s.slots.fresh + 1) s.slots.gMscList s.slots }

/-! ## Steps -/

/-- The driver and the interfaces bound to it. -/
structure Driver where
  umas : Umas
  bound : List IfaceId

/-- `usbh_umas_init` -/
def Driver.init : Driver where
  umas := ⟨⟨fun _ => none, fun _ => 0, fun _ => 0, fun _ => 0, fun _ => 0, none, fun _ => false,
      fun _ => false, 0⟩,
    ⟨0x10e24388, fun _ => ⟨0, 0, 0, 0, 0, 0, fun _ => 0⟩, fun _ _ => 0, fun _ _ => 0, fun _ => 0,
      fun _ => 0, 0, 0⟩⟩
  bound := []

inductive Event
  | probe (env : ProbeEnv) (iface : Iface)
  | disconnect (iface : IfaceId)

/-- An interface is probed while it is not bound; a probe that returns 0 binds it, and a bound
one is disconnected. -/
def step (s : Driver) : Event → Option Driver
  | .probe env iface =>
    if iface.id ∈ s.bound then none
    else
      let r := mscProbe env iface s.umas
      some ⟨r.2, if r.1 = 0 then iface.id :: s.bound else s.bound⟩
  | .disconnect iface =>
    if iface ∈ s.bound then some ⟨mscDisconnect iface s.umas, s.bound.erase iface⟩ else none

end Ma35d1.UsbHost.Msc
