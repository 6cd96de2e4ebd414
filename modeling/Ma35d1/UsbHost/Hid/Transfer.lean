import Mathlib.Logic.Function.Basic
import Ma35d1.UsbHost.Core.Lookup
import Ma35d1.UsbHost.Hid.Parser

/-!
# The interrupt transfers of a HID device

The slots of `utr_list` belong to the task: `usbh_hid_start_int_read` and its like fill one,
`usbh_hid_stop_int_read` and its like empty one, `hid_disconnect` takes them all. The
completion handlers submit their UTR again, and free it where that fails. One call of the task
is made at a time; a handler runs between any two steps of it, and as no handler looks at
`utr_list`, one that runs before a slot is filled is as good as one that runs behind.
-/

namespace Ma35d1.UsbHost.Hid

abbrev FuncId := Nat

def usbhErrEpNotFound : Int := -107
def hidRetDevNotFound : Int := -1081
def hidRetXferIsRunning : Int := -1089

def configHidDevMaxPipe : Nat := 16
def configHidRtpMaxLen : Nat := 256
def epAddrDirOut : BitVec 8 := 0x00#8

/-- A block of memory. A UTR and the buffer allocated with it have the same number. -/
inductive Blk
  | utr (n : Nat)
  | buff (n : Nat)
  deriving DecidableEq, Repr

def Blk.num : Blk → Nat
  | utr n => n
  | buff n => n

inductive IrqFunc
  | hidReadIrq | hidWriteIrq | ledCtrlIrq
  deriving DecidableEq, Repr

/-- The fields set in a UTR. -/
structure HidUtr where
  func : IrqFunc
  ep : Option EpInfo
  dataLen : Nat

/-- A UTR behind `usbh_quit_utr` that the call under way frees next, with the size its buffer
is freed with. -/
structure InHand where
  utr : UtrId
  buff : Option Nat
  deriving DecidableEq, Repr

/-- How far `hid_disconnect` is. -/
inductive Phase
  | running
  /-- the slots are being emptied -/
  | slots
  /-- the UTR for the LEDs is looked at -/
  | led
  deriving DecidableEq, Repr

/-- A `HID_DEV_T`, its memory and what the controller has. -/
structure Transfers where
  /-- the endpoints of the interface -/
  eps : List EpInfo
  /-- `bSubClassCode` and `bProtocolCode` are those of a boot keyboard -/
  keyboard : Bool
  readFunc : Option FuncId
  writeFunc : Option FuncId
  utrList : List (Option UtrId)
  utrLed : Option UtrId
  /-- `utr_led->bIsTransferDone` -/
  ledDone : Bool
  phase : Phase
  hand : List InHand
  next : Nat
  /-- the size a buffer was allocated with -/
  size : Nat → Nat
  utr : UtrId → Option HidUtr
  /-- the transfers of the controller: the UTR and the buffer it uses -/
  owned : List (UtrId × Nat)
  allocated : List Blk
  freed : List Blk
  /-- the buffers freed with another number of units than they have -/
  misfreed : List Nat

namespace Transfers

def init (eps : List EpInfo) (keyboard : Bool) : Transfers where
  eps := eps
  keyboard := keyboard
  readFunc := none
  writeFunc := none
  utrList := List.replicate configHidDevMaxPipe none
  utrLed := none
  ledDone := false
  phase := .running
  hand := []
  next := 0
  size := fun _ => 0
  utr := fun _ => none
  owned := []
  allocated := []
  freed := []
  misfreed := []

/-- `usbh_alloc_mem(size)` for a buffer -/
def newBuff (s : Transfers) (n size : Nat) : Transfers :=
  { s with next := n + 1, allocated := .buff n :: s.allocated, size := Function.update s.size n size }

/-- `alloc_utr` -/
def newUtr (s : Transfers) (n : Nat) : Transfers :=
  { s with next := n + 1, allocated := .utr n :: s.allocated }

/-- `usbh_free_mem(utr->buff, size)` -/
def freeBuff (s : Transfers) (n size : Nat) : Transfers :=
  { s with
    freed := .buff n :: s.freed
    misfreed := if DmaPool.wanted size = DmaPool.wanted (s.size n) then s.misfreed
      else n :: s.misfreed }

/-- `free_utr` -/
def freeUtr (s : Transfers) (n : Nat) : Transfers := { s with freed := .utr n :: s.freed }

def setUtr (s : Transfers) (n : UtrId) (r : HidUtr) : Transfers :=
  { s with utr := Function.update s.utr n (some r) }

/-- The controller takes the transfer of a UTR with a buffer. -/
def queue (s : Transfers) (u n : Nat) : Transfers := { s with owned := (u, n) :: s.owned }

/-! ## Slots -/

/-- `get_free_utr_slot` -/
def freeSlot (s : Transfers) : Option Nat := s.utrList.findIdx? Option.isNone

/-- The slot holds a UTR of an endpoint with `p`. -/
def slotHas (s : Transfers) (p : EpInfo → Bool) : Option UtrId → Bool
  | none => false
  | some u => ((s.utr u).bind HidUtr.ep).any p

/-- `utr->ep->wMaxPacketSize` -/
def epLen (s : Transfers) (u : UtrId) : Nat :=
  (((s.utr u).bind HidUtr.ep).map fun ep => ep.wMaxPacketSize.toNat).getD 0

def setSlot (s : Transfers) (i : Nat) (x : Option UtrId) : Transfers :=
  { s with utrList := s.utrList.set i x }

/-! ## Start and stop -/

/-- A call of `usbh_hid_start_int_read` or `usbh_hid_start_int_write`: what is given, whether
the allocations succeed, what the first call of the write callback makes of `data_len`, and
what `usbh_int_xfer` returns. -/
structure StartCall where
  epAddr : BitVec 8
  func : Option FuncId
  allocUtr : Bool
  allocBuff : Bool
  dataLen : Nat
  ret : Int

/-- From `usbh_int_xfer` on, for the UTR `n`. -/
def submit (s : Transfers) (n : UtrId) (dataLen : Nat) (ret : Int) : Int × Transfers :=
  if ret < 0 then (hidRetIoErr, (s.freeBuff n dataLen).freeUtr n)
  else
    match s.freeSlot with
    | none => (usbhErrMemoryOut, { s.queue n n with hand := [⟨n, some dataLen⟩] })
    | some i => (0, (s.queue n n).setSlot i (some n))

/-- The two start functions differ in the direction looked for, the callback set and whether
it is called for the first packet. -/
def startInt (irq : IrqFunc) (dir : BitVec 8) (setFunc : FuncId → Transfers → Transfers)
    (dataLen : EpInfo → Nat) (s : Transfers) (c : StartCall) : Int × Transfers :=
  match c.func with
  | none => (hidRetInvalidParameter, s)
  | some func =>
    if s.utrList.any (s.slotHas fun ep => ep.bEndpointAddress == c.epAddr) then
      (hidRetXferIsRunning, s)
    else
      match ifaceFindEp s.eps c.epAddr (if c.epAddr = 0 then dir ||| epAttrTtInt else 0) with
      | none => (usbhErrEpNotFound, s)
      | some ep =>
        if c.allocUtr = false then (usbhErrMemoryOut, s)
        else
          let n := s.next
          let s := s.newUtr n
          if c.allocBuff = false then (usbhErrMemoryOut, s.freeUtr n)
          else
            let s := setFunc func ((s.newBuff n ep.wMaxPacketSize.toNat).setUtr n
              ⟨irq, some ep, dataLen ep⟩)
            s.submit n (dataLen ep) c.ret

def usbhHidStartIntRead (s : Transfers) (c : StartCall) : Int × Transfers :=
  startInt .hidReadIrq epAddrDirIn (fun f s => { s with readFunc := some f })
    (fun ep => ep.wMaxPacketSize.toNat) s c

def usbhHidStartIntWrite (s : Transfers) (c : StartCall) : Int × Transfers :=
  startInt .hidWriteIrq epAddrDirOut (fun f s => { s with writeFunc := some f })
    (fun _ => c.dataLen) s c

/-- The two stop functions differ in the direction looked for. What they return is what
`usbh_quit_utr` does, `quit`. -/
def stopInt (dir : BitVec 8) (s : Transfers) (epAddr : BitVec 8) (quit : Int) : Int × Transfers :=
  let p : EpInfo → Bool := fun ep =>
    if epAddr = 0 then ep.bEndpointAddress &&& epAddrDirMask == dir
    else ep.bEndpointAddress == epAddr
  match s.utrList.findIdx? (s.slotHas p) with
  | none => (hidRetDevNotFound, s)
  | some i =>
    match s.utrList.getD i none with
    | none => (hidRetDevNotFound, s)
    | some u => (quit, { s.setSlot i none with hand := [⟨u, some (s.epLen u)⟩] })

def usbhHidStopIntRead (s : Transfers) (epAddr : BitVec 8) (quit : Int) : Int × Transfers :=
  stopInt epAddrDirIn s epAddr quit

def usbhHidStopIntWrite (s : Transfers) (epAddr : BitVec 8) (quit : Int) : Int × Transfers :=
  stopInt epAddrDirOut s epAddr quit

/-! ## The LEDs -/

/-- A call of `usbh_hid_set_report_non_blocking`: whether the allocations succeed and what
`ctrl_xfer` returns. -/
structure LedCall where
  allocBuff : Bool
  allocUtr : Bool
  ret : Int

/-- From the setup packet on, with the UTR `u` and the buffer `n`. -/
def sendLed (s : Transfers) (u n : Nat) (ret : Int) : Int × Transfers :=
  let s := { s.setUtr u ⟨.ledCtrlIrq, none, 1⟩ with ledDone := false }
  if ret < 0 then (ret, s.freeBuff n configHidRtpMaxLen)
  else (0, (s.queue u n).freeBuff n configHidRtpMaxLen)

def usbhHidSetReportNonBlocking (s : Transfers) (c : LedCall) : Int × Transfers :=
  if c.allocBuff = false then (usbhErrMemoryOut, s)
  else
    let n := s.next
    let s := s.newBuff n configHidRtpMaxLen
    match s.utrLed with
    | none =>
      if c.allocUtr = false then (usbhErrMemoryOut, s)
      else sendLed { s.newUtr n with utrLed := some n } n n c.ret
    | some u => if s.ledDone = false then (hidRetIoErr, s) else sendLed s u n c.ret

/-! ## Handlers -/

/-- `utr->data_len` -/
def dataLen (s : Transfers) (u : UtrId) : Nat := ((s.utr u).map HidUtr.dataLen).getD 0

/-- `hid_read_irq` of `u`, where a keyboard report may update the LEDs with `led` and the
transfer is submitted again with `ret`. -/
def hidReadIrq (s : Transfers) (u : UtrId) (status : Int) (led : Option LedCall) (ret : Int) :
    Transfers :=
  if status ≠ 0 then s
  else
    let s :=
      match s.keyboard, led with
      | true, some c => (usbhHidSetReportNonBlocking s c).2
      | _, _ => s
    if ret ≠ 0 then (s.freeBuff u (s.dataLen u)).freeUtr u else s.queue u u

/-- `hid_write_irq` of `u`, where the callback leaves `dataLen` -/
def hidWriteIrq (s : Transfers) (u : UtrId) (status : Int) (dataLen : Nat) (ret : Int) :
    Transfers :=
  if status ≠ 0 then s
  else
    let s :=
      match s.writeFunc, s.utr u with
      | some _, some r => s.setUtr u { r with dataLen := dataLen }
      | _, _ => s
    if ret ≠ 0 then s.freeUtr u else s.queue u u

def ledCtrlIrq (s : Transfers) : Transfers := { s with ledDone := true }

/-! ## Steps -/

/-- `hid_disconnect` takes the UTRs of the slots, to quit and free one after the other. -/
def hidDisconnect (s : Transfers) : Transfers :=
  { s with
    phase := .slots
    utrList := s.utrList.map fun _ => none
    hand := s.utrList.filterMap fun x => x.map fun u => ⟨u, some (s.epLen u)⟩ }

/-- `usbh_free_mem(utr->buff, ..)` and `free_utr(utr)` -/
def freeHand (s : Transfers) (h : InHand) : Transfers :=
  match h.buff with
  | none => s.freeUtr h.utr
  | some size => (s.freeBuff h.utr size).freeUtr h.utr

end Transfers

inductive Event
  | startRead (c : Transfers.StartCall)
  | startWrite (c : Transfers.StartCall)
  | stopRead (epAddr : BitVec 8) (quit : Int)
  | stopWrite (epAddr : BitVec 8) (quit : Int)
  /-- the call under way goes on behind `usbh_quit_utr` -/
  | free
  /-- the controller is done with a transfer -/
  | complete (u : UtrId) (n : Nat) (status : Int) (led : Option Transfers.LedCall) (dataLen : Nat)
      (ret : Int)
  | disconnect
  /-- `hid_disconnect` behind the slots -/
  | quitLed

namespace Transfers

/-- No call is under way. -/
def idle (s : Transfers) : Bool := s.phase = .running ∧ s.hand = []

/-- A call of the task, where none is under way. -/
def call (s t : Transfers) : Option Transfers := if s.idle then some t else none

/-- The handler of a UTR. -/
def irq (s : Transfers) (u : UtrId) (status : Int) (led : Option LedCall) (dataLen : Nat)
    (ret : Int) : IrqFunc → Transfers
  | .hidReadIrq => s.hidReadIrq u status led ret
  | .hidWriteIrq => s.hidWriteIrq u status dataLen ret
  | .ledCtrlIrq => s.ledCtrlIrq

def step (s : Transfers) : Event → Option Transfers
  | .startRead c => s.call (s.usbhHidStartIntRead c).2
  | .startWrite c => s.call (s.usbhHidStartIntWrite c).2
  | .stopRead epAddr quit => s.call (s.usbhHidStopIntRead epAddr quit).2
  | .stopWrite epAddr quit => s.call (s.usbhHidStopIntWrite epAddr quit).2
  | .free =>
    match s.hand with
    | [] => none
    | h :: hs => some ({ s with hand := hs }.freeHand h)
  | .complete u n status led dataLen ret =>
    if (u, n) ∈ s.owned then
      (s.utr u).map fun r =>
        { s with owned := s.owned.erase (u, n) }.irq u status led dataLen ret r.func
    else none
  | .disconnect => s.call s.hidDisconnect
  | .quitLed =>
    if s.phase = .slots ∧ s.hand = [] then
      some { s with
        phase := .led
        utrLed := none
        hand := s.utrLed.toList.map fun u => ⟨u, none⟩ }
    else none

end Transfers

end Ma35d1.UsbHost.Hid
