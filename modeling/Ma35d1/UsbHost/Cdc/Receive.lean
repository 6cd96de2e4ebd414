import Mathlib.Data.List.Basic
import Ma35d1.UsbHost.Core.Lookup

/-!
# Receiving from a CDC device

The receive path of `cdc_core.c`: `usbh_cdc_start_to_receive_data` queues a bulk-in UTR and
`cdc_bulk_in_irq` is its completion. UTRs are named by the order of their allocation. The
receive callback belongs to the application; what it does here is the list of calls it makes
of `usbh_cdc_start_to_receive_data`.
-/

namespace Ma35d1.UsbHost.Cdc

abbrev FuncId := Nat

def usbhErrEpNotFound : Int := -107
def cdcRxBuffSize : Nat := 512

/-- What the receive path uses of a `CDC_DEV_T`. -/
structure CdcDev where
  /-- the endpoints of `iface_data`, when the device has one -/
  ifaceData : Option (List EpInfo)
  epRx : Option EpInfo
  rxFunc : Option FuncId
  utrRx : Option UtrId
  rxBusy : Bool

/-- The fields set in a receive UTR; its buffer is `rx_buff`. -/
structure RxUtr where
  ep : EpInfo
  dataLen : Nat

/-- A device, the receive UTRs allocated so far and those the controller has. -/
structure Receive where
  cdev : CdcDev
  next : UtrId
  utr : UtrId → Option RxUtr
  queued : List UtrId
  freed : List UtrId
  /-- the calls of the receive callback: function, bytes received -/
  received : List (FuncId × Nat)

/-- A call of `usbh_cdc_start_to_receive_data`: the callback given, whether `alloc_utr`
succeeds and what `usbh_bulk_xfer` returns. -/
structure StartCall where
  func : Option FuncId
  alloc : Bool
  ret : Int

def Receive.init (ifaceData : Option (List EpInfo)) : Receive :=
  ⟨⟨ifaceData, none, none, none, false⟩, 0, fun _ => none, [], [], []⟩

/-- The UTR of the endpoint `ep`. -/
def rxUtr (ep : EpInfo) : RxUtr :=
  let dataLen := ep.wMaxPacketSize.toNat
  ⟨ep, if cdcRxBuffSize < dataLen then cdcRxBuffSize else dataLen⟩

/-- The bulk-in endpoint, from `ep_rx` or looked up. -/
def Receive.rxEp (s : Receive) (eps : List EpInfo) : Option EpInfo :=
  match s.cdev.epRx with
  | some ep => some ep
  | none => ifaceFindEp eps 0 (epAddrDirIn ||| epAttrTtBulk)

/-- The end of `usbh_cdc_start_to_receive_data`, with a UTR allocated. -/
def Receive.submit (s : Receive) (ep : EpInfo) (func : FuncId) (ret : Int) : Int × Receive :=
  let utr := s.next
  let s := { s with
    next := utr + 1
    utr := Function.update s.utr utr (some (rxUtr ep))
    cdev := { s.cdev with rxFunc := some func, utrRx := some utr, rxBusy := true } }
  if ret < 0 then
    (ret, { s with
      freed := utr :: s.freed
      cdev := { s.cdev with utrRx := none, rxBusy := false } })
  else (0, { s with queued := utr :: s.queued })

/-- `usbh_cdc_start_to_receive_data` -/
def startToReceiveData (s : Receive) (c : StartCall) : Int × Receive :=
  match s.cdev.ifaceData with
  | none => (usbhErrNotFound, s)
  | some eps =>
    match c.func with
    | none => (usbhErrInvalidParam, s)
    | some func =>
      match s.rxEp eps with
      | none => (usbhErrEpNotFound, s)
      | some ep =>
        let s := { s with cdev := { s.cdev with epRx := some ep } }
        if c.alloc = false then (usbhErrMemoryOut, s) else s.submit ep func c.ret

/-- The calls the callback makes. -/
def Receive.calls (s : Receive) (cs : List StartCall) : Receive :=
  cs.foldl (fun s c => (startToReceiveData s c).2) s

/-- `cdc_bulk_in_irq` of `utr`, whose callback makes the calls `cs` -/
def bulkInIrq (s : Receive) (utr : UtrId) (status : Int) (xferLen : Nat) (cs : List StartCall) :
    Receive :=
  if status ≠ 0 then s
  else
    let s :=
      match s.cdev.rxFunc with
      | none => s
      | some f => { s with received := (f, xferLen) :: s.received }.calls cs
    { s with
      freed := utr :: s.freed
      cdev := { s.cdev with utrRx := none, rxBusy := false } }

inductive Event
  /-- a call from the task -/
  | start (c : StartCall)
  /-- the controller is done with a UTR -/
  | complete (utr : UtrId) (status : Int) (xferLen : Nat) (cs : List StartCall)

/-- The controller completes only what it has. -/
def step (s : Receive) : Event → Option Receive
  | .start c => some (startToReceiveData s c).2
  | .complete utr status xferLen cs =>
    if utr ∈ s.queued then
      some (bulkInIrq { s with queued := s.queued.erase utr } utr status xferLen cs)
    else none

end Ma35d1.UsbHost.Cdc
