import Mathlib.Data.BitVec
import Mathlib.Logic.Function.Basic

/-!
# The control endpoint of the device

The HSUSBD driver as far as endpoint 0 goes: the decoder behind `HSUSBD_ProcessSetupPacket` and
the states that `HSUSBD_IRQHandler` moves through. The objects that an IN descriptor may point
at have names, and a table is read only where it has an entry.
-/

namespace Ma35d1.UsbDevice

/-- `E_EP0_STATE` -/
inductive Ep0State
  | waitForSetup | dataStateXmit | dataStateNeedZlp | waitForOutStatus | dataStateRecv
  | waitForComplete | waitForOutComplete | waitForInComplete | waitForNullComplete
  deriving DecidableEq

/-- `S_HSUSBD_CMD_T` -/
structure UsbCmd where
  bmRequestType : BitVec 8
  bRequest : BitVec 8
  wValue : BitVec 16
  wIndex : BitVec 16
  wLength : BitVec 16
  deriving DecidableEq

/-- The copy of a SETUP packet to `gUsbCmd`. -/
def UsbCmd.ofPacket (b : Fin 8 → BitVec 8) : UsbCmd :=
  ⟨b 0, b 1, b 3 ++ b 2, b 5 ++ b 4, b 7 ++ b 6⟩

/-- The request is from device to host. -/
def UsbCmd.isIn (cmd : UsbCmd) : Bool := cmd.bmRequestType &&& 0x80 == 0x80

/-- What an IN descriptor points into. -/
inductive Obj
  | devDesc | configDesc | qualDesc | fullConfigDesc | hsOtherConfigDesc | fsOtherConfigDesc
  | stringDesc (i : Nat)
  | hidReportDesc (i : Nat)
  /-- `g_hsusbd_UsbConfig`, `g_hsusbd_UsbAltInterface` and `g_hsusbd_buf` -/
  | usbConfig | usbAltInterface | buf
  | ep0BufIn
  /-- an object of a callback -/
  | ofCallback (size : Nat)
  deriving DecidableEq

/-- `S_HSUSBD_INFO_T`; a report descriptor that is `NULL` is empty. -/
structure Info where
  devDesc : List (BitVec 8)
  configDesc : List (BitVec 8)
  stringDesc : List (List (BitVec 8))
  qualDesc : List (BitVec 8)
  fullConfigDesc : List (BitVec 8)
  hsOtherConfigDesc : List (BitVec 8)
  fsOtherConfigDesc : List (BitVec 8)
  hidReportDesc : List (List (BitVec 8))
  hidReportSize : List Nat
  configHidDescIdx : List Nat

def Info.size (info : Info) : Obj → Nat
  | .devDesc => info.devDesc.length
  | .configDesc => info.configDesc.length
  | .qualDesc => info.qualDesc.length
  | .fullConfigDesc => info.fullConfigDesc.length
  | .hsOtherConfigDesc => info.hsOtherConfigDesc.length
  | .fsOtherConfigDesc => info.fsOtherConfigDesc.length
  | .stringDesc i => (info.stringDesc.getD i []).length
  | .hidReportDesc i => (info.hidReportDesc.getD i []).length
  | .usbConfig | .usbAltInterface | .buf => 4
  | .ep0BufIn => 192
  | .ofCallback size => size

/-- The IN descriptor at `DIEPDMA`. -/
structure InDesc where
  obj : Obj
  off : Nat
  len : Nat
  deriving DecidableEq

/-- The OUT descriptor at `DOEPDMA`: `ddma_ep0_out[0]` or `ddma_ep0_out[1]` -/
inductive OutDesc
  | setup | status
  deriving DecidableEq

structure Ep0 where
  gEp0State : Ep0State
  /-- the descriptors of the endpoint, while it is enabled -/
  out : Option OutDesc
  inDesc : Option InDesc
  /-- the Stall bits of `DIEPCTL` and `DOEPCTL` -/
  inStall : Nat → Bool
  outStall : Nat → Bool
  /-- `DSTS` says high speed -/
  highSpeed : Bool
  devAddr : BitVec 16
  testControl : BitVec 8
  usbConfig : BitVec 8
  usbAltInterface : BitVec 8
  buf : BitVec 8 × BitVec 8
  remoteWakeupEn : Bool
  enableTestMode : Bool
  testSelector : BitVec 8
  configured : Bool
  resetAvailable : Bool
  /-- `g_u32EpStallLock` -/
  epStallLock : BitVec 32
  /-- a table was read where it has no entry -/
  fault : Bool

structure Callbacks where
  classReq : Option (UsbCmd → Ep0 → Ep0)
  vendorReq : Option (UsbCmd → Ep0 → Ep0)
  setInterface : Option (BitVec 8 → Ep0 → Ep0)

/-! ## Answers -/

/-- `HSUSBD_PreSetup` -/
def Ep0.preSetup (s : Ep0) : Ep0 := { s with out := some .setup }

/-- `HSUSBD_EP0_CompleteOut` -/
def Ep0.completeOut (s : Ep0) : Ep0 := { s with out := some .status }

/-- `HSUSBD_PrepareCtrlIn` -/
def Ep0.prepareCtrlIn (s : Ep0) (obj : Obj) (off len : Nat) : Ep0 :=
  { s with inDesc := some ⟨obj, off, len⟩, gEp0State := .waitForComplete }

/-- `HSUSBD_EP0_SendZero` -/
def Ep0.sendZero (s : Ep0) : Ep0 :=
  { s with inDesc := some ⟨.ep0BufIn, 0, 0⟩, gEp0State := .waitForInComplete }

/-- `HSUSBD_SetStall` -/
def Ep0.setStall (s : Ep0) (value : BitVec 16) : Ep0 :=
  let n := (value &&& 0xf).toNat
  let s :=
    if value &&& 0xf0 = 0x80 then
      { s with
        inStall := Function.update s.inStall n true
        inDesc := if n = 0 then none else s.inDesc }
    else if value = 0 then
      { s with
        inStall := Function.update s.inStall n true
        outStall := Function.update s.outStall n true }
    else { s with outStall := Function.update s.outStall n true }
  if n = 0 then { s with gEp0State := .waitForSetup }.preSetup else s

/-- `HSUSBD_ClearStall` -/
def Ep0.clearStall (s : Ep0) (value : BitVec 16) : Ep0 :=
  let n := (value &&& 0xf).toNat
  if value &&& 0xf0 = 0x80 then { s with inStall := Function.update s.inStall n false }
  else { s with outStall := Function.update s.outStall n false }

/-- `HSUSBD_GetStall` -/
def Ep0.getStall (s : Ep0) (value : BitVec 16) : Bool :=
  let n := (value &&& 0xf).toNat
  if value &&& 0xf0 = 0x80 then s.inStall n else s.outStall n

def Ep0.setFault (s : Ep0) : Ep0 := { s with fault := true }

/-! ## Requests -/

/-- A configuration descriptor, with the total length that it says it has. -/
def Ep0.configIn (s : Ep0) (cmd : UsbCmd) (obj : Obj) (desc : List (BitVec 8)) : Ep0 :=
  match desc[2]?, desc[3]? with
  | some lo, some hi =>
    s.prepareCtrlIn obj 0 (min cmd.wLength.toNat (lo.toNat + hi.toNat * 2 ^ 8))
  | _, _ => s.setFault

/-- `HSUSBD_GetDescriptor` -/
def Ep0.getDescriptor (s : Ep0) (info : Info) (cmd : UsbCmd) : Ep0 :=
  let len := cmd.wLength.toNat
  let entry := (cmd.wIndex &&& 0xff).toNat
  match ((cmd.wValue &&& 0xff00) >>> 8).toNat with
  | 0x01 => s.prepareCtrlIn .devDesc 0 (min len 18)
  | 0x02 =>
    if s.highSpeed then s.configIn cmd .configDesc info.configDesc
    else s.configIn cmd .fullConfigDesc info.fullConfigDesc
  | 0x06 => s.prepareCtrlIn .qualDesc 0 (min len 10)
  | 0x07 =>
    if s.highSpeed then s.configIn cmd .hsOtherConfigDesc info.hsOtherConfigDesc
    else s.configIn cmd .fsOtherConfigDesc info.fsOtherConfigDesc
  | 0x21 =>
    match info.configHidDescIdx[entry]? with
    | some off => s.prepareCtrlIn .configDesc off (min len 9)
    | none => s.setFault
  | 0x22 =>
    match info.hidReportSize[entry]?, info.hidReportDesc[entry]? with
    | some size, some _ => s.prepareCtrlIn (.hidReportDesc entry) 0 (min len size)
    | _, _ => s.setFault
  | 0x03 =>
    let i := (cmd.wValue &&& 0xff).toNat
    if i < 8 then
      match (info.stringDesc[i]?).bind (·[0]?) with
      | some n => s.prepareCtrlIn (.stringDesc i) 0 (min len n.toNat)
      | none => s.setFault
    else s.setStall 0
  | _ => s.setStall 0

/-- GET_STATUS -/
def Ep0.getStatus (s : Ep0) (info : Info) (cmd : UsbCmd) : Ep0 :=
  if cmd.bmRequestType = 0x80 then
    match info.configDesc[7]? with
    | none => s.setFault
    | some attributes =>
      let power : BitVec 8 := if attributes &&& 0x40 = 0x40 then 1 else 0
      let wakeup : BitVec 8 := if attributes &&& 0x20 = 0x20 ∧ s.remoteWakeupEn then 2 else 0
      { s with buf := (power ||| wakeup, 0) }.prepareCtrlIn .buf 0 2
  else if cmd.bmRequestType = 0x81 then { s with buf := (0, 0) }.prepareCtrlIn .buf 0 2
  else if cmd.bmRequestType = 0x82 then
    { s with buf := (if s.getStall cmd.wIndex then 1 else 0, 0) }.prepareCtrlIn .buf 0 2
  else { s with buf := (s.buf.1, 0) }.prepareCtrlIn .buf 0 2

/-- CLEAR_FEATURE -/
def Ep0.clearFeature (s : Ep0) (cmd : UsbCmd) : Ep0 :=
  if cmd.wValue &&& 0xff = 0 then
    let epNum := cmd.wIndex &&& 0xf
    if epNum = 0 then s.setStall cmd.wIndex
    else if s.epStallLock &&& epNum.setWidth 32 = 0 then (s.clearStall cmd.wIndex).sendZero
    else s.sendZero
  else if cmd.wValue &&& 0xff = 1 then { s with remoteWakeupEn := false }.sendZero
  else s.sendZero

/-- SET_FEATURE, once an endpoint that is named has been halted -/
def Ep0.setFeatureRest (s : Ep0) (cmd : UsbCmd) : Ep0 :=
  let s := if cmd.wValue &&& 0x3 = 2 then
    { s with enableTestMode := true, testSelector := (cmd.wIndex >>> 8).setWidth 8 } else s
  let s := if cmd.wValue &&& 1 = 1 then { s with remoteWakeupEn := true } else s
  s.sendZero

/-- SET_FEATURE -/
def Ep0.setFeature (s : Ep0) (cmd : UsbCmd) : Ep0 :=
  if cmd.wValue = 0 then
    if cmd.wIndex &&& 0xf = 0 then s.setStall cmd.wIndex
    else (s.setStall cmd.wIndex).setFeatureRest cmd
  else s.setFeatureRest cmd

/-- SET_CONFIGURATION -/
def Ep0.setConfiguration (s : Ep0) (cmd : UsbCmd) : Ep0 :=
  { s with
    resetAvailable := s.resetAvailable || cmd.bmRequestType == 0
    usbConfig := cmd.wValue.setWidth 8
    configured := true }.sendZero

/-- SET_INTERFACE -/
def Ep0.setInterface (s : Ep0) (cb : Callbacks) (cmd : UsbCmd) : Ep0 :=
  let s := { s with
    resetAvailable := s.resetAvailable || cmd.bmRequestType == 1
    usbAltInterface := cmd.wValue.setWidth 8 }
  match cb.setInterface with
  | some f => (f s.usbAltInterface s).sendZero
  | none => s.sendZero

/-- `HSUSBD_StandardRequest` -/
def Ep0.standardRequest (s : Ep0) (info : Info) (cb : Callbacks) (cmd : UsbCmd) : Ep0 :=
  if cmd.isIn then
    match cmd.bRequest.toNat with
    | 0x08 => s.prepareCtrlIn .usbConfig 0 1
    | 0x06 => s.getDescriptor info cmd
    | 0x0a => s.prepareCtrlIn .usbAltInterface 0 1
    | 0x00 => s.getStatus info cmd
    | _ => s.setStall 0
  else
    match cmd.bRequest.toNat with
    | 0x01 => s.clearFeature cmd
    | 0x05 => if cmd.bmRequestType ≠ 0 then s else { s with devAddr := cmd.wValue }.sendZero
    | 0x09 => s.setConfiguration cmd
    | 0x03 => s.setFeature cmd
    | 0x0b => s.setInterface cb cmd
    | _ => s.setStall 0

/-- A class or vendor request, by its callback if there is one. -/
def Ep0.callbackRequest (s : Ep0) (f : Option (UsbCmd → Ep0 → Ep0)) (cmd : UsbCmd) : Ep0 :=
  match f with
  | some f => f cmd s
  | none => s

/-- `HSUSBD_ProcessSetupPacket` -/
def Ep0.processSetupPacket (s : Ep0) (info : Info) (cb : Callbacks) (cmd : UsbCmd) : Ep0 :=
  match (cmd.bmRequestType &&& 0x60).toNat with
  | 0x00 => s.standardRequest info cb cmd
  | 0x20 => s.callbackRequest cb.classReq cmd
  | 0x40 => s.callbackRequest cb.vendorReq cmd
  | _ => s.setStall 0

/-! ## Interrupts -/

/-- `HSUSBD_EP0_CompleteTx` -/
def Ep0.completeTx (s : Ep0) : Ep0 :=
  match s.gEp0State with
  | .waitForNullComplete => { s with gEp0State := .waitForOutComplete }.completeOut
  | .dataStateXmit => { s with gEp0State := .waitForComplete }
  | .waitForInComplete =>
    { s with
      testControl := if s.enableTestMode then s.testSelector else s.testControl
      gEp0State := .waitForSetup }
  | .waitForComplete => { s with gEp0State := .waitForOutComplete }.completeOut
  | _ => s

/-- `HSUSBD_EP0_CompleteRx` -/
def Ep0.completeRx (s : Ep0) : Ep0 := if s.gEp0State = .dataStateRecv then s.sendZero else s

/-- `HSUSBD_IRQHandler` for XferCompl of the IN endpoint -/
def Ep0.inIrq (s : Ep0) : Ep0 :=
  let s := s.completeTx
  let s := if s.gEp0State = .waitForInComplete then { s with gEp0State := .waitForSetup } else s
  if s.gEp0State = .waitForSetup then s.preSetup else s

/-- `HSUSBD_IRQHandler` for the OUT endpoint, with SetUp or XferCompl or both -/
def Ep0.outIrq (s : Ep0) (info : Info) (cb : Callbacks) (setUp : Option UsbCmd) (xferCompl : Bool) :
    Ep0 :=
  let s := match setUp with
    | some cmd => if s.gEp0State = .waitForSetup then s.processSetupPacket info cb cmd else s
    | none => s
  if xferCompl then
    if s.gEp0State ≠ .waitForOutComplete then s.completeRx
    else { s with gEp0State := .waitForSetup }.preSetup
  else s

end Ma35d1.UsbDevice
