import Mathlib.Data.BitVec

/-!
# What the drivers share

The return codes of `usbh_lib.h` and the structures of `usb.h` that the core and the
host controllers both read.
-/

namespace Ma35d1.UsbHost

abbrev Addr := Nat
abbrev Ptr := Option Addr
abbrev UtrId := Nat
abbrev DevId := Nat
abbrev IsoId := Nat

/-! ## Return codes -/

def usbhErrMemoryOut : Int := -10
def usbhErrIfAltLimit : Int := -11
def usbhErrIfEpLimit : Int := -15
def usbhErrInvalidParam : Int := -105
def usbhErrNotFound : Int := -106
def usbhErrDescriptor : Int := -137
def usbhErrTransfer : Int := -201
def usbhErrTimeout : Int := -203
def usbhErrAbort : Int := -205
def usbhErrTransaction : Int := -271
def usbhErrBabbleDetected : Int := -272
def usbhErrDataBuff : Int := -274
def usbhErrStall : Int := -284
def usbhErrBuffOverrun : Int := -292
def usbhErrNotAccess0 : Int := -294
def usbhErrNotAccess1 : Int := -295
def usbhErrOhciEpBusy : Int := -303
def usbhErrEhciQhBusy : Int := -503

/-! ## Devices, endpoints and transfer requests -/

inductive Speed
  | low | full | high
  deriving DecidableEq, Repr

/-- What the driver reads of a `HUB_DEV_T`: fields of `hub->iface->udev`. -/
structure Hub where
  speed : Speed
  portNum : BitVec 8
  devNum : BitVec 8

structure Udev where
  bMaxPacketSize0 : BitVec 8
  speed : Speed
  portNum : BitVec 8
  devNum : BitVec 8
  /-- the hubs above the device: `parent`, `parent->iface->udev->parent`, … -/
  parent : List Hub

/-- An `EP_INFO_T`: endpoint 0 of a device, or one of an alternate setting. -/
inductive EpId
  | ep0 (d : DevId)
  | alt (n : Nat)
  deriving DecidableEq, Repr

/-- `bToggle` and `hw_pipe` are maps of their own. -/
structure EpInfo where
  bEndpointAddress : BitVec 8
  bmAttributes : BitVec 8
  bInterval : Nat
  wMaxPacketSize : BitVec 16

/-- `bmAttributes & EP_ATTR_TT_MASK` -/
def EpInfo.xferType (e : EpInfo) : BitVec 8 := e.bmAttributes &&& 0x03#8

def epAttrTtCtrl : BitVec 8 := 0x00#8
def epAttrTtIso : BitVec 8 := 0x01#8
def epAttrTtBulk : BitVec 8 := 0x02#8
def epAttrTtInt : BitVec 8 := 0x03#8

/-- `(ep->bEndpointAddress & EP_ADDR_DIR_MASK) == EP_ADDR_DIR_OUT` -/
def EpInfo.isOut (e : EpInfo) : Bool := e.bEndpointAddress &&& 0x80#8 == 0#8

inductive HwPipe
  | null
  | qh (a : Addr)
  | isoEp (x : IsoId)
  | ed (a : Addr)
  deriving DecidableEq, Repr

structure DevReq where
  bmRequestType : BitVec 8
  bRequest : BitVec 8
  wValue : BitVec 16
  wIndex : BitVec 16
  wLength : BitVec 16

def ifPerUtr : Nat := 8

/-- A `UTR_T`; `ep` and `td_cnt` are maps of their own. -/
structure Utr where
  udev : DevId
  setup : DevReq
  /-- `&utr->setup` as the controller sees it -/
  setupAddr : BitVec 32
  buff : BitVec 32
  bIsTransferDone : Bool
  dataLen : BitVec 32
  xferLen : BitVec 32
  bIsoNewSched : Bool
  isoSf : Nat
  isoXlen : Nat → BitVec 16
  isoBuff : Nat → BitVec 32
  isoStatus : Nat → Int
  status : Int
  /-- whether the callback is set -/
  func : Bool

end Ma35d1.UsbHost
