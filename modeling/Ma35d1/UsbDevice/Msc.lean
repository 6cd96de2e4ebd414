import Ma35d1.UsbDevice.Answers

/-!
# The mass storage device

The descriptors and the class requests of the mass storage sample.
-/

namespace Ma35d1.UsbDevice

/-! ## Descriptors -/

def gu8DeviceDescriptor : List (BitVec 8) :=
  [18, 0x01, 0x00, 0x02, 0x00, 0x00, 0x00, 64, 0x16, 0x04, 0x70, 0x04, 0x00, 0x00, 0x01, 0x02,
    0x03, 0x01]

def gu8QualifierDescriptor : List (BitVec 8) :=
  [10, 0x06, 0x00, 0x02, 0x00, 0x00, 0x00, 64, 0x01, 0x00]

/-- A configuration descriptor of the given type whose bulk endpoints take packets of the given
size. -/
def mscConfig (type : BitVec 8) (maxPkt : BitVec 16) : List (BitVec 8) :=
  [9, type, 32, 0x00, 0x01, 0x01, 0x00, 0x80, 50, 9, 0x04, 0x00, 0x00, 0x02, 0x08, 0x05, 0x50,
    0x00, 7, 0x05, 0x81, 0x02, maxPkt.setWidth 8, (maxPkt >>> 8).setWidth 8, 0x00, 7, 0x05, 0x01,
    0x02, maxPkt.setWidth 8, (maxPkt >>> 8).setWidth 8, 0x00]

def gu8ConfigDescriptor : List (BitVec 8) := mscConfig 0x02 512

def gu8OtherConfigDescriptorHS : List (BitVec 8) := mscConfig 0x07 64

def gu8ConfigDescriptorFS : List (BitVec 8) := mscConfig 0x02 64

def gu8OtherConfigDescriptorFS : List (BitVec 8) := mscConfig 0x07 512

/-- A string descriptor of ASCII characters. -/
def asciiString (s : List (BitVec 8)) : List (BitVec 8) :=
  BitVec.ofNat 8 (2 * s.length + 2) :: 0x03 :: s.flatMap fun c => [c, 0]

def gpu8UsbString : List (List (BitVec 8)) :=
  [[4, 0x03, 0x09, 0x04],
    -- "Nuvoton"
    asciiString [0x4e, 0x75, 0x76, 0x6f, 0x74, 0x6f, 0x6e],
    -- "USB Device"
    asciiString [0x55, 0x53, 0x42, 0x20, 0x44, 0x65, 0x76, 0x69, 0x63, 0x65],
    -- "A00020141104"
    asciiString [0x41, 0x30, 0x30, 0x30, 0x32, 0x30, 0x31, 0x34, 0x31, 0x31, 0x30, 0x34]]

/-- The device has no HID interface. -/
def gsHSInfo : Info where
  devDesc := gu8DeviceDescriptor
  configDesc := gu8ConfigDescriptor
  stringDesc := gpu8UsbString
  qualDesc := gu8QualifierDescriptor
  fullConfigDesc := gu8ConfigDescriptorFS
  hsOtherConfigDesc := gu8OtherConfigDescriptorHS
  fsOtherConfigDesc := gu8OtherConfigDescriptorFS
  hidReportDesc := [[], [], []]
  hidReportSize := [0, 0, 0]
  configHidDescIdx := [0, 0, 0]

theorem gsHSInfo_ok : InfoOk gsHSInfo where
  devDesc := by decide
  qualDesc := by decide
  config := by decide
  strings := by decide
  reports := by decide
  hids := by decide

/-! ## Class requests -/

/-- `MSC_ClassRequest`, as far as endpoint 0 goes -/
def mscClassRequest (cmd : UsbCmd) (s : Ep0) : Ep0 :=
  if cmd.isIn then
    -- GET_MAX_LUN
    if cmd.bRequest = 0xfe ∧ cmd.wValue = 0 ∧ cmd.wIndex = 0 ∧ cmd.wLength = 1 then
      s.prepareCtrlIn (.ofCallback 4) 0 1
    else s.setStall 0
  -- BULK_ONLY_MASS_STORAGE_RESET
  else if cmd.bRequest = 0xff ∧ cmd.wValue = 0 ∧ cmd.wIndex = 0 ∧ cmd.wLength = 0 then
    { s.sendZero with epStallLock := 0 }
  else s.setStall 0

/-- What `HSUSBD_Open` registers; there is no vendor request. -/
def mscCallbacks : Callbacks where
  classReq := some mscClassRequest
  vendorReq := none
  setInterface := none

/-- Every class request is answered. -/
theorem mscClassRequest_proper (info : Info) {cmd : UsbCmd} {s : Ep0}
    (htype : (cmd.bmRequestType &&& 0x60).toNat = 0x20) (hs : s.stalled = false)
    (hf : s.fault = false) : Proper info cmd (mscClassRequest cmd s) := by
  unfold mscClassRequest
  split
  · rename_i hin
    split
    · rename_i hreq
      obtain ⟨-, -, -, hlen⟩ := hreq
      refine .inl ⟨prepareCtrlIn_dataIn hs hf ?_ (show 0 + 1 ≤ 4 by decide) fun h => ?_, ?_⟩
      · rw [hlen]
        decide
      · -- a class request names no object
        rw [h] at htype
        exact absurd htype (by decide)
      · rw [UsbCmd.inData, hin, hlen]
        rfl
    · exact .inr (.inr (setStall_stalled hf rfl))
  · rename_i hout
    split
    · refine .inr (.inl ⟨⟨rfl, hs, hf, _, _, rfl⟩, ?_⟩)
      rw [UsbCmd.inData, Bool.eq_false_iff.mpr hout, Bool.false_and]
    · exact .inr (.inr (setStall_stalled hf rfl))

theorem mscClassRequest_kept (info : Info) {cmd : UsbCmd} {s : Ep0}
    (htype : (cmd.bmRequestType &&& 0x60).toNat = 0x20) (hs : s.stalled = false)
    (hf : s.fault = false) : RequestKept info mscCallbacks s cmd := by
  unfold RequestKept
  simp only [htype]
  exact ⟨mscClassRequest, rfl, mscClassRequest_proper info htype hs hf⟩

end Ma35d1.UsbDevice
