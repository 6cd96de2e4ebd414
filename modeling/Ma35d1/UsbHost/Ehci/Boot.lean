import Ma35d1.UsbHost.Ehci.Run

/-!
# Starting the driver

A machine before `ehci_init`, over given endpoints and devices, and the states that
calls and steps of the driver lead to from there.
-/

namespace Ma35d1.UsbHost.Ehci

open Relation

/-- Memory of a machine that runs nothing yet. -/
def bareMachine (ep : EpId → EpInfo) (udev : DevId → Udev) : Ehci where
  pool := { unit := fun _ => none, sidx := 0, hwMemUsedCnt := 0, usedCnt := fun _ => 0 }
  dma := { used := fun _ => false, usedCnt := 0 }
  hLink _ := .null
  qtdList _ := none
  doneList _ := none
  qhNext _ := none
  qtdNext _ := none
  tdNext _ _ := none
  schedFrnidx _ _ := 0
  tdList _ _ := none
  isoEpEp _ := .ep0 0
  nextFrame _ := 0
  isoEpNext _ := none
  hQh := 0
  ghostQtd := 0
  qhRemoveList := none
  pfList _ := .null
  iqh _ := 0
  isoEpList := none
  ep := ep
  hwPipe _ := .null
  insertedUnder _ := none
  qhHw _ := ⟨0, 0, .null, .null, .null, 0, fun _ => 0⟩
  qtdHw _ := ⟨.null, .null, fun _ => 0⟩
  token _ := 0
  qtdUtr _ := none
  qtdXferLen _ := 0
  qtdQh _ := none
  itdHw _ := ⟨fun _ => 0, fun _ => 0, 0, 0⟩
  sitdHw _ := ⟨0, 0, 0, fun _ => 0, .null⟩
  tdUtr _ _ := none
  tdFidx _ _ := 0
  udev := udev
  bToggle _ := false
  utr _ := ⟨0, ⟨0, 0, 0, 0, 0⟩, 0, 0, false, 0, 0, false, 0, fun _ => 0, fun _ => 0, fun _ => 0, 0, false⟩
  utrEp _ := none
  tdCnt _ := 0
  asen := false
  psen := false
  usbint := false
  ufindr := 0
  bell := ⟨false, false, 0, 0, none, fun _ => none, fun _ => false⟩
  trace := []

theorem bareMachine_boot {ep : EpId → EpInfo} (udev : DevId → Udev)
    (h : ∀ d, (ep (.ep0 d)).xferType = epAttrTtCtrl) : Boot (bareMachine ep udev) where
  pipe _ := rfl
  unit _ _ h := by cases h
  sidx := show 0 < hwMemUnitNum by decide
  ep0 := h
  trace := rfl
  iaa := rfl
  serving := rfl

/-- The state a call ends in. -/
def callResult {r : Int} (x : Option (Int × Ehci)) (h : x.map (·.1) = some r) : Ehci :=
  (x.get (by cases x with | none => cases h | some _ => rfl)).2

theorem callResult_eq {r : Int} {x : Option (Int × Ehci)} (h : x.map (·.1) = some r) :
    x = some (r, callResult x h) := by
  cases x with
  | none => cases h
  | some p =>
    obtain ⟨q, s⟩ := p
    obtain rfl : q = r := Option.some.inj h
    rfl

/-- The state behind `ehci_init`, where it succeeds. -/
def started (s : Ehci) : Option Ehci := (initRoots s).bind (hookedIqhs numIqh)

theorem started_initial {s s' : Ehci} (hb : Boot s) (h : started s = some s') : Initial s' :=
  ⟨s, hb, by rw [ehciInit_eq]; exact congrArg (Option.map fun s => ((0 : Int), s)) h⟩

theorem idleEnv_ok (own : Owner) : EnvOk own idleEnv := ⟨fun _ _ => .refl, fun _ => .refl⟩

theorem idleEnv_quiet : QuietEnv idleEnv := ⟨fun _ _ => rfl, fun _ => .refl⟩

/-! ## A machine with one endpoint of each kind -/

/-- Endpoint 0 of every device, and bulk OUT, bulk IN, interrupt IN and isochronous IN. -/
def sampleEp : EpId → EpInfo
  | .ep0 _ => ⟨0x00#8, 0x00#8, 0, 64#16⟩
  | .alt 0 => ⟨0x01#8, 0x02#8, 0, 512#16⟩
  | .alt 1 => ⟨0x82#8, 0x02#8, 0, 512#16⟩
  | .alt 2 => ⟨0x83#8, 0x03#8, 4, 64#16⟩
  | .alt _ => ⟨0x84#8, 0x01#8, 1, 1024#16⟩

theorem sampleEp_ep0 (d : DevId) : (sampleEp (.ep0 d)).xferType = epAttrTtCtrl := by
  show 0x00#8 &&& 0x03#8 = 0x00#8
  decide

/-- Device 1 is a full-speed device at a root port; the others are high-speed. -/
def sampleUdev (d : DevId) : Udev :=
  ⟨64#8, if d = 1 then .full else .high, 1#8, BitVec.ofNat 8 (d + 1), []⟩

def sampleUtr (d : DevId) (dataLen : BitVec 32) : Utr where
  udev := d
  setup := ⟨0x80#8, 6#8, 0x100#16, 0#16, 18#16⟩
  setupAddr := 0x80001000#32
  buff := 0x80002000#32
  bIsTransferDone := false
  dataLen := dataLen
  xferLen := 0
  bIsoNewSched := false
  isoSf := 0
  isoXlen _ := 0
  isoBuff _ := 0
  isoStatus _ := 0
  status := 0
  func := true

/-- The client fills in a request. -/
def prepared (u : UtrId) (r : Utr) (e : Option EpId) (s : Ehci) : Ehci :=
  { s with
    utr := Function.update s.utr u r
    utrEp := Function.update s.utrEp u e
    tdCnt := Function.update s.tdCnt u 0 }

def sampleStart : Ehci := (started (bareMachine sampleEp sampleUdev)).get (by decide)

theorem sampleStart_initial : Initial sampleStart :=
  started_initial (bareMachine_boot sampleUdev sampleEp_ep0) (Option.some_get _).symm

end Ma35d1.UsbHost.Ehci
