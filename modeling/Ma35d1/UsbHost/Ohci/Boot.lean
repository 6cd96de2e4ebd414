import Ma35d1.UsbHost.Ohci.Init
import Ma35d1.UsbHost.Ohci.Xfer

/-!
# Starting the driver

A machine before `ohci_init`, over given endpoints and devices, and the states that
calls of the driver lead to from there.
-/

namespace Ma35d1.UsbHost.Ohci

/-- Memory of a machine that runs nothing yet. -/
def bareMachine (ep : EpId → EpInfo) (udev : DevId → Udev) : Ohci where
  pool := { unit := fun _ => none, sidx := 0, hwMemUsedCnt := 0, usedCnt := fun _ => 0 }
  edInfo _ := 0
  tailP _ := none
  headP _ := none
  nextED _ := none
  bInterval _ := 0
  edNext _ := none
  nextTD _ := none
  ied _ := 0
  intTable _ := none
  edRemoveList := none
  hcControlHeadED := none
  hcBulkHeadED := none
  hcDoneHead := none
  doneHead := none
  hwPipe _ := .null
  hand := none
  edHalt _ := false
  edCarry _ := false
  nextSf _ := 0
  td _ := ⟨0, 0, 0, 0, 0, none, none⟩
  ep := ep
  udev := udev
  utr _ := ⟨0, ⟨0, 0, 0, 0, 0⟩, 0, 0, false, 0, 0, false, 0, fun _ => 0, fun _ => 0, fun _ => 0, 0, false⟩
  utrEp _ := none
  tdCnt _ := 0
  frameNo := 0
  cle := false
  ble := false
  ple := false
  ie := false
  sfEnable := false
  sf := false
  wdh := false
  trace := []

/-- The state a call ends in. -/
def callResult {r : Int} (x : Option (Int × Ohci)) (h : x.map (·.1) = some r) : Ohci :=
  (x.get (by cases x with | none => cases h | some _ => rfl)).2

theorem callResult_eq {r : Int} {x : Option (Int × Ohci)} (h : x.map (·.1) = some r) :
    x = some (r, callResult x h) := by
  cases x with
  | none => cases h
  | some p =>
    obtain ⟨q, s⟩ := p
    obtain rfl : q = r := Option.some.inj h
    rfl

/-- The other host controllers take every free unit but those of `keep`. -/
def crowd (keep : List Addr) (s : Ohci) : Ohci :=
  { s with pool := { s.pool with
      unit := fun a =>
        if s.pool.unit a = none ∧ a ∉ keep then some .other else s.pool.unit a } }

/-! ## A machine with one endpoint of each kind -/

/-- Endpoint 0 of every device, and bulk OUT, bulk IN, interrupt IN and isochronous IN. -/
def sampleEp : EpId → EpInfo
  | .ep0 _ => ⟨0x00#8, 0x00#8, 0, 64#16⟩
  | .alt 0 => ⟨0x01#8, 0x02#8, 0, 64#16⟩
  | .alt 1 => ⟨0x82#8, 0x02#8, 0, 64#16⟩
  | .alt 2 => ⟨0x83#8, 0x03#8, 4, 8#16⟩
  | .alt _ => ⟨0x84#8, 0x01#8, 1, 64#16⟩

/-- Full-speed devices at root ports. -/
def sampleUdev (d : DevId) : Udev := ⟨64#8, .full, 1#8, BitVec.ofNat 8 (d + 1), []⟩

def sampleUtr (d : DevId) (dataLen : BitVec 32) : Utr where
  udev := d
  setup := ⟨0x80#8, 6#8, 0x100#16, 0#16, 18#16⟩
  setupAddr := 0x80001000#32
  buff := 0x80002000#32
  bIsTransferDone := false
  dataLen := dataLen
  xferLen := 0
  bIsoNewSched := false
  isoSf := 0
  isoXlen _ := 0
  isoBuff _ := 0
  isoStatus _ := 0
  status := 0
  func := true

/-- The client fills in a request. -/
def prepared (u : UtrId) (r : Utr) (e : Option EpId) (s : Ohci) : Ohci :=
  { s with
    utr := Function.update s.utr u r
    utrEp := Function.update s.utrEp u e
    tdCnt := Function.update s.tdCnt u 0 }

theorem bareMachine_starts :
    (ohciInit true (bareMachine sampleEp sampleUdev)).map (·.1) = some 0 := by
  decide +kernel

def sampleStart : Ohci :=
  callResult (ohciInit true (bareMachine sampleEp sampleUdev)) bareMachine_starts

theorem sampleStart_eq : ohciInit true (bareMachine sampleEp sampleUdev) = some (0, sampleStart) :=
  callResult_eq bareMachine_starts

end Ma35d1.UsbHost.Ohci
