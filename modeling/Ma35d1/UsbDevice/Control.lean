import Mathlib.Data.Fin.VecNotation
import Ma35d1.Machine.Trace
import Ma35d1.UsbDevice.Msc

/-!
# Control transfers

The device with a host that sends a SETUP packet only once it has finished the transfer before.
The host takes the data of an IN transfer until it has `wLength` bytes or a short packet and then
sends the status; a transfer without data has its status from the device. A stall ends either.
-/

namespace Ma35d1.UsbDevice

open Ma35d1.Machine.Trace (run EachStep Always always_of_eachStep eachStep_of_eachStep)

/-- Where the host is in a transfer. -/
inductive Host
  | idle
  /-- data or an IN status is awaited -/
  | started (cmd : UsbCmd)
  /-- the OUT status is sent -/
  | status

structure Bus where
  dev : Ep0
  host : Host

inductive BusEvent
  /-- a SETUP packet arrives, and perhaps XferCompl is set with SetUp -/
  | setup (packet : Fin 8 → BitVec 8) (xferCompl : Bool)
  | inComplete
  | outComplete

/-- `EP0_MAX_PKT_SIZE` -/
def ep0MaxPktSize : Nat := 64

/-- The endpoint has taken a SETUP packet: its descriptor is used up, and the core has cleared
its stall. -/
def Ep0.taken (s : Ep0) : Ep0 :=
  { s with
    out := none
    inStall := Function.update s.inStall 0 false
    outStall := Function.update s.outStall 0 false }

def Ep0.sentIn (s : Ep0) : Ep0 := { s with inDesc := none }

def Ep0.tookOut (s : Ep0) : Ep0 := { s with out := none }

/-- The handler after a SETUP packet. -/
def Bus.setup (s : Bus) (info : Info) (cb : Callbacks) (cmd : UsbCmd) (xferCompl : Bool) : Bus :=
  let dev := s.dev.taken.outIrq info cb (some cmd) xferCompl
  ⟨dev, if dev.stalled then .idle else .started cmd⟩

def busStep (info : Info) (cb : Callbacks) (s : Bus) : BusEvent → Option Bus
  | .setup packet xferCompl =>
    match s.host, s.dev.out with
    | .idle, some .setup => some (s.setup info cb (.ofPacket packet) xferCompl)
    | _, _ => none
  | .inComplete =>
    match s.host, s.dev.inDesc with
    | .started cmd, some d =>
      if cmd.wLength = 0 then some ⟨s.dev.sentIn.inIrq, .idle⟩
      else if cmd.isIn then
        some ⟨s.dev.sentIn.inIrq,
          -- a full last packet does not end the data
          if cmd.wLength.toNat ≤ d.len ∨ d.len % ep0MaxPktSize ≠ 0 ∨ d.len = 0 then .status
          else .started cmd⟩
      else none
    | _, _ => none
  | .outComplete =>
    match s.host, s.dev.out with
    | .status, some _ => some ⟨s.dev.tookOut.outIrq info cb none true, .idle⟩
    | _, _ => none

/-- After a bus reset. -/
def busStart (highSpeed : Bool) : Bus :=
  { dev :=
      { gEp0State := .waitForSetup, out := some .setup, inDesc := none, inStall := fun _ => false
        outStall := fun _ => false, highSpeed, devAddr := 0, testControl := 0, usbConfig := 0
        usbAltInterface := 0, buf := (0, 0), remoteWakeupEn := false, enableTestMode := false
        testSelector := 0, configured := false, resetAvailable := false, epStallLock := 0
        fault := false }
    host := .idle }

/-! ## The law -/

/-- Once the host has finished a transfer the device waits for the next. -/
def ControlLaw (s : Bus) : Prop :=
  s.host = .idle → s.dev.gEp0State = .waitForSetup ∧ s.dev.out = some .setup

/-- Every SETUP packet is answered. -/
def SetupAnswered (info : Info) (cb : Callbacks) (s : Bus) : BusEvent → Prop
  | .setup packet xferCompl =>
    Answered info (.ofPacket packet) (s.setup info cb (.ofPacket packet) xferCompl).dev
  | _ => True

def SetupKept (info : Info) (cb : Callbacks) (s : Bus) : BusEvent → Prop
  | .setup packet _ => RequestKept info cb s.dev.taken (.ofPacket packet)
  | _ => True

/-! ## Runs -/

section Transfers

variable {info : Info} {cb : Callbacks} {s t : Bus} {cmd : UsbCmd} {e : BusEvent}

/-- Where a transfer is, in the device and in the host. -/
def BusInv (s : Bus) : Prop :=
  match s.host with
  | .idle => s.dev.gEp0State = .waitForSetup ∧ s.dev.out = some .setup ∧ s.dev.fault = false
  | .started cmd => s.dev.fault = false ∧
    ((s.dev.gEp0State = .waitForComplete ∧ cmd.inData = true) ∨
      (s.dev.gEp0State = .waitForInComplete ∧ cmd.inData = false) ∨
      (s.dev.gEp0State = .waitForOutComplete ∧ s.dev.inDesc = none))
  | .status => s.dev.gEp0State = .waitForOutComplete ∧ s.dev.fault = false

theorem BusInv.law (h : BusInv s) : ControlLaw s := by
  intro hidle
  unfold BusInv at h
  rw [hidle] at h
  exact ⟨h.1, h.2.1⟩

theorem taken_stalled (s : Ep0) : s.taken.stalled = false := by
  simp [Ep0.stalled, Ep0.taken]

/-- A SETUP packet is answered, and the transfer begins or is over. -/
theorem BusInv.setup (hinfo : InfoOk info) (h : BusInv s) (hidle : s.host = .idle)
    (hk : RequestKept info cb s.dev.taken cmd) (xferCompl : Bool) :
    BusInv (s.setup info cb cmd xferCompl) ∧
      Answered info cmd (s.setup info cb cmd xferCompl).dev := by
  unfold BusInv at h
  rw [hidle] at h
  obtain ⟨hstate, -, hfault⟩ := h
  have hproper := processSetupPacket_proper hinfo (taken_stalled s.dev) hfault hk
  have hdev : (s.setup info cb cmd xferCompl).dev =
      s.dev.taken.processSetupPacket info cb cmd :=
    outIrq_setup (s := s.dev.taken) hstate xferCompl hproper
  refine ⟨?_, by rw [hdev]; exact hproper.answered⟩
  have hhost : (s.setup info cb cmd xferCompl).host =
      if (s.setup info cb cmd xferCompl).dev.stalled then .idle else .started cmd := rfl
  unfold BusInv
  rw [hhost, hdev]
  obtain ⟨ht, hin⟩ | ⟨ht, hin⟩ | ht := hproper
  · rw [ht.stall]
    exact ⟨ht.fault, .inl ⟨ht.state, hin⟩⟩
  · rw [ht.stall]
    exact ⟨ht.fault, .inr (.inl ⟨ht.state, hin⟩)⟩
  · rw [ht.stall]
    exact ⟨ht.state, ht.out, ht.fault⟩

/-- An IN descriptor is used up. -/
theorem BusInv.inComplete (h : BusInv s) (hhost : s.host = .started cmd)
    (hd : s.dev.inDesc ≠ none) (host : Host)
    (hnext : (cmd.inData = false ∧ host = .idle) ∨
      (cmd.inData = true ∧ (host = .status ∨ host = .started cmd))) :
    BusInv ⟨s.dev.sentIn.inIrq, host⟩ := by
  unfold BusInv at h
  rw [hhost] at h
  obtain ⟨hfault, ⟨hstate, hin⟩ | ⟨hstate, hin⟩ | ⟨-, hnone⟩⟩ := h
  · -- the data has been sent, and the status is awaited
    have hdev : s.dev.sentIn.inIrq =
        { s.dev.sentIn with gEp0State := .waitForOutComplete, out := some .status } := by
      have hsent : s.dev.sentIn.gEp0State = .waitForComplete := hstate
      simp [Ep0.inIrq, Ep0.completeTx, hsent, Ep0.completeOut]
    rw [hdev]
    obtain ⟨hno, -⟩ | ⟨-, rfl | rfl⟩ := hnext
    · rw [hin] at hno
      exact absurd hno (by decide)
    · exact ⟨rfl, hfault⟩
    · exact ⟨hfault, .inr (.inr ⟨rfl, rfl⟩)⟩
  · have hdev : s.dev.sentIn.inIrq = { s.dev.sentIn with
        testControl := if s.dev.sentIn.enableTestMode then s.dev.sentIn.testSelector
          else s.dev.sentIn.testControl
        gEp0State := .waitForSetup, out := some .setup } := by
      have hsent : s.dev.sentIn.gEp0State = .waitForInComplete := hstate
      simp [Ep0.inIrq, Ep0.completeTx, hsent, Ep0.preSetup]
    rw [hdev]
    obtain ⟨-, rfl⟩ | ⟨hyes, -⟩ := hnext
    · exact ⟨rfl, rfl, hfault⟩
    · rw [hin] at hyes
      exact absurd hyes (by decide)
  · exact absurd hnone hd

/-- The status of the host arrives. -/
theorem BusInv.outComplete (h : BusInv s) (hhost : s.host = .status) :
    BusInv ⟨s.dev.tookOut.outIrq info cb none true, .idle⟩ := by
  unfold BusInv at h
  rw [hhost] at h
  obtain ⟨hstate, hfault⟩ := h
  have hdev : s.dev.tookOut.outIrq info cb none true =
      { s.dev.tookOut with gEp0State := .waitForSetup, out := some .setup } := by
    have htook : s.dev.tookOut.gEp0State = .waitForOutComplete := hstate
    simp [Ep0.outIrq, htook, Ep0.preSetup]
  rw [hdev]
  exact ⟨rfl, rfl, hfault⟩

/-- What any step does, as long as the requests are such as the device answers. -/
theorem busStep_inv (hinfo : InfoOk info) (h : BusInv s) (hk : SetupKept info cb s e)
    (ht : busStep info cb s e = some t) : BusInv t ∧ SetupAnswered info cb s e := by
  cases e with
  | setup packet xferCompl =>
    simp only [busStep] at ht
    split at ht
    · rename_i hidle _
      obtain rfl := Option.some.inj ht
      exact h.setup hinfo hidle hk xferCompl
    · exact absurd ht (by simp)
  | inComplete =>
    refine ⟨?_, trivial⟩
    simp only [busStep] at ht
    split at ht
    · rename_i cmd d hhost hd
      have hsome : s.dev.inDesc ≠ none := by rw [hd]; exact Option.some_ne_none d
      split at ht
      · rename_i hlen
        obtain rfl := Option.some.inj ht
        exact h.inComplete hhost hsome _ (.inl ⟨by simp [UsbCmd.inData, hlen], rfl⟩)
      split at ht
      · rename_i hlen hin
        obtain rfl := Option.some.inj ht
        refine h.inComplete hhost hsome _ (.inr ⟨by simpa [UsbCmd.inData, hin] using hlen, ?_⟩)
        split
        · exact .inl rfl
        · exact .inr rfl
      · exact absurd ht (by simp)
    · exact absurd ht (by simp)
  | outComplete =>
    refine ⟨?_, trivial⟩
    simp only [busStep] at ht
    split at ht
    · rename_i hhost _
      obtain rfl := Option.some.inj ht
      exact h.outComplete hhost
    · exact absurd ht (by simp)

end Transfers

/-- As long as every request is one that the device answers, each gets exactly one answer, and
the device waits for the next once the host has finished. -/
theorem run_controlLaw (info : Info) (cb : Callbacks) (hinfo : InfoOk info) (highSpeed : Bool)
    (es : List BusEvent)
    (hk : EachStep (busStep info cb) (SetupKept info cb) (busStart highSpeed) es) :
    Always (busStep info cb) ControlLaw (busStart highSpeed) es ∧
      EachStep (busStep info cb) (SetupAnswered info cb) (busStart highSpeed) es := by
  have hstart : BusInv (busStart highSpeed) := ⟨rfl, rfl, rfl⟩
  constructor
  · exact (always_of_eachStep (P := BusInv)
      (fun _ _ _ hs hk ht => (busStep_inv hinfo hs hk ht).1) hstart hk).mono fun _ hs => hs.law
  · exact eachStep_of_eachStep (P := BusInv)
      (fun _ _ _ hs hk ht => busStep_inv hinfo hs hk ht) hstart hk

/-- The mass storage device is asked for its device descriptor, then for its number of units. -/
theorem run_controlLaw_msc :
    let es : List BusEvent :=
      [.setup ![0x80, 0x06, 0x00, 0x01, 0x00, 0x00, 0x12, 0x00] false, .inComplete, .outComplete,
        .setup ![0xa1, 0xfe, 0x00, 0x00, 0x00, 0x00, 0x01, 0x00] true, .inComplete, .outComplete]
    (run (busStep gsHSInfo mscCallbacks) (busStart true) es).isSome = true ∧
      Always (busStep gsHSInfo mscCallbacks) ControlLaw (busStart true) es ∧
      EachStep (busStep gsHSInfo mscCallbacks) (SetupAnswered gsHSInfo mscCallbacks)
        (busStart true) es := by
  refine ⟨by decide, run_controlLaw gsHSInfo mscCallbacks gsHSInfo_ok true _ ?_⟩
  refine .cons rfl ?_ (.cons rfl trivial (.cons rfl trivial
    (.cons rfl ?_ (.cons rfl trivial (.cons rfl trivial trivial)))))
  · show (0x12 : BitVec 16) ≠ 0
    decide
  · unfold SetupKept
    exact mscClassRequest_kept gsHSInfo (by decide) rfl rfl

/-- A vendor request, for which the device has no callback, is neither answered nor refused, and
the endpoint is not made ready for another. -/
theorem not_controlLaw_vendor :
    ¬ ∀ (highSpeed : Bool) (es : List BusEvent),
      Always (busStep gsHSInfo mscCallbacks) ControlLaw (busStart highSpeed) es ∧
        EachStep (busStep gsHSInfo mscCallbacks) (SetupAnswered gsHSInfo mscCallbacks)
          (busStart highSpeed) es := by
  intro h
  obtain ⟨-, hall⟩ := h true [.setup ![0xc0, 0, 0, 0, 0, 0, 0, 0] false]
  obtain ⟨hans, -⟩ := hall _ rfl
  obtain ⟨ht, -⟩ | ⟨-, ht, -⟩ | ⟨-, -, ht⟩ := hans
  · exact absurd ht.state (by decide)
  · exact absurd ht.state (by decide)
  · exact absurd ht.out (by decide)

end Ma35d1.UsbDevice
