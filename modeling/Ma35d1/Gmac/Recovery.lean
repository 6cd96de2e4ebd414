import Ma35d1.Gmac.RxPath
import Ma35d1.Gmac.TxPath

/-!
# Recovery from a fatal bus error

`GMAC_open` and the branch of `GMAC_int_handler0` for `GMACDmaError` set the same registers and
rings up, each with a sequence of its own. The second one chooses the normal descriptor format,
attaches no receive buffer, and leaves the descriptor pointers and the counters as they were.
-/

namespace Ma35d1.Gmac

/-! ## Registers -/

/-- The registers that opening and recovery write -/
structure Regs where
  config : BitVec 32
  frameFilter : BitVec 32
  flowControl : BitVec 32
  intMask : BitVec 32
  addr0High : BitVec 32
  addr0Low : BitVec 32
  dmaBusMode : BitVec 32
  dmaOpMode : BitVec 32
  dmaInt : BitVec 32
  dmaRxDesc : BitVec 32
  dmaTxDesc : BitVec 32
  deriving DecidableEq

/-- `GMAC_SETBITS` -/
def setBits (mask reg : BitVec 32) : BitVec 32 := reg ||| mask

/-- `GMAC_CLEARBITS` -/
def clearBits (mask reg : BitVec 32) : BitVec 32 := reg &&& ~~~ mask

def configRe : BitVec 32 := 0x00000004
def configTe : BitVec 32 := 0x00000008
def configDc : BitVec 32 := 0x00000010
def configBl : BitVec 32 := 0x00000060
def configAcs : BitVec 32 := 0x00000080
def configDr : BitVec 32 := 0x00000200
def configIpc : BitVec 32 := 0x00000400
def configDm : BitVec 32 := 0x00000800
def configLm : BitVec 32 := 0x00001000
def configDo : BitVec 32 := 0x00002000
def configFes : BitVec 32 := 0x00004000
def configPs : BitVec 32 := 0x00008000
def configJe : BitVec 32 := 0x00100000
def configBe : BitVec 32 := 0x00200000
def configJd : BitVec 32 := 0x00400000
def configWd : BitVec 32 := 0x00800000
def gmacBackoffLimit0 : BitVec 32 := 0

def frameFilterPr : BitVec 32 := 0x00000001
def frameFilterDaif : BitVec 32 := 0x00000008
def frameFilterPm : BitVec 32 := 0x00000010
def frameFilterDbf : BitVec 32 := 0x00000020
def frameFilterPcf : BitVec 32 := 0x000000c0
def frameFilterSaf : BitVec 32 := 0x00000200
def frameFilterRa : BitVec 32 := 0x80000000
def gmacPassControl0 : BitVec 32 := 0

def flowControlTfe : BitVec 32 := 0x00000002
def flowControlRfe : BitVec 32 := 0x00000004
def flowControlUp : BitVec 32 := 0x00000008
def flowControlPt : BitVec 32 := 0xffff0000

def dmaBusModeAtds : BitVec 32 := 0x00000080
def dmaBusModeFb : BitVec 32 := 0x00010000
def dmaBurstLength8 : BitVec 32 := 0x00000800
def dmaBurstLength32 : BitVec 32 := 0x00002000
def dmaDescriptorSkip0 : BitVec 32 := 0

def dmaOpModeSr : BitVec 32 := 0x00000002
def dmaOpModeOsf : BitVec 32 := 0x00000004
def dmaRxThreshCtrl128 : BitVec 32 := 0x00000018
def dmaOpModeEfc : BitVec 32 := 0x00000100
def dmaThresholdAct3K : BitVec 32 := 0x00000400
def dmaThresholdDeact4K : BitVec 32 := 0x00001800
def dmaOpModeSt : BitVec 32 := 0x00002000
def dmaOpModeTsf : BitVec 32 := 0x00200000
def dmaOpModeDt : BitVec 32 := 0x04000000

def dmaStatusTi : BitVec 32 := 0x00000001
def dmaStatusTps : BitVec 32 := 0x00000002
def dmaStatusUnf : BitVec 32 := 0x00000020
def dmaStatusRps : BitVec 32 := 0x00000100
def dmaStatusFbi : BitVec 32 := 0x00002000
def dmaStatusGpi : BitVec 32 := 0x10000000

/-- `DMA_INT_ENABLE` -/
def dmaIntEnable : BitVec 32 := 0x0001a1e3

def intMaskPmtim : BitVec 32 := 0x00000008

/-- `HALFDUPLEX`, `FULLDUPLEX` and the speeds -/
inductive Duplex
  | half
  | full
  deriving DecidableEq

inductive Speed
  | speed1000
  | speed100
  | speed10
  deriving DecidableEq

/-- `GMAC_init` -/
def gmacInit (duplex : Duplex) (r : Regs) : Regs :=
  { r with
    config := r.config |> clearBits configWd |> setBits configJd |> setBits configBe
      |> clearBits configJe |> clearBits configDo |> clearBits configLm |> clearBits configDr
      |> clearBits configAcs |> clearBits configBl |> setBits gmacBackoffLimit0
      |> clearBits configDc
      |> if duplex = .full then setBits configDm else clearBits configDm
    frameFilter := r.frameFilter |> clearBits frameFilterRa |> clearBits frameFilterPcf
      |> setBits gmacPassControl0 |> clearBits frameFilterDbf |> clearBits frameFilterSaf
      |> clearBits frameFilterPm |> clearBits frameFilterDaif |> setBits frameFilterPr
    flowControl := r.flowControl |> clearBits flowControlUp
      |> (if duplex = .full then setBits flowControlRfe else clearBits flowControlRfe)
      |> if duplex = .full then setBits flowControlTfe else clearBits flowControlTfe }

/-- `GMAC_pause_control` -/
def gmacPauseControl (r : Regs) : Regs :=
  { r with
    dmaOpMode := r.dmaOpMode |> setBits (dmaThresholdAct3K ||| dmaThresholdDeact4K ||| dmaOpModeEfc)
    flowControl := r.flowControl |> setBits (flowControlRfe ||| flowControlTfe ||| flowControlPt) }

/-- `GMAC_set_mac_addr` for address 0 -/
def gmacSetMacAddr (mac : Fin 6 → BitVec 8) (r : Regs) : Regs :=
  { r with
    addr0High := (0#16 ++ mac 5 ++ mac 4)
    addr0Low := (mac 3 ++ mac 2 ++ mac 1 ++ mac 0) }

/-- `GMAC_set_mode` -/
def gmacSetMode (speed : Speed) (r : Regs) : Regs :=
  { r with
    config := r.config |> clearBits configTe |> clearBits configRe
      |> (match speed with
        | .speed1000 => clearBits configPs
        | .speed100 => fun c => setBits configFes (setBits configPs c)
        | .speed10 => fun c => clearBits configFes (setBits configPs c))
      |> setBits configTe |> setBits configRe }

def dmaRxEnable (r : Regs) : Regs := { r with dmaOpMode := setBits dmaOpModeSr r.dmaOpMode }
def dmaTxEnable (r : Regs) : Regs := { r with dmaOpMode := setBits dmaOpModeSt r.dmaOpMode }
def dmaTxDisable (r : Regs) : Regs := { r with dmaOpMode := clearBits dmaOpModeSt r.dmaOpMode }

/-- `GMAC_is_desc_enhanced_mode` -/
def Regs.enhanced (r : Regs) : Bool := r.dmaBusMode &&& dmaBusModeAtds != 0

/-! ## Opening -/

/-- What stays of an interface: the values of its registers after a reset, its MAC address, the bus
addresses of its descriptors and the address of its receive buffers -/
structure Board where
  rst : Regs
  mac : Fin 6 → BitVec 8
  txDescDma : BitVec 32
  rxDescDma : BitVec 32
  rxBase : BitVec 32

/-- A `GMACdevice` with its registers -/
structure GmacDevice where
  regs : Regs
  duplex : Duplex
  speed : Speed
  tx : TxRing
  rx : RxRing
  /-- `GMAC_Power_down` -/
  powerDown : Bool

/-- `GMAC_open`, with what the PHY has negotiated and what the descriptors held before -/
def gmacOpen (b : Board) (duplex : Duplex) (speed : Speed) (powerDown : Bool)
    (txMem rxMem : Nat → DmaDesc) : GmacDevice :=
  { duplex := duplex, speed := speed, powerDown := powerDown
    tx := setupTxDescQueue txMem (BitVec.ofNat 32 transmitDescSize)
    rx := openedRing rxMem b.rxBase
    regs :=
      { b.rst with
        dmaTxDesc := b.txDescDma, dmaRxDesc := b.rxDescDma
        dmaBusMode := dmaBurstLength32 ||| dmaDescriptorSkip0 ||| dmaBusModeAtds
        dmaOpMode := dmaOpModeTsf ||| dmaOpModeOsf ||| dmaRxThreshCtrl128 }
      |> gmacInit duplex |> gmacPauseControl
      |> (fun r => { r with
        config := setBits configIpc r.config, dmaOpMode := clearBits dmaOpModeDt r.dmaOpMode
        dmaInt := dmaIntEnable })
      |> dmaRxEnable |> dmaTxEnable |> gmacSetMacAddr b.mac |> gmacSetMode speed }

/-! ## The handler -/

/-- `GMAC_take_desc_ownership` -/
def takeDescOwnership (desc : DmaDesc) : DmaDesc :=
  { desc with status := desc.status &&& ~~~ descOwnByDma }

/-- `GMAC_take_desc_ownership_tx` -/
def TxRing.takeOwnership (r : TxRing) : TxRing :=
  { r with desc := fun i => if i < r.txDescCount then takeDescOwnership (r.desc i) else r.desc i }

/-- `GMAC_take_desc_ownership_rx` -/
def RxRing.takeOwnership (r : RxRing) : RxRing :=
  { r with desc := fun i => if i < r.rxDescCount then takeDescOwnership (r.desc i) else r.desc i }

/-- `GMAC_init_tx_rx_desc_queue`, the transmit ring -/
def TxRing.initDescQueue (r : TxRing) : TxRing :=
  { r with
    desc := fun i =>
      if i < r.txDescCount then txDescInitRing (r.desc i) (i + 1 = r.txDescCount) else r.desc i
    txNext := 0, txBusy := 0 }

/-- `GMAC_init_tx_rx_desc_queue`, the receive ring -/
def RxRing.initDescQueue (r : RxRing) : RxRing :=
  { r with
    desc := fun i =>
      if i < r.rxDescCount then rxDescInitRing (r.desc i) (i + 1 = r.rxDescCount) else r.desc i
    rxNext := 0, rxBusy := 0 }

/-- The branch for `GMACDmaError` -/
def GmacDevice.recover (b : Board) (s : GmacDevice) : GmacDevice :=
  { s with
    tx := s.tx.takeOwnership.initDescQueue
    rx := s.rx.takeOwnership.initDescQueue
    -- the reset comes after the DMA was stopped, and leaves nothing of what was written before
    regs := b.rst |> gmacSetMacAddr b.mac
      |> (fun r => { r with
        dmaBusMode := dmaBusModeFb ||| dmaBurstLength8 ||| dmaDescriptorSkip0
        dmaOpMode := dmaOpModeTsf
        dmaRxDesc := b.rxDescDma, dmaTxDesc := b.txDescDma })
      |> gmacInit s.duplex |> dmaRxEnable |> dmaTxEnable }

def nDescSize1Mask : BitVec 32 := 0x000007FF
def nDescSize2Mask : BitVec 32 := 0x003FF800
def nDescTxEndOfRing : BitVec 32 := 0x02000000

/-- `GMAC_is_desc_empty` in the normal format -/
def DmaDesc.isEmptyNormal (desc : DmaDesc) : Bool :=
  desc.length &&& nDescSize1Mask == 0 && desc.length &&& nDescSize2Mask == 0

/-- `GMAC_is_last_tx_desc` in the normal format -/
def DmaDesc.isLastTxNormal (desc : DmaDesc) : Bool :=
  desc.status &&& nDescTxEndOfRing == nDescTxEndOfRing

/-- What `GMAC_get_tx_qptr` leaves of the ring, in the format the bus mode tells -/
def TxRing.reap (enhanced : Bool) (r : TxRing) : Option TxRing :=
  if enhanced then r.getTxQptr.map fun o => o.2.2
  else
    let txdesc := r.desc r.txBusyDesc
    if txdesc.ownedByDma then none
    else if txdesc.isEmptyNormal then none
    else some { r with
      busyTxDesc := r.busyTxDesc - 1
      txBusy := nextIdx txdesc.isLastTxNormal r.txBusy
      txBusyDesc := nextDesc txdesc.isLastTxNormal r.txBusyDesc
      desc := Function.update r.desc r.txBusyDesc (txDescInitRing txdesc txdesc.isLastTxNormal) }

/-- `GMAC_handle_transmit_over`; each round clears a descriptor, so there are no more rounds than
descriptors. -/
def TxRing.transmitOver (enhanced : Bool) : Nat → TxRing → TxRing
  | 0, r => r
  | n + 1, r =>
    match r.reap enhanced with
    | none => r
    | some r' => TxRing.transmitOver enhanced n r'

/-- `GMAC_handle_transmit_over` -/
def GmacDevice.transmitOver (s : GmacDevice) : GmacDevice :=
  { s with tx := s.tx.transmitOver s.regs.enhanced s.tx.txDescCount }

/-- `GMAC_powerup_mac` -/
def GmacDevice.powerUp (s : GmacDevice) : GmacDevice :=
  { s with
    powerDown := false
    regs := { s.regs with
      intMask := setBits intMaskPmtim s.regs.intMask
      config := s.regs.config |> setBits configRe |> setBits configTe
      dmaOpMode := s.regs.dmaOpMode |> setBits dmaOpModeSr |> setBits dmaOpModeSt } }

/-- The branch for `GMACDmaRxStopped` -/
def GmacDevice.rxStopped (data : BitVec 32) (s : GmacDevice) : GmacDevice :=
  if data &&& dmaStatusRps ≠ 0 ∧ s.powerDown = false then { s with regs := dmaRxEnable s.regs }
  else s

/-- The branch for `GMACDmaTxNormal` -/
def GmacDevice.txNormal (data : BitVec 32) (s : GmacDevice) : GmacDevice :=
  if data &&& dmaStatusTi ≠ 0 then s.transmitOver else s

/-- The branch for `GMACDmaTxAbnormal` -/
def GmacDevice.txAbnormal (data : BitVec 32) (s : GmacDevice) : GmacDevice :=
  if data &&& dmaStatusUnf ≠ 0 ∧ s.powerDown = false then s.transmitOver else s

/-- The branch for `GMACDmaTxStopped` -/
def GmacDevice.txStopped (data : BitVec 32) (s : GmacDevice) : GmacDevice :=
  if data &&& dmaStatusTps ≠ 0 ∧ s.powerDown = false then
    { s with tx := s.tx.takeOwnership, regs := dmaTxEnable (dmaTxDisable s.regs) }
  else s

/-- `GMAC_int_handler0` behind the test of `DmaStatus` -/
def GmacDevice.handle (b : Board) (dma_status_reg data : BitVec 32) (s : GmacDevice) : GmacDevice :=
  { s with regs := { s.regs with dmaInt := 0 } }
    |> (fun s => if dma_status_reg &&& dmaStatusGpi ≠ 0 then s.powerUp else s)
    |> (fun s => if data &&& dmaStatusFbi ≠ 0 then s.recover b else s)
    |> GmacDevice.rxStopped data |> GmacDevice.txNormal data |> GmacDevice.txAbnormal data
    |> GmacDevice.txStopped data
    |> fun s => { s with regs := { s.regs with dmaInt := dmaIntEnable } }

/-- `GMAC_int_handler0`, with what it reads from `DmaStatus` the first and the second time -/
def GmacDevice.intHandler0 (b : Board) (dma_status_reg data : BitVec 32) (s : GmacDevice) :
    GmacDevice :=
  if dma_status_reg = 0 then s else s.handle b dma_status_reg data

/-! ## What is restored -/

/-- The interface is as `GMAC_open` has made it. -/
structure Restored (o s : GmacDevice) : Prop where
  format : s.regs.enhanced = o.regs.enhanced
  busMode : s.regs.dmaBusMode = o.regs.dmaBusMode
  opMode : s.regs.dmaOpMode = o.regs.dmaOpMode
  config : s.regs.config = o.regs.config
  txBase : s.regs.dmaTxDesc = o.regs.dmaTxDesc
  rxBase : s.regs.dmaRxDesc = o.regs.dmaRxDesc
  interrupts : s.regs.dmaInt = o.regs.dmaInt
  txIndices : s.tx.txNext = o.tx.txNext ∧ s.tx.txBusy = o.tx.txBusy
  rxIndices : s.rx.rxNext = o.rx.rxNext ∧ s.rx.rxBusy = o.rx.rxBusy
  txPointers : s.tx.txNextDesc = o.tx.txNextDesc ∧ s.tx.txBusyDesc = o.tx.txBusyDesc
  rxPointers : s.rx.rxNextDesc = o.rx.rxNextDesc ∧ s.rx.rxBusyDesc = o.rx.rxBusyDesc
  txCounter : s.tx.busyTxDesc = o.tx.busyTxDesc
  rxCounter : s.rx.busyRxDesc = o.rx.busyRxDesc
  rxDescs : ∀ i < receiveDescSize, (s.rx.desc i).ownedByDma = (o.rx.desc i).ownedByDma ∧
    (s.rx.desc i).buffer1 = (o.rx.desc i).buffer1

section Handled

variable {b : Board} {dma_status_reg data : BitVec 32} {s : GmacDevice}

theorem transmitOver_nextDesc (enhanced : Bool) (n : Nat) (r : TxRing) :
    (r.transmitOver enhanced n).txNextDesc = r.txNextDesc := by
  induction n generalizing r with
  | zero => rfl
  | succ n ih =>
    rw [TxRing.transmitOver]
    cases hr : r.reap enhanced with
    | none => rfl
    | some r' =>
      refine (ih r').trans ?_
      unfold TxRing.reap at hr
      cases enhanced with
      | true =>
        obtain ⟨o, ho, rfl⟩ := Option.map_eq_some_iff.mp hr
        rw [(get_cases ho).2.2]
      | false =>
        simp only [Bool.false_eq_true, if_false, Option.ite_none_left_eq_some] at hr
        rw [← Option.some.inj hr.2.2]

/-- What the branches after the recovery have in common: they do not touch the receive ring, the
pointer to the next transmit descriptor, the bus mode, and an operation mode in which both sides of
the DMA run. -/
structure SameBut (s t : GmacDevice) : Prop where
  rx : t.rx = s.rx
  nextDesc : t.tx.txNextDesc = s.tx.txNextDesc
  busMode : t.regs.dmaBusMode = s.regs.dmaBusMode
  opMode : s.regs.dmaOpMode = dmaOpModeTsf ||| dmaOpModeSr ||| dmaOpModeSt →
    t.regs.dmaOpMode = dmaOpModeTsf ||| dmaOpModeSr ||| dmaOpModeSt

theorem SameBut.refl (s : GmacDevice) : SameBut s s := ⟨rfl, rfl, rfl, id⟩

theorem SameBut.trans {t u : GmacDevice} (h : SameBut s t) (h' : SameBut t u) : SameBut s u :=
  ⟨h'.rx.trans h.rx, h'.nextDesc.trans h.nextDesc, h'.busMode.trans h.busMode,
    fun ho => h'.opMode (h.opMode ho)⟩

theorem transmitOver_same (s : GmacDevice) : SameBut s s.transmitOver :=
  ⟨rfl, transmitOver_nextDesc _ _ _, rfl, id⟩

theorem rxStopped_same (data : BitVec 32) (s : GmacDevice) : SameBut s (s.rxStopped data) := by
  unfold GmacDevice.rxStopped
  split
  · refine ⟨rfl, rfl, rfl, fun ho => ?_⟩
    show setBits dmaOpModeSr s.regs.dmaOpMode = _
    rw [ho]
    decide
  · exact .refl s

theorem txNormal_same (data : BitVec 32) (s : GmacDevice) : SameBut s (s.txNormal data) := by
  unfold GmacDevice.txNormal
  split
  · exact transmitOver_same s
  · exact .refl s

theorem txAbnormal_same (data : BitVec 32) (s : GmacDevice) : SameBut s (s.txAbnormal data) := by
  unfold GmacDevice.txAbnormal
  split
  · exact transmitOver_same s
  · exact .refl s

theorem txStopped_same (data : BitVec 32) (s : GmacDevice) : SameBut s (s.txStopped data) := by
  unfold GmacDevice.txStopped
  split
  · refine ⟨rfl, rfl, rfl, fun ho => ?_⟩
    show setBits dmaOpModeSt (clearBits dmaOpModeSt s.regs.dmaOpMode) = _
    rw [ho]
    decide
  · exact .refl s

/-- What a fatal bus error leaves behind -/
structure Abandoned (s t : GmacDevice) : Prop where
  format : t.regs.enhanced = false
  busMode : t.regs.dmaBusMode = dmaBusModeFb ||| dmaBurstLength8 ||| dmaDescriptorSkip0
  opMode : t.regs.dmaOpMode = dmaOpModeTsf ||| dmaOpModeSr ||| dmaOpModeSt
  interrupts : t.regs.dmaInt = dmaIntEnable
  /-- no receive descriptor is the DMA's, and none has a buffer -/
  rxDescs : ∀ i < s.rx.rxDescCount, (t.rx.desc i).ownedByDma = false ∧ (t.rx.desc i).buffer1 = 0
  rxIndices : t.rx.rxNext = 0 ∧ t.rx.rxBusy = 0
  rxPointers : t.rx.rxNextDesc = s.rx.rxNextDesc ∧ t.rx.rxBusyDesc = s.rx.rxBusyDesc
  rxCounter : t.rx.busyRxDesc = s.rx.busyRxDesc
  nextDesc : t.tx.txNextDesc = s.tx.txNextDesc

theorem rxDescInitRing_clear {d : DmaDesc} {last : Bool} :
    (rxDescInitRing d last).ownedByDma = false := by
  rw [ownedByDma_eq]
  exact BitVec.getLsbD_zero

/-- The recovery itself -/
theorem recover_abandoned (b : Board) (s : GmacDevice) :
    Abandoned s { s.recover b with regs := { (s.recover b).regs with dmaInt := dmaIntEnable } } := by
  have hbus : (s.recover b).regs.dmaBusMode =
      dmaBusModeFb ||| dmaBurstLength8 ||| dmaDescriptorSkip0 := rfl
  refine ⟨?_, hbus, ?_, rfl, fun i hi => ?_, ⟨rfl, rfl⟩, ⟨rfl, rfl⟩, rfl, rfl⟩
  · show (_ &&& dmaBusModeAtds != 0) = false
    rw [hbus]
    decide
  · show setBits dmaOpModeSt (setBits dmaOpModeSr dmaOpModeTsf) = _
    decide
  · have hdesc : (s.recover b).rx.desc i =
        rxDescInitRing (s.rx.takeOwnership.desc i) (i + 1 = s.rx.rxDescCount) := if_pos hi
    rw [hdesc]
    exact ⟨rxDescInitRing_clear, rfl⟩

theorem intHandler0_abandoned (hstatus : dma_status_reg ≠ 0) (hfbi : data &&& dmaStatusFbi ≠ 0) :
    Abandoned s (s.intHandler0 b dma_status_reg data) := by
  rw [GmacDevice.intHandler0, if_neg hstatus, GmacDevice.handle]
  simp only [if_pos hfbi]
  generalize hs₁ : (if dma_status_reg &&& dmaStatusGpi ≠ 0 then
    GmacDevice.powerUp { s with regs := { s.regs with dmaInt := 0 } }
    else { s with regs := { s.regs with dmaInt := 0 } }) = s₁
  have hrings : s₁.rx = s.rx ∧ s₁.tx = s.tx := by
    rw [← hs₁]
    split <;> exact ⟨rfl, rfl⟩
  have hrec := recover_abandoned b s₁
  have hsame := (((rxStopped_same data (s₁.recover b)).trans (txNormal_same data _)).trans
    (txAbnormal_same data _)).trans (txStopped_same data _)
  obtain ⟨hformat, hbus, hop, -, hdescs, hindices, hpointers, hcounter, hnext⟩ := hrec
  rw [hrings.1] at hdescs hpointers hcounter
  rw [hrings.2] at hnext
  refine ⟨?_, hsame.busMode.trans hbus, hsame.opMode hop, rfl, ?_, ?_, ?_, ?_,
    hsame.nextDesc.trans hnext⟩
  · show (_ &&& dmaBusModeAtds != 0) = false
    rw [hsame.busMode]
    exact hformat
  all_goals
    show _
    rw [hsame.rx]
  · exact hdescs
  · exact hindices
  · exact hpointers
  · exact hcounter

/-- `GMAC_open` gives every receive descriptor to the DMA, with its buffer. -/
theorem gmacOpen_rxDescs (duplex : Duplex) (speed : Speed) (powerDown : Bool)
    (txMem rxMem : Nat → DmaDesc) {i : Nat} (hi : i < receiveDescSize) :
    ((gmacOpen b duplex speed powerDown txMem rxMem).rx.desc i).ownedByDma = true ∧
      ((gmacOpen b duplex speed powerDown txMem rxMem).rx.desc i).buffer1 = rxBuf b.rxBase i :=
  have hring := filled_openedRing rxMem b.rxBase
  ⟨hring.owned i hi, hring.buffer i hi⟩

/-- The two sequences differ in the descriptor format, in both modes of the DMA and in every receive
descriptor. -/
theorem intHandler0_differs (hstatus : dma_status_reg ≠ 0) (hfbi : data &&& dmaStatusFbi ≠ 0)
    (duplex : Duplex) (speed : Speed) (powerDown : Bool) (txMem rxMem : Nat → DmaDesc) :
    let o := gmacOpen b duplex speed powerDown txMem rxMem
    let t := s.intHandler0 b dma_status_reg data
    t.regs.enhanced ≠ o.regs.enhanced ∧ t.regs.dmaBusMode ≠ o.regs.dmaBusMode ∧
      t.regs.dmaOpMode ≠ o.regs.dmaOpMode ∧
      ∀ i < s.rx.rxDescCount, i < receiveDescSize →
        (t.rx.desc i).ownedByDma ≠ (o.rx.desc i).ownedByDma := by
  intro o t
  have hleft : Abandoned s t := intHandler0_abandoned hstatus hfbi
  have hbus : o.regs.dmaBusMode = dmaBurstLength32 ||| dmaDescriptorSkip0 ||| dmaBusModeAtds := rfl
  have hopen : o.regs.enhanced = true := by
    show (_ &&& dmaBusModeAtds != 0) = true
    rw [hbus]
    decide
  have hop : o.regs.dmaOpMode = setBits dmaOpModeSt (setBits dmaOpModeSr (clearBits dmaOpModeDt
    (setBits (dmaThresholdAct3K ||| dmaThresholdDeact4K ||| dmaOpModeEfc)
      (dmaOpModeTsf ||| dmaOpModeOsf ||| dmaRxThreshCtrl128)))) := rfl
  refine ⟨?_, ?_, ?_, fun i hi hsize => ?_⟩
  · rw [hleft.format, hopen]
    decide
  · rw [hleft.busMode, hbus]
    decide
  · rw [hleft.opMode, hop]
    decide
  · rw [(hleft.rxDescs i hi).1, (gmacOpen_rxDescs duplex speed powerDown txMem rxMem hsize).1]
    decide

/-- Whatever the state of the rings, a fatal bus error does not leave the interface as it was
opened. -/
theorem intHandler0_not_restored (hstatus : dma_status_reg ≠ 0)
    (hfbi : data &&& dmaStatusFbi ≠ 0) (duplex : Duplex) (speed : Speed) (powerDown : Bool)
    (txMem rxMem : Nat → DmaDesc) :
    ¬ Restored (gmacOpen b duplex speed powerDown txMem rxMem)
      (s.intHandler0 b dma_status_reg data) := fun h =>
  (intHandler0_differs hstatus hfbi duplex speed powerDown txMem rxMem).1 h.format

end Handled

/-- A board on which every register is 0 after a reset -/
def zeroBoard : Board :=
  { rst := ⟨0, 0, 0, 0, 0, 0, 0, 0, 0, 0, 0⟩
    mac := fun _ => 0, txDescDma := 0x80001000, rxDescDma := 0x80002000, rxBase := 0x80010000 }

def zeroOpen : GmacDevice :=
  gmacOpen zeroBoard .full .speed100 false (fun _ => blankDesc) fun _ => blankDesc

/-- The error comes right after the interface was opened. -/
theorem intHandler0_not_restored_opened :
    ¬ Restored zeroOpen (zeroOpen.intHandler0 zeroBoard 0x2000 0x2000) :=
  intHandler0_not_restored (by decide) (by decide) .full .speed100 false _ _

/-- The error comes after one frame was queued: `TxNext` is 0 and `TxNextDesc` the second
descriptor. -/
theorem not_restored_queued :
    ¬ ∀ s : GmacDevice, Restored zeroOpen (s.intHandler0 zeroBoard 0x2000 0x2000) := by
  intro hall
  have hptr := (hall { zeroOpen with
    tx := { zeroOpen.tx with txNext := 1, txNextDesc := 1, busyTxDesc := 1 } }).txPointers.1
  exact absurd hptr (by decide)

end Ma35d1.Gmac
