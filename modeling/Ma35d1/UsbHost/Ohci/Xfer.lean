import Ma35d1.UsbHost.Ohci.State

/-!
# Submissions and quit

`ohci_ctrl_xfer`, `ohci_bulk_xfer`, `ohci_int_xfer`, `ohci_iso_xfer` and
`ohci_quit_xfer`. The outer option is `none` where the source follows a null pointer
or a walk does not end.
-/

namespace Ma35d1.UsbHost.Ohci

open Heap.LinkedPath

/-! ## Words of an ED and of a TD -/

def tdCc : BitVec 32 := 0xF0000000#32
def tdTData0 : BitVec 32 := 0x02000000#32
def tdTData1 : BitVec 32 := 0x03000000#32
def tdR : BitVec 32 := 0x00040000#32
def tdDpIn : BitVec 32 := 0x00100000#32
def tdDpOut : BitVec 32 := 0x00080000#32
def tdTypeCtrl : BitVec 32 := 0x0#32
def tdTypeBulk : BitVec 32 := 0x10000#32
def tdTypeInt : BitVec 32 := 0x20000#32
def tdTypeIso : BitVec 32 := 0x30000#32
def tdCtrlData : BitVec 32 := 0x8000#32
/-- `1 << 25`, the data toggle of a TD -/
def tdToggle : BitVec 32 := 0x02000000#32

/-- `ed_make_info` for a control endpoint of unknown packet size -/
def guessMaxPacketSize0 (d : DevId) (s : Ohci) : Ohci :=
  if (s.udev d).bMaxPacketSize0 = 0 then
    { s with udev := Function.update s.udev d { s.udev d with
        bMaxPacketSize0 := if (s.udev d).speed = .low then 8 else 64 } }
  else s

/-- The word `ed_make_info` returns; a control endpoint has no `ep`. -/
def edMakeInfo (udev : Udev) (ep : Option EpInfo) : BitVec 32 :=
  let info : BitVec 32 := match ep with
    | none => udev.bMaxPacketSize0.setWidth 32 <<< 16
    | some ep =>
      (ep.wMaxPacketSize.setWidth 32 <<< 16) |||
        ((ep.bEndpointAddress &&& 0xf#8).setWidth 32 <<< 7) |||
        (if ep.isOut then 0x800#32 else 0x1000#32) |||
        (if ep.xferType = epAttrTtIso then 0x8000#32 else 0x0#32)
  info ||| (if udev.speed = .low then 0x2000#32 else 0x0#32) ||| udev.devNum.setWidth 32

/-- `write_td` -/
def writeTd (td : Addr) (info buff dataLen : BitVec 32) (s : Ohci) : Ohci :=
  let empty : Bool := buff = 0 || dataLen = 0
  let cbp := if empty then 0 else buff
  s.setTd td fun t => { t with
    info := info
    cbp := cbp
    be := if empty then 0 else buff + dataLen - 1
    buffStart := cbp }

def setTdEd (td ed : Addr) (s : Ohci) : Ohci := s.setTd td ({ · with ed := some ed })

def setNextTD (td : Addr) (p : Ptr) (s : Ohci) : Ohci :=
  s.setLists { s.toLists with nextTD := Function.update s.nextTD td p }

/-! ## Control transfers -/

/-- `td = alloc_ohci_TD(utr);`, not tested yet -/
def tryAllocTd (u : UtrId) (s : Ohci) : Ptr × Ohci :=
  match s.allocOhciTd (some u) with
  | some (td, s) => (some td, s)
  | none => (none, s)

/-- `if (td) free_ohci_TD(td);` -/
def freeIfSome (td : Ptr) (s : Ohci) : Ohci :=
  match td with
  | some td => s.free .td td
  | none => s

/-- The label `mem_err` of `ohci_ctrl_xfer`. -/
def ctrlMemErr (setup data status : Ptr) (s : Ohci) : Int × Ohci :=
  (usbhErrMemoryOut, freeIfSome status (freeIfSome data (freeIfSome setup s)))

/-- The stages of a control transfer. -/
def ctrlStages (u : UtrId) (ed setup : Addr) (data : Ptr) (status : Addr) (s : Ohci) : Ohci :=
  let utr := s.utr u
  let isOut := utr.setup.bmRequestType &&& 0x80#8 == 0#8
  let s := setTdEd setup ed (writeTd setup (tdCc ||| tdTData0 ||| tdTypeCtrl) utr.setupAddr 8 s)
  let s := match data with
    | some data =>
      let info := tdCc ||| tdR ||| (if isOut then tdDpOut else tdDpIn) ||| tdTData1 ||| tdTypeCtrl |||
        tdCtrlData
      let s := setTdEd data ed (writeTd data info utr.buff utr.dataLen s)
      setNextTD data (some status) (setNextTD setup (some data) s)
    | none => setNextTD setup (some status) s
  let s := guessMaxPacketSize0 utr.udev s
  let info := tdCc ||| (if isOut then tdDpIn else tdDpOut) ||| tdTData1 ||| tdTypeCtrl
  setNextTD status none (setTdEd status ed (writeTd status info 0 0 s))

/-- The ED of a control transfer becomes the control list. -/
def ctrlLink (u : UtrId) (ed setup : Addr) (s : Ohci) : Ohci :=
  let d := (s.utr u).udev
  { s with
    tailP := Function.update s.tailP ed none
    headP := Function.update s.headP ed (some setup)
    edHalt := Function.update s.edHalt ed false
    edCarry := Function.update s.edCarry ed false
    edInfo := Function.update s.edInfo ed (edMakeInfo (s.udev d) none)
    nextED := Function.update s.nextED ed none
    tdCnt := Function.update s.tdCnt u (if 0 < (s.utr u).dataLen then 3 else 2)
    utrEp := Function.update s.utrEp u (some (.ep0 d))
    hwPipe := Function.update s.hwPipe (.ep0 d) (.ed ed)
    hcControlHeadED := some ed
    cle := true }

/-- `ohci_ctrl_xfer` once its TDs are there. -/
def ctrlOnTds (u : UtrId) (setup : Addr) (data : Ptr) (status : Addr) (s : Ohci) :
    Option (Int × Ohci) :=
  match s.hwPipe (.ep0 (s.utr u).udev) with
  | .null =>
    match s.allocOhciEd with
    | none => some (ctrlMemErr (some setup) data (some status) s)
    | some (ed, s) => some (0, ctrlLink u ed setup (ctrlStages u ed setup data status s))
  | .ed ed => some (0, ctrlLink u ed setup (ctrlStages u ed setup data status s))
  | _ => none

def ohciCtrlXfer (u : UtrId) (s : Ohci) : Option (Int × Ohci) :=
  let hasData : Bool := 0 < (s.utr u).dataLen
  let setup := tryAllocTd u s
  let data := if hasData then tryAllocTd u setup.2 else (none, setup.2)
  if hasData ∧ data.1 = none then some (ctrlMemErr setup.1 none none data.2)
  else
    let status := tryAllocTd u data.2
    match setup.1, status.1 with
    | some td, some st => ctrlOnTds u td data.1 st status.2
    | _, _ => some (ctrlMemErr setup.1 data.1 status.1 status.2)

/-! ## Looking for an ED -/

/-- `while (ed) { if (ed->Info == info) break; ed = ed->NextED; }` -/
def findInfo (m : Lists) (info : BitVec 32) : Nat → Ptr → Option Ptr
  | 0, _ => none
  | _ + 1, none => some none
  | n + 1, some ed => if m.edInfo ed = info then some (some ed) else findInfo m info n (m.nextED ed)

/-- The loop of `get_int_tree_head_node`: which head it returns. -/
def intTreeHeadIndex : Nat → Nat → Nat → Nat
  | 0, i, _ => i
  | n + 1, i, interval =>
    if interval >>> 1 = 0 then i else intTreeHeadIndex n (i + 1) (interval >>> 1)

def treeIndex (interval : Nat) : Nat := intTreeHeadIndex 5 0 interval

def getIntTreeHeadNode (m : Lists) (interval : Nat) : Addr := m.ied (treeIndex interval)

/-- `get_ohci_interval` -/
def getOhciInterval (interval : Nat) : Nat := 2 ^ treeIndex interval

/-! ## Bulk transfers -/

/-- Chaining a TD to the end of `td_list`. -/
def chainTd (list : Ptr) (td : Addr) (s : Ohci) : Option (Addr × Ohci) :=
  match list with
  | none => some (td, s)
  | some first => (lastFrom s.nextTD ohciFuel first).map fun p => (first, setNextTD p (some td) s)

/-- The slice of one bulk TD. -/
def bulkLen (dataLen : BitVec 32) : BitVec 32 := if 4096#32 < dataLen then 4096#32 else dataLen

/-- One pass of the loop over the slices, with its TD allocated. -/
def bulkTd (u : UtrId) (e : EpId) (ed td : Addr) (buff dataLen : BitVec 32) (s : Ohci) : Ohci :=
  let info := (tdCc ||| tdR ||| (if (s.ep e).isOut then tdDpOut else tdDpIn) ||| tdTypeBulk) &&&
    ~~~tdToggle
  let s := setTdEd td ed (writeTd td info buff (bulkLen dataLen) s)
  s.setTdCnt u (s.tdCnt u + 1)

/-- `do … while (data_len > 0)`; `false` is a failed allocation. -/
def bulkTds (u : UtrId) (e : EpId) (ed : Addr) :
    Nat → BitVec 32 → BitVec 32 → Ptr → Ohci → Option (Bool × Ptr × Ohci)
  | 0, _, _, _, _ => none
  | n + 1, buff, dataLen, list, s =>
    match s.allocOhciTd (some u) with
    | none => some (false, list, s)
    | some (td, s) =>
      (chainTd list td (bulkTd u e ed td buff dataLen s)).bind fun r =>
        if dataLen - bulkLen dataLen = 0 then some (true, some r.1, r.2)
        else bulkTds u e ed n (buff + bulkLen dataLen) (dataLen - bulkLen dataLen) (some r.1) r.2

/-- Enough passes for a transfer. -/
def bulkSlices (dataLen : BitVec 32) : Nat := dataLen.toNat / 4096 + 1

/-- The loop that gives a TD list back. -/
def freeTdChain : Nat → Ptr → Ohci → Option Ohci
  | 0, _, _ => none
  | _ + 1, none, s => some s
  | n + 1, some td, s => freeTdChain n (s.nextTD td) (s.free .td td)

/-- The label `mem_out` of `ohci_bulk_xfer` and `ohci_iso_xfer`. -/
def memOut (ed : Addr) (list : Ptr) (s : Ohci) : Option (Int × Ohci) :=
  (freeTdChain ohciFuel list s).map fun s => (usbhErrMemoryOut, s.free .ed ed)

def bulkStart (u : UtrId) (ed : Addr) (isNewED : Bool) (list : Ptr) (s : Ohci) : Ohci :=
  let s := s.setUtr u ({ · with status := 0 })
  { s with
    headP := Function.update s.headP ed list
    edHalt := Function.update s.edHalt ed false
    edCarry := if isNewED then Function.update s.edCarry ed false else s.edCarry
    nextED := if isNewED then Function.update s.nextED ed s.hcBulkHeadED else s.nextED
    hcBulkHeadED := if isNewED then some ed else s.hcBulkHeadED
    ble := true }

/-- `ohci_bulk_xfer` behind the choice of the ED. -/
def bulkOnEd (u : UtrId) (e : EpId) (ed : Addr) (isNewED : Bool) (s : Ohci) :
    Option (Int × Ohci) :=
  let s := (s.setHwPipe e (.ed ed)).setTdCnt u 0
  let utr := s.utr u
  (bulkTds u e ed (bulkSlices utr.dataLen) utr.buff utr.dataLen none s).bind fun r =>
    if r.1 then some (0, bulkStart u ed isNewED r.2.1 r.2.2) else memOut ed r.2.1 r.2.2

def ohciBulkXfer (u : UtrId) (s : Ohci) : Option (Int × Ohci) := do
  let e ← s.utrEp u
  let info := edMakeInfo (s.udev (s.utr u).udev) (some (s.ep e))
  match ← findInfo s.toLists info ohciFuel s.hcBulkHeadED with
  | some ed =>
    if s.headP ed ≠ s.tailP ed then some (usbhErrOhciEpBusy, s) else bulkOnEd u e ed false s
  | none =>
    match s.allocOhciEd with
    | none => some (usbhErrMemoryOut, s)
    | some (ed, s) =>
      bulkOnEd u e ed true { s with edInfo := Function.update s.edInfo ed info }

/-! ## Interrupt transfers -/

/-- `ed->NextED = ied->NextED; ied->NextED = ed;` -/
def linkUnder (ied ed : Addr) (s : Ohci) : Ohci :=
  s.setLists { s.toLists with
    nextED := Function.update (Function.update s.nextED ed (s.nextED ied)) ied (some ed) }

/-- A new ED for a periodic endpoint. -/
def newPeriodicEd (e : EpId) (info : BitVec 32) (ed : Addr) (s : Ohci) : Ohci :=
  { s with
    edInfo := Function.update s.edInfo ed info
    bInterval := Function.update s.bInterval ed (s.ep e).bInterval }

/-- `ohci_int_xfer` once the ED, its dummy TD and the new one are there. -/
def intOnEd (u : UtrId) (e : EpId) (ed td tdNew : Addr) (isNewED : Bool) (s : Ohci) :
    Int × Ohci :=
  let s := s.setHwPipe e (.ed ed)
  let utr := s.utr u
  let info := tdCc ||| tdR ||| (if (s.ep e).isOut then tdDpOut else tdDpIn) ||| tdTypeInt
  let info := (info &&& ~~~tdToggle) ||| ((s.td td).info &&& tdToggle)
  let s := setTdEd td ed (writeTd td info utr.buff utr.dataLen s)
  let s := (setNextTD td (some tdNew) s).setTd td ({ · with utr := some u })
  let s := (s.setTdCnt u 1).setUtr u ({ · with status := 0 })
  let s := s.setLists { s.toLists with tailP := Function.update s.tailP ed (some tdNew) }
  let s := if isNewED then
      linkUnder (getIntTreeHeadNode s.toLists (s.ep e).bInterval) ed s
    else s
  (0, { s with ple := true })

/-- `ohci_int_xfer` for an endpoint without an ED; `td_new` stays where it is when the ED
cannot be allocated. -/
def intNewEd (u : UtrId) (e : EpId) (info : BitVec 32) (tdNew : Addr) (s : Ohci) : Int × Ohci :=
  match s.allocOhciEd with
  | none => (usbhErrMemoryOut, s)
  | some (ed, s) =>
    let s := newPeriodicEd e info ed s
    match s.allocOhciTd none with
    | none => (usbhErrMemoryOut, (s.free .ed ed).free .td tdNew)
    | some (td, s) =>
      intOnEd u e ed td tdNew true (s.setLists { s.toLists with
        headP := Function.update s.headP ed (some td)
        tailP := Function.update s.tailP ed (some td) })

def ohciIntXfer (u : UtrId) (s : Ohci) : Option (Int × Ohci) :=
  if 64#32 < (s.utr u).dataLen then some (usbhErrInvalidParam, s)
  else
    match s.allocOhciTd (some u) with
    | none => some (usbhErrMemoryOut, s)
    | some (tdNew, s) => do
      let e ← s.utrEp u
      let info := edMakeInfo (s.udev (s.utr u).udev) (some (s.ep e))
      match ← findInfo s.toLists info ohciFuel
        (some (getIntTreeHeadNode s.toLists (s.ep e).bInterval)) with
      | some ed => do
        let td ← s.tailP ed
        some (intOnEd u e ed td tdNew false s)
      | none => some (intNewEd u e info tdNew s)

/-! ## Isochronous transfers -/

def ohciIsoDelay : BitVec 16 := 4

/-- The words of the isochronous TD of frame `i`. -/
def isoTd (u : UtrId) (ed td : Addr) (i : Nat) (s : Ohci) : Ohci :=
  let buffAddr := (s.utr u).isoBuff i
  let s := s.setTd td fun t => { t with
    info := (tdCc ||| tdTypeIso) ||| (s.nextSf ed).setWidth 32
    cbp := buffAddr &&& ~~~0xFFF#32
    be := buffAddr + ((s.utr u).isoXlen i).setWidth 32 - 1
    psw0 := 0xE000#16 ||| (buffAddr &&& 0xFFF#32).setWidth 16
    ed := some ed }
  { s with
    nextSf := Function.update s.nextSf ed
      (s.nextSf ed + BitVec.ofNat 16 (getOhciInterval (s.bInterval ed)))
    tdCnt := Function.update s.tdCnt u (s.tdCnt u + 1) }

/-- The loop over the frames of a request, `last` being the end of `td_list`; `false` is a
failed allocation. -/
def isoTds (u : UtrId) (ed : Addr) : Nat → Nat → Ptr → Ptr → Ohci → Bool × Ptr × Ohci
  | 0, _, list, _, s => (true, list, s)
  | n + 1, i, list, last, s =>
    let s := s.setUtr u fun r => { r with
      isoStatus := Function.update r.isoStatus i usbhErrNotAccess1 }
    match s.allocOhciTd (some u) with
    | none => (false, list, s)
    | some (td, s) =>
      let s := isoTd u ed td i s
      let s := match last with
        | some p => setNextTD p (some td) s
        | none => s
      isoTds u ed n (i + 1) (list.or (some td)) (some td) s

/-- `td_list` goes behind the TDs of the ED. -/
def isoQueue (ed : Addr) (list : Ptr) (s : Ohci) : Option Ohci :=
  match s.headP ed with
  | none =>
    some { s with
      headP := Function.update s.headP ed list
      edHalt := Function.update s.edHalt ed false }
  | some td => (lastFrom s.nextTD ohciFuel td).map fun p => setNextTD p list s

/-- `ohci_iso_xfer` behind the choice of the ED. -/
def isoOnEd (u : UtrId) (e : EpId) (ed : Addr) (isNewED : Bool) (s : Ohci) :
    Option (Int × Ohci) :=
  let s : Ohci := if (s.utr u).bIsoNewSched then
      { s with nextSf := Function.update s.nextSf ed (s.frameNo + ohciIsoDelay) }
    else s
  let s := (s.setTdCnt u 0).setUtr u ({ · with isoSf := (s.nextSf ed).toNat })
  let r := isoTds u ed ifPerUtr 0 none none s
  if r.1 then
    (isoQueue ed r.2.1 (r.2.2.setUtr u ({ · with status := 0 }))).map fun s =>
      let s := if isNewED then
          linkUnder (getIntTreeHeadNode s.toLists (s.ep e).bInterval) ed s
        else s
      (0, { s with ple := true, ie := true })
  else memOut ed r.2.1 r.2.2

def ohciIsoXfer (u : UtrId) (s : Ohci) : Option (Int × Ohci) := do
  let e ← s.utrEp u
  let info := edMakeInfo (s.udev (s.utr u).udev) (some (s.ep e))
  match ← findInfo s.toLists info ohciFuel
    (some (getIntTreeHeadNode s.toLists (s.ep e).bInterval)) with
  | some ed => isoOnEd u e ed false (s.setHwPipe e (.ed ed))
  | none =>
    match s.allocOhciEd with
    | none => some (usbhErrMemoryOut, s)
    | some (ed, s) => isoOnEd u e ed true (newPeriodicEd e info ed s)

end Ma35d1.UsbHost.Ohci
