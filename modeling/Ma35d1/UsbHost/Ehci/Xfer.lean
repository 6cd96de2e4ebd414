import Ma35d1.UsbHost.Ehci.State

/-!
# Control, bulk and interrupt submissions

`ehci_ctrl_xfer`, `ehci_bulk_xfer` and `ehci_int_xfer`. The outer option is `none`
where the source follows a null pointer.
-/

namespace Ma35d1.UsbHost.Ehci

/-! ## Token bits -/

def qtdStsActive : BitVec 32 := 0x80#32
def qtdErrCounter : BitVec 32 := 0xC00#32
def qtdPidOut : BitVec 32 := 0x000#32
def qtdPidIn : BitVec 32 := 0x100#32
def qtdPidSetup : BitVec 32 := 0x200#32
def qtdIoc : BitVec 32 := 0x8000#32
def qtdDt : BitVec 32 := 0x80000000#32

/-! ## Queue heads -/

/-- The walk of `write_qh` up the device tree: the port and the address of the
first high-speed hub. -/
def backtraceHub : BitVec 8 → List Hub → Option (BitVec 8 × BitVec 8)
  | _, [] => none
  | port, h :: hubs =>
    if h.speed ≠ .high then backtraceHub h.portNum hubs else some (port, h.devNum)

/-- `write_qh` for a control endpoint of unknown packet size -/
def guessMaxPacketSize0 (d : DevId) (ep : Option EpId) (s : Ehci) : Ehci :=
  if ep = none ∧ (s.udev d).bMaxPacketSize0 = 0 then
    { s with udev := Function.update s.udev d { s.udev d with
        bMaxPacketSize0 := if (s.udev d).speed = .low then 8 else 64 } }
  else s

/-- `chrst` of `write_qh` -/
def qhChrst (d : DevId) (ep : Option EpId) (s : Ehci) : BitVec 32 :=
  let udev := s.udev d
  let chrst : BitVec 32 := match ep with
    | none =>
      (0x4000#32 ||| 0x40000000#32 ||| (udev.bMaxPacketSize0.setWidth 32 <<< 16)) |||
        (if udev.speed ≠ .high then 0x8000000#32 else 0)
    | some e =>
      0x40000000#32 ||| ((s.ep e).wMaxPacketSize.setWidth 32 <<< 16) |||
        (((s.ep e).bEndpointAddress &&& 0xf#8).setWidth 32 <<< 8)
  let chrst := chrst ||| (match udev.speed with
    | .low => 0x1000#32
    | .full => 0x0#32
    | .high => 0x2000#32)
  chrst ||| udev.devNum.setWidth 32

/-- `cap` of `write_qh` -/
def qhCap (udev : Udev) : Option (BitVec 32) :=
  if udev.speed = .high then some 0x40000000#32
  else (backtraceHub udev.portNum udev.parent).map fun r =>
    ((r.1.setWidth 32 : BitVec 32) <<< 23) ||| ((r.2.setWidth 32 : BitVec 32) <<< 16)

/-- `write_qh`; a control endpoint has no `ep` -/
def writeQh (d : DevId) (ep : Option EpId) (qh : Addr) (s : Ehci) : Option Ehci :=
  let s := guessMaxPacketSize0 d ep s
  (qhCap (s.udev d)).map fun cap =>
    s.setQhHw qh ({ · with chrst := qhChrst d ep s, cap := cap })

/-- `make_int_s_mask`: `interval` is an `int` and wraps -/
def makeIntSMask (bInterval : Nat) : BitVec 32 :=
  let interval : BitVec 32 := 1#32 <<< (bInterval - 1)
  if interval.slt 2 then 0xFF#32
  else if interval.slt 4 then 0x55#32
  else if interval.slt 8 then 0x22#32
  else 1#32 <<< (interval.toNat.log2 % 8)

/-- The loop of `get_int_tree_head_node`: which head it returns. -/
def intTreeHeadIndex : Nat → Nat → Nat → Nat
  | 0, i, _ => i
  | n + 1, i, interval => if interval >>> 1 = 0 then i else intTreeHeadIndex n (i + 1) (interval >>> 1)

def getIntTreeHeadNode (s : Ehci) (interval : Nat) : Nat × Addr :=
  let i := intTreeHeadIndex (numIqh - 1) 0 (interval / 8)
  (i, s.iqh i)

/-! ## Transfer descriptors -/

def writeQtdBptr (qtd : Addr) (buffAddr : BitVec 32) (xferLen : BitVec 32) (s : Ehci) : Ehci :=
  let page := (buffAddr + 0x1000#32) &&& ~~~0xFFF#32
  { s.setQtdHw qtd fun q => { q with
      bptr := fun i => if i = 0 then buffAddr else page + BitVec.ofNat 32 (0x1000 * (i - 1)) } with
    qtdXferLen := Function.update s.qtdXferLen qtd xferLen }

def setToken (qtd : Addr) (t : BitVec 32) (s : Ehci) : Ehci :=
  { s with token := Function.update s.token qtd t }

/-- `qtd->qh = qh; append_to_qtd_list_of_QH(qh, qtd); qtd->Token = t;` -/
def appendQtd (qh qtd : Addr) (t : BitVec 32) (s : Ehci) : Option Ehci :=
  (s.appendToQtdListOfQh qh qtd).map fun m =>
    setToken qtd t ({ s.setLinks m with qtdQh := Function.update s.qtdQh qtd (some qh) })

/-- `qh->HLink = at->HLink; at->HLink = QH_HLNK_QH(qh);` -/
def insertQh (at' qh : Addr) (i : Option Nat) (s : Ehci) : Ehci :=
  s.setLinks { s.toLinks with
    hLink := Function.update (Function.update s.hLink qh (s.hLink at')) at' (.qh qh)
    insertedUnder := Function.update s.insertedUnder qh i }

/-! ## Control transfers -/

/-- `(ptr_to_u32(utr->buff) + utr->data_len) > ((ptr_to_u32(utr->buff) & ~0xFFF) + 0x5000)` -/
def buffOverrun (u : Utr) : Bool :=
  0 < u.dataLen && (u.buff &&& ~~~0xFFF#32) + 0x5000#32 < u.buff + u.dataLen

def setNextQtd (qtd : Addr) (l : QtdLink) (s : Ehci) : Ehci :=
  s.setQtdHw qtd ({ · with nextQtd := l })

def setAltNextQtd (qtd : Addr) (l : QtdLink) (s : Ehci) : Ehci :=
  s.setQtdHw qtd ({ · with altNextQtd := l })

/-- The stages of a control transfer once its qTDs are there. -/
def ctrlStages (u : UtrId) (qh : Addr) (setup : Addr) (data : Option Addr) (status : Addr)
    (s : Ehci) : Option Ehci := do
  let utr := s.utr u
  let isOut := utr.setup.bmRequestType &&& 0x80#8 == 0#8
  let s := writeQtdBptr setup utr.setupAddr 8 s
  let s ← appendQtd qh setup ((8#32 <<< 16) ||| qtdErrCounter ||| qtdPidSetup ||| qtdStsActive) s
  let s ← match data with
    | some data => do
      let s := setNextQtd data (.qtd status) (setNextQtd setup (.qtd data) s)
      let s := writeQtdBptr data utr.buff utr.dataLen s
      appendQtd qh data (qtdDt ||| (utr.dataLen <<< 16) |||
        (qtdErrCounter ||| (if isOut then qtdPidOut else qtdPidIn) ||| qtdStsActive)) s
    | none => some (setNextQtd setup (.qtd status) s)
  let s := setAltNextQtd status .listEnd (setNextQtd status (.qtd s.ghostQtd) s)
  let s ← appendQtd qh status (qtdDt ||| qtdIoc |||
    (qtdErrCounter ||| (if isOut then qtdPidIn else qtdPidOut) ||| qtdStsActive)) s
  some (s.setQhHw qh ({ · with
    currQtd := .null, olNextQtd := .qtd setup, olAltNextQtd := .listEnd, olToken := 0 }))

/-- `qtd = alloc_ehci_qTD(utr);`, not tested yet -/
def tryAllocQtd (u : UtrId) (s : Ehci) : Ptr × Ehci :=
  match s.allocEhciQtd (some u) with
  | some (qtd, s) => (some qtd, s)
  | none => (none, s)

/-- `if (qtd) free_ehci_qTD(qtd);` -/
def freeIfSome (qtd : Ptr) (s : Ehci) : Ehci :=
  match qtd with
  | some qtd => s.free .qtd qtd
  | none => s

/-- A new QH goes into the ring, and the asynchronous schedule is switched on. -/
def linkAsync (qh : Addr) (isNewQh : Bool) (s : Ehci) : Ehci :=
  { (if isNewQh then insertQh s.hQh qh none s else s) with asen := true }

/-- `ehci_ctrl_xfer` once the last qTD is there; the others are not tested. -/
def ctrlFill (u : UtrId) (qh : Addr) (isNewQh hasData : Bool) (setup data : Ptr) (status : Addr)
    (s : Ehci) : Option (Int × Ehci) :=
  match setup with
  | none => none
  | some setup =>
    if hasData ∧ data = none then none
    else (ctrlStages u qh setup data status s).map fun s => (0, linkAsync qh isNewQh s)

/-- `ehci_ctrl_xfer` behind the choice of the QH. -/
def ctrlOnQh (u : UtrId) (qh : Addr) (isNewQh : Bool) (s : Ehci) : Option (Int × Ehci) :=
  let d := (s.utr u).udev
  let hasData : Bool := 0 < (s.utr u).dataLen
  (writeQh d none qh s).bind fun s =>
    let s : Ehci := { s with utrEp := Function.update s.utrEp u (some (.ep0 d)) }
    let setup := tryAllocQtd u s
    let data := if hasData then tryAllocQtd u setup.2 else (none, setup.2)
    match data.2.allocEhciQtd (some u) with
    | none => some (usbhErrMemoryOut, freeIfSome data.1 (freeIfSome setup.1 data.2))
    | some (status, s) => ctrlFill u qh isNewQh hasData setup.1 data.1 status s

def ehciCtrlXfer (u : UtrId) (s : Ehci) : Option (Int × Ehci) :=
  let d := (s.utr u).udev
  if buffOverrun (s.utr u) then some (usbhErrBuffOverrun, s)
  else match s.hwPipe (.ep0 d) with
    | .qh qh => if s.qtdList qh ≠ none then some (usbhErrEhciQhBusy, s) else ctrlOnQh u qh false s
    | .null =>
      match s.allocEhciQh with
      | none => some (usbhErrMemoryOut, s)
      | some (qh, s) => ctrlOnQh u qh true (s.setHwPipe (.ep0 d) (.qh qh))
    | _ => none

/-! ## Bulk transfers -/

/-- One pass of the loop over the slices, with its qTD allocated. -/
def bulkSlice (e : EpId) (qh qtd : Addr) (buff dataLen : BitVec 32) (qtdPre : Ptr)
    (s : Ehci) : Option Ehci :=
  let pid := if (s.ep e).isOut then qtdPidOut else qtdPidIn
  let token := qtdErrCounter ||| pid ||| qtdStsActive
  let xferLen := if 0x4000#32 < dataLen then 0x4000#32 else dataLen
  let s := setAltNextQtd qtd .listEnd (setNextQtd qtd (.qtd s.ghostQtd) s)
  let s := writeQtdBptr qtd buff xferLen s
  (appendQtd qh qtd ((xferLen <<< 16) ||| token) s).map fun s =>
    let s := if dataLen - xferLen = 0 then
        setNextQtd qtd (.qtd s.ghostQtd) (setToken qtd (s.token qtd ||| qtdIoc) s)
      else s
    match qtdPre with
    | some p => setNextQtd p (.qtd qtd) s
    | none => s

/-- `while (data_len > 0)`, by 16 KB slices; `false` is a failed allocation. -/
def bulkQtds (u : UtrId) (e : EpId) (qh : Addr) :
    Nat → BitVec 32 → BitVec 32 → Ptr → Ehci → Option (Bool × Ehci)
  | 0, _, _, _, s => some (true, s)
  | n + 1, buff, dataLen, qtdPre, s =>
    if dataLen = 0 then some (true, s)
    else
      match s.allocEhciQtd (some u) with
      | none => some (false, s)
      | some (qtd, s) =>
        let xferLen := if 0x4000#32 < dataLen then 0x4000#32 else dataLen
        (bulkSlice e qh qtd buff dataLen qtdPre s).bind fun s =>
          bulkQtds u e qh n (buff + xferLen) (dataLen - xferLen) (some qtd) s

/-- The number of slices of a transfer. -/
def bulkSlices (dataLen : BitVec 32) : Nat := (dataLen.toNat + 0x3fff) / 0x4000

/-- The loop that gives a qTD list back; the next qTD is read before the free. -/
def freeQtdChain : Nat → Ptr → Ehci → Option Ehci
  | 0, _, _ => none
  | _ + 1, none, s => some s
  | n + 1, some q, s => freeQtdChain n (s.qtdNext q) (s.free .qtd q)

/-- `ehci_bulk_xfer` when a qTD could not be allocated. -/
def bulkFail (e : EpId) (qh : Addr) (isNewQh : Bool) (s : Ehci) : Option (Int × Ehci) :=
  (freeQtdChain walkFuel (s.qtdList qh) s).map fun s =>
    (usbhErrMemoryOut, if isNewQh then (s.free .qh qh).setHwPipe e .null else s)

/-- `ehci_bulk_xfer` when all qTDs are there; a new QH copies words of the first one. -/
def bulkStart (e : EpId) (qh : Addr) (isNewQh : Bool) (s : Ehci) : Option (Int × Ehci) :=
  let first := s.qtdList qh
  let s := s.setQhHw qh ({ · with olNextQtd := (first.map QtdLink.qtd).getD .null })
  if isNewQh then
    first.map fun q =>
      (0, linkAsync qh true (s.setQhHw qh ({ · with
        olBptr := (s.qtdHw q).bptr, currQtd := .qtd q
        olToken := if s.bToggle e then qtdDt else 0 })))
  else some (0, linkAsync qh false s)

/-- `ehci_bulk_xfer` behind the choice of the QH. -/
def bulkOnQh (u : UtrId) (e : EpId) (qh : Addr) (isNewQh : Bool) (s : Ehci) :
    Option (Int × Ehci) :=
  let utr := s.utr u
  (bulkQtds u e qh (bulkSlices utr.dataLen) utr.buff utr.dataLen none s).bind fun r =>
    if r.1 then bulkStart e qh isNewQh r.2 else bulkFail e qh isNewQh r.2

def ehciBulkXfer (u : UtrId) (s : Ehci) : Option (Int × Ehci) := do
  let e ← s.utrEp u
  match s.hwPipe e with
  | .qh qh => if s.qtdList qh ≠ none then some (usbhErrEhciQhBusy, s) else bulkOnQh u e qh false s
  | .null =>
    match s.allocEhciQh with
    | none => some (usbhErrMemoryOut, s)
    | some (qh, s) => do
      let s ← writeQh (s.utr u).udev (some e) qh s
      bulkOnQh u e qh true (s.setHwPipe e (.qh qh))
  | _ => none

/-! ## Interrupt transfers -/

/-- The words `ehci_int_xfer` changes in a QH fresh from `write_qh`. -/
def writeIntQh (d : DevId) (e : EpId) (qh : Addr) (s : Ehci) : Ehci :=
  s.setQhHw qh fun q => { q with
    chrst := q.chrst &&& ~~~0xF0000000#32
    cap :=
      if (s.udev d).speed = .high then
        (1#32 <<< 30) ||| (q.cap &&& 0xff#32) ||| makeIntSMask (s.ep e).bInterval
      else (1#32 <<< 30) ||| (q.cap &&& ~~~(0xFF00#32 ||| 0x00FF#32)) ||| 0x7802#32 }

/-- A new interrupt QH copies the words of its qTD and goes under its interval head. -/
def linkIntQh (d : DevId) (e : EpId) (qh qtd : Addr) (s : Ehci) : Ehci :=
  let s := s.setQhHw qh ({ · with
    olBptr := (s.qtdHw qtd).bptr, currQtd := .qtd qtd, olToken := s.token qtd })
  let bInterval := (s.ep e).bInterval
  let iqh := s.getIntTreeHeadNode (if (s.udev d).speed = .high then bInterval else bInterval * 8)
  insertQh iqh.2 qh (some iqh.1) s

/-- `ehci_int_xfer` once the qTD is there. -/
def intStart (u : UtrId) (e : EpId) (qh qtd : Addr) (isNewQh : Bool) (s : Ehci) :
    Option (Int × Ehci) :=
  let utr := s.utr u
  let pid := if (s.ep e).isOut then qtdPidOut else qtdPidIn
  let token := qtdErrCounter ||| pid ||| qtdStsActive
  let s := setAltNextQtd qtd .listEnd (setNextQtd qtd .listEnd s)
  let s := writeQtdBptr qtd utr.buff utr.dataLen s
  (appendQtd qh qtd (qtdIoc ||| (utr.dataLen <<< 16) ||| token) s).map fun s =>
    let s := s.setQhHw qh ({ · with olNextQtd := .qtd qtd })
    let s := if isNewQh then linkIntQh utr.udev e qh qtd s else s
    (0, { s with psen := true })

/-- `ehci_int_xfer` behind the choice of the QH. -/
def intOnQh (u : UtrId) (e : EpId) (qh : Addr) (isNewQh : Bool) (s : Ehci) :
    Option (Int × Ehci) :=
  match s.allocEhciQtd (some u) with
  | none =>
    some (usbhErrMemoryOut, if isNewQh then (s.free .qh qh).setHwPipe e .null else s)
  | some (qtd, s) => intStart u e qh qtd isNewQh s

def ehciIntXfer (u : UtrId) (s : Ehci) : Option (Int × Ehci) := do
  let e ← s.utrEp u
  match s.hwPipe e with
  | .qh qh => if s.qtdList qh ≠ none then some (usbhErrEhciQhBusy, s) else intOnQh u e qh false s
  | .null =>
    match s.allocEhciQh with
    | none => some (usbhErrMemoryOut, s)
    | some (qh, s) => do
      let s ← writeQh (s.utr u).udev (some e) qh s
      intOnQh u e qh true ((writeIntQh (s.utr u).udev e qh s).setHwPipe e (.qh qh))
  | _ => none

end Ma35d1.UsbHost.Ehci
