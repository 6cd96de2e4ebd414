import Ma35d1.UsbHost.Ehci.State

/-!
# Isochronous transfers

`ehci_iso.c`: submission of high-speed (iTD) and split (siTD) transfers, the scan
that reclaims them and the quit of an endpoint. The software fields of the two
descriptors are handled by the same code, with the `IsoKind` as a parameter.
-/

namespace Ma35d1.UsbHost.Ehci

def ehciIsoDelay : Nat := 2
def ehciIsoRclmRange : Nat := 32

/-- `(_ehci->UFINDR >> 3) & 0x3FF` -/
def nowFrame (s : Ehci) : Nat := s.ufindr / 8 % 1024

/-- `(((_ehci->UFINDR + (EHCI_ISO_DELAY * 8)) & HSUSBH_UFINDR_FI_Msk) >> 3) & 0x3FF` -/
def newSchedFrame (s : Ehci) : Nat := (s.ufindr + ehciIsoDelay * 8) % 0x4000 / 8 % 1024

/-! ## Reviewing descriptors -/

/-- The window test of `review_itd` and `review_sitd`; `busy` is the test they make
when the controller is in the descriptor's own frame. -/
def outOfWindow (now frnidx : Nat) (busy : Bool) : Bool :=
  if now = frnidx then busy
  else if frnidx < now then ehciIsoRclmRange < now - frnidx
  else ehciIsoRclmRange < now + flSize - frnidx

def itdStatusActive : BitVec 32 := 0x80000000#32
def itdStatusBuffErr : BitVec 32 := 0x40000000#32
def itdStatusBabble : BitVec 32 := 0x20000000#32

/-- A slot of the request written from descriptor `a`. -/
def writeSlot (u : UtrId) (a : Addr) (fidx : Nat) (f : Utr → Utr) (s : Ehci) : Ehci :=
  (s.setUtr u f).log (.slot u fidx a)

/-- The results of one micro-frame of an iTD. -/
def collectItd (u : UtrId) (a : Addr) (t : BitVec 32) (fidx : Nat) (s : Ehci) : Ehci :=
  let fail (slot : Int) (status : Int) : Ehci :=
    writeSlot u a fidx (fun r => { r with
      isoStatus := Function.update r.isoStatus fidx slot, status := status }) s
  if t >>> 28 &&& 0xF#32 ≠ 0 then
    if t &&& itdStatusActive ≠ 0 then fail usbhErrNotAccess0 usbhErrNotAccess0
    else if t &&& itdStatusBabble ≠ 0 then fail usbhErrBabbleDetected usbhErrTransfer
    else if t &&& itdStatusBuffErr ≠ 0 then fail usbhErrDataBuff usbhErrTransfer
    else fail usbhErrTransaction usbhErrTransfer
  else
    writeSlot u a fidx (fun r => { r with
      isoStatus := Function.update r.isoStatus fidx 0
      isoXlen := Function.update r.isoXlen fidx ((t >>> 16 &&& 0xFFF#32).setWidth 16) }) s

/-- `trans_mask & (0x1<<i)` -/
def inMask (mask : BitVec 8) (i : Nat) : Bool := mask &&& (1#8 <<< i) != 0#8

/-- The loop of `review_itd` over the micro-frames. -/
def collectItds (u : UtrId) (a : Addr) : List Nat → Nat → Ehci → Ehci
  | [], _, s => s
  | i :: is, fidx, s =>
    if inMask (s.itdHw a).transMask i then
      collectItds u a is (fidx + 1) (collectItd u a ((s.itdHw a).transaction i) fidx s)
    else collectItds u a is fidx s

/-- `utr->td_cnt--; if (utr->td_cnt == 0) { … }` -/
def countDown (env : Env) (u : UtrId) (s : Ehci) : Ehci :=
  let s := { s with tdCnt := Function.update s.tdCnt u (s.tdCnt u - 1) }
  if s.tdCnt u = 0 then complete env u s else s

def reviewItd (env : Env) (a : Addr) (s : Ehci) : Option (Bool × Ehci) :=
  let busy := (List.range 8).any fun i => (s.itdHw a).transaction i &&& itdStatusActive != 0#32
  if outOfWindow s.nowFrame (s.schedFrnidx .itd a) busy then some (false, s)
  else do
    let u ← s.tdUtr .itd a
    some (true, countDown env u (collectItds u a (List.range 8) (s.tdFidx .itd a) s))

/-- The results of an siTD. -/
def collectSitd (u : UtrId) (a : Addr) (t : BitVec 32) (fidx : Nat) (s : Ehci) : Ehci :=
  let fail (slot : Int) (status : Utr → Int) : Ehci :=
    writeSlot u a fidx (fun r => { r with
      isoStatus := Function.update r.isoStatus fidx slot, status := status r }) s
  if t &&& 0xFC#32 ≠ 0 then
    -- a missed siTD leaves the status of the request alone
    if t &&& 0x80#32 ≠ 0 then fail usbhErrNotAccess0 (·.status)
    else if t &&& 0x10#32 ≠ 0 then fail usbhErrBabbleDetected fun _ => usbhErrTransfer
    else if t &&& 0x20#32 ≠ 0 then fail usbhErrDataBuff fun _ => usbhErrTransfer
    else fail usbhErrTransaction fun _ => usbhErrTransfer
  else
    writeSlot u a fidx (fun r => { r with
      isoXlen := Function.update r.isoXlen fidx
        (r.isoXlen fidx - ((t &&& (0x3FF#32 <<< 16)) >>> 16).setWidth 16)
      isoStatus := Function.update r.isoStatus fidx 0 }) s

def reviewSitd (env : Env) (a : Addr) (s : Ehci) : Option (Bool × Ehci) :=
  let busy := (s.sitdHw a).stsCtrl &&& 0xFC#32 == 0x80#32
  if outOfWindow s.nowFrame (s.schedFrnidx .sitd a) busy then some (false, s)
  else do
    let u ← s.tdUtr .sitd a
    some (true, countDown env u (collectSitd u a (s.sitdHw a).stsCtrl (s.tdFidx .sitd a) s))

def reviewTd (env : Env) : IsoKind → Addr → Ehci → Option (Bool × Ehci)
  | .itd => reviewItd env
  | .sitd => reviewSitd env

/-! ## `scan_isochronous_list` -/

/-- `if (itd_pre == NULL) iso_ep->itd_list = itd->next; else itd_pre->next = itd->next;` -/
def unlinkFromIsoEp (k : IsoKind) (x : IsoId) (td : Addr) (pre : Ptr) (m : Links) : Links :=
  match pre with
  | none => { m with tdList := Links.setTd m.tdList k x (m.tdNext k td) }
  | some p => { m with tdNext := Links.setTd m.tdNext k p (m.tdNext k td) }

/-- The loop over the descriptors of one endpoint. The controller runs on between two reviews. -/
def scanTds (env : Env) (k : IsoKind) (x : IsoId) : Nat → Ptr → Ptr → Ehci → Option Ehci
  | 0, _, _, _ => none
  | _ + 1, none, _, s => some s
  | n + 1, some td, pre, s => do
    let (reclaim, s) ← reviewTd env k td (env.hc s)
    if reclaim then do
      let m ← s.unlinkFromFrame k td
      let s := s.setLinks (unlinkFromIsoEp k x td pre m)
      scanTds env k x n (s.tdNext k td) pre (s.free k.hw td)
    else scanTds env k x n (s.tdNext k td) (some td) s

def scanIsoEps (env : Env) : Nat → Option IsoId → Ehci → Option Ehci
  | 0, _, _ => none
  | _ + 1, none, s => some s
  | n + 1, some x, s => do
    let s ← scanTds env .itd x n (s.tdList .itd x) none s
    let s ← scanTds env .sitd x n (s.tdList .sitd x) none s
    scanIsoEps env n (s.isoEpNext x) s

def scanIsochronousList (env : Env) (fuel : Nat) (s : Ehci) : Option Ehci :=
  scanIsoEps env fuel s.isoEpList s

/-! ## Submission -/

/-- `trans_mask`, `itd_cnt` and `interval` of a high-speed endpoint. -/
def isoLayout (bInterval : Nat) : BitVec 8 × Nat × Nat :=
  if bInterval < 2 then (0xFF#8, 1, 1)
  else if bInterval < 4 then (0x55#8, 2, 1)
  else if bInterval < 8 then (0x44#8, 4, 1)
  else if bInterval < 16 then (0x08#8, 8, 1)
  else if bInterval < 32 then (0x10#8, 8, 2)
  else if bInterval < 64 then (0x02#8, 8, 4)
  else (0x04#8, 8, 8)

/-- The allocation loop; `false` is a failed allocation, with what was allocated before it. -/
def allocTds (k : IsoKind) : Nat → Ptr → Ehci → Bool × Ptr × Ehci
  | 0, lst, s => (true, lst, s)
  | n + 1, lst, s =>
    match s.allocEhciTd k with
    | none => (false, lst, s)
    | some (td, s) =>
      allocTds k n (some td) (s.setLinks { s.toLinks with tdNext := Links.setTd s.tdNext k td lst })

/-- `malloc_failed:` -/
def freeTds (k : IsoKind) : Nat → Ptr → Ehci → Option Ehci
  | 0, _, _ => none
  | _ + 1, none, s => some s
  | n + 1, some td, s => freeTds k n (s.tdNext k td) (s.free k.hw td)

def linkTd (k : IsoKind) (x : IsoId) (td : Addr) (interval : Nat) (s : Ehci) : Option Ehci :=
  (s.toLinks.linkTd k x td interval).map s.setLinks

def writeItdInfo (u : UtrId) (e : EpId) (td : Addr) (s : Ehci) : Ehci :=
  let udev := s.udev (s.utr u).udev
  let ep := s.ep e
  let page := (s.itdHw td).buffBase &&& 0xFFFFF000#32
  s.setItdHw td fun t => { t with
    bptr := fun i =>
      let p := page + BitVec.ofNat 32 (0x1000 * i)
      if i = 0 then
        p ||| (udev.devNum.setWidth 32 ||| ((ep.bEndpointAddress &&& 0xF#8).setWidth 32 <<< 8))
      else if i = 1 then
        p ||| ep.wMaxPacketSize.setWidth 32 ||| (if ep.isOut then 0 else 0x800#32)
      else if i = 2 then p ||| BitVec.ofNat 32 ((ep.wMaxPacketSize.toNat + 1023) / 1024)
      else p }

def writeItdMicroFrame (u : UtrId) (fidx : Nat) (td : Addr) (mf : Nat) (s : Ehci) : Ehci :=
  let buffAddr := (s.utr u).isoBuff fidx
  s.setItdHw td fun t => { t with
    transaction := Function.update t.transaction mf
      (itdStatusActive ||| (((s.utr u).isoXlen fidx &&& 0xFFF#16).setWidth 32 <<< 16) |||
        ((buffAddr &&& 0xFFFFF000#32) - (t.buffBase &&& 0xFFFFF000#32)) |||
        (buffAddr &&& 0xFFF#32)) }

/-- The loop that settles transfers into micro-frames: the next `fidx`. -/
def fillMicroFrames (u : UtrId) (td : Addr) (mask : BitVec 8) :
    List Nat → Nat → Ehci → Nat × Ehci
  | [], fidx, s => (fidx, s)
  | i :: is, fidx, s =>
    if inMask mask i then
      let s := writeItdMicroFrame u fidx td i s
      if fidx + 1 = ifPerUtr then
        (fidx + 1, s.setItdHw td fun t => { t with
          transaction := Function.update t.transaction i (t.transaction i ||| 0x8000#32) })
      else fillMicroFrames u td mask is (fidx + 1) s
    else
      fillMicroFrames u td mask is fidx
        (s.setItdHw td fun t => { t with transaction := Function.update t.transaction i 0 })

def setTdUtr (k : IsoKind) (td : Addr) (u : UtrId) (fidx : Nat) (s : Ehci) : Ehci :=
  { s with
    tdUtr := Links.setTd s.tdUtr k td (some u)
    tdFidx := Links.setTd s.tdFidx k td (fidx % 256) }

/-- The loop that fills and links the iTDs; `false` is the branch "EHCI driver ITD bug!?". -/
def fillItds (u : UtrId) (e : EpId) (x : IsoId) (mask : BitVec 8) (interval : Nat) :
    Nat → Ptr → Nat → Ehci → Option (Bool × Ehci)
  | 0, _, _, _ => none
  | _ + 1, none, _, s => some (true, s)
  | n + 1, some td, fidx, s =>
    if ifPerUtr ≤ fidx then some (false, s)
    else do
      let s := setTdUtr .itd td u fidx s
      let s := s.setItdHw td ({ · with buffBase := (s.utr u).isoBuff fidx, transMask := mask })
      let r := fillMicroFrames u td mask (List.range 8) fidx (writeItdInfo u e td s)
      let itdNext := r.2.tdNext .itd td
      let s ← linkTd .itd x td interval r.2
      fillItds u e x mask interval n itdNext r.1 s

/-- `sitd_OUT_Smask` -/
def sitdOutSmask : List (BitVec 32) := [0x01#32, 0x03#32, 0x07#32, 0x0f#32, 0x1f#32, 0x3f#32]

/-- `write_sitd_info`; reading outside `sitd_OUT_Smask` is undefined. -/
def writeSitdInfo (u : UtrId) (e : EpId) (td : Addr) (s : Ehci) : Option Ehci := do
  let utr := s.utr u
  let udev := s.udev utr.udev
  let ep := s.ep e
  let fidx := s.tdFidx .sitd td
  let xlen := (utr.isoXlen fidx).toNat
  let hub ← udev.parent.head?
  let chrst : BitVec 32 := (udev.portNum.setWidth 32 <<< 24) ||| (hub.devNum.setWidth 32 <<< 16) |||
    ((ep.bEndpointAddress &&& 0xF#8).setWidth 32 <<< 8) ||| udev.devNum.setWidth 32
  let buff := utr.isoBuff fidx
  let page := (buff &&& 0xFFFFF000#32) + 0x1000#32
  let scnt := (xlen + 187) / 188
  let ioc : BitVec 32 := if fidx = ifPerUtr then 0x80000000#32 else 0
  let stsCtrl := (BitVec.ofNat 32 xlen <<< 16) ||| 0x80#32
  if ep.isOut = false then
    some (s.setSitdHw td fun _ =>
      { chrst := chrst ||| 0x80000000#32
        sched := (((1#32 <<< (scnt + 2)) - 1) <<< 10) ||| 0x1#32 ||| ioc
        stsCtrl := stsCtrl, bptr := fun i => if i = 0 then buff else page
        backLink := .terminate })
  else do
    let smask ← if scnt = 0 then none else sitdOutSmask[scnt - 1]?
    some (s.setSitdHw td fun _ =>
      { chrst := chrst, sched := smask ||| ioc
        stsCtrl := stsCtrl
        bptr := fun i => if i = 0 then buff else
          page ||| (if 1 < scnt then 0x8#32 else 0) ||| BitVec.ofNat 32 scnt
        backLink := .terminate })

/-- The micro-frames in use. `SITD_PTR` clears the type bits, so that the loop of
`ehci_sitd_adjust_schedule` looks at the first entry of the frame only. -/
def usedUframes (s : Ehci) (td : Addr) : BitVec 32 :=
  match s.pfList (s.schedFrnidx .sitd td) with
  | .sitd a =>
    if a = td then 0
    else
      let t := s.sitdHw a
      if t.chrst &&& 0x80000000#32 ≠ 0 then (t.sched &&& 0xFF#32) ||| (t.sched >>> 8 &&& 0xFF#32)
      else t.sched &&& 0xFF#32
  | _ => 0

/-- The shift loop: sixteen shifts clear the low half, so that it has ended by then. -/
def shiftSched (mask : BitVec 32) : Nat → BitVec 32 → BitVec 32
  | 0, x => x
  | n + 1, x =>
    if x &&& mask = 0 then x
    else shiftSched mask n ((x &&& 0xFFFF0000#32) ||| ((x <<< 1) &&& 0xFFFF#32))

def ehciSitdAdjustSchedule (td : Addr) (s : Ehci) : Ehci :=
  let m := s.usedUframes td
  let m := m ||| (m <<< 8)
  s.setSitdHw td fun t => { t with sched := shiftSched m 16 t.sched }

def fillSitds (u : UtrId) (e : EpId) (x : IsoId) : Nat → Ptr → Nat → Ehci → Option (Bool × Ehci)
  | 0, _, _, _ => none
  | _ + 1, none, _, s => some (true, s)
  | n + 1, some td, fidx, s =>
    if ifPerUtr ≤ fidx then some (false, s)
    else do
      let s ← writeSitdInfo u e td (setTdUtr .sitd td u fidx s)
      let sitdNext := s.tdNext .sitd td
      let s := ehciSitdAdjustSchedule td (s.setLinks { s.toLinks with
        schedFrnidx := Links.setTd s.schedFrnidx .sitd td (s.nextFrame x) })
      let s ← linkTd .sitd x td (s.ep e).bInterval s
      fillSitds u e x n sitdNext (fidx + 1) s

/-- What both submissions do once they know their descriptors: allocate them, set
`td_cnt` and `iso_sf`, fill and link. -/
def submitTds (k : IsoKind) (u : UtrId) (x : IsoId) (cnt : Nat)
    (fill : Ptr → Ehci → Option (Bool × Ehci)) (s : Ehci) : Option (Int × Ehci) := do
  let (ok, lst, s) := allocTds k cnt none s
  if ok = false then
    let s ← freeTds k walkFuel lst s
    some (usbhErrMemoryOut, s)
  else
    let s : Ehci := { s with tdCnt := Function.update s.tdCnt u (cnt : Int) }
    let s := s.setUtr u ({ · with isoSf := s.nextFrame x })
    let (ok, s) ← fill lst s
    if ok = false then
      let s ← freeTds k walkFuel lst s
      some (usbhErrMemoryOut, s)
    else some (0, { s with psen := true })

def ehciIsoSplitXfer (u : UtrId) (e : EpId) (x : IsoId) (s : Ehci) : Option (Int × Ehci) :=
  if (s.udev (s.utr u).udev).parent = [] then some (usbhErrInvalidParam, s)
  else submitTds .sitd u x ifPerUtr (fun lst => fillSitds u e x walkFuel lst 0) s

/-- `ehci_iso_xfer` behind the choice of the `ISO_EP_T`. -/
def isoOnEp (u : UtrId) (e : EpId) (x : IsoId) (s : Ehci) : Option (Int × Ehci) :=
  if (s.udev (s.utr u).udev).speed = .full then ehciIsoSplitXfer u e x s
  else
    let l := isoLayout (s.ep e).bInterval
    submitTds .itd u x l.2.1 (fun lst => fillItds u e x l.1 l.2.2 walkFuel lst 0) s

/-- `sizeof(ISO_EP_T)` -/
def isoEpSize : Nat := 56

/-- A new `ISO_EP_T` at the head of `iso_ep_list`. -/
def newIsoEp (e : EpId) (s : Ehci) : Option (IsoId × Ehci) :=
  (s.dma.usbhAllocMem isoEpSize).map fun r =>
    let x := r.1
    (x, s.setLinks { s.toLinks with
      dma := r.2
      tdList := Links.setTd (Links.setTd s.tdList .itd x none) .sitd x none
      isoEpEp := Function.update s.isoEpEp x e
      nextFrame := Function.update s.nextFrame x s.newSchedFrame
      hwPipe := Function.update s.hwPipe e (.isoEp x)
      isoEpNext := Function.update s.isoEpNext x s.isoEpList
      isoEpList := some x })

def ehciIsoXfer (u : UtrId) (s : Ehci) : Option (Int × Ehci) := do
  let e ← s.utrEp u
  match s.hwPipe e with
  | .isoEp x =>
    isoOnEp u e x (if (s.utr u).bIsoNewSched then
      s.setLinks { s.toLinks with nextFrame := Function.update s.nextFrame x s.newSchedFrame }
    else s)
  | .null =>
    match newIsoEp e s with
    | none => some (usbhErrMemoryOut, s)
    | some (x, s) => isoOnEp u e x s
  | _ => none

/-! ## Quit -/

/-- The search of `ehci_quit_iso_xfer` for the endpoint's `ISO_EP_T`. -/
def findIsoEp (m : Links) (e : EpId) : Nat → Option IsoId → Option (Option IsoId)
  | 0, _ => none
  | _ + 1, none => some none
  | n + 1, some x => if m.isoEpEp x = e then some (some x) else findIsoEp m e n (m.isoEpNext x)

/-- The loop over the iTDs of the endpoint. The busy wait for the controller to pass
the frame ends in a state where it has. -/
def quitItds (env : Env) : Nat → Ptr → Ehci → Option Ehci
  | 0, _, _ => none
  | _ + 1, none, s => some s
  | n + 1, some td, s => do
    let itdNext := s.tdNext .itd td
    let u ← s.tdUtr .itd td
    let frnidx := s.schedFrnidx .itd td
    let s := env.hc s
    if s.nowFrame = frnidx ∨ (s.nowFrame + 1) % 1024 = frnidx then none
    else do
      let m ← s.unlinkFromFrame .itd td
      let s := s.setLinks m
      let s : Ehci := { s with tdCnt := Function.update s.tdCnt u (s.tdCnt u - 1) }
      let s := if s.tdCnt u = 0 then
          (complete env u s).setUtr u ({ · with status := usbhErrAbort })
        else s
      quitItds env n itdNext (s.free .itd td)

def ehciQuitIsoXfer (env : Env) (utr : Option UtrId) (ep : Option EpId) (s : Ehci) :
    Option (Int × Ehci) :=
  match ep.or (utr.bind s.utrEp) with
  | none => some (usbhErrNotFound, s)
  | some e =>
    if (s.ep e).xferType ≠ epAttrTtIso then some (usbhErrNotFound, s)
    else do
      match ← findIsoEp s.toLinks e walkFuel s.isoEpList with
      | none => some (0, s)
      | some x => do
        let s ← quitItds env walkFuel (s.tdList .itd x) s
        let m ← s.removeIsoEpFromList x
        let s := s.setLinks { m with
          dma := m.dma.usbhFreeMem x isoEpSize
          hwPipe := Function.update m.hwPipe e .null }
        some (0, if s.isoEpList = none then { s with psen := false } else s)

end Ma35d1.UsbHost.Ehci
