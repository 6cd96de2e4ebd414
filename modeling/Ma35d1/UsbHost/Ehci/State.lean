import Ma35d1.Heap.LinkedPath
import Ma35d1.UsbHost.MemAlloc
import Ma35d1.UsbHost.Types

/-!
# The state of the EHCI driver

Memory is one map per structure field. A QH, qTD, iTD or siTD is named by the
unit of the descriptor pool it lies in, an `ISO_EP_T` by its DMA block. `Links`
gathers every field that makes up a list, `Ehci` adds the other words, the
transfer requests and the registers. Word 0 of a unit is `HLink` of a QH and
`Next_Link` of an iTD or siTD alike, so it is one map.
-/

namespace Ma35d1.UsbHost

/-! ## Link words -/

/-- `HLink`, `Next_Link` and the entries of `_PFList`. -/
inductive Link
  | terminate
  | null
  | itd (a : Addr)
  | qh (a : Addr)
  | sitd (a : Addr)
  deriving DecidableEq, Repr

/-- `QH_PTR`, `ITD_PTR` and `SITD_PTR` -/
@[simp] def Link.ptr : Link → Ptr
  | .terminate | .null => none
  | .itd a | .qh a | .sitd a => some a

/-- `Next_qTD`, `Alt_Next_qTD` and `Curr_qTD`. -/
inductive QtdLink
  | listEnd
  | null
  | qtd (a : Addr)
  deriving DecidableEq, Repr

/-- The two isochronous descriptors; their software fields have the same names. -/
inductive IsoKind
  | itd | sitd
  deriving DecidableEq, Repr

def IsoKind.hw : IsoKind → HwKind
  | .itd => .itd
  | .sitd => .sitd

/-- `ITD_HLNK_ITD` and `SITD_HLNK_SITD` -/
def IsoKind.link : IsoKind → Addr → Link
  | .itd => .itd
  | .sitd => .sitd

@[simp] theorem IsoKind.link_ptr (k : IsoKind) (a : Addr) : (k.link a).ptr = some a := by
  cases k <;> rfl

/-! ## The lists -/

def flSize : Nat := 1024
def numIqh : Nat := 11

/-- More than the units of either pool: no list is longer. -/
def walkFuel : Nat := hwMemUnitNum + 1

structure Links where
  pool : HwPool
  dma : DmaPool
  /-- word 0 of a unit -/
  hLink : Addr → Link
  qtdList : Addr → Ptr
  doneList : Addr → Ptr
  qhNext : Addr → Ptr
  qtdNext : Addr → Ptr
  tdNext : IsoKind → Addr → Ptr
  schedFrnidx : IsoKind → Addr → Nat
  /-- `itd_list` and `sitd_list` -/
  tdList : IsoKind → IsoId → Ptr
  isoEpEp : IsoId → EpId
  nextFrame : IsoId → Nat
  isoEpNext : IsoId → Option IsoId
  hQh : Addr
  ghostQtd : Addr
  qhRemoveList : Ptr
  pfList : Nat → Link
  iqh : Nat → Addr
  isoEpList : Option IsoId
  ep : EpId → EpInfo
  hwPipe : EpId → HwPipe
  /-- ghost: the interval head an interrupt QH was inserted under -/
  insertedUnder : Addr → Option Nat

namespace Links

/-- `alloc_ehci_QH`, for the links -/
def allocEhciQh (m : Links) : Option (Addr × Links) :=
  (m.pool.allocEhci .qh).map fun r =>
    (r.1, { m with
      pool := r.2
      hLink := Function.update m.hLink r.1 .null
      qtdList := Function.update m.qtdList r.1 none
      doneList := Function.update m.doneList r.1 none
      qhNext := Function.update m.qhNext r.1 none })

/-- `alloc_ehci_qTD`, for the links -/
def allocEhciQtd (m : Links) : Option (Addr × Links) :=
  (m.pool.allocEhci .qtd).map fun r =>
    (r.1, { m with
      pool := r.2
      qtdNext := Function.update m.qtdNext r.1 none })

/-- Updating one field of the iTDs or of the siTDs. -/
def setTd {α : Type} (f : IsoKind → Addr → α) (k : IsoKind) (a : Addr) (x : α) :
    IsoKind → Addr → α :=
  Function.update f k (Function.update (f k) a x)

theorem setTd_apply {α : Type} (f : IsoKind → Addr → α) (k j : IsoKind) (a b : Addr) (x : α) :
    setTd f k a x j b = if j = k ∧ b = a then x else f j b := by
  unfold setTd
  by_cases hj : j = k
  · subst hj
    by_cases hb : b = a
    · subst hb; simp
    · simp [hb]
  · simp [hj]

@[simp] theorem setTd_self {α : Type} (f : IsoKind → Addr → α) (k : IsoKind) (a : Addr) (x : α) :
    setTd f k a x k a = x := by simp [setTd_apply]

theorem setTd_of_ne {α : Type} {f : IsoKind → Addr → α} {k j : IsoKind} {a b : Addr} {x : α}
    (h : ¬ (j = k ∧ b = a)) : setTd f k a x j b = f j b := by
  rw [setTd_apply, if_neg h]

/-- `alloc_ehci_iTD` and `alloc_ehci_siTD`, for the links -/
def allocEhciTd (m : Links) (k : IsoKind) : Option (Addr × Links) :=
  (m.pool.allocEhci k.hw).map fun r =>
    (r.1, { m with
      pool := r.2
      hLink := Function.update m.hLink r.1 .null
      tdNext := setTd m.tdNext k r.1 none
      schedFrnidx := setTd m.schedFrnidx k r.1 0 })

def appendToQtdListOfQh (m : Links) (qh qtd : Addr) : Option Links :=
  match m.qtdList qh with
  | none => some { m with qtdList := Function.update m.qtdList qh (some qtd) }
  | some q => do
    let last ← Heap.LinkedPath.lastFrom m.qtdNext walkFuel q
    some { m with qtdNext := Function.update m.qtdNext last (some qtd) }

/-- `add_itd_to_iso_ep` and `add_sitd_to_iso_ep` -/
def addTdToIsoEp (m : Links) (k : IsoKind) (x : IsoId) (td : Addr) : Option Links :=
  let m := { m with tdNext := setTd m.tdNext k td none }
  match m.tdList k x with
  | none => some { m with tdList := setTd m.tdList k x (some td) }
  | some p => do
    let last ← Heap.LinkedPath.lastFrom (m.tdNext k) walkFuel p
    some { m with tdNext := setTd m.tdNext k last (some td) }

/-- `sched_frnidx`, the endpoint's list, the frame list and `next_frame`. -/
def linkTd (m : Links) (k : IsoKind) (x : IsoId) (td : Addr) (interval : Nat) : Option Links :=
  let frnidx := m.nextFrame x
  let m := { m with schedFrnidx := setTd m.schedFrnidx k td frnidx }
  (m.addTdToIsoEp k x td).map fun m =>
    { m with
      hLink := Function.update m.hLink td (m.pfList frnidx)
      pfList := Function.update m.pfList frnidx (k.link td)
      nextFrame := Function.update m.nextFrame x ((frnidx + interval) % flSize) }

/-- Taking an iTD or siTD out of the chain of its frame. -/
def unlinkFromFrame (m : Links) (k : IsoKind) (td : Addr) : Option Links :=
  let frnidx := m.schedFrnidx k td
  if m.pfList frnidx = k.link td then
    some { m with pfList := Function.update m.pfList frnidx (m.hLink td) }
  else do
    let first ← (m.pfList frnidx).ptr
    -- the loop reads `p->Next_Link` before it tests `p`, so it ends at the predecessor only
    let p ← Heap.LinkedPath.predFrom (fun a => (m.hLink a).ptr) (fun _ => false) td walkFuel first
    let p ← p
    some { m with hLink := Function.update m.hLink p (m.hLink td) }

def removeIsoEpFromList (m : Links) (x : IsoId) : Option Links :=
  if m.isoEpList = some x then some { m with isoEpList := m.isoEpNext x }
  else do
    let first ← m.isoEpList
    let p ← Heap.LinkedPath.predFrom m.isoEpNext (fun p => (m.isoEpNext p).isNone) x walkFuel first
    match p with
    | none => some m
    | some p => some { m with isoEpNext := Function.update m.isoEpNext p (m.isoEpNext x) }

end Links

/-! ## Registers and the record of a run -/

/-- The async-advance doorbell. The counts and stamps are ghost: doorbells are
numbered in the order they are rung, and a descriptor is stamped with the number
of doorbells rung before it was taken off its schedule; until then it has no stamp. -/
structure Doorbell where
  /-- `UCMDR.IAAD` -/
  iaad : Bool
  /-- `USTSR.IAA` -/
  iaa : Bool
  rung : Nat
  /-- the doorbell the latched `USTSR.IAA` answers -/
  latched : Nat
  /-- the doorbell whose answer the interrupt handler has taken -/
  serving : Option Nat
  stamp : Addr → Option Nat
  /-- the QHs the controller holds a copy of -/
  cached : Addr → Bool

inductive Event
  /-- an accepted submission, isochronous or not -/
  | submit (u : UtrId) (iso : Bool)
  /-- `bIsTransferDone` set with this `status`, and the callback called -/
  | done (u : UtrId) (status : Int)
  /-- a free, with the memory it finds -/
  | free (k : HwKind) (a : Addr) (m : Links) (b : Doorbell)
  /-- `iso_status[i]` written from a descriptor -/
  | slot (u : UtrId) (i : Nat) (a : Addr)
  /-- a QH or qTD taken off its schedule, with the doorbell it finds -/
  | detach (a : Addr) (b : Doorbell)

/-! ## The driver -/

structure QhHw where
  chrst : BitVec 32
  cap : BitVec 32
  currQtd : QtdLink
  olNextQtd : QtdLink
  olAltNextQtd : QtdLink
  olToken : BitVec 32
  olBptr : Nat → BitVec 32

structure QtdHw where
  nextQtd : QtdLink
  altNextQtd : QtdLink
  bptr : Nat → BitVec 32

structure ItdHw where
  transaction : Nat → BitVec 32
  bptr : Nat → BitVec 32
  buffBase : BitVec 32
  transMask : BitVec 8

structure SitdHw where
  chrst : BitVec 32
  sched : BitVec 32
  stsCtrl : BitVec 32
  bptr : Nat → BitVec 32
  backLink : Link

structure Ehci extends Links where
  qhHw : Addr → QhHw
  qtdHw : Addr → QtdHw
  token : Addr → BitVec 32
  qtdUtr : Addr → Option UtrId
  qtdXferLen : Addr → BitVec 32
  qtdQh : Addr → Ptr
  itdHw : Addr → ItdHw
  sitdHw : Addr → SitdHw
  tdUtr : IsoKind → Addr → Option UtrId
  tdFidx : IsoKind → Addr → Nat
  udev : DevId → Udev
  bToggle : EpId → Bool
  utr : UtrId → Utr
  utrEp : UtrId → Option EpId
  tdCnt : UtrId → Int
  /-- `UCMDR.ASEN` -/
  asen : Bool
  /-- `UCMDR.PSEN` -/
  psen : Bool
  /-- `USTSR.USBINT` -/
  usbint : Bool
  ufindr : Nat
  bell : Doorbell
  /-- ghost: what happened so far, latest first -/
  trace : List Event

/-- What the driver calls out to: the completion callbacks, and the controller
running on while the driver does. -/
structure Env where
  func : UtrId → Ehci → Ehci
  hc : Ehci → Ehci

namespace Ehci

def setLinks (s : Ehci) (m : Links) : Ehci := { s with toLinks := m }

@[simp] theorem setLinks_toLinks (s : Ehci) (m : Links) : (s.setLinks m).toLinks = m := rfl

def setUtr (s : Ehci) (u : UtrId) (f : Utr → Utr) : Ehci :=
  { s with utr := Function.update s.utr u (f (s.utr u)) }

@[simp] theorem setUtr_toLinks (s : Ehci) (u : UtrId) (f : Utr → Utr) :
    (s.setUtr u f).toLinks = s.toLinks := rfl

def setQhHw (s : Ehci) (a : Addr) (f : QhHw → QhHw) : Ehci :=
  { s with qhHw := Function.update s.qhHw a (f (s.qhHw a)) }

@[simp] theorem setQhHw_toLinks (s : Ehci) (a : Addr) (f : QhHw → QhHw) :
    (s.setQhHw a f).toLinks = s.toLinks := rfl

def setQtdHw (s : Ehci) (a : Addr) (f : QtdHw → QtdHw) : Ehci :=
  { s with qtdHw := Function.update s.qtdHw a (f (s.qtdHw a)) }

@[simp] theorem setQtdHw_toLinks (s : Ehci) (a : Addr) (f : QtdHw → QtdHw) :
    (s.setQtdHw a f).toLinks = s.toLinks := rfl

def setItdHw (s : Ehci) (a : Addr) (f : ItdHw → ItdHw) : Ehci :=
  { s with itdHw := Function.update s.itdHw a (f (s.itdHw a)) }

@[simp] theorem setItdHw_toLinks (s : Ehci) (a : Addr) (f : ItdHw → ItdHw) :
    (s.setItdHw a f).toLinks = s.toLinks := rfl

def setSitdHw (s : Ehci) (a : Addr) (f : SitdHw → SitdHw) : Ehci :=
  { s with sitdHw := Function.update s.sitdHw a (f (s.sitdHw a)) }

@[simp] theorem setSitdHw_toLinks (s : Ehci) (a : Addr) (f : SitdHw → SitdHw) :
    (s.setSitdHw a f).toLinks = s.toLinks := rfl

def setHwPipe (s : Ehci) (e : EpId) (p : HwPipe) : Ehci :=
  { s with hwPipe := Function.update s.hwPipe e p }

def log (s : Ehci) (e : Event) : Ehci := { s with trace := e :: s.trace }

@[simp] theorem log_toLinks (s : Ehci) (e : Event) : (s.log e).toLinks = s.toLinks := rfl

/-- `_ehci->UCMDR |= HSUSBH_UCMDR_IAAD_Msk`; setting the bit again rings nothing. -/
def ringDoorbell (s : Ehci) : Ehci :=
  if s.bell.iaad then s
  else { s with bell := { s.bell with iaad := true, rung := s.bell.rung + 1 } }

@[simp] theorem ringDoorbell_toLinks (s : Ehci) : s.ringDoorbell.toLinks = s.toLinks := by
  unfold ringDoorbell; split <;> rfl

/-- Ghost: `a` has not left a schedule. -/
def unstamp (s : Ehci) (a : Addr) : Ehci :=
  { s with bell := { s.bell with stamp := Function.update s.bell.stamp a none } }

@[simp] theorem unstamp_toLinks (s : Ehci) (a : Addr) : (s.unstamp a).toLinks = s.toLinks := rfl

/-- Ghost: `a` leaves its schedule now. -/
def stampNow (s : Ehci) (a : Addr) : Ehci :=
  { s with
    bell := { s.bell with stamp := Function.update s.bell.stamp a (some s.bell.rung) }
    trace := .detach a s.bell :: s.trace }

@[simp] theorem stampNow_toLinks (s : Ehci) (a : Addr) : (s.stampNow a).toLinks = s.toLinks := rfl

/-- `utr->bIsTransferDone = 1; if (utr->func) utr->func(utr);` -/
def complete (env : Env) (u : UtrId) (s : Ehci) : Ehci :=
  let s := (s.setUtr u ({ · with bIsTransferDone := true })).log (.done u (s.utr u).status)
  if (s.utr u).func then env.func u s else s

/-! ## Allocation -/

/-- `alloc_ehci_QH`; `none` is `NULL` -/
def allocEhciQh (s : Ehci) : Option (Addr × Ehci) :=
  s.toLinks.allocEhciQh.map fun r =>
    (r.1, ((s.setLinks r.2).unstamp r.1).setQhHw r.1 fun _ =>
      { chrst := 0, cap := 0, currQtd := .listEnd, olNextQtd := .listEnd,
        olAltNextQtd := .listEnd, olToken := 0x40#32, olBptr := fun _ => 0 })

/-- `alloc_ehci_qTD` -/
def allocEhciQtd (s : Ehci) (u : Option UtrId) : Option (Addr × Ehci) :=
  s.toLinks.allocEhciQtd.map fun r =>
    (r.1, { (s.setLinks r.2).unstamp r.1 with
      qtdHw := Function.update s.qtdHw r.1
        { nextQtd := .listEnd, altNextQtd := .listEnd, bptr := fun _ => 0 }
      token := Function.update s.token r.1 0x1197B7F#32
      qtdUtr := Function.update s.qtdUtr r.1 u
      qtdXferLen := Function.update s.qtdXferLen r.1 0
      qtdQh := Function.update s.qtdQh r.1 none })

/-- `alloc_ehci_iTD` and `alloc_ehci_siTD` -/
def allocEhciTd (s : Ehci) (k : IsoKind) : Option (Addr × Ehci) :=
  (s.toLinks.allocEhciTd k).map fun r =>
    (r.1,
      let s : Ehci := { s.setLinks r.2 with
        tdUtr := Links.setTd s.tdUtr k r.1 none
        tdFidx := Links.setTd s.tdFidx k r.1 0 }
      match k with
      | .itd => s.setItdHw r.1 fun _ =>
          { transaction := fun _ => 0, bptr := fun _ => 0, buffBase := 0, transMask := 0 }
      | .sitd => s.setSitdHw r.1 fun _ =>
          { chrst := 0, sched := 0, stsCtrl := 0, bptr := fun _ => 0, backLink := .null })

/-- `free_ehci_QH`, `free_ehci_qTD`, `free_ehci_iTD` and `free_ehci_siTD` -/
def free (s : Ehci) (k : HwKind) (a : Addr) : Ehci :=
  { s with
    pool := s.pool.free k a
    trace := .free k a s.toLinks s.bell :: s.trace }

end Ehci

end Ma35d1.UsbHost
