import Ma35d1.UsbHost.Ehci.Iso
import Ma35d1.UsbHost.Ehci.Xfer

/-!
# Quit, the scans and the interrupt handler

`ehci_quit_xfer`, the scans of the asynchronous and the periodic schedule, and
`iaad_remove_qh`. A loop whose body calls back takes its bound as an argument, for
a callback may lengthen the list it runs over.
-/

namespace Ma35d1.UsbHost.Ehci

open Heap.LinkedPath

/-! ## Quit -/

/-- `q->HLink = qh->HLink; qh->next = qh_remove_list; qh_remove_list = qh;` and the doorbell. -/
def unlinkQh (q qh : Addr) (s : Ehci) : Ehci :=
  ((s.setLinks { s.toLinks with
    hLink := Function.update s.hLink q (s.hLink qh)
    qhNext := Function.update s.qhNext qh s.qhRemoveList
    qhRemoveList := some qh }).stampNow qh).ringDoorbell

def moveQhToRemoveList (qh : Addr) (s : Ehci) : Option Ehci := do
  let found ← findNode s.qhNext qh walkFuel s.qhRemoveList
  if found then some s
  else
    let next := fun a => (s.hLink a).ptr
    match ← predFrom next (fun q => next q == some s.hQh) qh walkFuel s.hQh with
    | some q => some (unlinkQh q qh s)
    | none =>
      match ← predFrom next (fun q => s.hLink q == .terminate) qh walkFuel (s.iqh (numIqh - 1)) with
      | some q => some (unlinkQh q qh s)
      | none => some s

/-- Quitting the endpoint `e`, whose `hw_pipe` is `qh`. -/
def quitQh (e : EpId) (qh : Addr) (s : Ehci) : Option Ehci :=
  (moveQhToRemoveList qh s).map (·.setHwPipe e .null)

/-- The branch of `ehci_quit_xfer` for an endpoint argument. -/
def quitEp (e : EpId) (s : Ehci) : Option Ehci :=
  match s.hwPipe e with
  | .qh qh => quitQh e qh s
  | .null => some s
  | _ => none

def ehciQuitXfer (env : Env) (utr : Option UtrId) (ep : Option EpId) (s : Ehci) :
    Option (Int × Ehci) := do
  let (r, s) ← ehciQuitIsoXfer env utr ep s
  if r = 0 then some (0, s)
  else
    let thenEp (s : Ehci) : Option (Int × Ehci) :=
      match ep with
      | none => some (0, s)
      | some e => (quitEp e s).map fun s => (0, s)
    match utr with
    | none => thenEp s
    | some u =>
      match s.utrEp u with
      | none => some (usbhErrNotFound, s)
      | some e =>
        match s.hwPipe e with
        | .null => some (usbhErrNotFound, s)
        | .qh qh => (quitQh e qh s).bind thenEp
        | _ => none

/-! ## Reclaiming qTDs -/

def qtdPidMsk : BitVec 32 := 0x300#32

/-- `QTD_STS_HALT | QTD_STS_DATA_BUFF_ERR | QTD_STS_BABBLE | QTD_STS_XactErr | QTD_STS_MISS_MF` -/
def qtdStsErrors : BitVec 32 := 0x40#32 ||| 0x20#32 ||| 0x10#32 ||| 0x08#32 ||| 0x04#32

/-- The test of `visit_qtd`: neither a dummy nor active. -/
def isRetired (t : BitVec 32) : Bool :=
  t != 0x11197B7F#32 && t != 0x1197B7F#32 && t &&& qtdStsActive == 0#32

def visitQtd (qtd : Addr) (s : Ehci) : Option (Bool × Ehci) :=
  let t := s.token qtd
  if isRetired t = false then some (false, s)
  else if t &&& qtdStsErrors ≠ 0 then do
    let u ← s.qtdUtr qtd
    some (true, if (s.utr u).status = 0 then
      s.setUtr u ({ · with status := usbhErrTransaction }) else s)
  else if t &&& qtdPidMsk ≠ qtdPidSetup then do
    let u ← s.qtdUtr qtd
    some (true, s.setUtr u fun r => { r with
      xferLen := r.xferLen + (s.qtdXferLen qtd - (t >>> 16 &&& 0x7FFF#32)) })
  else some (true, s)

/-- `if (qh->OL_Token & QTD_DT) utr->ep->bToggle = 1; else utr->ep->bToggle = 0;` -/
def saveToggle (qh : Addr) (u : UtrId) (s : Ehci) : Option Ehci :=
  (s.utrEp u).map fun e =>
    { s with bToggle := Function.update s.bToggle e ((s.qhHw qh).olToken &&& qtdDt != 0#32) }

/-- The completion both scans end with. -/
def completeScan (env : Env) (qh : Addr) (u : UtrId) (s : Ehci) : Option Ehci :=
  (saveToggle qh u s).map fun s => (complete env u s).ringDoorbell

/-- `qtd->next = qh->done_list; qh->done_list = qtd;` -/
def pushDone (qh qtd : Addr) (s : Ehci) : Ehci :=
  (s.setLinks { s.toLinks with
    qtdNext := Function.update s.qtdNext qtd (s.doneList qh)
    doneList := Function.update s.doneList qh (some qtd) }).stampNow qtd

/-- Unlinking a qTD from the `qtd_list`; `q_pre` is the qTD before it that stays. -/
def unlinkQtd (qh qtd : Addr) (qPre : Ptr) (s : Ehci) : Option Ehci :=
  if s.qtdList qh = some qtd then
    some (s.setLinks { s.toLinks with qtdList := Function.update s.qtdList qh (s.qtdNext qtd) })
  else
    qPre.map fun p =>
      s.setLinks { s.toLinks with qtdNext := Function.update s.qtdNext p (s.qtdNext qtd) }

/-- The loop over the qTDs of one QH: the request of the last one reclaimed. The
controller runs on between two visits. -/
def reclaimQtds (env : Env) (qh : Addr) :
    Nat → Ptr → Ptr → Option UtrId → Ehci → Option (Option UtrId × Ehci)
  | 0, _, _, _, _ => none
  | _ + 1, none, _, utr, s => some (utr, s)
  | n + 1, some qtd, qPre, utr, s => do
    let (retired, s) ← visitQtd qtd (env.hc s)
    if retired then do
      let s ← unlinkQtd qh qtd qPre s
      reclaimQtds env qh n (s.qtdNext qtd) qPre (s.qtdUtr qtd) (pushDone qh qtd s)
    else reclaimQtds env qh n (s.qtdNext qtd) (some qtd) utr s

/-- `if (qh->qtd_list == NULL && utr)`: all qTDs of the request are reclaimed. -/
def finishQh (env : Env) (qh : Addr) (utr : Option UtrId) (s : Ehci) : Option Ehci :=
  match s.qtdList qh, utr with
  | none, some u => completeScan env qh u s
  | _, _ => some s

/-- The loop of `scan_asynchronous_list` from the QH `qh`. -/
def scanQhs (env : Env) : Nat → Addr → Ehci → Option Ehci
  | 0, _, _ => none
  | n + 1, qh, s =>
    if qh = s.hQh then some s
    else
      (reclaimQtds env qh walkFuel (s.qtdList qh) none none s).bind fun r =>
        -- the next QH is read before the callback runs
        let next := (r.2.hLink qh).ptr
        (finishQh env qh r.1 r.2).bind fun s => next.bind fun next => scanQhs env n next s

def scanAsynchronousList (env : Env) (fuel : Nat) (s : Ehci) : Option Ehci := do
  let first ← (s.hLink s.hQh).ptr
  scanQhs env fuel first s

/-- `qh->qtd_list = NULL` with the qTD moved to the done list. -/
def takeIntQtd (qh qtd : Addr) (s : Ehci) : Ehci :=
  let s := pushDone qh qtd s
  s.setLinks { s.toLinks with qtdList := Function.update s.qtdList qh none }

/-- `if (qh->done_list && qh->qtd_list == NULL)`: the qTD of the request is reclaimed. -/
def finishIntQh (env : Env) (qh : Addr) (s : Ehci) : Option Ehci :=
  match s.doneList qh, s.qtdList qh with
  | some qtd, none => (s.qtdUtr qtd).bind fun u => completeScan env qh u s
  | _, _ => some s

/-- The loop of `scan_periodic_frame_list` over the interrupt QHs. -/
def scanIntQhs (env : Env) : Nat → Ptr → Ehci → Option Ehci
  | 0, _, _ => none
  | _ + 1, none, s => some s
  | n + 1, some qh, s =>
    match s.qtdList qh with
    | none => scanIntQhs env n (s.hLink qh).ptr s
    | some qtd =>
      (visitQtd qtd (env.hc s)).bind fun r =>
        (finishIntQh env qh (if r.1 then takeIntQtd qh qtd r.2 else r.2)).bind fun s =>
          scanIntQhs env n (s.hLink qh).ptr s

def scanPeriodicFrameList (env : Env) (fuel : Nat) (s : Ehci) : Option Ehci := do
  let s ← scanIntQhs env fuel (some (s.iqh (numIqh - 1))) s
  scanIsochronousList env fuel s

/-! ## `iaad_remove_qh` -/

/-- `while (qh->done_list) { … free_ehci_qTD(qtd); }` -/
def freeDoneList (qh : Addr) : Nat → Ehci → Option Ehci
  | 0, _ => none
  | n + 1, s =>
    match s.doneList qh with
    | none => some s
    | some qtd =>
      freeDoneList qh n ((s.setLinks { s.toLinks with
        doneList := Function.update s.doneList qh (s.qtdNext qtd) }).free .qtd qtd)

/-- Ghost: a qTD still queued left the schedule with its QH. -/
def stampWithQh (qh qtd : Addr) (s : Ehci) : Ehci :=
  { s with bell := { s.bell with stamp := Function.update s.bell.stamp qtd (s.bell.stamp qh) } }

@[simp] theorem stampWithQh_toLinks (qh qtd : Addr) (s : Ehci) :
    (stampWithQh qh qtd s).toLinks = s.toLinks := rfl

/-- `while (qh->qtd_list) { … free_ehci_qTD(qtd); }` -/
def freeQtdList (qh : Addr) : Nat → Ehci → Option Ehci
  | 0, _ => none
  | n + 1, s =>
    match s.qtdList qh with
    | none => some s
    | some qtd =>
      freeQtdList qh n (((s.setLinks { s.toLinks with
        qtdList := Function.update s.qtdList qh (s.qtdNext qtd) }) |> stampWithQh qh qtd).free .qtd qtd)

/-- The incomplete qTDs of a removed QH: their request is aborted. -/
def abortQtds (env : Env) (qh : Addr) (s : Ehci) : Option Ehci :=
  match s.qtdList qh with
  | none => some s
  | some qtd => do
    let s' ← freeQtdList qh walkFuel s
    let u ← s.qtdUtr qtd
    some (complete env u (s'.setUtr u ({ · with status := usbhErrAbort })))

/-- `while (qh_remove_list)` -/
def removeQhs (env : Env) : Nat → Ehci → Option Ehci
  | 0, _ => none
  | n + 1, s =>
    match s.qhRemoveList with
    | none => some s
    | some qh => do
      let s := s.setLinks { s.toLinks with qhRemoveList := s.qhNext qh }
      let s ← freeDoneList qh walkFuel s
      let s ← abortQtds env qh s
      removeQhs env n (s.free .qh qh)

/-- The done lists of the QHs from `qh` to the head of the ring. -/
def freeAsyncDone : Nat → Addr → Ehci → Option Ehci
  | 0, _, _ => none
  | n + 1, qh, s =>
    if qh = s.hQh then some s
    else do
      let s ← freeDoneList qh walkFuel s
      let next ← (s.hLink qh).ptr
      freeAsyncDone n next s

/-- The done lists of the QHs of the periodic schedule. -/
def freePeriodicDone : Nat → Ptr → Ehci → Option Ehci
  | 0, _, _ => none
  | _ + 1, none, s => some s
  | n + 1, some qh, s => do
    let s ← freeDoneList qh walkFuel s
    freePeriodicDone n (s.hLink qh).ptr s

def iaadRemoveQh (env : Env) (fuel : Nat) (s : Ehci) : Option Ehci := do
  let s ← removeQhs env fuel s
  let first ← (s.hLink s.hQh).ptr
  let s ← freeAsyncDone walkFuel first s
  freePeriodicDone walkFuel (some (s.iqh (numIqh - 1))) s

/-! ## `EHCI_IRQHandler` -/

/-- The read and the clearing of `USTSR`. -/
def takeStatus (s : Ehci) : Ehci :=
  { s with
    usbint := false
    bell := { s.bell with
      iaa := false
      serving := if s.bell.iaa then some s.bell.latched else none } }

/-- The handler returns. -/
def endService (s : Ehci) : Ehci := { s with bell := { s.bell with serving := none } }

/-- `if (intsts & HSUSBH_USTSR_USBINT_Msk)` -/
def serveUsbint (env : Env) (fuel : Nat) (usbint : Bool) (s : Ehci) : Option Ehci :=
  if usbint then (scanAsynchronousList env fuel s).bind (scanPeriodicFrameList env fuel) else some s

/-- `if (intsts & HSUSBH_USTSR_IAA_Msk)` -/
def serveIaa (env : Env) (fuel : Nat) (iaa : Bool) (s : Ehci) : Option Ehci :=
  if iaa then iaadRemoveQh env fuel s else some s

def ehciIrqHandler (env : Env) (fuel : Nat) (s : Ehci) : Option Ehci :=
  ((serveUsbint env fuel s.usbint (takeStatus s)).bind (serveIaa env fuel s.bell.iaa)).map endService

end Ma35d1.UsbHost.Ehci
