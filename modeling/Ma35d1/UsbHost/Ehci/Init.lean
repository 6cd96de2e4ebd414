import Ma35d1.UsbHost.Ehci.State

/-!
# `ehci_init`

The asynchronous ring starts with its head alone, the frame list with the tree of
interval heads `_Iqh`: entry `idx` leads to the head of the largest interval that
divides `idx + 1`, and each head leads to the head of half its interval.
-/

namespace Ma35d1.UsbHost.Ehci

def usbhErrEhciInit : Int := -501

/-- The walk of `init_periodic_frame_list` along a frame, to hook the head `iqh`. -/
def hookIqh (iqh : Addr) : Nat → Addr → Links → Option Links
  | 0, _, _ => none
  | n + 1, p, m =>
    if p = iqh then some m
    else if m.hLink p = .terminate then
      some { m with hLink := Function.update m.hLink p (.qh iqh) }
    else match (m.hLink p).ptr with
      | none => none
      | some q => hookIqh iqh n q m

/-- One pass of the loop `for (idx = interval - 1; idx < FL_SIZE; idx += interval)` -/
def hookFrame (iqh : Addr) (idx : Nat) (m : Links) : Option Links :=
  match m.pfList idx with
  | .null => some { m with pfList := Function.update m.pfList idx (.qh iqh) }
  | p => p.ptr.bind fun q => hookIqh iqh walkFuel q m

def hookFrames (iqh : Addr) (interval : Nat) : Nat → Links → Option Links
  | 0, m => some m
  | n + 1, m => (hookFrames iqh interval n m).bind (hookFrame iqh (interval * (n + 1) - 1))

/-- `_ghost_qtd`, at the head of the ring and of every interval -/
def initHeadHw (ghost : Addr) (q : QhHw) : QhHw :=
  { q with
    currQtd := .qtd ghost, olNextQtd := .listEnd, olAltNextQtd := .qtd ghost, olToken := 0x40#32 }

/-- The loop body of `init_periodic_frame_list`; a failed allocation is a null dereference. -/
def initIqh (i : Nat) (s : Ehci) : Option Ehci :=
  s.allocEhciQh.bind fun r =>
    let s := r.2.setQhHw r.1 (initHeadHw r.2.ghostQtd)
    let m := { s.toLinks with
      iqh := Function.update s.iqh i r.1
      hLink := Function.update s.hLink r.1 .terminate }
    (hookFrames r.1 (2 ^ i) (flSize / 2 ^ i) m).map s.setLinks

/-- `for (i = NUM_IQH-1; i >= 0; i--)` -/
def initIqhs : Nat → Ehci → Option Ehci
  | 0, s => some s
  | n + 1, s => (initIqh n s).bind (initIqhs n)

def initPeriodicFrameList (s : Ehci) : Option Ehci :=
  initIqhs numIqh (s.setLinks { s.toLinks with pfList := fun _ => .null, isoEpList := none })

/-- `resetDone` is whether the controller left its reset in time. -/
def ehciInit (resetDone : Bool) (s : Ehci) : Option (Int × Ehci) :=
  if resetDone = false then some (usbhErrEhciInit, s)
  else
    let s := { s with asen := false, psen := false, bell := { s.bell with iaad := false } }
    (s.allocEhciQtd none).bind fun r =>
      let s := { r.2 with
        ghostQtd := r.1
        token := Function.update r.2.token r.1 0x11197B7F#32
        qhRemoveList := none }
      s.allocEhciQh.bind fun r =>
        let s := { r.2 with
          hQh := r.1
          hLink := Function.update r.2.hLink r.1 (.qh r.1) }
        let s := s.setQhHw r.1 fun q =>
          { initHeadHw s.ghostQtd q with chrst := 0x8000#32 }
        (initPeriodicFrameList s).map fun s => (0, s)

end Ma35d1.UsbHost.Ehci
