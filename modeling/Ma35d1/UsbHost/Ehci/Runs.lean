import Mathlib.Logic.Relation
import Ma35d1.UsbHost.Ehci.Async
import Ma35d1.UsbHost.Ehci.Init

/-!
# Runs of the driver

The steps of a run: calls of the interface, progress of the controller, and the
scans. A callback may call the interface, so a scan runs under an environment
whose callbacks are themselves sequences of interface calls, and whose controller
advances while the driver runs.
-/

namespace Ma35d1.UsbHost.Ehci

open Relation

/-- `u` was submitted and has not completed. -/
def Pending : List Event → UtrId → Prop
  | [], _ => False
  | .submit v _ :: t, u => v = u ∨ Pending t u
  | .done v _ :: t, u => v ≠ u ∧ Pending t u
  | .free .. :: t, u => Pending t u
  | .slot .. :: t, u => Pending t u
  | .detach .. :: t, u => Pending t u

instance decidablePending : (t : List Event) → (u : UtrId) → Decidable (Pending t u)
  | [], _ => .isFalse id
  | .submit v _ :: t, u =>
    have := decidablePending t u
    inferInstanceAs (Decidable (v = u ∨ Pending t u))
  | .done v _ :: t, u =>
    have := decidablePending t u
    inferInstanceAs (Decidable (v ≠ u ∧ Pending t u))
  | .free .. :: t, u => decidablePending t u
  | .slot .. :: t, u => decidablePending t u
  | .detach .. :: t, u => decidablePending t u

/-- `u` was submitted to an isochronous endpoint and has not completed. -/
def PendingIso : List Event → UtrId → Prop
  | [], _ => False
  | .submit v iso :: t, u => if v = u then iso = true else PendingIso t u
  | .done v _ :: t, u => v ≠ u ∧ PendingIso t u
  | .free .. :: t, u => PendingIso t u
  | .slot .. :: t, u => PendingIso t u
  | .detach .. :: t, u => PendingIso t u

/-- Progress of the host controller. -/
inductive HcStep : Ehci → Ehci → Prop
  | overlay {s : Ehci} (a : Addr) (q : QhHw) (hc : q.chrst = (s.qhHw a).chrst)
      (hp : q.cap = (s.qhHw a).cap) : HcStep s (s.setQhHw a fun _ => q)
  /-- an active qTD is worked on or retired -/
  | token {s : Ehci} (a : Addr) (t : BitVec 32) (ha : s.token a &&& qtdStsActive ≠ 0) :
      HcStep s (setToken a t s)
  | transaction {s : Ehci} (a : Addr) (t : Nat → BitVec 32) :
      HcStep s (s.setItdHw a ({ · with transaction := t }))
  | stsCtrl {s : Ehci} (a : Addr) (t : BitVec 32) : HcStep s (s.setSitdHw a ({ · with stsCtrl := t }))
  | frame {s : Ehci} (n : Nat) : HcStep s { s with ufindr := n }
  | usbint {s : Ehci} : HcStep s { s with usbint := true }
  /-- a QH of the asynchronous ring is read -/
  | fetch {s : Ehci} (a : Addr)
      (ha : Heap.LinkedPath.Reach (fun a => (s.hLink a).ptr) (some s.hQh) a) :
      HcStep s { s with bell := { s.bell with cached := Function.update s.bell.cached a true } }
  | drop {s : Ehci} (a : Addr) :
      HcStep s { s with bell := { s.bell with cached := Function.update s.bell.cached a false } }
  /-- the doorbell is answered once no QH unlinked before it was rung is held -/
  | answer {s : Ehci} (hi : s.bell.iaad = true)
      (hc : ∀ a n, Heap.LinkedPath.Reach s.qhNext s.qhRemoveList a → s.bell.stamp a = some n →
        n < s.bell.rung → s.bell.cached a = false) :
      HcStep s { s with bell := { s.bell with iaad := false, iaa := true, latched := s.bell.rung } }

/-- The endpoint a quit is about. -/
def quitTarget (s : Ehci) (utr : Option UtrId) (ep : Option EpId) : Option EpId :=
  ep.or (utr.bind s.utrEp)

def isIso (s : Ehci) (e : EpId) : Prop := (s.ep e).xferType = epAttrTtIso

/-- The callbacks do nothing. -/
def idleEnv : Env := ⟨fun _ s => s, id⟩

/-- Which requests a client may fill in and submit. -/
abbrev Owner := List Event → UtrId → Prop

/-- A request is its client's again once it has completed. -/
def completed : Owner := fun t u => ¬ Pending t u

/-- A call of the interface, outside or inside a callback. An accepted submission
is on record from its start: its callback cannot run before it returns. -/
inductive ApiStep (own : Owner) : Ehci → Ehci → Prop
  /-- the client fills in a request it owns -/
  | prepare {s : Ehci} (u : UtrId) (r : Utr) (e : Option EpId) (c : Int) (hu : own s.trace u) :
      ApiStep own s { s with
        utr := Function.update s.utr u r
        utrEp := Function.update s.utrEp u e
        tdCnt := Function.update s.tdCnt u c }
  | ctrl {s s' : Ehci} (u : UtrId) (hu : own s.trace u)
      (h : ehciCtrlXfer u (s.log (.submit u false)) = some (0, s')) : ApiStep own s s'
  | bulk {s s' : Ehci} (u : UtrId) (e : EpId) (hu : own s.trace u)
      (he : s.utrEp u = some e) (ht : (s.ep e).xferType = epAttrTtBulk)
      (h : ehciBulkXfer u (s.log (.submit u false)) = some (0, s')) : ApiStep own s s'
  | int {s s' : Ehci} (u : UtrId) (e : EpId) (hu : own s.trace u)
      (he : s.utrEp u = some e) (ht : (s.ep e).xferType = epAttrTtInt)
      (h : ehciIntXfer u (s.log (.submit u false)) = some (0, s')) : ApiStep own s s'
  | intFails {s s' : Ehci} (u : UtrId) (e : EpId) (r : Int) (hu : own s.trace u)
      (he : s.utrEp u = some e) (ht : (s.ep e).xferType = epAttrTtInt) (hr : r ≠ 0)
      (h : ehciIntXfer u s = some (r, s')) : ApiStep own s s'
  | iso {s s' : Ehci} (u : UtrId) (e : EpId) (hu : own s.trace u)
      (he : s.utrEp u = some e) (ht : isIso s e)
      (h : ehciIsoXfer u (s.log (.submit u true)) = some (0, s')) : ApiStep own s s'
  | isoFails {s s' : Ehci} (u : UtrId) (e : EpId) (r : Int) (hu : own s.trace u)
      (he : s.utrEp u = some e) (ht : isIso s e) (hr : r ≠ 0)
      (h : ehciIsoXfer u s = some (r, s')) : ApiStep own s s'
  | quit {s s' : Ehci} (utr : Option UtrId) (ep : Option EpId) (r : Int)
      (ht : ∀ e, quitTarget s utr ep = some e → ¬ isIso s e)
      (h : ehciQuitXfer idleEnv utr ep s = some (r, s')) : ApiStep own s s'
  /-- other drivers use the pools -/
  | foreign {s : Ehci} (p : HwPool) (d : DmaPool)
      (hp : ∀ a, p.unit a ≠ s.pool.unit a →
        (∀ k, p.unit a = some k → k.isEhci = false) ∧
        (∀ k, s.pool.unit a = some k → k.isEhci = false))
      (hs : p.sidx < hwMemUnitNum)
      (hd : ∀ x, Heap.LinkedPath.Reach s.isoEpNext s.isoEpList x → d.used x = s.dma.used x) :
      ApiStep own s { s with pool := p, dma := d }

structure EnvOk (own : Owner) (env : Env) : Prop where
  func : ∀ u s, ReflTransGen (ApiStep own) s (env.func u s)
  hc : ∀ s, ReflTransGen HcStep s (env.hc s)

/-- The callbacks of a quit do not call back into the driver. -/
structure QuietEnv (env : Env) : Prop where
  func : ∀ u s, env.func u s = s
  hc : ∀ s, ReflTransGen HcStep s (env.hc s)

/-- One step of a run that quits no isochronous endpoint. -/
inductive CoreStep (own : Owner) : Ehci → Ehci → Prop
  | api {s s' : Ehci} (h : ApiStep own s s') : CoreStep own s s'
  | hc {s s' : Ehci} (h : HcStep s s') : CoreStep own s s'
  | scanAsync {s s' : Ehci} (env : Env) (he : EnvOk own env) (fuel : Nat)
      (h : scanAsynchronousList env fuel s = some s') : CoreStep own s s'
  | scanPeriodic {s s' : Ehci} (env : Env) (he : EnvOk own env) (fuel : Nat)
      (h : scanPeriodicFrameList env fuel s = some s') : CoreStep own s s'
  | scanIso {s s' : Ehci} (env : Env) (he : EnvOk own env) (fuel : Nat)
      (h : scanIsochronousList env fuel s = some s') : CoreStep own s s'
  | iaad {s s' : Ehci} (env : Env) (he : EnvOk own env) (fuel : Nat)
      (h : iaadRemoveQh env fuel s = some s') : CoreStep own s s'
  | irq {s s' : Ehci} (env : Env) (he : EnvOk own env) (fuel : Nat)
      (h : ehciIrqHandler env fuel s = some s') : CoreStep own s s'

/-- One step of a run. -/
inductive Step (own : Owner) : Ehci → Ehci → Prop
  | core {s s' : Ehci} (h : CoreStep own s s') : Step own s s'
  | quitIso {s s' : Ehci} (env : Env) (he : QuietEnv env) (utr : Option UtrId) (ep : Option EpId)
      (r : Int) (h : ehciQuitXfer env utr ep s = some (r, s')) : Step own s s'

/-- One step of a run in which the interrupt handler alone scans and answers doorbells. -/
inductive HandlerStep (own : Owner) : Ehci → Ehci → Prop
  | api {s s' : Ehci} (h : ApiStep own s s') : HandlerStep own s s'
  | hc {s s' : Ehci} (h : HcStep s s') : HandlerStep own s s'
  | irq {s s' : Ehci} (env : Env) (he : EnvOk own env) (fuel : Nat)
      (h : ehciIrqHandler env fuel s = some s') : HandlerStep own s s'
  | quitIso {s s' : Ehci} (env : Env) (he : QuietEnv env) (utr : Option UtrId) (ep : Option EpId)
      (r : Int) (h : ehciQuitXfer env utr ep s = some (r, s')) : HandlerStep own s s'

/-- Memory before `ehci_init`: no endpoint has a pipe, and no descriptor is in use. -/
structure Boot (s : Ehci) : Prop where
  pipe : ∀ e, s.hwPipe e = .null
  unit : ∀ a k, s.pool.unit a = some k → k.isEhci = false
  sidx : s.pool.sidx < hwMemUnitNum
  ep0 : ∀ d, (s.ep (.ep0 d)).xferType = epAttrTtCtrl
  trace : s.trace = []
  iaa : s.bell.iaa = false
  serving : s.bell.serving = none

/-- The states behind `ehci_init`. -/
def Initial (s : Ehci) : Prop := ∃ s₀, Boot s₀ ∧ ehciInit true s₀ = some (0, s)

def Reachable (own : Owner) (s : Ehci) : Prop :=
  ∃ s₀, Initial s₀ ∧ ReflTransGen (Step own) s₀ s

end Ma35d1.UsbHost.Ehci
