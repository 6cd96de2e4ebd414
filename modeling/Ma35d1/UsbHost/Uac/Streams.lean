import Mathlib.Logic.Function.Basic
import Ma35d1.Machine.Trace

/-!
# Audio streams

The starts and stops of the two streams of an audio device, the completions of their isochronous
transfers, and `uac_disconnect`. The calls come one after the other; a completion comes between any
two of their steps. Of the host controller there is, for each endpoint, which UTRs it has.
-/

namespace Ma35d1.UsbHost.Uac.Streams

/-- `NUM_UTR` -/
def numUtr : Nat := 4

/-- `UAC_STATE_E` -/
inductive State
  | connecting
  | ready
  | running
  | disconnecting
  deriving DecidableEq

/-- The controller that the device is behind -/
inductive Hc
  | ehci
  | ohci
  deriving DecidableEq

inductive Dir
  | input
  | output
  deriving DecidableEq

def Dir.other : Dir → Dir
  | .input => .output
  | .output => .input

/-- `AS_IF_T` and its endpoint: whether there is an interface, the entries of `utr[]` that are not
null (the first ones, always), the buffer that their `buff` points to, the UTRs on the controller,
those that it has but nothing refers to any more, and the state of its `ISO_EP_T` or ED. -/
structure AsIf where
  iface : Bool
  flagStreaming : Bool
  utr : List Nat
  buff : Option Nat
  queue : List Nat
  orphans : List Nat
  linked : Bool
  hwPipe : Bool
  removing : Bool
  deriving DecidableEq

/-- What a call that quits the UTRs is for: a start that has failed, a stop, or a disconnect -/
inductive Why
  | start
  | stop
  | disconnect
  deriving DecidableEq

/-- Where the call that is in progress is: it allocates a UTR or the buffer, submits a UTR, sets
`flag_streaming`, sets `state`, quits a UTR, or frees what there is. -/
inductive Pc
  | idle
  | alloc (d : Dir) (i : Nat)
  | buffer (d : Dir)
  | submit (d : Dir) (i : Nat)
  | streaming (d : Dir)
  | running (d : Dir)
  | quit (why : Why) (d : Dir) (i : Nat)
  | release (why : Why) (d : Dir)
  deriving DecidableEq

/-- The stream that a call is in progress on -/
def Pc.dir : Pc → Option Dir
  | .idle => none
  | .alloc d _ | .buffer d | .submit d _ | .streaming d | .running d | .quit _ d _ | .release _ d =>
    some d

/-- `UAC_DEV_T`, with what has been allocated and freed; UTRs and buffers have numbers in the order
in which they are allocated. `refused` has the UTRs whose submission by the callback has failed. -/
structure Dev where
  hc : Hc
  state : State
  acif : Bool
  asif : Dir → AsIf
  alive : Bool
  pc : Pc
  next : Nat
  freed : List Nat
  refused : List Nat

def Dev.set (s : Dev) (d : Dir) (x : AsIf) : Dev := { s with asif := Function.update s.asif d x }

/-! ## The controller -/

/-- `usbh_iso_xfer`. On OHCI `hw_pipe` is set when the ED is there already. -/
def AsIf.isoXfer (x : AsIf) (hc : Hc) (u : Nat) : AsIf :=
  { x with
    queue := x.queue ++ [u]
    linked := true
    hwPipe := x.hwPipe || x.linked || hc == .ehci }

/-- `usbh_quit_utr`: the endpoint is to be removed, on EHCI before the call returns, on OHCI at a
later interrupt. -/
def AsIf.quitUtr (x : AsIf) (hc : Hc) : AsIf :=
  if x.hwPipe then { x with removing := true, hwPipe := hc == .ehci } else x

/-- The endpoint is gone; on EHCI what has been queued meanwhile stays in the frame list. -/
def AsIf.removed (x : AsIf) : AsIf :=
  { x with
    queue := [], orphans := x.orphans ++ x.queue
    linked := false, hwPipe := false, removing := false }

/-- `iso_in_irq` and `iso_out_irq`, of a UTR that is done; `ok` says whether it can be submitted. -/
def Dev.irq (s : Dev) (d : Dir) (u : Nat) (ok : Bool) : Dev :=
  if (s.asif d).flagStreaming = false then s
  else if s.state ≠ .running then s
  else if ok then s.set d ((s.asif d).isoXfer s.hc u)
  else { s with refused := u :: s.refused }

/-! ## The calls -/

/-- `usbh_uac_start_audio_in` and `usbh_uac_start_audio_out` up to the allocations; `found` says
whether the endpoint could be set up. Parsing the interface makes `AS_IF_T` anew. -/
def Dev.start (s : Dev) (d : Dir) (found : Bool) : Dev :=
  let x := s.asif d
  if x.iface = false ∨ x.flagStreaming = true ∨ found = false then s
  else { s.set d { x with utr := [], buff := none, flagStreaming := false } with pc := .alloc d 0 }

/-- The way to the quits; only the input clears its flag before them. -/
def Dev.stop (s : Dev) (why : Why) (d : Dir) : Dev :=
  let x := s.asif d
  { s.set d { x with flagStreaming := match d with
      | .input => false
      | .output => x.flagStreaming } with pc := .quit why d 0 }

/-- The device is freed when it has no interface any more. -/
def Dev.dropIface (s : Dev) : Dev :=
  { s with alive := s.acif || (s.asif .input).iface || (s.asif .output).iface }

/-- The end of a call: what there is is freed, and the flags are set. -/
def Dev.release (s : Dev) (why : Why) (d : Dir) : Dev :=
  let x := s.asif d
  let s := { s.set d { x with utr := [], buff := none } with
    freed := x.buff.toList ++ x.utr ++ s.freed, pc := .idle }
  let x := s.asif d
  match why with
  | .start => s.set d { x with flagStreaming := false }
  | .stop =>
    let o := s.asif d.other
    { s.set d { x with flagStreaming := false } with
      state := if s.state ≠ .disconnecting ∧ (o.iface = false ∨ o.flagStreaming = false) then .ready
        else s.state }
  | .disconnect => (s.set d { x with flagStreaming := false, iface := false }).dropIface

/-- A step of the call in progress; `ok` says whether its allocation or submission succeeds. -/
def Dev.go (s : Dev) (ok : Bool) : Option Dev :=
  match s.pc with
  | .idle => none
  | .alloc d i =>
    let x := s.asif d
    if ok then
      some { s.set d { x with utr := x.utr ++ [s.next] } with
        next := s.next + 1, pc := if i + 1 < numUtr then .alloc d (i + 1) else .buffer d }
    else some { s with pc := .quit .start d 0 }
  | .buffer d =>
    let x := s.asif d
    if ok then
      some { s.set d { x with buff := some s.next } with next := s.next + 1, pc := .submit d 0 }
    else some { s with pc := .quit .start d 0 }
  | .submit d i =>
    let x := s.asif d
    match x.utr[i]? with
    | none => none
    | some u =>
      if ok then
        some { s.set d (x.isoXfer s.hc u) with
          pc := if i + 1 < numUtr then .submit d (i + 1) else .streaming d }
      else some { s with pc := .quit .start d 0 }
  | .streaming d =>
    let x := s.asif d
    some { s.set d { x with flagStreaming := true } with pc := .running d }
  | .running _ => some { s with state := .running, pc := .idle }
  | .quit why d i =>
    let x := s.asif d
    -- on EHCI the call before returns when the endpoint is gone
    if s.hc = .ehci ∧ x.removing = true then none
    else
      let pc : Pc := if i + 1 < numUtr then .quit why d (i + 1) else .release why d
      if x.utr[i]? = none then some { s with pc := pc }
      else some { s.set d (x.quitUtr s.hc) with pc := pc }
  | .release why d =>
    if s.hc = .ehci ∧ (s.asif d).removing = true then none else some (s.release why d)

inductive Event
  | start (d : Dir) (found : Bool)
  | stop (d : Dir)
  /-- of the interface of a stream, or of the control interface -/
  | disconnect (d : Option Dir)
  | go (ok : Bool)
  /-- a transfer is done -/
  | complete (d : Dir) (u : Nat) (ok : Bool)
  /-- the first transfer of an endpoint that is being removed is aborted, on EHCI -/
  | abort (d : Dir) (ok : Bool)
  /-- an endpoint is removed with all its transfers, on OHCI -/
  | remove (d : Dir) (oks : List Bool)
  deriving DecidableEq

def step (s : Dev) : Event → Option Dev
  | .start d found => if s.pc = .idle ∧ s.alive = true then some (s.start d found) else none
  | .stop d => if s.pc = .idle ∧ s.alive = true then some (s.stop .stop d) else none
  | .disconnect none =>
    if s.pc = .idle ∧ s.alive = true ∧ s.acif = true then
      some { s with state := .disconnecting, acif := false }.dropIface
    else none
  | .disconnect (some d) =>
    if s.pc = .idle ∧ s.alive = true ∧ (s.asif d).iface = true then
      some ({ s with state := .disconnecting }.stop .disconnect d)
    else none
  | .go ok => s.go ok
  | .complete d u ok =>
    let x := s.asif d
    if u ∈ x.queue ∧ ¬ (s.hc = .ehci ∧ x.removing = true) then
      some ((s.set d { x with queue := x.queue.erase u }).irq d u ok)
    else none
  | .abort d ok =>
    let x := s.asif d
    if s.hc = .ehci ∧ x.removing = true then
      match x.queue with
      | [] => some (s.set d x.removed)
      | u :: rest =>
        let s := (s.set d { x with queue := rest }).irq d u ok
        -- the next transfer was looked up before the callback
        some (if rest = [] then s.set d (s.asif d).removed else s)
    else none
  | .remove d oks =>
    let x := s.asif d
    if s.hc = .ohci ∧ x.removing = true ∧ oks.length = x.queue.length then
      some ((x.queue.zip oks).foldl (fun s p => s.irq d p.1 p.2)
        (s.set d { x with queue := [], linked := false, removing := false }))
    else none

/-- A device with its interfaces, before any stream is started -/
def init (hc : Hc) (acif asifIn asifOut : Bool) : Dev where
  hc := hc
  state := .connecting
  acif := acif
  asif := fun d => ⟨match d with
    | .input => asifIn
    | .output => asifOut, false, [], none, [], [], false, false, false⟩
  alive := true
  pc := .idle
  next := 0
  freed := []
  refused := []

/-! ## What is asked of the streams -/

/-- The transfers that the controller has -/
def AsIf.held (x : AsIf) : List Nat := x.queue ++ x.orphans

/-- What the stream has allocated and not freed -/
def AsIf.owned (x : AsIf) : List Nat := x.buff.toList ++ x.utr

/-- What is allocated is freed once, and not while the controller has a transfer of it. A stream
that is streaming, while no call on it is in progress, has all of its UTRs on the controller but
those that could not be submitted; and one that is not has none there. -/
structure StreamLaw (s : Dev) : Prop where
  freed : ∀ id < s.next, s.freed.count id =
    if id ∈ (s.asif .input).owned ++ (s.asif .output).owned then 0 else 1
  held : ∀ d, ∀ u ∈ (s.asif d).held, u ∈ (s.asif d).utr ∧ u ∉ s.freed ∧
    ∃ b, (s.asif d).buff = some b ∧ b ∉ s.freed
  streaming : ∀ d, s.pc.dir ≠ some d → (s.asif d).flagStreaming = true →
    (s.asif d).utr.length = numUtr ∧ ∀ u ∈ (s.asif d).utr, u ∈ (s.asif d).queue ∨ u ∈ s.refused
  stopped : ∀ d, s.pc.dir ≠ some d → (s.asif d).flagStreaming = false → (s.asif d).held = []

/-- When a start sets its second flag, no transfer has been lost to a callback that found a flag
clear; and an endpoint is quit on EHCI, or before it has had a transfer. -/
def Dev.GoKept (s : Dev) : Pc → Prop
  | .running d => ∀ u ∈ (s.asif d).utr, u ∈ (s.asif d).queue ∨ u ∈ s.refused
  | .quit _ d _ => s.hc = .ehci ∨ (s.asif d).linked = false
  | _ => True

instance (s : Dev) (pc : Pc) : Decidable (s.GoKept pc) :=
  match pc with
  | .running d => inferInstanceAs (Decidable (∀ u ∈ (s.asif d).utr, _))
  | .quit _ d _ => inferInstanceAs (Decidable (s.hc = .ehci ∨ (s.asif d).linked = false))
  | .idle | .alloc .. | .buffer _ | .submit .. | .streaming _ | .release .. => .isTrue trivial

/-- Besides, a transfer of a stream that is streaming completes while the device runs, and the last
transfer that a quit aborts is not submitted again. -/
def StreamKept (s : Dev) : Event → Prop
  | .go _ => s.GoKept s.pc
  | .complete d _ _ =>
    s.pc.dir ≠ some d → (s.asif d).flagStreaming = true → s.state = .running
  | .abort d ok =>
    (s.asif d).queue.length = 1 → (s.asif d).flagStreaming = true → s.state = .running → ok = false
  | _ => True

instance (s : Dev) (e : Event) : Decidable (StreamKept s e) :=
  match e with
  | .go _ => inferInstanceAs (Decidable (s.GoKept s.pc))
  | .complete d _ _ =>
    inferInstanceAs (Decidable (s.pc.dir ≠ some d → (s.asif d).flagStreaming = true → _))
  | .abort d _ =>
    inferInstanceAs (Decidable ((s.asif d).queue.length = 1 → (s.asif d).flagStreaming = true → _))
  | .start .. | .stop _ | .disconnect _ | .remove .. => .isTrue trivial

end Ma35d1.UsbHost.Uac.Streams
