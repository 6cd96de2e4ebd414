import Ma35d1.Gmac.RxPath
import Ma35d1.Gmac.TxRing

/-!
# From lwIP to the DMA

`low_level_output0` copies a frame to the buffer of the descriptor at `TxNext` and hands that over
with `GMAC_set_tx_qptr`, one store after the other. The interrupt handler takes descriptors back
with `GMAC_handle_transmit_over`, between any two of these stores. It knows a descriptor that is
still to be sent by its OWN bit, which is stored after the length.
-/

namespace Ma35d1.Gmac

open Ma35d1.Machine
open Ma35d1.Machine.Copy
open Ma35d1.Machine.Ring (Window)

/-- `TRANSMIT_DESC_SIZE` -/
def transmitDescSize : Nat := 32

/-- The size of `data` in a `sk_buff` -/
def skbDataSize : Nat := 2048

/-- The address of `txbuf[intf][i].data`, in an array of 2064-byte `sk_buff`s -/
def txBuf (base : BitVec 32) (i : Nat) : BitVec 32 := base + BitVec.ofNat 32 (2064 * i)

/-- What `low_level_output0` returns -/
inductive Err
  | ok
  | mem
  deriving DecidableEq

/-- The stores of `GMAC_set_tx_qptr` behind its test -/
inductive TxStore
  | count
  | length
  | flags
  | buffer
  | offload
  | own
  | next
  | nextDesc
  deriving DecidableEq

/-- The store after this one -/
def TxStore.succ : TxStore → TxStore
  | .count => .length
  | .length => .flags
  | .flags => .buffer
  | .buffer => .offload
  | .offload => .own
  | .own => .next
  | .next | .nextDesc => .nextDesc

/-- What a store makes of the descriptor; `GMAC_xmit_frames` is called without a time stamp. -/
def TxStore.apply (w : TxStore) (Length Buffer1 offload_needed : BitVec 32) (d : DmaDesc) :
    DmaDesc :=
  match w with
  | .length => { d with length := d.length ||| ((Length <<< eDescSize1Shift) &&& eDescSize1Mask) }
  | .flags =>
    { d with status := d.status ||| (eDescTxFirstSeg ||| eDescTxLastSeg ||| eDescTxIntOnCompl |||
        (if (0 : BitVec 32) = 1 then eDescTxTSEnable else 0)) }
  | .buffer => { d with buffer1 := Buffer1 }
  | .offload =>
    { d with status :=
        if offload_needed ≠ 0 then (d.status &&& ~~~ eDescTxCisMask) ||| eDescTxCisTcpPseudoCs
        else d.status &&& ~~~ eDescTxCisMask }
  | .own => { d with status := d.status ||| descOwnByDma }
  | .count | .next | .nextDesc => d

/-- Where a call of `low_level_output0` stands: `tx_idx` is read; the pbufs `rest` are to be copied
behind the `len` bytes that are; `GMAC_set_tx_qptr` is called; its next store is `w`. -/
inductive OutputPc
  | idle
  | room (p : List Bytes) (tx_idx : BitVec 32)
  | copying (p : List Bytes) (tx_idx : BitVec 32) (len : Nat) (rest : List Bytes)
  | test (p : List Bytes) (tx_idx : BitVec 32)
  | store (p : List Bytes) (w : TxStore) (Length Buffer1 txnext : BitVec 32) (txdesc : Nat)
  deriving DecidableEq

/-- The ring, the DMA's place, what `txbuf` holds and the call under way; then the frames whose
descriptors the DMA was given, those it has sent, how many descriptors were taken back, and how the
calls so far have ended. -/
structure TxPath extends TxRing where
  dma : Nat
  mem : BitVec 32 → Nat → BitVec 8
  skbLen : Nat → BitVec 32
  pc : OutputPc
  queued : List Bytes
  sent : List Bytes
  taken : Nat
  returned : List (Bytes × Err)

inductive TxPathEvent
  /-- `low_level_output0` is called with a chain of pbufs -/
  | output (p : List Bytes)
  /-- the call goes on -/
  | advance
  /-- the DMA has sent the frame it is at and closes the descriptor -/
  | complete (status tsLow tsHigh : BitVec 32)
  /-- one round of the loop of `GMAC_handle_transmit_over` -/
  | reap
  deriving DecidableEq

/-- The bytes that the DMA finds through descriptor `i` -/
def TxPath.found (s : TxPath) (i : Nat) : Bytes :=
  copyFrom (s.mem (s.desc i).buffer1) 0 ((s.desc i).length &&& eDescSize1Mask).toNat

/-- The call returns. -/
def TxPath.finish (s : TxPath) (p : List Bytes) (err : Err) : TxPath :=
  { s with pc := .idle, returned := s.returned ++ [(p.flatten, err)] }

/-- One store of `GMAC_set_tx_qptr` -/
def TxPath.store (s : TxPath) (p : List Bytes) (w : TxStore)
    (Length Buffer1 txnext offload_needed : BitVec 32) (txdesc : Nat) : TxPath :=
  let s' := { s with pc := .store p w.succ Length Buffer1 txnext txdesc }
  let desc := Function.update s.desc txdesc (w.apply Length Buffer1 offload_needed (s.desc txdesc))
  match w with
  | .count => { s' with busyTxDesc := s.busyTxDesc + 1 }
  | .own => { s' with desc := desc, queued := s.queued ++ [p.flatten] }
  | .next => { s' with txNext := nextIdx (s.desc txdesc).isLastTx txnext }
  | .nextDesc => { s with txNextDesc := nextDesc (s.desc txdesc).isLastTx txdesc }.finish p .ok
  | _ => { s' with desc := desc }

/-- One step of the call: `low_level_output0` does not look at what `GMAC_set_tx_qptr` returns. -/
def TxPath.advance (base offload_needed : BitVec 32) (s : TxPath) : Option TxPath :=
  match s.pc with
  | .idle => none
  | .room p tx_idx =>
    if transmitDescSize ≤ s.busyTxDesc.toNat then some (s.finish p .mem)
    else some { s with pc := .copying p tx_idx 0 p }
  | .copying p tx_idx len (q :: rest) =>
    let buf := txBuf base tx_idx.toNat
    some { s with
      mem := Function.update s.mem buf (copyTo (s.mem buf) len q)
      pc := .copying p tx_idx ((len + q.length) % 2 ^ 16) rest }
  | .copying p tx_idx len [] =>
    some { s with
      skbLen := Function.update s.skbLen tx_idx.toNat (BitVec.ofNat 32 len), pc := .test p tx_idx }
  | .test p tx_idx =>
    if (s.desc s.txNextDesc).isEmpty = false then some (s.finish p .ok)
    else some { s with
      pc := .store p .count (s.skbLen tx_idx.toNat) (txBuf base tx_idx.toNat) s.txNext
        s.txNextDesc }
  | .store p w Length Buffer1 txnext txdesc =>
    some (s.store p w Length Buffer1 txnext offload_needed txdesc)

def txPathStep (base offload_needed : BitVec 32) (s : TxPath) : TxPathEvent → Option TxPath
  | .output p =>
    if s.pc = .idle ∧ p.flatten.length ≤ skbDataSize then some { s with pc := .room p s.txNext }
    else none
  | .advance => s.advance base offload_needed
  | .complete status tsLow tsHigh =>
    let d := s.desc s.dma
    let d' := { d with status := status, timestamplow := tsLow, timestamphigh := tsHigh }
    if d.ownedByDma = true ∧ d'.ownedByDma = false ∧ d'.isLastTx = d.isLastTx then
      some { s with
        desc := Function.update s.desc s.dma d'
        dma := nextDesc d.isLastTx s.dma
        sent := s.sent ++ [s.found s.dma] }
    else none
  | .reap =>
    match s.getTxQptr with
    | none => some s
    | some (_, _, r) => some { s with toTxRing := r, taken := s.taken + 1 }

/-- The interface as `GMAC_open` leaves it -/
def txOpened (descs : Nat → DmaDesc) (mem : BitVec 32 → Nat → BitVec 8) (skbLen : Nat → BitVec 32) :
    TxPath :=
  { setupTxDescQueue descs (BitVec.ofNat 32 transmitDescSize) with
    dma := 0, mem := mem, skbLen := skbLen, pc := .idle, queued := [], sent := [], taken := 0
    returned := [] }

/-- The buffer that is written to -/
def TxPath.writing (s : TxPath) : Option Nat :=
  match s.pc with
  | .copying _ tx_idx _ _ => some tx_idx.toNat
  | _ => none

/-- The frames for which `ERR_OK` was returned -/
def TxPath.accepted (s : TxPath) : List Bytes :=
  (s.returned.filter fun r => r.2 = .ok).map Prod.fst

/-- What the transmit buffers promise in every state. -/
structure BufferLaw (s : TxPath) : Prop where
  /-- a buffer is written to only while its descriptor is neither the DMA's nor still to be taken
  back -/
  write : ∀ i, s.writing = some i → (s.desc i).ownedByDma = false ∧
    ∀ k, s.taken ≤ k → k < s.queued.length → k % transmitDescSize ≠ i
  /-- and only within `data` -/
  fits : ∀ p tx_idx len rest, s.pc = .copying p tx_idx len rest →
    len + rest.flatten.length ≤ skbDataSize
  /-- between calls one descriptor was queued for each frame that was accepted, and no other -/
  returned : s.pc = .idle → s.queued = s.accepted
  /-- the DMA has the descriptors of the frames that are still to be sent, and finds them there -/
  contents : ∀ k f, s.sent.length ≤ k → s.queued[k]? = some f →
    (s.desc (k % transmitDescSize)).ownedByDma = true ∧ s.found (k % transmitDescSize) = f
  /-- and it has no other descriptors -/
  owned : ∀ i < transmitDescSize, (s.desc i).ownedByDma = true →
    ∃ k, s.sent.length ≤ k ∧ k < s.queued.length ∧ k % transmitDescSize = i
  sent : s.sent <+: s.queued

/-- The descriptor that is being filled, with its length stored and its OWN bit not -/
def TxPath.filling (s : TxPath) : Option Nat :=
  match s.pc with
  | .store _ .flags _ _ _ txdesc | .store _ .buffer _ _ _ txdesc | .store _ .offload _ _ _ txdesc
  | .store _ .own _ _ _ txdesc => some txdesc
  | _ => none

/-- The handler does not come to the descriptor that is being filled, unless its frame is empty. -/
def BufferKept (s : TxPath) : TxPathEvent → Prop
  | .reap => s.filling = some s.txBusyDesc → (s.desc s.txBusyDesc).isEmpty = true
  | _ => True

instance (s : TxPath) (e : TxPathEvent) : Decidable (BufferKept s e) :=
  match e with
  | .reap => inferInstanceAs (Decidable (_ = _ → _ = true))
  | .output _ | .advance | .complete .. => .isTrue trivial

end Ma35d1.Gmac
