import Mathlib.Data.List.Basic
import Ma35d1.Gmac.Desc
import Ma35d1.Machine.Trace

/-!
# The transmit ring

`GMAC_set_tx_qptr` hands a buffer to the DMA and `GMAC_get_tx_qptr` takes back the oldest one.
Calls are made one at a time, while the DMA closes descriptors in order at any time, also
between the store of the OWN bit and the end of the call that made it. The write-back of the
DMA keeps the end-of-ring bit.
-/

namespace Ma35d1.Gmac

open Ma35d1.Machine
open Ma35d1.Machine.Ring (Window)

/-- The fields of a `GMACdevice` that the transmit ring uses, and its descriptors. -/
structure TxRing where
  desc : Nat → DmaDesc
  txDescCount : Nat
  busyTxDesc : BitVec 32
  txBusy : BitVec 32
  txNext : BitVec 32
  txBusyDesc : Nat
  txNextDesc : Nat

/-- `GMAC_setup_tx_desc_queue`, with what the memory held before. -/
def setupTxDescQueue (mem : Nat → DmaDesc) (no_of_desc : BitVec 32) : TxRing :=
  { desc := fun i =>
      if i < no_of_desc.toNat then txDescInitRing (mem i) (i + 1 = no_of_desc.toNat) else mem i
    txDescCount := no_of_desc.toNat
    busyTxDesc := 0, txBusy := 0, txNext := 0, txBusyDesc := 0, txNextDesc := 0 }

/-- What `GMAC_set_tx_qptr` writes to an empty descriptor. -/
def txFillDesc (txdesc : DmaDesc) (Length Buffer1 offload_needed ts : BitVec 32) : DmaDesc :=
  let length := txdesc.length ||| ((Length <<< eDescSize1Shift) &&& eDescSize1Mask)
  let status := txdesc.status ||| (eDescTxFirstSeg ||| eDescTxLastSeg ||| eDescTxIntOnCompl |||
    (if ts = 1 then eDescTxTSEnable else 0))
  let status :=
    if offload_needed ≠ 0 then (status &&& ~~~ eDescTxCisMask) ||| eDescTxCisTcpPseudoCs
    else status &&& ~~~ eDescTxCisMask
  { txdesc with length, buffer1 := Buffer1, status := status ||| descOwnByDma }

/-- The descriptor at `TxNextDesc` is filled. -/
def TxRing.fillNext (r : TxRing) (Length Buffer1 offload_needed ts : BitVec 32) : TxRing :=
  { r with
    busyTxDesc := r.busyTxDesc + 1
    desc := Function.update r.desc r.txNextDesc
      (txFillDesc (r.desc r.txNextDesc) Length Buffer1 offload_needed ts) }

/-- `GMAC_set_tx_qptr` up to the store of the OWN bit, or the return of -1. -/
def TxRing.fill (r : TxRing) (Length Buffer1 offload_needed ts : BitVec 32) : Option TxRing :=
  if (r.desc r.txNextDesc).isEmpty = false then none
  else some (r.fillNext Length Buffer1 offload_needed ts)

/-- What `GMAC_get_tx_qptr` reads from a descriptor. -/
structure TxQptr where
  Status : BitVec 32
  Length : BitVec 32
  Buffer1 : BitVec 32
  Buffer2 : BitVec 32
  ExtStatus : BitVec 32
  TSLow : BitVec 32
  TSHigh : BitVec 32

def readTxDesc (txdesc : DmaDesc) : TxQptr :=
  { Status := txdesc.status
    Length := (txdesc.length &&& eDescSize1Mask) >>> eDescSize1Shift
    Buffer1 := txdesc.buffer1
    Buffer2 := txdesc.buffer2
    ExtStatus := txdesc.extstatus
    TSLow := txdesc.timestamplow
    TSHigh := txdesc.timestamphigh }

/-- `GMAC_get_tx_qptr`: the index and the descriptor's words, or `none` for -1. -/
def TxRing.getTxQptr (r : TxRing) : Option (BitVec 32 × TxQptr × TxRing) :=
  let txover := r.txBusy
  let txdesc := r.desc r.txBusyDesc
  if txdesc.ownedByDma then none
  else if txdesc.isEmpty then none
  else some (txover, readTxDesc txdesc,
    { r with
      busyTxDesc := r.busyTxDesc - 1
      txBusy := nextIdx txdesc.isLastTx txover
      txBusyDesc := nextDesc txdesc.isLastTx r.txBusyDesc
      desc := Function.update r.desc r.txBusyDesc (txDescInitRing txdesc txdesc.isLastTx) })

/-! ## Runs -/

/-- How far a `GMAC_set_tx_qptr` has come after its store of the OWN bit. -/
inductive TxPc
  | idle
  /-- before `TxNext` is set -/
  | next (txnext : BitVec 32) (txdesc : Nat)
  /-- before `TxNextDesc` is set -/
  | nextDesc (txdesc : Nat)

/-- The ring, the call under way, the DMA's own place, and the buffers with their lengths: all
those queued, those the DMA has closed and those taken back. -/
structure TxState extends TxRing where
  pc : TxPc
  dma : Nat
  queued : List (BitVec 32 × BitVec 32)
  closed : List (BitVec 32 × BitVec 32)
  taken : List (BitVec 32 × BitVec 32)

inductive TxEvent
  | set (Length Buffer1 offload_needed ts : BitVec 32)
  /-- the `GMAC_set_tx_qptr` under way goes on -/
  | advance
  /-- the DMA writes `status` and a time stamp back to the descriptor it has sent -/
  | complete (status tsLow tsHigh : BitVec 32)
  | get

/-- The buffer of a descriptor and its length. -/
def DmaDesc.entry (d : DmaDesc) : BitVec 32 × BitVec 32 :=
  (d.buffer1, (d.length &&& eDescSize1Mask) >>> eDescSize1Shift)

/-- A buffer is queued. -/
def TxState.filled (s : TxState) (r : TxRing) (Length Buffer1 : BitVec 32) : TxState :=
  { s with
    toTxRing := r
    pc := .next s.txNext s.txNextDesc
    queued := s.queued ++ [(Buffer1, Length)] }

/-- The DMA closes the descriptor it is at. -/
def TxState.closeDesc (s : TxState) (status tsLow tsHigh : BitVec 32) : TxState :=
  let d := s.desc s.dma
  { s with
    desc := Function.update s.desc s.dma
      { d with status, timestamplow := tsLow, timestamphigh := tsHigh }
    dma := nextDesc d.isLastTx s.dma
    closed := s.closed ++ [d.entry] }

def txStep (s : TxState) : TxEvent → Option TxState
  | .set Length Buffer1 offload_needed ts =>
    match s.pc with
    | .idle =>
      if 1 ≤ Length.toNat ∧ Length.toNat ≤ 8191 then
        match s.fill Length Buffer1 offload_needed ts with
        | none => some s
        | some r => some (s.filled r Length Buffer1)
      else none
    | _ => none
  | .advance =>
    match s.pc with
    | .idle => none
    | .next txnext txdesc =>
      some { s with txNext := nextIdx (s.desc txdesc).isLastTx txnext, pc := .nextDesc txdesc }
    | .nextDesc txdesc =>
      some { s with txNextDesc := nextDesc (s.desc txdesc).isLastTx txdesc, pc := .idle }
  | .complete status tsLow tsHigh =>
    let d := s.desc s.dma
    let d' := { d with status }
    if d.ownedByDma = true ∧ d'.ownedByDma = false ∧ d'.isLastTx = d.isLastTx then
      some (s.closeDesc status tsLow tsHigh)
    else none
  | .get =>
    match s.pc with
    | .idle =>
      match s.getTxQptr with
      | none => some s
      | some (_, out, r) =>
        some { s with toTxRing := r, taken := s.taken ++ [(out.Buffer1, out.Length)] }
    | _ => none

def txStart (mem : Nat → DmaDesc) (no_of_desc : BitVec 32) : TxState :=
  { setupTxDescQueue mem no_of_desc with
    pc := .idle, dma := 0, queued := [], closed := [], taken := [] }

/-- What the ring promises in every state. -/
structure TxLaw (s : TxState) : Prop where
  next_lt : s.txNext.toNat < s.txDescCount
  busy_lt : s.txBusy.toNat < s.txDescCount
  /-- between calls the indices agree with the pointers -/
  pointers : s.pc = .idle → s.txNextDesc = s.txNext.toNat ∧ s.txBusyDesc = s.txBusy.toNat
  busy : s.busyTxDesc.toNat + s.taken.length = s.queued.length
  /-- a buffer is refused exactly when the ring is full -/
  full : s.pc = .idle → ∀ Length Buffer1 offload_needed ts,
    s.fill Length Buffer1 offload_needed ts = none ↔ s.busyTxDesc.toNat = s.txDescCount
  /-- the buffers taken back are the first of those the DMA has released, which are the first
  of those queued -/
  released : s.taken <+: s.closed
  fifo : s.closed <+: s.queued
  /-- a buffer is taken back as soon as one is released -/
  ready : s.pc = .idle → (s.getTxQptr.isSome = true ↔ s.taken.length < s.closed.length)

/-! ## Descriptors -/

section Descs

variable {d : DmaDesc} {Length Buffer1 offload_needed ts : BitVec 32} {last : Bool}

theorem isEmpty_of_length (h : d.length = 0) : d.isEmpty = true := by
  unfold DmaDesc.isEmpty
  rw [h]
  rfl

theorem txDescInitRing_owned : (txDescInitRing d last).ownedByDma = false := by
  rw [ownedByDma_eq]
  simp only [txDescInitRing]
  cases last <;> decide

theorem txDescInitRing_last : (txDescInitRing d last).isLastTx = last := by
  rw [isLastTx_eq]
  simp only [txDescInitRing]
  cases last <;> decide

/-- A length up to 8191 fits the field of the first buffer. -/
theorem fill_length (hd : d.length = 0) (hlen : Length.toNat ≤ 8191) :
    (txFillDesc d Length Buffer1 offload_needed ts).length = Length := by
  unfold txFillDesc
  simp only [hd, eDescSize1Shift, BitVec.shiftLeft_zero]
  have hzero : (0 : BitVec 32) ||| (Length &&& eDescSize1Mask) = Length &&& eDescSize1Mask :=
    BitVec.zero_or
  apply BitVec.eq_of_toNat_eq
  rw [hzero, BitVec.toNat_and, show eDescSize1Mask.toNat = 2 ^ 13 - 1 from rfl,
    Nat.and_two_pow_sub_one_eq_mod]
  exact Nat.mod_eq_of_lt (by omega)

theorem fill_entry (hd : d.length = 0) (hlen : Length.toNat ≤ 8191) :
    (txFillDesc d Length Buffer1 offload_needed ts).entry = (Buffer1, Length) := by
  have hbuf : (txFillDesc d Length Buffer1 offload_needed ts).buffer1 = Buffer1 := rfl
  unfold DmaDesc.entry
  rw [fill_length hd hlen, hbuf]
  congr 1
  apply BitVec.eq_of_toNat_eq
  simp only [eDescSize1Shift, BitVec.ushiftRight_zero, BitVec.toNat_and]
  rw [show eDescSize1Mask.toNat = 2 ^ 13 - 1 from rfl, Nat.and_two_pow_sub_one_eq_mod]
  exact Nat.mod_eq_of_lt (by omega)

theorem isEmpty_eq_false (hpos : 1 ≤ d.length.toNat) (hlen : d.length.toNat ≤ 8191) :
    d.isEmpty = false := by
  unfold DmaDesc.isEmpty
  rw [Bool.and_eq_false_iff]
  left
  rw [beq_eq_false_iff_ne]
  intro h
  have hn := congrArg BitVec.toNat h
  rw [BitVec.toNat_and, show eDescSize1Mask.toNat = 2 ^ 13 - 1 from rfl,
    Nat.and_two_pow_sub_one_eq_mod, Nat.mod_eq_of_lt (by omega)] at hn
  rw [hn] at hpos
  exact absurd hpos (by decide)

theorem fill_owned : (txFillDesc d Length Buffer1 offload_needed ts).ownedByDma = true := by
  rw [ownedByDma_eq]
  simp only [txFillDesc, BitVec.getLsbD_or, show descOwnByDma.getLsbD 31 = true by decide,
    Bool.or_true]

/-- Queueing a buffer leaves the end-of-ring bit as it is. -/
theorem fill_last :
    (txFillDesc d Length Buffer1 offload_needed ts).isLastTx = d.isLastTx := by
  rw [isLastTx_eq, isLastTx_eq]
  have hts : (if ts = 1 then eDescTxTSEnable else 0).getLsbD 21 = false := by
    split <;> decide
  have hcis : (~~~ eDescTxCisMask).getLsbD 21 = true := by decide
  have hpseudo : eDescTxCisTcpPseudoCs.getLsbD 21 = false := by decide
  have hown : descOwnByDma.getLsbD 21 = false := by decide
  have hfirst : eDescTxFirstSeg.getLsbD 21 = false := by decide
  have hlast : eDescTxLastSeg.getLsbD 21 = false := by decide
  have hint : eDescTxIntOnCompl.getLsbD 21 = false := by decide
  simp only [txFillDesc]
  split <;>
    simp only [BitVec.getLsbD_or, BitVec.getLsbD_and, hts, hcis, hpseudo, hown, hfirst, hlast,
      hint, Bool.or_false, Bool.and_true]

end Descs

/-! ## The invariant -/

/-- The descriptor holds the `k`-th buffer queued, and is the DMA's until it is closed. -/
def TxItem (s : TxState) (k : Nat) (d : DmaDesc) : Prop :=
  d.isEmpty = false ∧ s.queued[k]? = some d.entry ∧ (d.ownedByDma = true ↔ s.closed.length ≤ k)

def TxFree (d : DmaDesc) : Prop := d.length = 0 ∧ d.ownedByDma = false

/-- Where the driver puts the next buffer, once the call under way has returned. -/
def TxPlace (s : TxState) : Prop :=
  match s.pc with
  | .idle => s.txNext.toNat = s.queued.length % s.txDescCount ∧ s.txNextDesc = s.txNext.toNat
  | .next txnext txdesc =>
    ∃ q, s.queued.length = q + 1 ∧ txdesc = q % s.txDescCount ∧ txnext = s.txNext ∧
      s.txNext.toNat = txdesc ∧ s.txNextDesc = txdesc
  | .nextDesc txdesc =>
    ∃ q, s.queued.length = q + 1 ∧ txdesc = q % s.txDescCount ∧
      s.txNext.toNat = s.queued.length % s.txDescCount ∧ s.txNextDesc = txdesc

structure TxInv (s : TxState) : Prop where
  count_pos : 0 < s.txDescCount
  count_lt : s.txDescCount < 2 ^ 32
  window : Window s.txDescCount s.taken.length s.queued.length (TxItem s) TxFree s.desc
  last : ∀ i < s.txDescCount, (s.desc i).isLastTx = true ↔ i + 1 = s.txDescCount
  released : s.taken <+: s.closed
  fifo : s.closed <+: s.queued
  dma : s.dma = s.closed.length % s.txDescCount
  busyDesc : s.txBusyDesc = s.taken.length % s.txDescCount
  busyIdx : s.txBusy.toNat = s.txBusyDesc
  busy : s.busyTxDesc.toNat + s.taken.length = s.queued.length
  place : TxPlace s

section Steps

variable {s t : TxState} {e : TxEvent} {Length Buffer1 offload_needed ts status tsLow tsHigh : BitVec 32}

theorem TxInv.last_mod (h : TxInv s) (k : Nat) :
    (s.desc (k % s.txDescCount)).isLastTx = true ↔ k % s.txDescCount + 1 = s.txDescCount :=
  h.last _ (Nat.mod_lt k h.count_pos)

/-- The descriptor after a place is that of the item after. -/
theorem TxInv.nextDesc_mod (h : TxInv s) (k : Nat) :
    nextDesc (s.desc (k % s.txDescCount)).isLastTx (k % s.txDescCount) =
      (k + 1) % s.txDescCount := by
  rw [nextDesc_eq (h.last_mod k), Ring.next_mod h.count_pos]

theorem TxInv.nextIdx_mod (h : TxInv s) {k : Nat} {i : BitVec 32}
    (hi : i.toNat = k % s.txDescCount) :
    (nextIdx (s.desc (k % s.txDescCount)).isLastTx i).toNat = (k + 1) % s.txDescCount := by
  rw [nextIdx_toNat h.count_lt hi (Nat.mod_lt k h.count_pos) (h.last_mod k),
    Ring.next_mod h.count_pos]

/-- The place of the next buffer is free exactly while the ring is not full. -/
theorem TxInv.empty_iff (h : TxInv s) :
    (s.desc (s.queued.length % s.txDescCount)).isEmpty = true ↔
      s.queued.length < s.taken.length + s.txDescCount := by
  have hcap := h.window.cap
  have hpos := h.count_pos
  constructor
  · intro hempty
    by_contra hfull
    have hq : s.queued.length = s.taken.length + s.txDescCount := by omega
    have hitem := h.window.item s.taken.length (Nat.le_refl _) (by omega)
    rw [hq, Nat.add_mod_right, hitem.1] at hempty
    exact Bool.false_ne_true hempty
  · intro hroom
    exact isEmpty_of_length (h.window.free _ (Nat.le_refl _) hroom).1

/-- The descriptor of the oldest buffer can be taken exactly when it is closed. -/
theorem TxInv.ready_iff (h : TxInv s) :
    ((s.desc s.txBusyDesc).ownedByDma = false ∧ (s.desc s.txBusyDesc).isEmpty = false) ↔
      s.taken.length < s.closed.length := by
  have hpos := h.count_pos
  have hclosed := h.fifo.length_le
  have htaken := h.released.length_le
  rw [h.busyDesc]
  by_cases hq : s.taken.length < s.queued.length
  · obtain ⟨hne, -, hown⟩ := h.window.item _ (Nat.le_refl _) hq
    rw [← Bool.not_eq_true, hown]
    constructor
    · intro hr
      omega
    · intro hr
      exact ⟨by omega, hne⟩
  · have hfree := h.window.free s.taken.length (by omega) (by omega)
    constructor
    · intro hr
      rw [isEmpty_of_length hfree.1] at hr
      exact absurd hr.2 (by decide)
    · intro hr
      omega

/-- The DMA is at a descriptor it owns only while there is one to close. -/
theorem TxInv.pending_of_owned (h : TxInv s) (hown : (s.desc s.dma).ownedByDma = true) :
    s.closed.length < s.queued.length := by
  have hpos := h.count_pos
  have hcap := h.window.cap
  have hclosed := h.fifo.length_le
  by_contra hno
  have heq : s.closed.length = s.queued.length := by omega
  rw [h.dma, heq] at hown
  by_cases hroom : s.queued.length < s.taken.length + s.txDescCount
  · rw [(h.window.free _ (Nat.le_refl _) hroom).2] at hown
    exact Bool.false_ne_true hown
  · have hq : s.queued.length = s.taken.length + s.txDescCount := by omega
    obtain ⟨-, -, howned⟩ := h.window.item s.taken.length (Nat.le_refl _) (by omega)
    rw [hq, Nat.add_mod_right, howned] at hown
    omega

theorem TxInv.law (h : TxInv s) : TxLaw s := by
  have hbusy_lt : s.txBusyDesc < s.txDescCount := by
    rw [h.busyDesc]
    exact Nat.mod_lt _ h.count_pos
  have hplace := h.place
  unfold TxPlace at hplace
  refine ⟨?_, by rw [h.busyIdx]; exact hbusy_lt, ?_, h.busy, ?_, h.released, h.fifo, ?_⟩
  · split at hplace
    · rw [hplace.1]
      exact Nat.mod_lt _ h.count_pos
    · obtain ⟨q, -, hp, -, hn, -⟩ := hplace
      rw [hn, hp]
      exact Nat.mod_lt _ h.count_pos
    · obtain ⟨q, -, -, hn, -⟩ := hplace
      rw [hn]
      exact Nat.mod_lt _ h.count_pos
  · intro hpc
    rw [hpc] at hplace
    exact ⟨hplace.2, h.busyIdx.symm⟩
  · intro hpc Length Buffer1 offload_needed ts
    rw [hpc] at hplace
    have hempty := h.empty_iff
    rw [← hplace.1, ← hplace.2] at hempty
    have hcap := h.window.cap
    have hbusy := h.busy
    unfold TxRing.fill
    by_cases he : (s.desc s.txNextDesc).isEmpty = true
    · have hroom := hempty.1 he
      simp only [he, Bool.true_eq_false, if_false, reduceCtorEq, false_iff]
      omega
    · have hroom := mt hempty.2 he
      rw [Bool.not_eq_true] at he
      simp only [he, if_true, true_iff]
      omega
  · intro hpc
    rw [← h.ready_iff]
    unfold TxRing.getTxQptr
    cases ho : (s.desc s.txBusyDesc).ownedByDma <;>
      cases he : (s.desc s.txBusyDesc).isEmpty <;> simp [ho, he]

/-- A prefix grows by the element that comes next. -/
theorem prefix_concat {α : Type*} {l m : List α} {a : α} (h : l <+: m)
    (ha : m[l.length]? = some a) : l ++ [a] <+: m := by
  obtain ⟨r, rfl⟩ := h
  rw [List.getElem?_append_right (Nat.le_refl _), Nat.sub_self] at ha
  cases r with
  | nil => simp at ha
  | cons b r =>
    obtain rfl : b = a := by simpa using ha
    exact ⟨r, by simp⟩

/-- A change of one descriptor that keeps its end-of-ring bit keeps them all. -/
theorem last_update {n : Nat} {desc : Nat → DmaDesc} {j : Nat} {d' : DmaDesc}
    (h : ∀ i < n, (desc i).isLastTx = true ↔ i + 1 = n) (hd : d'.isLastTx = (desc j).isLastTx) :
    ∀ i < n, (Function.update desc j d' i).isLastTx = true ↔ i + 1 = n := by
  intro i hi
  by_cases hij : i = j
  · rw [hij, Function.update_self, hd, ← hij]
    exact h i hi
  · rw [Function.update_of_ne hij]
    exact h i hi

theorem fill_cases {r : TxRing} (h : s.fill Length Buffer1 offload_needed ts = some r) :
    (s.desc s.txNextDesc).isEmpty = true ∧ r = s.fillNext Length Buffer1 offload_needed ts := by
  unfold TxRing.fill at h
  cases he : (s.desc s.txNextDesc).isEmpty with
  | false => simp [he] at h
  | true =>
    simp only [he, Bool.true_eq_false, if_false, Option.some.injEq] at h
    exact ⟨rfl, h.symm⟩

theorem TxInv.filled {r : TxRing} (h : TxInv s) (hpc : s.pc = .idle) (hpos : 1 ≤ Length.toNat)
    (hlen : Length.toNat ≤ 8191) (hr : s.fill Length Buffer1 offload_needed ts = some r) :
    TxInv (s.filled r Length Buffer1) := by
  obtain ⟨hempty, rfl⟩ := fill_cases hr
  have hplace := h.place
  unfold TxPlace at hplace
  rw [hpc] at hplace
  obtain ⟨hnext, hdesc⟩ := hplace
  have hat : s.txNextDesc = s.queued.length % s.txDescCount := hdesc.trans hnext
  have hroom : s.queued.length < s.taken.length + s.txDescCount := by
    rw [hat] at hempty
    exact h.empty_iff.1 hempty
  have hfree := h.window.free _ (Nat.le_refl _) hroom
  rw [← hat] at hfree
  have hbusy := h.busy
  have hclosed := h.fifo.length_le
  have hcount := h.count_lt
  refine ⟨h.count_pos, h.count_lt, ?_, last_update h.last fill_last, h.released,
    h.fifo.trans (List.prefix_append _ _), h.dma, h.busyDesc, h.busyIdx, ?_, ?_⟩
  · -- the new buffer is the last item of the window
    have hpush := h.window.push
      (Q := TxItem (s.filled (s.fillNext Length Buffer1 offload_needed ts) Length Buffer1)) (v :=
      txFillDesc (s.desc s.txNextDesc) Length Buffer1 offload_needed ts) hroom ?_ ?_
    · rw [← hat] at hpush
      have hlength : (s.queued ++ [(Buffer1, Length)]).length = s.queued.length + 1 := by simp
      rw [← hlength] at hpush
      exact hpush
    · refine ⟨isEmpty_eq_false ?_ ?_, ?_, iff_of_true fill_owned hclosed⟩
      · rw [fill_length hfree.1 hlen]
        exact hpos
      · rw [fill_length hfree.1 hlen]
        exact hlen
      · rw [fill_entry hfree.1 hlen]
        exact List.getElem?_concat_length
    · rintro k - hk ⟨hne, hentry, hown⟩
      refine ⟨hne, ?_, hown⟩
      exact (List.getElem?_append_left hk).trans hentry
  · simp only [TxState.filled, TxRing.fillNext, List.length_append, List.length_singleton]
    rw [BitVec.toNat_add, show (1 : BitVec 32).toNat = 1 from rfl, Nat.mod_eq_of_lt (by omega)]
    omega
  · exact ⟨s.queued.length, by simp [TxState.filled], hat, rfl, hdesc.symm, rfl⟩

theorem TxInv.closeDesc (h : TxInv s) (hown : (s.desc s.dma).ownedByDma = true)
    (hown' : ({ s.desc s.dma with status } : DmaDesc).ownedByDma = false)
    (hlast : ({ s.desc s.dma with status } : DmaDesc).isLastTx = (s.desc s.dma).isLastTx) :
    TxInv (s.closeDesc status tsLow tsHigh) := by
  have hpend := h.pending_of_owned hown
  have htaken := h.released.length_le
  have hitem := h.window.item s.closed.length htaken hpend
  rw [← h.dma] at hitem
  refine ⟨h.count_pos, h.count_lt, ?_, last_update h.last hlast,
    h.released.trans (List.prefix_append _ _), prefix_concat h.fifo hitem.2.1, ?_, h.busyDesc,
    h.busyIdx, h.busy, h.place⟩
  · have hchange := h.window.change (Q := TxItem (s.closeDesc status tsLow tsHigh)) (v :=
      { s.desc s.dma with status, timestamplow := tsLow, timestamphigh := tsHigh })
      htaken hpend ?_ ?_
    · rw [← h.dma] at hchange
      exact hchange
    · refine ⟨hitem.1, hitem.2.1, ?_⟩
      simp only [TxState.closeDesc, List.length_append, List.length_singleton]
      exact iff_of_false (fun ho => Bool.false_ne_true (hown'.symm.trans ho)) (by omega)
    · rintro k - - hne ⟨hempty, hentry, ho⟩
      refine ⟨hempty, hentry, ho.trans ?_⟩
      simp only [TxState.closeDesc, List.length_append, List.length_singleton]
      omega
  · simp only [TxState.closeDesc, List.length_append, List.length_singleton]
    rw [h.dma, h.nextDesc_mod]

theorem get_cases {r : TxRing} {o : BitVec 32 × TxQptr × TxRing} (h : r.getTxQptr = some o) :
    ((r.desc r.txBusyDesc).ownedByDma = false ∧ (r.desc r.txBusyDesc).isEmpty = false) ∧
      o.2.1 = readTxDesc (r.desc r.txBusyDesc) ∧
      o.2.2 = { r with
        busyTxDesc := r.busyTxDesc - 1
        txBusy := nextIdx (r.desc r.txBusyDesc).isLastTx r.txBusy
        txBusyDesc := nextDesc (r.desc r.txBusyDesc).isLastTx r.txBusyDesc
        desc := Function.update r.desc r.txBusyDesc
          (txDescInitRing (r.desc r.txBusyDesc) (r.desc r.txBusyDesc).isLastTx) } := by
  unfold TxRing.getTxQptr at h
  cases ho : (r.desc r.txBusyDesc).ownedByDma with
  | true => simp [ho] at h
  | false =>
    cases he : (r.desc r.txBusyDesc).isEmpty with
    | true => simp [ho, he] at h
    | false =>
      simp only [ho, he, Bool.false_eq_true, if_false, Option.some.injEq] at h
      subst h
      exact ⟨⟨rfl, rfl⟩, rfl, rfl⟩

/-- A buffer is taken back. -/
def TxState.takeBack (s : TxState) (r : TxRing) (out : TxQptr) : TxState :=
  { s with toTxRing := r, taken := s.taken ++ [(out.Buffer1, out.Length)] }

theorem TxInv.takeBack {o : BitVec 32 × TxQptr × TxRing} (h : TxInv s) (hpc : s.pc = .idle)
    (ho : s.getTxQptr = some o) : TxInv (s.takeBack o.2.2 o.2.1) := by
  obtain ⟨hfree, hout, hr⟩ := get_cases ho
  have hready := h.ready_iff.1 hfree
  have hclosed := h.fifo.length_le
  have hitem := h.window.item s.taken.length (Nat.le_refl _) (by omega)
  rw [← h.busyDesc] at hitem
  have hplace := h.place
  unfold TxPlace at hplace
  rw [hpc] at hplace
  have hbusy := h.busy
  have hcount := h.count_lt
  unfold TxState.takeBack
  rw [hout, hr]
  refine ⟨h.count_pos, h.count_lt, ?_, last_update h.last txDescInitRing_last, ?_, h.fifo,
    h.dma, ?_, ?_, ?_, ?_⟩
  · have hpop := h.window.pop (v :=
      txDescInitRing (s.desc s.txBusyDesc) (s.desc s.txBusyDesc).isLastTx) (by omega)
      ⟨rfl, txDescInitRing_owned⟩
    rw [← h.busyDesc] at hpop
    simp only [List.length_append, List.length_singleton]
    exact hpop
  · apply prefix_concat h.released
    obtain ⟨rest, hrest⟩ := h.fifo
    have hentry := hitem.2.1
    rw [← hrest, List.getElem?_append_left hready] at hentry
    exact hentry
  · simp only [List.length_append, List.length_singleton]
    rw [h.busyDesc, h.nextDesc_mod]
  · have hidx : s.txBusy.toNat = s.taken.length % s.txDescCount := h.busyIdx.trans h.busyDesc
    simp only [h.busyDesc]
    rw [h.nextIdx_mod hidx, h.nextDesc_mod]
  · simp only [List.length_append, List.length_singleton]
    rw [BitVec.toNat_sub, show (1 : BitVec 32).toNat = 1 from rfl]
    omega
  · unfold TxPlace
    simp only [hpc]
    exact hplace

theorem TxInv.advance (h : TxInv s) (ht : txStep s .advance = some t) : TxInv t := by
  have hplace := h.place
  unfold TxPlace at hplace
  simp only [txStep] at ht
  split at ht
  · simp at ht
  · rename_i txnext txdesc hpc
    rw [hpc] at hplace
    obtain ⟨q, hq, rfl, rfl, hidx, hdesc⟩ := hplace
    obtain rfl := Option.some.inj ht
    refine ⟨h.count_pos, h.count_lt, h.window, h.last, h.released, h.fifo, h.dma, h.busyDesc,
      h.busyIdx, h.busy, q, hq, rfl, ?_, hdesc⟩
    simp only [hq]
    exact h.nextIdx_mod hidx
  · rename_i txdesc hpc
    rw [hpc] at hplace
    obtain ⟨q, hq, rfl, hidx, hdesc⟩ := hplace
    obtain rfl := Option.some.inj ht
    refine ⟨h.count_pos, h.count_lt, h.window, h.last, h.released, h.fifo, h.dma, h.busyDesc,
      h.busyIdx, h.busy, hidx, ?_⟩
    simp only [hidx, hq]
    exact h.nextDesc_mod q

theorem txStep_inv (h : TxInv s) (ht : txStep s e = some t) : TxInv t := by
  cases e with
  | set Length Buffer1 offload_needed ts =>
    simp only [txStep] at ht
    split at ht
    · rename_i hpc
      split at ht
      · rename_i hlen
        split at ht
        · obtain rfl := Option.some.inj ht
          exact h
        · rename_i r hr
          obtain rfl := Option.some.inj ht
          exact h.filled hpc hlen.1 hlen.2 hr
      · simp at ht
    · simp at ht
  | advance => exact h.advance ht
  | complete status tsLow tsHigh =>
    simp only [txStep, Option.ite_none_right_eq_some, Option.some.injEq] at ht
    obtain ⟨⟨hown, hown', hlast⟩, rfl⟩ := ht
    exact h.closeDesc hown hown' hlast
  | get =>
    simp only [txStep] at ht
    split at ht
    · rename_i hpc
      split at ht
      · obtain rfl := Option.some.inj ht
        exact h
      · rename_i o idx out r hr
        obtain rfl := Option.some.inj ht
        exact h.takeBack hpc hr
    · simp at ht

theorem txStart_inv (mem : Nat → DmaDesc) {no_of_desc : BitVec 32} (hn : 1 ≤ no_of_desc.toNat) :
    TxInv (txStart mem no_of_desc) := by
  have hdesc : ∀ i < no_of_desc.toNat, (txStart mem no_of_desc).desc i =
      txDescInitRing (mem i) (i + 1 = no_of_desc.toNat) := fun i hi => if_pos hi
  refine ⟨hn, no_of_desc.isLt, Window.empty (fun i hi => ?_) hn, fun i hi => ?_,
    List.prefix_rfl, List.prefix_rfl, (Nat.zero_mod _).symm, (Nat.zero_mod _).symm, rfl, rfl,
    ⟨(Nat.zero_mod _).symm, rfl⟩⟩
  · rw [hdesc i hi]
    exact ⟨rfl, txDescInitRing_owned⟩
  · rw [hdesc i hi, txDescInitRing_last, decide_eq_true_iff]
    exact Iff.rfl

end Steps

end Ma35d1.Gmac
