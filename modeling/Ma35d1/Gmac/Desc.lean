import Mathlib.Data.BitVec
import Ma35d1.Machine.Ring

/-!
# DMA descriptors of the Ethernet controller

The descriptor words of enhanced mode and the predicates on them that both rings use. A
descriptor pointer is the number of the descriptor in its ring; the cached and the
non-cached address of a descriptor are one pointer.
-/

namespace Ma35d1.Gmac

/-- `DmaDesc` -/
structure DmaDesc where
  status : BitVec 32
  length : BitVec 32
  buffer1 : BitVec 32
  buffer2 : BitVec 32
  extstatus : BitVec 32
  reserved1 : BitVec 32
  timestamplow : BitVec 32
  timestamphigh : BitVec 32

/-- A descriptor of zeros. -/
def blankDesc : DmaDesc := ⟨0, 0, 0, 0, 0, 0, 0, 0⟩

def descOwnByDma : BitVec 32 := 0x80000000
def eDescTxIntOnCompl : BitVec 32 := 0x40000000
def eDescTxLastSeg : BitVec 32 := 0x20000000
def eDescTxFirstSeg : BitVec 32 := 0x10000000
def eDescTxTSEnable : BitVec 32 := 0x02000000
def eDescTxCisMask : BitVec 32 := 0x00c00000
def eDescTxCisTcpPseudoCs : BitVec 32 := 0x00c00000
def eDescTxEndOfRing : BitVec 32 := 0x00200000
def eDescRxEndOfRing : BitVec 32 := 0x00008000
def eDescSize1Mask : BitVec 32 := 0x00001FFF
def eDescSize2Mask : BitVec 32 := 0x1FFF0000
def eDescSize1Shift : Nat := 0

/-- `GMAC_tx_desc_init_ring` -/
def txDescInitRing (desc : DmaDesc) (last : Bool) : DmaDesc :=
  { desc with status := if last then eDescTxEndOfRing else 0, length := 0, buffer1 := 0,
              buffer2 := 0 }

/-- `GMAC_rx_desc_init_ring` -/
def rxDescInitRing (desc : DmaDesc) (last : Bool) : DmaDesc :=
  { desc with status := 0, length := if last then eDescRxEndOfRing else 0, buffer1 := 0,
              buffer2 := 0 }

/-- `GMAC_is_desc_owned_by_dma` -/
def DmaDesc.ownedByDma (desc : DmaDesc) : Bool := desc.status &&& descOwnByDma == descOwnByDma

/-- `GMAC_is_desc_empty` -/
def DmaDesc.isEmpty (desc : DmaDesc) : Bool :=
  desc.length &&& eDescSize1Mask == 0 && desc.length &&& eDescSize2Mask == 0

/-- `GMAC_is_last_tx_desc` -/
def DmaDesc.isLastTx (desc : DmaDesc) : Bool := desc.status &&& eDescTxEndOfRing == eDescTxEndOfRing

/-- `GMAC_is_last_rx_desc` -/
def DmaDesc.isLastRx (desc : DmaDesc) : Bool := desc.length &&& eDescRxEndOfRing == eDescRxEndOfRing

/-- The index after `i`, where `last` tells whether the descriptor ends the ring. -/
def nextIdx (last : Bool) (i : BitVec 32) : BitVec 32 := if last then 0 else i + 1

/-- The descriptor after that at `p`. -/
def nextDesc (last : Bool) (p : Nat) : Nat := if last then 0 else p + 1

theorem nextDesc_eq {n p : Nat} {last : Bool} (h : last = true ↔ p + 1 = n) :
    nextDesc last p = Machine.Ring.next n p := by
  unfold nextDesc Machine.Ring.next
  by_cases hl : p + 1 = n
  · rw [if_pos (h.2 hl), if_pos hl]
  · rw [if_neg fun h' => hl (h.1 h'), if_neg hl]

/-- The index moves with the pointer. -/
theorem nextIdx_toNat {i : BitVec 32} {n p : Nat} {last : Bool} (hn : n < 2 ^ 32)
    (hi : i.toNat = p) (hp : p < n) (h : last = true ↔ p + 1 = n) :
    (nextIdx last i).toNat = Machine.Ring.next n p := by
  unfold nextIdx Machine.Ring.next
  by_cases hl : p + 1 = n
  · rw [if_pos (h.2 hl), if_pos hl]
    rfl
  · rw [if_neg fun h' => hl (h.1 h'), if_neg hl, BitVec.toNat_add, hi,
      show (1 : BitVec 32).toNat = 1 from rfl]
    exact Nat.mod_eq_of_lt (by omega)

/-! ## Single bits -/

/-- A one-bit mask tests its bit. -/
theorem and_twoPow_eq_iff (w : BitVec 32) {k : Nat} (hk : k < 32) :
    (w &&& 1#32 <<< k == 1#32 <<< k) = w.getLsbD k := by
  rw [Bool.eq_iff_iff, beq_iff_eq]
  constructor
  · intro h
    have hbit := congrArg (BitVec.getLsbD · k) h
    simpa [hk] using hbit
  · intro h
    apply BitVec.eq_of_getLsbD_eq
    intro i hi
    rw [BitVec.getLsbD_and, BitVec.getLsbD_shiftLeft, BitVec.getLsbD_one]
    by_cases hik : i = k
    · subst hik
      simp [hk, h]
    · by_cases hlt : i < k
      · simp [hlt]
      · simp [show i - k ≠ 0 by omega]

theorem ownedByDma_eq (desc : DmaDesc) : desc.ownedByDma = desc.status.getLsbD 31 :=
  and_twoPow_eq_iff desc.status (k := 31) (by decide)

theorem isLastTx_eq (desc : DmaDesc) : desc.isLastTx = desc.status.getLsbD 21 :=
  and_twoPow_eq_iff desc.status (k := 21) (by decide)

theorem isLastRx_eq (desc : DmaDesc) : desc.isLastRx = desc.length.getLsbD 15 :=
  and_twoPow_eq_iff desc.length (k := 15) (by decide)

end Ma35d1.Gmac
