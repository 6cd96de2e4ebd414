import Mathlib.Algebra.GroupWithZero.Nat
import Mathlib.Data.BitVec
import Mathlib.Data.Set.BooleanAlgebra
import Mathlib.Order.CompletePartialOrder
import Mathlib.Order.Interval.Set.Basic
import Ma35d1.CanFd.MessageRam

/-!
# The layout of the message RAM

`CANFD_CalculateRamAddress` packs seven sections one behind the other, each as long as its
configured elements. Nothing compares their sum with the size of the RAM.
-/

namespace Ma35d1.CanFd

/-- `CANFD_SRAM_SIZE`, in bytes -/
def canfdSramSize : Nat := 1024 * 8

/-- `sizeof(CANFD_STD_FILTER_T)` -/
def sizeofStdFilter : BitVec 32 := 4
/-- `sizeof(CANFD_EXT_FILTER_T)` -/
def sizeofExtFilter : BitVec 32 := 8
/-- `eCANFD_BYTE64`, the data field size that `CANFD_Open` sets for every kind of buffer -/
def canfdByte64 : Nat := 7
/-- Bytes of a Tx event -/
def txEventBytes : Nat := 8

/-- The words of a buffer element for a data field size, as the functions that clear a section
compute them. -/
def elemWords (eSize : Nat) : Nat := if eSize < 5 then eSize + 4 else eSize * 4 - 10

/-- `CANFD_ELEM_SIZE_T`: the numbers of elements -/
structure ElemSize where
  u32SIDFC : BitVec 32
  u32XIDFC : BitVec 32
  u32RxFifo0 : BitVec 32
  u32RxFifo1 : BitVec 32
  u32RxBuf : BitVec 32
  u32TxBuf : BitVec 32
  u32TxEventFifo : BitVec 32

/-- `CANFD_RAM_PART_T`: start addresses in bytes -/
structure RamPart where
  u32SIDFC_FLSSA : BitVec 32
  u32XIDFC_FLESA : BitVec 32
  u32RXF0C_F0SA : BitVec 32
  u32RXF1C_F1SA : BitVec 32
  u32RXBC_RBSA : BitVec 32
  u32TXEFC_EFSA : BitVec 32
  u32TXBC_TBSA : BitVec 32

/-- The address of a section of `n` elements: without elements it stays as it is. -/
def startAddr (offset n old : BitVec 32) : BitVec 32 := if n > 0 then offset else old

/-- `u32RamAddrOffset` behind a section of `n` elements -/
def ramAddrOffset (offset n size : BitVec 32) : BitVec 32 :=
  if n > 0 then offset + n * size else offset

/-- `CANFD_CalculateRamAddress` -/
def calculateRamAddress (a : RamPart) (e : ElemSize) : RamPart :=
  let sizeofBuf := BitVec.ofNat 32 sizeofBuf
  let xidfc := ramAddrOffset 0 e.u32SIDFC sizeofStdFilter
  let txBuf := ramAddrOffset xidfc e.u32XIDFC sizeofExtFilter
  let rxBuf := ramAddrOffset txBuf e.u32TxBuf sizeofBuf
  let rxFifo0 := ramAddrOffset rxBuf e.u32RxBuf sizeofBuf
  let rxFifo1 := ramAddrOffset rxFifo0 e.u32RxFifo0 sizeofBuf
  let txEventFifo := ramAddrOffset rxFifo1 e.u32RxFifo1 sizeofBuf
  { u32SIDFC_FLSSA := startAddr 0 e.u32SIDFC a.u32SIDFC_FLSSA
    u32XIDFC_FLESA := startAddr xidfc e.u32XIDFC a.u32XIDFC_FLESA
    u32TXBC_TBSA := startAddr txBuf e.u32TxBuf a.u32TXBC_TBSA
    u32RXBC_RBSA := startAddr rxBuf e.u32RxBuf a.u32RXBC_RBSA
    u32RXF0C_F0SA := startAddr rxFifo0 e.u32RxFifo0 a.u32RXF0C_F0SA
    u32RXF1C_F1SA := startAddr rxFifo1 e.u32RxFifo1 a.u32RXF1C_F1SA
    u32TXEFC_EFSA := startAddr txEventFifo e.u32TxEventFifo a.u32TXEFC_EFSA }

/-! ## Sections as sets of bytes -/

/-- A section of `n` elements of `size` bytes each -/
structure Region where
  start : BitVec 32
  n : BitVec 32
  size : Nat

/-- What the elements of a section take -/
def Region.bytes (r : Region) : Set Nat :=
  Set.Ico r.start.toNat (r.start.toNat + r.n.toNat * r.size)

/-- The sections that the controller is given, in the order of the layout -/
def regions (a : RamPart) (e : ElemSize) : List Region :=
  [⟨a.u32SIDFC_FLSSA, e.u32SIDFC, 4⟩,
   ⟨a.u32XIDFC_FLESA, e.u32XIDFC, 8⟩,
   ⟨a.u32TXBC_TBSA, e.u32TxBuf, 4 * elemWords canfdByte64⟩,
   ⟨a.u32RXBC_RBSA, e.u32RxBuf, 4 * elemWords canfdByte64⟩,
   ⟨a.u32RXF0C_F0SA, e.u32RxFifo0, 4 * elemWords canfdByte64⟩,
   ⟨a.u32RXF1C_F1SA, e.u32RxFifo1, 4 * elemWords canfdByte64⟩,
   ⟨a.u32TXEFC_EFSA, e.u32TxEventFifo, txEventBytes⟩]

/-- The sections do not overlap, and each ends within the first `limit` bytes. -/
structure Fits (limit : Nat) (rs : List Region) : Prop where
  disjoint : rs.Pairwise fun r s => Disjoint r.bytes s.bytes
  inside : ∀ r ∈ rs, r.bytes ⊆ Set.Iio limit

/-- The bytes of all elements -/
def totalBytes (e : ElemSize) : Nat :=
  e.u32SIDFC.toNat * 4 + e.u32XIDFC.toNat * 8 + e.u32TxBuf.toNat * sizeofBuf +
    e.u32RxBuf.toNat * sizeofBuf + e.u32RxFifo0.toNat * sizeofBuf +
    e.u32RxFifo1.toNat * sizeofBuf + e.u32TxEventFifo.toNat * txEventBytes

/-! ## Packing -/

variable {offset n old : BitVec 32} {size limit : Nat} {r : Region} {rs : List Region}

/-- Sections packed from `offset` on; `start` of a demand is the address it keeps without
elements. -/
def pack (offset : BitVec 32) : List Region → List Region
  | [] => []
  | r :: rs => ⟨startAddr offset r.n r.start, r.n, r.size⟩ ::
      pack (ramAddrOffset offset r.n (BitVec.ofNat 32 r.size)) rs

def demand (rs : List Region) : Nat := (rs.map fun r => r.n.toNat * r.size).sum

theorem demand_cons : demand (r :: rs) = r.n.toNat * r.size + demand rs := rfl

theorem not_pos_iff : ¬ n > 0 ↔ n.toNat = 0 := by
  rw [gt_iff_lt, BitVec.lt_def]
  simp

theorem bytes_start (offset : BitVec 32) (r : Region) :
    Region.bytes ⟨startAddr offset r.n r.start, r.n, r.size⟩ =
      Set.Ico offset.toNat (offset.toNat + r.n.toNat * r.size) := by
  unfold Region.bytes startAddr
  by_cases hn : r.n > 0
  · rw [if_pos hn]
  · simp [not_pos_iff.mp hn]

theorem toNat_ramAddrOffset (hn : offset.toNat + n.toNat * size < 2 ^ 32) :
    (ramAddrOffset offset n (BitVec.ofNat 32 size)).toNat = offset.toNat + n.toNat * size := by
  unfold ramAddrOffset
  by_cases hpos : n > 0
  · have hn' : 0 < n.toNat := Nat.pos_of_ne_zero fun h0 => not_pos_iff.mpr h0 hpos
    have hsize : size ≤ n.toNat * size := Nat.le_mul_of_pos_left size hn'
    have hmod : size % 2 ^ 32 = size := Nat.mod_eq_of_lt (by omega)
    rw [if_pos hpos, BitVec.toNat_add, BitVec.toNat_mul, BitVec.toNat_ofNat, hmod,
      Nat.mod_eq_of_lt (a := n.toNat * size) (by omega), Nat.mod_eq_of_lt hn]
  · rw [if_neg hpos, not_pos_iff.mp hpos, Nat.zero_mul, Nat.add_zero]

/-- What fits is packed without gaps, from the offset to the sum of all elements. -/
theorem pack_bytes (h : offset.toNat + demand rs < 2 ^ 32) :
    ∀ r ∈ pack offset rs, r.bytes ⊆ Set.Ico offset.toNat (offset.toNat + demand rs) := by
  induction rs generalizing offset with
  | nil => exact fun r hr => absurd hr (List.not_mem_nil)
  | cons r rs ih =>
    rw [demand_cons] at h ⊢
    have hnext : (ramAddrOffset offset r.n (BitVec.ofNat 32 r.size)).toNat = _ :=
      toNat_ramAddrOffset (by omega)
    intro s hs
    obtain rfl | hs := List.mem_cons.mp hs
    · rw [bytes_start]
      exact Set.Ico_subset_Ico (Nat.le_refl _) (by omega)
    · refine (ih (by omega) s hs).trans ?_
      rw [hnext]
      exact Set.Ico_subset_Ico (by omega) (by omega)

theorem pack_disjoint (h : offset.toNat + demand rs < 2 ^ 32) :
    (pack offset rs).Pairwise fun r s => Disjoint r.bytes s.bytes := by
  induction rs generalizing offset with
  | nil => exact List.Pairwise.nil
  | cons r rs ih =>
    rw [demand_cons] at h
    have hnext : (ramAddrOffset offset r.n (BitVec.ofNat 32 r.size)).toNat = _ :=
      toNat_ramAddrOffset (by omega)
    refine List.Pairwise.cons (fun s hs => ?_) (ih (by omega))
    have hrest : s.bytes ⊆ _ := pack_bytes (by omega) s hs
    rw [hnext] at hrest
    rw [bytes_start]
    refine Set.disjoint_left.mpr fun x hx hx' => ?_
    have hlo := (Set.mem_Ico.mp (hrest hx')).1
    have hhi := (Set.mem_Ico.mp hx).2
    omega

/-- A section inside the first `limit` bytes moves the offset by no more than is left. -/
theorem demand_le_of_inside (ho : offset.toNat ≤ limit) (hlimit : limit < 2 ^ 32)
    (h : ∀ r ∈ pack offset rs, r.bytes ⊆ Set.Iio limit) : offset.toNat + demand rs ≤ limit := by
  induction rs generalizing offset with
  | nil => exact ho
  | cons r rs ih =>
    have hfirst := h _ List.mem_cons_self
    rw [bytes_start] at hfirst
    have hend : offset.toNat + r.n.toNat * r.size ≤ limit := by
      by_contra hlt
      have hlast := hfirst (Set.mem_Ico.mpr
        ⟨Nat.le_sub_one_of_lt (by omega : offset.toNat < offset.toNat + r.n.toNat * r.size),
          by omega⟩)
      rw [Set.mem_Iio] at hlast
      omega
    have hnext : (ramAddrOffset offset r.n (BitVec.ofNat 32 r.size)).toNat = _ :=
      toNat_ramAddrOffset (by omega)
    have hrest := ih (by omega) fun s hs => h s (List.mem_cons_of_mem _ hs)
    rw [demand_cons]
    omega

/-- Packed sections fit exactly if the sum of their elements does. -/
theorem fits_pack_iff (ho : offset.toNat ≤ limit) (hlimit : limit < 2 ^ 32) :
    Fits limit (pack offset rs) ↔ offset.toNat + demand rs ≤ limit := by
  constructor
  · exact fun h => demand_le_of_inside ho hlimit h.inside
  · intro h
    refine ⟨pack_disjoint (by omega), fun r hr => (pack_bytes (by omega) r hr).trans ?_⟩
    exact fun x hx => (Set.mem_Ico.mp hx).2.trans_le h

/-! ## The sections of the message RAM -/

theorem regions_eq_pack (a : RamPart) (e : ElemSize) :
    regions (calculateRamAddress a e) e = pack 0 (regions a e) := rfl

theorem demand_regions (a : RamPart) (e : ElemSize) : demand (regions a e) = totalBytes e := by
  simp [demand, regions, totalBytes, elemWords, canfdByte64, sizeofBuf, Nat.add_assoc]

/-- **The layout of the message RAM.** For every configuration the sections are disjoint, have
room for their elements and end within the message RAM exactly if the bytes of all elements do
not exceed its size. -/
theorem calculateRamAddress_fits_iff (a : RamPart) (e : ElemSize) :
    Fits canfdSramSize (regions (calculateRamAddress a e) e) ↔ totalBytes e ≤ canfdSramSize := by
  rw [regions_eq_pack, fits_pack_iff (Nat.zero_le _) (by decide), demand_regions]
  rw [show (0 : BitVec 32).toNat = 0 from rfl, Nat.zero_add]

/-- The numbers of elements of `CANFD_GetDefaultConfig` -/
def defaultElemSize : ElemSize := ⟨4, 4, 32, 32, 32, 8, 8⟩

example : totalBytes defaultElemSize = 7600 := rfl

/-- `CANFD_MAX_11_BIT_FTR_ELEMS` and the other maxima -/
def maxElemSize : ElemSize := ⟨128, 64, 64, 64, 64, 32, 32⟩

/-- With the maxima of the header Rx FIFO 1 begins at byte 12544, behind the end of the RAM. -/
theorem not_calculateRamAddress_fits_max :
    ¬ Fits canfdSramSize
      (regions (calculateRamAddress ⟨0, 0, 0, 0, 0, 0, 0⟩ maxElemSize) maxElemSize) := by
  intro h
  have hfifo : Region.mk 12544 64 72 ∈
      regions (calculateRamAddress ⟨0, 0, 0, 0, 0, 0, 0⟩ maxElemSize) maxElemSize :=
    List.mem_of_getElem? (i := 5) rfl
  have hfirst := h.inside _ hfifo (Set.mem_Ico.mpr ⟨Nat.le_refl 12544, by decide⟩)
  exact absurd (Set.mem_Iio.mp hfirst) (by decide)

end Ma35d1.CanFd
