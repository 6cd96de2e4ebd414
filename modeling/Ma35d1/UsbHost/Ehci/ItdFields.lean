import Ma35d1.Machine.Fields
import Ma35d1.UsbHost.Core.RoundTrip
import Ma35d1.UsbHost.Ehci.BulkChain
import Ma35d1.UsbHost.Ehci.SubmitIso

/-!
# What the controller reads in an iTD

`write_itd_info` puts the characteristics of the endpoint into the free bits of the page pointers,
with the maximum packet size as `usbh_parse_endpoint` left it: multiplied by the transactions of a
micro-frame.
-/

namespace Ma35d1.UsbHost

open Ma35d1.Machine Ma35d1.UsbHost.Core

/-! ## The fields of an iTD -/

namespace ItdHw

variable (h : ItdHw)

def devAddr : Nat := field (h.bptr 0) 0 7
def endPt : Nat := field (h.bptr 0) 8 4
def dirIn : Nat := field (h.bptr 1) 11 1
def maxPacketSize : Nat := field (h.bptr 1) 0 11
def multi : Nat := field (h.bptr 2) 0 2

/-- The length of a transaction -/
def xferLen (i : Nat) : Nat := field (h.transaction i) 16 12

/-- Where the data of a transaction begins: the page it selects, and its offset there -/
def xferAddr (i : Nat) : Nat :=
  0x1000 * field (h.bptr (field (h.transaction i) 12 3)) 12 20 + field (h.transaction i) 0 12

end ItdHw

namespace Ehci

/-- The slot of the request that micro-frame `i` serves, if the descriptor begins with slot
`fidx` -/
def slotOf (mask : BitVec 8) (fidx i : Nat) : Nat := fidx + (List.range i).countP (inMask mask)

/-- Bits 10 to 0 of `wMaxPacketSize` in a descriptor -/
def baseSize (d : BitVec 16) : Nat := field d 0 11

/-- The transactions of a micro-frame, from bits 12 and 11 -/
def transactions (d : BitVec 16) : Nat := 1 + field d 11 2

/-- The descriptor says what endpoint and request say. -/
structure ItdDecodes (h : ItdHw) (udev : Udev) (ep : EpInfo) (d : BitVec 16) (r : Utr)
    (mask : BitVec 8) (fidx : Nat) : Prop where
  devAddr : h.devAddr = udev.devNum.toNat
  endPt : h.endPt = field ep.bEndpointAddress 0 4
  dirIn : h.dirIn = if ep.isOut then 0 else 1
  maxPacketSize : h.maxPacketSize = baseSize d
  multi : h.multi = transactions d
  slot : ∀ i < 8, inMask mask i → slotOf mask fidx i < ifPerUtr →
    h.xferAddr i = (r.isoBuff (slotOf mask fidx i)).toNat ∧
      h.xferLen i = (r.isoXlen (slotOf mask fidx i)).toNat

/-- An address in one of the seven pages from that of `base` on -/
def InPages (base a : BitVec 32) : Prop :=
  base.toNat / 0x1000 ≤ a.toNat / 0x1000 ∧ a.toNat / 0x1000 < base.toNat / 0x1000 + 7

variable {s : Ehci} {u : UtrId} {e : EpId} {td : Addr} {mask : BitVec 8} {fidx i k n : Nat}
  {base : BitVec 32} {d : BitVec 16}

/-! ## The page pointers -/

/-- What is put into the free bits of page pointer `i` -/
def pageInfo (udev : Udev) (ep : EpInfo) (i : Nat) : BitVec 32 :=
  if i = 0 then udev.devNum.setWidth 32 ||| ((ep.bEndpointAddress &&& 0xF#8).setWidth 32 <<< 8)
  else if i = 1 then ep.wMaxPacketSize.setWidth 32 ||| (if ep.isOut then 0 else 0x800#32)
  else if i = 2 then BitVec.ofNat 32 ((ep.wMaxPacketSize.toNat + 1023) / 1024)
  else 0

theorem setItdHw_itdHw (f : ItdHw → ItdHw) : (s.setItdHw td f).itdHw td = f (s.itdHw td) :=
  Function.update_self ..

theorem writeItdInfo_bptr : ((writeItdInfo u e td s).itdHw td).bptr i =
    (((s.itdHw td).buffBase &&& 0xFFFFF000#32) + BitVec.ofNat 32 (0x1000 * i)) |||
      pageInfo (s.udev (s.utr u).udev) (s.ep e) i := by
  rw [writeItdInfo, setItdHw_itdHw]
  unfold pageInfo
  dsimp only
  split
  · rfl
  split
  · rw [BitVec.or_assoc]
  split
  · rfl
  · exact BitVec.or_zero.symm

theorem toNat_page_add (base : BitVec 32) (i : Nat) :
    ((base &&& 0xFFFFF000#32) + BitVec.ofNat 32 (0x1000 * i)).toNat =
      0x1000 * ((base.toNat / 0x1000 + i) % 0x100000) := by
  have hpage : (base &&& 0xFFFFF000#32).toNat = _ := toNat_page base
  have hbase := base.isLt
  rw [BitVec.toNat_add, hpage, BitVec.toNat_ofNat]
  omega

/-! ## The transactions -/

/-- What `write_itd_micro_frame` writes -/
def slotWord (base buff : BitVec 32) (xlen : BitVec 16) : BitVec 32 :=
  itdStatusActive ||| ((xlen &&& 0xFFF#16).setWidth 32 <<< 16) |||
    ((buff &&& 0xFFFFF000#32) - (base &&& 0xFFFFF000#32)) ||| (buff &&& 0xFFF#32)

theorem toNat_slotWord {buff : BitVec 32} {xlen : BitVec 16} (hin : InPages base buff)
    (hlen : xlen.toNat < 0x1000) : (slotWord base buff xlen).toNat =
      0x80000000 + xlen.toNat * 0x10000 +
        0x1000 * (buff.toNat / 0x1000 - base.toNat / 0x1000) + buff.toNat % 0x1000 := by
  obtain ⟨hlo, hhi⟩ := hin
  have hbuff : (buff &&& 0xFFFFF000#32).toNat = _ := toNat_page buff
  have hbase : (base &&& 0xFFFFF000#32).toNat = _ := toNat_page base
  have hoff : (buff &&& 0xFFF#32).toNat = buff.toNat % 0x1000 := by
    rw [BitVec.toNat_and]
    exact Nat.and_two_pow_sub_one_eq_mod buff.toNat 12
  have hxlen : (xlen &&& 0xFFF#16).toNat = xlen.toNat := by
    rw [BitVec.toNat_and]
    exact Nat.and_two_pow_sub_one_of_lt_two_pow (show xlen.toNat < 2 ^ 12 from hlen)
  have hlenw : ((xlen &&& 0xFFF#16).setWidth 32 <<< 16).toNat = xlen.toNat * 0x10000 := by
    rw [BitVec.toNat_shiftLeft, BitVec.toNat_setWidth, hxlen, Nat.shiftLeft_eq]
    omega
  have hpage : ((buff &&& 0xFFFFF000#32) - (base &&& 0xFFFFF000#32)).toNat =
      0x1000 * (buff.toNat / 0x1000 - base.toNat / 0x1000) := by
    have := buff.isLt
    rw [BitVec.toNat_sub, hbuff, hbase]
    omega
  have hstatus : itdStatusActive.toNat = 0x80000000 := rfl
  have h₁ : (itdStatusActive ||| ((xlen &&& 0xFFF#16).setWidth 32 <<< 16)).toNat = _ :=
    toNat_or_of_dvd (k := 28) (by decide) (by omega)
  have h₂ : (itdStatusActive ||| ((xlen &&& 0xFFF#16).setWidth 32 <<< 16) |||
      ((buff &&& 0xFFFFF000#32) - (base &&& 0xFFFFF000#32))).toNat = _ :=
    toNat_or_of_dvd (k := 16) (by omega) (by omega)
  rw [slotWord, toNat_or_of_dvd (k := 12) (by omega) (by omega), h₂, h₁]
  omega

/-- The slot is read as it was written, with the interrupt bit or without. -/
theorem slotWord_fields {buff : BitVec 32} {xlen : BitVec 16} (hin : InPages base buff)
    (hlen : xlen.toNat < 0x1000) {ioc : BitVec 32} (hioc : ioc = 0 ∨ ioc = 0x8000#32) :
    field (slotWord base buff xlen ||| ioc) 16 12 = xlen.toNat ∧
      field (slotWord base buff xlen ||| ioc) 12 3 = buff.toNat / 0x1000 - base.toNat / 0x1000 ∧
      field (slotWord base buff xlen ||| ioc) 0 12 = buff.toNat % 0x1000 := by
  have hzero : field ioc 16 12 = 0 ∧ field ioc 12 3 = 0 ∧ field ioc 0 12 = 0 := by
    obtain rfl | rfl := hioc <;> decide
  have hword := toNat_slotWord hin hlen
  obtain ⟨hlo, hhi⟩ := hin
  rw [field_or_of_zero hzero.1, field_or_of_zero hzero.2.1, field_or_of_zero hzero.2.2]
  rw [field_eq, field_eq, field_eq, hword]
  omega

/-- `ITD_IOC` is set in the slot that ends the request. -/
def slotIoc (slot : Nat) : BitVec 32 := if slot + 1 = ifPerUtr then 0x8000#32 else 0#32

/-- The descriptor with the transaction of one micro-frame written -/
def withSlot (h : ItdHw) (i : Nat) (w : BitVec 32) : ItdHw :=
  { h with transaction := Function.update h.transaction i w }

theorem withSlot_of_ne {h : ItdHw} {w : BitVec 32} {j : Nat} (hj : j ≠ i) :
    (withSlot h i w).transaction j = h.transaction j := Function.update_of_ne hj ..

theorem withSlot_self (h : ItdHw) (i : Nat) (w : BitVec 32) :
    (withSlot h i w).transaction i = w := Function.update_self ..

theorem withSlot_twice (h : ItdHw) (i : Nat) (w w' : BitVec 32) :
    withSlot (withSlot h i w) i w' = withSlot h i w' := by
  simp only [withSlot, Function.update_idem]

/-- The slots of a request in the descriptor `h` -/
def slotWordOf (h : ItdHw) (r : Utr) (slot : Nat) : BitVec 32 :=
  slotWord h.buffBase (r.isoBuff slot) (r.isoXlen slot) ||| slotIoc slot

/-- The loop over `n` micro-frames from `k` on: the pointers and what is before stay, and each
scheduled micro-frame has its slot. -/
structure SlotsFilled (mask : BitVec 8) (r : Utr) (k n fidx : Nat) (h h' : ItdHw) : Prop where
  bptr : h'.bptr = h.bptr
  transMask : h'.transMask = h.transMask
  before : ∀ i < k, h'.transaction i = h.transaction i
  slot : ∀ i, k ≤ i → i < k + n → inMask mask i →
    fidx + (List.range' k (i - k)).countP (inMask mask) < ifPerUtr →
    h'.transaction i = slotWordOf h r (fidx + (List.range' k (i - k)).countP (inMask mask))

variable {r : Utr} {h h' : ItdHw} {w : BitVec 32}

theorem countP_range'_succ (hi : k < i) : (List.range' k (i - k)).countP (inMask mask) =
    (List.range' (k + 1) (i - (k + 1))).countP (inMask mask) + if inMask mask k then 1 else 0 := by
  rw [show i - k = i - (k + 1) + 1 by omega, List.range'_succ, List.countP_cons]

/-- A micro-frame that is not scheduled -/
theorem SlotsFilled.skip (hm : ¬ inMask mask k)
    (hrest : SlotsFilled mask r (k + 1) n fidx (withSlot h k w) h') :
    SlotsFilled mask r k (n + 1) fidx h h' where
  bptr := hrest.bptr
  transMask := hrest.transMask
  before i hi := (hrest.before i (by omega)).trans (withSlot_of_ne (by omega))
  slot i hki hin hmi hslot := by
    have hne : i ≠ k := by rintro rfl; exact hm hmi
    have hcount : (List.range' k (i - k)).countP (inMask mask) = _ :=
      countP_range'_succ (show k < i by omega)
    rw [if_neg hm, Nat.add_zero] at hcount
    rw [hcount] at hslot ⊢
    exact hrest.slot i (by omega) (by omega) hmi hslot

/-- A scheduled micro-frame, with more slots to come -/
theorem SlotsFilled.next (hm : inMask mask k) (hw : w = slotWordOf h r fidx)
    (hrest : SlotsFilled mask r (k + 1) n (fidx + 1) (withSlot h k w) h') :
    SlotsFilled mask r k (n + 1) fidx h h' where
  bptr := hrest.bptr
  transMask := hrest.transMask
  before i hi := (hrest.before i (by omega)).trans (withSlot_of_ne (by omega))
  slot i hki hin hmi hslot := by
    by_cases hne : i = k
    · subst hne
      rw [Nat.sub_self]
      exact (hrest.before i (by omega)).trans ((withSlot_self ..).trans hw)
    · have hcount : (List.range' k (i - k)).countP (inMask mask) = _ :=
        countP_range'_succ (show k < i by omega)
      rw [if_pos hm] at hcount
      have hshift : fidx + (List.range' k (i - k)).countP (inMask mask) =
          fidx + 1 + (List.range' (k + 1) (i - (k + 1))).countP (inMask mask) := by omega
      rw [hshift] at hslot ⊢
      exact hrest.slot i (by omega) (by omega) hmi hslot

/-- The micro-frame that takes the last slot -/
theorem SlotsFilled.last (hm : inMask mask k) (hlast : fidx + 1 = ifPerUtr)
    (hw : w = slotWordOf h r fidx) : SlotsFilled mask r k (n + 1) fidx h (withSlot h k w) where
  bptr := rfl
  transMask := rfl
  before i hi := withSlot_of_ne (by omega)
  slot i hki hin hmi hslot := by
    by_cases hne : i = k
    · subst hne
      rw [Nat.sub_self]
      exact (withSlot_self ..).trans hw
    · have hcount : (List.range' k (i - k)).countP (inMask mask) = _ :=
        countP_range'_succ (show k < i by omega)
      rw [if_pos hm] at hcount
      omega

theorem fillMicroFrames_filled (hf : fidx < ifPerUtr) : SlotsFilled mask (s.utr u) k n fidx
    (s.itdHw td) ((fillMicroFrames u td mask (List.range' k n) fidx s).2.itdHw td) := by
  induction n generalizing k fidx s with
  | zero => exact ⟨rfl, rfl, fun _ _ => rfl, fun i hi hin => by omega⟩
  | succ n ih =>
    rw [List.range'_succ, fillMicroFrames]
    by_cases hm : inMask mask k = true
    · have hwrite : (writeItdMicroFrame u fidx td k s).itdHw td = withSlot (s.itdHw td) k
          (slotWord (s.itdHw td).buffBase ((s.utr u).isoBuff fidx) ((s.utr u).isoXlen fidx)) := by
        unfold writeItdMicroFrame
        exact setItdHw_itdHw _
      rw [if_pos hm]
      dsimp only
      by_cases hlast : fidx + 1 = ifPerUtr
      · rw [if_pos hlast]
        dsimp only
        rw [setItdHw_itdHw, hwrite]
        refine Eq.mpr (congrArg _ ?_) (SlotsFilled.last hm hlast rfl)
        refine (withSlot_twice ..).trans (congrArg _ ?_)
        rw [withSlot_self, slotWordOf, slotIoc, if_pos hlast]
      · rw [if_neg hlast]
        have hrest : SlotsFilled mask ((writeItdMicroFrame u fidx td k s).utr u) (k + 1) n (fidx + 1)
            ((writeItdMicroFrame u fidx td k s).itdHw td) _ := ih (by omega)
        rw [hwrite] at hrest
        refine SlotsFilled.next hm ?_ hrest
        rw [slotWordOf, slotIoc, if_neg hlast, BitVec.or_zero]
    · rw [if_neg hm]
      have hrest := ih (s := s.setItdHw td fun t => { t with
        transaction := Function.update t.transaction k 0 }) (k := k + 1) hf
      rw [setItdHw_itdHw] at hrest
      exact SlotsFilled.skip hm hrest

/-! ## The whole descriptor -/

theorem or_dir_eq {m : Nat} (hm : m < 0x1000) : m ||| 0x800 = 0x800 + m % 0x800 := by
  have hparts : m = 2 ^ 11 * (m / 0x800) ||| m % 0x800 := by
    rw [← Nat.two_pow_add_eq_or_of_lt (Nat.mod_lt m (by decide))]
    exact (Nat.div_add_mod m 0x800).symm
  have hbit : 2 ^ 11 * (m / 0x800) ||| 0x800 = 2 ^ 11 * 1 := by
    obtain hq | hq : m / 0x800 = 0 ∨ m / 0x800 = 1 := by omega
    all_goals rw [hq]; rfl
  calc m ||| 0x800 = 2 ^ 11 * (m / 0x800) ||| 0x800 ||| m % 0x800 := by
        conv_lhs => rw [hparts, Nat.or_assoc, Nat.or_comm (m % 0x800), ← Nat.or_assoc]
    _ = 2 ^ 11 * 1 + m % 0x800 := by
        rw [hbit, Nat.two_pow_add_eq_or_of_lt (Nat.mod_lt m (by decide))]
    _ = 0x800 + m % 0x800 := rfl

variable {udev : Udev} {ep : EpInfo}

theorem toNat_pageInfo_zero (hdev : udev.devNum.toNat < 128) :
    (pageInfo udev ep 0).toNat = 0x100 * field ep.bEndpointAddress 0 4 + udev.devNum.toNat := by
  have hdev' : (udev.devNum.setWidth 32).toNat = udev.devNum.toNat := by
    rw [BitVec.toNat_setWidth]
    omega
  have hnum : ((ep.bEndpointAddress &&& 0xF#8).setWidth 32 <<< 8).toNat =
      0x100 * field ep.bEndpointAddress 0 4 := by
    have hlow : (ep.bEndpointAddress &&& 0xF#8).toNat = ep.bEndpointAddress.toNat % 2 ^ 4 := by
      rw [BitVec.toNat_and]
      exact Nat.and_two_pow_sub_one_eq_mod _ 4
    rw [BitVec.toNat_shiftLeft, BitVec.toNat_setWidth, hlow, field_eq, Nat.shiftLeft_eq]
    omega
  rw [pageInfo, if_pos rfl, BitVec.or_comm,
    toNat_or_of_dvd (k := 8) (by rw [hnum]; exact Nat.dvd_mul_right ..) (by omega), hnum, hdev']

theorem toNat_pageInfo_one (hpkt : ep.wMaxPacketSize.toNat < 0x1000) :
    (pageInfo udev ep 1).toNat = ep.wMaxPacketSize.toNat % 0x800 +
      0x800 * (if ep.isOut then ep.wMaxPacketSize.toNat / 0x800 else 1) := by
  have hw : (ep.wMaxPacketSize.setWidth 32).toNat = ep.wMaxPacketSize.toNat := by
    rw [BitVec.toNat_setWidth]
    omega
  rw [pageInfo, if_neg (by decide), if_pos rfl, BitVec.toNat_or, hw]
  cases ep.isOut with
  | true =>
    simp only [if_true]
    rw [show (0 : BitVec 32).toNat = 0 from rfl, Nat.or_zero]
    omega
  | false =>
    simp only [Bool.false_eq_true, if_false]
    rw [show (0x800#32).toNat = 0x800 from rfl, or_dir_eq hpkt]
    omega

theorem toNat_pageInfo_two :
    (pageInfo udev ep 2).toNat = (ep.wMaxPacketSize.toNat + 1023) / 1024 := by
  have := ep.wMaxPacketSize.isLt
  rw [pageInfo, if_neg (by decide), if_neg (by decide), if_pos rfl, BitVec.toNat_ofNat]
  omega

theorem toNat_pageInfo_lt (hdev : udev.devNum.toNat < 128)
    (hpkt : ep.wMaxPacketSize.toNat < 0x1000) (i : Nat) : (pageInfo udev ep i).toNat < 0x1000 := by
  obtain rfl | rfl | rfl | hi : i = 0 ∨ i = 1 ∨ i = 2 ∨ 2 < i := by omega
  · have hnum : field ep.bEndpointAddress 0 4 < 2 ^ 4 := by
      rw [field_eq]
      exact Nat.mod_lt _ (by decide)
    rw [toNat_pageInfo_zero hdev]
    omega
  · rw [toNat_pageInfo_one hpkt]
    split <;> omega
  · rw [toNat_pageInfo_two]
    omega
  · rw [pageInfo, if_neg (by omega), if_neg (by omega), if_neg (by omega)]
    decide

/-- A page pointer: the page, and what is in the free bits -/
theorem toNat_writeItdInfo_bptr (hdev : (s.udev (s.utr u).udev).devNum.toNat < 128)
    (hpkt : (s.ep e).wMaxPacketSize.toNat < 0x1000) (i : Nat) :
    (((writeItdInfo u e td s).itdHw td).bptr i).toNat =
      0x1000 * (((s.itdHw td).buffBase.toNat / 0x1000 + i) % 0x100000) +
        (pageInfo (s.udev (s.utr u).udev) (s.ep e) i).toNat := by
  have hpage := toNat_page_add (s.itdHw td).buffBase i
  rw [writeItdInfo_bptr, toNat_or_of_dvd (k := 12) (by rw [hpage]; exact Nat.dvd_mul_right ..)
    (toNat_pageInfo_lt hdev hpkt i), hpage]

/-- The descriptor of one pass of the loop before its micro-frames are settled -/
def headedItd (u : UtrId) (e : EpId) (td : Addr) (mask : BitVec 8) (fidx : Nat) (s : Ehci) : Ehci :=
  writeItdInfo u e td ((setTdUtr .itd td u fidx s).setItdHw td
    ({ · with buffBase := (s.utr u).isoBuff fidx, transMask := mask }))

theorem headedItd_buffBase :
    ((headedItd u e td mask fidx s).itdHw td).buffBase = (s.utr u).isoBuff fidx := by
  rw [headedItd, writeItdInfo, setItdHw_itdHw, setItdHw_itdHw]

theorem headedItd_transMask : ((headedItd u e td mask fidx s).itdHw td).transMask = mask := by
  rw [headedItd, writeItdInfo, setItdHw_itdHw, setItdHw_itdHw]

theorem fillItd_filled (hf : fidx < ifPerUtr) :
    SlotsFilled mask ((headedItd u e td mask fidx s).utr u) 0 8 fidx
      ((headedItd u e td mask fidx s).itdHw td) ((fillItd u e td mask fidx s).2.itdHw td) := by
  have hrange : fillItd u e td mask fidx s =
      fillMicroFrames u td mask (List.range' 0 8) fidx (headedItd u e td mask fidx s) := rfl
  rw [hrange]
  exact fillMicroFrames_filled hf

/-- The transactions that one pass of the loop leaves -/
theorem fillItd_transaction (hf : fidx < ifPerUtr) (hi : i < 8) (hm : inMask mask i)
    (hslot : slotOf mask fidx i < ifPerUtr) :
    ((fillItd u e td mask fidx s).2.itdHw td).transaction i =
      slotWord ((s.utr u).isoBuff fidx) ((s.utr u).isoBuff (slotOf mask fidx i))
        ((s.utr u).isoXlen (slotOf mask fidx i)) ||| slotIoc (slotOf mask fidx i) := by
  have hcount : slotOf mask fidx i = fidx + (List.range' 0 (i - 0)).countP (inMask mask) := by
    rw [slotOf, List.range_eq_range', Nat.sub_zero]
  rw [hcount] at hslot ⊢
  rw [(fillItd_filled hf).slot i (Nat.zero_le i) (by omega) hm hslot, slotWordOf,
    headedItd_buffBase]
  rfl

/-- The page pointers that one pass of the loop leaves -/
theorem fillItd_bptr (hf : fidx < ifPerUtr) (hdev : (s.udev (s.utr u).udev).devNum.toNat < 128)
    (hpkt : (s.ep e).wMaxPacketSize.toNat < 0x1000) (i : Nat) :
    (((fillItd u e td mask fidx s).2.itdHw td).bptr i).toNat =
      0x1000 * ((((s.utr u).isoBuff fidx).toNat / 0x1000 + i) % 0x100000) +
        (pageInfo (s.udev (s.utr u).udev) (s.ep e) i).toNat := by
  have hbase : (((setTdUtr .itd td u fidx s).setItdHw td
      ({ · with buffBase := (s.utr u).isoBuff fidx, transMask := mask })).itdHw td).buffBase =
      (s.utr u).isoBuff fidx := congrArg ItdHw.buffBase (setItdHw_itdHw _)
  rw [(fillItd_filled hf).bptr, ← hbase]
  exact toNat_writeItdInfo_bptr (s := (setTdUtr .itd td u fidx s).setItdHw td _) hdev hpkt i

/-- What a page pointer says besides the page is not in the way of it. -/
theorem field_page {x : BitVec 32} {page low : Nat} (hx : x.toNat = 0x1000 * page + low)
    (hlow : low < 0x1000) : field x 12 20 = page := by
  have := x.isLt
  rw [field_eq, hx]
  omega

/-- The size of a packet and the number of transactions are read back, with the direction, in two
cases. -/
theorem endpoint_fields_iff {size mult : Nat} {out : Bool} (hsize : 1 ≤ size) (hle : size ≤ 1024)
    (hmult : 1 ≤ mult) (hle' : mult ≤ 3) :
    ((if out then size * mult / 0x800 else 1) = (if out then 0 else 1) ∧
      size * mult % 0x800 = size ∧ (size * mult + 1023) / 1024 % 4 = mult) ↔
      mult = 1 ∨ size = 1024 ∧ mult = 3 ∧ out = false := by
  obtain rfl | rfl | rfl : mult = 1 ∨ mult = 2 ∨ mult = 3 := by omega
  all_goals cases out <;> simp <;> omega

theorem toNat_packetSize (d : BitVec 16) (hle : baseSize d ≤ 1024) (hmult : transactions d ≤ 3) :
    (packetSize d).toNat = baseSize d * transactions d ∧ baseSize d * transactions d < 0x1000 := by
  have hlt : baseSize d * transactions d ≤ 1024 * 3 := Nat.mul_le_mul hle hmult
  have hbase : baseSize d = d.toNat % 2048 := by
    rw [baseSize, field_eq, Nat.pow_zero, Nat.div_one]
    rfl
  have htrans : transactions d = 1 + d.toNat / 2048 % 4 := congrArg (1 + ·) (field_eq ..)
  rw [packetSize_toNat, ← hbase, ← htrans, BitVec.toNat_ofNat]
  omega

/-- Address and length of a slot, whatever the endpoint is like -/
theorem fillItd_slot (hf : fidx < ifPerUtr) (hdev : (s.udev (s.utr u).udev).devNum.toNat < 128)
    (hpkt : (s.ep e).wMaxPacketSize.toNat < 0x1000) (hi : i < 8) (hm : inMask mask i)
    (hslot : slotOf mask fidx i < ifPerUtr)
    (hpage : InPages ((s.utr u).isoBuff fidx) ((s.utr u).isoBuff (slotOf mask fidx i)))
    (hlen : ((s.utr u).isoXlen (slotOf mask fidx i)).toNat < 0x1000) :
    ((fillItd u e td mask fidx s).2.itdHw td).xferAddr i =
        ((s.utr u).isoBuff (slotOf mask fidx i)).toNat ∧
      ((fillItd u e td mask fidx s).2.itdHw td).xferLen i =
        ((s.utr u).isoXlen (slotOf mask fidx i)).toNat := by
  have hioc : slotIoc (slotOf mask fidx i) = 0 ∨ slotIoc (slotOf mask fidx i) = 0x8000#32 := by
    unfold slotIoc
    split
    · exact .inr rfl
    · exact .inl rfl
  obtain ⟨hxlen, hpg, hoff⟩ := slotWord_fields hpage hlen hioc
  obtain ⟨hlo, hhi⟩ := hpage
  have hbuff := ((s.utr u).isoBuff (slotOf mask fidx i)).isLt
  rw [ItdHw.xferAddr, ItdHw.xferLen, fillItd_transaction hf hi hm hslot, hxlen, hpg, hoff,
    field_page (fillItd_bptr hf hdev hpkt _) (toNat_pageInfo_lt hdev hpkt _)]
  refine ⟨?_, rfl⟩
  omega

/-- **The iTD.** For an endpoint that was parsed from a descriptor, device and endpoint, direction,
packet size, transactions and each scheduled micro-frame are read as the request has them exactly
if there is one transaction in a micro-frame, or three of 1024 bytes each from the device. -/
theorem fillItd_decodes_iff (u : UtrId) (e : EpId) (td : Addr) (mask : BitVec 8) (fidx : Nat)
    (s : Ehci) (d : BitVec 16) (hf : fidx < ifPerUtr)
    (hdev : (s.udev (s.utr u).udev).devNum.toNat < 128)
    (hparsed : (s.ep e).wMaxPacketSize = packetSize d)
    (hsize : 1 ≤ baseSize d) (hle : baseSize d ≤ 1024) (hmult : transactions d ≤ 3)
    (hpages : ∀ i < 8, inMask mask i → slotOf mask fidx i < ifPerUtr →
      InPages ((s.utr u).isoBuff fidx) ((s.utr u).isoBuff (slotOf mask fidx i)))
    (hlen : ∀ i < 8, inMask mask i → slotOf mask fidx i < ifPerUtr →
      ((s.utr u).isoXlen (slotOf mask fidx i)).toNat ≤ baseSize d * transactions d) :
    ItdDecodes ((fillItd u e td mask fidx s).2.itdHw td) (s.udev (s.utr u).udev) (s.ep e) d
        (s.utr u) mask fidx ↔
      transactions d = 1 ∨
        baseSize d = 1024 ∧ transactions d = 3 ∧ (s.ep e).isOut = false := by
  obtain ⟨hprod, hlt⟩ := toNat_packetSize d hle hmult
  rw [← hparsed] at hprod
  have hpkt : (s.ep e).wMaxPacketSize.toNat < 0x1000 := by omega
  have hbptr : ∀ i, (((fillItd u e td mask fidx s).2.itdHw td).bptr i).toNat = _ :=
    fillItd_bptr hf hdev hpkt
  have hep : field (s.ep e).bEndpointAddress 0 4 < 2 ^ 4 := by
    rw [field_eq]
    exact Nat.mod_lt _ (by decide)
  have h0 := hbptr 0
  have h1 := hbptr 1
  have h2 := hbptr 2
  rw [toNat_pageInfo_zero hdev] at h0
  rw [toNat_pageInfo_one hpkt, hprod] at h1
  rw [toNat_pageInfo_two, hprod] at h2
  have hdir : (if (s.ep e).isOut then baseSize d * transactions d / 0x800 else 1) < 2 := by
    split <;> omega
  have hdirIn : ((fillItd u e td mask fidx s).2.itdHw td).dirIn =
      if (s.ep e).isOut then baseSize d * transactions d / 0x800 else 1 := by
    rw [ItdHw.dirIn, field_eq, h1]
    omega
  have hmax : ((fillItd u e td mask fidx s).2.itdHw td).maxPacketSize =
      baseSize d * transactions d % 0x800 := by
    rw [ItdHw.maxPacketSize, field_eq, h1]
    omega
  have hmulti : ((fillItd u e td mask fidx s).2.itdHw td).multi =
      (baseSize d * transactions d + 1023) / 1024 % 4 := by
    rw [ItdHw.multi, field_eq, h2]
    omega
  have hmult' : 1 ≤ transactions d := Nat.le_add_right 1 _
  rw [← endpoint_fields_iff hsize hle hmult' hmult]
  constructor
  · intro h
    exact ⟨hdirIn.symm.trans h.dirIn, hmax.symm.trans h.maxPacketSize, hmulti.symm.trans h.multi⟩
  · rintro ⟨hd, hm, hn⟩
    refine ⟨?_, ?_, hdirIn.trans hd, hmax.trans hm, hmulti.trans hn, fun i hi hmi hslot => ?_⟩
    · rw [ItdHw.devAddr, field_eq, h0]
      omega
    · rw [ItdHw.endPt, field_eq, h0]
      omega
    · exact fillItd_slot hf hdev hpkt hi hmi hslot (hpages i hi hmi hslot)
        ((hlen i hi hmi hslot).trans_lt hlt)

/-! ## An endpoint of a camera -/

/-- A request with eight buffers of 1 KB -/
def cameraUtr : Utr :=
  { sampleUtr 0 0 with
    isoBuff := fun f => 0x80004C00#32 + BitVec.ofNat 32 (0x400 * f), isoXlen := fun _ => 1024 }

/-- Endpoint 4, in the direction of `addr`, with the `wMaxPacketSize` of a descriptor -/
def cameraStart (addr : BitVec 8) (d : BitVec 16) : Ehci :=
  { sampleStart with ep := fun _ => ⟨addr, 0x01#8, 1, packetSize d⟩, utr := fun _ => cameraUtr }

/-- One transaction of 1024 bytes in each micro-frame -/
theorem fillItd_decodes_iff_single : ItdDecodes
    ((fillItd 0 (.alt 3) 5 0xFF#8 0 (cameraStart 0x84#8 0x0400#16)).2.itdHw 5)
    (sampleUdev 0) ⟨0x84#8, 0x01#8, 1, packetSize 0x0400#16⟩ 0x0400#16 cameraUtr 0xFF#8 0 :=
  (fillItd_decodes_iff 0 (.alt 3) 5 0xFF#8 0 (cameraStart 0x84#8 0x0400#16) 0x0400#16 (by decide)
    (by decide) rfl (by decide) (by decide) (by decide)
    (by
      show ∀ i < 8, inMask 0xFF#8 i → slotOf 0xFF#8 0 i < ifPerUtr →
        InPages (cameraUtr.isoBuff 0) (cameraUtr.isoBuff (slotOf 0xFF#8 0 i))
      unfold InPages
      decide)
    (by
      show ∀ i < 8, inMask 0xFF#8 i → slotOf 0xFF#8 0 i < ifPerUtr → 1024 ≤ 1024 * 1
      decide)).mpr (.inl (by decide))

/-- Two transactions of 512 bytes are read as packets of 1024 bytes, one in each micro-frame. -/
theorem not_fillItd_decodes_double : ¬ ItdDecodes
    ((fillItd 0 (.alt 3) 5 0xFF#8 0 (cameraStart 0x84#8 0x0A00#16)).2.itdHw 5)
    (sampleUdev 0) ⟨0x84#8, 0x01#8, 1, packetSize 0x0A00#16⟩ 0x0A00#16 cameraUtr 0xFF#8 0 :=
  fun h => absurd h.maxPacketSize (by decide)

end Ehci

end Ma35d1.UsbHost
