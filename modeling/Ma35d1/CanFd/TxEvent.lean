import Ma35d1.CanFd.Layout
import Ma35d1.CanFd.RoundTrip

/-!
# Tx events

The controller stores an event of two words for each message sent, in the Tx event FIFO of the
message RAM. `CANFD_CopyTxEvntFifoToUsrBuf` takes the address from the function for Tx buffers.
-/

namespace Ma35d1.CanFd

/-- The registers that say where Tx buffers and Tx events are. -/
structure TxRegs where
  txbc : BitVec 32
  txesc : BitVec 32
  txefc : BitVec 32

/-- The modules and their base addresses, `CANFD0_BASE` and so on -/
inductive Port
  | canfd0 | canfd1 | canfd2 | canfd3
  deriving DecidableEq, Repr

def Port.base : Port → BitVec 32
  | .canfd0 => 0x403C0000#32
  | .canfd1 => 0x403D0000#32
  | .canfd2 => 0x403E0000#32
  | .canfd3 => 0x403F0000#32

/-- `CANFD_TXBC_TBSA_Msk` and `CANFD_TXEFC_EFSA_Msk` -/
def startMsk : BitVec 32 := 0xFFFC#32

/-- What `CANFD_InitTxDBuf` writes to the registers -/
def initTxDBuf (a : RamPart) (e : ElemSize) (eTxBufSize : BitVec 32) (r : TxRegs) : TxRegs :=
  { r with
    txbc := ((e.u32TxBuf &&& 0x3F#32) <<< 16) ||| (a.u32TXBC_TBSA &&& startMsk)
    txesc := (r.txesc &&& ~~~7#32) ||| eTxBufSize }

/-- `CANFD_InitTxEvntFifo` -/
def initTxEvntFifo (a : RamPart) (e : ElemSize) (u32FifoWaterLvl : BitVec 32) (r : TxRegs) :
    TxRegs :=
  { r with
    txefc := (u32FifoWaterLvl <<< 24) ||| (e.u32TxEventFifo <<< 16) |||
      (a.u32TXEFC_EFSA &&& startMsk) }

/-- What `CANFD_Open` does for Tx -/
def openTx (a : RamPart) (e : ElemSize) (r : TxRegs) : TxRegs :=
  let r := if e.u32TxBuf ≠ 0 then initTxDBuf a e (BitVec.ofNat 32 canfdByte64) r else r
  if e.u32TxEventFifo ≠ 0 then initTxEvntFifo a e 0 r else r

/-- `CANFD_GetTxBufferElementAddress` -/
def getTxBufferElementAddress (r : TxRegs) (u32Idx : BitVec 32) : BitVec 32 :=
  let u32Size := r.txesc &&& 7#32
  let u32Size := if u32Size < 5#32 then u32Size + 4#32 else u32Size * 4#32 - 10#32
  (r.txbc &&& startMsk) + u32Idx * u32Size * 4#32

/-- `CANFD_TX_EVNT_ELEM_T`; it has no member for the type of the event. -/
structure TxEvntElem where
  eIdType : IdType
  u32Id : BitVec 32
  u32DLC : BitVec 32
  u32TxTs : BitVec 32
  u32MsgMarker : BitVec 32
  bErrStaInd : Bool
  bRemote : Bool
  bFDFormat : Bool
  bBitRateSwitch : Bool
  deriving DecidableEq

/-- The fields that `CANFD_CopyTxEvntFifoToUsrBuf` takes from `pu32TxEvnt[0]` and
`pu32TxEvnt[1]` -/
def decodeTxEvnt (w₀ w₁ : BitVec 32) : TxEvntElem :=
  { bErrStaInd := w₀ &&& elemEsi != 0
    eIdType := if w₀ &&& elemXtd ≠ 0 then .xid else .sid
    u32Id := if w₀ &&& elemXtd ≠ 0 then w₀ &&& elemId else (w₀ &&& elemId) >>> 18
    bRemote := w₀ &&& elemRtr != 0
    -- the masks of the second word on the first one
    bFDFormat := w₀ &&& elemFdf != 0
    bBitRateSwitch := w₀ &&& elemBsr != 0
    u32DLC := (decodeDLC (((w₁ &&& elemDlc) >>> 16).setWidth 8)).setWidth 32
    u32TxTs := w₁ &&& 0xFFFF#32
    u32MsgMarker := (w₁ &&& 0xFF000000#32) >>> 24 }

/-- `CANFD_CopyTxEvntFifoToUsrBuf`, with the words at each address -/
def copyTxEvntFifoToUsrBuf (r : TxRegs) (mem : BitVec 32 → BitVec 32) (u32TxEvntNum : BitVec 32) :
    TxEvntElem :=
  let pu32TxEvnt := getTxBufferElementAddress r u32TxEvntNum
  decodeTxEvnt (mem pu32TxEvnt) (mem (pu32TxEvnt + 4#32))

/-! ## The events of the controller -/

/-- Where the controller keeps an event -/
def txEventAddr (port : Port) (r : TxRegs) (idx : BitVec 32) : BitVec 32 :=
  port.base + BitVec.ofNat 32 canfdSramBaseAddr + (r.txefc &&& startMsk) + 8#32 * idx

/-- What the two words of an event mean, the type of the event apart -/
def txEventOf (w₀ w₁ : BitVec 32) : TxEvntElem :=
  { bErrStaInd := w₀.getLsbD 31
    eIdType := if w₀.getLsbD 30 then .xid else .sid
    u32Id := if w₀.getLsbD 30 then (w₀.extractLsb' 0 29).setWidth 32
      else (w₀.extractLsb' 18 11).setWidth 32
    bRemote := w₀.getLsbD 29
    bFDFormat := w₁.getLsbD 21
    bBitRateSwitch := w₁.getLsbD 20
    u32DLC := (decodeDLC ((w₁.extractLsb' 16 4).setWidth 8)).setWidth 32
    u32TxTs := (w₁.extractLsb' 0 16).setWidth 32
    u32MsgMarker := (w₁.extractLsb' 24 8).setWidth 32 }

/-- The two words of the event `idx` are read, and what they mean is returned. -/
structure ReadsTxEvent (port : Port) (r : TxRegs) (mem : BitVec 32 → BitVec 32) (idx : BitVec 32) :
    Prop where
  addr : getTxBufferElementAddress r idx = txEventAddr port r idx
  elem : copyTxEvntFifoToUsrBuf r mem idx =
    txEventOf (mem (txEventAddr port r idx)) (mem (txEventAddr port r idx + 4#32))

variable {w w₀ w₁ mask idx : BitVec 32} {k n : Nat} {r : TxRegs} {port : Port}

theorem and_mask_bne (hk : k < 32) (hm : mask = BitVec.twoPow 32 k) :
    (w &&& mask != 0) = w.getLsbD k := by
  rw [Bool.eq_iff_iff, bne_iff_ne]
  exact and_mask_ne_zero hk hm

/-- A field of `n` bits from bit `k` on -/
theorem and_mask_shift (hk : k + n ≤ 32) (hm : mask = BitVec.ofNat 32 (2 ^ n - 1) <<< k) :
    (w &&& mask) >>> k = (w.extractLsb' k n).setWidth 32 := by
  apply BitVec.eq_of_getLsbD_eq
  intro i hi
  rw [hm, BitVec.getLsbD_ushiftRight, BitVec.getLsbD_and, BitVec.getLsbD_shiftLeft,
    BitVec.getLsbD_ofNat, Nat.testBit_two_pow_sub_one, BitVec.getLsbD_setWidth,
    BitVec.getLsbD_extractLsb', Nat.add_sub_cancel_left]
  by_cases hin : i < n
  · simp [hin, hi, show k + i < 32 by omega]
  · simp [hin]

/-- The two words are read as they are meant except for the flags of an FD frame, which are those
of the second word. -/
theorem decodeTxEvnt_eq_iff : decodeTxEvnt w₀ w₁ = txEventOf w₀ w₁ ↔
    w₀.getLsbD 21 = w₁.getLsbD 21 ∧ w₀.getLsbD 20 = w₁.getLsbD 20 := by
  have hesi : (w₀ &&& elemEsi != 0) = w₀.getLsbD 31 := and_mask_bne (by decide) rfl
  have hrtr : (w₀ &&& elemRtr != 0) = w₀.getLsbD 29 := and_mask_bne (by decide) rfl
  have hfdf : (w₀ &&& elemFdf != 0) = w₀.getLsbD 21 := and_mask_bne (by decide) rfl
  have hbrs : (w₀ &&& elemBsr != 0) = w₀.getLsbD 20 := and_mask_bne (by decide) rfl
  have hxtd : w₀ &&& elemXtd ≠ 0 ↔ w₀.getLsbD 30 = true := and_mask_ne_zero (by decide) rfl
  have hid : w₀ &&& elemId = (w₀.extractLsb' 0 29).setWidth 32 :=
    and_mask_shift (k := 0) (by decide) rfl
  have hsid : (w₀ &&& elemId) >>> 18 = (w₀.extractLsb' 18 11).setWidth 32 := by
    rw [BitVec.ushiftRight_and_distrib]
    have hmask : elemId >>> 18 = BitVec.ofNat 32 (2 ^ 11 - 1) <<< 18 >>> 18 := by decide
    rw [hmask, ← BitVec.ushiftRight_and_distrib]
    exact and_mask_shift (by decide) rfl
  have hdlc : (w₁ &&& elemDlc) >>> 16 = (w₁.extractLsb' 16 4).setWidth 32 :=
    and_mask_shift (by decide) rfl
  have hts : w₁ &&& 0xFFFF#32 = (w₁.extractLsb' 0 16).setWidth 32 :=
    and_mask_shift (k := 0) (by decide) rfl
  have hmm : (w₁ &&& 0xFF000000#32) >>> 24 = (w₁.extractLsb' 24 8).setWidth 32 :=
    and_mask_shift (by decide) rfl
  unfold decodeTxEvnt txEventOf
  rw [hsid, hid, hdlc, hts, hmm, hesi, hrtr, hfdf, hbrs]
  simp only [hxtd, TxEvntElem.mk.injEq, BitVec.setWidth_setWidth_of_le _ (show 8 ≤ 32 by decide),
    true_and]

/-! ## The addresses -/

theorem toNat_and_le (w mask : BitVec 32) : (w &&& mask).toNat ≤ mask.toNat := by
  rw [BitVec.toNat_and]
  exact Nat.and_le_right

/-- A Tx buffer of 32 ends below this, a number of a register and not an address of the module. -/
theorem getTxBufferElementAddress_lt (r : TxRegs) (hidx : idx.toNat < 32) :
    (getTxBufferElementAddress r idx).toNat < 0x20000 - 4 := by
  have hstart : (r.txbc &&& startMsk).toNat ≤ 0xFFFC := toNat_and_le ..
  have hmsk : (r.txesc &&& 7#32).toNat ≤ 7 := toNat_and_le ..
  unfold getTxBufferElementAddress
  generalize r.txbc &&& startMsk = a at hstart
  generalize r.txesc &&& 7#32 = m at hmsk
  have hwords : (if m < 5#32 then m + 4#32 else m * 4#32 - 10#32).toNat ≤ 18 := by
    split <;> bv_omega
  dsimp only
  generalize (if m < 5#32 then m + 4#32 else m * 4#32 - 10#32) = words at hwords
  have hprod : idx.toNat * words.toNat ≤ 31 * 18 := Nat.mul_le_mul (by omega) hwords
  rw [BitVec.toNat_add, BitVec.toNat_mul, BitVec.toNat_mul, show (4#32).toNat = 4 from rfl]
  generalize idx.toNat * words.toNat = p at hprod
  omega

theorem txEventAddr_ge (port : Port) (r : TxRegs) (hidx : idx.toNat < 32) :
    0x403C0000 ≤ (txEventAddr port r idx).toNat := by
  have hstart : (r.txefc &&& startMsk).toNat ≤ 0xFFFC := toNat_and_le ..
  have hbase : 0x403C0000 ≤ port.base.toNat ∧ port.base.toNat ≤ 0x403F0000 := by
    cases port <;> decide
  unfold txEventAddr
  generalize r.txefc &&& startMsk = a at hstart
  generalize port.base = b at hbase
  rw [BitVec.toNat_add, BitVec.toNat_add, BitVec.toNat_add, BitVec.toNat_mul,
    show (BitVec.ofNat 32 canfdSramBaseAddr).toNat = 0x200 by decide,
    show (8#32).toNat = 8 from rfl]
  omega

/-- Two words outside the module are read. -/
theorem getTxBufferElementAddress_ne (port : Port) (r : TxRegs) (hidx : idx.toNat < 32) :
    getTxBufferElementAddress r idx ≠ txEventAddr port r idx := by
  intro heq
  have hread := getTxBufferElementAddress_lt r hidx
  have hevent := txEventAddr_ge port r hidx
  rw [heq] at hread
  omega

/-- Of the contents of the memory, some make a difference. -/
theorem exists_copyTxEvntFifoToUsrBuf_ne (port : Port) (r : TxRegs) (hidx : idx.toNat < 32) :
    ∃ mem, copyTxEvntFifoToUsrBuf r mem idx ≠
      txEventOf (mem (txEventAddr port r idx)) (mem (txEventAddr port r idx + 4#32)) := by
  -- the event has an extended identifier, and nothing else is in memory
  refine ⟨fun x => if x = txEventAddr port r idx then elemXtd else 0, fun h => ?_⟩
  have hid := congrArg TxEvntElem.eIdType h
  unfold copyTxEvntFifoToUsrBuf at hid
  dsimp only at hid
  rw [if_neg (getTxBufferElementAddress_ne port r hidx), if_pos rfl] at hid
  exact absurd hid (by simp [decodeTxEvnt, txEventOf, elemXtd])

/-- **Tx events.** In every layout the function reads something else than the event. -/
theorem not_readsTxEvent (port : Port) (a : RamPart) (e : ElemSize) (r : TxRegs)
    (mem : BitVec 32 → BitVec 32) (idx : BitVec 32) (hidx : idx.toNat < 32) :
    ¬ ReadsTxEvent port (openTx (calculateRamAddress a e) e r) mem idx :=
  fun h => getTxBufferElementAddress_ne port _ hidx h.addr

/-- The registers of `CANFD_Open` with the default configuration -/
def defaultTx : TxRegs :=
  openTx (calculateRamAddress ⟨0, 0, 0, 0, 0, 0, 0⟩ defaultElemSize) defaultElemSize ⟨0, 0, 0⟩

theorem not_readsTxEvent_last : ¬ ReadsTxEvent .canfd3 defaultTx (fun _ => 0) 7 :=
  not_readsTxEvent .canfd3 _ defaultElemSize _ _ 7 (by decide)

/-- The first event is at `0x403C1F70` and has the extended identifier `0x123`; the standard
identifier 0 is returned, from the word at address `0x30`. -/
theorem not_readsTxEvent_first :
    ¬ ReadsTxEvent .canfd0 defaultTx (fun x => if x = 0x403C1F70#32 then 0x40000123 else 0) 0 := by
  intro h
  exact absurd (congrArg TxEvntElem.u32Id h.elem) (by decide)

end Ma35d1.CanFd
