import Mathlib.Data.Nat.Bitwise
import Mathlib.Tactic.IntervalCases
import Ma35d1.CanFd.MessageRam

/-!
# A message written and read back

Identifier, type and flags come back, and so does the payload. The length is rounded up to
one that the length code can express, while the payload is copied by whole words: between
the last word copied and the length read back there may be words of an earlier message.
-/

namespace Ma35d1.CanFd

variable {env : Env} {idx : Nat} {m : FdMsg} {c : Canfd}

/-! ## Lengths -/

/-- The data lengths of CAN FD. -/
def legalLengths : List Nat := [0, 1, 2, 3, 4, 5, 6, 7, 8, 12, 16, 20, 24, 32, 48, 64]

/-- `len` is the least legal length from `n` on. -/
def LeastLegal (n len : Nat) : Prop :=
  len ∈ legalLengths ∧ n ≤ len ∧ ∀ k ∈ legalLengths, n ≤ k → len ≤ k

/-- The length that `n` bytes are read back with. -/
def codedLength (n : Nat) : Nat := (decodeDLC (encodeDLC (BitVec.ofNat 8 n))).toNat

theorem codedLength_leastLegal {n : Nat} (hn : n ≤ 64) : LeastLegal n (codedLength n) := by
  have hall : ∀ n < 65, codedLength n ∈ legalLengths ∧ n ≤ codedLength n ∧
      ∀ k ∈ legalLengths, n ≤ k → codedLength n ≤ k := by
    decide
  exact hall n (by omega)

/-- The lengths that are rounded up past the last word copied. -/
def LeavesStaleWords (n : Nat) : Prop :=
  25 ≤ n ∧ n ≤ 28 ∨ 33 ≤ n ∧ n ≤ 44 ∨ 49 ≤ n ∧ n ≤ 60

theorem leavesStaleWords_iff {n : Nat} (hn : n ≤ 64) :
    LeavesStaleWords n ↔ 4 * ((n + 3) / 4) < codedLength n := by
  have hall : ∀ n < 65, (25 ≤ n ∧ n ≤ 28 ∨ 33 ≤ n ∧ n ≤ 44 ∨ 49 ≤ n ∧ n ≤ 60) ↔
      4 * ((n + 3) / 4) < codedLength n := by
    decide
  exact hall n (by omega)

theorem dataWords_eq (hlen : m.u32DLC.toNat ≤ 64) : dataWords m = (m.u32DLC.toNat + 3) / 4 := by
  unfold dataWords
  rw [BitVec.toNat_udiv, BitVec.toNat_add]
  show (m.u32DLC.toNat + 3) % 2 ^ 32 / 4 = _
  rw [Nat.mod_eq_of_lt (by omega)]

/-! ## The words of an element -/

theorem copyWords_of_lt {a n j x : Nat} {ram : Nat → BitVec 32} (hx : x < a + 8 + 4 * j) :
    copyWords m a n j ram x = ram x := by
  induction n generalizing j ram with
  | zero => rfl
  | succ n ih =>
    rw [copyWords, ih (by omega)]
    exact Function.update_of_ne (by omega) ..

theorem copyWords_of_le {a n j k : Nat} {ram : Nat → BitVec 32} (hk : j + n ≤ k) :
    copyWords m a n j ram (a + 8 + 4 * k) = ram (a + 8 + 4 * k) := by
  induction n generalizing j ram with
  | zero => rfl
  | succ n ih =>
    rw [copyWords, ih (by omega)]
    exact Function.update_of_ne (by omega) ..

theorem copyWords_copied {a n j k : Nat} {ram : Nat → BitVec 32} (hj : j ≤ k) (hk : k < j + n) :
    copyWords m a n j ram (a + 8 + 4 * k) = wordAt m.au8Data k := by
  induction n generalizing j ram with
  | zero => omega
  | succ n ih =>
    rw [copyWords]
    by_cases h : k = j
    · subst h
      rw [copyWords_of_lt (by omega), Function.update_self]
    · exact ih (by omega) (by omega)

theorem writeElem_id (a : Nat) (ram : Nat → BitVec 32) : writeElem m a ram a = idWord m := by
  rw [writeElem, copyWords_of_lt (by omega), Function.update_of_ne (by omega),
    Function.update_self]

theorem writeElem_config (a : Nat) (ram : Nat → BitVec 32) :
    writeElem m a ram (a + 4) = configWord m := by
  rw [writeElem, copyWords_of_lt (by omega), Function.update_self]

/-- The data words: those of the message, then what was there before. -/
theorem writeElem_data (a k : Nat) (ram : Nat → BitVec 32) :
    writeElem m a ram (a + 8 + 4 * k) =
      if k < dataWords m then wordAt m.au8Data k else ram (a + 8 + 4 * k) := by
  unfold writeElem
  split
  · exact copyWords_copied (by omega) (by omega)
  · rw [copyWords_of_le (by omega), Function.update_of_ne (by omega),
      Function.update_of_ne (by omega)]

/-! ## Bits -/

/-- A mask of one bit. -/
theorem and_mask_ne_zero {w mask : BitVec 32} {k : Nat} (hk : k < 32)
    (hm : mask = BitVec.twoPow 32 k) : w &&& mask ≠ 0 ↔ w.getLsbD k = true := by
  rw [hm, BitVec.and_twoPow]
  have hne : BitVec.twoPow 32 k ≠ 0 := by
    intro h
    have := congrArg (BitVec.getLsbD · k) h
    simp [hk] at this
  cases w.getLsbD k
  · simp
  · simpa using hne

theorem and_ones {w : BitVec 32} {n : Nat} {mask : BitVec 32} (hw : w.toNat < 2 ^ n)
    (hm : mask.toNat = 2 ^ n - 1) : w &&& mask = w := by
  apply BitVec.eq_of_toNat_eq
  rw [BitVec.toNat_and, hm, Nat.and_two_pow_sub_one_of_lt_two_pow hw]

/-- An identifier has 11 bits, or 29. -/
def ValidId (m : FdMsg) : Prop :=
  match m.eIdType with
  | .sid => m.u32Id.toNat < 2 ^ 11
  | .xid => m.u32Id.toNat < 2 ^ 29

theorem idWord_xtd : (idWord m &&& elemXtd ≠ 0) ↔ m.eIdType = .xid := by
  rw [and_mask_ne_zero (k := 30) (by decide) (by decide), idWord]
  cases m.eIdType <;> cases m.eFrmType <;> simp [elemXtd, elemId, elemRtr]

theorem idWord_rtr : (idWord m &&& elemRtr ≠ 0) ↔ m.eFrmType = .remote := by
  rw [and_mask_ne_zero (k := 29) (by decide) (by decide), idWord]
  cases m.eIdType <;> cases m.eFrmType <;> simp [elemXtd, elemId, elemRtr]

theorem idWord_xid (h : m.eIdType = .xid) (hid : ValidId m) : idWord m &&& elemId = m.u32Id := by
  rw [ValidId, h] at hid
  have hx : (idWord m &&& elemId) = m.u32Id &&& elemId := by
    rw [idWord, h]
    apply BitVec.eq_of_getLsbD_eq
    intro i hi
    cases m.eFrmType <;> simp only [BitVec.getLsbD_and, BitVec.getLsbD_or] <;>
      interval_cases i <;> simp [elemXtd, elemId, elemRtr]
  rw [hx]
  exact and_ones hid (by decide)

theorem idWord_sid (h : m.eIdType = .sid) (hid : ValidId m) :
    (idWord m >>> 18) &&& 0x7FF#32 = m.u32Id := by
  rw [ValidId, h] at hid
  have hx : (idWord m >>> 18) &&& 0x7FF#32 = m.u32Id &&& 0x7FF#32 := by
    rw [idWord, h]
    apply BitVec.eq_of_getLsbD_eq
    intro i hi
    cases m.eFrmType <;> simp only [BitVec.getLsbD_and, BitVec.getLsbD_or,
      BitVec.getLsbD_ushiftRight, BitVec.getLsbD_shiftLeft] <;>
      interval_cases i <;> simp [elemRtr]
  rw [hx]
  exact and_ones (n := 11) hid (by decide)

theorem encodeDLC_lt (n : BitVec 8) : (encodeDLC n).toNat < 16 := by
  unfold encodeDLC
  split_ifs with h
  · have := BitVec.le_def.1 h
    have h8 : (8 : BitVec 8).toNat = 8 := rfl
    omega
  all_goals decide

/-- Code and flags do not overlap. -/
theorem config_fields {e : BitVec 8} (he : e.toNat < 16) (f b : Bool) :
    let w := (e.setWidth 32 <<< 16) ||| (if f then elemFdf else 0) ||| (if b then elemBsr else 0)
    ((w &&& elemDlc) >>> 16).setWidth 8 = e ∧ (w &&& elemFdf != 0) = f ∧
      (w &&& elemBsr != 0) = b := by
  have hall : ∀ k < 16, ∀ f b : Bool,
      let w := ((BitVec.ofNat 8 k).setWidth 32 <<< 16) ||| (if f then elemFdf else 0) |||
        (if b then elemBsr else 0)
      ((w &&& elemDlc) >>> 16).setWidth 8 = BitVec.ofNat 8 k ∧ (w &&& elemFdf != 0) = f ∧
        (w &&& elemBsr != 0) = b := by
    decide
  have hk := hall e.toNat he f b
  rwa [BitVec.ofNat_toNat, BitVec.setWidth_eq] at hk

theorem configWord_fields (m : FdMsg) :
    ((configWord m &&& elemDlc) >>> 16).setWidth 8 = encodeDLC (m.u32DLC.setWidth 8) ∧
      (configWord m &&& elemFdf != 0) = m.bFDFormat ∧
      (configWord m &&& elemBsr != 0) = m.bBitRateSwitch :=
  config_fields (encodeDLC_lt _) m.bFDFormat m.bBitRateSwitch

/-! ## Reading back -/

/-- What is read from the buffer `idx` after `m` was written to it. -/
def readBack (env : Env) (idx : Nat) (m : FdMsg) (c : Canfd) (old : Nat → BitVec 8) : FdMsg :=
  copyDBufToMsgBuf (transmitDMsg env idx m c).2.ram (txBufferAddr c idx) old

/-- `m` comes back from the buffer `idx`, whatever the message RAM held before. -/
structure RoundTrips (env : Env) (idx : Nat) (m : FdMsg) (c : Canfd) : Prop where
  u32Id : ∀ ram old, (readBack env idx m { c with ram := ram } old).u32Id = m.u32Id
  eIdType : ∀ ram old, (readBack env idx m { c with ram := ram } old).eIdType = m.eIdType
  eFrmType : ∀ ram old, (readBack env idx m { c with ram := ram } old).eFrmType = m.eFrmType
  bFDFormat : ∀ ram old, (readBack env idx m { c with ram := ram } old).bFDFormat = m.bFDFormat
  bBitRateSwitch : ∀ ram old,
    (readBack env idx m { c with ram := ram } old).bBitRateSwitch = m.bBitRateSwitch
  length : ∀ ram old, LeastLegal m.u32DLC.toNat
    (readBack env idx m { c with ram := ram } old).u32DLC.toNat
  payload : ∀ ram old, ∀ i < m.u32DLC.toNat,
    (readBack env idx m { c with ram := ram } old).au8Data i = m.au8Data i
  padding : ∀ ram ram' old,
    ∀ i < (readBack env idx m { c with ram := ram } old).u32DLC.toNat,
      (readBack env idx m { c with ram := ram } old).au8Data i =
        (readBack env idx m { c with ram := ram' } old).au8Data i

/-- The element is filled even when the bus does not become idle. -/
theorem transmitDMsg_ram (hidx : idx < canfdMaxTxBufElems)
    (hfree : c.txbrp &&& (1#32 <<< idx) = 0) :
    (transmitDMsg env idx m c).2.ram = writeElem m (txBufferAddr c idx) c.ram := by
  have hnot : ¬ canfdMaxTxBufElems ≤ idx := by omega
  rw [transmitDMsg, if_neg hnot, if_neg (not_not.2 hfree)]
  dsimp only
  split <;> rfl

theorem readBack_eq (hidx : idx < canfdMaxTxBufElems)
    (hfree : c.txbrp &&& (1#32 <<< idx) = 0) (old : Nat → BitVec 8) :
    readBack env idx m c old =
      copyDBufToMsgBuf (writeElem m (txBufferAddr c idx) c.ram) (txBufferAddr c idx) old := by
  rw [readBack, transmitDMsg_ram hidx hfree]

section Elem

variable (a : Nat) (ram : Nat → BitVec 32) (old : Nat → BitVec 8)

theorem copy_eIdType : (copyDBufToMsgBuf (writeElem m a ram) a old).eIdType = m.eIdType := by
  simp only [copyDBufToMsgBuf, writeElem_id]
  cases ht : m.eIdType with
  | sid => exact if_neg (by rw [idWord_xtd, ht]; decide)
  | xid => exact if_pos (idWord_xtd.2 ht)

theorem copy_u32Id (hid : ValidId m) :
    (copyDBufToMsgBuf (writeElem m a ram) a old).u32Id = m.u32Id := by
  simp only [copyDBufToMsgBuf, writeElem_id]
  cases ht : m.eIdType with
  | sid =>
    rw [if_neg (by rw [idWord_xtd, ht]; decide)]
    exact idWord_sid ht hid
  | xid =>
    rw [if_pos (idWord_xtd.2 ht)]
    exact idWord_xid ht hid

theorem copy_eFrmType : (copyDBufToMsgBuf (writeElem m a ram) a old).eFrmType = m.eFrmType := by
  simp only [copyDBufToMsgBuf, writeElem_id]
  cases ht : m.eFrmType with
  | data => exact if_neg (by rw [idWord_rtr, ht]; decide)
  | remote => exact if_pos (idWord_rtr.2 ht)

theorem copy_flags :
    (copyDBufToMsgBuf (writeElem m a ram) a old).bFDFormat = m.bFDFormat ∧
      (copyDBufToMsgBuf (writeElem m a ram) a old).bBitRateSwitch = m.bBitRateSwitch := by
  simp only [copyDBufToMsgBuf, writeElem_config]
  exact (configWord_fields m).2

theorem copy_u32DLC :
    (copyDBufToMsgBuf (writeElem m a ram) a old).u32DLC.toNat = codedLength m.u32DLC.toNat := by
  simp only [copyDBufToMsgBuf, writeElem_config, (configWord_fields m).1]
  have hnarrow : m.u32DLC.setWidth 8 = BitVec.ofNat 8 m.u32DLC.toNat := by
    apply BitVec.eq_of_toNat_eq
    simp
  rw [hnarrow, BitVec.toNat_setWidth_of_le (by decide)]
  rfl

/-- The bytes read: those of the message up to the last word copied, older ones after it. -/
theorem copy_au8Data (hlen : m.u32DLC.toNat ≤ 64) {i : Nat}
    (hi : i < codedLength m.u32DLC.toNat) :
    (copyDBufToMsgBuf (writeElem m a ram) a old).au8Data i =
      if i < 4 * ((m.u32DLC.toNat + 3) / 4) then m.au8Data i
      else byteAt (fun j => ram (a + 8 + 4 * j)) i := by
  have hread : (copyDBufToMsgBuf (writeElem m a ram) a old).au8Data i =
      byteAt (fun j => writeElem m a ram (a + 8 + 4 * j)) i := by
    rw [← copy_u32DLC a ram old] at hi
    exact if_pos hi
  rw [hread, byteAt, writeElem_data, dataWords_eq hlen]
  by_cases h : i < 4 * ((m.u32DLC.toNat + 3) / 4)
  · rw [if_pos h, if_pos (by omega)]
    exact byteAt_wordAt m.au8Data i
  · rw [if_neg h, if_neg (by omega)]
    rfl

end Elem

/-- A message comes back unless its length is rounded up past the last word copied. -/
theorem roundTrips_iff (env : Env) (idx : Nat) (m : FdMsg) (c : Canfd)
    (hidx : idx < canfdMaxTxBufElems) (hfree : c.txbrp &&& (1#32 <<< idx) = 0)
    (hid : ValidId m) (hlen : m.u32DLC.toNat ≤ 64) :
    RoundTrips env idx m c ↔ ¬ LeavesStaleWords m.u32DLC.toNat := by
  have hread : ∀ ram old, readBack env idx m { c with ram := ram } old =
      copyDBufToMsgBuf (writeElem m (txBufferAddr c idx) ram) (txBufferAddr c idx) old :=
    fun ram old => readBack_eq (c := { c with ram := ram }) hidx hfree old
  have hle := (codedLength_leastLegal hlen).2.1
  constructor
  · intro h hstale
    rw [leavesStaleWords_iff hlen] at hstale
    -- the first byte after the last word copied, over two different memories
    have hpad := h.padding (fun _ => 0) (fun _ => BitVec.allOnes 32) (fun _ => 0)
      (4 * ((m.u32DLC.toNat + 3) / 4))
    rw [hread, hread, copy_u32DLC, copy_au8Data _ _ _ hlen hstale,
      copy_au8Data _ _ _ hlen hstale] at hpad
    have hbytes := hpad hstale
    rw [if_neg (by omega), if_neg (by omega)] at hbytes
    have hzero := congrArg (BitVec.getLsbD · 0) hbytes
    simp [byteAt] at hzero
  · intro hstale
    rw [leavesStaleWords_iff hlen] at hstale
    refine ⟨?_, ?_, ?_, ?_, ?_, ?_, ?_, ?_⟩ <;> intro ram
    · intro old
      rw [hread]
      exact copy_u32Id _ _ _ hid
    · intro old
      rw [hread]
      exact copy_eIdType _ _ _
    · intro old
      rw [hread]
      exact copy_eFrmType _ _ _
    · intro old
      rw [hread]
      exact (copy_flags _ _ _).1
    · intro old
      rw [hread]
      exact (copy_flags _ _ _).2
    · intro old
      rw [hread, copy_u32DLC]
      exact codedLength_leastLegal hlen
    · intro old i hi
      rw [hread, copy_au8Data _ _ _ hlen (by omega), if_pos (by omega)]
    · intro ram' old i hi
      rw [hread, copy_u32DLC] at hi
      rw [hread, hread, copy_au8Data _ _ _ hlen hi, copy_au8Data _ _ _ hlen hi,
        if_pos (by omega), if_pos (by omega)]

/-! ## A frame of 25 bytes -/

/-- A controller whose message RAM holds `ram`. -/
def idleCanFd (ram : Nat → BitVec 32) : Canfd := ⟨0, 0, 0, ram⟩

/-- An idle bus. -/
def idleBus : Env := ⟨0, fun _ => true, 0⟩

/-- An FD frame with `n` bytes `0x11`. -/
def fdFrame (n : BitVec 32) : FdMsg := ⟨.sid, .data, 0x123, n, fun _ => 0x11, true, true, false⟩

theorem roundTrips_iff_twelve : RoundTrips idleBus 0 (fdFrame 12) (idleCanFd fun _ => 0) :=
  (roundTrips_iff idleBus 0 (fdFrame 12) (idleCanFd fun _ => 0) (by decide) (by decide)
    (by unfold ValidId fdFrame; decide) (by decide)).2 (by unfold LeavesStaleWords; decide)

/-- 25 bytes are read back as 32, and the last four of these are what an earlier message left. -/
theorem not_roundTrips_twentyFive :
    ¬ RoundTrips idleBus 0 (fdFrame 25) (idleCanFd fun _ => 0) := by
  intro h
  have hpad := h.padding (fun _ => 0) (fun _ => 0x5A5A5A5A) (fun _ => 0) 28 (by decide)
  exact absurd hpad (by decide)

end Ma35d1.CanFd
