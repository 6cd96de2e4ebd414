import Ma35d1.CanFd.MessageRam
import Ma35d1.Machine.Trace
import Mathlib.Data.List.Forall2

/-!
# Dedicated Rx buffers

`CANFD_ReadRxBufMsg` against a controller that stores frames at any time. A call is a
sequence of register accesses; between any two of them frames may arrive. The new-data
registers clear the bits written as one, and a buffer takes a frame only while its flag is
clear. `CANFD_Open` sets the element size to 64 data bytes.
-/

namespace Ma35d1.CanFd

open Ma35d1.Machine.Trace (run EachStep Always always_iff_eachStep eachStep_of_eachStep)

def canfdMaxRxBufElems : Nat := 64

/-- The 18 words of an Rx buffer element. -/
abbrev RxElem := Nat → BitVec 32

/-- `CANFD_REG_READ_TIME` -/
def regReadTime : Nat := 3

/-- How far a `CANFD_ReadReg` has come. -/
inductive ReadReg
  | first
  /-- `u32ReadReg` and `u32TimeOutCnt` -/
  | again (v : BitVec 32) (cnt : Nat)

/-- One `inpw` of the register, which holds `w`: the call goes on, or returns a value. -/
def ReadReg.inpw (sysReg w : BitVec 32) : ReadReg → ReadReg ⊕ BitVec 32
  | .first => if sysReg &&& 0xf000000#32 = 0 then .inl (.again w 0) else .inr w
  | .again v cnt =>
    if w = v then
      if cnt + 1 < regReadTime then .inl (.again v (cnt + 1)) else .inr v
    else .inl (.again w 0)

/-- How far a `CANFD_ReadRxBufMsg` of buffer `idx` has come. -/
inductive ReadPc
  | idle
  /-- reading `NDAT` for the test -/
  | test (idx : Nat) (old : Nat → BitVec 8) (rd : ReadReg)
  /-- before `CANFD_CopyDBufToMsgBuf` into a message with the data bytes `old` -/
  | copy (idx : Nat) (old : Nat → BitVec 8)
  /-- reading `NDAT` to clear the flag, with the message copied -/
  | load (idx : Nat) (m : FdMsg) (rd : ReadReg)
  /-- before the store to `NDAT`, which held `r` when it was loaded -/
  | store (idx : Nat) (m : FdMsg) (r : BitVec 32)

/-- The registers and the message RAM, the call under way, and what went in and out. -/
structure RxState where
  ndat1 : BitVec 32
  ndat2 : BitVec 32
  rxbc : BitVec 32
  ram : Nat → BitVec 32
  sysReg : BitVec 32
  pc : ReadPc
  /-- the frames stored in each buffer so far -/
  received : Nat → List RxElem
  /-- the messages returned from each buffer so far -/
  returned : Nat → List FdMsg

/-! ## Flags -/

/-- The register that holds the flag of buffer `idx`. -/
def RxState.ndat (s : RxState) (idx : Nat) : BitVec 32 := if idx < 32 then s.ndat1 else s.ndat2

/-- The bit of that register. -/
def ndatBit (idx : Nat) : Nat := if idx < 32 then idx else idx - 32

/-- The new-data flag of buffer `idx`. -/
def RxState.newData (s : RxState) (idx : Nat) : Bool := (s.ndat idx).getLsbD (ndatBit idx)

/-- The register of buffer `idx` holds `w`. -/
def RxState.setNdat (s : RxState) (idx : Nat) (w : BitVec 32) : RxState :=
  if idx < 32 then { s with ndat1 := w } else { s with ndat2 := w }

/-- A store of `w` to the register: the bits written as one are cleared. -/
def RxState.writeNdat (s : RxState) (idx : Nat) (w : BitVec 32) : RxState :=
  s.setNdat idx (s.ndat idx &&& ~~~ w)

/-! ## Elements -/

/-- `psRxBuffer`, as an offset from `psCanfd` -/
def rxBufferAddr (rxbc : BitVec 32) (idx : Nat) : Nat :=
  canfdSramBaseAddr + (rxbc &&& 0xFFFF#32).toNat + idx * sizeofBuf

/-- The words of `e` are written from the byte offset `a` on. -/
def storeElem (e : RxElem) (a : Nat) (ram : Nat → BitVec 32) : Nat → BitVec 32 := fun x =>
  if a ≤ x ∧ x < a + sizeofBuf ∧ (x - a) % 4 = 0 then e ((x - a) / 4) else ram x

/-- The message in an element, read into a buffer with the data bytes `old`. -/
def elemMsg (e : RxElem) (old : Nat → BitVec 8) : FdMsg :=
  copyDBufToMsgBuf (storeElem e 0 fun _ => 0) 0 old

/-- The message `m` is the one the frame `e` carries. -/
def Carries (e : RxElem) (m : FdMsg) : Prop := ∃ old, m = elemMsg e old

/-! ## Steps -/

inductive RxEvent
  /-- a frame is stored in buffer `idx` -/
  | receive (idx : Nat) (e : RxElem)
  /-- `CANFD_ReadRxBufMsg` is called -/
  | call (u8MbIdx : BitVec 8) (old : Nat → BitVec 8)
  /-- the call under way makes its next access -/
  | access

def RxState.setPc (s : RxState) (pc : ReadPc) : RxState := { s with pc }

/-- A frame is stored and its flag set. -/
def RxState.receive (s : RxState) (idx : Nat) (e : RxElem) : RxState :=
  { s.setNdat idx (s.ndat idx ||| 1#32 <<< ndatBit idx) with
    ram := storeElem e (rxBufferAddr s.rxbc idx) s.ram
    received := Function.update s.received idx (s.received idx ++ [e]) }

/-- `CANFD_ReadRxBufMsg` returns `m`. -/
def RxState.giveBack (s : RxState) (idx : Nat) (m : FdMsg) : RxState :=
  { s with pc := .idle, returned := Function.update s.returned idx (s.returned idx ++ [m]) }

/-- The next access of `CANFD_ReadRxBufMsg`. -/
def RxState.access (s : RxState) : Option RxState :=
  match s.pc with
  | .idle => none
  | .test idx old rd =>
    match rd.inpw s.sysReg (s.ndat idx) with
    | .inl rd => some (s.setPc (.test idx old rd))
    | .inr v => some (s.setPc (if (v >>> ndatBit idx) &&& 1#32 ≠ 0 then .copy idx old else .idle))
  | .copy idx old =>
    some (s.setPc (.load idx (copyDBufToMsgBuf s.ram (rxBufferAddr s.rxbc idx) old) .first))
  | .load idx m rd =>
    match rd.inpw s.sysReg (s.ndat idx) with
    | .inl rd => some (s.setPc (.load idx m rd))
    | .inr v => some (s.setPc (.store idx m v))
  | .store idx m r => some ((s.writeNdat idx (r ||| 1#32 <<< ndatBit idx)).giveBack idx m)

def rxStep (s : RxState) : RxEvent → Option RxState
  | .receive idx e =>
    if idx < canfdMaxRxBufElems ∧ s.newData idx = false then some (s.receive idx e) else none
  | .call u8MbIdx old =>
    match s.pc with
    | .idle =>
      if u8MbIdx.toNat < canfdMaxRxBufElems then some (s.setPc (.test u8MbIdx.toNat old .first))
      else some s
    | _ => none
  | .access => s.access

/-- No call is under way and every frame that is pending has been received. -/
def rxStart (ndat1 ndat2 rxbc sysReg : BitVec 32) (elems : Nat → RxElem) : RxState :=
  let s : RxState :=
    { ndat1, ndat2, rxbc, sysReg
      ram := fun x =>
        let a := rxBufferAddr rxbc 0
        elems ((x - a) / sizeofBuf) ((x - a) % sizeofBuf / 4)
      pc := .idle, received := fun _ => [], returned := fun _ => [] }
  { s with received := fun b => if s.newData b then [elems b] else [] }

/-! ## The law -/

/-- Of each buffer, the frames received are those returned, in order, and then the one that
is pending. -/
structure RxExact (s : RxState) : Prop where
  count : ∀ b < canfdMaxRxBufElems,
    (s.received b).length = (s.returned b).length + if s.newData b then 1 else 0
  inOrder : ∀ b < canfdMaxRxBufElems,
    List.Forall₂ Carries ((s.received b).take (s.returned b).length) (s.returned b)

/-- An access of the call for buffer `idx` changes no other flag. -/
def LeavesOthers (s : RxState) : RxEvent → Prop
  | .access => ∀ t, s.access = some t → ∀ b < canfdMaxRxBufElems, s.newData b ≠ t.newData b →
      ∃ m r, s.pc = .store b m r
  | _ => True

/-- The register that is stored back held no other flag when it was loaded. -/
def LoadedAlone (s : RxState) : RxEvent → Prop
  | .access => ∀ idx m r, s.pc = .store idx m r → r &&& ~~~ (1#32 <<< ndatBit idx) = 0
  | _ => True

/-! ## Flags of the two registers -/

section Flags

variable {s : RxState} {idx b : Nat} {w r : BitVec 32} {e : RxElem} {m : FdMsg}

theorem ndatBit_lt (h : idx < canfdMaxRxBufElems) : ndatBit idx < 32 := by
  unfold ndatBit
  unfold canfdMaxRxBufElems at h
  split <;> omega

theorem ndatBit_inj (hreg : b < 32 ↔ idx < 32) (h : ndatBit b = ndatBit idx) : b = idx := by
  unfold ndatBit at h
  split at h <;> split at h <;> omega

theorem newData_setNdat : (s.setNdat idx w).newData b =
    if b < 32 ↔ idx < 32 then w.getLsbD (ndatBit b) else s.newData b := by
  unfold RxState.setNdat RxState.newData RxState.ndat
  by_cases hi : idx < 32 <;> by_cases hb : b < 32 <;> simp [hi, hb]

theorem ndat_eq (hreg : b < 32 ↔ idx < 32) : s.ndat idx = s.ndat b := by
  unfold RxState.ndat
  simp only [hreg]

theorem getLsbD_bit (hidx : idx < canfdMaxRxBufElems) (hreg : b < 32 ↔ idx < 32) :
    (1#32 <<< ndatBit idx).getLsbD (ndatBit b) = decide (b = idx) := by
  have hlt := ndatBit_lt hidx
  rw [BitVec.getLsbD_shiftLeft, BitVec.getLsbD_one]
  by_cases h : b = idx
  · subst h
    simp [hlt]
  · have hne : ndatBit b ≠ ndatBit idx := fun hbit => h (ndatBit_inj hreg hbit)
    simp only [h, decide_false]
    by_cases hle : ndatBit b < ndatBit idx
    · simp [hle]
    · simp [show ndatBit b - ndatBit idx ≠ 0 by omega]

/-- A frame sets the flag of its own buffer and no other. -/
theorem newData_receive (hidx : idx < canfdMaxRxBufElems) :
    (s.receive idx e).newData b = (s.newData b || decide (b = idx)) := by
  have hset : (s.receive idx e).newData b =
      (s.setNdat idx (s.ndat idx ||| 1#32 <<< ndatBit idx)).newData b := rfl
  rw [hset, newData_setNdat]
  by_cases hreg : b < 32 ↔ idx < 32
  · rw [if_pos hreg, BitVec.getLsbD_or, getLsbD_bit hidx hreg, ndat_eq hreg]
    rfl
  · have hne : b ≠ idx := fun h => hreg (by rw [h])
    simp [hreg, hne]

/-- A store clears the flag of the call's buffer and those that were loaded. -/
theorem newData_store (hidx : idx < canfdMaxRxBufElems) (hb : b < canfdMaxRxBufElems) :
    ((s.writeNdat idx (r ||| 1#32 <<< ndatBit idx)).giveBack idx m).newData b =
      if b < 32 ↔ idx < 32 then
        s.newData b && !(r.getLsbD (ndatBit b) || decide (b = idx))
      else s.newData b := by
  have hset : ((s.writeNdat idx (r ||| 1#32 <<< ndatBit idx)).giveBack idx m).newData b =
      (s.setNdat idx (s.ndat idx &&& ~~~ (r ||| 1#32 <<< ndatBit idx))).newData b := rfl
  rw [hset, newData_setNdat]
  by_cases hreg : b < 32 ↔ idx < 32
  · have hlt := ndatBit_lt hb
    rw [if_pos hreg, if_pos hreg, BitVec.getLsbD_and, BitVec.getLsbD_not, BitVec.getLsbD_or,
      getLsbD_bit hidx hreg, ndat_eq hreg]
    simp [hlt, RxState.newData]
  · rw [if_neg hreg, if_neg hreg]

/-- The test of the call reads its buffer's flag. -/
theorem test_bit (hidx : idx < canfdMaxRxBufElems) :
    (s.ndat idx >>> ndatBit idx) &&& 1#32 ≠ 0 ↔ s.newData idx = true := by
  unfold RxState.newData
  generalize s.ndat idx = v
  have hlt := ndatBit_lt hidx
  have hone : (v >>> ndatBit idx) &&& 1#32 = if v.getLsbD (ndatBit idx) then 1#32 else 0#32 := by
    apply BitVec.eq_of_getLsbD_eq
    intro i hi
    rw [BitVec.getLsbD_and, BitVec.getLsbD_ushiftRight, BitVec.getLsbD_one]
    by_cases h0 : i = 0
    · subst h0
      by_cases hv : v.getLsbD (ndatBit idx) <;> simp [hv]
    · by_cases hv : v.getLsbD (ndatBit idx) <;> simp [hv, h0]
  rw [hone]
  by_cases hv : v.getLsbD (ndatBit idx) <;> simp [hv]

end Flags

/-! ## Elements of the message RAM -/

/-- The element at byte offset `a` holds the words of `e`. -/
def Holds (ram : Nat → BitVec 32) (a : Nat) (e : RxElem) : Prop := ∀ j < 18, ram (a + 4 * j) = e j

section Elements

variable {ram : Nat → BitVec 32} {a a' idx b : Nat} {e e' : RxElem} {rxbc : BitVec 32}

theorem holds_storeElem : Holds (storeElem e a ram) a e := by
  intro j hj
  unfold storeElem sizeofBuf
  rw [if_pos (by omega)]
  congr 1
  omega

theorem Holds.store (h : Holds ram a e) (hsep : a + sizeofBuf ≤ a' ∨ a' + sizeofBuf ≤ a) :
    Holds (storeElem e' a' ram) a e := by
  intro j hj
  unfold sizeofBuf at hsep
  unfold storeElem sizeofBuf
  rw [if_neg (by omega)]
  exact h j hj

/-- The elements of two buffers do not overlap. -/
theorem rxBufferAddr_sep (h : b ≠ idx) :
    rxBufferAddr rxbc b + sizeofBuf ≤ rxBufferAddr rxbc idx ∨
      rxBufferAddr rxbc idx + sizeofBuf ≤ rxBufferAddr rxbc b := by
  unfold rxBufferAddr sizeofBuf
  omega

theorem decodeDLC_le (d : BitVec 8) : (decodeDLC d).toNat ≤ 64 := by
  unfold decodeDLC
  split
  · rename_i h
    have : d.toNat ≤ 8 := h
    omega
  · repeat' split
    all_goals decide

/-- The message read depends on the 18 words of the element alone. -/
theorem copy_congr {ram' : Nat → BitVec 32} (h : ∀ j < 18, ram (a + 4 * j) = ram' (a' + 4 * j))
    (old : Nat → BitVec 8) : copyDBufToMsgBuf ram a old = copyDBufToMsgBuf ram' a' old := by
  have hid : ram a = ram' a' := h 0 (by decide)
  have hconfig : ram (a + 4) = ram' (a' + 4) := h 1 (by decide)
  unfold copyDBufToMsgBuf
  simp only [hid, hconfig, FdMsg.mk.injEq, true_and, and_true]
  funext i
  split
  · rename_i hi
    have hdlc : i < 64 := by
      apply Nat.lt_of_lt_of_le hi
      rw [BitVec.toNat_setWidth]
      exact (Nat.mod_le _ _).trans (decodeDLC_le _)
    unfold byteAt
    have hword := h (2 + i / 4) (by omega)
    rw [show a + 4 * (2 + i / 4) = a + 8 + 4 * (i / 4) by omega,
      show a' + 4 * (2 + i / 4) = a' + 8 + 4 * (i / 4) by omega] at hword
    simp only [hword]
  · rfl

theorem Holds.carries (h : Holds ram a e) (old : Nat → BitVec 8) :
    Carries e (copyDBufToMsgBuf ram a old) := by
  refine ⟨old, copy_congr (fun j hj => ?_) old⟩
  rw [h j hj]
  exact (holds_storeElem j hj).symm

end Elements

/-! ## What every run keeps -/

/-- The frame pending in buffer `b` is the last received, and its element holds it. -/
def PendingHeld (s : RxState) (b : Nat) : Prop :=
  ∃ l e, s.received b = l ++ [e] ∧ Holds s.ram (rxBufferAddr s.rxbc b) e

/-- `m` is what the pending frame of buffer `idx` carries. -/
def CopiedPending (s : RxState) (idx : Nat) (m : FdMsg) : Prop :=
  ∃ l e, s.received idx = l ++ [e] ∧ Carries e m

/-- Where the call stands. -/
def PcOk (s : RxState) : Prop :=
  match s.pc with
  | .idle => True
  | .test idx _ _ => idx < canfdMaxRxBufElems
  | .copy idx _ => idx < canfdMaxRxBufElems ∧ s.newData idx = true
  | .load idx m _ =>
    idx < canfdMaxRxBufElems ∧ s.newData idx = true ∧ CopiedPending s idx m
  | .store idx m r =>
    idx < canfdMaxRxBufElems ∧ s.newData idx = true ∧ CopiedPending s idx m ∧
      ∀ b < canfdMaxRxBufElems, (b < 32 ↔ idx < 32) → r.getLsbD (ndatBit b) = true →
        s.newData b = true

structure RxInv (s : RxState) : Prop where
  held : ∀ b < canfdMaxRxBufElems, s.newData b = true → PendingHeld s b
  pcOk : PcOk s

section Steps

variable {s t : RxState} {idx b : Nat} {e : RxElem} {m : FdMsg} {r w v sysReg : BitVec 32}
  {rd : ReadReg} {ev : RxEvent}

/-- What `CANFD_ReadReg` returns is what the register holds at its last read. -/
theorem ReadReg.inpw_value (h : rd.inpw sysReg w = .inr v) : v = w := by
  unfold ReadReg.inpw at h
  split at h
  · split at h
    · simp at h
    · simpa using h.symm
  · split at h
    · split at h
      · simp at h
      · rename_i hw _
        rw [hw]
        simpa using h.symm
    · simp at h

theorem RxInv.setPc (hi : RxInv s) (pc : ReadPc) (hpc : PcOk (s.setPc pc)) : RxInv (s.setPc pc) :=
  ⟨hi.held, hpc⟩

/-- A frame into another buffer leaves a pending frame where it is. -/
theorem PendingHeld.receive (h : PendingHeld s b) (hne : b ≠ idx) :
    PendingHeld (s.receive idx e) b := by
  obtain ⟨l, e', hrec, hholds⟩ := h
  refine ⟨l, e', ?_, ?_⟩
  · simp [RxState.receive, Function.update_of_ne hne, hrec]
  · have hrxbc : (s.receive idx e).rxbc = s.rxbc := by
      simp only [RxState.receive, RxState.setNdat]
      split <;> rfl
    rw [hrxbc]
    exact hholds.store (rxBufferAddr_sep hne)

theorem PendingHeld.receive_self : PendingHeld (s.receive idx e) idx := by
  refine ⟨s.received idx, e, by simp [RxState.receive], ?_⟩
  have hrxbc : (s.receive idx e).rxbc = s.rxbc := by
    simp only [RxState.receive, RxState.setNdat]
    split <;> rfl
  rw [hrxbc]
  exact holds_storeElem

theorem CopiedPending.receive (h : CopiedPending s b m) (hne : b ≠ idx) :
    CopiedPending (s.receive idx e) b m := by
  obtain ⟨l, e', hrec, hcar⟩ := h
  refine ⟨l, e', ?_, hcar⟩
  simp [RxState.receive, Function.update_of_ne hne, hrec]

theorem pc_receive : (s.receive idx e).pc = s.pc := by
  simp only [RxState.receive, RxState.setNdat]
  split <;> rfl

/-- The buffer of the call is not the one a frame goes to, once its flag was seen. -/
theorem PcOk.receive (hpc : PcOk s) (hidx : idx < canfdMaxRxBufElems)
    (hfree : s.newData idx = false) : PcOk (s.receive idx e) := by
  have hkeep : ∀ b, s.newData b = true → (s.receive idx e).newData b = true ∧ b ≠ idx := by
    intro b hb
    refine ⟨by rw [newData_receive hidx, hb, Bool.true_or], fun h => ?_⟩
    rw [h, hfree] at hb
    exact Bool.false_ne_true hb
  unfold PcOk at hpc ⊢
  rw [pc_receive]
  cases hs : s.pc with
  | idle => trivial
  | test i old rd => rwa [hs] at hpc
  | copy i old =>
    rw [hs] at hpc
    exact ⟨hpc.1, (hkeep i hpc.2).1⟩
  | load i m rd =>
    rw [hs] at hpc
    have hi := hkeep i hpc.2.1
    exact ⟨hpc.1, hi.1, hpc.2.2.receive hi.2⟩
  | store i m r =>
    rw [hs] at hpc
    have hi := hkeep i hpc.2.1
    exact ⟨hpc.1, hi.1, hpc.2.2.1.receive hi.2,
      fun b hb hreg hr => (hkeep b (hpc.2.2.2 b hb hreg hr)).1⟩

theorem RxInv.receive (hi : RxInv s) (hidx : idx < canfdMaxRxBufElems)
    (hfree : s.newData idx = false) : RxInv (s.receive idx e) := by
  refine ⟨fun b hb hflag => ?_, hi.pcOk.receive hidx hfree⟩
  by_cases h : b = idx
  · rw [h]
    exact PendingHeld.receive_self
  · apply PendingHeld.receive _ h
    apply hi.held b hb
    rw [newData_receive hidx] at hflag
    simpa [h] using hflag

/-- The state after the store. -/
def RxState.stored (s : RxState) (idx : Nat) (m : FdMsg) (r : BitVec 32) : RxState :=
  (s.writeNdat idx (r ||| 1#32 <<< ndatBit idx)).giveBack idx m

theorem stored_frame (s : RxState) (idx : Nat) (m : FdMsg) (r : BitVec 32) :
    (s.stored idx m r).received = s.received ∧
    (s.stored idx m r).ram = s.ram ∧ (s.stored idx m r).rxbc = s.rxbc ∧
    (s.stored idx m r).returned =
      Function.update s.returned idx (s.returned idx ++ [m]) := by
  simp only [RxState.stored, RxState.giveBack, RxState.writeNdat, RxState.setNdat]
  split <;> exact ⟨rfl, rfl, rfl, rfl⟩

theorem RxInv.stored (hi : RxInv s) (hidx : idx < canfdMaxRxBufElems) :
    RxInv (s.stored idx m r) := by
  refine ⟨fun b hb hflag => ?_, trivial⟩
  have hs : s.newData b = true := by
    unfold RxState.stored at hflag
    rw [newData_store hidx hb] at hflag
    split at hflag
    · exact (Bool.and_eq_true_iff.mp hflag).1
    · exact hflag
  obtain ⟨l, e, hrec, hholds⟩ := hi.held b hb hs
  obtain ⟨hreceived, hram, hrxbc, -⟩ := stored_frame s idx m r
  refine ⟨l, e, ?_, ?_⟩
  · rw [hreceived, hrec]
  · rw [hram, hrxbc]
    exact hholds

/-- What an access of the call does. -/
theorem access_cases (hi : RxInv s) (h : s.access = some t) :
    (∃ pc, t = s.setPc pc ∧ PcOk (s.setPc pc) ∧ ∀ idx m r, s.pc ≠ .store idx m r) ∨
      ∃ idx m r, s.pc = .store idx m r ∧ t = s.stored idx m r := by
  have hpc := hi.pcOk
  unfold PcOk at hpc
  unfold RxState.access at h
  cases hs : s.pc with
  | idle => simp [hs] at h
  | test idx old rd =>
    simp only [hs] at h hpc
    left
    split at h
    · obtain rfl := Option.some.inj h
      exact ⟨_, rfl, hpc, by simp⟩
    · rename_i v hv
      obtain rfl := Option.some.inj h
      refine ⟨_, rfl, ?_, by simp⟩
      rw [ReadReg.inpw_value hv]
      split
      · rename_i hbit
        exact ⟨hpc, (test_bit hpc).1 hbit⟩
      · trivial
  | copy idx old =>
    simp only [hs] at h hpc
    obtain rfl := Option.some.inj h
    left
    obtain ⟨l, e, hrec, hholds⟩ := hi.held idx hpc.1 hpc.2
    exact ⟨_, rfl, ⟨hpc.1, hpc.2, l, e, hrec, hholds.carries old⟩, by simp⟩
  | load idx m rd =>
    simp only [hs] at h hpc
    left
    split at h
    · obtain rfl := Option.some.inj h
      exact ⟨_, rfl, hpc, by simp⟩
    · rename_i v hv
      obtain rfl := Option.some.inj h
      refine ⟨_, rfl, ⟨hpc.1, hpc.2.1, hpc.2.2, fun b hb hreg hbit => ?_⟩, by simp⟩
      rw [ReadReg.inpw_value hv, ndat_eq hreg] at hbit
      exact hbit
  | store idx m r =>
    simp only [hs] at h
    obtain rfl := Option.some.inj h
    exact .inr ⟨idx, m, r, rfl, rfl⟩

theorem rxStep_inv (hi : RxInv s) (h : rxStep s ev = some t) : RxInv t := by
  cases ev with
  | receive idx e =>
    simp only [rxStep, Option.ite_none_right_eq_some, Option.some.injEq] at h
    obtain ⟨⟨hidx, hfree⟩, rfl⟩ := h
    exact hi.receive hidx hfree
  | call u8MbIdx old =>
    simp only [rxStep] at h
    split at h
    · split at h
      · rename_i hidx
        obtain rfl := Option.some.inj h
        exact hi.setPc _ hidx
      · obtain rfl := Option.some.inj h
        exact hi
    · simp at h
  | access =>
    obtain ⟨pc, rfl, hpc, -⟩ | ⟨idx, m, r, hs, rfl⟩ := access_cases hi h
    · exact hi.setPc pc hpc
    · apply hi.stored
      have hpc := hi.pcOk
      unfold PcOk at hpc
      rw [hs] at hpc
      exact hpc.1

/-! ## When nothing is lost -/

theorem RxExact.receive (hx : RxExact s) (hidx : idx < canfdMaxRxBufElems)
    (hfree : s.newData idx = false) : RxExact (s.receive idx e) := by
  have hreturned : (s.receive idx e).returned = s.returned := by
    simp only [RxState.receive, RxState.setNdat]
    split <;> rfl
  have hreceived : (s.receive idx e).received =
      Function.update s.received idx (s.received idx ++ [e]) := rfl
  constructor
  · intro b hb
    have hcount := hx.count b hb
    rw [hreturned, hreceived, newData_receive hidx]
    by_cases h : b = idx
    · subst h
      rw [hfree] at hcount
      simpa using hcount
    · rw [Function.update_of_ne h]
      simpa [h] using hcount
  · intro b hb
    rw [hreturned, hreceived]
    by_cases h : b = idx
    · subst h
      have hle : (s.returned b).length ≤ (s.received b).length := by
        have hcount := hx.count b hb
        omega
      rw [Function.update_self, List.take_append_of_le_length hle]
      exact hx.inOrder b hb
    · rw [Function.update_of_ne h]
      exact hx.inOrder b hb

theorem loadedAlone_bit (hb : b < canfdMaxRxBufElems) (hidx : idx < canfdMaxRxBufElems)
    (hreg : b < 32 ↔ idx < 32) (hne : b ≠ idx) (h : r &&& ~~~ (1#32 <<< ndatBit idx) = 0) :
    r.getLsbD (ndatBit b) = false := by
  have hbit := congrArg (BitVec.getLsbD · (ndatBit b)) h
  simp only [BitVec.getLsbD_and, BitVec.getLsbD_not, getLsbD_bit hidx hreg, hne,
    decide_false] at hbit
  simpa [ndatBit_lt hb] using hbit

/-- Where only its own flag was loaded, a call clears no other. -/
theorem newData_stored_of_alone (hidx : idx < canfdMaxRxBufElems) (hb : b < canfdMaxRxBufElems)
    (h : r &&& ~~~ (1#32 <<< ndatBit idx) = 0) :
    (s.stored idx m r).newData b = (s.newData b && !decide (b = idx)) := by
  unfold RxState.stored
  rw [newData_store hidx hb]
  by_cases hreg : b < 32 ↔ idx < 32
  · rw [if_pos hreg]
    by_cases hne : b = idx
    · simp [hne]
    · simp [hne, loadedAlone_bit hb hidx hreg hne h]
  · have hne : b ≠ idx := fun h => hreg (by rw [h])
    simp [hreg, hne]

theorem RxExact.stored (hx : RxExact s) (hidx : idx < canfdMaxRxBufElems)
    (hflag : s.newData idx = true) (hm : CopiedPending s idx m)
    (h : r &&& ~~~ (1#32 <<< ndatBit idx) = 0) : RxExact (s.stored idx m r) := by
  obtain ⟨hreceived, -, -, hreturned⟩ := stored_frame s idx m r
  obtain ⟨l, e, hrec, hcar⟩ := hm
  have hlen : l.length = (s.returned idx).length := by
    have hcount := hx.count idx hidx
    rw [hflag, hrec] at hcount
    simpa using hcount
  constructor
  · intro b hb
    rw [hreceived, hreturned, newData_stored_of_alone hidx hb h, hx.count b hb]
    by_cases hne : b = idx
    · subst hne
      simp [hflag]
    · simp [hne]
  · intro b hb
    rw [hreceived, hreturned]
    by_cases hne : b = idx
    · subst hne
      have horder := hx.inOrder b hb
      rw [hrec, ← hlen, List.take_left] at horder
      rw [Function.update_self, hrec, List.length_append, ← hlen, List.length_singleton,
        List.take_of_length_le (by simp)]
      exact List.rel_append horder (.cons hcar .nil)
    · rw [Function.update_of_ne hne]
      exact hx.inOrder b hb

/-- A call that loaded another flag loses the frame that is pending there. -/
theorem RxExact.alone_of_stored (hx : RxExact s) (hx' : RxExact (s.stored idx m r))
    (hidx : idx < canfdMaxRxBufElems)
    (hloaded : ∀ b < canfdMaxRxBufElems, (b < 32 ↔ idx < 32) → r.getLsbD (ndatBit b) = true →
      s.newData b = true) : r &&& ~~~ (1#32 <<< ndatBit idx) = 0 := by
  apply BitVec.eq_of_getLsbD_eq
  intro i hi
  -- the buffer whose flag is bit `i` of the register
  obtain ⟨b, hb, hreg, rfl⟩ : ∃ b < canfdMaxRxBufElems, (b < 32 ↔ idx < 32) ∧ ndatBit b = i := by
    unfold canfdMaxRxBufElems ndatBit at *
    by_cases hlow : idx < 32
    · exact ⟨i, by omega, by omega, by rw [if_pos hi]⟩
    · exact ⟨i + 32, by omega, by omega, by rw [if_neg (by omega)]; omega⟩
  have hzero : BitVec.getLsbD (0 : BitVec 32) (ndatBit b) = false := BitVec.getLsbD_zero
  rw [BitVec.getLsbD_and, BitVec.getLsbD_not, getLsbD_bit hidx hreg, hzero]
  by_cases hne : b = idx
  · simp [hne]
  · by_contra hbit
    have hr : r.getLsbD (ndatBit b) = true := by
      rw [Bool.not_eq_false] at hbit
      exact (Bool.and_eq_true_iff.mp hbit).1
    obtain ⟨hreceived, -, -, hreturned⟩ := stored_frame s idx m r
    have hcount := hx.count b hb
    have hcount' := hx'.count b hb
    rw [hreceived, hreturned, Function.update_of_ne hne, hcount, hloaded b hb hreg hr,
      RxState.stored, newData_store hidx hb, if_pos hreg, hr] at hcount'
    simp at hcount'

/-- One step keeps the account exactly when the register it stores was loaded with no other
flag. -/
theorem rxStep_exact_iff (hi : RxInv s) (hx : RxExact s) (h : rxStep s ev = some t) :
    RxExact t ↔ LoadedAlone s ev := by
  cases ev with
  | receive idx e =>
    simp only [rxStep, Option.ite_none_right_eq_some, Option.some.injEq] at h
    obtain ⟨⟨hidx, hfree⟩, rfl⟩ := h
    exact iff_of_true (hx.receive hidx hfree) trivial
  | call u8MbIdx old =>
    simp only [rxStep] at h
    split at h
    · split at h
      · obtain rfl := Option.some.inj h
        exact iff_of_true ⟨hx.count, hx.inOrder⟩ trivial
      · obtain rfl := Option.some.inj h
        exact iff_of_true hx trivial
    · simp at h
  | access =>
    obtain ⟨pc, rfl, -, hno⟩ | ⟨idx, m, r, hs, rfl⟩ := access_cases hi h
    · exact iff_of_true ⟨hx.count, hx.inOrder⟩ fun idx m r hs => absurd hs (hno idx m r)
    · have hpc := hi.pcOk
      unfold PcOk at hpc
      rw [hs] at hpc
      obtain ⟨hidx, hflag, hm, hloaded⟩ := hpc
      constructor
      · intro hx' idx' m' r' hs'
        obtain ⟨rfl, rfl, rfl⟩ := ReadPc.store.inj (hs.symm.trans hs')
        exact hx.alone_of_stored hx' hidx hloaded
      · intro halone
        exact hx.stored hidx hflag hm (halone idx m r hs)

theorem leavesOthers_of_alone (hi : RxInv s) (ha : LoadedAlone s ev) : LeavesOthers s ev := by
  cases ev with
  | receive idx e => trivial
  | call u8MbIdx old => trivial
  | access =>
    intro t h b hb hne
    obtain ⟨pc, rfl, -, -⟩ | ⟨idx, m, r, hs, rfl⟩ := access_cases hi h
    · exact absurd rfl hne
    · have hpc := hi.pcOk
      unfold PcOk at hpc
      rw [hs] at hpc
      rw [newData_stored_of_alone hpc.1 hb (ha idx m r hs)] at hne
      have hb' : b = idx := by
        by_contra h
        exact hne (by simp [h])
      exact ⟨m, r, by rw [hs, hb']⟩

end Steps

/-! ## Runs -/

section Runs

variable (ndat1 ndat2 rxbc sysReg : BitVec 32) (elems : Nat → RxElem)

theorem rxStart_received (b : Nat) : (rxStart ndat1 ndat2 rxbc sysReg elems).received b =
    if (rxStart ndat1 ndat2 rxbc sysReg elems).newData b then [elems b] else [] := rfl

theorem rxStart_inv : RxInv (rxStart ndat1 ndat2 rxbc sysReg elems) := by
  refine ⟨fun b _ hflag => ?_, trivial⟩
  refine ⟨[], elems b, by rw [rxStart_received, if_pos hflag]; rfl, fun j hj => ?_⟩
  have haddr : rxBufferAddr rxbc b + 4 * j - rxBufferAddr rxbc 0 = sizeofBuf * b + 4 * j := by
    unfold rxBufferAddr sizeofBuf
    omega
  have hlt : 4 * j < sizeofBuf := by
    unfold sizeofBuf
    omega
  have hpos : 0 < sizeofBuf := by decide
  simp only [rxStart, haddr, Nat.mul_add_mod, Nat.mod_eq_of_lt hlt, Nat.mul_add_div hpos,
    Nat.div_eq_of_lt hlt, Nat.add_zero, Nat.mul_div_cancel_left j (show 0 < 4 by decide)]

theorem rxStart_exact : RxExact (rxStart ndat1 ndat2 rxbc sysReg elems) := by
  constructor
  · intro b _
    have hreturned : (rxStart ndat1 ndat2 rxbc sysReg elems).returned b = [] := rfl
    rw [rxStart_received, hreturned]
    split <;> rfl
  · exact fun b _ => .nil

/-- Every frame is returned once and no other flag is touched exactly in the runs whose calls
load no other flag of the register they store. -/
theorem run_readExactly_iff (es : List RxEvent) :
    Always rxStep RxExact (rxStart ndat1 ndat2 rxbc sysReg elems) es ∧
        EachStep rxStep LeavesOthers (rxStart ndat1 ndat2 rxbc sysReg elems) es ↔
      EachStep rxStep LoadedAlone (rxStart ndat1 ndat2 rxbc sysReg elems) es := by
  have hi := rxStart_inv ndat1 ndat2 rxbc sysReg elems
  have hiff : Always rxStep RxExact (rxStart ndat1 ndat2 rxbc sysReg elems) es ↔
      EachStep rxStep LoadedAlone (rxStart ndat1 ndat2 rxbc sysReg elems) es := always_iff_eachStep
    (fun s ev t hs h => rxStep_inv hs h) (fun s ev t hs hx h => rxStep_exact_iff hs hx h) hi
    (rxStart_exact ndat1 ndat2 rxbc sysReg elems)
  constructor
  · intro h
    exact hiff.1 h.1
  · intro h
    refine ⟨hiff.2 h, ?_⟩
    exact eachStep_of_eachStep
      (fun s ev t hs ha h => ⟨rxStep_inv hs h, leavesOthers_of_alone hs ha⟩) hi h

end Runs

/-- Frames are pending in buffers 0 and 1. -/
def twoPending : RxState := rxStart 3 0 0 0x1000000 fun _ _ => 0

/-- Buffer 0 is read. -/
def readFirst : List RxEvent :=
  [.call 0 fun _ => 0, .access, .access, .access, .access]

/-- Reading buffer 0 acknowledges the frame in buffer 1, which nothing has returned. -/
theorem not_readExactly_twoPending :
    ¬ (Always rxStep RxExact twoPending readFirst ∧
      EachStep rxStep LeavesOthers twoPending readFirst) := by
  rintro ⟨hx, -⟩
  have hrun : (run rxStep twoPending readFirst).map (fun t =>
      ((t.received 1).length, (t.returned 1).length, t.newData 1)) = some (1, 0, false) := by
    decide
  obtain ⟨t, ht, hvals⟩ := Option.map_eq_some_iff.mp hrun
  have hcount := (hx.last ht).count 1 (by decide)
  simp only [Prod.mk.injEq] at hvals
  rw [hvals.1, hvals.2.1, hvals.2.2] at hcount
  simp at hcount

end Ma35d1.CanFd
