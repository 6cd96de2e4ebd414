import Mathlib.Data.BitVec
import Mathlib.Logic.Function.Basic

/-!
# CAN FD message buffers

`CANFD_TransmitDMsg` writes a message into an element of the message RAM and
`CANFD_CopyDBufToMsgBuf` reads an element back. The RAM is a map from byte offsets to the
words that start there; both sides view 16 data words as 64 bytes, lowest byte first.
-/

namespace Ma35d1.CanFd

def canfdMaxTxBufElems : Nat := 32
def canfdSramBaseAddr : Nat := 0x200
/-- `sizeof(CANFD_BUF_T)` -/
def sizeofBuf : Nat := 72

inductive IdType
  | sid | xid
  deriving DecidableEq, Repr

inductive FrmType
  | data | remote
  deriving DecidableEq, Repr

/-- A `CANFD_FD_MSG_T`; the data words are `au8Data` read four at a time. -/
structure FdMsg where
  eIdType : IdType
  eFrmType : FrmType
  u32Id : BitVec 32
  u32DLC : BitVec 32
  au8Data : Nat → BitVec 8
  bFDFormat : Bool
  bBitRateSwitch : Bool
  bErrStaInd : Bool

/-- The registers of a `CANFD_T` that the functions use, and its message RAM. -/
structure Canfd where
  txbrp : BitVec 32
  txbc : BitVec 32
  txbar : BitVec 32
  ram : Nat → BitVec 32

/-- What `CANFD_TransmitDMsg` reads besides. -/
structure Env where
  /-- the word at `SYS_BASE + 0x1F0` -/
  sysReg : BitVec 32
  /-- whether the `n`-th read of `PSR.ACT` is `eCANFD_IDLE` -/
  idle : Nat → Bool
  /-- `SystemCoreClock/100` -/
  timeOutCount : Nat

/-! ## Words and bytes -/

/-- `au32Data[j]` of a union over the bytes `b` -/
def wordAt (b : Nat → BitVec 8) (j : Nat) : BitVec 32 :=
  b (4 * j + 3) ++ b (4 * j + 2) ++ b (4 * j + 1) ++ b (4 * j)

/-- `au8Data[i]` of a union over the words `w` -/
def byteAt (w : Nat → BitVec 32) (i : Nat) : BitVec 8 := (w (i / 4)).extractLsb' (8 * (i % 4)) 8

theorem byteAt_wordAt (b : Nat → BitVec 8) (i : Nat) : byteAt (wordAt b) i = b i := by
  have hi : 4 * (i / 4) + i % 4 = i := Nat.div_add_mod i 4
  have hlt : i % 4 < 4 := Nat.mod_lt i (by decide)
  unfold byteAt wordAt
  generalize i / 4 = j at hi ⊢
  generalize i % 4 = k at hi hlt ⊢
  subst hi
  apply BitVec.eq_of_getLsbD_eq
  intro n hn
  rw [BitVec.getLsbD_extractLsb', BitVec.getLsbD_append, BitVec.getLsbD_append,
    BitVec.getLsbD_append]
  obtain rfl | rfl | rfl | rfl : k = 0 ∨ k = 1 ∨ k = 2 ∨ k = 3 := by omega
  · simp [hn]
  · simp [hn, show ¬ 8 + n < 8 by omega]
  · simp [hn, show ¬ 16 + n < 8 by omega, show ¬ 16 + n - 8 < 8 by omega,
      show 16 + n - 8 - 8 = n by omega]
  · simp [hn, show ¬ 24 + n < 8 by omega, show ¬ 24 + n - 8 < 8 by omega,
      show ¬ 24 + n - 8 - 8 < 8 by omega, show 24 + n - 8 - 8 - 8 = n by omega]

/-! ## Length codes -/

/-- `CANFD_EncodeDLC` -/
def encodeDLC (n : BitVec 8) : BitVec 8 :=
  if n ≤ 8 then n
  else if n ≤ 12 then 9
  else if n ≤ 16 then 10
  else if n ≤ 20 then 11
  else if n ≤ 24 then 12
  else if n ≤ 32 then 13
  else if n ≤ 48 then 14
  else 15

/-- `CANFD_DecodeDLC` -/
def decodeDLC (d : BitVec 8) : BitVec 8 :=
  if d ≤ 8 then d
  else if d = 9 then 12
  else if d = 10 then 16
  else if d = 11 then 20
  else if d = 12 then 24
  else if d = 13 then 32
  else if d = 14 then 48
  else 64

/-! ## Writing a message -/

def elemXtd : BitVec 32 := 0x40000000#32
def elemRtr : BitVec 32 := 0x20000000#32
def elemEsi : BitVec 32 := 0x80000000#32
def elemId : BitVec 32 := 0x1FFFFFFF#32
def elemFdf : BitVec 32 := 0x200000#32
def elemBsr : BitVec 32 := 0x100000#32
def elemDlc : BitVec 32 := 0xF0000#32

/-- The first word of an element. -/
def idWord (m : FdMsg) : BitVec 32 :=
  (match m.eIdType with
    | .xid => elemXtd ||| (m.u32Id &&& elemId)
    | .sid => (m.u32Id &&& 0x7FF#32) <<< 18) |||
  (match m.eFrmType with
    | .remote => elemRtr
    | .data => 0)

/-- The second word of an element. -/
def configWord (m : FdMsg) : BitVec 32 :=
  ((encodeDLC (m.u32DLC.setWidth 8)).setWidth 32 <<< 16) |||
    (if m.bFDFormat then elemFdf else 0) ||| (if m.bBitRateSwitch then elemBsr else 0)

/-- The words the loop of `CANFD_TransmitDMsg` copies. -/
def dataWords (m : FdMsg) : Nat := ((m.u32DLC + 3#32) / 4#32).toNat

/-- The loop, with `n` words to go from word `j` on. -/
def copyWords (m : FdMsg) (a : Nat) : Nat → Nat → (Nat → BitVec 32) → Nat → BitVec 32
  | 0, _, ram => ram
  | n + 1, j, ram =>
    copyWords m a n (j + 1) (Function.update ram (a + 8 + 4 * j) (wordAt m.au8Data j))

/-- The element at byte offset `a` is filled. -/
def writeElem (m : FdMsg) (a : Nat) (ram : Nat → BitVec 32) : Nat → BitVec 32 :=
  copyWords m a (dataWords m) 0
    (Function.update (Function.update ram a (idWord m)) (a + 4) (configWord m))

/-- `psTxBuffer`, as an offset from `psCanfd` -/
def txBufferAddr (c : Canfd) (idx : Nat) : Nat :=
  canfdSramBaseAddr + (c.txbc &&& 0xFFFF#32).toNat + idx * sizeofBuf

/-- Whether the bus is idle before the time is over. -/
def waitIdle (env : Env) : Nat → Nat → Bool
  | 0, n => env.idle n
  | k + 1, n => if env.idle n then true else waitIdle env k (n + 1)

/-- `CANFD_TransmitDMsg` -/
def transmitDMsg (env : Env) (idx : Nat) (m : FdMsg) (c : Canfd) : BitVec 32 × Canfd :=
  if canfdMaxTxBufElems ≤ idx then (0, c)
  else if c.txbrp &&& (1#32 <<< idx) ≠ 0 then (0, c)
  else
    let c := { c with ram := writeElem m (txBufferAddr c idx) c.ram }
    if env.sysReg &&& 0xf000000#32 = 0 ∧ waitIdle env env.timeOutCount 0 = false then (0, c)
    else (1, { c with txbar := 1#32 <<< idx })

/-! ## Reading an element -/

/-- `CANFD_CopyDBufToMsgBuf` for the element at byte offset `a`, into a message with the
data bytes `old` -/
def copyDBufToMsgBuf (ram : Nat → BitVec 32) (a : Nat) (old : Nat → BitVec 8) : FdMsg :=
  let u32Id := ram a
  let u32Config := ram (a + 4)
  let dlc := (decodeDLC (((u32Config &&& elemDlc) >>> 16).setWidth 8)).setWidth 32
  { bErrStaInd := u32Id &&& elemEsi != 0
    u32Id := if u32Id &&& elemXtd ≠ 0 then u32Id &&& elemId else (u32Id >>> 18) &&& 0x7FF#32
    eIdType := if u32Id &&& elemXtd ≠ 0 then .xid else .sid
    eFrmType := if u32Id &&& elemRtr ≠ 0 then .remote else .data
    bFDFormat := u32Config &&& elemFdf != 0
    bBitRateSwitch := u32Config &&& elemBsr != 0
    u32DLC := dlc
    au8Data := fun i => if i < dlc.toNat then byteAt (fun j => ram (a + 8 + 4 * j)) i else old i }

end Ma35d1.CanFd
