import Mathlib.Data.BitVec
import Mathlib.Data.List.Basic

/-!
# Transfers of an I2C master

The multi-byte functions of the driver share one loop: wait until the controller holds the bus in
a new state, do what the status code asks for, and write the control word. The word stays in
`u8Ctrl` from one round to the next. A wait that times out ends the loop, but not before the
round is finished with whatever the status register then shows.
-/

namespace Ma35d1.I2c

abbrev Byte := BitVec 8

/-! ## The controller and the bus -/

/-- The codes of `STATUS0` that the functions tell apart. -/
inductive Status
  /-- 0x08 -/
  | started
  /-- 0x18 and 0x20: the address, for writing -/
  | slawAck | slawNack
  /-- 0x28 and 0x30: a byte of data that was sent -/
  | dataAck | dataNack
  /-- 0x38 -/
  | arbLost
  /-- 0x40 and 0x48: the address, for reading -/
  | slarAck | slarNack
  /-- 0x50 and 0x58: a byte that was received, and acknowledged or not -/
  | rxAck | rxNack
  /-- any other code; 0xF8 while there is no new state -/
  | other
  deriving DecidableEq

/-- What keeps the bus from doing as it is told: another master, or an error of the bus. -/
inductive Trouble
  | lost | error
  deriving DecidableEq

def Trouble.status : Trouble → Status
  | lost => .arbLost
  | error => .other

/-- An answer of the bus, and when it is there: after so many reads that do not find it, or
never. -/
structure Answer (α : Type) where
  after : Option Nat
  what : Except Trouble α

/-- How the bus behaves in one transfer. -/
structure Behaviour where
  /-- to the START condition -/
  start : Answer Unit
  /-- to each byte that is put on the bus: whether the slave acknowledges it -/
  ack : Nat → Answer Bool
  /-- to each byte that is asked for: what the slave sends -/
  send : Nat → Answer Byte
  /-- when the STOP condition is over -/
  stopped : Option Nat

/-- What the controller is doing. -/
inductive Phase
  | idle
  | starting
  | addressing
  | transmitting
  | receiving (aa : Bool)
  /-- The SI flag is set, and the bus waits. -/
  | held (s : Status)
  deriving DecidableEq

/-- `I2C_T`, with what this transfer has done on the bus. -/
structure I2cT where
  phase : Phase
  dat : Byte
  sto : Bool
  sent : List Byte
  acks : List Bool
  got : List (Byte × Bool)
  /-- A STOP has been requested. -/
  stop : Bool
  deriving DecidableEq

namespace I2cT

def new (dat : Byte) : I2cT :=
  { phase := .idle, dat := dat, sto := false, sent := [], acks := [], got := [], stop := false }

/-- `I2C_START` -/
def start (c : I2cT) : I2cT := { c with phase := .starting }

/-- `I2C_SET_DATA` -/
def setData (c : I2cT) (b : Byte) : I2cT := { c with dat := b }

/-- `I2C_GET_STATUS` -/
def status (c : I2cT) : Status :=
  match c.phase with
  | .held s => s
  | _ => .other

/-- The SI flag has been cleared: the controller goes on with the state it is in. -/
def resume (c : I2cT) (aa : Bool) : I2cT :=
  match c.phase with
  | .held .started => { c with sto := false, sent := c.sent ++ [c.dat], phase := .addressing }
  | .held .slawAck => { c with sto := false, sent := c.sent ++ [c.dat], phase := .transmitting }
  | .held .dataAck => { c with sto := false, sent := c.sent ++ [c.dat], phase := .transmitting }
  | .held .slarAck => { c with sto := false, phase := .receiving aa }
  | .held .rxAck => { c with sto := false, phase := .receiving aa }
  | .held _ => { c with sto := false, phase := .idle }
  | _ => { c with sto := false }

/-- `I2C_SET_CONTROL_REG`: the bits AA, SI, STO and STA of `CTL0` become those of the word. -/
def setControlReg (c : I2cT) (u8Ctrl : Byte) : I2cT :=
  if u8Ctrl.getLsbD 4 then { c with sto := true, stop := true, phase := .idle }
  else if u8Ctrl.getLsbD 3 then c.resume (u8Ctrl.getLsbD 2)
  else { c with sto := false }

/-- When the next state is entered. -/
def pending (w : Behaviour) (c : I2cT) : Option Nat :=
  match c.phase with
  | .idle => none
  | .starting => w.start.after
  | .addressing => (w.ack c.acks.length).after
  | .transmitting => (w.ack c.acks.length).after
  | .receiving _ => (w.send c.got.length).after
  | .held _ => some 0

/-- The state is one of trouble. -/
def trouble (c : I2cT) (t : Trouble) : I2cT := { c with phase := .held t.status }

/-- The next state is entered. -/
def enter (w : Behaviour) (c : I2cT) : I2cT :=
  match c.phase with
  | .idle => c
  | .starting =>
    match w.start.what with
    | .ok _ => { c with phase := .held .started }
    | .error t => c.trouble t
  | .addressing =>
    match (w.ack c.acks.length).what with
    | .ok a =>
      -- bit 0 of the address is the direction
      let s := if c.dat.getLsbD 0 then (if a then .slarAck else .slarNack)
        else (if a then .slawAck else .slawNack)
      { c with phase := .held s, acks := c.acks ++ [a] }
    | .error t => c.trouble t
  | .transmitting =>
    match (w.ack c.acks.length).what with
    | .ok a => { c with phase := .held (if a then .dataAck else .dataNack), acks := c.acks ++ [a] }
    | .error t => c.trouble t
  | .receiving aa =>
    match (w.send c.got.length).what with
    | .ok b =>
      { c with
        phase := .held (if aa then .rxAck else .rxNack), dat := b, got := c.got ++ [(b, aa)] }
    | .error t => c.trouble t
  | .held _ => c

end I2cT

/-! ## The driver -/

/-- `I2C_CTL_SI` -/
def ctlSi : Byte := 0x08

/-- `I2C_CTL_SI_AA` -/
def ctlSiAa : Byte := 0x0c

/-- `I2C_CTL_STO_SI` -/
def ctlStoSi : Byte := 0x18

/-- `I2C_ERR_TIMEOUT` -/
def errTimeout : Int := -2

/-- The local variables of a call, the indices of `data` that it has read, what `rdata` points to,
and `g_I2C_i32ErrCode`. -/
structure Call where
  xfering : Bool
  err : Bool
  addr : Bool
  ctrl : Byte
  len : BitVec 32
  reads : List Nat
  rdata : Nat → Byte
  errCode : Int

def Call.new (rdata : Nat → Byte) : Call :=
  { xfering := true, err := false, addr := true, ctrl := 0, len := 0, reads := [], rdata := rdata,
    errCode := 0 }

/-- The loop `while(..) if(--u32TimeOutCount == 0) break;` on a condition that is over after `n`
reads: whether it gives up, and how many reads are left. -/
def poll : BitVec 32 → Nat → Bool × Nat
  | _, 0 => (false, 0)
  | count, n + 1 => if count - 1 = 0 then (true, n) else poll (count - 1) n

/-- `I2C_WAIT_READY`, and what the controller shows where `STATUS0` is read next. -/
def waitReady (timeOut : BitVec 32) (w : Behaviour) (c : I2cT) : Bool × I2cT :=
  match c.pending w with
  | none => (true, c)
  | some n =>
    let (gaveUp, left) := poll timeOut n
    (gaveUp, if left = 0 then c.enter w else c)

/-- The body of `switch(I2C_GET_STATUS(i2c))` -/
abbrev Switch := Status → Call → I2cT → Call × I2cT

/-- The default branch, the same in every function: the STOP is requested at once, and the word
that is written after it has no STO. -/
def unknownStatus (x : Call) (c : I2cT) : Call × I2cT :=
  ({ x with ctrl := ctlSi, err := true }, c.setControlReg ctlStoSi)

/-- A NACK, the same in every function. -/
def nack (x : Call) (c : I2cT) : Call × I2cT := ({ x with ctrl := ctlStoSi, err := true }, c)

/-- `I2C_SET_DATA(i2c, data[u32txLen++])` -/
def putData (data : Nat → Byte) (x : Call) (c : I2cT) : Call × I2cT :=
  ({ x with len := x.len + 1, reads := x.reads ++ [x.len.toNat] }, c.setData (data x.len.toNat))

/-- `rdata[u32rxLen++] = I2C_GET_DATA(i2c)` -/
def getData (x : Call) (c : I2cT) : Call :=
  { x with len := x.len + 1, rdata := fun i => if i = x.len.toNat then c.dat else x.rdata i }

/-- The switch on the status that is shown, and the control word. -/
def act (sw : Switch) (x : Call) (c : I2cT) : Call × I2cT :=
  let (x, c) := sw c.status x c
  (x, c.setControlReg x.ctrl)

/-- What a time-out sets before the loop of the wait is left. -/
def Call.timedOut (x : Call) : Call := { x with errCode := errTimeout, err := true }

/-- One round of the loop. -/
def round (timeOut : BitVec 32) (w : Behaviour) (sw : Switch) (x : Call) (c : I2cT) : Call × I2cT :=
  let (gaveUp, c) := waitReady timeOut w c
  act sw (if gaveUp then x.timedOut else x) c

/-- The wait for the end of the STOP condition. -/
def finish (timeOut : BitVec 32) (w : Behaviour) (x : Call) (c : I2cT) : Call :=
  if c.sto then
    match w.stopped with
    | none => { x with errCode := errTimeout }
    | some n => if (poll timeOut n).1 then { x with errCode := errTimeout } else x
  else x

/-- The loop, for so many rounds at most. -/
def transfer (timeOut : BitVec 32) (w : Behaviour) (sw : Switch) :
    Nat → Call → I2cT → Option (Call × I2cT)
  | 0, _, _ => none
  | n + 1, x, c =>
    if x.xfering = true ∧ x.err = false then
      let (x, c) := round timeOut w sw x c
      transfer timeOut w sw n x c
    else some (finish timeOut w x c, c)

/-- The switch of `I2C_WriteMultiBytes` -/
def writeSwitch (slaveAddr : Byte) (data : Nat → Byte) (wLen : BitVec 32) : Switch
  | .started, x, c => ({ x with ctrl := ctlSi }, c.setData (slaveAddr <<< 1 ||| 0))
  | .slawAck, x, c | .dataAck, x, c =>
    if x.len < wLen then putData data x c else ({ x with ctrl := ctlStoSi, xfering := false }, c)
  | .slawNack, x, c | .dataNack, x, c => nack x c
  | _, x, c => unknownStatus x c

/-- The switch of `I2C_WriteMultiBytesOneReg` -/
def writeOneRegSwitch (slaveAddr dataAddr : Byte) (data : Nat → Byte) (wLen : BitVec 32) : Switch
  | .started, x, c => ({ x with ctrl := ctlSi }, c.setData (slaveAddr <<< 1 ||| 0))
  | .slawAck, x, c => (x, c.setData dataAddr)
  | .slawNack, x, c | .dataNack, x, c => nack x c
  | .dataAck, x, c =>
    if x.len < wLen then putData data x c else ({ x with ctrl := ctlStoSi, xfering := false }, c)
  | _, x, c => unknownStatus x c

/-- The switch of `I2C_WriteMultiBytesTwoRegs` -/
def writeTwoRegsSwitch (slaveAddr : Byte) (dataAddr : BitVec 16) (data : Nat → Byte)
    (wLen : BitVec 32) : Switch
  | .started, x, c => ({ x with ctrl := ctlSi }, c.setData (slaveAddr <<< 1 ||| 0))
  | .slawAck, x, c => (x, c.setData (((dataAddr &&& 0xff00) >>> 8).setWidth 8))
  | .slawNack, x, c | .dataNack, x, c => nack x c
  | .dataAck, x, c =>
    if x.addr = true then ({ x with addr := false }, c.setData ((dataAddr &&& 0xff).setWidth 8))
    else if x.len < wLen ∧ x.addr = false then putData data x c
    else ({ x with ctrl := ctlStoSi, xfering := false }, c)
  | _, x, c => unknownStatus x c

/-- The switch of `I2C_ReadMultiBytes`; `u32rLen - 1u` is one of words. -/
def readSwitch (slaveAddr : Byte) (rLen : BitVec 32) : Switch
  | .started, x, c => ({ x with ctrl := ctlSi }, c.setData (slaveAddr <<< 1 ||| 1))
  | .slarAck, x, c => ({ x with ctrl := ctlSiAa }, c)
  | .slarNack, x, c => nack x c
  | .rxAck, x, c =>
    let x := getData x c
    ({ x with ctrl := if x.len < rLen - 1 then ctlSiAa else ctlSi }, c)
  | .rxNack, x, c => ({ getData x c with ctrl := ctlStoSi, xfering := false }, c)
  | _, x, c => unknownStatus x c

section Functions

variable (timeOut : BitVec 32) (w : Behaviour) (dat : Byte) (slaveAddr : Byte)

/-- `I2C_WriteMultiBytes` -/
def writeMultiBytes (data : Nat → Byte) (wLen : BitVec 32) (n : Nat) : Option (Call × I2cT) :=
  transfer timeOut w (writeSwitch slaveAddr data wLen) n (Call.new data) (I2cT.new dat).start

/-- `I2C_WriteMultiBytesOneReg` -/
def writeMultiBytesOneReg (dataAddr : Byte) (data : Nat → Byte) (wLen : BitVec 32) (n : Nat) :
    Option (Call × I2cT) :=
  transfer timeOut w (writeOneRegSwitch slaveAddr dataAddr data wLen) n (Call.new data)
    (I2cT.new dat).start

/-- `I2C_WriteMultiBytesTwoRegs` -/
def writeMultiBytesTwoRegs (dataAddr : BitVec 16) (data : Nat → Byte) (wLen : BitVec 32) (n : Nat) :
    Option (Call × I2cT) :=
  transfer timeOut w (writeTwoRegsSwitch slaveAddr dataAddr data wLen) n (Call.new data)
    (I2cT.new dat).start

/-- `I2C_ReadMultiBytes` -/
def readMultiBytes (rdata : Nat → Byte) (rLen : BitVec 32) (n : Nat) : Option (Call × I2cT) :=
  transfer timeOut w (readSwitch slaveAddr rLen) n (Call.new rdata) (I2cT.new dat).start

end Functions

end Ma35d1.I2c
