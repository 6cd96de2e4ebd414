import Mathlib.Algebra.GroupWithZero.Nat
import Mathlib.Data.Option.Basic
import Ma35d1.Machine.Trace

/-!
# Block transfers of the SD host

`SDH_Read` and `SDH_Write` issue a read or write command, let the SDMA engine move the blocks and,
after more than one, issue STOP_TRANSMISSION. An event is one reading of a status register by the
driver, or one thing that the controller or the card does.
-/

namespace Ma35d1.Sdh

/-- `SDH_CMD_DEFAULT_TIMEOUT` -/
def cmdDefaultTimeout : Nat := 100

/-- `SDH_CMD_MAX_TIMEOUT` -/
def cmdMaxTimeout : Nat := 3200

/-- Where `SDH_transfer_data` starts to count -/
def dataTimeout : Nat := 1000000

/-- The SDMA buffer boundary that `BLOCKSIZE_R` asks for -/
def bufBoundary : Nat := 512 * 1024

/-- `SDH_TYPE_UNKNOWN` to `SDH_TYPE_EMMC` -/
inductive CardType
  | unknown
  | sdHigh
  | sdLow
  | mmc
  | emmc
  deriving DecidableEq

/-- The cards whose command argument is a sector, and not a byte -/
def CardType.bySector : CardType → Bool
  | .sdHigh | .emmc => true
  | .unknown | .sdLow | .mmc => false

/-- A call of `SDH_Read` or, with `write`, of `SDH_Write` -/
structure Call where
  write : Bool
  bufAddr : Nat
  startSec : BitVec 32
  secCount : BitVec 32
  deriving DecidableEq

/-- What `XFER_MODE_R` and `BLOCKCOUNT_R` say of a transfer; the block count has 16 bits. -/
structure XferMode where
  multi : Bool
  read : Bool
  blockcount : BitVec 16
  deriving DecidableEq

/-- A command as `CMD_R` and `ARGUMENT_R` have it, with its transfer -/
structure Command where
  cmdidx : Nat
  argument : BitVec 32
  data : Option XferMode
  deriving DecidableEq

/-- `MMC_CMD_STOP_TRANSMISSION` -/
def stopTransmission : Command := ⟨12, 0, none⟩

/-- The command of the call: `MMC_CMD_READ_SINGLE_BLOCK`, `MMC_CMD_READ_MULTIPLE_BLOCK`,
`MMC_CMD_WRITE_SINGLE_BLOCK` or `MMC_CMD_WRITE_MULTIPLE_BLOCK` -/
def Call.command (c : Call) (ty : CardType) : Command where
  cmdidx :=
    if c.write then if c.secCount = 1 then 24 else 25
    else if 1 < c.secCount then 18 else 17
  argument := if ty.bySector then c.startSec else c.startSec * 512
  data := some ⟨decide (1 < c.secCount), !c.write, c.secCount.setWidth 16⟩

/-- The card goes on with it until it is stopped. -/
def Command.isMultiple (c : Command) : Bool := c.cmdidx == 18 || c.cmdidx == 25

/-- Where on the card a command starts, in bytes -/
def Command.cardPos (c : Command) (ty : CardType) : Nat :=
  if ty.bySector then 512 * c.argument.toNat else c.argument.toNat

/-- What the controller moves. A block count is not needed for a single block, and a count of zero
stops at once. -/
def XferMode.bytes (m : XferMode) : Nat := if m.multi then 512 * m.blockcount.toNat else 512

/-- The bits that are looked at: 0, 1, 3 and 15 of `NORMAL_INT_STAT_R`, and bit 0 of
`ERROR_INT_STAT_R` -/
structure IntStat where
  response : Bool
  dataEnd : Bool
  dmaEnd : Bool
  error : Bool
  timeout : Bool
  deriving DecidableEq

def IntStat.cleared : IntStat := ⟨false, false, false, false, false⟩

/-- A transfer of the controller: what is left of it, where it is on the card and in memory, and
whether it waits at a boundary -/
structure Xfer where
  read : Bool
  left : Nat
  pos : Nat
  addr : Nat
  paused : Bool
  deriving DecidableEq

/-- A byte that has been moved, from the card when `read` -/
structure Moved where
  read : Bool
  pos : Nat
  addr : Nat
  deriving DecidableEq

/-- Where the driver is: in no call; before a reading of `PSTATE_REG`, for the command or for the
stop command; before a reading of `NORMAL_INT_STAT_R` in `SDH_send_command` or in
`SDH_transfer_data`; or before the resets. -/
inductive Pc
  | idle
  | inhibit (stop : Bool) (time cmdTimeout : Nat)
  | command (stop : Bool) (cmdTimeout : Nat)
  | data (timeout startAddr : Nat)
  | failed
  deriving DecidableEq

/-- The driver, the controller and the card, and what the last call has done: the bytes it has
moved, the addresses it has programmed, whether the card has accepted a command for several blocks,
and whether STOP_TRANSMISSION has been issued. -/
structure Host where
  pc : Pc
  call : Call
  ret : Option Int
  stat : IntStat
  sdmasa : Nat
  pending : Option Command
  answering : Bool
  xfer : Option Xfer
  cardBusy : Bool
  moved : List Moved
  programmed : List Nat
  accepted : Bool
  stopped : Bool
  deriving DecidableEq

/-! ## The driver -/

def Host.return (s : Host) (ret : Int) : Host := { s with pc := .idle, ret := some ret }

/-- `SDH_Read` and `SDH_Write` up to the first command -/
def Host.begin (s : Host) (c : Call) : Host :=
  let s := { s with call := c, moved := [], programmed := [], accepted := false, stopped := false }
  if c.write = true ∧ c.secCount = 0 then s.return 0
  else { s with pc := .inhibit false 0 cmdDefaultTimeout }

/-- `SDH_send_command` behind its wait: the status is cleared and the command is written. -/
def Host.issue (s : Host) (ty : CardType) (stop : Bool) : Host :=
  let s := { s with
    stat := .cleared, answering := false, pc := .command stop cmdDefaultTimeout }
  if stop then { s with pending := some stopTransmission, stopped := true }
  else { s with
    sdmasa := s.call.bufAddr % 2 ^ 32
    programmed := s.programmed ++ [s.call.bufAddr % 2 ^ 32]
    pending := some (s.call.command ty) }

/-- A reading of `PSTATE_REG`; for the stop command the data inhibit is not looked at. -/
def Host.readPstate (s : Host) (ty : CardType) (cmdInhibit datInhibit : Bool) : Option Host :=
  match s.pc with
  | .inhibit stop time cmdTimeout =>
    if cmdInhibit || (datInhibit && !stop) then
      if cmdTimeout ≤ time then
        if 2 * cmdTimeout ≤ cmdMaxTimeout then
          some { s with pc := .inhibit stop (time + 1) (cmdTimeout + cmdTimeout) }
        else some (s.return (-3))
      else some { s with pc := .inhibit stop (time + 1) cmdTimeout }
    else some (s.issue ty stop)
  | _ => none

/-- The next boundary: `start_addr &= ~(512*1024 - 1); start_addr += 512*1024` -/
def nextBoundary (startAddr : Nat) : Nat := startAddr / bufBoundary * bufBoundary + bufBoundary

/-- `SDMASA_R` is written at a boundary, and the transfer goes on there. -/
def Host.resume (s : Host) (addr : Nat) : Host :=
  { s with
    stat := { s.stat with dmaEnd := false }
    sdmasa := addr % 2 ^ 32
    programmed := s.programmed ++ [addr % 2 ^ 32]
    xfer := s.xfer.map fun x => { x with addr := addr % 2 ^ 32, paused := false } }

/-- The data are there; what follows is STOP_TRANSMISSION or the return. -/
def Host.dataDone (s : Host) : Host :=
  let s := { s with stat := .cleared }
  if 1 < s.call.secCount then { s with pc := .inhibit true 0 cmdDefaultTimeout } else s.return 0

/-- A reading of `NORMAL_INT_STAT_R` -/
def Host.poll (s : Host) : Option Host :=
  match s.pc with
  | .command stop cmdTimeout =>
    if s.stat.error then some { s with pc := .failed }
    -- this return leaves the command and the transfer to themselves
    else if cmdTimeout = 0 then some (s.return (-2))
    else if s.stat.response then
      if stop then some ({ s with stat := .cleared }.return 0)
      else some { s with
        stat := { s.stat with response := false }, pc := .data dataTimeout s.call.bufAddr }
    else some { s with pc := .command stop (cmdTimeout - 1) }
  | .data timeout startAddr =>
    if s.stat.error then some { s with pc := .failed }
    else
      let startAddr' := if s.stat.dmaEnd then nextBoundary startAddr else startAddr
      let s' := if s.stat.dmaEnd then s.resume startAddr' else s
      if timeout = 0 then some { s' with pc := .failed }
      else if s.stat.dataEnd then some s'.dataDone
      else some { s' with pc := .data (timeout - 1) startAddr' }
  | _ => none

/-- The end of `SDH_send_command` after an error: the status is read and cleared, and the two resets
follow, each of which may time out. -/
def Host.reset (s : Host) (cmd dat : Bool) : Option Host :=
  match s.pc with
  | .failed =>
    let s' := { s with
      stat := .cleared
      pending := if cmd then none else s.pending
      answering := s.answering && !cmd
      xfer := if dat then none else s.xfer }
    some (s'.return (if s.stat.timeout then -2 else -1))
  | _ => none

/-! ## The controller and the card -/

/-- The card takes the command; in the middle of a multi-block command it only takes the stop. -/
def Host.accept (s : Host) (ty : CardType) : Option Host :=
  match s.pending with
  | none => none
  | some c =>
    let s' := { s with pending := none, answering := true }
    match c.data with
    | none => some { s' with cardBusy := false }
    | some m =>
      if s.cardBusy then none
      else some { s' with
        cardBusy := c.isMultiple
        accepted := s.accepted || c.isMultiple
        xfer := some ⟨m.read, m.bytes, c.cardPos ty, s.sdmasa, false⟩ }

/-- One byte is moved. At a boundary the transfer waits and says so; at its very end it may too. -/
def Host.move (s : Host) (reported : Bool) : Option Host :=
  match s.xfer with
  | none => none
  | some x =>
    if x.paused = false ∧ 0 < x.left then
      let boundary := decide ((x.addr + 1) % bufBoundary = 0)
      some { s with
        moved := s.moved ++ [⟨x.read, x.pos, x.addr⟩]
        xfer := some { x with
          left := x.left - 1, pos := x.pos + 1, addr := x.addr + 1
          paused := boundary && decide (1 < x.left) }
        stat := { s.stat with
          dmaEnd := s.stat.dmaEnd || (boundary && (decide (1 < x.left) || reported)) } }
    else none

/-- The transfer is complete. -/
def Host.complete (s : Host) : Option Host :=
  match s.xfer with
  | none => none
  | some x =>
    if x.left = 0 then some { s with xfer := none, stat := { s.stat with dataEnd := true } }
    else none

inductive Event
  | call (c : Call)
  | pstate (cmdInhibit datInhibit : Bool)
  | poll
  | reset (cmd dat : Bool)
  /-- the card takes the command -/
  | accept
  /-- its response is there -/
  | respond
  | move (reported : Bool)
  | complete
  /-- an error is raised -/
  | error (timeout : Bool)
  deriving DecidableEq

def sdhStep (ty : CardType) (s : Host) : Event → Option Host
  | .call c => if s.pc = .idle then some (s.begin c) else none
  | .pstate cmdInhibit datInhibit => s.readPstate ty cmdInhibit datInhibit
  | .poll => s.poll
  | .reset cmd dat => s.reset cmd dat
  | .accept => s.accept ty
  | .respond =>
    if s.answering then
      some { s with answering := false, stat := { s.stat with response := true } }
    else none
  | .move reported => s.move reported
  | .complete => s.complete
  | .error timeout =>
    some { s with stat := { s.stat with error := true, timeout := s.stat.timeout || timeout } }

/-- Before the first call, with any status -/
def opened (stat : IntStat) (sdmasa : Nat) : Host where
  pc := .idle
  call := ⟨true, 0, 0, 0⟩
  ret := none
  stat := stat
  sdmasa := sdmasa
  pending := none
  answering := false
  xfer := none
  cardBusy := false
  moved := []
  programmed := []
  accepted := false
  stopped := false

/-! ## What is asked of a call -/

/-- The bytes of a call -/
def Call.total (c : Call) : Nat := 512 * c.secCount.toNat

/-- The `k`-th of them -/
def Call.byte (c : Call) (k : Nat) : Moved :=
  ⟨!c.write, 512 * c.startSec.toNat + k, c.bufAddr + k⟩

/-- The buffer, and then the boundaries behind it -/
def segment (buf : Nat) : Nat → Nat
  | 0 => buf
  | k + 1 => (buf / bufBoundary + (k + 1)) * bufBoundary

/-- The bytes are moved in order, from or to where they belong; the addresses that are programmed
are the buffer and consecutive boundaries in it. A call that returns zero has moved all bytes, and
the addresses cover them; and one whose multi-block command the card has accepted has issued
STOP_TRANSMISSION. -/
structure TransferLaw (s : Host) : Prop where
  moved : ∃ n ≤ s.call.total, s.moved = (List.range n).map s.call.byte
  programmed : ∃ m, s.programmed = (List.range m).map (fun k => segment s.call.bufAddr k % 2 ^ 32) ∧
    ∀ k < m, segment s.call.bufAddr k ≤ s.call.bufAddr + s.call.total
  truthful : s.pc = .idle → s.ret = some 0 →
    s.moved.length = s.call.total ∧
      s.call.bufAddr + s.call.total ≤ segment s.call.bufAddr s.programmed.length
  stopped : s.pc = .idle → s.accepted = true → s.stopped = true

/-- The arguments with which a call moves what it is asked for -/
def Call.Fits (c : Call) (ty : CardType) : Prop :=
  (c.write = true ∧ c.secCount = 0) ∨
  (0 < c.secCount.toNat ∧ c.secCount.toNat < 2 ^ 16 ∧
    (ty.bySector = true ∨ c.startSec.toNat * 512 < 2 ^ 32) ∧ c.bufAddr + c.total ≤ 2 ^ 32)

instance (c : Call) (ty : CardType) : Decidable (c.Fits ty) :=
  inferInstanceAs (Decidable (_ ∨ _))

/-- The card has accepted a multi-block command and has not been told to stop. -/
def Host.Owes (s : Host) : Prop := s.accepted = true ∧ s.stopped = false

instance (s : Host) : Decidable s.Owes := inferInstanceAs (Decidable (_ ∧ _))

/-- The driver gives up when this reading does not end the wait. -/
def Pc.isLastTry : Pc → Bool
  | .inhibit _ time cmdTimeout =>
    decide (cmdTimeout ≤ time) && decide (cmdMaxTimeout < 2 * cmdTimeout)
  | .command _ cmdTimeout => cmdTimeout == 0
  | .data timeout _ => timeout == 0
  | .idle | .failed => false

/-- The driver waits for the response to the command of its call. -/
def Pc.isCommand : Pc → Bool
  | .command stop _ => !stop
  | _ => false

/-- A call has arguments that fit, and the controller is done with the call before; and from when
the card accepts a multi-block command, which it does while the driver waits for the response, until
STOP_TRANSMISSION is issued, the driver sees no error and does not give up. -/
def TransferKept (ty : CardType) (s : Host) : Event → Prop
  | .call c => c.Fits ty ∧ s.pending = none ∧ s.answering = false ∧ s.xfer = none
  | .pstate cmdInhibit _ => s.Owes → cmdInhibit = true → s.pc.isLastTry = false
  | .poll => s.Owes → s.stat.error = false ∧ s.pc.isLastTry = false
  | .accept => ∀ c ∈ s.pending, c.isMultiple = true → s.pc.isCommand = true
  | _ => True

instance (ty : CardType) (s : Host) (e : Event) : Decidable (TransferKept ty s e) :=
  match e with
  | .call _ => inferInstanceAs (Decidable (_ ∧ _ ∧ _ ∧ _))
  | .pstate _ _ => inferInstanceAs (Decidable (s.Owes → _ → _))
  | .poll => inferInstanceAs (Decidable (s.Owes → _))
  | .accept => inferInstanceAs (Decidable (∀ c ∈ s.pending, c.isMultiple = true → _))
  | .reset .. | .respond | .move _ | .complete | .error _ => .isTrue trivial

end Ma35d1.Sdh
