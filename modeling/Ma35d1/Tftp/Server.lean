import Ma35d1.Machine.Trace
import Ma35d1.Tftp.Packet

/-!
# The TFTP server

`tftp_thread` serves one session at a time: a write, in which it acknowledges the blocks that come,
or a read, in which it sends the blocks of its file. A datagram is checked against the client of the
session in every branch anew.
-/

namespace Ma35d1.Tftp

open Ma35d1.Machine
open Ma35d1.Machine.Copy

/-- The variables of `tftp_thread`, with `data` as a place in the file; then the blocks that were
taken in the last write session, and of the last event what it sent, whether it ended a session with
"Done" and whether it read behind the payload. -/
structure Server (Addr : Type*) where
  state : State
  clientAddr : Addr
  clientPort : BitVec 16
  blk : BitVec 16
  data : Nat
  remain : Int
  retry : Int
  accepted : List Bytes
  out : List (Packet Addr)
  done : Bool
  stray : Bool

inductive ServerEvent (Addr : Type*)
  /-- `netconn_recv` returns `ERR_TIMEOUT` -/
  | timeout (alloc : Bool)
  /-- or another error -/
  | error
  /-- or a datagram; `alloc` and `alloc'` say whether there are buffers for what is sent -/
  | recv (d : Datagram Addr) (alloc alloc' : Bool)

namespace Server

variable {Addr : Type*} [DecidableEq Addr]

/-- A packet goes out if there is a buffer for it. -/
def send (alloc : Bool) (p : Packet Addr) : List (Packet Addr) := if alloc then [p] else []

/-- `send_ack` -/
def sendAck (s : Server Addr) (blk : BitVec 16) : Packet Addr := .ack s.clientAddr s.clientPort blk

/-- `send_data(blk, data, MIN(remain, TFTP_BLOCK_LENGTH))` -/
def sendData (file : Nat → BitVec 8) (s : Server Addr) : Packet Addr :=
  .data s.clientAddr s.clientPort s.blk (copyFrom file s.data (min s.remain blockLength).toNat)

/-- The datagram is from the client of the session. -/
def FromClient (s : Server Addr) (d : Datagram Addr) : Prop :=
  d.port = s.clientPort ∧ d.addr = s.clientAddr

instance (s : Server Addr) (d : Datagram Addr) : Decidable (s.FromClient d) :=
  inferInstanceAs (Decidable (_ ∧ _))

/-- The test of the branches for errors and unknown opcodes -/
def MaybeClient (s : Server Addr) (d : Datagram Addr) : Prop :=
  d.port = s.clientPort ∨ d.addr = s.clientAddr

instance (s : Server Addr) (d : Datagram Addr) : Decidable (s.MaybeClient d) :=
  inferInstanceAs (Decidable (_ ∨ _))

/-- `send_data` -/
def sending (file : Nat → BitVec 8) (s : Server Addr) (alloc : Bool) : Server Addr :=
  { s with out := send alloc (s.sendData file) }

/-- `send_err` to where the datagram came from -/
def refuse (s : Server Addr) (d : Datagram Addr) (alloc : Bool) (code : Error) : Server Addr :=
  { s with out := send alloc (.err d.addr d.port code) }

/-- The first block is to be sent. -/
def openRead (s : Server Addr) (d : Datagram Addr) : Server Addr :=
  { s with
    clientAddr := d.addr, clientPort := d.port, blk := 1, data := 0, remain := fileLen
    state := .rrq }

/-- The first block is to come. -/
def openWrite (s : Server Addr) (d : Datagram Addr) : Server Addr :=
  { s with clientAddr := d.addr, clientPort := d.port, blk := 0, state := .wrq, accepted := [] }

/-- A request -/
def request (file : Nat → BitVec 8) (s : Server Addr) (d : Datagram Addr) (alloc : Bool) :
    Server Addr :=
  if s.state = .idle then
    if d.op = opcodeRrq then (s.openRead d).sending file alloc
    else { s.openWrite d with out := send alloc ((s.openWrite d).sendAck 0) }
  else s.refuse d alloc .accessViolation

/-- The block number is read. -/
def looked (s : Server Addr) (d : Datagram Addr) : Server Addr :=
  { s with stray := s.stray || d.past 2 }

/-- A block that the client writes -/
def writeBlock (s : Server Addr) (d : Datagram Addr) (alloc alloc' : Bool) : Server Addr :=
  if d.newBlk.toNat = s.blk.toNat + 1 then
    { s with
      accepted := s.accepted ++ [d.blockBytes], blk := d.newBlk
      out := send alloc (s.sendAck d.newBlk)
      state := if d.payload.length < blockLength + 4 then .idle else s.state
      done := d.payload.length < blockLength + 4 }
  else
    -- the acknowledgement of a block that was taken before comes first
    { s with
      out := (if d.newBlk = s.blk then send alloc (s.sendAck s.blk) else []) ++
        send alloc' (.err d.addr d.port .unknownId)
      state := .idle }

/-- A block is acknowledged. -/
def acked (s : Server Addr) : Server Addr := { s with remain := s.remain - blockLength }

/-- The next block is to be sent. -/
def nextBlock (s : Server Addr) : Server Addr :=
  { s with blk := s.blk + 1, data := s.data + blockLength }

/-- An acknowledgement of the client that reads -/
def readAck (file : Nat → BitVec 8) (s : Server Addr) (d : Datagram Addr) (alloc : Bool) :
    Server Addr :=
  if (d.newBlk.toNat : Int) = s.blk.toNat - 1 then s.sending file alloc
  else if d.newBlk = s.blk then
    if s.acked.remain < 0 then { s.acked with state := .idle, done := true }
    else s.acked.nextBlock.sending file alloc
  else { s.refuse d alloc .unknownId with state := .idle }

/-- A datagram, with its opcode read -/
def dispatch (file : Nat → BitVec 8) (s : Server Addr) (d : Datagram Addr) (alloc alloc' : Bool) :
    Server Addr :=
  if d.op = opcodeRrq ∨ d.op = opcodeWrq then s.request file d alloc
  else if d.op = opcodeData then
    if s.FromClient d ∧ s.state = .wrq then (s.looked d).writeBlock d alloc alloc'
    else s.refuse d alloc .illegalOperation
  else if d.op = opcodeAck then
    if s.FromClient d ∧ s.state = .rrq then (s.looked d).readAck file d alloc
    else s.refuse d alloc .illegalOperation
  else if d.op = opcodeError then
    if s.MaybeClient d then { s.looked d with state := .idle } else s
  else if s.MaybeClient d then { s.refuse d alloc .illegalOperation with state := .idle }
  else s

/-- A datagram is there. -/
def heard (s : Server Addr) (d : Datagram Addr) : Server Addr :=
  { s with out := [], done := false, retry := 0, stray := d.past 0 }

/-- A time-out -/
def timeout (file : Nat → BitVec 8) (s : Server Addr) (alloc : Bool) : Server Addr :=
  if s.state = .idle then s
  else if maxRetries < s.retry + 1 then { s with retry := 0, state := .idle }
  else if s.state = .rrq then { s.sending file alloc with retry := s.retry + 1 }
  else { s with retry := s.retry + 1, out := send alloc (s.sendAck s.blk) }

/-- Nothing has happened yet. -/
def quiet (s : Server Addr) : Server Addr := { s with out := [], done := false, stray := false }

/-- One round of the loop of `tftp_thread` -/
def step (file : Nat → BitVec 8) (s : Server Addr) : ServerEvent Addr → Option (Server Addr)
  | .timeout alloc => some (s.quiet.timeout file alloc)
  | .error => some s.quiet
  | .recv d alloc alloc' => some ((s.heard d).dispatch file d alloc alloc')

/-- Before the loop: `retry`, `blk`, `data` and `remain` hold anything. -/
def start (clientAddr : Addr) (clientPort blk : BitVec 16) (data : Nat) (remain retry : Int) :
    Server Addr :=
  { state := .idle, clientAddr := clientAddr, clientPort := clientPort, blk := blk, data := data
    remain := remain, retry := retry, accepted := [], out := [], done := false, stray := false }

end Server

end Ma35d1.Tftp
