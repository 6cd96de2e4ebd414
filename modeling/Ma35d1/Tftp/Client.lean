import Ma35d1.Tftp.Packet

/-!
# The TFTP client

`tftp_thread` asks for one transfer after another. A session is over when `done` is set; the next
one begins with what the variables then hold.
-/

namespace Ma35d1.Tftp

open Ma35d1.Machine.Copy

/-- `TFTP_PORT` -/
def tftpPort : BitVec 16 := 69

/-- The variables of `tftp_thread`, with `c` as `put` and `data` as a place in the file; then the
number of the block that is going on, the blocks that were dumped, the last packet of the session,
whether it ended with "Done", and what the last event sent. -/
structure Client (Addr : Type*) where
  state : State
  serverPort : BitVec 16
  put : Bool
  blk : BitVec 16
  done : Bool
  first : Bool
  data : Nat
  remain : Int
  retry : Int
  index : Nat
  accepted : List Bytes
  last : Option (Packet Addr)
  finished : Bool
  out : List (Packet Addr)

namespace Client

variable {Addr : Type*}

/-- `send_rrq`, `send_wrq` -/
def request (server : Addr) (c : Client Addr) : Packet Addr :=
  if c.put then .wrq server c.serverPort else .rrq server c.serverPort

/-- `send_ack(blk)` -/
def sendAck (server : Addr) (c : Client Addr) : Packet Addr := .ack server c.serverPort c.blk

/-- `send_data(blk, data, MIN(remain, TFTP_BLOCK_LENGTH))`: the length is a `uint16_t`. -/
def sendData (server : Addr) (file : Nat → BitVec 8) (c : Client Addr) : Packet Addr :=
  .data server c.serverPort c.blk
    (copyFrom file c.data (BitVec.ofInt 16 (min c.remain blockLength)).toNat)

/-- A packet of the session goes out. -/
def say (c : Client Addr) (p : Packet Addr) : Client Addr := { c with out := [p], last := some p }

/-- `send_err`, and the session is over. -/
def refuse (server : Addr) (c : Client Addr) (code : Error) : Client Addr :=
  { c with out := [.err server c.serverPort code], state := .idle, done := true }

/-- The variables that are set for each session -/
def reset (c : Client Addr) (put : Bool) : Client Addr :=
  { c with
    blk := 0, done := false, first := true, put := put, state := if put then .wrq else .rrq
    index := 0, accepted := [], finished := false }

/-- A session begins. -/
def select (server : Addr) (c : Client Addr) (put : Bool) : Client Addr :=
  (c.reset put).say ((c.reset put).request server)

/-- The packet after a time-out: the branches for data and acknowledgement -/
def resent (server : Addr) (file : Nat → BitVec 8) (c : Client Addr) : Packet Addr :=
  if c.state = .rrq then if c.first then .rrq server c.serverPort else c.sendData server file
  else if c.first then .wrq server c.serverPort else c.sendAck server

/-- `ERR_TIMEOUT` -/
def timeout (server : Addr) (file : Nat → BitVec 8) (c : Client Addr) : Client Addr :=
  if c.state = .idle then c
  else if maxRetries < c.retry + 1 then { c with retry := 0, state := .idle, done := true }
  else { c with retry := c.retry + 1 }.say (c.resent server file)

/-- The server may have chosen another port. -/
def settle (c : Client Addr) (d : Datagram Addr) : Client Addr :=
  if c.first then { c with serverPort := d.port, first := false } else c

/-- The block is dumped. -/
def dump (c : Client Addr) (d : Datagram Addr) : Client Addr :=
  { c with blk := d.newBlk, index := c.index + 1, accepted := c.accepted ++ [d.blockBytes] }

/-- All done -/
def finish (c : Client Addr) : Client Addr :=
  { c with state := .idle, done := true, finished := true }

/-- The next block has come. -/
def takeBlock (server : Addr) (c : Client Addr) (d : Datagram Addr) : Client Addr :=
  if d.payload.length < blockLength + 4 then
    (((c.settle d).dump d).say (((c.settle d).dump d).sendAck server)).finish
  else ((c.settle d).dump d).say (((c.settle d).dump d).sendAck server)

/-- `TFTP_OPCODE_DATA` -/
def heardData (server : Addr) (c : Client Addr) (d : Datagram Addr) : Client Addr :=
  if c.state ≠ .rrq then c.refuse server .illegalOperation
  else if d.newBlk = c.blk then c.say (c.sendAck server)
  else if d.newBlk.toNat = c.blk.toNat + 1 then c.takeBlock server d
  else c.refuse server .unknownId

/-- The first block is to be sent. -/
def openPut (flen : BitVec 32) (c : Client Addr) (d : Datagram Addr) : Client Addr :=
  { c with
    serverPort := d.port, remain := flen.toInt, data := 0, blk := c.blk + 1, first := false
    index := c.index + 1 }

/-- And the one after it -/
def nextBlock (c : Client Addr) : Client Addr :=
  { c with
    remain := c.remain - blockLength, blk := c.blk + 1, data := c.data + blockLength
    index := c.index + 1 }

/-- `TFTP_OPCODE_ACK` -/
def heardAck (server : Addr) (file : Nat → BitVec 8) (flen : BitVec 32) (c : Client Addr)
    (d : Datagram Addr) : Client Addr :=
  if c.state ≠ .wrq then c.refuse server .illegalOperation
  else if c.first then
    if d.newBlk ≠ 0 then c.refuse server .unknownId
    else (c.openPut flen d).say ((c.openPut flen d).sendData server file)
  else if (d.newBlk.toNat : Int) = c.blk.toNat - 1 then c.say (c.sendData server file)
  else if d.newBlk = c.blk then
    if c.remain - blockLength < 0 then { c with remain := c.remain - blockLength }.finish
    else c.nextBlock.say (c.nextBlock.sendData server file)
  else c.refuse server .unknownId

/-- A datagram, with its opcode read -/
def dispatch [DecidableEq Addr] (server : Addr) (file : Nat → BitVec 8) (flen : BitVec 32)
    (c : Client Addr) (d : Datagram Addr) : Client Addr :=
  if d.addr ≠ server then c
  else if d.op = opcodeData then c.heardData server d
  else if d.op = opcodeAck then c.heardAck server file flen d
  else if d.op = opcodeError then { c with state := .idle, done := true }
  else c.refuse server .illegalOperation

/-- Nothing is sent yet. -/
def quiet (c : Client Addr) : Client Addr := { c with out := [] }

/-- A datagram is there. -/
def heard (c : Client Addr) : Client Addr := { c with out := [], retry := 0 }

/-- Before the first session: `data`, `remain` and `retry` hold anything. -/
def start (data : Nat) (remain retry : Int) : Client Addr :=
  { state := .idle, serverPort := tftpPort, put := false, blk := 0, done := true, first := true
    data := data, remain := remain, retry := retry, index := 0, accepted := [], last := none
    finished := false, out := [] }

/-! ## What is the client's own packet, and what it acts on -/

/-- The last packet of the session: the request, then an acknowledgement or the block -/
def current (server : Addr) (file : Nat → BitVec 8) (c : Client Addr) : Packet Addr :=
  if c.first then c.request server else if c.put then c.sendData server file else c.sendAck server

/-- The client acts on the datagram as on the block or the acknowledgement that it waits for. -/
def Takes (server : Addr) (c : Client Addr) (d : Datagram Addr) : Prop :=
  d.addr = server ∧
    (d.op = opcodeData ∧ c.state = .rrq ∧
        (d.newBlk.toNat = c.blk.toNat + 1 ∨ c.first = true ∧ d.newBlk = c.blk) ∨
      d.op = opcodeAck ∧ c.state = .wrq ∧ d.newBlk = if c.first then 0 else c.blk)

instance [DecidableEq Addr] (server : Addr) (c : Client Addr) (d : Datagram Addr) :
    Decidable (c.Takes server d) := inferInstanceAs (Decidable (_ ∧ (_ ∧ _ ∧ _ ∨ _ ∧ _ ∧ _)))

end Client

end Ma35d1.Tftp
