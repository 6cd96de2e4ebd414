import Ma35d1.Machine.Trace
import Ma35d1.Tftp.Client

/-!
# The client, a server and the network between them

The server follows the protocol in lockstep: it sends the block after the last one acknowledged, and
acknowledges the blocks it takes in order. Whatever was sent may arrive any number of times, late or
never, and other datagrams may come at any time.
-/

namespace Ma35d1.Tftp

open Ma35d1.Machine

/-- The server's side of a session: the file that it serves and how many of its blocks were
acknowledged, or the blocks that it has taken -/
structure Peer where
  put : Bool
  port : BitVec 16
  file : Nat → BitVec 8
  len : Nat
  turn : Nat
  taken : List Bytes

/-- What the client has sent: in which session, and on behalf of which block -/
structure Sent (Addr : Type*) where
  session : Nat
  index : Nat
  packet : Packet Addr
  deriving DecidableEq

structure Network (Addr : Type*) where
  client : Client Addr
  session : Nat
  wire : List (Sent Addr)
  peer : Nat → Option Peer
  /-- the direction and the port of the sessions that were answered -/
  answered : List (Bool × BitVec 16)

inductive NetEvent (Addr : Type*)
  /-- the user chooses -/
  | select (put : Bool)
  /-- `netconn_recv` returns `ERR_TIMEOUT` -/
  | timeout
  /-- or another error -/
  | error
  /-- or a datagram that is not of the protocol -/
  | stray (d : Datagram Addr)
  /-- or block `j` of session `n`, or the acknowledgement of block `j` -/
  | data (n j : Nat)
  | ack (n j : Nat)
  /-- the server takes the request of session `n`, an acknowledgement, or a block -/
  | serve (n : Nat) (put : Bool) (port : BitVec 16) (file : Nat → BitVec 8) (len : Nat)
  | serverAck (n : Nat)
  | serverData (n : Nat) (bytes : Bytes)

/-- Two bytes, the high one first -/
def bytesOf (n : BitVec 16) : Bytes := [n.extractLsb' 8 8, n.extractLsb' 0 8]

namespace Peer

variable {Addr : Type*}

/-- Block `j` on its way -/
def dataOf (server : Addr) (p : Peer) (j : Nat) : Datagram Addr :=
  { addr := server, port := p.port
    payload := bytesOf opcodeData ++ (bytesOf (BitVec.ofNat 16 j) ++ blockOf p.file p.len j)
    behind := fun _ => 0 }

/-- The acknowledgement of block `j` -/
def ackOf (server : Addr) (p : Peer) (j : Nat) : Datagram Addr :=
  { addr := server, port := p.port
    payload := bytesOf opcodeAck ++ bytesOf (BitVec.ofNat 16 j)
    behind := fun _ => 0 }

/-- The server has sent block `j`. -/
def HasSent (p : Peer) (j : Nat) : Prop :=
  p.put = false ∧ 1 ≤ j ∧ j ≤ p.turn + 1 ∧ j ≤ blocks p.len

instance (p : Peer) (j : Nat) : Decidable (p.HasSent j) :=
  inferInstanceAs (Decidable (_ ∧ _ ∧ _ ∧ _))

/-- The server has acknowledged block `j`, or the request. -/
def HasTaken (p : Peer) (j : Nat) : Prop := p.put = true ∧ j ≤ p.taken.length

instance (p : Peer) (j : Nat) : Decidable (p.HasTaken j) := inferInstanceAs (Decidable (_ ∧ _))

end Peer

namespace Network

variable {Addr : Type*} [DecidableEq Addr]

/-- The client goes on, and what it sends is on its way. -/
def post (s : Network Addr) (c : Client Addr) : Network Addr :=
  { s with
    client := c
    wire := s.wire ++ c.out.map (Sent.mk s.session c.index)
    answered := if s.client.first && !c.first then s.answered ++ [(c.put, c.serverPort)]
      else s.answered }

/-- `netconn_recv` returns in a session. -/
def received (server : Addr) (file : Nat → BitVec 8) (flen : BitVec 32) (s : Network Addr)
    (d : Datagram Addr) : Option (Network Addr) :=
  if s.client.done then none else some (s.post (s.client.heard.dispatch server file flen d))

/-- The server goes on in session `n`. -/
def peered (s : Network Addr) (n : Nat) (p : Peer) : Network Addr :=
  { s with client := s.client.quiet, peer := Function.update s.peer n (some p) }

/-- The request of session `n` -/
def requestOf (server : Addr) (n : Nat) (put : Bool) : Sent Addr :=
  ⟨n, 0, if put then .wrq server tftpPort else .rrq server tftpPort⟩

/-- The server's side of session `n` begins. -/
def serve (server : Addr) (s : Network Addr) (n : Nat) (p : Peer) : Option (Network Addr) :=
  if s.peer n = none ∧ requestOf server n p.put ∈ s.wire then
    some (s.peered n p)
  else none

/-- The server hears the acknowledgement of the block it has sent. -/
def serverAck (server : Addr) (s : Network Addr) (n : Nat) (p : Peer) : Option (Network Addr) :=
  if p.put = false ∧
      ⟨n, p.turn + 1, .ack server p.port (BitVec.ofNat 16 (p.turn + 1))⟩ ∈ s.wire then
    some (s.peered n { p with turn := p.turn + 1 })
  else none

/-- The server takes the next block. -/
def serverData (server : Addr) (s : Network Addr) (n : Nat) (p : Peer) (bytes : Bytes) :
    Option (Network Addr) :=
  if p.put = true ∧ ⟨n, p.taken.length + 1,
      .data server p.port (BitVec.ofNat 16 (p.taken.length + 1)) bytes⟩ ∈ s.wire then
    some (s.peered n { p with taken := p.taken ++ [bytes] })
  else none

/-- What an event leads to -/
def step (server : Addr) (file : Nat → BitVec 8) (flen : BitVec 32) (s : Network Addr) :
    NetEvent Addr → Option (Network Addr)
  | .select put =>
    if s.client.done then
      some ({ s with session := s.session + 1 }.post (s.client.quiet.select server put))
    else none
  | .timeout =>
    if s.client.done then none else some (s.post (s.client.quiet.timeout server file))
  | .error => if s.client.done then none else some (s.post s.client.quiet)
  | .stray d => s.received server file flen d
  | .data n j =>
    (s.peer n).bind fun p =>
      if p.HasSent j then s.received server file flen (p.dataOf server j) else none
  | .ack n j =>
    (s.peer n).bind fun p =>
      if p.HasTaken j then s.received server file flen (p.ackOf server j) else none
  | .serve n put port file len => s.serve server n ⟨put, port, file, len, 0, []⟩
  | .serverAck n => (s.peer n).bind fun p => s.serverAck server n p
  | .serverData n bytes => (s.peer n).bind fun p => s.serverData server n p bytes

/-- Before the first session -/
def start (data : Nat) (remain retry : Int) : Network Addr :=
  { client := .start data remain retry, session := 0, wire := [], peer := fun _ => none
    answered := [] }

end Network

end Ma35d1.Tftp
