import Mathlib.Data.BitVec
import Ma35d1.Dhcp.Packet

/-!
# The DHCP client

`dhcp_start` sends DISCOVER and REQUEST, and after each it polls for a packet; `process_rx_packet`
runs in the interrupt and copies packets to `au8RxBuf` at any time. One step of the client is one
turn of one of its loops, or one byte of a copy.
-/

namespace Ma35d1.Dhcp

/-- Where the client is: it polls, copies byte `i` of `n`, reads the option at `cptr` after an
answer, prints the option at `cptr`, or has returned. -/
inductive Pc
  | poll
  | copy (i n : Nat)
  | read (cptr : Nat)
  | lease (cptr : Nat)
  | done (ok : Bool)
  deriving DecidableEq

/-- A byte is still to be copied. -/
def Pc.Copying : Pc → Prop
  | .copy i n => i < n
  | _ => False

instance (pc : Pc) : Decidable pc.Copying :=
  match pc with
  | .copy i n => inferInstanceAs (Decidable (i < n))
  | .poll | .read _ | .lease _ | .done _ => .isFalse id

/-- `au8RxBuf` and `s_u32PktRdy`, the receive half of `s_au8DhcpRawBuffer`, the options of the
message that is sent, and the variables of `dhcp_start`; `acking` after the REQUEST. Then the packet
in `au8RxBuf`, the one that is being copied if the copy is left alone, the one in the raw buffer if
it is one, and its length; whether the last message was answered; and whether an option was read
behind the packet or written behind the options. -/
structure DhcpStart where
  rxBuf : Nat → BitVec 8
  pktRdy : Nat
  buf : Nat → BitVec 8
  options : Bytes
  txId : BitVec 32
  nextId : BitVec 32
  acking : Bool
  out : Bool
  offer : Bool
  retry : Nat
  delay : BitVec 32
  pc : Pc
  ip : BitVec 32
  source : Option Frame
  copying : Option Frame
  held : Option Frame
  got : Nat
  answered : Bool
  stray : Bool
  overrun : Bool

inductive Event
  /-- the interrupt, with a packet -/
  | rx (f : Frame)
  /-- the client goes on -/
  | main

namespace DhcpStart

/-- `udp_send`, and the wait begins. -/
def send (s : DhcpStart) : DhcpStart :=
  { s with delay := fullDelay, pc := .poll, answered := false }

/-- `wait_offer` -/
def waitOffer (s : DhcpStart) : DhcpStart := { s with retry := 0, out := false }.send

/-- The end of a turn of the loop over `retry` -/
def nextTry (s : DhcpStart) : DhcpStart :=
  if s.retry + 1 < maxTries ∧ s.out = false then { s with retry := s.retry + 1 }.send
  else if s.acking ∨ maxTries ≤ s.retry + 1 then { s with retry := s.retry + 1, pc := .done false }
  else { s with retry := s.retry + 1, offer := false, pc := .read optionsPlace }

/-- After the wait -/
def waited (s : DhcpStart) : DhcpStart :=
  if s.acking = false ∨ s.delay = 0 then s.nextTry else { s with pc := .read optionsPlace }

/-- The test on the packet that was copied -/
def Matches (s : DhcpStart) : Prop :=
  half s.buf destPortPlace = clientPort ∧
    if s.acking then s.buf opPlace ≠ bootpReply ∧ word s.buf txIdPlace ≠ s.txId
    else s.buf opPlace = bootpReply ∧ word s.buf txIdPlace = s.txId

instance (s : DhcpStart) : Decidable s.Matches :=
  match h : s.acking with
  | true => decidable_of_iff (half s.buf destPortPlace = clientPort ∧
      s.buf opPlace ≠ bootpReply ∧ word s.buf txIdPlace ≠ s.txId) (by rw [Matches, h]; rfl)
  | false => decidable_of_iff (half s.buf destPortPlace = clientPort ∧
      s.buf opPlace = bootpReply ∧ word s.buf txIdPlace = s.txId) (by rw [Matches, h]; rfl)

/-- A turn of `while(delay--)` -/
def poll (s : DhcpStart) : DhcpStart :=
  if s.delay = 0 then { s with delay := s.delay - 1 }.waited
  else if s.pktRdy = 0 then { s with delay := s.delay - 1 }
  else { s with delay := s.delay - 1, pc := .copy 0 s.pktRdy, copying := s.source }

/-- The packet is in the raw buffer. -/
def copied (s : DhcpStart) (n : Nat) : DhcpStart :=
  { s with pktRdy := 0, held := s.copying, got := n }

/-- A byte of the copy, or its end -/
def copy (s : DhcpStart) (i n : Nat) : DhcpStart :=
  if i < n then
    { s with buf := Function.update s.buf i (s.rxBuf i), pc := .copy (i + 1) n }
  else if (s.copied n).Matches then { s.copied n with out := true }.waited
  else { s.copied n with pc := .poll }

/-- The byte at `k` of the raw buffer is read. -/
def look (s : DhcpStart) (k : Nat) : DhcpStart := { s with stray := s.stray || s.got ≤ k }

/-- The length of the option at `c`, with its two first bytes -/
def optLen (s : DhcpStart) (c : Nat) : Nat := (s.buf (c + 1)).toNat + 2

/-- `len` bytes from `c` are appended to the options. -/
def append (s : DhcpStart) (bytes : Bytes) : DhcpStart :=
  { s with
    options := s.options ++ bytes
    overrun := s.overrun || optionsSize < s.options.length + bytes.length }

/-- The bytes of the option at `c` -/
def optBytes (s : DhcpStart) (c : Nat) : Bytes :=
  (List.range (s.optLen c)).map fun k => s.buf (c + k)

/-- The REQUEST: the address that was offered is appended, and the end of the options. -/
def request (s : DhcpStart) : DhcpStart :=
  { s with
    options := (s.options ++ ([50, 4] ++ (List.range 4).map fun k => s.buf (yourIpPlace + k))).set 6
      dhcpRequest
    overrun := s.overrun || optionsSize ≤ s.options.length + 6
    txId := s.nextId, nextId := s.nextId + 1, acking := true, retry := 0, out := false }.send

/-- An option of what should be an OFFER -/
def readOffer (s : DhcpStart) (c : Nat) : DhcpStart :=
  if s.buf c = optEnd then if s.offer then (s.look c).request else (s.look c).waitOffer
  else if s.buf c = optType then
    { s.look (c + 2) with
      offer := s.offer || s.buf (c + 2) = dhcpOffer, pc := .read (c + s.optLen c) }
  else if s.buf c = optServer then
    { (s.look (c + (s.optLen c - 1))).append (s.optBytes c) with
      pc := .read (c + s.optLen c) }
  else { s.look (c + 1) with pc := .read (c + s.optLen c) }

/-- An option of what should be an ACK -/
def readAck (s : DhcpStart) (c : Nat) : DhcpStart :=
  if s.buf c = optEnd then (s.look c).nextTry
  else if s.buf c = optType ∧ s.buf (c + 2) = dhcpAck then
    { s.look (c + 2) with ip := word s.buf yourIpPlace, pc := .lease optionsPlace }
  else if s.buf c = optType ∧ s.buf (c + 2) = dhcpNak then
    { s.look (c + 2) with pc := .done false }
  else
    { s.look (if s.buf c = optType then c + 2 else c + 1) with pc := .read (c + s.optLen c) }

/-- An option is printed. -/
def printOption (s : DhcpStart) (c : Nat) : DhcpStart :=
  if s.buf c = optEnd then { s.look c with pc := .done true }
  else { s.look (if s.buf c ∈ printed then c + 5 else c + 1) with pc := .lease (c + s.optLen c) }

/-- `process_rx_packet` -/
def receive (s : DhcpStart) (f : Frame) : DhcpStart :=
  { s with
    rxBuf := fun i => if i < f.len then f.bytes i else s.rxBuf i
    pktRdy := f.len, source := some f, copying := if s.pc.Copying then none else s.copying
    answered := s.answered || f.Answers s.acking s.txId }

/-- The next step of `dhcp_start` -/
def main (s : DhcpStart) : Option DhcpStart :=
  match s.pc with
  | .poll => some s.poll
  | .copy i n => some (s.copy i n)
  | .read c => some (if s.acking then s.readAck c else s.readOffer c)
  | .lease c => some (s.printOption c)
  | .done _ => none

/-- What an event leads to -/
def step (s : DhcpStart) : Event → Option DhcpStart
  | .rx f => some (if f.Kept then s.receive f else s)
  | .main => s.main

/-- The options of the DISCOVER, up to the end -/
def discover : Bytes := [0x63, 0x82, 0x53, 0x63, 0x35, 0x01, dhcpDiscover, 55, 4, 1, 3, 6, 15]

/-- The first DISCOVER is sent; the buffers hold anything. -/
def start (rxBuf buf : Nat → BitVec 8) : DhcpStart :=
  { rxBuf := rxBuf, pktRdy := 0, buf := buf, options := discover, txId := 0x8900, nextId := 0x8901
    acking := false, out := false, offer := false, retry := 0, delay := fullDelay, pc := .poll
    ip := 0, source := none, copying := none, held := none, got := 0, answered := false
    stray := false, overrun := false }

end DhcpStart

end Ma35d1.Dhcp
