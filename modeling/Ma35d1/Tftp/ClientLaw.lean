import Ma35d1.Tftp.Network

/-!
# What the transfers of the client promise

The law is about each step and the state it leads to: what a time-out sends, which blocks a get has
and a put sends, what has been transferred when a session ends, and what a session begins with.
-/

namespace Ma35d1.Tftp.Network

open Ma35d1.Machine
open Ma35d1.Machine.Trace

variable {Addr : Type*}

/-- The whole file has been transferred. -/
def Transferred (file : Nat → BitVec 8) (flen : BitVec 32) (s : Network Addr) : Prop :=
  ∃ p, s.peer s.session = some p ∧
    if s.client.put then p.taken = blocksOf file flen.toNat (blocks flen.toNat)
    else s.client.accepted = blocksOf p.file p.len (blocks p.len)

/-- What a step promises -/
structure StepLaw (server : Addr) (file : Nat → BitVec 8) (flen : BitVec 32) (first : Network Addr)
    (s : Network Addr) (e : NetEvent Addr) (t : Network Addr) : Prop where
  /-- a time-out sends the last packet of the session again -/
  resend : e = .timeout → s.client.retry < maxRetries →
    ∃ p, s.client.last = some p ∧ t.client.out = [p]
  /-- the next block of a get is taken when it comes -/
  takes : ∀ j p, e = .data s.session j → s.peer s.session = some p → s.client.put = false →
    j = s.client.index + 1 →
      t.client.index = j ∧ t.client.accepted = s.client.accepted ++ [blockOf p.file p.len j]
  /-- the next block of a put is sent when the one before is acknowledged -/
  goes : ∀ j p, e = .ack s.session j → s.peer s.session = some p → s.client.put = true →
    j = s.client.index → j < blocks flen.toNat → t.client.index = j + 1 ∧
      t.client.out =
        [.data server p.port (BitVec.ofNat 16 (j + 1)) (blockOf file flen.toNat (j + 1))]
  /-- one block after the other -/
  order : t.session = s.session →
    t.client.index = s.client.index ∨ t.client.index = s.client.index + 1
  /-- a get has the first blocks of the file that is served -/
  got : t.client.put = false → t.client.accepted = [] ∨ ∃ p, t.peer t.session = some p ∧
    t.client.accepted = blocksOf p.file p.len t.client.index
  /-- a put sends the block that is going on, to where the server is -/
  sends : ∀ addr port b bytes, .data addr port b bytes ∈ t.client.out → ∃ p,
    t.peer t.session = some p ∧ t.client.put = true ∧ addr = server ∧ port = p.port ∧
      b = BitVec.ofNat 16 t.client.index ∧ bytes = blockOf file flen.toNat t.client.index
  /-- and the server takes each block once -/
  taken : ∀ p, t.peer t.session = some p → t.client.put = true →
    p.taken = blocksOf file flen.toNat p.taken.length
  /-- a session that ends with "Done" has transferred the whole file -/
  ends : t.client.finished = true → t.Transferred file flen
  /-- every session begins with the same retry count, port and buffer -/
  starts : ∀ put, e = .select put → t.client.retry = 0 ∧ t.client.serverPort = tftpPort ∧
    t.client.data = first.client.data ∧ t.client.remain = first.client.remain

/-- The law of a step, whatever it leads to -/
def ClientLaw [DecidableEq Addr] (server : Addr) (file : Nat → BitVec 8) (flen : BitVec 32)
    (first s : Network Addr) (e : NetEvent Addr) : Prop :=
  ∀ t, step server file flen s e = some t → StepLaw server file flen first s e t

/-! ## The condition -/

/-- A session begins: the first one with no retries counted, a later one when those before it were
gets from the port of requests, or were not answered. -/
def Begins (flen : BitVec 32) (s : Network Addr) (put : Bool) : Prop :=
  (s.session = 0 → s.client.retry = 0) ∧ (∀ a ∈ s.answered, a = (false, tftpPort)) ∧
    (put = true → flen.toNat < 0x80000000)

instance (flen : BitVec 32) (s : Network Addr) (put : Bool) : Decidable (s.Begins flen put) :=
  haveI := List.decidableBAll (fun a => a = (false, tftpPort)) s.answered
  inferInstanceAs (Decidable ((_ → _) ∧ (∀ a ∈ s.answered, a = (false, tftpPort)) ∧ (_ → _)))

/-- A block comes: one of an earlier session is not what the client waits for, and block 65536 of a
get does not come. -/
def Comes (server : Addr) (s : Network Addr) (n j : Nat) (p : Peer) : Prop :=
  if n = s.session then s.client.state = .rrq → j < 0x10000
  else ¬ s.client.Takes server (p.dataOf server j)

instance [DecidableEq Addr] (server : Addr) (s : Network Addr) (n j : Nat) (p : Peer) :
    Decidable (s.Comes server n j p) :=
  inferInstanceAs (Decidable (if n = s.session then s.client.state = .rrq → j < 0x10000
    else ¬ s.client.Takes server (p.dataOf server j)))

/-- An acknowledgement comes: one of an earlier session is not what the client waits for, and one of
this session has the number of the block that is going on only if it is of that block. -/
def Acked (server : Addr) (s : Network Addr) (n j : Nat) (p : Peer) : Prop :=
  if n = s.session then s.client.blk = BitVec.ofNat 16 j → j = s.client.index
  else ¬ s.client.Takes server (p.ackOf server j)

instance [DecidableEq Addr] (server : Addr) (s : Network Addr) (n j : Nat) (p : Peer) :
    Decidable (s.Acked server n j p) :=
  inferInstanceAs (Decidable (if n = s.session then
    s.client.blk = BitVec.ofNat 16 j → j = s.client.index
    else ¬ s.client.Takes server (p.ackOf server j)))

def ClientKept (server : Addr) (flen : BitVec 32) (s : Network Addr) : NetEvent Addr → Prop
  | .select put => s.Begins flen put
  | .timeout => s.client.first = true ∨ maxRetries ≤ s.client.retry
  | .stray d => ¬ s.client.Takes server d
  | .data n j => ∀ p ∈ s.peer n, s.Comes server n j p
  | .ack n j => ∀ p ∈ s.peer n, s.Acked server n j p
  | _ => True

instance [DecidableEq Addr] (server : Addr) (flen : BitVec 32) (s : Network Addr)
    (e : NetEvent Addr) : Decidable (ClientKept server flen s e) :=
  match e with
  | .select put => inferInstanceAs (Decidable (s.Begins flen put))
  | .timeout => inferInstanceAs (Decidable (_ ∨ _))
  | .stray d => inferInstanceAs (Decidable (¬ s.client.Takes server d))
  | .data n j => inferInstanceAs (Decidable (∀ p ∈ s.peer n, s.Comes server n j p))
  | .ack n j => inferInstanceAs (Decidable (∀ p ∈ s.peer n, s.Acked server n j p))
  | .error | .serve .. | .serverAck .. | .serverData .. => .isTrue trivial

/-! ## The invariant -/

/-- What the client holds of its session, with the server's side of it -/
structure Play (server : Addr) (file : Nat → BitVec 8) (flen : BitVec 32) (peer : Option Peer)
    (c : Client Addr) : Prop where
  blk : c.blk = BitVec.ofNat 16 c.index
  first : c.first = true ↔ c.index = 0
  running : c.done = false →
    c.state = (if c.put then .wrq else .rrq) ∧ c.last = some (c.current server file)
  bound : c.index ≠ 0 → ∃ p, peer = some p ∧ c.serverPort = p.port
  same : ∀ p, peer = some p → p.put = c.put
  got : c.put = false → c.index < 2 ^ 16 ∧ (c.index = 0 → c.accepted = []) ∧
    ∀ p, peer = some p → c.accepted = blocksOf p.file p.len c.index ∧ p.turn ≤ c.index ∧
      c.index ≤ blocks p.len
  small : c.put = true → flen.toNat < 2 ^ 31 ∧ c.index ≤ blocks flen.toNat
  place : c.put = true → c.done = false → c.index ≠ 0 →
    c.data = (c.index - 1) * blockLength ∧ c.remain = flen.toNat - c.data
  taken : c.put = true → ∀ p, peer = some p →
    p.taken = blocksOf file flen.toNat p.taken.length ∧ p.taken.length ≤ c.index

/-- A packet of the session, on its way -/
def Carries (file : Nat → BitVec 8) (flen : BitVec 32) (c : Client Addr) (index : Nat) :
    Packet Addr → Prop
  | .rrq _ _ => c.put = false
  | .wrq _ _ => c.put = true
  | .ack _ _ _ => c.put = false ∧ index ≤ c.index
  | .data _ _ _ bytes =>
    c.put = true ∧ index ≤ c.index ∧ bytes = blockOf file flen.toNat index
  | .err _ _ _ => True

/-- The client and the server are in the same session. -/
structure NetInv (server : Addr) (file : Nat → BitVec 8) (flen : BitVec 32) (first : Network Addr)
    (s : Network Addr) : Prop where
  play : Play server file flen (s.peer s.session) s.client
  wire : ∀ m ∈ s.wire, m.session = s.session → Carries file flen s.client m.index m.packet
  fresh : ∀ m ∈ s.wire, m.session ≤ s.session
  serving : ∀ n p, s.peer n = some p → n ≤ s.session
  rested : s.session ≠ 0 → s.client.done = true → s.client.retry = 0
  began : s.session = 0 → s.client.done = true
  unmoved : (∀ a ∈ s.answered, a = (false, tftpPort)) → s.client.serverPort = tftpPort ∧
    s.client.data = first.client.data ∧ s.client.remain = first.client.remain
  counted : s.client.first = false → (s.client.put, s.client.serverPort) ∈ s.answered
  ended : s.client.finished = true → s.client.done = true ∧ s.Transferred file flen

end Ma35d1.Tftp.Network
