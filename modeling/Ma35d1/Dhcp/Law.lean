import Ma35d1.Dhcp.Client

/-!
# What the DHCP client promises

The law is about each step; the condition says which packets the client may meet, and when.
-/

namespace Ma35d1.Dhcp

/-- `sizeof(au8RxBuf)` -/
def rxSize : Nat := 1514

namespace DhcpStart

/-- How far the client is from its end -/
def within (s : DhcpStart) : Nat :=
  match s.pc with
  | .poll => 3200 + s.delay.toNat * 1600
  | .copy i n => 3200 + s.delay.toNat * 1600 + (n - i) + 1
  | .read c => 1600 + (rxSize - c)
  | .lease c => 1 + (rxSize - c)
  | .done _ => 0

/-- What a try may take -/
def tryCost : Nat := fullDelay.toNat * 1600 + 3200

def measure (s : DhcpStart) : Nat :=
  match s.pc with
  | .poll | .copy _ _ | .read _ =>
    (if s.acking then 0 else maxTries * tryCost) + (maxTries - 1 - s.retry) * tryCost + s.within
  | .lease _ | .done _ => s.within

/-- An OFFER that is not one: another DISCOVER is sent. -/
def Rejects (s t : DhcpStart) : Prop := (∃ c, s.pc = .read c) ∧ s.acking = false ∧ t.acking = false

/-- What a step promises -/
structure StepLaw (s : DhcpStart) (e : Event) (t : DhcpStart) : Prop where
  /-- an address is taken from the acknowledgement of the REQUEST only -/
  leases : t.ip = s.ip ∨ ∃ f os, s.held = some f ∧ s.acking = true ∧ f.Reply s.txId ∧
    f.options = some os ∧ Typed os ∧ Carries dhcpAck os ∧ t.ip = word f.bytes yourIpPlace
  /-- the options are read in the packet -/
  inside : t.stray = false
  /-- and appended in the message -/
  fits : t.overrun = false
  /-- the client gives up when it is refused, or when the last of its tries has no answer -/
  fails : t.pc = .done false → s.pc = .done false ∨
    (∃ f os, s.held = some f ∧ f.Reply s.txId ∧ f.options = some os ∧ Carries dhcpNak os) ∨
      s.retry + 1 = maxTries ∧ s.answered = false
  /-- an OFFER leads to a REQUEST -/
  offered : ∀ f c, e = .main → s.pc = .read c → s.acking = false → s.held = some f →
    f.Answers false s.txId → t.pc = .poll → t.acking = true
  /-- and its acknowledgement to the address -/
  acked : ∀ f c, e = .main → s.pc = .read c → s.acking = true → s.held = some f →
    f.Answers true s.txId → (∃ c, t.pc = .read c) ∨ ∃ c, t.pc = .lease c
  /-- every loop comes to its end -/
  ends : e = .main → t.measure < s.measure ∨ s.Rejects t

/-- The law of a step, whatever it leads to -/
def ClientLaw (s : DhcpStart) (e : Event) : Prop := ∀ t, s.step e = some t → StepLaw s e t

/-! ## The condition -/

/-- In the last try, no packet displaces the answer, and the answer does not come too late. -/
def Undisturbed (s : DhcpStart) (f : Frame) : Prop :=
  match s.pc with
  | .poll => if s.answered then f.Answers s.acking s.txId else
      f.Answers s.acking s.txId → s.delay ≠ 0
  | .copy _ _ => s.answered = false ∧ ¬ f.Answers s.acking s.txId
  | .read _ => s.answered = false → ¬ f.Answers s.acking s.txId
  | .lease _ | .done _ => True

instance (s : DhcpStart) (f : Frame) : Decidable (s.Undisturbed f) :=
  match h : s.pc with
  | .poll => decidable_of_iff (if s.answered then f.Answers s.acking s.txId else
      f.Answers s.acking s.txId → s.delay ≠ 0) (by rw [Undisturbed, h])
  | .copy _ _ => decidable_of_iff (s.answered = false ∧ ¬ f.Answers s.acking s.txId)
      (by rw [Undisturbed, h])
  | .read _ => decidable_of_iff (s.answered = false → ¬ f.Answers s.acking s.txId)
      (by rw [Undisturbed, h])
  | .lease _ | .done _ => .isTrue (by rw [Undisturbed, h]; trivial)

/-- The options of an OFFER fit in the message, with the address and the end. -/
def Fits (s : DhcpStart) (os : List Opt) : Prop :=
  s.options.length + serverBytes os + (if Carries dhcpOffer os then 7 else 0) ≤ optionsSize

instance (s : DhcpStart) (os : List Opt) : Decidable (s.Fits os) :=
  inferInstanceAs (Decidable (_ ≤ _))

/-- A reply to the DISCOVER was copied whole; in the last try it is not an OFFER, before that its
options are in the packet and fit. -/
def Offered (s : DhcpStart) : Prop :=
  if s.retry + 1 = maxTries then ∀ f ∈ s.copying, ¬ f.Answers false s.txId
  else ∃ f ∈ s.copying, ∃ os ∈ f.options, s.Fits os

instance (s : DhcpStart) : Decidable s.Offered :=
  inferInstanceAs (Decidable (if s.retry + 1 = maxTries then
    ∀ f ∈ s.copying, ¬ f.Answers false s.txId else ∃ f ∈ s.copying, ∃ os ∈ f.options, s.Fits os))

/-- When the wait is over, the packet in the buffer was copied whole and its options are in it; if
it acknowledges or refuses a REQUEST, it is the one that was sent. -/
def Answered (s : DhcpStart) : Prop :=
  ∃ f ∈ s.held, ∃ os ∈ f.options, (verdict os ≠ none → f.Reply s.txId ∧ Typed os) ∧
    (verdict os = some dhcpAck → Printable os)

instance (s : DhcpStart) : Decidable s.Answered :=
  inferInstanceAs (Decidable (∃ f ∈ s.held, ∃ os ∈ f.options,
    (verdict os ≠ none → f.Reply s.txId ∧ Typed os) ∧ (verdict os = some dhcpAck → Printable os)))

/-- The next step of the client does not go where it should not. -/
def Regular (s : DhcpStart) : Prop :=
  match s.pc with
  | .poll => s.acking = true → s.delay = 0 → s.Answered
  | .copy i n => ¬ i < n → (s.copied n).Matches → s.acking = false ∧ s.Offered
  | .read _ | .lease _ | .done _ => True

instance (s : DhcpStart) : Decidable s.Regular :=
  match h : s.pc with
  | .poll => decidable_of_iff (s.acking = true → s.delay = 0 → s.Answered) (by rw [Regular, h])
  | .copy i n => decidable_of_iff
      (¬ i < n → (s.copied n).Matches → s.acking = false ∧ s.Offered) (by rw [Regular, h])
  | .read _ | .lease _ | .done _ => .isTrue (by rw [Regular, h]; trivial)

def ClientKept (s : DhcpStart) : Event → Prop
  | .rx f => f.Kept → f.len ≤ rxSize ∧ (s.retry + 1 = maxTries → s.Undisturbed f)
  | .main => s.Regular

instance (s : DhcpStart) (e : Event) : Decidable (ClientKept s e) :=
  match e with
  | .rx f => inferInstanceAs (Decidable (f.Kept → f.len ≤ rxSize ∧
      (s.retry + 1 = maxTries → s.Undisturbed f)))
  | .main => inferInstanceAs (Decidable s.Regular)

/-! ## The invariant -/

/-- What is read of an OFFER -/
structure ReadsOffer (s : DhcpStart) (c : Nat) : Prop where
  got : ∃ f total os, s.held = some f ∧ f.options = some total ∧ f.Rest c os ∧
    (Carries dhcpOffer total ↔ s.offer = true ∨ Carries dhcpOffer os) ∧
      s.options.length + serverBytes os + (if Carries dhcpOffer total then 7 else 0) ≤ optionsSize

/-- What is read of an answer to the REQUEST -/
structure ReadsAck (s : DhcpStart) (c : Nat) : Prop where
  got : ∃ f total os, s.held = some f ∧ f.options = some total ∧ f.Rest c os ∧
    verdict os = verdict total ∧ (verdict total ≠ none → f.Reply s.txId ∧ Typed total) ∧
      (verdict total = some dhcpAck → Printable total)

/-- What is printed -/
structure Prints (s : DhcpStart) (c : Nat) : Prop where
  got : ∃ f os, s.held = some f ∧ f.Rest c os ∧ Printable os

/-- Where the answer is, in the last try -/
def AnswerKept (s : DhcpStart) : Prop :=
  match s.pc with
  | .poll => s.pktRdy ≠ 0 ∧ (∃ f ∈ s.source, f.Answers s.acking s.txId) ∧ s.delay ≠ 0 ∨
      s.acking = true ∧ (∃ f ∈ s.held, f.Answers s.acking s.txId) ∧
        (s.pktRdy ≠ 0 → ∃ f ∈ s.source, f.Answers s.acking s.txId)
  | .copy _ _ => ∃ f ∈ s.copying, f.Answers s.acking s.txId
  | .read _ => s.acking = true → ∃ f ∈ s.held, f.Answers s.acking s.txId
  | .lease _ | .done _ => True

/-- The buffers hold the packets. -/
structure Buffers (s : DhcpStart) : Prop where
  source : ∀ f, s.source = some f → f.len ≤ rxSize ∧ f.In s.rxBuf f.len ∧
    (s.pktRdy ≠ 0 → s.pktRdy = f.len)
  ready : s.pktRdy ≠ 0 → s.source ≠ none
  held : (∀ i n, s.pc ≠ .copy i n) → ∀ f, s.held = some f →
    f.len ≤ rxSize ∧ s.got = f.len ∧ f.In s.buf f.len
  copy : ∀ i n, s.pc = .copy i n → i ≤ n ∧ n ≤ rxSize ∧ ∀ f, s.copying = some f →
    n = f.len ∧ f.In s.buf i ∧ (i < n → f.In s.rxBuf n)

structure Inv (s : DhcpStart) : Prop where
  buffers : Buffers s
  stray : s.stray = false
  overrun : s.overrun = false
  delay : s.delay.toNat ≤ fullDelay.toNat ∨ ∀ i n, s.pc ≠ .poll ∧ s.pc ≠ .copy i n
  tries : s.retry < maxTries ∨ ∃ ok, s.pc = .done ok
  out : s.pc = .poll ∨ (∃ i n, s.pc = .copy i n) ∨ s.acking = true → s.out = false
  offer : ∀ c, s.pc = .read c → s.acking = false → s.ReadsOffer c
  ack : ∀ c, s.pc = .read c → s.acking = true → s.ReadsAck c
  lease : ∀ c, s.pc = .lease c → s.Prints c
  answer : s.retry + 1 = maxTries → s.answered = true → s.AnswerKept

end DhcpStart

end Ma35d1.Dhcp
