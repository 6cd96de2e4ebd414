import Mathlib.Data.BitVec

/-!
# DHCP packets

The fields that the DHCP client reads of a packet, and the list of its options: each has a code, a
length and its bytes, and the last is the end.
-/

namespace Ma35d1.Dhcp

abbrev Bytes := List (BitVec 8)

/-- A packet that was received, with what stands behind it in memory -/
structure Frame where
  bytes : Nat → BitVec 8
  len : Nat

/-- A field of a packet in network order, and as the processor reads it -/
def half (m : Nat → BitVec 8) (k : Nat) : BitVec 16 := m k ++ m (k + 1)
def word (m : Nat → BitVec 8) (k : Nat) : BitVec 32 := m (k + 3) ++ m (k + 2) ++ (m (k + 1) ++ m k)

/-- The places of the fields: `u8Prot`, `u16SrcPort`, `u16DestPort`, then `op_code`, `tx_id`,
`yourIP` and `options + 4` of the message -/
def protPlace : Nat := 23
def srcPortPlace : Nat := 34
def destPortPlace : Nat := 36
def opPlace : Nat := 42
def txIdPlace : Nat := 46
def yourIpPlace : Nat := 58
def optionsPlace : Nat := 282

/-- `IP_PRO_UDP`, `SERVER_PORT`, `CLIENT_PORT`, `BOOTP_REPLY` -/
def proUdp : BitVec 8 := 17
def serverPort : BitVec 16 := 67
def clientPort : BitVec 16 := 68
def bootpReply : BitVec 8 := 2

/-- The message types -/
def dhcpDiscover : BitVec 8 := 1
def dhcpOffer : BitVec 8 := 2
def dhcpRequest : BitVec 8 := 3
def dhcpAck : BitVec 8 := 5
def dhcpNak : BitVec 8 := 6

/-- The options: message type, server identifier, and the end -/
def optType : BitVec 8 := 53
def optServer : BitVec 8 := 54
def optEnd : BitVec 8 := 0xff

/-- The options that are printed with four bytes: subnet mask, router, time server -/
def printed : List (BitVec 8) := [1, 3, 4]

/-- `sizeof(dhcpTx->options)` -/
def optionsSize : Nat := 312

/-- Turns of a wait, and how often a message is sent -/
def fullDelay : BitVec 32 := 0x1000000
def maxTries : Nat := 16

/-- `process_rx_packet` keeps the packet: it is no broadcast, and UDP from the server's port. -/
def Frame.Kept (f : Frame) : Prop :=
  f.bytes 0 ≠ 0xff ∧ f.bytes protPlace = proUdp ∧ half f.bytes srcPortPlace = serverPort

instance (f : Frame) : Decidable f.Kept := inferInstanceAs (Decidable (_ ∧ _ ∧ _))

/-- An option: its code and length, and the first of its bytes -/
structure Opt where
  code : BitVec 8
  len : Nat
  first : BitVec 8
  deriving DecidableEq

/-- The options from `c` on, if they and the end are in the packet -/
def Frame.scan (f : Frame) : Nat → Nat → Option (List Opt)
  | 0, _ => none
  | fuel + 1, c =>
    if f.bytes c = optEnd then if c < f.len then some [] else none
    else if c + ((f.bytes (c + 1)).toNat + 2) < f.len then
      (f.scan fuel (c + ((f.bytes (c + 1)).toNat + 2))).map
        (Opt.mk (f.bytes c) (f.bytes (c + 1)).toNat (f.bytes (c + 2)) :: ·)
    else none

def Frame.options (f : Frame) : Option (List Opt) := f.scan f.len optionsPlace

/-- The options that are still to be read from `c` on -/
def Frame.Rest (f : Frame) (c : Nat) (os : List Opt) : Prop := ∃ fuel, f.scan fuel c = some os

/-- The first `n` bytes of the packet are in the memory. -/
def Frame.In (f : Frame) (m : Nat → BitVec 8) (n : Nat) : Prop := ∀ i < n, m i = f.bytes i

/-- The options carry the message type. -/
def Carries (type : BitVec 8) (os : List Opt) : Prop :=
  ∃ o ∈ os, o.code = optType ∧ o.first = type

instance (type : BitVec 8) (os : List Opt) : Decidable (Carries type os) :=
  inferInstanceAs (Decidable (∃ o ∈ os, _))

/-- The first message type that answers a REQUEST -/
def verdict : List Opt → Option (BitVec 8)
  | [] => none
  | o :: os =>
    if o.code = optType ∧ (o.first = dhcpAck ∨ o.first = dhcpNak) then some o.first else verdict os

/-- A message type has a byte. -/
def Typed (os : List Opt) : Prop := ∀ o ∈ os, o.code = optType → 1 ≤ o.len

instance (os : List Opt) : Decidable (Typed os) := inferInstanceAs (Decidable (∀ o ∈ os, _))

/-- What is printed has its four bytes. -/
def Printable (os : List Opt) : Prop := ∀ o ∈ os, o.code ∈ printed → 4 ≤ o.len

instance (os : List Opt) : Decidable (Printable os) := inferInstanceAs (Decidable (∀ o ∈ os, _))

/-- The bytes of the server identifiers -/
def serverBytes : List Opt → Nat
  | [] => 0
  | o :: os => (if o.code = optServer then o.len + 2 else 0) + serverBytes os

/-- A reply with the transaction id -/
def Frame.Reply (f : Frame) (id : BitVec 32) : Prop :=
  f.bytes opPlace = bootpReply ∧ word f.bytes txIdPlace = id

instance (f : Frame) (id : BitVec 32) : Decidable (f.Reply id) :=
  inferInstanceAs (Decidable (_ ∧ _))

/-- What answers the last message as a server should -/
def Frame.Answers (f : Frame) (acking : Bool) (id : BitVec 32) : Prop :=
  half f.bytes destPortPlace = clientPort ∧ f.Reply id ∧
    ∃ os ∈ f.options, (Typed os ∧ Printable os) ∧
      if acking then verdict os = some dhcpAck else Carries dhcpOffer os

instance (f : Frame) (acking : Bool) (id : BitVec 32) : Decidable (f.Answers acking id) :=
  inferInstanceAs (Decidable (_ ∧ _ ∧ ∃ os ∈ f.options, (Typed os ∧ Printable os) ∧
    if acking then verdict os = some dhcpAck else Carries dhcpOffer os))

section Options

variable {f : Frame} {c : Nat} {os : List Opt}

/-- The option at `c`, or the end -/
theorem Frame.Rest.cases (h : f.Rest c os) :
    f.bytes c = optEnd ∧ c < f.len ∧ os = [] ∨
      f.bytes c ≠ optEnd ∧ c + ((f.bytes (c + 1)).toNat + 2) < f.len ∧ ∃ rest,
        os = ⟨f.bytes c, (f.bytes (c + 1)).toNat, f.bytes (c + 2)⟩ :: rest ∧
          f.Rest (c + ((f.bytes (c + 1)).toNat + 2)) rest := by
  obtain ⟨fuel, h⟩ := h
  cases fuel with
  | zero => exact Option.noConfusion rfl (heq_of_eq h)
  | succ fuel =>
    rw [Frame.scan] at h
    by_cases hend : f.bytes c = optEnd
    · rw [if_pos hend] at h
      obtain ⟨hc, h⟩ := Option.ite_none_right_eq_some.mp h
      exact .inl ⟨hend, hc, (Option.some.inj h).symm⟩
    · rw [if_neg hend] at h
      obtain ⟨hc, h⟩ := Option.ite_none_right_eq_some.mp h
      obtain ⟨rest, hrest, rfl⟩ := Option.map_eq_some_iff.mp h
      exact .inr ⟨hend, hc, rest, rfl, fuel, hrest⟩

theorem Frame.Rest.lt (h : f.Rest c os) : c < f.len := by
  rcases h.cases with ⟨-, hc, -⟩ | ⟨-, hc, -⟩
  · exact hc
  · omega

theorem carries_cons {o : Opt} {type : BitVec 8} :
    Carries type (o :: os) ↔ (o.code = optType ∧ o.first = type) ∨ Carries type os := by
  unfold Carries
  rw [List.exists_mem_cons_iff]

theorem not_carries_nil {type : BitVec 8} : ¬ Carries type [] := fun h =>
  absurd h.choose_spec.1 List.not_mem_nil

theorem verdict_carries {v : BitVec 8} (h : verdict os = some v) : Carries v os := by
  induction os with
  | nil => exact Option.noConfusion rfl (heq_of_eq h)
  | cons o os ih =>
    rw [carries_cons]
    rw [verdict] at h
    split at h
    · rename_i ho
      exact .inl ⟨ho.1, Option.some.inj h⟩
    · exact .inr (ih h)

end Options

end Ma35d1.Dhcp

