import Ma35d1.Tftp.Server

/-!
# What a session promises

The law is about each step: what a datagram that is not the client's may change, which blocks a
write session takes, what a read session sends, and that nothing behind a payload is read.
-/

namespace Ma35d1.Tftp

open Ma35d1.Machine
open Ma35d1.Machine.Copy

section Datagrams

variable {Addr : Type*}

/-- A data packet for the block -/
def Datagram.IsData (d : Datagram Addr) (n : BitVec 16) : Prop :=
  4 ≤ d.payload.length ∧ d.op = opcodeData ∧ d.newBlk = n

/-- An acknowledgement of the block -/
def Datagram.IsAck (d : Datagram Addr) (n : BitVec 16) : Prop :=
  4 ≤ d.payload.length ∧ d.op = opcodeAck ∧ d.newBlk = n

/-- An error, or an opcode that there is not -/
def Datagram.IsOther (d : Datagram Addr) : Prop :=
  d.op ∉ [opcodeRrq, opcodeWrq, opcodeData, opcodeAck]

instance (d : Datagram Addr) : Decidable d.IsOther := inferInstanceAs (Decidable (¬ _ ∈ _))

theorem Datagram.over_iff (d : Datagram Addr) (k : Nat) :
    d.past k = false ↔ k + 2 ≤ d.payload.length := by
  rw [Datagram.past, decide_eq_false_iff_not, Nat.not_lt]

end Datagrams

namespace Server

variable {Addr : Type*}

/-- What a step of a session promises -/
structure StepLaw (file : Nat → BitVec 8) (s : Server Addr) (e : ServerEvent Addr)
    (t : Server Addr) : Prop where
  /-- a datagram from elsewhere changes nothing of the session -/
  foreign : ∀ d a a', e = .recv d a a' → s.state ≠ .idle → ¬ s.FromClient d →
    t.state = s.state ∧ t.blk = s.blk ∧ t.data = s.data ∧ t.remain = s.remain
  /-- the block after the last one is taken, and the session ends with a short one -/
  next : ∀ d a a', e = .recv d a a' → s.state = .wrq → s.FromClient d → d.IsData (s.blk + 1) →
    t.accepted = s.accepted ++ [d.blockBytes] ∧ t.blk = s.blk + 1 ∧
      t.state = if d.blockBytes.length < blockLength then .idle else .wrq
  /-- the last block taken is acknowledged once more when it comes again -/
  again : ∀ d a a', e = .recv d a a' → s.state = .wrq → s.FromClient d → d.IsData s.blk →
    s.accepted ≠ [] → t.state = .wrq ∧ t.blk = s.blk ∧ t.out = send a (s.sendAck s.blk)
  /-- no other block is taken -/
  once : s.state = .wrq → t.accepted = s.accepted ∨
    ∃ d a a', e = .recv d a a' ∧ s.FromClient d ∧ d.IsData (s.blk + 1)
  numbered : t.state = .wrq → t.blk = BitVec.ofNat 16 t.accepted.length
  /-- what is sent of the file is the block it is sent as -/
  read : ∀ addr port b bytes, .data addr port b bytes ∈ t.out →
    addr = t.clientAddr ∧ port = t.clientPort ∧ bytes = fileBlock file b.toNat
  /-- a read session is done when its short block is acknowledged -/
  done : s.state = .rrq → (t.done = true ↔ ∃ d a a', e = .recv d a a' ∧ s.FromClient d ∧
    d.IsAck s.blk ∧ (fileBlock file s.blk.toNat).length < blockLength)
  safe : t.stray = false

/-- The law of a step, whatever it leads to -/
def SessionLaw [DecidableEq Addr] (file : Nat → BitVec 8) (s : Server Addr)
    (e : ServerEvent Addr) : Prop :=
  ∀ t, step file s e = some t → StepLaw file s e t

/-- The branch that the datagram goes to reads the second half-word of the payload. -/
def Reads (s : Server Addr) (d : Datagram Addr) : Prop :=
  d.op = opcodeData ∧ s.FromClient d ∧ s.state = .wrq ∨
    d.op = opcodeAck ∧ s.FromClient d ∧ s.state = .rrq ∨ d.op = opcodeError ∧ s.MaybeClient d

instance [DecidableEq Addr] (s : Server Addr) (d : Datagram Addr) : Decidable (s.Reads d) :=
  inferInstanceAs (Decidable (_ ∨ _ ∨ _))

/-- The datagram is long enough for what is read of it. -/
def LongEnough (s : Server Addr) (d : Datagram Addr) : Prop :=
  d.past 0 = false ∧ (s.Reads d → d.past 2 = false)

instance [DecidableEq Addr] (s : Server Addr) (d : Datagram Addr) : Decidable (s.LongEnough d) :=
  inferInstanceAs (Decidable (_ ∧ (_ → _)))

/-- An error or an unknown opcode does not come from the client's address or its port alone. -/
def OwnReport (s : Server Addr) (d : Datagram Addr) : Prop :=
  s.state ≠ .idle → d.IsOther → s.MaybeClient d → s.FromClient d

instance [DecidableEq Addr] (s : Server Addr) (d : Datagram Addr) : Decidable (s.OwnReport d) :=
  inferInstanceAs (Decidable (_ → _ → _ → _))

/-- The client writes neither its last block again nor block 65536. -/
def NewBlock (s : Server Addr) (d : Datagram Addr) : Prop :=
  s.state = .wrq → s.FromClient d → d.op = opcodeData →
    (d.newBlk = s.blk → s.accepted = []) ∧ ¬ (s.blk = 0xFFFF ∧ d.newBlk = 0)

instance [DecidableEq Addr] (s : Server Addr) (d : Datagram Addr) : Decidable (s.NewBlock d) :=
  inferInstanceAs (Decidable (_ → _ → _ → _))

def SessionKept (s : Server Addr) : ServerEvent Addr → Prop
  | .recv d _ _ => s.LongEnough d ∧ s.OwnReport d ∧ s.NewBlock d
  | _ => True

instance [DecidableEq Addr] (s : Server Addr) (e : ServerEvent Addr) :
    Decidable (SessionKept s e) :=
  match e with
  | .recv _ _ _ => inferInstanceAs (Decidable (_ ∧ _ ∧ _))
  | .timeout _ | .error => .isTrue trivial

/-! ## The invariant -/

/-- The numbers of a session belong together. -/
structure Inv (s : Server Addr) : Prop where
  write : s.state = .wrq → s.accepted.length = s.blk.toNat
  read : s.state = .rrq → 1 ≤ s.blk.toNat ∧ s.blk.toNat ≤ 5 ∧
    s.data = (s.blk.toNat - 1) * blockLength ∧ s.remain = fileLen - s.data

section Steps

variable {file : Nat → BitVec 8} {s t u : Server Addr} {e : ServerEvent Addr} {d : Datagram Addr}
  {a a' : Bool}

theorem mem_send {alloc : Bool} {p q : Packet Addr} (h : p ∈ send alloc q) : p = q := by
  unfold send at h
  split at h
  · exact List.mem_singleton.mp h
  · exact absurd h List.not_mem_nil

/-- In a read session the block is sent. -/
theorem Inv.sendData (h : Inv s) (hs : s.state = .rrq) :
    s.sendData file = .data s.clientAddr s.clientPort s.blk (fileBlock file s.blk.toNat) := by
  obtain ⟨hlo, hhi, hdata, hremain⟩ := h.read hs
  rw [Server.sendData, fileBlock, blockOf, hremain, hdata]
  congr 2
  unfold blockLength fileLen
  omega

theorem Inv.read_out (h : Inv s) (hs : s.state = .rrq) {alloc : Bool} {addr : Addr}
    {port b : BitVec 16} {bytes : Bytes}
    (hmem : .data addr port b bytes ∈ send alloc (s.sendData file)) :
    addr = s.clientAddr ∧ port = s.clientPort ∧ bytes = fileBlock file b.toNat := by
  have heq := mem_send hmem
  rw [h.sendData hs] at heq
  obtain ⟨rfl, rfl, rfl, rfl⟩ := Packet.data.inj heq
  exact ⟨rfl, rfl, rfl⟩

/-- The numbers of a session stay as they are. -/
structure Same (s t : Server Addr) : Prop where
  blk : t.blk = s.blk
  data : t.data = s.data
  remain : t.remain = s.remain
  accepted : t.accepted = s.accepted

theorem Inv.same (h : Inv s) (hst : Same s t) (hstate : t.state = s.state ∨ t.state = .idle) :
    Inv t := by
  rcases hstate with hstate | hstate
  · refine ⟨fun ht => ?_, fun ht => ?_⟩
    · rw [hst.accepted, hst.blk]
      exact h.write (hstate.symm.trans ht)
    · rw [hst.blk, hst.data, hst.remain]
      exact h.read (hstate.symm.trans ht)
  · exact ⟨fun ht => State.noConfusion (hstate.symm.trans ht),
      fun ht => State.noConfusion (hstate.symm.trans ht)⟩

theorem Inv.numbered (h : Inv s) (hs : s.state = .wrq) :
    s.blk = BitVec.ofNat 16 s.accepted.length := by
  rw [h.write hs, BitVec.ofNat_toNat, BitVec.setWidth_eq]

/-- What a datagram leads to -/
inductive Received (file : Nat → BitVec 8) (s : Server Addr) (d : Datagram Addr) (a a' : Bool) :
    Server Addr → Prop
  | request (hop : d.op = opcodeRrq ∨ d.op = opcodeWrq) : Received file s d a a'
      ((s.heard d).request file d a)
  | write (hop : d.op = opcodeData) (hfrom : s.FromClient d) (hs : s.state = .wrq) :
      Received file s d a a' (((s.heard d).looked d).writeBlock d a a')
  | ack (hop : d.op = opcodeAck) (hfrom : s.FromClient d) (hs : s.state = .rrq) :
      Received file s d a a' (((s.heard d).looked d).readAck file d a)
  | illegal (hop : d.op = opcodeData ∧ ¬ (s.FromClient d ∧ s.state = .wrq) ∨
        d.op = opcodeAck ∧ ¬ (s.FromClient d ∧ s.state = .rrq)) :
      Received file s d a a' ((s.heard d).refuse d a .illegalOperation)
  | error (hop : d.op = opcodeError) (hfrom : s.MaybeClient d) :
      Received file s d a a' { (s.heard d).looked d with state := .idle }
  | unknown (hop : d.IsOther) (hne : d.op ≠ opcodeError) (hfrom : s.MaybeClient d) :
      Received file s d a a' { (s.heard d).refuse d a .illegalOperation with state := .idle }
  | ignored (hop : d.IsOther) (hfrom : ¬ s.MaybeClient d) : Received file s d a a' (s.heard d)

theorem dispatch_received [DecidableEq Addr] :
    Received file s d a a' ((s.heard d).dispatch file d a a') := by
  unfold dispatch
  by_cases hreq : d.op = opcodeRrq ∨ d.op = opcodeWrq
  · rw [if_pos hreq]
    exact .request hreq
  rw [if_neg hreq]
  by_cases hdata : d.op = opcodeData
  · rw [if_pos hdata]
    split
    · rename_i hc
      exact .write hdata hc.1 hc.2
    · rename_i hc
      exact .illegal (.inl ⟨hdata, hc⟩)
  rw [if_neg hdata]
  by_cases hack : d.op = opcodeAck
  · rw [if_pos hack]
    split
    · rename_i hc
      exact .ack hack hc.1 hc.2
    · rename_i hc
      exact .illegal (.inr ⟨hack, hc⟩)
  rw [if_neg hack]
  have hother : d.IsOther := by
    simp only [Datagram.IsOther, List.mem_cons, List.not_mem_nil, or_false, not_or]
    exact ⟨fun h => hreq (.inl h), fun h => hreq (.inr h), hdata, hack⟩
  by_cases herr : d.op = opcodeError
  · rw [if_pos herr]
    split
    · rename_i hm
      exact .error herr hm
    · rename_i hm
      exact .ignored hother hm
  · rw [if_neg herr]
    split
    · rename_i hm
      exact .unknown hother herr hm
    · rename_i hm
      exact .ignored hother hm

/-- The law of a step that leaves the numbers of the session as they are -/
theorem Inv.keep (h : Inv s) (hsame : Same s t) (hstate : t.state = s.state ∨ t.state = .idle)
    (hclient : t.clientAddr = s.clientAddr ∧ t.clientPort = s.clientPort)
    (hforeign : t.state = s.state ∨ ∀ d a a', e = .recv d a a' → s.state ≠ .idle → s.FromClient d)
    (hdata : ∀ d a a', e = .recv d a a' → s.state = .wrq → s.FromClient d →
      ¬ d.IsData (s.blk + 1) ∧ (d.IsData s.blk → s.accepted = []))
    (hack : ∀ d a a', e = .recv d a a' → s.state = .rrq → s.FromClient d → ¬ (d.IsAck s.blk ∧
      (fileBlock file s.blk.toNat).length < blockLength))
    (hread : ∀ addr port b bytes, .data addr port b bytes ∈ t.out →
      addr = s.clientAddr ∧ port = s.clientPort ∧ bytes = fileBlock file b.toNat)
    (hdone : t.done = false) (hsafe : t.stray = false) : StepLaw file s e t := by
  refine ⟨fun d a a' he hne hfrom => ?_, fun d a a' he hs hfrom hd => ?_,
    fun d a a' he hs hfrom hd hacc => ?_, fun _ => .inl hsame.accepted,
    (h.same hsame hstate).numbered, fun addr port b bytes hmem => ?_, fun hs => ?_, hsafe⟩
  · refine ⟨?_, hsame.blk, hsame.data, hsame.remain⟩
    rcases hforeign with hst | hown
    · exact hst
    · exact absurd (hown d a a' he hne) hfrom
  · exact absurd hd (hdata d a a' he hs hfrom).1
  · exact absurd ((hdata d a a' he hs hfrom).2 hd) hacc
  · rw [hclient.1, hclient.2]
    exact hread addr port b bytes hmem
  · rw [hdone]
    refine iff_of_false Bool.false_ne_true ?_
    rintro ⟨d, a, a', he, hfrom, hd, hshort⟩
    exact hack d a a' he hs hfrom ⟨hd, hshort⟩

/-- Nothing is read behind the payload exactly when the datagram is long enough. -/
theorem stray_iff (ht : Received file s d a a' t) : t.stray = false ↔ s.LongEnough d := by
  have hno : ∀ u : Server Addr, u.stray = d.past 0 → ¬ s.Reads d →
      (u.stray = false ↔ s.LongEnough d) := fun u hu hr => by
    rw [hu]
    exact ⟨fun h => ⟨h, fun hr' => absurd hr' hr⟩, fun h => h.1⟩
  have hyes : ∀ u : Server Addr, u.stray = (d.past 0 || d.past 2) → s.Reads d →
      (u.stray = false ↔ s.LongEnough d) := fun u hu hr => by
    rw [hu, Bool.or_eq_false_iff]
    exact ⟨fun h => ⟨h.1, fun _ => h.2⟩, fun h => ⟨h.1, h.2 hr⟩⟩
  cases ht with
  | request hop =>
    refine hno _ ?_ ?_
    · unfold request
      split
      · split <;> rfl
      · rfl
    · rintro (⟨h, -⟩ | ⟨h, -⟩ | ⟨h, -⟩) <;> rw [h] at hop <;> exact absurd hop (by decide)
  | write hop hfrom hs =>
    refine hyes _ ?_ (.inl ⟨hop, hfrom, hs⟩)
    unfold writeBlock
    split <;> rfl
  | ack hop hfrom hs =>
    refine hyes _ ?_ (.inr (.inl ⟨hop, hfrom, hs⟩))
    unfold readAck
    split
    · rfl
    · split
      · split <;> rfl
      · rfl
  | illegal hop =>
    refine hno _ rfl ?_
    rintro (⟨h, hc⟩ | ⟨h, hc⟩ | ⟨h, -⟩) <;> rcases hop with ⟨hop, hn⟩ | ⟨hop, hn⟩ <;>
      first
        | exact hn hc
        | exact absurd (h.symm.trans hop) (by decide)
  | error hop hfrom => exact hyes _ rfl (.inr (.inr ⟨hop, hfrom⟩))
  | unknown hop hne hfrom =>
    refine hno _ rfl ?_
    rintro (⟨h, -⟩ | ⟨h, -⟩ | ⟨h, -⟩)
    · exact hop (by rw [h]; decide)
    · exact hop (by rw [h]; decide)
    · exact hne h
  | ignored hop hfrom =>
    refine hno _ rfl ?_
    rintro (⟨h, -⟩ | ⟨h, -⟩ | ⟨-, h⟩)
    · exact hop (by rw [h]; decide)
    · exact hop (by rw [h]; decide)
    · exact hfrom h

theorem same_heard : Same s (s.heard d) := ⟨rfl, rfl, rfl, rfl⟩

/-- A time-out leaves the numbers, and sends the block or the acknowledgement again. -/
theorem timeout_same (alloc : Bool) : Same s (s.quiet.timeout file alloc) ∧
    ((s.quiet.timeout file alloc).state = s.state ∨
      (s.quiet.timeout file alloc).state = .idle) := by
  unfold timeout
  split
  · exact ⟨⟨rfl, rfl, rfl, rfl⟩, .inl rfl⟩
  · split
    · exact ⟨⟨rfl, rfl, rfl, rfl⟩, .inr rfl⟩
    · split <;> exact ⟨⟨rfl, rfl, rfl, rfl⟩, .inl rfl⟩

theorem Inv.openRead (s : Server Addr) : Inv (s.openRead d) := by
  refine ⟨fun h => State.noConfusion h, fun _ => ?_⟩
  have hone : (1 : BitVec 16).toNat = 1 := rfl
  show 1 ≤ (1 : BitVec 16).toNat ∧ (1 : BitVec 16).toNat ≤ 5 ∧
    0 = ((1 : BitVec 16).toNat - 1) * blockLength ∧ (fileLen : Int) = fileLen - ((0 : Nat) : Int)
  rw [hone]
  omega

theorem Inv.openWrite (s : Server Addr) : Inv (s.openWrite d) :=
  ⟨fun _ => rfl, fun h => State.noConfusion h⟩

/-- The next block is sent only while the file is not done. -/
theorem Inv.nextBlock (h : Inv s) (hs : s.state = .rrq) (hmore : ¬ s.acked.remain < 0) :
    Inv s.acked.nextBlock := by
  obtain ⟨hlo, hhi, hdata, hremain⟩ := h.read hs
  have hlen : (fileLen : Int) = 2048 := rfl
  have hblock : blockLength = 512 := rfl
  have hmore' : ¬ s.remain - blockLength < 0 := hmore
  have hle : s.blk.toNat ≤ 4 := by
    rw [hremain, hdata, hlen, hblock] at hmore'
    omega
  have hblk : (s.blk + 1).toNat = s.blk.toNat + 1 := by
    rw [BitVec.toNat_add, show (1 : BitVec 16).toNat = 1 from rfl]
    omega
  refine ⟨fun h' => State.noConfusion (hs.symm.trans h'), fun _ => ?_⟩
  show 1 ≤ (s.blk + 1).toNat ∧ (s.blk + 1).toNat ≤ 5 ∧
    s.data + blockLength = ((s.blk + 1).toNat - 1) * blockLength ∧
      s.remain - blockLength = fileLen - ((s.data + blockLength : Nat) : Int)
  rw [hblk, hremain, hdata, hblock]
  omega

theorem Inv.sending (h : Inv s) (alloc : Bool) : Inv (s.sending file alloc) := ⟨h.write, h.read⟩

theorem step_inv [DecidableEq Addr] (h : Inv s) (ht : step file s e = some t) : Inv t := by
  cases e with
  | timeout alloc =>
    obtain rfl := Option.some.inj ht
    exact h.same (timeout_same alloc).1 (timeout_same alloc).2
  | error =>
    obtain rfl := Option.some.inj ht
    exact h.same ⟨rfl, rfl, rfl, rfl⟩ (.inl rfl)
  | recv d a a' =>
    obtain rfl := Option.some.inj ht
    have hr : Received file s d a a' ((s.heard d).dispatch file d a a') := dispatch_received
    have hheard : Inv (s.heard d) := h.same same_heard (.inl rfl)
    revert hr
    generalize (s.heard d).dispatch file d a a' = u
    intro hr
    cases hr with
    | request hop =>
      unfold request
      split
      · split
        · exact (Inv.openRead (s.heard d)).sending a
        · exact ⟨(Inv.openWrite (d := d) (s.heard d)).write, fun h' => State.noConfusion h'⟩
      · exact h.same ⟨rfl, rfl, rfl, rfl⟩ (.inl rfl)
    | write hop hfrom hs =>
      unfold writeBlock
      split
      · rename_i hnext
        refine ⟨fun _ => ?_, fun h' => ?_⟩
        · show (s.accepted ++ [d.blockBytes]).length = d.newBlk.toNat
          rw [List.length_append, h.write hs]
          exact hnext.symm
        · have hrrq : (if d.payload.length < blockLength + 4 then State.idle else s.state) = .rrq :=
            h'
          rw [hs] at hrrq
          split at hrrq <;> exact State.noConfusion hrrq
      · exact h.same ⟨rfl, rfl, rfl, rfl⟩ (.inr rfl)
    | ack hop hfrom hs =>
      unfold readAck
      split
      · exact h.same ⟨rfl, rfl, rfl, rfl⟩ (.inl rfl)
      · split
        · split
          · exact ⟨fun h' => State.noConfusion h', fun h' => State.noConfusion h'⟩
          · rename_i hmore
            exact (Inv.nextBlock (s := (s.heard d).looked d) ⟨h.write, h.read⟩ hs hmore).sending a
        · exact h.same ⟨rfl, rfl, rfl, rfl⟩ (.inr rfl)
    | illegal hop => exact h.same ⟨rfl, rfl, rfl, rfl⟩ (.inl rfl)
    | error hop hfrom => exact h.same ⟨rfl, rfl, rfl, rfl⟩ (.inr rfl)
    | unknown hop hne hfrom => exact h.same ⟨rfl, rfl, rfl, rfl⟩ (.inr rfl)
    | ignored hop hfrom => exact hheard

end Steps

end Server

end Ma35d1.Tftp
