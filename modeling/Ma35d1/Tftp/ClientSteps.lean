import Ma35d1.Tftp.ClientLaw

/-!
# Where the client stays at its block

What a datagram that the client does not wait for leaves of the session, and what the law says of a
step that stays at its block.
-/

namespace Ma35d1.Tftp

open Ma35d1.Machine
open Ma35d1.Machine.Trace
open Ma35d1.Machine.Copy

variable {Addr : Type*} {server : Addr} {file : Nat → BitVec 8} {flen : BitVec 32}

section Packets

variable {p : Peer} {j : Nat}

theorem half_bytes (n : BitVec 16) : n.extractLsb' 8 8 ++ n.extractLsb' 0 8 = n :=
  @BitVec.extractLsb'_append_extractLsb' 8 8 n

theorem op_dataOf : (p.dataOf server j).op = opcodeData := half_bytes _

theorem op_ackOf : (p.ackOf server j).op = opcodeAck := half_bytes _

theorem newBlk_dataOf : (p.dataOf server j).newBlk = BitVec.ofNat 16 j := half_bytes _

theorem newBlk_ackOf : (p.ackOf server j).newBlk = BitVec.ofNat 16 j := half_bytes _

theorem length_dataOf :
    (p.dataOf server j).payload.length = (blockOf p.file p.len j).length + 4 := rfl

end Packets

namespace Client

variable {c c' : Client Addr} {d : Datagram Addr} {peer : Option Peer}

/-- The session stays at its block, or is over. -/
structure Held (server : Addr) (file : Nat → BitVec 8) (c c' : Client Addr) : Prop where
  put : c'.put = c.put
  serverPort : c'.serverPort = c.serverPort
  blk : c'.blk = c.blk
  first : c'.first = c.first
  data : c'.data = c.data
  remain : c'.remain = c.remain
  index : c'.index = c.index
  accepted : c'.accepted = c.accepted
  finished : c'.finished = c.finished
  running : c'.done = false → c'.state = c.state ∧ c'.last = some (c.current server file)
  sent : ∀ p ∈ c'.out, (∃ code, p = .err server c.serverPort code) ∨ p = c.current server file

theorem Held.current (h : Held server file c c') :
    c'.current server file = c.current server file := by
  unfold Client.current request sendData sendAck
  rw [h.put, h.serverPort, h.blk, h.first, h.data, h.remain]

theorem held_refuse {code : Error} : Held server file c (c.refuse server code) :=
  ⟨rfl, rfl, rfl, rfl, rfl, rfl, rfl, rfl, rfl, fun h => Bool.noConfusion h,
    fun _ hp => .inl ⟨code, List.mem_singleton.mp hp⟩⟩

/-- A packet that is sent again -/
theorem held_say {p : Packet Addr} (hp : p = c.current server file) :
    Held server file c (c.say p) :=
  ⟨rfl, rfl, rfl, rfl, rfl, rfl, rfl, rfl, rfl, fun _ => ⟨rfl, congrArg some hp⟩,
    fun _ hq => .inr ((List.mem_singleton.mp hq).trans hp)⟩

/-- The state and the last packet of a session that goes on -/
def Running (server : Addr) (file : Nat → BitVec 8) (c : Client Addr) : Prop :=
  c.state = (if c.put then .wrq else .rrq) ∧ c.last = some (c.current server file)

theorem Running.put_of_wrq (h : c.Running server file) (hs : c.state = .wrq) : c.put = true := by
  have hstate := h.1
  rw [hs] at hstate
  by_contra hput
  rw [if_neg hput] at hstate
  exact State.noConfusion hstate

theorem Running.put_of_rrq (h : c.Running server file) (hs : c.state = .rrq) : c.put = false := by
  have hstate := h.1
  rw [hs] at hstate
  by_contra hput
  rw [if_pos (Bool.eq_true_of_not_eq_false hput)] at hstate
  exact State.noConfusion hstate

/-- A datagram that is not what the client waits for -/
theorem dispatch_held [DecidableEq Addr] (h : c.Running server file) (hout : c.out = [])
    (hno : ¬ c.Takes server d) : Held server file c (c.dispatch server file flen d) := by
  have hsame : Held server file c c :=
    ⟨rfl, rfl, rfl, rfl, rfl, rfl, rfl, rfl, rfl, fun _ => ⟨rfl, h.2⟩,
      fun p hp => absurd (hout ▸ hp) List.not_mem_nil⟩
  unfold dispatch
  by_cases haddr : d.addr = server
  swap
  · rw [if_pos haddr]
    exact hsame
  rw [if_neg (not_not_intro haddr)]
  by_cases hdata : d.op = opcodeData
  · rw [if_pos hdata, heardData]
    by_cases hs : c.state = .rrq
    swap
    · rw [if_pos hs]
      exact held_refuse
    have hput := h.put_of_rrq hs
    rw [if_neg (not_not_intro hs)]
    by_cases hagain : d.newBlk = c.blk
    · rw [if_pos hagain]
      have hfirst : c.first = false := by
        by_contra hf
        exact hno ⟨haddr, .inl ⟨hdata, hs, .inr ⟨Bool.eq_true_of_not_eq_false hf, hagain⟩⟩⟩
      apply held_say
      rw [Client.current, hfirst, hput]
      rfl
    · rw [if_neg hagain, if_neg fun hnext => hno ⟨haddr, .inl ⟨hdata, hs, .inl hnext⟩⟩]
      exact held_refuse
  rw [if_neg hdata]
  by_cases hack : d.op = opcodeAck
  · rw [if_pos hack, heardAck]
    by_cases hs : c.state = .wrq
    swap
    · rw [if_pos hs]
      exact held_refuse
    have hput := h.put_of_wrq hs
    rw [if_neg (not_not_intro hs)]
    have hnot : d.newBlk ≠ if c.first then 0 else c.blk := fun heq =>
      hno ⟨haddr, .inr ⟨hack, hs, heq⟩⟩
    by_cases hfirst : c.first = true
    · rw [if_pos hfirst] at hnot ⊢
      rw [if_pos hnot]
      exact held_refuse
    · rw [if_neg hfirst] at hnot ⊢
      by_cases hprev : (d.newBlk.toNat : Int) = c.blk.toNat - 1
      · rw [if_pos hprev]
        apply held_say
        rw [Client.current, if_neg hfirst, if_pos hput]
      · rw [if_neg hprev, if_neg hnot]
        exact held_refuse
  rw [if_neg hack]
  by_cases herr : d.op = opcodeError
  · rw [if_pos herr]
    exact ⟨rfl, rfl, rfl, rfl, rfl, rfl, rfl, rfl, rfl, fun h => Bool.noConfusion h,
      fun p hp => absurd (hout ▸ hp) List.not_mem_nil⟩
  · rw [if_neg herr]
    exact held_refuse

end Client

namespace Network

section Plays

variable {c c' : Client Addr} {peer : Option Peer} {p : Peer} {j : Nat}

theorem Play.held (h : Play server file flen peer c) (hh : Client.Held server file c c')
    (hrun : c.done = false) : Play server file flen peer c' := by
  refine ⟨?_, ?_, fun hdone => ?_, ?_, ?_, ?_, ?_, ?_, ?_⟩
  · rw [hh.blk, hh.index]
    exact h.blk
  · rw [hh.first, hh.index]
    exact h.first
  · rw [hh.put, hh.current]
    exact ⟨(hh.running hdone).1.trans (h.running hrun).1, (hh.running hdone).2⟩
  · rw [hh.index, hh.serverPort]
    exact h.bound
  · rw [hh.put]
    exact h.same
  · rw [hh.put, hh.index, hh.accepted]
    exact h.got
  · rw [hh.put, hh.index]
    exact h.small
  · intro hput _
    rw [hh.index, hh.data, hh.remain]
    exact h.place (hh.put ▸ hput) hrun
  · rw [hh.put, hh.index]
    exact h.taken

/-- The block that is going on is the block of its number. -/
theorem Play.sendData (h : Play server file flen peer c) (hput : c.put = true)
    (hrun : c.done = false) (hindex : c.index ≠ 0) : c.sendData server file =
      .data server c.serverPort (BitVec.ofNat 16 c.index) (blockOf file flen.toNat c.index) := by
  obtain ⟨hdata, hremain⟩ := h.place hput hrun hindex
  obtain ⟨hsmall, hle⟩ := h.small hput
  have hblock : blockLength = 512 := rfl
  have hfull : (c.index - 1) * blockLength ≤ flen.toNat := by
    unfold blocks at hle
    rw [hblock] at hle ⊢
    omega
  have hlen : (BitVec.ofInt 16 (min c.remain blockLength)).toNat =
      min blockLength (flen.toNat - (c.index - 1) * blockLength) := by
    rw [hremain, hdata, BitVec.toNat_ofInt, Int.emod_eq_of_lt]
    · omega
    · omega
    · rw [hblock]
      omega
  rw [Client.sendData, hlen, hdata, h.blk, blockOf]

/-- What the client sends last is of its session. -/
theorem Play.carries (h : Play server file flen peer c) (hrun : c.done = false) :
    Carries file flen c c.index (c.current server file) := by
  unfold Client.current Client.request
  by_cases hfirst : c.first = true
  · rw [if_pos hfirst]
    cases hput : c.put
    · exact hput
    · exact hput
  · have hindex : c.index ≠ 0 := fun h0 => hfirst (h.first.mpr h0)
    rw [if_neg hfirst]
    cases hput : c.put
    · exact ⟨hput, Nat.le_refl _⟩
    · rw [if_pos rfl, h.sendData hput hrun hindex]
      exact ⟨hput, Nat.le_refl _, rfl⟩

theorem Carries.mono {index : Nat} {q : Packet Addr} (h : Carries file flen c index q)
    (hput : c'.put = c.put) (hle : c.index ≤ c'.index) : Carries file flen c' index q := by
  cases q with
  | rrq => exact hput.trans h
  | wrq => exact hput.trans h
  | ack => exact ⟨hput.trans h.1, h.2.trans hle⟩
  | data => exact ⟨hput.trans h.1, h.2.1.trans hle, h.2.2⟩
  | err => trivial

/-- A block that goes out is the one that is going on. -/
theorem Play.current_data (h : Play server file flen peer c) (hrun : c.done = false)
    {addr : Addr} {port b : BitVec 16} {bytes : Bytes}
    (heq : c.current server file = .data addr port b bytes) : ∃ p, peer = some p ∧
      c.put = true ∧ addr = server ∧ port = p.port ∧ b = BitVec.ofNat 16 c.index ∧
        bytes = blockOf file flen.toNat c.index := by
  unfold Client.current Client.request at heq
  by_cases hfirst : c.first = true
  · rw [if_pos hfirst] at heq
    split at heq <;> exact Packet.noConfusion rfl (heq_of_eq heq)
  · have hindex : c.index ≠ 0 := fun h0 => hfirst (h.first.mpr h0)
    obtain ⟨p, hp, hport⟩ := h.bound hindex
    rw [if_neg hfirst] at heq
    cases hput : c.put
    · rw [hput] at heq
      exact Packet.noConfusion rfl (heq_of_eq heq)
    · rw [if_pos hput, h.sendData hput hrun hindex] at heq
      obtain ⟨rfl, rfl, rfl, rfl⟩ := Packet.data.inj heq
      exact ⟨p, hp, rfl, rfl, hport, rfl, rfl⟩

end Plays

section Steps

variable {first s t : Network Addr} {c' : Client Addr} {e : NetEvent Addr} {d : Datagram Addr}

/-- What the invariant says of the state that a step leads to -/
theorem NetInv.law (ht : NetInv server file flen first t)
    (hresend : e = .timeout → s.client.retry < maxRetries →
      ∃ p, s.client.last = some p ∧ t.client.out = [p])
    (htakes : ∀ j p, e = .data s.session j → s.peer s.session = some p → s.client.put = false →
      j = s.client.index + 1 →
        t.client.index = j ∧ t.client.accepted = s.client.accepted ++ [blockOf p.file p.len j])
    (hgoes : ∀ j p, e = .ack s.session j → s.peer s.session = some p → s.client.put = true →
      j = s.client.index → j < blocks flen.toNat → t.client.index = j + 1 ∧ t.client.out =
        [.data server p.port (BitVec.ofNat 16 (j + 1)) (blockOf file flen.toNat (j + 1))])
    (horder : t.session = s.session →
      t.client.index = s.client.index ∨ t.client.index = s.client.index + 1)
    (hsends : ∀ addr port b bytes, .data addr port b bytes ∈ t.client.out → ∃ p,
      t.peer t.session = some p ∧ t.client.put = true ∧ addr = server ∧ port = p.port ∧
        b = BitVec.ofNat 16 t.client.index ∧ bytes = blockOf file flen.toNat t.client.index)
    (hstarts : ∀ put, e = .select put → t.client.retry = 0 ∧ t.client.serverPort = tftpPort ∧
      t.client.data = first.client.data ∧ t.client.remain = first.client.remain) :
    StepLaw server file flen first s e t := by
  refine ⟨hresend, htakes, hgoes, horder, fun hput => ?_, hsends, fun p hp hput => ?_,
    fun hf => (ht.ended hf).2, hstarts⟩
  · obtain ⟨-, hnone, hgot⟩ := ht.play.got hput
    by_cases hindex : t.client.index = 0
    · exact .inl (hnone hindex)
    · obtain ⟨p, hp, -⟩ := ht.play.bound hindex
      exact .inr ⟨p, hp, (hgot p hp).1⟩
  · exact (ht.play.taken hput p hp).1

theorem NetInv.session_ne (h : NetInv server file flen first s) (hrun : s.client.done = false) :
    s.session ≠ 0 := fun h0 => Bool.noConfusion (hrun.symm.trans (h.began h0))

/-- The client goes on in its session. -/
theorem NetInv.post (h : NetInv server file flen first s) (hrun : s.client.done = false)
    (hplay : Play server file flen (s.peer s.session) c') (hput : c'.put = s.client.put)
    (hle : s.client.index ≤ c'.index) (hout : ∀ p ∈ c'.out, Carries file flen c' c'.index p)
    (hrested : c'.done = true → c'.retry = 0)
    (hunmoved : (∀ a ∈ (s.post c').answered, a = (false, tftpPort)) → c'.serverPort = tftpPort ∧
      c'.data = first.client.data ∧ c'.remain = first.client.remain)
    (hcounted : c'.first = false → (c'.put, c'.serverPort) ∈ (s.post c').answered)
    (hended : c'.finished = true → c'.done = true ∧ (s.post c').Transferred file flen) :
    NetInv server file flen first (s.post c') := by
  refine ⟨hplay, fun m hm hsession => ?_, fun m hm => ?_, h.serving, fun _ => hrested,
    fun h0 => absurd h0 (h.session_ne hrun), hunmoved, hcounted, hended⟩
  · rcases List.mem_append.mp hm with hm | hm
    · exact (h.wire m hm hsession).mono hput hle
    · obtain ⟨p, hp, rfl⟩ := List.mem_map.mp hm
      exact hout p hp
  · rcases List.mem_append.mp hm with hm | hm
    · exact h.fresh m hm
    · obtain ⟨p, hp, rfl⟩ := List.mem_map.mp hm
      exact Nat.le_refl _

/-- No session is counted while the server's port is not asked for anew. -/
theorem answered_post (hfirst : c'.first = s.client.first) :
    (s.post c').answered = s.answered := by
  show (if s.client.first && !c'.first then _ else _) = _
  rw [hfirst, Bool.and_not_self]
  exact if_neg Bool.false_ne_true

/-- A session is counted when the server's port is known. -/
theorem answered_first (hs : s.client.first = true) (hc : c'.first = false) :
    (s.post c').answered = s.answered ++ [(c'.put, c'.serverPort)] := by
  show (if s.client.first && !c'.first then _ else _) = _
  rw [hs, hc]
  rfl

/-- Then it is counted as long as it lasts. -/
theorem NetInv.counted_post (h : NetInv server file flen first s) (hput : c'.put = s.client.put)
    (hport : s.client.first = false → c'.serverPort = s.client.serverPort)
    (hc : c'.first = false) : (c'.put, c'.serverPort) ∈ (s.post c').answered := by
  cases hf : s.client.first
  · rw [answered_post (hc.trans hf.symm), hput, hport hf]
    exact h.counted hf
  · rw [answered_first hf hc]
    exact List.mem_append_right _ (List.mem_singleton_self _)

theorem NetInv.held (h : NetInv server file flen first s) (hrun : s.client.done = false)
    (hh : Client.Held server file s.client c') (hrested : c'.done = true → c'.retry = 0) :
    NetInv server file flen first (s.post c') := by
  have hanswered := answered_post (s := s) hh.first
  refine h.post hrun (h.play.held hh hrun) hh.put (Nat.le_of_eq hh.index.symm) (fun p hp => ?_)
    hrested (fun hall => ?_) (fun hf => ?_) (fun hf => ?_)
  · rcases hh.sent p hp with ⟨code, rfl⟩ | rfl
    · trivial
    · rw [hh.index]
      exact (h.play.carries hrun).mono hh.put (Nat.le_of_eq hh.index.symm)
  · rw [hanswered] at hall
    rw [hh.serverPort, hh.data, hh.remain]
    exact h.unmoved hall
  · rw [hanswered, hh.put, hh.serverPort]
    exact h.counted (hh.first.symm.trans hf)
  · exact Bool.noConfusion (hrun.symm.trans (h.ended (hh.finished.symm.trans hf)).1)

/-- The law of a step that leaves the session at its block -/
theorem NetInv.heldLaw (h : NetInv server file flen first s) (hrun : s.client.done = false)
    (hh : Client.Held server file s.client c') (hrested : c'.done = true → c'.retry = 0)
    (hresend : e = .timeout → s.client.retry < maxRetries →
      ∃ p, s.client.last = some p ∧ c'.out = [p])
    (htakes : ∀ j p, e = .data s.session j → s.peer s.session = some p → s.client.put = false →
      j ≠ s.client.index + 1)
    (hgoes : ∀ j p, e = .ack s.session j → s.peer s.session = some p → s.client.put = true →
      j = s.client.index → ¬ j < blocks flen.toNat)
    (hstarts : ∀ put, e ≠ .select put) : StepLaw server file flen first s e (s.post c') := by
  refine (h.held hrun hh hrested).law hresend (fun j p he hp hput hj => ?_)
    (fun j p he hp hput hj hlt => ?_) (fun _ => .inl hh.index) (fun addr port b bytes hmem => ?_)
    (fun put he => absurd he (hstarts put))
  · exact absurd hj (htakes j p he hp hput)
  · exact absurd hlt (hgoes j p he hp hput hj)
  · show ∃ p, s.peer s.session = some p ∧ c'.put = true ∧ addr = server ∧ port = p.port ∧
      b = BitVec.ofNat 16 c'.index ∧ bytes = blockOf file flen.toNat c'.index
    rw [hh.put, hh.index]
    rcases hh.sent _ hmem with ⟨code, heq⟩ | heq
    · exact Packet.noConfusion rfl (heq_of_eq heq)
    · exact h.play.current_data hrun heq.symm

end Steps

end Network

end Ma35d1.Tftp
