import Ma35d1.Tftp.ClientSteps

/-!
# The sessions of the client

The block or the acknowledgement that the client waits for, the start of a session and the steps of
the server; then every step, and the run.
-/

namespace Ma35d1.Tftp

open Ma35d1.Machine
open Ma35d1.Machine.Trace

variable {Addr : Type*} {server : Addr} {file : Nat → BitVec 8} {flen : BitVec 32}

namespace Client

variable {c c' : Client Addr} {d : Datagram Addr}

theorem Held.of_heard (h : Held server file c.heard c') : Held server file c c' :=
  ⟨h.put, h.serverPort, h.blk, h.first, h.data, h.remain, h.index, h.accepted, h.finished,
    h.running, h.sent⟩

theorem takeBlock_retry : (c.takeBlock server d).retry = c.retry := by
  unfold takeBlock settle
  split_ifs <;> rfl

/-- No datagram counts as a retry. -/
theorem dispatch_retry [DecidableEq Addr] : (c.dispatch server file flen d).retry = c.retry := by
  have hdata : (c.heardData server d).retry = c.retry := by
    unfold heardData
    split_ifs
    · rfl
    · rfl
    · exact takeBlock_retry
    · rfl
  have hack : (c.heardAck server file flen d).retry = c.retry := by
    unfold heardAck
    split_ifs <;> rfl
  unfold dispatch
  split_ifs
  · rfl
  · exact hdata
  · exact hack
  · rfl
  · rfl

/-- What the next block of a get leads to -/
structure Taken (server : Addr) (c : Client Addr) (d : Datagram Addr) (c' : Client Addr) :
    Prop where
  put : c'.put = c.put
  port : c'.serverPort = if c.first then d.port else c.serverPort
  blk : c'.blk = d.newBlk
  first : c'.first = false
  data : c'.data = c.data
  remain : c'.remain = c.remain
  index : c'.index = c.index + 1
  accepted : c'.accepted = c.accepted ++ [d.blockBytes]
  out : c'.out = [c'.sendAck server]
  last : c'.last = some (c'.sendAck server)
  short : d.payload.length < blockLength + 4 ∧ c'.done = true ∨
    ¬ d.payload.length < blockLength + 4 ∧ c'.done = c.done ∧ c'.state = c.state ∧
      c'.finished = c.finished

theorem takeBlock_taken : Taken server c d (c.takeBlock server d) := by
  have hfirst : (c.settle d).first = false := by
    unfold settle
    split_ifs with hf
    · rfl
    · exact Bool.eq_false_of_not_eq_true hf
  have hport : (c.settle d).serverPort = if c.first then d.port else c.serverPort := by
    unfold settle
    split_ifs <;> rfl
  have hrest : (c.settle d).put = c.put ∧ (c.settle d).data = c.data ∧
      (c.settle d).remain = c.remain ∧ (c.settle d).index = c.index ∧
        (c.settle d).accepted = c.accepted ∧ (c.settle d).done = c.done ∧
          (c.settle d).state = c.state ∧ (c.settle d).finished = c.finished := by
    unfold settle
    split_ifs <;> exact ⟨rfl, rfl, rfl, rfl, rfl, rfl, rfl, rfl⟩
  obtain ⟨hput, hdata, hremain, hindex, hacc, hdone, hstate, hfinished⟩ := hrest
  unfold takeBlock
  by_cases hshort : d.payload.length < blockLength + 4
  · rw [if_pos hshort]
    exact ⟨hput, hport, rfl, hfirst, hdata, hremain, congrArg (· + 1) hindex,
      congrArg (· ++ [d.blockBytes]) hacc, rfl, rfl, .inl ⟨hshort, rfl⟩⟩
  · rw [if_neg hshort]
    exact ⟨hput, hport, rfl, hfirst, hdata, hremain, congrArg (· + 1) hindex,
      congrArg (· ++ [d.blockBytes]) hacc, rfl, rfl, .inr ⟨hshort, hdone, hstate, hfinished⟩⟩

/-- Where the next block goes to -/
theorem dispatch_take [DecidableEq Addr] (hs : c.state = .rrq) (haddr : d.addr = server)
    (hop : d.op = opcodeData) (hnext : d.newBlk.toNat = c.blk.toNat + 1) :
    c.dispatch server file flen d = c.takeBlock server d := by
  have hne : d.newBlk ≠ c.blk := fun heq => by
    rw [heq] at hnext
    exact Nat.ne_of_lt (Nat.lt_succ_self _) hnext
  rw [dispatch, if_neg (not_not_intro haddr), if_pos hop, heardData, if_neg (not_not_intro hs),
    if_neg hne, if_pos hnext]

/-- Where an acknowledgement of the client that writes goes to -/
theorem dispatch_ack [DecidableEq Addr] (haddr : d.addr = server) (hop : d.op = opcodeAck) :
    c.dispatch server file flen d = c.heardAck server file flen d := by
  have hne : d.op ≠ opcodeData := by
    rw [hop]
    decide
  rw [dispatch, if_neg (not_not_intro haddr), if_neg hne, if_pos hop]

end Client

namespace Network

variable {first s t : Network Addr} {c : Client Addr} {e : NetEvent Addr}
  {d : Datagram Addr} {peer : Option Peer} {p : Peer} {j : Nat}

theorem Play.heard (h : Play server file flen peer c) : Play server file flen peer c.heard :=
  ⟨h.blk, h.first, h.running, h.bound, h.same, h.got, h.small, h.place, h.taken⟩

theorem Play.quiet (h : Play server file flen peer c) : Play server file flen peer c.quiet :=
  ⟨h.blk, h.first, h.running, h.bound, h.same, h.got, h.small, h.place, h.taken⟩

/-- A datagram that is not what the client waits for -/
theorem NetInv.receivedHeld [DecidableEq Addr] (h : NetInv server file flen first s)
    (hno : ¬ s.client.Takes server d) (ht : s.received server file flen d = some t)
    (hnot : e ≠ .timeout ∧ ∀ put, e ≠ .select put)
    (htakes : ∀ j p, e = .data s.session j → s.peer s.session = some p → s.client.put = false →
      j ≠ s.client.index + 1)
    (hgoes : ∀ j p, e = .ack s.session j → s.peer s.session = some p → s.client.put = true →
      j = s.client.index → ¬ j < blocks flen.toNat) :
    NetInv server file flen first t ∧ StepLaw server file flen first s e t := by
  unfold received at ht
  by_cases hdone : s.client.done = true
  · rw [if_pos hdone] at ht
    exact Option.noConfusion rfl (heq_of_eq ht)
  rw [if_neg hdone] at ht
  obtain rfl := Option.some.inj ht
  have hrun := Bool.eq_false_of_not_eq_true hdone
  have hheld : Client.Held server file s.client (s.client.heard.dispatch server file flen d) :=
    (Client.dispatch_held (h.play.heard.running hrun) rfl hno).of_heard
  have hrested : (s.client.heard.dispatch server file flen d).done = true →
      (s.client.heard.dispatch server file flen d).retry = 0 := fun _ => Client.dispatch_retry
  exact ⟨h.held hrun hheld hrested, h.heldLaw hrun hheld hrested (fun he => absurd he hnot.1) htakes
    hgoes hnot.2⟩

theorem Play.state_of_get (h : Play server file flen peer c) (hrun : c.done = false)
    (hput : c.put = false) : c.state = .rrq := by
  have hstate := (h.running hrun).1
  rwa [hput] at hstate

theorem Play.state_of_put (h : Play server file flen peer c) (hrun : c.done = false)
    (hput : c.put = true) : c.state = .wrq := by
  have hstate := (h.running hrun).1
  rwa [hput] at hstate

/-- The next block of a get -/
theorem NetInv.take (h : NetInv server file flen first s) (hrun : s.client.done = false)
    (hp : s.peer s.session = some p) (hsent : p.HasSent (s.client.index + 1))
    (hlt : s.client.index + 1 < 2 ^ 16) {c' : Client Addr}
    (hc : Client.Taken server s.client.heard (p.dataOf server (s.client.index + 1)) c')
    (hretry : c'.retry = 0) : NetInv server file flen first (s.post c') := by
  obtain ⟨hpput, -, hturn, hblocks⟩ := hsent
  have hput : s.client.put = false := (h.play.same p hp).symm.trans hpput
  have hput' : c'.put = false := hc.put.trans hput
  have hnot : ∀ {q : Prop}, c'.put = true → q := fun hq => Bool.noConfusion (hput'.symm.trans hq)
  obtain ⟨-, -, hgot⟩ := h.play.got hput
  obtain ⟨hacc, hturn', -⟩ := hgot p hp
  have hindex : c'.index = s.client.index + 1 := hc.index
  have hport : c'.serverPort = p.port := by
    rw [hc.port]
    split
    · rfl
    · rename_i hfirst
      have hne : s.client.index ≠ 0 := fun h0 => hfirst (h.play.first.mpr h0)
      obtain ⟨q, hq, hport⟩ := h.play.bound hne
      obtain rfl := Option.some.inj (hp.symm.trans hq)
      exact hport
  have hport' : s.client.first = false → c'.serverPort = s.client.serverPort := fun hf => by
    have hf' : ¬ s.client.heard.first = true := fun ht => Bool.noConfusion (hf.symm.trans ht)
    rw [hc.port, if_neg hf']
    rfl
  have haccepted : c'.accepted = blocksOf p.file p.len c'.index := by
    rw [hindex, blocksOf_succ, ← hacc]
    exact hc.accepted
  have hcurrent : c'.current server file = c'.sendAck server := by
    rw [Client.current, hc.first, hput']
    rfl
  have hplay : Play server file flen (s.peer s.session) c' := by
    refine ⟨?_, ?_, fun hdone => ?_, fun _ => ⟨p, hp, hport⟩, fun q hq => ?_, fun _ => ?_,
      fun hq => hnot hq, fun hq => hnot hq, fun hq => hnot hq⟩
    · rw [hc.blk, newBlk_dataOf, hindex]
    · rw [hc.first, hindex]
      exact iff_of_false Bool.false_ne_true (Nat.succ_ne_zero _)
    · rcases hc.short with ⟨-, hd⟩ | ⟨-, -, hstate, -⟩
      · exact Bool.noConfusion (hdone.symm.trans hd)
      · refine ⟨?_, hc.last.trans (congrArg some hcurrent.symm)⟩
        rw [hput', hstate]
        exact h.play.state_of_get hrun hput
    · rw [hput']
      exact (h.play.same q hq).trans hput
    · refine ⟨hindex ▸ hlt, fun h0 => absurd (hindex.symm.trans h0) (Nat.succ_ne_zero _), ?_⟩
      intro q hq
      obtain rfl := Option.some.inj (hp.symm.trans hq)
      exact ⟨haccepted, hindex ▸ hturn'.trans (Nat.le_succ _), hindex ▸ hblocks⟩
  have hunfinished : s.client.finished = false := by
    by_contra hf
    exact Bool.noConfusion (hrun.symm.trans (h.ended (Bool.eq_true_of_not_eq_false hf)).1)
  refine h.post hrun hplay hc.put (hindex ▸ Nat.le_succ _) (fun q hq => ?_) (fun _ => hretry)
    (fun hall => ?_) (h.counted_post hc.put hport') (fun hf => ?_)
  · rw [hc.out] at hq
    obtain rfl := List.mem_singleton.mp hq
    exact ⟨hput', Nat.le_refl _⟩
  · rw [hc.data, hc.remain]
    by_cases hfirst : s.client.first = true
    · rw [answered_first hfirst hc.first] at hall
      have hlast := hall _ (List.mem_append_right _ (List.mem_singleton_self _))
      exact ⟨(Prod.mk.inj hlast).2,
        (h.unmoved fun a ha => hall a (List.mem_append_left _ ha)).2⟩
    · have hf := Bool.eq_false_of_not_eq_true hfirst
      rw [answered_post (hc.first.trans hf.symm)] at hall
      rw [hport' hf]
      exact h.unmoved hall
  · rcases hc.short with ⟨hshort, hd⟩ | ⟨-, -, -, hfin⟩
    · refine ⟨hd, p, hp, ?_⟩
      have hlast : s.client.index + 1 = blocks p.len := by
        refine (blockOf_short hblocks).mp (?_ : (blockOf p.file _ _).length < _)
        rw [length_dataOf] at hshort
        exact Nat.lt_of_add_lt_add_right hshort
      show if c'.put then _ else c'.accepted = _
      rw [hput', haccepted, hindex, hlast]
      rfl
    · exact Bool.noConfusion (hunfinished.symm.trans (hfin.symm.trans hf))

/-- What the next block of a put leads to -/
structure Written (server : Addr) (file : Nat → BitVec 8) (flen : BitVec 32) (p : Peer)
    (c c' : Client Addr) : Prop where
  put : c'.put = c.put
  state : c'.state = c.state
  done : c'.done = c.done
  finished : c'.finished = c.finished
  first : c'.first = false
  index : c'.index = c.index + 1
  blk : c'.blk = c.blk + 1
  port : c'.serverPort = p.port
  bound : c.first = false → c'.serverPort = c.serverPort
  data : c'.data = c.index * blockLength
  remain : c'.remain = flen.toNat - c'.data
  out : c'.out = [c'.sendData server file]
  last : c'.last = some (c'.sendData server file)
  upto : c.index + 1 ≤ blocks flen.toNat

/-- The next block of a put -/
theorem NetInv.write (h : NetInv server file flen first s) (hrun : s.client.done = false)
    (hp : s.peer s.session = some p) (hput : s.client.put = true) {c' : Client Addr}
    (hc : Written server file flen p s.client c') : NetInv server file flen first (s.post c') ∧
      c'.out = [.data server p.port (BitVec.ofNat 16 (s.client.index + 1))
        (blockOf file flen.toNat (s.client.index + 1))] := by
  have hput' : c'.put = true := hc.put.trans hput
  have hnot : ∀ {q : Prop}, c'.put = false → q := fun hq => Bool.noConfusion (hput'.symm.trans hq)
  have hrun' : c'.done = false := hc.done.trans hrun
  have hne : c'.index ≠ 0 := hc.index ▸ Nat.succ_ne_zero _
  have hcurrent : c'.current server file = c'.sendData server file := by
    rw [Client.current, hc.first, hput']
    rfl
  have hplay : Play server file flen (s.peer s.session) c' := by
    refine ⟨?_, ?_, fun _ => ?_, fun _ => ⟨p, hp, hc.port⟩, fun q hq => ?_, fun hq => hnot hq,
      fun _ => ?_, fun _ _ _ => ⟨?_, hc.remain⟩, fun _ q hq => ?_⟩
    · rw [hc.blk, hc.index, h.play.blk, BitVec.ofNat_add]
      rfl
    · rw [hc.first]
      exact iff_of_false Bool.false_ne_true hne
    · refine ⟨?_, hc.last.trans (congrArg some hcurrent.symm)⟩
      rw [hput', hc.state]
      exact h.play.state_of_put hrun hput
    · rw [hput']
      exact (h.play.same q hq).trans hput
    · rw [hc.index]
      exact ⟨(h.play.small hput).1, hc.upto⟩
    · rw [hc.data, hc.index, Nat.add_sub_cancel]
    · obtain ⟨htaken, hle⟩ := h.play.taken hput q hq
      exact ⟨htaken, hle.trans (hc.index ▸ Nat.le_succ _)⟩
  have hout : c'.out = [.data server p.port (BitVec.ofNat 16 (s.client.index + 1))
      (blockOf file flen.toNat (s.client.index + 1))] := by
    rw [hc.out, hplay.sendData hput' hrun' hne, hc.port, hc.index]
  refine ⟨h.post hrun hplay hc.put (hc.index ▸ Nat.le_succ _) (fun q hq => ?_)
    (fun hd => Bool.noConfusion (hrun'.symm.trans hd)) (fun hall => ?_)
    (h.counted_post hc.put hc.bound) (fun hf => ?_), hout⟩
  · rw [hout] at hq
    obtain rfl := List.mem_singleton.mp hq
    exact ⟨hput', Nat.le_refl _, by rw [hc.index]⟩
  · -- a put that was answered is counted
    have hcounted := hall _ (h.counted_post hc.put hc.bound hc.first)
    exact hnot (Prod.mk.inj hcounted).1
  · exact Bool.noConfusion (hrun.symm.trans (h.ended (hc.finished.symm.trans hf)).1)

/-- The last block of a put is acknowledged. -/
theorem NetInv.wrote (h : NetInv server file flen first s) (hrun : s.client.done = false)
    (hp : s.peer s.session = some p) (hput : s.client.put = true)
    (htaken : p.HasTaken s.client.index) (hne : s.client.index ≠ 0)
    (hend : s.client.remain - blockLength < 0) {r : Int} :
    NetInv server file flen first
      (s.post { s.client.heard with remain := r }.finish) ∧ s.client.index = blocks flen.toNat := by
  obtain ⟨hdata, hremain⟩ := h.play.place hput hrun hne
  obtain ⟨hsmall, hle⟩ := h.play.small hput
  have hblock : blockLength = 512 := rfl
  have hindex : s.client.index = blocks flen.toNat := by
    unfold blocks at hle ⊢
    rw [hremain, hdata, hblock] at hend
    rw [hblock] at hle ⊢
    omega
  obtain ⟨hbegin, hupto⟩ := h.play.taken hput p hp
  have hall : p.taken = blocksOf file flen.toNat (blocks flen.toNat) := by
    rw [hbegin, ← hindex, Nat.le_antisymm hupto htaken.2]
  have hplay : Play server file flen (s.peer s.session)
      { s.client.heard with remain := r }.finish :=
    ⟨h.play.blk, h.play.first, fun hd => Bool.noConfusion hd, h.play.bound, h.play.same,
      h.play.got, h.play.small, fun _ hd => Bool.noConfusion hd, h.play.taken⟩
  have hf : s.client.first = false := by
    by_contra hf
    exact hne (h.play.first.mp (Bool.eq_true_of_not_eq_false hf))
  have hanswered : (s.post { s.client.heard with remain := r }.finish).answered = s.answered :=
    answered_post rfl
  refine ⟨h.post hrun hplay rfl (Nat.le_refl _) (fun q hq => absurd hq List.not_mem_nil)
    (fun _ => rfl) (fun hold => ?_) (fun _ => ?_) (fun _ => ⟨rfl, p, hp, ?_⟩), hindex⟩
  · rw [hanswered] at hold
    have hcounted := hold _ (h.counted hf)
    exact Bool.noConfusion (hput.symm.trans (Prod.mk.inj hcounted).1)
  · rw [hanswered]
    exact h.counted hf
  · show if s.client.put then p.taken = _ else _
    rw [hput]
    exact hall

/-- The first block of a put, when the request is acknowledged -/
theorem NetInv.opened (h : NetInv server file flen first s) (hput : s.client.put = true)
    (hindex : s.client.index = 0) (hd : d.port = p.port) :
    Written server file flen p s.client ((s.client.heard.openPut flen d).say
      ((s.client.heard.openPut flen d).sendData server file)) := by
  have hf : s.client.first = true := h.play.first.mpr hindex
  have hdata : 0 = s.client.index * blockLength := by rw [hindex, Nat.zero_mul]
  have hremain : flen.toInt = flen.toNat - ((0 : Nat) : Int) := by
    have hsmall := (h.play.small hput).1
    rw [BitVec.toInt_eq_toNat_of_lt (by omega)]
    omega
  refine ⟨rfl, rfl, rfl, rfl, rfl, rfl, rfl, hd, fun hf' => ?_, hdata, hremain, rfl, rfl, ?_⟩
  · exact Bool.noConfusion (hf.symm.trans hf')
  · rw [hindex]
    exact Nat.succ_le_succ (Nat.zero_le _)

/-- And the blocks after it -/
theorem NetInv.continued (h : NetInv server file flen first s) (hrun : s.client.done = false)
    (hp : s.peer s.session = some p) (hput : s.client.put = true) (hne : s.client.index ≠ 0)
    (hmore : ¬ s.client.remain - blockLength < 0) :
    Written server file flen p s.client
      (s.client.heard.nextBlock.say (s.client.heard.nextBlock.sendData server file)) := by
  obtain ⟨hdata, hremain⟩ := h.play.place hput hrun hne
  obtain ⟨q, hq, hport⟩ := h.play.bound hne
  obtain rfl := Option.some.inj (hp.symm.trans hq)
  have hblock : blockLength = 512 := rfl
  have hf : s.client.first = false := by
    by_contra hf
    exact hne (h.play.first.mp (Bool.eq_true_of_not_eq_false hf))
  have hplace : s.client.data + blockLength = s.client.index * blockLength := by
    rw [hdata, hblock]
    omega
  refine ⟨rfl, rfl, rfl, rfl, hf, rfl, rfl, hport, fun _ => rfl, hplace, ?_, rfl, rfl, ?_⟩
  · show s.client.remain - blockLength = flen.toNat - ((s.client.data + blockLength : Nat) : Int)
    rw [hremain, Nat.cast_add]
    omega
  · unfold blocks
    rw [hremain, hdata, hblock] at hmore
    rw [hblock]
    omega

/-- The start of a session -/
theorem NetInv.select (h : NetInv server file flen first s) {put : Bool}
    (hbegins : s.Begins flen put) : NetInv server file flen first
      ({ s with session := s.session + 1 }.post (s.client.quiet.select server put)) := by
  have hnone : s.peer (s.session + 1) = none := by
    cases hp : s.peer (s.session + 1) with
    | none => rfl
    | some p => exact absurd (h.serving _ p hp) (Nat.not_succ_le_self _)
  have hanswered : ({ s with session := s.session + 1 }.post
      (s.client.quiet.select server put)).answered = s.answered := by
    show (if s.client.first && !true then _ else _) = _
    rw [Bool.not_true, Bool.and_false]
    exact if_neg Bool.false_ne_true
  refine ⟨⟨rfl, iff_of_true rfl rfl, fun _ => ⟨rfl, rfl⟩, fun hne => absurd rfl hne,
      fun p hp => ?_, fun _ => ⟨Nat.zero_lt_succ _, fun _ => rfl, fun p hp => ?_⟩,
      fun hput => ⟨hbegins.2.2 hput, Nat.zero_le _⟩, fun _ _ hne => absurd rfl hne,
      fun _ p hp => ?_⟩, fun m hm hsession => ?_, fun m hm => ?_, fun n p hp => ?_,
    fun _ hd => Bool.noConfusion hd, fun h0 => absurd h0 (Nat.succ_ne_zero _), fun hall => ?_,
    fun hf => Bool.noConfusion hf, fun hf => Bool.noConfusion hf⟩
  · exact Option.noConfusion rfl (heq_of_eq (hnone.symm.trans hp))
  · exact Option.noConfusion rfl (heq_of_eq (hnone.symm.trans hp))
  · exact Option.noConfusion rfl (heq_of_eq (hnone.symm.trans hp))
  · rcases List.mem_append.mp hm with hm | hm
    · have hle := h.fresh m hm
      rw [show m.session = s.session + 1 from hsession] at hle
      exact absurd hle (Nat.not_succ_le_self _)
    · obtain ⟨q, hq, rfl⟩ := List.mem_map.mp hm
      obtain rfl := List.mem_singleton.mp hq
      show Carries file flen (s.client.quiet.select server put) _
        ((s.client.quiet.reset put).request server)
      unfold Client.request
      cases put
      · exact rfl
      · exact rfl
  · rcases List.mem_append.mp hm with hm | hm
    · exact (h.fresh m hm).trans (Nat.le_succ _)
    · obtain ⟨q, hq, rfl⟩ := List.mem_map.mp hm
      exact Nat.le_refl _
  · exact (h.serving n p hp).trans (Nat.le_succ _)
  · exact h.unmoved (hanswered ▸ hall)

/-- What a session begins with -/
theorem NetInv.selectLaw (h : NetInv server file flen first s) (hdone : s.client.done = true)
    {put : Bool} (hbegins : s.Begins flen put) : StepLaw server file flen first s (.select put)
      ({ s with session := s.session + 1 }.post (s.client.quiet.select server put)) := by
  refine (h.select hbegins).law (fun he => nomatch he) (fun _ _ he => nomatch he)
    (fun _ _ he => nomatch he) (fun hsession => absurd hsession (Nat.succ_ne_self _))
    (fun addr port b bytes hmem => ?_) (fun _ _ => ⟨?_, h.unmoved hbegins.2.1⟩)
  · have heq : Packet.data addr port b bytes = (s.client.quiet.reset put).request server :=
      List.mem_singleton.mp hmem
    unfold Client.request at heq
    split at heq <;> exact Packet.noConfusion rfl (heq_of_eq heq)
  · show s.client.retry = 0
    by_cases h0 : s.session = 0
    · exact hbegins.1 h0
    · exact h.rested h0 hdone

/-! ## The server's steps -/

/-- The server goes on in a session. -/
theorem NetInv.peered (h : NetInv server file flen first s) {n : Nat} {q : Peer}
    (hn : n ≤ s.session)
    (hplay : n = s.session → Play server file flen (some q) s.client)
    (hended : n = s.session → s.client.finished = true →
      if s.client.put then q.taken = blocksOf file flen.toNat (blocks flen.toNat)
      else s.client.accepted = blocksOf q.file q.len (blocks q.len)) :
    NetInv server file flen first (s.peered n q) := by
  refine ⟨?_, fun m hm hsession => (h.wire m hm hsession).mono rfl (Nat.le_refl _), h.fresh,
    fun m p hp => ?_, h.rested, h.began, h.unmoved, h.counted, fun hf => ⟨(h.ended hf).1, ?_⟩⟩
  · show Play server file flen (Function.update s.peer n (some q) s.session) s.client.quiet
    by_cases heq : n = s.session
    · rw [← heq, Function.update_self]
      exact (hplay heq).quiet
    · rw [Function.update_of_ne (Ne.symm heq)]
      exact h.play.quiet
  · by_cases heq : m = n
    · exact heq ▸ hn
    · have hold : Function.update s.peer n (some q) m = some p := hp
      rw [Function.update_of_ne heq] at hold
      exact h.serving m p hold
  · by_cases heq : n = s.session
    · exact ⟨q, heq ▸ Function.update_self .., hended heq hf⟩
    · obtain ⟨p, hp, hall⟩ := (h.ended hf).2
      exact ⟨p, (Function.update_of_ne (Ne.symm heq) ..).trans hp, hall⟩

/-- The law of a step of the server -/
theorem NetInv.peeredLaw {n : Nat} {q : Peer} (ht : NetInv server file flen first (s.peered n q))
    (he : e ≠ .timeout ∧ (∀ n j, e ≠ .data n j) ∧ (∀ n j, e ≠ .ack n j) ∧ ∀ put, e ≠ .select put) :
    StepLaw server file flen first s e (s.peered n q) :=
  ht.law (fun h => absurd h he.1) (fun _ _ h => absurd h (he.2.1 _ _))
    (fun _ _ h => absurd h (he.2.2.1 _ _)) (fun _ => .inl rfl)
    (fun _ _ _ _ hmem => absurd hmem List.not_mem_nil) (fun _ h => absurd h (he.2.2.2 _))

variable [DecidableEq Addr]

/-- The request of the session is answered. -/
theorem NetInv.serve (h : NetInv server file flen first s) {n : Nat} {put : Bool}
    {port : BitVec 16} {served : Nat → BitVec 8} {len : Nat}
    (ht : step server file flen s (.serve n put port served len) = some t) :
    NetInv server file flen first t ∧
      StepLaw server file flen first s (.serve n put port served len) t := by
  obtain ⟨⟨hnone, hrequest⟩, ht⟩ := Option.ite_none_right_eq_some.mp ht
  obtain rfl := Option.some.inj ht
  have hinv : NetInv server file flen first (s.peered n ⟨put, port, served, len, 0, []⟩) := by
    refine h.peered (h.fresh _ hrequest) (fun heq => ?_) (fun heq hf => ?_)
    · subst heq
      have hindex : s.client.index = 0 := by
        by_contra hne
        obtain ⟨p, hp, -⟩ := h.play.bound hne
        exact Option.noConfusion rfl (heq_of_eq (hnone.symm.trans hp))
      have hput : put = s.client.put := by
        have hcarries := h.wire _ hrequest rfl
        cases put
        · exact hcarries.symm
        · exact hcarries.symm
      refine ⟨h.play.blk, h.play.first, h.play.running, fun hne => absurd hindex hne,
        fun p hp => Option.some.inj hp ▸ hput, fun hget => ?_, h.play.small, h.play.place,
        fun _ p hp => Option.some.inj hp ▸ ⟨rfl, Nat.zero_le _⟩⟩
      obtain ⟨hlt, hempty, -⟩ := h.play.got hget
      refine ⟨hlt, hempty, fun p hp => Option.some.inj hp ▸ ?_⟩
      rw [hindex]
      exact ⟨hempty hindex, Nat.le_refl _, Nat.zero_le _⟩
    · obtain ⟨p, hp, -⟩ := (h.ended hf).2
      rw [← heq] at hp
      exact Option.noConfusion rfl (heq_of_eq (hnone.symm.trans hp))
  exact ⟨hinv, hinv.peeredLaw ⟨nofun, nofun, nofun, nofun⟩⟩

/-- The server hears an acknowledgement. -/
theorem NetInv.serverAck (h : NetInv server file flen first s) {n : Nat}
    (ht : step server file flen s (.serverAck n) = some t) :
    NetInv server file flen first t ∧ StepLaw server file flen first s (.serverAck n) t := by
  obtain ⟨p, hp, ht⟩ := Option.bind_eq_some_iff.mp ht
  obtain ⟨⟨hget, hack⟩, ht⟩ := Option.ite_none_right_eq_some.mp ht
  obtain rfl := Option.some.inj ht
  have hinv : NetInv server file flen first (s.peered n { p with turn := p.turn + 1 }) := by
    refine h.peered (h.serving n p hp) (fun heq => ?_) (fun heq hf => ?_)
    · subst heq
      have hplay := h.play
      rw [hp] at hplay
      have hput : s.client.put = false := (hplay.same p rfl).symm.trans hget
      refine ⟨hplay.blk, hplay.first, hplay.running, fun hne => ?_,
        fun q hq => Option.some.inj hq ▸ hplay.same p rfl, fun _ => ?_, hplay.small, hplay.place,
        fun hq => Bool.noConfusion (hput.symm.trans hq)⟩
      · obtain ⟨q, hq, hport⟩ := hplay.bound hne
        exact ⟨_, rfl, Option.some.inj hq ▸ hport⟩
      · obtain ⟨hlt, hempty, hgot⟩ := hplay.got hput
        obtain ⟨hacc, -, hle⟩ := hgot p rfl
        exact ⟨hlt, hempty, fun q hq => Option.some.inj hq ▸ ⟨hacc, (h.wire _ hack rfl).2, hle⟩⟩
    · obtain ⟨q, hq, hall⟩ := (h.ended hf).2
      subst heq
      obtain rfl := Option.some.inj (hp.symm.trans hq)
      exact hall
  exact ⟨hinv, hinv.peeredLaw ⟨nofun, nofun, nofun, nofun⟩⟩

/-- The server takes a block. -/
theorem NetInv.serverData (h : NetInv server file flen first s) {n : Nat} {bytes : Bytes}
    (ht : step server file flen s (.serverData n bytes) = some t) :
    NetInv server file flen first t ∧
      StepLaw server file flen first s (.serverData n bytes) t := by
  obtain ⟨p, hp, ht⟩ := Option.bind_eq_some_iff.mp ht
  obtain ⟨⟨hget, hdata⟩, ht⟩ := Option.ite_none_right_eq_some.mp ht
  obtain rfl := Option.some.inj ht
  have hinv : NetInv server file flen first
      (s.peered n { p with taken := p.taken ++ [bytes] }) := by
    refine h.peered (h.serving n p hp) (fun heq => ?_) (fun heq hf => ?_)
    · subst heq
      have hplay := h.play
      rw [hp] at hplay
      have hput : s.client.put = true := (hplay.same p rfl).symm.trans hget
      refine ⟨hplay.blk, hplay.first, hplay.running, fun hne => ?_,
        fun q hq => Option.some.inj hq ▸ hplay.same p rfl,
        fun hq => Bool.noConfusion (hput.symm.trans hq), hplay.small, hplay.place,
        fun _ q hq => Option.some.inj hq ▸ ?_⟩
      · obtain ⟨q, hq, hport⟩ := hplay.bound hne
        exact ⟨_, rfl, Option.some.inj hq ▸ hport⟩
      · obtain ⟨-, hle, hbytes⟩ := h.wire _ hdata rfl
        have hprefix := (hplay.taken hput p rfl).1
        have hlen : (p.taken ++ [bytes]).length = p.taken.length + 1 := List.length_append
        refine ⟨?_, hlen ▸ hle⟩
        show p.taken ++ [bytes] = blocksOf file flen.toNat (p.taken ++ [bytes]).length
        rw [hlen, blocksOf_succ, ← hprefix]
        exact congrArg (p.taken ++ [·]) hbytes
    · -- the file has no block after the last one
      obtain ⟨q, hq, hall⟩ := (h.ended hf).2
      subst heq
      obtain rfl := Option.some.inj (hp.symm.trans hq)
      obtain ⟨hput, hle, -⟩ := h.wire _ hdata rfl
      rw [hput] at hall
      have hfull : p.taken.length = blocks flen.toNat := by
        rw [show p.taken = _ from hall, length_blocksOf]
      have hupto := (h.play.small hput).2
      have hle' : p.taken.length + 1 ≤ s.client.index := hle
      omega
  exact ⟨hinv, hinv.peeredLaw ⟨nofun, nofun, nofun, nofun⟩⟩

/-! ## The client's steps -/

/-- A datagram is heard in a session only. -/
theorem received_running (ht : s.received server file flen d = some t) :
    s.client.done = false ∧ t = s.post (s.client.heard.dispatch server file flen d) := by
  unfold received at ht
  split at ht
  · exact Option.noConfusion rfl (heq_of_eq ht)
  · rename_i hdone
    exact ⟨Bool.eq_false_of_not_eq_true hdone, (Option.some.inj ht).symm⟩

/-- A block of this session -/
theorem NetInv.data (h : NetInv server file flen first s) (hp : s.peer s.session = some p)
    (hsent : p.HasSent j) (hcomes : s.client.state = .rrq → j < 2 ^ 16)
    (ht : s.received server file flen (p.dataOf server j) = some t) :
    NetInv server file flen first t ∧
      StepLaw server file flen first s (.data s.session j) t := by
  obtain ⟨hrun, -⟩ := received_running ht
  have hput : s.client.put = false := (h.play.same p hp).symm.trans hsent.1
  have hstate := h.play.state_of_get hrun hput
  obtain ⟨hlt, -, hgot⟩ := h.play.got hput
  obtain ⟨-, hturn, -⟩ := hgot p hp
  have hj : j ≤ s.client.index + 1 := hsent.2.2.1.trans (Nat.succ_le_succ hturn)
  have hnum : (BitVec.ofNat 16 j).toNat = j := by
    rw [BitVec.toNat_ofNat, Nat.mod_eq_of_lt (hcomes hstate)]
  have hblk : s.client.blk.toNat = s.client.index := by
    rw [h.play.blk, BitVec.toNat_ofNat, Nat.mod_eq_of_lt hlt]
  by_cases hnext : j = s.client.index + 1
  · subst hnext
    obtain ⟨-, rfl⟩ := received_running ht
    have htake : s.client.heard.dispatch server file flen (p.dataOf server (s.client.index + 1)) =
        s.client.heard.takeBlock server (p.dataOf server (s.client.index + 1)) := by
      refine Client.dispatch_take hstate rfl op_dataOf ?_
      rw [newBlk_dataOf, hnum]
      exact congrArg (· + 1) hblk.symm
    rw [htake]
    have hc : Client.Taken server s.client.heard (p.dataOf server (s.client.index + 1))
        (s.client.heard.takeBlock server (p.dataOf server (s.client.index + 1))) :=
      Client.takeBlock_taken
    have hinv := h.take hrun hp hsent (hcomes hstate) hc Client.takeBlock_retry
    refine ⟨hinv, hinv.law (fun he => nomatch he) (fun j' q he hq _ _ => ?_)
      (fun _ _ he => nomatch he) (fun _ => .inr hc.index) (fun addr port b bytes hmem => ?_)
      (fun _ he => nomatch he)⟩
    · obtain ⟨-, rfl⟩ := NetEvent.data.inj he
      obtain rfl := Option.some.inj (hp.symm.trans hq)
      exact ⟨hc.index, hc.accepted⟩
    · have hmem' : Packet.data addr port b bytes ∈
          (s.client.heard.takeBlock server (p.dataOf server (s.client.index + 1))).out := hmem
      rw [hc.out] at hmem'
      exact Packet.noConfusion rfl (heq_of_eq (List.mem_singleton.mp hmem'))
  · have hno : ¬ s.client.Takes server (p.dataOf server j) := by
      rintro ⟨-, ⟨-, -, hnew | ⟨hfirst, hnew⟩⟩ | ⟨hop, -⟩⟩
      · rw [newBlk_dataOf, hnum, hblk] at hnew
        exact hnext hnew
      · rw [newBlk_dataOf] at hnew
        have hnew' := congrArg BitVec.toNat hnew
        rw [hnum, hblk, h.play.first.mp hfirst] at hnew'
        exact absurd hsent.2.1 (by omega)
      · rw [op_dataOf] at hop
        exact absurd hop (by decide)
    exact h.receivedHeld hno ht ⟨nofun, nofun⟩
      (fun j' q he _ _ => (NetEvent.data.inj he).2 ▸ hnext) (fun _ _ he => nomatch he)

/-- An acknowledgement of this session -/
theorem NetInv.ack (h : NetInv server file flen first s) (hp : s.peer s.session = some p)
    (htaken : p.HasTaken j) (hacked : s.client.blk = BitVec.ofNat 16 j → j = s.client.index)
    (ht : s.received server file flen (p.ackOf server j) = some t) :
    NetInv server file flen first t ∧
      StepLaw server file flen first s (.ack s.session j) t := by
  obtain ⟨hrun, rfl⟩ := received_running ht
  have hput : s.client.put = true := (h.play.same p hp).symm.trans htaken.1
  have hstate : s.client.heard.state = .wrq := h.play.state_of_put hrun hput
  have hupto : j ≤ s.client.index := htaken.2.trans (h.play.taken hput p hp).2
  have hdispatch : s.client.heard.dispatch server file flen (p.ackOf server j) =
      s.client.heard.heardAck server file flen (p.ackOf server j) :=
    Client.dispatch_ack rfl op_ackOf
  -- what is left to say of the next block
  have hwritten : ∀ c', j = s.client.index → Written server file flen p s.client c' →
      NetInv server file flen first (s.post c') ∧
        StepLaw server file flen first s (.ack s.session j) (s.post c') := by
    intro c' hj hc
    obtain ⟨hinv, hout⟩ := h.write hrun hp hput hc
    refine ⟨hinv, hinv.law (fun he => by cases he) (fun _ _ he => by cases he)
      (fun j' q he hq _ _ _ => ?_) (fun _ => .inr hc.index) (fun addr port b bytes hmem => ?_)
      (fun _ he => by cases he)⟩
    · obtain ⟨-, rfl⟩ := NetEvent.ack.inj he
      obtain rfl := Option.some.inj (hp.symm.trans hq)
      rw [hj]
      exact ⟨hc.index, hout⟩
    · have hmem' : Packet.data addr port b bytes ∈ c'.out := hmem
      rw [hout] at hmem'
      obtain ⟨rfl, rfl, rfl, rfl⟩ := Packet.data.inj (List.mem_singleton.mp hmem')
      show ∃ p, s.peer s.session = some p ∧ c'.put = true ∧ _
      rw [hc.put, show (s.post c').client.index = _ from hc.index]
      exact ⟨p, hp, hput, rfl, rfl, rfl, rfl⟩
  by_cases hindex : s.client.index = 0
  · have hj : j = 0 := Nat.le_zero.mp (hindex ▸ hupto)
    have hnew : ¬ (p.ackOf server j).newBlk ≠ 0 := by
      rw [newBlk_ackOf, hj]
      exact not_not_intro rfl
    have hfirst : s.client.heard.first = true := h.play.first.mpr hindex
    rw [hdispatch, Client.heardAck, if_neg (not_not_intro hstate), if_pos hfirst, if_neg hnew]
    exact hwritten _ (hj.trans hindex.symm) (h.opened hput hindex rfl)
  have hfirst : ¬ s.client.heard.first = true := fun hf => hindex (h.play.first.mp hf)
  by_cases hnow : s.client.blk = BitVec.ofNat 16 j
  · have hj := hacked hnow
    have hnew : (p.ackOf server j).newBlk = s.client.heard.blk := newBlk_ackOf.trans hnow.symm
    have hprev : ¬ ((p.ackOf server j).newBlk.toNat : Int) = s.client.heard.blk.toNat - 1 := by
      rw [hnew]
      omega
    rw [hdispatch, Client.heardAck, if_neg (not_not_intro hstate), if_neg hfirst, if_neg hprev,
      if_pos hnew]
    by_cases hend : s.client.remain - blockLength < 0
    · rw [if_pos (show s.client.heard.remain - blockLength < 0 from hend)]
      obtain ⟨hinv, hall⟩ := h.wrote hrun hp hput (hj ▸ htaken) hindex hend
      refine ⟨hinv, hinv.law (fun he => by cases he) (fun _ _ he => by cases he)
        (fun j' q he _ _ hj' hlt => ?_) (fun _ => .inl rfl)
        (fun _ _ _ _ hmem => absurd hmem List.not_mem_nil) (fun _ he => by cases he)⟩
      rw [hj', hall] at hlt
      exact absurd hlt (Nat.lt_irrefl _)
    · rw [if_neg (show ¬ s.client.heard.remain - blockLength < 0 from hend)]
      exact hwritten _ hj (h.continued hrun hp hput hindex hend)
  · have hno : ¬ s.client.Takes server (p.ackOf server j) := by
      rintro ⟨-, ⟨hop, -⟩ | ⟨-, -, hnew⟩⟩
      · rw [op_ackOf] at hop
        exact absurd hop (by decide)
      · rw [newBlk_ackOf, if_neg (show ¬ s.client.first = true from hfirst)] at hnew
        exact hnow hnew.symm
    refine h.receivedHeld hno ht ⟨fun he => (by cases he), fun _ he => (by cases he)⟩
      (fun _ _ he => by cases he) fun j' q he _ _ hj' => ?_
    obtain ⟨-, rfl⟩ := NetEvent.ack.inj he
    exact absurd (hj' ▸ h.play.blk) hnow

omit [DecidableEq Addr] in
/-- A time-out before the server has answered, or after too many of them -/
theorem NetInv.timeout (h : NetInv server file flen first s) (hrun : s.client.done = false)
    (hkept : s.client.first = true ∨ maxRetries ≤ s.client.retry) :
    NetInv server file flen first (s.post (s.client.quiet.timeout server file)) ∧
      StepLaw server file flen first s .timeout
        (s.post (s.client.quiet.timeout server file)) := by
  obtain ⟨hstate, hlast⟩ := h.play.running hrun
  have hbusy : ¬ s.client.quiet.state = .idle := fun hs => by
    rw [show s.client.state = .idle from hs] at hstate
    split at hstate <;> exact State.noConfusion hstate
  have hfacts : Client.Held server file s.client (s.client.quiet.timeout server file) ∧
      ((s.client.quiet.timeout server file).done = true →
        (s.client.quiet.timeout server file).retry = 0) ∧
      (s.client.retry < maxRetries →
        (s.client.quiet.timeout server file).out = [s.client.current server file]) := by
    rw [Client.timeout, if_neg hbusy]
    by_cases hover : maxRetries < s.client.quiet.retry + 1
    · rw [if_pos hover]
      refine ⟨⟨rfl, rfl, rfl, rfl, rfl, rfl, rfl, rfl, rfl, fun hd => Bool.noConfusion hd,
        fun _ hp => absurd hp List.not_mem_nil⟩, fun _ => rfl, fun hlt => ?_⟩
      exact absurd hover (Int.not_lt.mpr hlt)
    · rw [if_neg hover]
      have hfirst : s.client.first = true :=
        hkept.resolve_right fun hle => hover (Int.lt_add_one_of_le hle)
      have hresent : s.client.quiet.resent server file = s.client.current server file := by
        rw [Client.resent, Client.current, Client.request, if_pos hfirst]
        rw [show s.client.quiet.state = s.client.state from rfl, hstate]
        rw [show s.client.quiet.first = true from hfirst]
        cases s.client.put <;> rfl
      rw [hresent]
      exact ⟨⟨rfl, rfl, rfl, rfl, rfl, rfl, rfl, rfl, rfl, fun _ => ⟨rfl, rfl⟩,
        fun _ hp => .inr (List.mem_singleton.mp hp)⟩,
        fun hd => Bool.noConfusion (hrun.symm.trans hd), fun _ => rfl⟩
  obtain ⟨hheld, hrested, hout⟩ := hfacts
  exact ⟨h.held hrun hheld hrested, h.heldLaw hrun hheld hrested
    (fun _ hlt => ⟨_, hlast, hout hlt⟩) (fun _ _ he => by cases he) (fun _ _ he => by cases he) (fun _ he => by cases he)⟩

/-- **One step under the condition** -/
theorem NetInv.step (h : NetInv server file flen first s) (hk : ClientKept server flen s e)
    (ht : step server file flen s e = some t) :
    NetInv server file flen first t ∧ StepLaw server file flen first s e t := by
  cases e with
  | select put =>
    obtain ⟨hdone, ht⟩ := Option.ite_none_right_eq_some.mp ht
    obtain rfl := Option.some.inj ht
    exact ⟨h.select hk, h.selectLaw hdone hk⟩
  | timeout =>
    obtain ⟨hdone, ht⟩ := Option.ite_none_left_eq_some.mp ht
    obtain rfl := Option.some.inj ht
    exact h.timeout (Bool.eq_false_of_not_eq_true hdone) hk
  | error =>
    obtain ⟨hdone, ht⟩ := Option.ite_none_left_eq_some.mp ht
    obtain rfl := Option.some.inj ht
    have hrun := Bool.eq_false_of_not_eq_true hdone
    have hheld : Client.Held server file s.client s.client.quiet :=
      ⟨rfl, rfl, rfl, rfl, rfl, rfl, rfl, rfl, rfl, fun _ => ⟨rfl, (h.play.running hrun).2⟩,
        fun _ hp => absurd hp List.not_mem_nil⟩
    have hrested : s.client.quiet.done = true → s.client.quiet.retry = 0 := fun hd =>
      Bool.noConfusion (hrun.symm.trans hd)
    exact ⟨h.held hrun hheld hrested, h.heldLaw hrun hheld hrested (fun he => nomatch he)
      (fun _ _ he => nomatch he) (fun _ _ he => nomatch he) nofun⟩
  | stray d =>
    exact h.receivedHeld hk ht ⟨nofun, nofun⟩ (fun _ _ he => nomatch he)
      (fun _ _ he => nomatch he)
  | data n j =>
    obtain ⟨p, hp, hsome⟩ := Option.bind_eq_some_iff.mp ht
    obtain ⟨hsent, hrecv⟩ := Option.ite_none_right_eq_some.mp hsome
    have hcomes := hk p hp
    unfold Comes at hcomes
    by_cases hn : n = s.session
    · rw [if_pos hn] at hcomes
      subst hn
      exact h.data hp hsent hcomes hrecv
    · rw [if_neg hn] at hcomes
      exact h.receivedHeld hcomes hrecv ⟨nofun, nofun⟩
        (fun _ _ he => absurd (NetEvent.data.inj he).1 hn) (fun _ _ he => nomatch he)
  | ack n j =>
    obtain ⟨p, hp, hsome⟩ := Option.bind_eq_some_iff.mp ht
    obtain ⟨htaken, hrecv⟩ := Option.ite_none_right_eq_some.mp hsome
    have hacked := hk p hp
    unfold Acked at hacked
    by_cases hn : n = s.session
    · rw [if_pos hn] at hacked
      subst hn
      exact h.ack hp htaken hacked hrecv
    · rw [if_neg hn] at hacked
      exact h.receivedHeld hacked hrecv ⟨nofun, nofun⟩ (fun _ _ he => nomatch he)
        (fun _ _ he => absurd (NetEvent.ack.inj he).1 hn)
  | serve n put port served len => exact h.serve ht
  | serverAck n => exact h.serverAck ht
  | serverData n bytes => exact h.serverData ht

omit [DecidableEq Addr] in
theorem netInv_start (data : Nat) (remain retry : Int) : NetInv server file flen
    (start data remain retry) (start data remain retry) := by
  refine ⟨⟨rfl, iff_of_true rfl rfl, fun hd => Bool.noConfusion hd, fun hne => absurd rfl hne,
      fun _ hp => (nomatch hp),
      fun _ => ⟨Nat.zero_lt_succ _, fun _ => rfl, fun _ hp => (nomatch hp)⟩,
      fun hp => Bool.noConfusion hp, fun hp => Bool.noConfusion hp,
      fun hp => Bool.noConfusion hp⟩,
    fun m hm => absurd hm List.not_mem_nil, fun m hm => absurd hm List.not_mem_nil,
    fun _ _ hp => (nomatch hp), fun hne => absurd rfl hne, fun _ => rfl, fun _ => ⟨rfl, rfl, rfl⟩,
    fun hf => Bool.noConfusion hf, fun hf => Bool.noConfusion hf⟩

/-- **The client's transfers.** In every run whose steps meet the condition, every step keeps the
law. -/
theorem run_clientLaw (server : Addr) (file : Nat → BitVec 8) (flen : BitVec 32) (data : Nat)
    (remain retry : Int) (es : List (NetEvent Addr))
    (hkept : EachStep (step server file flen) (ClientKept server flen) (start data remain retry)
      es) :
    EachStep (step server file flen) (ClientLaw server file flen (start data remain retry))
      (start data remain retry) es := by
  refine eachStep_of_eachStep (P := NetInv server file flen (start data remain retry))
    (fun s e t h hk ht => ⟨(h.step hk ht).1, fun u hu => ?_⟩) (netInv_start data remain retry) hkept
  obtain rfl := Option.some.inj (ht.symm.trans hu)
  exact (h.step hk ht).2

/-- A get of an empty file after a lost request, then a put of an empty file to another port -/
theorem run_clientLaw_transfers :
    EachStep (step 1 (fun _ => 0) 0) (ClientLaw 1 (fun _ => 0) 0 (start 0 0 0)) (start 0 0 0)
      [.select false, .timeout, .serve 1 false tftpPort (fun _ => 0) 0, .data 1 1, .select true,
        .serve 2 true 1024 (fun _ => 0) 0, .ack 2 0, .serverData 2 [], .ack 2 0, .ack 2 1] :=
  run_clientLaw (1 : Nat) (fun _ => 0) 0 0 0 0 _ (by decide)

/-- A get of two blocks: the first has come, and the second is late. -/
def lateBlock : List (NetEvent Nat) :=
  [.select false, .serve 1 false tftpPort (fun _ => 0) 512, .data 1 1]

theorem not_clientLaw_late : ¬ EachStep (step 1 (fun _ => 0) 0)
    (ClientLaw 1 (fun _ => 0) 0 (start 0 0 0)) (start 0 0 0) (lateBlock ++ [.timeout]) := by
  intro hlaw
  have hbefore : (run (step 1 (fun _ => 0) 0) (start 0 0 0) lateBlock).map (fun s =>
      (s.client.retry, s.client.last)) = some (0, some (.ack 1 tftpPort 1)) := by decide +kernel
  have hafter : (run (step 1 (fun _ => 0) 0) (start 0 0 0) (lateBlock ++ [.timeout])).map
      (fun s => s.client.out) = some [.data 1 tftpPort 1 []] := by decide +kernel
  obtain ⟨s, hs, hlast⟩ := Option.map_eq_some_iff.mp hbefore
  obtain ⟨t, ht, hout⟩ := Option.map_eq_some_iff.mp hafter
  rw [run_append, hs] at ht
  have hstep : (step 1 (fun _ => 0) 0 s .timeout).bind some = some t := ht
  obtain ⟨u, hu, hnil⟩ := Option.bind_eq_some_iff.mp hstep
  obtain rfl := Option.some.inj hnil
  obtain ⟨hretry, hlast⟩ := Prod.mk.inj hlast
  obtain ⟨p, hp, hsent⟩ := (((hlaw.append hs) _ hu).1 _ hu).resend rfl (hretry ▸ by decide)
  rw [hlast] at hp
  rw [hout, ← Option.some.inj hp] at hsent
  exact absurd hsent (by decide)

end Network

end Ma35d1.Tftp
