import Ma35d1.Tftp.ServerLaw

/-!
# The sessions of the TFTP server

One lemma for each thing a datagram leads to; then the law and the condition are the same at every
step, and so along every run from the start of the thread.
-/

namespace Ma35d1.Tftp.Server

open Ma35d1.Machine
open Ma35d1.Machine.Trace

variable {Addr : Type*} {file : Nat → BitVec 8} {s t : Server Addr} {d : Datagram Addr}
  {a a' alloc : Bool}

/-- An opcode that is none of a block, as the branches test it -/
theorem not_isData (hop : d.op ≠ opcodeData) (n : BitVec 16) : ¬ d.IsData n := fun h => hop h.2.1

theorem not_isAck (hop : d.op ≠ opcodeAck) (n : BitVec 16) : ¬ d.IsAck n := fun h => hop h.2.1

/-- The law after a datagram that leaves the numbers of the session as they are -/
theorem Inv.keepRecv (h : Inv s) (hsame : Same s t)
    (hstate : t.state = s.state ∨ t.state = .idle ∧ (s.state ≠ .idle → s.FromClient d))
    (hclient : t.clientAddr = s.clientAddr ∧ t.clientPort = s.clientPort)
    (hdata : s.state = .wrq → s.FromClient d →
      ¬ d.IsData (s.blk + 1) ∧ (d.IsData s.blk → s.accepted = []))
    (hack : s.state = .rrq → s.FromClient d → ¬ d.IsAck s.blk)
    (hread : ∀ addr port b bytes, .data addr port b bytes ∈ t.out →
      addr = s.clientAddr ∧ port = s.clientPort ∧ bytes = fileBlock file b.toNat)
    (hdone : t.done = false) (hsafe : t.stray = false) : StepLaw file s (.recv d a a') t := by
  refine h.keep hsame (hstate.imp id And.left) hclient ?_ ?_ ?_ hread hdone hsafe
  · refine hstate.imp id fun hown d' _ _ he => ?_
    obtain ⟨rfl, -, -⟩ := ServerEvent.recv.inj he
    exact hown.2
  · rintro d' _ _ he
    obtain ⟨rfl, -, -⟩ := ServerEvent.recv.inj he
    exact hdata
  · rintro d' _ _ he hs hfrom hshort
    obtain ⟨rfl, -, -⟩ := ServerEvent.recv.inj he
    exact hack hs hfrom hshort.1

/-- Nothing of the file is in an acknowledgement. -/
theorem not_mem_ack {blk : BitVec 16} {addr : Addr} {port b : BitVec 16} {bytes : Bytes} :
    .data addr port b bytes ∉ send alloc (s.sendAck blk) := fun hmem => nomatch mem_send hmem

/-- And nothing in an error. -/
theorem not_mem_err {dst addr : Addr} {port' port b : BitVec 16} {code : Error} {bytes : Bytes} :
    .data addr port b bytes ∉ send alloc (.err dst port' code) := fun hmem => nomatch mem_send hmem

/-! ## What a datagram leads to -/

/-- The first packet of a session, or a refusal -/
theorem Inv.request (h : Inv s) (hop : d.op = opcodeRrq ∨ d.op = opcodeWrq)
    (hsafe : d.past 0 = false) (hinv : Inv ((s.heard d).request file d a)) :
    StepLaw file s (.recv d a a') ((s.heard d).request file d a) := by
  have hdata : d.op ≠ opcodeData := by rcases hop with hop | hop <;> rw [hop] <;> decide
  have hack : d.op ≠ opcodeAck := by rcases hop with hop | hop <;> rw [hop] <;> decide
  by_cases hidle : s.state = .idle
  · refine ⟨fun _ _ _ _ hne => absurd hidle hne, fun _ _ _ _ hs => ?_, fun _ _ _ _ hs => ?_,
      fun hs => ?_, hinv.numbered, ?_, fun hs => ?_, ?_⟩
    · exact State.noConfusion (hidle.symm.trans hs)
    · exact State.noConfusion (hidle.symm.trans hs)
    · exact State.noConfusion (hidle.symm.trans hs)
    · intro addr port b bytes
      rw [Server.request, if_pos (show (s.heard d).state = .idle from hidle)]
      split
      · exact (Inv.openRead (s.heard d)).read_out rfl
      · exact fun hmem => absurd hmem not_mem_ack
    · exact State.noConfusion (hidle.symm.trans hs)
    · rw [Server.request, if_pos (show (s.heard d).state = .idle from hidle)]
      split <;> exact hsafe
  · rw [Server.request, if_neg (show ¬ (s.heard d).state = .idle from hidle)]
    exact h.keepRecv ⟨rfl, rfl, rfl, rfl⟩ (.inl rfl) ⟨rfl, rfl⟩
      (fun _ _ => ⟨not_isData hdata _, fun hd => absurd hd (not_isData hdata _)⟩)
      (fun _ _ => not_isAck hack _)
      (fun _ _ _ _ hmem => absurd hmem not_mem_err) rfl hsafe

/-- A block of the client that writes -/
theorem Inv.writeBlock (h : Inv s) (hop : d.op = opcodeData) (hfrom : s.FromClient d)
    (hs : s.state = .wrq) (hlong : 4 ≤ d.payload.length)
    (hnew : (d.newBlk = s.blk → s.accepted = []) ∧ ¬ (s.blk = 0xFFFF ∧ d.newBlk = 0))
    (hsafe : ((s.heard d).looked d).stray = false)
    (hinv : Inv (((s.heard d).looked d).writeBlock d a a')) :
    StepLaw file s (.recv d a a') (((s.heard d).looked d).writeBlock d a a') := by
  have hone : (1 : BitVec 16).toNat = 1 := rfl
  by_cases hnext : d.newBlk.toNat = s.blk.toNat + 1
  · have hblk : d.newBlk = s.blk + 1 := by
      apply BitVec.eq_of_toNat_eq
      rw [hnext, BitVec.toNat_add, hone, Nat.mod_eq_of_lt (hnext ▸ d.newBlk.isLt)]
    have hshort : d.payload.length < blockLength + 4 ↔ d.blockBytes.length < blockLength := by
      rw [Datagram.blockBytes, List.length_drop]
      omega
    have heq : ((s.heard d).looked d).writeBlock d a a' =
        { (s.heard d).looked d with
          accepted := s.accepted ++ [d.blockBytes], blk := d.newBlk
          out := send a (s.sendAck d.newBlk)
          state := if d.payload.length < blockLength + 4 then .idle else s.state
          done := d.payload.length < blockLength + 4 } := if_pos hnext
    rw [heq] at hinv ⊢
    refine ⟨?_, ?_, ?_, fun _ => ?_, hinv.numbered, ?_, fun hr => ?_, hsafe⟩
    · rintro d' _ _ he - hfrom'
      obtain ⟨rfl, -, -⟩ := ServerEvent.recv.inj he
      exact absurd hfrom hfrom'
    · rintro d' _ _ he - - -
      obtain ⟨rfl, -, -⟩ := ServerEvent.recv.inj he
      refine ⟨rfl, hblk, ?_⟩
      show (if d.payload.length < blockLength + 4 then State.idle else s.state) = _
      rw [hs]
      exact if_congr hshort rfl rfl
    · rintro d' _ _ he - - hd -
      obtain ⟨rfl, -, -⟩ := ServerEvent.recv.inj he
      rw [hd.2.2] at hnext
      exact absurd hnext (Nat.ne_of_lt (Nat.lt_succ_self _))
    · exact .inr ⟨d, a, a', rfl, hfrom, hlong, hop, hblk⟩
    · exact fun _ _ _ _ hmem => absurd hmem not_mem_ack
    · exact State.noConfusion (hs.symm.trans hr)
  · have heq : ((s.heard d).looked d).writeBlock d a a' =
        { (s.heard d).looked d with
          out := (if d.newBlk = s.blk then send a (s.sendAck s.blk) else []) ++
            send a' (.err d.addr d.port .unknownId)
          state := .idle } := if_neg hnext
    rw [heq]
    refine h.keepRecv ⟨rfl, rfl, rfl, rfl⟩ (.inr ⟨rfl, fun _ => hfrom⟩) ⟨rfl, rfl⟩
      (fun _ _ => ⟨fun hd => ?_, fun hd => hnew.1 hd.2.2⟩)
      (fun hr => State.noConfusion (hs.symm.trans hr)) (fun addr port b bytes hmem => ?_) rfl hsafe
    · -- the next number as 16 bits but not as an integer
      have hlast : s.blk = 0xFFFF := by
        rw [hd.2.2, BitVec.toNat_add, hone] at hnext
        apply BitVec.eq_of_toNat_eq
        show s.blk.toNat = 65535
        omega
      refine hnew.2 ⟨hlast, ?_⟩
      rw [hd.2.2, hlast]
      rfl
    · rcases List.mem_append.mp hmem with hmem | hmem
      · split at hmem
        · exact absurd hmem not_mem_ack
        · exact absurd hmem List.not_mem_nil
      · exact absurd hmem not_mem_err

/-- An acknowledgement of the client that reads -/
theorem Inv.readAck (h : Inv s) (hop : d.op = opcodeAck) (hfrom : s.FromClient d)
    (hs : s.state = .rrq) (hlong : 4 ≤ d.payload.length)
    (hsafe : ((s.heard d).looked d).stray = false)
    (hinv : Inv (((s.heard d).looked d).readAck file d a)) :
    StepLaw file s (.recv d a a') (((s.heard d).looked d).readAck file d a) := by
  have hread : Inv ((s.heard d).looked d) := h.same ⟨rfl, rfl, rfl, rfl⟩ (.inl rfl)
  have hno : s.state ≠ .wrq := fun hw => State.noConfusion (hs.symm.trans hw)
  obtain ⟨hlo, hhi, hdata, hremain⟩ := h.read hs
  by_cases hprev : (d.newBlk.toNat : Int) = s.blk.toNat - 1
  · have heq : ((s.heard d).looked d).readAck file d a =
        ((s.heard d).looked d).sending file a := if_pos hprev
    rw [heq]
    refine h.keepRecv ⟨rfl, rfl, rfl, rfl⟩ (.inl rfl) ⟨rfl, rfl⟩ (fun hw => absurd hw hno)
      (fun _ _ hd => ?_) (fun _ _ _ _ hmem => hread.read_out hs hmem) rfl hsafe
    rw [hd.2.2] at hprev
    omega
  by_cases hnow : d.newBlk = s.blk
  · have hack : d.IsAck s.blk := ⟨hlong, hop, hnow⟩
    have hshort : (fileBlock file s.blk.toNat).length < blockLength ↔
        ((s.heard d).looked d).acked.remain < 0 := by
      show _ ↔ s.remain - (blockLength : Int) < 0
      rw [fileBlock_short, hremain, hdata]
      unfold blockLength fileLen
      omega
    have hforeign : ∀ d' b b', ServerEvent.recv d a a' = .recv d' b b' → ¬ s.FromClient d' →
        False := by
      rintro d' _ _ he hfrom'
      obtain ⟨rfl, -, -⟩ := ServerEvent.recv.inj he
      exact hfrom' hfrom
    by_cases hend : ((s.heard d).looked d).acked.remain < 0
    · have heq : ((s.heard d).looked d).readAck file d a =
          { ((s.heard d).looked d).acked with state := .idle, done := true } := by
        rw [Server.readAck]
        exact (if_neg hprev).trans ((if_pos hnow).trans (if_pos hend))
      rw [heq] at hinv ⊢
      refine ⟨fun _ _ _ he _ hf => (hforeign _ _ _ he hf).elim, fun _ _ _ _ hw => absurd hw hno,
        fun _ _ _ _ hw => absurd hw hno, fun hw => absurd hw hno, hinv.numbered,
        fun _ _ _ _ hmem => absurd hmem List.not_mem_nil, fun _ => ?_, hsafe⟩
      exact iff_of_true rfl ⟨d, a, a', rfl, hfrom, hack, hshort.mpr hend⟩
    · have heq : ((s.heard d).looked d).readAck file d a =
          ((s.heard d).looked d).acked.nextBlock.sending file a := by
        rw [Server.readAck]
        exact (if_neg hprev).trans ((if_pos hnow).trans (if_neg hend))
      rw [heq] at hinv ⊢
      refine ⟨fun _ _ _ he _ hf => (hforeign _ _ _ he hf).elim, fun _ _ _ _ hw => absurd hw hno,
        fun _ _ _ _ hw => absurd hw hno, fun hw => absurd hw hno, hinv.numbered,
        fun _ _ _ _ hmem => ?_, fun _ => ?_, hsafe⟩
      · exact (hread.nextBlock hs hend).read_out hs hmem
      · refine iff_of_false Bool.false_ne_true ?_
        rintro ⟨-, -, -, -, -, -, hlt⟩
        exact hend (hshort.mp hlt)
  · have heq : ((s.heard d).looked d).readAck file d a =
        { ((s.heard d).looked d).refuse d a .unknownId with state := .idle } := by
      rw [Server.readAck]
      exact (if_neg hprev).trans (if_neg hnow)
    rw [heq]
    exact h.keepRecv ⟨rfl, rfl, rfl, rfl⟩ (.inr ⟨rfl, fun _ => hfrom⟩) ⟨rfl, rfl⟩
      (fun hw => absurd hw hno) (fun _ _ hd => hnow hd.2.2)
      (fun _ _ _ _ hmem => absurd hmem not_mem_err) rfl hsafe

/-! ## Every step -/

/-- Reports go the same way whoever sent them. -/
theorem Received.other_idle (ht : Received file s d a a' t) (hother : d.IsOther)
    (hmaybe : s.MaybeClient d) : t.state = .idle := by
  have hmem : ∀ op ∈ [opcodeRrq, opcodeWrq, opcodeData, opcodeAck], d.op ≠ op :=
    fun op hop heq => hother (heq ▸ hop)
  cases ht with
  | request hop => exact (hop.elim (hmem _ (by decide)) (hmem _ (by decide))).elim
  | write hop => exact (hmem _ (by decide) hop).elim
  | ack hop => exact (hmem _ (by decide) hop).elim
  | illegal hop =>
    rcases hop with ⟨hop, -⟩ | ⟨hop, -⟩
    · exact (hmem _ (by decide) hop).elim
    · exact (hmem _ (by decide) hop).elim
  | error => rfl
  | unknown => rfl
  | ignored _ hfrom => exact absurd hmaybe hfrom

/-- A step of a datagram under the condition -/
theorem Inv.recv [DecidableEq Addr] (h : Inv s) (hlong : s.LongEnough d) (hown : s.OwnReport d)
    (hnew : s.NewBlock d) :
    StepLaw file s (.recv d a a') ((s.heard d).dispatch file d a a') := by
  have hinv : Inv ((s.heard d).dispatch file d a a') := step_inv h (e := .recv d a a') rfl
  have hr : Received file s d a a' ((s.heard d).dispatch file d a a') := dispatch_received
  have hsafe := (stray_iff hr).mpr hlong
  revert hinv hr hsafe
  generalize (s.heard d).dispatch file d a a' = t
  intro hinv hr hsafe
  have hother : ∀ op ∈ [opcodeRrq, opcodeWrq, opcodeData, opcodeAck], d.IsOther → d.op ≠ op :=
    fun op hop ho heq => ho (heq ▸ hop)
  cases hr with
  | request hop => exact h.request hop hlong.1 hinv
  | write hop hfrom hs =>
    have hlen := (d.over_iff 2).mp (hlong.2 (.inl ⟨hop, hfrom, hs⟩))
    exact h.writeBlock hop hfrom hs hlen (hnew hs hfrom hop)
      (Bool.or_eq_false_iff.mpr ⟨hlong.1, hlong.2 (.inl ⟨hop, hfrom, hs⟩)⟩) hinv
  | ack hop hfrom hs =>
    have hlen := (d.over_iff 2).mp (hlong.2 (.inr (.inl ⟨hop, hfrom, hs⟩)))
    exact h.readAck hop hfrom hs hlen
      (Bool.or_eq_false_iff.mpr ⟨hlong.1, hlong.2 (.inr (.inl ⟨hop, hfrom, hs⟩))⟩) hinv
  | illegal hop =>
    have hwrq : s.state = .wrq → s.FromClient d → d.op ≠ opcodeData := fun hs hfrom heq => by
      rcases hop with ⟨-, hc⟩ | ⟨hop, -⟩
      · exact hc ⟨hfrom, hs⟩
      · exact absurd (heq.symm.trans hop) (by decide)
    have hrrq : s.state = .rrq → s.FromClient d → d.op ≠ opcodeAck := fun hs hfrom heq => by
      rcases hop with ⟨hop, -⟩ | ⟨-, hc⟩
      · exact absurd (heq.symm.trans hop) (by decide)
      · exact hc ⟨hfrom, hs⟩
    exact h.keepRecv ⟨rfl, rfl, rfl, rfl⟩ (.inl rfl) ⟨rfl, rfl⟩
      (fun hs hfrom => ⟨not_isData (hwrq hs hfrom) _,
        fun hd => absurd hd (not_isData (hwrq hs hfrom) _)⟩)
      (fun hs hfrom => not_isAck (hrrq hs hfrom) _)
      (fun _ _ _ _ hmem => absurd hmem not_mem_err) rfl hsafe
  | error hop hmaybe =>
    have ho : d.IsOther := by
      rw [Datagram.IsOther, hop]
      decide
    exact h.keepRecv ⟨rfl, rfl, rfl, rfl⟩ (.inr ⟨rfl, fun hne => hown hne ho hmaybe⟩) ⟨rfl, rfl⟩
      (fun _ _ => ⟨not_isData (hother _ (by decide) ho) _,
        fun hd => absurd hd (not_isData (hother _ (by decide) ho) _)⟩)
      (fun _ _ => not_isAck (hother _ (by decide) ho) _)
      (fun _ _ _ _ hmem => absurd hmem List.not_mem_nil) rfl hsafe
  | unknown ho _ hmaybe =>
    exact h.keepRecv ⟨rfl, rfl, rfl, rfl⟩ (.inr ⟨rfl, fun hne => hown hne ho hmaybe⟩) ⟨rfl, rfl⟩
      (fun _ _ => ⟨not_isData (hother _ (by decide) ho) _,
        fun hd => absurd hd (not_isData (hother _ (by decide) ho) _)⟩)
      (fun _ _ => not_isAck (hother _ (by decide) ho) _)
      (fun _ _ _ _ hmem => absurd hmem not_mem_err) rfl hsafe
  | ignored ho =>
    exact h.keepRecv ⟨rfl, rfl, rfl, rfl⟩ (.inl rfl) ⟨rfl, rfl⟩
      (fun _ _ => ⟨not_isData (hother _ (by decide) ho) _,
        fun hd => absurd hd (not_isData (hother _ (by decide) ho) _)⟩)
      (fun _ _ => not_isAck (hother _ (by decide) ho) _)
      (fun _ _ _ _ hmem => absurd hmem List.not_mem_nil) rfl hsafe

/-- A time-out sends the last packet again. -/
theorem Inv.timeout (h : Inv s) : StepLaw file s (.timeout alloc) (s.quiet.timeout file alloc) := by
  refine h.keep (timeout_same alloc).1 (timeout_same alloc).2 ?_ ?_ ?_ ?_ ?_ ?_ ?_
  · unfold Server.timeout
    split_ifs <;> exact ⟨rfl, rfl⟩
  · exact .inr fun _ _ _ he => nomatch he
  · exact fun _ _ _ he => nomatch he
  · exact fun _ _ _ he => nomatch he
  · intro addr port b bytes hmem
    unfold Server.timeout at hmem
    split_ifs at hmem with h1 h2 h3
    · exact absurd hmem List.not_mem_nil
    · exact absurd hmem List.not_mem_nil
    · have hq : Inv s.quiet := h.same ⟨rfl, rfl, rfl, rfl⟩ (.inl rfl)
      exact hq.read_out h3 hmem
    · exact absurd hmem not_mem_ack
  · unfold Server.timeout
    split_ifs <;> rfl
  · unfold Server.timeout
    split_ifs <;> rfl

theorem Inv.error (h : Inv s) : StepLaw file s .error s.quiet :=
  h.keep ⟨rfl, rfl, rfl, rfl⟩ (.inl rfl) ⟨rfl, rfl⟩ (.inl rfl) (fun _ _ _ he => nomatch he)
    (fun _ _ _ he => nomatch he) (fun _ _ _ _ hmem => absurd hmem List.not_mem_nil) rfl rfl

/-- What the law says of a block that the condition forbids -/
theorem StepLaw.newBlock (hlaw : StepLaw file s (.recv d a a') t) (ht : Received file s d a a' t)
    (hlong : s.LongEnough d) : s.NewBlock d := by
  intro hs hfrom hop
  have hlen := (d.over_iff 2).mp (hlong.2 (.inl ⟨hop, hfrom, hs⟩))
  have hone : (1 : BitVec 16).toNat = 1 := rfl
  have hidle : d.newBlk.toNat ≠ s.blk.toNat + 1 → t.state = .idle ∧ t.accepted = s.accepted := by
    intro hne
    cases ht with
    | write =>
      have hne' : ¬ d.newBlk.toNat = ((s.heard d).looked d).blk.toNat + 1 := hne
      rw [Server.writeBlock, if_neg hne']
      exact ⟨rfl, rfl⟩
    | request hop' => rw [hop] at hop'; exact absurd hop' (by decide)
    | ack hop' => rw [hop] at hop'; exact absurd hop' (by decide)
    | illegal hop' =>
      rcases hop' with ⟨-, hc⟩ | ⟨hop', -⟩
      · exact absurd ⟨hfrom, hs⟩ hc
      · rw [hop] at hop'; exact absurd hop' (by decide)
    | error hop' => rw [hop] at hop'; exact absurd hop' (by decide)
    | unknown ho => exact absurd (by rw [hop]; decide) ho
    | ignored ho => exact absurd (by rw [hop]; decide) ho
  refine ⟨fun hsame => ?_, fun hlast => ?_⟩
  · by_contra hacc
    have hwrq := (hlaw.again d a a' rfl hs hfrom ⟨hlen, hop, hsame⟩ hacc).1
    have hne : d.newBlk.toNat ≠ s.blk.toNat + 1 := by
      rw [hsame]
      exact Nat.ne_of_lt (Nat.lt_succ_self _)
    exact State.noConfusion (hwrq.symm.trans (hidle hne).1)
  · have hne : d.newBlk.toNat ≠ s.blk.toNat + 1 := by
      rw [hlast.2]
      exact Nat.zero_ne_add_one _
    have hblk : d.newBlk = s.blk + 1 := by
      rw [hlast.1, hlast.2]
      rfl
    have hacc := (hlaw.next d a a' rfl hs hfrom ⟨hlen, hop, hblk⟩).1
    rw [(hidle hne).2] at hacc
    exact absurd (congrArg List.length hacc) (by simp)

/-- The law of a step is the condition of the step. -/
theorem stepLaw_iff [DecidableEq Addr] {e : ServerEvent Addr} (h : Inv s) :
    SessionLaw file s e ↔ SessionKept s e := by
  cases e with
  | timeout alloc =>
    exact iff_of_true (fun t ht => Option.some.inj ht ▸ h.timeout) trivial
  | error => exact iff_of_true (fun t ht => Option.some.inj ht ▸ h.error) trivial
  | recv d a a' =>
    constructor
    · intro hlaw
      have hlaw := hlaw _ rfl
      have hr : Received file s d a a' ((s.heard d).dispatch file d a a') := dispatch_received
      have hlong := (stray_iff hr).mp hlaw.safe
      refine ⟨hlong, fun hne hother hmaybe => ?_, hlaw.newBlock hr hlong⟩
      by_contra hfrom
      have hstate := (hlaw.foreign d a a' rfl hne hfrom).1
      exact hne (hstate.symm.trans (hr.other_idle hother hmaybe))
    · rintro ⟨hlong, hown, hnew⟩ t ht
      exact Option.some.inj ht ▸ h.recv hlong hown hnew

theorem inv_start (clientAddr : Addr) (clientPort blk : BitVec 16) (data : Nat)
    (remain retry : Int) : Inv (start clientAddr clientPort blk data remain retry) :=
  ⟨fun h => State.noConfusion h, fun h => State.noConfusion h⟩

/-- **The server's sessions.** For any datagrams and time-outs, every step keeps the law of the
sessions exactly when every step meets the condition. -/
theorem run_serverLaw_iff [DecidableEq Addr] (file : Nat → BitVec 8) (clientAddr : Addr)
    (clientPort blk : BitVec 16) (data : Nat) (remain retry : Int) (es : List (ServerEvent Addr)) :
    EachStep (step file) (SessionLaw file) (start clientAddr clientPort blk data remain retry) es ↔
      EachStep (step file) SessionKept (start clientAddr clientPort blk data remain retry) es :=
  eachStep_congr (fun _ _ _ h ht => step_inv h ht) (fun _ _ _ h _ => stepLaw_iff h)
    (inv_start clientAddr clientPort blk data remain retry)

/-- A client writes its first block, and writes it again as if the acknowledgement were lost. -/
def writtenTwice : List (ServerEvent Nat) :=
  let packet (payload : Bytes) : ServerEvent Nat :=
    .recv { addr := 7, port := 1024, payload := payload, behind := fun _ => 0 } true true
  let block := packet ([0, 3, 0, 1] ++ List.replicate blockLength 0)
  [packet [0, 2], block, block]

theorem not_serverLaw_twice : ¬ EachStep (step fun _ => 0) (SessionLaw fun _ => 0)
    (start 0 0 0 0 0 0) writtenTwice := by
  intro hlaw
  have hkept := (eachStep_congr (fun _ _ _ h ht => step_inv h ht) (fun _ _ _ h _ => stepLaw_iff h)
    (inv_start 0 0 0 0 0 0)).mp hlaw
  revert hkept
  decide +kernel

end Ma35d1.Tftp.Server
