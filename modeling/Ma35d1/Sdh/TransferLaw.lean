import Mathlib.Tactic.SplitIfs
import Mathlib.Data.Option.Basic
import Ma35d1.Sdh.Transfer

/-!
# What a block transfer has moved when it returns

The transfer in the controller always is what the bytes moved so far leave of the call, and it waits
at the boundary that the driver programs next.
-/

namespace Ma35d1.Sdh

open Ma35d1.Machine.Trace

variable {ty : CardType} {s t : Host} {e : Event} {c : Call} {buf : Nat}

/-! ## Boundaries -/

theorem segment_succ_mod (k : Nat) : segment buf (k + 1) % bufBoundary = 0 :=
  Nat.mul_mod_left _ _

theorem nextBoundary_segment (k : Nat) : nextBoundary (segment buf k) = segment buf (k + 1) := by
  cases k with
  | zero => exact (Nat.succ_mul _ _).symm
  | succ k =>
    have hpos : 0 < bufBoundary := by decide
    rw [nextBoundary, segment, Nat.mul_div_cancel _ hpos]
    exact (Nat.succ_mul _ _).symm

/-- A segment is not longer than the boundaries are apart. -/
theorem segment_succ_le (k : Nat) : segment buf (k + 1) ≤ segment buf k + bufBoundary := by
  have hnext : nextBoundary (segment buf k) = _ := nextBoundary_segment k
  have hdiv := Nat.div_mul_le_self (segment buf k) bufBoundary
  unfold nextBoundary at hnext
  omega

theorem segment_lt (k : Nat) : segment buf k < segment buf (k + 1) := by
  have hnext : nextBoundary (segment buf k) = _ := nextBoundary_segment k
  have hdiv := Nat.lt_div_mul_add (a := segment buf k) (b := bufBoundary) (by decide)
  unfold nextBoundary at hnext
  omega

/-- The only boundary behind a place in a segment is where the segment ends. -/
theorem eq_segment_of_mod {a k : Nat} (hle : segment buf k < a) (hge : a ≤ segment buf (k + 1))
    (hmod : a % bufBoundary = 0) : a = segment buf (k + 1) := by
  have hmod' : segment buf (k + 1) % bufBoundary = 0 := segment_succ_mod k
  have hlen : segment buf (k + 1) ≤ segment buf k + bufBoundary := segment_succ_le k
  unfold bufBoundary at *
  omega

/-! ## The invariant -/

/-- The transfer is what is left of the call. -/
structure XferOk (s : Host) (x : Xfer) : Prop where
  read : x.read = !s.call.write
  left : s.moved.length + x.left = s.call.total
  pos : x.pos = 512 * s.call.startSec.toNat + s.moved.length
  addr : 0 < x.left → x.addr = s.call.bufAddr + s.moved.length
  within : 0 < x.left → x.paused = false →
    s.call.bufAddr + s.moved.length < segment s.call.bufAddr s.programmed.length

/-- A command that the card has not taken yet is the stop command, or that of the call with nothing
done. -/
def PendingOk (ty : CardType) (s : Host) (cmd : Command) : Prop :=
  cmd = stopTransmission ∨
  (cmd = s.call.command ty ∧ s.xfer = none ∧ s.moved = [] ∧ s.programmed.length = 1 ∧
    s.sdmasa = s.call.bufAddr % 2 ^ 32 ∧ 0 < s.call.secCount.toNat)

/-- What holds at the places of the driver -/
def PcOk (s : Host) : Prop :=
  match s.pc with
  | .idle =>
    (s.ret = some 0 → s.moved.length = s.call.total) ∧ (s.accepted = true → s.stopped = true)
  | .inhibit false _ _ =>
    s.programmed = [] ∧ s.accepted = false ∧ s.stopped = false ∧ 0 < s.call.secCount.toNat
  | .inhibit true _ _ =>
    s.moved.length = s.call.total ∧ s.programmed ≠ []
  | .command false _ =>
    s.programmed.length = 1 ∧ (s.stat.response = true → s.pending = none ∧ s.answering = false)
  | .command true _ => s.moved.length = s.call.total ∧ s.stopped = true
  | .data _ startAddr => s.pending = none ∧ s.answering = false ∧
    ∃ k, s.programmed.length = k + 1 ∧ startAddr = segment s.call.bufAddr k
  | .failed => s.accepted = true → s.stopped = true

structure HostInv (ty : CardType) (s : Host) : Prop where
  fits : s.call.Fits ty
  moved : s.moved = (List.range s.moved.length).map s.call.byte
  within : s.moved.length ≤ s.call.total
  programmed : s.programmed =
    (List.range s.programmed.length).map fun k => segment s.call.bufAddr k % 2 ^ 32
  behind : ∀ k < s.programmed.length,
    segment s.call.bufAddr k ≤ s.call.bufAddr + s.moved.length
  reach : s.call.bufAddr + s.moved.length ≤ segment s.call.bufAddr s.programmed.length
  fresh : s.programmed = [] →
    s.moved = [] ∧ s.pending = none ∧ s.answering = false ∧ s.xfer = none
  answer : s.answering = true → s.pending = none
  pending : ∀ cmd ∈ s.pending, PendingOk ty s cmd
  xfer : ∀ x ∈ s.xfer, XferOk s x
  dmaEnd : s.programmed ≠ [] → s.stat.dmaEnd = true →
    s.call.bufAddr + s.moved.length = segment s.call.bufAddr s.programmed.length
  dataEnd : s.programmed ≠ [] → s.stat.dataEnd = true → s.moved.length = s.call.total
  multi : s.accepted = true → 1 < s.call.secCount.toNat
  pc : PcOk s

/-- What the invariant says of the call gives the law. -/
theorem HostInv.law (h : HostInv ty s) : TransferLaw s where
  moved := ⟨s.moved.length, h.within, h.moved⟩
  programmed := ⟨s.programmed.length, h.programmed, fun k hk =>
    Nat.le_trans (h.behind k hk) (Nat.add_le_add_left h.within _)⟩
  truthful := by
    intro hidle hret
    have hpc := h.pc
    rw [PcOk, hidle] at hpc
    have hall := hpc.1 hret
    have hreach := h.reach
    rw [hall] at hreach
    exact ⟨hall, hreach⟩
  stopped := by
    intro hidle
    have hpc := h.pc
    rw [PcOk, hidle] at hpc
    exact hpc.2

theorem opened_hostInv (stat : IntStat) (sdmasa : Nat) : HostInv ty (opened stat sdmasa) where
  fits := .inl ⟨rfl, rfl⟩
  moved := rfl
  within := Nat.le_refl _
  programmed := rfl
  behind := fun _ hk => nomatch hk
  reach := Nat.le_refl _
  fresh := fun _ => ⟨rfl, rfl, rfl, rfl⟩
  answer := fun ha => nomatch ha
  pending := fun _ hcmd => nomatch hcmd
  xfer := fun _ hx => nomatch hx
  dmaEnd := fun hne => absurd rfl hne
  dataEnd := fun hne => absurd rfl hne
  multi := fun ha => nomatch ha
  pc := ⟨fun hret => (nomatch hret), fun ha => (nomatch ha)⟩

/-- A step of the driver that only moves it, or clears status bits, or forgets the command or the
transfer, keeps what is not about its place. -/
theorem HostInv.weaken (h : HostInv ty s) (hcall : t.call = s.call) (hmoved : t.moved = s.moved)
    (hprog : t.programmed = s.programmed) (haddr : t.sdmasa = s.sdmasa)
    (hpend : ∀ cmd ∈ t.pending, cmd ∈ s.pending) (hans : t.answering = true → s.answering = true)
    (hxfer : ∀ x ∈ t.xfer, x ∈ s.xfer) (hdma : t.stat.dmaEnd = true → s.stat.dmaEnd = true)
    (hdata : t.stat.dataEnd = true → s.stat.dataEnd = true) (hacc : t.accepted = s.accepted)
    (hpc : PcOk t) : HostInv ty t := by
  have hnone : s.pending = none → t.pending = none := by
    intro hp
    rw [hp] at hpend
    exact Option.eq_none_iff_forall_not_mem.mpr fun cmd hcmd => nomatch hpend cmd hcmd
  have hnone' : s.xfer = none → t.xfer = none := by
    intro hx
    rw [hx] at hxfer
    exact Option.eq_none_iff_forall_not_mem.mpr fun x hx' => nomatch hxfer x hx'
  refine ⟨?_, ?_, ?_, ?_, ?_, ?_, ?_, ?_, ?_, ?_, ?_, ?_, ?_, hpc⟩
  · rw [hcall]
    exact h.fits
  · rw [hmoved, hcall]
    exact h.moved
  · rw [hmoved, hcall]
    exact h.within
  · rw [hprog, hcall]
    exact h.programmed
  · rw [hprog, hcall, hmoved]
    exact h.behind
  · rw [hprog, hcall, hmoved]
    exact h.reach
  · intro hnil
    obtain ⟨hm, hp, ha, hx⟩ := h.fresh (hprog ▸ hnil)
    refine ⟨hmoved ▸ hm, hnone hp, ?_, hnone' hx⟩
    cases hta : t.answering with
    | false => rfl
    | true => exact absurd (hans hta) (by rw [ha]; exact Bool.false_ne_true)
  · exact fun ha => hnone (h.answer (hans ha))
  · intro cmd hcmd
    have hok := h.pending cmd (hpend cmd hcmd)
    rw [PendingOk, hcall, hmoved, hprog, haddr]
    exact hok.imp_right fun ⟨hcall', hx, hrest⟩ => ⟨hcall', hnone' hx, hrest⟩
  · intro x hx
    obtain ⟨hread, hleft, hpos, haddr', hin⟩ := h.xfer x (hxfer x hx)
    constructor <;> rw [hcall] <;> try rw [hmoved] <;> try rw [hprog]
    · exact hread
    · exact hleft
    · exact hpos
    · exact haddr'
    · exact hin
  · rw [hprog, hcall, hmoved]
    exact fun hne hd => h.dmaEnd hne (hdma hd)
  · rw [hprog, hcall, hmoved]
    exact fun hne hd => h.dataEnd hne (hdata hd)
  · rw [hacc, hcall]
    exact h.multi

/-! ## The driver's steps -/

/-- A call begins while the controller has nothing left of the call before. -/
theorem HostInv.begin (hc : c.Fits ty) (hp : s.pending = none) (ha : s.answering = false)
    (hx : s.xfer = none) : HostInv ty (s.begin c) := by
  have hinv : ∀ pc ret, PcOk { s with
      call := c, moved := [], programmed := [], accepted := false, stopped := false
      pc := pc, ret := ret } →
      HostInv ty { s with
        call := c, moved := [], programmed := [], accepted := false, stopped := false
        pc := pc, ret := ret } := by
    intro pc ret hpc
    refine ⟨hc, rfl, Nat.zero_le _, rfl, fun _ hk => (nomatch hk), Nat.le_refl _,
      fun _ => ⟨rfl, hp, ha, hx⟩, fun _ => hp, ?_, ?_, fun hne => absurd rfl hne,
      fun hne => absurd rfl hne, fun hacc => (nomatch hacc), hpc⟩
    · intro cmd hcmd
      have hcmd : cmd ∈ s.pending := hcmd
      rw [hp] at hcmd
      cases hcmd
    · intro x hx'
      have hx' : x ∈ s.xfer := hx'
      rw [hx] at hx'
      cases hx'
  unfold Host.begin
  split_ifs with hzero
  · refine hinv .idle (some 0) ⟨fun _ => ?_, fun hacc => (nomatch hacc)⟩
    show 0 = 512 * c.secCount.toNat
    rw [hzero.2]
    rfl
  · refine hinv _ _ ⟨rfl, rfl, rfl, ?_⟩
    obtain hw | ⟨hpos, _⟩ := hc
    · exact absurd hw hzero
    · exact hpos

/-- The command of the call is written when nothing has been done for it. -/
theorem HostInv.issueCommand (h : HostInv ty s) (hnil : s.programmed = [])
    (hpos : 0 < s.call.secCount.toNat) : HostInv ty (s.issue ty false) := by
  obtain ⟨hmoved, hpending, hanswer, hxfer⟩ := h.fresh hnil
  have hlen : (s.issue ty false).programmed = [s.call.bufAddr % 2 ^ 32] := by
    show s.programmed ++ _ = _
    rw [hnil]
    rfl
  refine ⟨h.fits, h.moved, h.within, ?_, ?_, ?_, ?_, fun ha => (nomatch ha), ?_, ?_, ?_, ?_,
    h.multi, ?_⟩
  · rw [hlen]
    rfl
  · rw [hlen]
    intro k hk
    obtain rfl : k = 0 := Nat.lt_one_iff.mp hk
    exact Nat.le_add_right _ _
  · rw [hlen]
    have hlt : segment s.call.bufAddr 0 < segment s.call.bufAddr 1 := segment_lt 0
    show s.call.bufAddr + s.moved.length ≤ _
    rw [hmoved]
    exact Nat.le_of_lt hlt
  · rw [hlen]
    exact fun hnil' => nomatch hnil'
  · intro cmd hcmd
    obtain rfl := Option.some.inj hcmd
    exact .inr ⟨rfl, hxfer, hmoved, congrArg List.length hlen, rfl, hpos⟩
  · intro x hx
    have hx : x ∈ s.xfer := hx
    rw [hxfer] at hx
    cases hx
  · exact fun _ hd => nomatch hd
  · exact fun _ hd => nomatch hd
  · exact ⟨congrArg List.length hlen, fun hr => nomatch hr⟩

/-- The stop command is written when the data are there. -/
theorem HostInv.issueStop (h : HostInv ty s) (hall : s.moved.length = s.call.total)
    (hne : s.programmed ≠ []) : HostInv ty (s.issue ty true) := by
  refine ⟨h.fits, h.moved, h.within, h.programmed, h.behind, h.reach, fun hnil => absurd hnil hne,
    fun ha => (nomatch ha), ?_, ?_, fun _ hd => (nomatch hd), fun _ hd => (nomatch hd), h.multi,
    hall, rfl⟩
  · intro cmd hcmd
    obtain rfl := Option.some.inj hcmd
    exact .inl rfl
  · intro x hx
    obtain ⟨hread, hleft, hpos, haddr, hin⟩ := h.xfer x hx
    exact ⟨hread, hleft, hpos, haddr, hin⟩

/-- What the driver does with its counters alone -/
theorem HostInv.goto (h : HostInv ty s) (pc : Pc) (ret : Option Int)
    (hpc : PcOk { s with pc := pc, ret := ret }) : HostInv ty { s with pc := pc, ret := ret } :=
  h.weaken rfl rfl rfl rfl (fun _ hcmd => hcmd) id (fun _ hx => hx) id id rfl hpc

/-- A wait leaves a call that owes a stop only when a reading of it was the last try. -/
theorem HostInv.readPstate (h : HostInv ty s) {cmdInhibit datInhibit : Bool}
    (hk : s.Owes → cmdInhibit = true → s.pc.isLastTry = false)
    (ht : s.readPstate ty cmdInhibit datInhibit = some t) : HostInv ty t := by
  have hpc := h.pc
  unfold Host.readPstate at ht
  split at ht
  case h_2 => cases ht
  case h_1 stop time cmdTimeout hat =>
  rw [PcOk, hat] at hpc
  -- further waiting is the same place
  have hwait : ∀ time' timeout', HostInv ty { s with pc := .inhibit stop time' timeout' } := by
    intro time' timeout'
    apply h.goto _ s.ret
    cases stop with
    | false => exact hpc
    | true => exact hpc
  split_ifs at ht with hin htime hmax
  · cases ht
    exact hwait _ _
  · cases ht
    refine h.goto .idle (some (-3)) ⟨fun hret => (by cases hret), fun hacc => ?_⟩
    cases stop with
    | false =>
      obtain ⟨_, hnot, _⟩ := hpc
      exact absurd (hnot.symm.trans hacc) Bool.false_ne_true
    | true =>
      by_contra hstop
      have hcmd : cmdInhibit = true := by simpa using hin
      have hlast := hk ⟨hacc, Bool.eq_false_iff.mpr hstop⟩ hcmd
      rw [hat, Pc.isLastTry, decide_eq_true htime, decide_eq_true (Nat.lt_of_not_le hmax)] at hlast
      cases hlast
  · cases ht
    exact hwait _ _
  · cases ht
    cases stop with
    | false => exact h.issueCommand hpc.1 hpc.2.2.2
    | true => exact h.issueStop hpc.1 hpc.2

/-- The boundary at which the transfer waits is programmed. -/
theorem HostInv.resume (h : HostInv ty s) (hdma : s.stat.dmaEnd = true) (hpend : s.pending = none)
    {k : Nat} (hk : s.programmed.length = k + 1) {pc : Pc}
    (hpc : PcOk { s.resume (segment s.call.bufAddr (k + 1)) with pc := pc }) :
    HostInv ty { s.resume (segment s.call.bufAddr (k + 1)) with pc := pc } := by
  have hne : s.programmed ≠ [] := List.ne_nil_of_length_eq_add_one hk
  have hat := h.dmaEnd hne hdma
  rw [hk] at hat
  have hlen : (s.resume (segment s.call.bufAddr (k + 1))).programmed.length = k + 2 := by
    rw [Host.resume, List.length_append, hk]
    rfl
  refine ⟨h.fits, h.moved, h.within, ?_, ?_, ?_, ?_, h.answer, ?_, ?_, ?_, ?_, h.multi, hpc⟩
  · have hlist := h.programmed
    rw [hk] at hlist
    show (s.resume _).programmed = (List.range (s.resume _).programmed.length).map
      fun k => segment s.call.bufAddr k % 2 ^ 32
    rw [hlen, List.range_succ, List.map_append, ← hlist]
    rfl
  · intro j hj
    have hj : j < (s.resume (segment s.call.bufAddr (k + 1))).programmed.length := hj
    rw [hlen] at hj
    obtain hlt | rfl := Nat.lt_or_eq_of_le (Nat.le_of_lt_succ hj)
    · exact h.behind j (by rw [hk]; exact hlt)
    · exact Nat.le_of_eq hat.symm
  · show s.call.bufAddr + s.moved.length ≤ segment _ (s.resume _).programmed.length
    rw [hlen, hat]
    exact Nat.le_of_lt (segment_lt _)
  · exact fun hnil => absurd hnil (List.append_ne_nil_of_right_ne_nil _ (List.cons_ne_nil _ _))
  · intro cmd hcmd
    have hcmd : cmd ∈ s.pending := hcmd
    rw [hpend] at hcmd
    cases hcmd
  · intro x hx
    obtain ⟨x', hx', rfl⟩ := Option.mem_map.mp hx
    obtain ⟨hread, hleft, hpos, _, _⟩ := h.xfer x' hx'
    refine ⟨hread, hleft, hpos, fun hlt => ?_, fun _ _ => ?_⟩
    · -- the boundary is inside the buffer, so that the register holds it
      have hfits := h.fits
      have hlt : 0 < x'.left := hlt
      have hsmall : segment s.call.bufAddr (k + 1) < 2 ^ 32 := by
        rw [← hat]
        obtain ⟨_, hzero⟩ | ⟨_, _, _, hend⟩ := hfits
        · rw [Call.total, hzero] at hleft
          exact absurd hleft (by simp; omega)
        · omega
      show segment _ _ % 2 ^ 32 = s.call.bufAddr + s.moved.length
      rw [Nat.mod_eq_of_lt hsmall, hat]
    · show s.call.bufAddr + s.moved.length < segment _ (s.resume _).programmed.length
      rw [hlen, hat]
      exact segment_lt _
  · exact fun _ hd => nomatch hd
  · exact fun _ hd => h.dataEnd hne hd

/-- All the bytes are there; the call has returned, or it goes on with the stop command. -/
theorem HostInv.dataDone (h : HostInv ty s) (hdata : s.moved.length = s.call.total)
    (hne : s.programmed ≠ []) : HostInv ty s.dataDone := by
  have hclear : ∀ pc ret, PcOk { s with stat := .cleared, pc := pc, ret := ret } →
      HostInv ty { s with stat := .cleared, pc := pc, ret := ret } := by
    intro pc ret hpc
    exact h.weaken rfl rfl rfl rfl (fun _ hcmd => hcmd) id (fun _ hx => hx) (fun hd => nomatch hd)
      (fun hd => nomatch hd) rfl hpc
  by_cases hcount : 1 < s.call.secCount
  · have heq : s.dataDone =
        { s with stat := .cleared, pc := .inhibit true 0 cmdDefaultTimeout } := if_pos hcount
    rw [heq]
    exact hclear _ s.ret ⟨hdata, hne⟩
  · have heq : s.dataDone = { s with stat := .cleared, pc := .idle, ret := some 0 } :=
      if_neg hcount
    rw [heq]
    -- a card accepts a multi-block command only of a call for several blocks
    exact hclear _ (some 0) ⟨fun _ => hdata, fun hacc => absurd (h.multi hacc) hcount⟩

/-- The end of a round of `SDH_transfer_data` -/
theorem HostInv.pollData (h : HostInv ty s) (hpend : s.pending = none) (hans : s.answering = false)
    {k timeout : Nat} (hlen : s.programmed.length = k + 1)
    (hlast : timeout = 0 → s.accepted = true → s.stopped = true)
    (ht : (if timeout = 0 then some { s with pc := .failed }
      else if s.stat.dataEnd then some s.dataDone
      else some { s with pc := .data (timeout - 1) (segment s.call.bufAddr k) }) = some t) :
    HostInv ty t := by
  split_ifs at ht with hzero hend
  · cases ht
    exact h.goto .failed s.ret (hlast hzero)
  · cases ht
    have hne : s.programmed ≠ [] := List.ne_nil_of_length_eq_add_one hlen
    exact h.dataDone (h.dataEnd hne hend) hne
  · cases ht
    exact h.goto _ s.ret ⟨hpend, hans, k, hlen, rfl⟩

/-- A reading of the status, when no error and no time-out comes before a stop that is owed -/
theorem HostInv.poll (h : HostInv ty s)
    (hk : s.Owes → s.stat.error = false ∧ s.pc.isLastTry = false) (ht : s.poll = some t) :
    HostInv ty t := by
  have hpc := h.pc
  -- a way out without the stop is one on which it is not owed
  have hstopped : s.stat.error = true ∨ s.pc.isLastTry = true →
      s.accepted = true → s.stopped = true := by
    intro hout hacc
    by_contra hstop
    obtain ⟨herr, hlast⟩ := hk ⟨hacc, Bool.eq_false_iff.mpr hstop⟩
    rw [herr, hlast] at hout
    cases hout <;> contradiction
  unfold Host.poll at ht
  split at ht
  case h_3 => cases ht
  case h_1 stop cmdTimeout hat =>
    rw [PcOk, hat] at hpc
    rw [hat] at hstopped
    split_ifs at ht with herr hzero hresp hstop
    · cases ht
      exact h.goto .failed s.ret (hstopped (.inl herr))
    · cases ht
      have hlast : (Pc.command stop cmdTimeout).isLastTry = true := beq_iff_eq.mpr hzero
      exact h.goto .idle (some (-2)) ⟨fun hret => (by cases hret), hstopped (.inr hlast)⟩
    · cases ht
      rw [hstop] at hpc
      exact h.weaken rfl rfl rfl rfl (fun _ hcmd => hcmd) id (fun _ hx => hx)
        (fun hd => nomatch hd) (fun hd => nomatch hd) rfl ⟨fun _ => hpc.1, fun _ => hpc.2⟩
    · cases ht
      rw [Bool.not_eq_true] at hstop
      rw [hstop] at hpc hat
      obtain ⟨hone, hdone⟩ := hpc
      obtain ⟨hpend, hans⟩ := hdone hresp
      exact h.weaken rfl rfl rfl rfl (fun _ hcmd => hcmd) id (fun _ hx => hx) id id rfl
        ⟨hpend, hans, 0, hone, rfl⟩
    · cases ht
      apply h.goto _ s.ret
      cases stop with
      | false => exact hpc
      | true => exact hpc
  case h_2 timeout startAddr hat =>
    rw [PcOk, hat] at hpc
    rw [hat] at hstopped
    obtain ⟨hpend, hans, k, hlen, rfl⟩ := hpc
    have hlast : timeout = 0 → s.accepted = true → s.stopped = true :=
      fun hzero => hstopped (.inr (beq_iff_eq.mpr hzero))
    by_cases herr : s.stat.error = true
    · rw [if_pos herr] at ht
      cases ht
      exact h.goto .failed s.ret (hstopped (.inl herr))
    · rw [if_neg herr] at ht
      by_cases hdma : s.stat.dmaEnd = true
      · simp only [if_pos hdma, nextBoundary_segment] at ht
        have hlen' : (s.resume (segment s.call.bufAddr (k + 1))).programmed.length = k + 2 := by
          rw [Host.resume, List.length_append, hlen]
          rfl
        have hnext := h.resume hdma hpend hlen
          (show PcOk { s.resume _ with pc := .data timeout (segment s.call.bufAddr (k + 1)) } from
            ⟨hpend, hans, k + 1, hlen', rfl⟩)
        exact hnext.pollData hpend hans hlen' hlast ht
      · simp only [if_neg hdma] at ht
        exact h.pollData hpend hans hlen hlast ht

theorem HostInv.reset (h : HostInv ty s) {cmd dat : Bool} (ht : s.reset cmd dat = some t) :
    HostInv ty t := by
  have hpc := h.pc
  unfold Host.reset at ht
  split at ht
  case h_2 => cases ht
  case h_1 hat =>
  rw [PcOk, hat] at hpc
  obtain rfl := Option.some.inj ht
  refine h.weaken rfl rfl rfl rfl ?_ ?_ ?_ (fun hd => nomatch hd) (fun hd => nomatch hd) rfl
    ⟨fun hret => ?_, hpc⟩
  · intro pending hp
    cases cmd with
    | false => exact hp
    | true => cases hp
  · exact fun ha => (Bool.and_eq_true_iff.mp ha).1
  · intro x hx
    cases dat with
    | false => exact hx
    | true => cases hx
  · -- neither of the two results is a zero
    have hret := Option.some.inj hret
    split_ifs at hret

/-! ## The steps of the controller and of the card -/

/-- The registers say what the call asks for. -/
theorem Call.Fits.bytes (hc : c.Fits ty) (hpos : 0 < c.secCount.toNat) :
    (XferMode.mk (decide (1 < c.secCount)) (!c.write) (c.secCount.setWidth 16)).bytes =
      c.total := by
  obtain ⟨_, hzero⟩ | ⟨_, hlt, _⟩ := hc
  · rw [hzero] at hpos
    cases hpos
  · unfold XferMode.bytes Call.total
    by_cases hmulti : 1 < c.secCount
    · rw [if_pos (decide_eq_true hmulti), BitVec.toNat_setWidth, Nat.mod_eq_of_lt hlt]
    · have hmulti' : ¬ 1 < c.secCount.toNat := hmulti
      rw [if_neg (by simpa using hmulti)]
      omega

theorem Call.Fits.cardPos (hc : c.Fits ty) (hpos : 0 < c.secCount.toNat) :
    (c.command ty).cardPos ty = 512 * c.startSec.toNat := by
  obtain ⟨_, hzero⟩ | ⟨_, _, hsec, _⟩ := hc
  · rw [hzero] at hpos
    cases hpos
  · unfold Command.cardPos Call.command
    by_cases hby : ty.bySector = true
    · rw [if_pos hby, if_pos hby]
    · rw [if_neg hby, if_neg hby, BitVec.toNat_mul]
      obtain h | h := hsec
      · exact absurd h hby
      · rw [Nat.mul_comm 512]
        exact Nat.mod_eq_of_lt h

/-- Only a call for several blocks has a command that the card goes on with. -/
theorem Call.one_lt_of_isMultiple (hpos : 0 < c.secCount.toNat)
    (hm : (c.command ty).isMultiple = true) : 1 < c.secCount.toNat := by
  by_contra hone
  have hone : c.secCount = 1 := BitVec.eq_of_toNat_eq (by show c.secCount.toNat = 1; omega)
  unfold Command.isMultiple Call.command at hm
  rw [hone] at hm
  revert hm
  cases c.write <;> simp

/-- A command is taken at a place where the driver does not count on there being none. -/
theorem PcOk.accept (hpc : PcOk s) {cmd : Command} (hp : s.pending = some cmd)
    (hne : s.programmed ≠ []) {busy acc : Bool} {x : Option Xfer}
    (hacc : acc = true → s.accepted = true ∨ s.pc.isCommand = true) :
    PcOk { s with
      pending := none, answering := true, cardBusy := busy, accepted := acc, xfer := x } := by
  unfold PcOk at hpc ⊢
  -- a command that the driver waits for is the only one for several blocks
  have hold : s.pc.isCommand = false → acc = true → s.accepted = true := by
    intro hnot ha
    obtain hs | hc := hacc ha
    · exact hs
    · rw [hnot] at hc
      cases hc
  cases hat : s.pc with
  | idle =>
    rw [hat] at hpc hold
    exact ⟨hpc.1, fun ha => hpc.2 (hold rfl ha)⟩
  | inhibit stop time cmdTimeout =>
    rw [hat] at hpc
    cases stop with
    | false => exact absurd hpc.1 hne
    | true => exact hpc
  | command stop cmdTimeout =>
    rw [hat] at hpc
    cases stop with
    | false =>
      refine ⟨hpc.1, fun hresp => ?_⟩
      have hnone := (hpc.2 hresp).1
      rw [hp] at hnone
      cases hnone
    | true => exact hpc
  | data timeout startAddr =>
    rw [hat] at hpc
    rw [hp] at hpc
    cases hpc.1
  | failed =>
    rw [hat] at hpc hold
    exact fun ha => hpc (hold rfl ha)

/-- The card takes the stop command, or the command of the call and starts the transfer; one for
several blocks it takes while the driver waits for the response. -/
theorem HostInv.accept (h : HostInv ty s)
    (hk : ∀ cmd ∈ s.pending, cmd.isMultiple = true → s.pc.isCommand = true)
    (ht : s.accept ty = some t) : HostInv ty t := by
  unfold Host.accept at ht
  split at ht
  case h_1 => cases ht
  case h_2 cmd hp =>
  have hne : s.programmed ≠ [] := by
    intro hnil
    rw [(h.fresh hnil).2.1] at hp
    cases hp
  obtain rfl | ⟨rfl, _, hmoved, hone, haddr, hpos⟩ := h.pending cmd hp
  · obtain rfl := Option.some.inj ht
    refine ⟨h.fits, h.moved, h.within, h.programmed, h.behind, h.reach, fun hnil => absurd hnil hne,
      fun _ => rfl, fun _ hcmd => (nomatch hcmd), ?_, h.dmaEnd, h.dataEnd, h.multi,
      h.pc.accept hp hne .inl⟩
    intro x hx
    obtain ⟨hread, hleft, hpos, haddr, hin⟩ := h.xfer x hx
    exact ⟨hread, hleft, hpos, haddr, hin⟩
  · have ht : (if s.cardBusy then none else _) = some t := ht
    split_ifs at ht
    obtain rfl := Option.some.inj ht
    have hmultiple : ((s.accepted || (s.call.command ty).isMultiple) = true) →
        s.accepted = true ∨ (s.call.command ty).isMultiple = true := Bool.or_eq_true_iff.mp
    refine ⟨h.fits, h.moved, h.within, h.programmed, h.behind, h.reach, fun hnil => absurd hnil hne,
      fun _ => rfl, fun _ hcmd => (nomatch hcmd), ?_, h.dmaEnd, h.dataEnd, fun hacc => ?_,
      h.pc.accept hp hne fun hacc => (hmultiple hacc).imp_right (hk _ hp)⟩
    · intro x hx
      obtain rfl := Option.some.inj hx
      have hseg : segment s.call.bufAddr 0 < segment s.call.bufAddr 1 := segment_lt 0
      have hlen : s.moved.length = 0 := List.length_eq_zero_iff.mpr hmoved
      refine ⟨rfl, ?_, ?_, fun _ => ?_, fun _ _ => ?_⟩
      · show s.moved.length + XferMode.bytes _ = _
        rw [hlen, Nat.zero_add]
        exact h.fits.bytes hpos
      · show Command.cardPos _ ty = _ + s.moved.length
        rw [hlen]
        exact h.fits.cardPos hpos
      · show s.sdmasa = s.call.bufAddr + s.moved.length
        rw [hlen, haddr]
        apply Nat.mod_eq_of_lt
        obtain ⟨_, hzero⟩ | ⟨_, _, _, hend⟩ := h.fits
        · rw [hzero] at hpos
          cases hpos
        · unfold Call.total at hend
          omega
      · show s.call.bufAddr + s.moved.length < segment _ s.programmed.length
        rw [hlen, hone]
        exact hseg
    · obtain hold | hnew := hmultiple hacc
      · exact h.multi hold
      · exact Call.one_lt_of_isMultiple hpos hnew

/-- Where bytes are still to come, the driver has not reported them. -/
theorem PcOk.move (hpc : PcOk s) (hne : s.programmed ≠ []) (hleft : s.moved.length < s.call.total)
    {moved : List Moved} {x : Option Xfer} {stat : IntStat}
    (hstat : stat.response = s.stat.response) :
    PcOk { s with moved := moved, xfer := x, stat := stat } := by
  unfold PcOk at hpc ⊢
  cases hat : s.pc with
  | idle =>
    rw [hat] at hpc
    exact ⟨fun hret => absurd (hpc.1 hret) (Nat.ne_of_lt hleft), hpc.2⟩
  | inhibit stop time cmdTimeout =>
    rw [hat] at hpc
    cases stop with
    | false => exact absurd hpc.1 hne
    | true => exact absurd hpc.1 (Nat.ne_of_lt hleft)
  | command stop cmdTimeout =>
    rw [hat] at hpc
    cases stop with
    | false =>
      refine ⟨hpc.1, ?_⟩
      show stat.response = true → _
      rw [hstat]
      exact hpc.2
    | true => exact absurd hpc.1 (Nat.ne_of_lt hleft)
  | data timeout startAddr =>
    rw [hat] at hpc
    exact hpc
  | failed =>
    rw [hat] at hpc
    exact hpc

/-- The byte that is moved is the next of the call. -/
theorem HostInv.move (h : HostInv ty s) {reported : Bool} (ht : s.move reported = some t) :
    HostInv ty t := by
  unfold Host.move at ht
  split at ht
  case h_1 => cases ht
  case h_2 x hx =>
  split_ifs at ht with hgo
  obtain ⟨hpaused, hpos⟩ := hgo
  obtain rfl := Option.some.inj ht
  obtain ⟨hread, hleft, hcard, haddr, hin⟩ := h.xfer x hx
  have haddr := haddr hpos
  have hin := hin hpos hpaused
  have hne : s.programmed ≠ [] := by
    intro hnil
    rw [(h.fresh hnil).2.2.2] at hx
    cases hx
  obtain ⟨k, hlen⟩ := Nat.exists_eq_succ_of_ne_zero (mt List.length_eq_zero_iff.mp hne)
  rw [hlen] at hin
  have hbehind := h.behind k (hlen ▸ Nat.lt_succ_self k)
  -- a boundary that is met is the one that ends the segment
  have hbound : (x.addr + 1) % bufBoundary = 0 ↔
      s.call.bufAddr + (s.moved.length + 1) = segment s.call.bufAddr (k + 1) := by
    rw [haddr, Nat.add_assoc]
    constructor
    · exact eq_segment_of_mod (by omega) hin
    · intro heq
      rw [heq]
      exact segment_succ_mod k
  have hlen' : (s.moved ++ [Moved.mk x.read x.pos x.addr]).length = s.moved.length + 1 :=
    List.length_append
  refine ⟨h.fits, ?_, ?_, h.programmed, ?_, ?_, fun hnil => absurd hnil hne, h.answer, ?_, ?_, ?_,
    ?_, h.multi, h.pc.move hne (by omega) rfl⟩
  · show s.moved ++ _ = (List.range (s.moved ++ _).length).map _
    rw [hlen', List.range_succ, List.map_append, ← h.moved, hread, hcard, haddr]
    rfl
  · show (s.moved ++ _).length ≤ _
    rw [hlen']
    show _ ≤ s.call.total
    omega
  · intro j hj
    show _ ≤ _ + (s.moved ++ _).length
    rw [hlen']
    exact Nat.le_trans (h.behind j hj) (Nat.add_le_add_left (Nat.le_succ _) _)
  · show s.call.bufAddr + (s.moved ++ _).length ≤ segment _ s.programmed.length
    rw [hlen', hlen]
    exact hin
  · intro cmd hcmd
    obtain rfl | ⟨_, hnone, _⟩ := h.pending cmd hcmd
    · exact .inl rfl
    · rw [hx] at hnone
      cases hnone
  · intro x' hx'
    obtain rfl := Option.some.inj hx'
    refine ⟨hread, ?_, ?_, fun _ => ?_, fun hlt hgo => ?_⟩
    · show (s.moved ++ _).length + (x.left - 1) = s.call.total
      rw [hlen']
      omega
    · show x.pos + 1 = 512 * s.call.startSec.toNat + (s.moved ++ _).length
      rw [hlen', hcard]
      rfl
    · show x.addr + 1 = s.call.bufAddr + (s.moved ++ _).length
      rw [hlen', haddr]
      rfl
    · -- the transfer goes on only inside the segment
      show s.call.bufAddr + (s.moved ++ _).length < segment _ s.programmed.length
      have hlt : 0 < x.left - 1 := hlt
      have hgo : (decide ((x.addr + 1) % bufBoundary = 0) && decide (1 < x.left)) = false := hgo
      rw [decide_eq_true (show 1 < x.left by omega), Bool.and_true, decide_eq_false_iff_not,
        hbound] at hgo
      rw [hlen', hlen]
      exact Nat.lt_of_le_of_ne hin hgo
  · intro _ hd
    show s.call.bufAddr + (s.moved ++ _).length = segment _ s.programmed.length
    rw [hlen', hlen]
    obtain hold | hnew := Bool.or_eq_true_iff.mp hd
    · have hat := h.dmaEnd hne hold
      rw [hlen] at hat
      omega
    · exact hbound.mp (of_decide_eq_true (Bool.and_eq_true_iff.mp hnew).1)
  · intro _ hd
    exact absurd (h.dataEnd hne hd) (by omega)

theorem HostInv.complete (h : HostInv ty s) (ht : s.complete = some t) : HostInv ty t := by
  unfold Host.complete at ht
  split at ht
  case h_1 => cases ht
  case h_2 x hx =>
  split_ifs at ht with hzero
  obtain rfl := Option.some.inj ht
  have hleft := (h.xfer x hx).left
  rw [hzero] at hleft
  exact ⟨h.fits, h.moved, h.within, h.programmed, h.behind, h.reach,
    fun hnil => ((h.fresh hnil).imp_right (.imp_right (.imp_right fun _ => rfl))), h.answer,
    fun cmd hcmd => (h.pending cmd hcmd).imp_right fun ⟨hcall, _, hrest⟩ => ⟨hcall, rfl, hrest⟩,
    fun _ hx' => (nomatch hx'), h.dmaEnd, fun _ _ => hleft, h.multi, h.pc⟩

/-- The response is there, and the command is done with. -/
theorem HostInv.respond (h : HostInv ty s) (ha : s.answering = true) :
    HostInv ty { s with answering := false, stat := { s.stat with response := true } } := by
  have hnone := h.answer ha
  refine h.weaken rfl rfl rfl rfl (fun _ hcmd => hcmd) (fun hd => nomatch hd) (fun _ hx => hx) id id
    rfl ?_
  have hpc := h.pc
  unfold PcOk at hpc ⊢
  cases hat : s.pc with
  | command stop cmdTimeout =>
    rw [hat] at hpc
    cases stop with
    | false => exact ⟨hpc.1, fun _ => ⟨hnone, rfl⟩⟩
    | true => exact hpc
  | inhibit stop time cmdTimeout =>
    rw [hat] at hpc
    cases stop <;> exact hpc
  | data timeout startAddr =>
    rw [hat] at hpc
    exact ⟨hnone, rfl, hpc.2.2⟩
  | idle =>
    rw [hat] at hpc
    exact hpc
  | failed =>
    rw [hat] at hpc
    exact hpc

theorem HostInv.error (h : HostInv ty s) (timeout : Bool) :
    HostInv ty { s with
      stat := { s.stat with error := true, timeout := s.stat.timeout || timeout } } :=
  h.weaken rfl rfl rfl rfl (fun _ hcmd => hcmd) id (fun _ hx => hx) id id rfl h.pc

/-! ## Every run -/

theorem sdhStep_hostInv (h : HostInv ty s) (hk : TransferKept ty s e)
    (ht : sdhStep ty s e = some t) : HostInv ty t := by
  cases e with
  | call c =>
    obtain ⟨hc, hp, ha, hx⟩ := hk
    obtain ⟨_, ht⟩ := Option.ite_none_right_eq_some.mp ht
    obtain rfl := Option.some.inj ht
    exact .begin hc hp ha hx
  | pstate cmdInhibit datInhibit => exact h.readPstate hk ht
  | poll => exact h.poll hk ht
  | reset cmd dat => exact h.reset ht
  | accept => exact h.accept hk ht
  | respond =>
    obtain ⟨ha, ht⟩ := Option.ite_none_right_eq_some.mp ht
    obtain rfl := Option.some.inj ht
    exact h.respond ha
  | move reported => exact h.move ht
  | complete => exact h.complete ht
  | error timeout =>
    obtain rfl := Option.some.inj ht
    exact h.error timeout

/-- Block transfers report the truth, and stop what they have started, while their arguments fit and
no error or time-out comes between a multi-block command and its stop. -/
theorem run_transferLaw (ty : CardType) (stat : IntStat) (sdmasa : Nat) (es : List Event)
    (hk : EachStep (sdhStep ty) (TransferKept ty) (opened stat sdmasa) es) :
    Always (sdhStep ty) TransferLaw (opened stat sdmasa) es :=
  (always_of_eachStep (fun _ _ _ h hk ht => sdhStep_hostInv h hk ht) (opened_hostInv stat sdmasa)
    hk).mono fun _ => HostInv.law

/-- A read of the sectors 3 and 4 -/
def readTwo : Call := ⟨false, 0x80000, 3, 2⟩

/-- The events of it up to the data -/
def readTwoStarts : List Event :=
  [.call readTwo, .pstate false false, .accept, .respond, .poll]

/-- With all of its data and the stop, it returns zero. -/
def readTwoEnds : List Event :=
  List.replicate 1024 (.move false) ++
    [.complete, .poll, .pstate false true, .accept, .respond, .poll]

theorem run_transferLaw_readTwo :
    Always (sdhStep .sdHigh) TransferLaw (opened .cleared 0) (readTwoStarts ++ readTwoEnds) :=
  run_transferLaw .sdHigh .cleared 0 _ (by decide +kernel)

/-- After an error in the data `SDH_Read` returns −1 and the card is still reading. -/
theorem not_transferLaw_dataError :
    ¬ Always (sdhStep .sdHigh) TransferLaw (opened .cleared 0)
      (readTwoStarts ++ [.move false, .error false, .poll, .reset true true]) := by
  intro h
  have hrun : (run (sdhStep .sdHigh) (opened .cleared 0)
      (readTwoStarts ++ [.move false, .error false, .poll, .reset true true])).map
        (fun s => (s.pc, s.ret, s.accepted, s.stopped)) =
      some (.idle, some (-1), true, false) := by decide
  obtain ⟨s, hs, hfields⟩ := Option.map_eq_some_iff.mp hrun
  obtain ⟨hidle, _, hacc, hstop⟩ := by simpa only [Prod.mk.injEq] using hfields
  have hlaw := (h.last hs).stopped hidle hacc
  rw [hstop] at hlaw
  cases hlaw

end Ma35d1.Sdh
