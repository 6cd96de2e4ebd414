import Mathlib.Logic.Function.Basic
import Ma35d1.Machine.Trace

/-!
# Commands to the secure side

`tsi_send_command_and_wait` puts a command into a channel of the wormhole and waits for an ack. The
other side acks each command at most once, at any time, in any of four channels.
-/

namespace Ma35d1.Tsi

open Function (update update_self update_of_ne)
open Ma35d1.Machine.Trace

/-- The four words of a command or of an ack -/
structure Words where
  w0 : BitVec 32
  w1 : BitVec 32
  w2 : BitVec 32
  w3 : BitVec 32
  deriving DecidableEq

/-- `TCK_CHR_MASK` -/
def tckChrMask : BitVec 32 := 0xffff00ff

/-- `TA_GET_STATUS` -/
def taGetStatus (ack : Words) : Nat := ((ack.w0 >>> 8) &&& 0xff).toNat

/-- `ST_WHC_TX_BUSY` -/
def stWhcTxBusy : Nat := 0xd1

/-- `ST_CMD_ACK_TIME_OUT` -/
def stCmdAckTimeOut : Nat := 0xd2

/-- The command of a call, or the ack to it -/
structure Message where
  call : Nat
  words : Words
  deriving DecidableEq

/-- What becomes of the command of a call -/
inductive Fate
  | unsent
  | sent (ch : Nat)
  | delivered
  | answered (ch : Nat)
  | over
  deriving DecidableEq

/-- How `tsi_send_command_and_wait` comes back -/
inductive Outcome
  | busy
  | timedOut
  | acked (ack : Message)
  /-- `tsi_wait_ack` has come to its end, where it returns nothing. -/
  | lost (ret : Int) (ack : Words)
  deriving DecidableEq

/-- What `tsi_send_command_and_wait` returns -/
def Outcome.ret : Outcome → Int
  | .busy => stWhcTxBusy
  | .timedOut => stCmdAckTimeOut
  | .acked ack => taGetStatus ack.words
  | .lost ret ack => if ret ≠ 0 then ret else taGetStatus ack

/-- A `TSI_REQ_T`, with the number of the call -/
structure Req where
  call : Nat
  cmd : Words
  timeOut : Int
  txChannel : Nat

/-- Where the caller is. -/
inductive Caller
  | idle
  /-- in `tsi_send_command`, before channel `tx_channel` -/
  | sending (req : Req)
  /-- before `get_whc1_irq_flag` -/
  | waiting (req : Req)
  /-- the flag was zero -/
  | unready (req : Req)
  /-- before channel `i` -/
  | scanning (req : Req) (i : Nat)

structure Wormhole where
  /-- what stands in the channels; `TXSTS` and `RXSTS` tell where something does -/
  tx : Nat → Option Message
  rx : Nat → Option Message
  /-- a recall was requested -/
  recalls : Nat → Bool
  caller : Caller
  calls : Nat
  outcome : Nat → Option Outcome
  fate : Nat → Fate
  /-- what the other side answers -/
  acks : Nat → Option Words

inductive TsiEvent
  | call (cmd : Words) (timeOut : Int)
  | choose
  | poll
  | tick (late : Bool)
  | scan
  | fallOff (ret : Int) (ack : Words)
  /-- the other side reads the message of a channel -/
  | deliver (ch : Nat)
  | recalled (ch : Nat)
  | answer (call ch : Nat) (words : Words)

/-- `get_whc1_irq_flag` -/
def Wormhole.irqFlag (s : Wormhole) : Bool := (List.range 4).any fun i => (s.rx i).isSome

/-- What `tsi_wait_ack` makes of the message in a channel: the words it stores, and its result -/
def takeAck (cmd rmdat : Words) : Words × Nat :=
  if rmdat.w0 &&& tckChrMask = cmd.w0 &&& tckChrMask then (rmdat, 0)
  else
    -- an invalid ack is stored and acknowledged in the same way
    (rmdat, 0)

/-- The call returns. -/
def Wormhole.back (s : Wormhole) (call : Nat) (outcome : Outcome) : Wormhole :=
  { s with
    caller := .idle
    outcome := update s.outcome call (some outcome) }

/-- The command is written to a channel and sent. -/
def Wormhole.send (s : Wormhole) (req : Req) : Wormhole :=
  { s with
    tx := update s.tx req.txChannel (some ⟨req.call, req.cmd⟩)
    fate := update s.fate req.call (.sent req.txChannel)
    caller := .waiting req }

/-- The ack in channel `i` is taken. -/
def Wormhole.accept (s : Wormhole) (req : Req) (i : Nat) (ack : Message) : Wormhole :=
  { s with
    rx := update s.rx i none
    fate := update s.fate ack.call .over }.back req.call
      (.acked ⟨ack.call, (takeAck req.cmd ack.words).1⟩)

/-- The message in channel `ch` goes out of it. -/
def Wormhole.leave (s : Wormhole) (ch call : Nat) (fate : Fate) : Wormhole :=
  { s with
    tx := update s.tx ch none
    recalls := update s.recalls ch false
    fate := update s.fate call fate }

/-- The other side answers in channel `ch`. -/
def Wormhole.reply (s : Wormhole) (call ch : Nat) (words : Words) : Wormhole :=
  { s with
    rx := update s.rx ch (some ⟨call, words⟩)
    fate := update s.fate call (.answered ch)
    acks := update s.acks call (some words) }

def tsiStep (s : Wormhole) : TsiEvent → Option Wormhole
  | .call cmd timeOut =>
    match s.caller with
    | .idle => some { s with caller := .sending ⟨s.calls, cmd, timeOut, 0⟩, calls := s.calls + 1 }
    | _ => none
  | .choose =>
    match s.caller with
    | .sending req =>
      if req.txChannel < 4 then
        match s.tx req.txChannel with
        | none => some (s.send req)
        | some _ => some { s with caller := .sending { req with txChannel := req.txChannel + 1 } }
      else some (s.back req.call .busy)
    | _ => none
  | .poll =>
    match s.caller with
    | .waiting req =>
      some { s with caller := if s.irqFlag then .scanning req 0 else .unready req }
    | _ => none
  | .tick late =>
    match s.caller with
    | .unready req =>
      if req.timeOut ≠ 0 ∧ late = true then
        some ({ s with
          recalls := update s.recalls req.txChannel (s.tx req.txChannel).isSome }.back
            req.call .timedOut)
      else some { s with caller := .waiting req }
    | _ => none
  | .scan =>
    match s.caller with
    | .scanning req i =>
      if i < 4 then
        match s.rx i with
        | some ack => some (s.accept req i ack)
        | none => some { s with caller := .scanning req (i + 1) }
      else none
    | _ => none
  | .fallOff ret ack =>
    match s.caller with
    | .scanning req i => if i < 4 then none else some (s.back req.call (.lost ret ack))
    | _ => none
  | .deliver ch => (s.tx ch).map fun m => s.leave ch m.call .delivered
  | .recalled ch => if s.recalls ch then (s.tx ch).map fun m => s.leave ch m.call .over else none
  | .answer call ch words =>
    if ch < 4 ∧ s.rx ch = none ∧ s.fate call = .delivered then some (s.reply call ch words)
    else none

def tsiStart : Wormhole where
  tx := fun _ => none
  rx := fun _ => none
  recalls := fun _ => false
  caller := .idle
  calls := 0
  outcome := fun _ => none
  fate := fun _ => .unsent
  acks := fun _ => none

structure PairingLaw (s : Wormhole) : Prop where
  /-- a call that reports a status reports that of the ack to its own command -/
  own : ∀ k ack, s.outcome k = some (.acked ack) → ack.call = k ∧ s.acks k = some ack.words
  success : ∀ k o, s.outcome k = some o → o.ret = 0 →
    ∃ words, s.acks k = some words ∧ taGetStatus words = 0
  /-- no later call takes the ack of a command that timed out -/
  late : ∀ j k ack, s.outcome j = some .timedOut → s.outcome k = some (.acked ack) → ack.call ≠ j

/-- The ack that the loop comes to is not that of a command that timed out. -/
def NotLate (s : Wormhole) : TsiEvent → Prop
  | .scan => ∀ req i ack, s.caller = .scanning req i → s.rx i = some ack →
      s.outcome ack.call ≠ some .timedOut
  | _ => True

/-- The call whose ack the caller waits for -/
def Caller.awaits : Caller → Nat → Prop
  | .waiting req, k | .unready req, k | .scanning req _, k => req.call = k
  | _, _ => False

def CallerInv (s : Wormhole) : Prop :=
  match s.caller with
  | .idle => True
  | .sending req => req.call < s.calls ∧ s.outcome req.call = none ∧ s.fate req.call = .unsent
  | .waiting req | .unready req => req.call < s.calls ∧ s.outcome req.call = none
  | .scanning req i =>
    req.call < s.calls ∧ s.outcome req.call = none ∧ ∃ j, i ≤ j ∧ j < 4 ∧ (s.rx j).isSome

structure PairInv (s : Wormhole) : Prop where
  tx : ∀ ch m, s.tx ch = some m → s.fate m.call = .sent ch
  rx : ∀ ch ack, s.rx ch = some ack →
    s.fate ack.call = .answered ch ∧ s.acks ack.call = some ack.words
  /-- what has been sent and is not over belongs to a command that timed out, or is waited for -/
  pending : ∀ j, s.fate j ≠ .unsent → s.fate j ≠ .over →
    s.outcome j = some .timedOut ∨ s.caller.awaits j
  new : ∀ j, s.calls ≤ j → s.fate j = .unsent ∧ s.outcome j = none
  caller : CallerInv s
  acked : ∀ k ack, s.outcome k = some (.acked ack) → ack.call = k ∧ s.acks k = some ack.words
  defined : ∀ k ret ack, s.outcome k ≠ some (.lost ret ack)

section Invariant

variable {s t : Wormhole} {e : TsiEvent} {req : Req} {k ch i : Nat}

@[simp] theorem takeAck_fst (cmd rmdat : Words) : (takeAck cmd rmdat).1 = rmdat := by
  rw [takeAck, ite_self]

theorem PairInv.law (h : PairInv s) : PairingLaw s where
  own := h.acked
  success k o ho hret := by
    cases o with
    | busy => exact absurd hret (by decide)
    | timedOut => exact absurd hret (by decide)
    | acked ack => exact ⟨ack.words, (h.acked k ack ho).2, Int.ofNat.inj hret⟩
    | lost ret ack => exact absurd ho (h.defined k ret ack)
  late j k ack hj hk heq := by
    have hown := (h.acked k ack hk).1
    rw [← hown, heq, hj] at hk
    cases hk

theorem pairInv_start : PairInv tsiStart where
  tx _ _ h := nomatch h
  rx _ _ h := nomatch h
  pending _ h _ := absurd rfl h
  new _ _ := ⟨rfl, rfl⟩
  caller := trivial
  acked _ _ h := nomatch h
  defined _ _ _ h := nomatch h

theorem CallerInv.mono (h : CallerInv s) (hcaller : t.caller = s.caller)
    (hcalls : t.calls = s.calls) (hout : t.outcome = s.outcome)
    (hfate : ∀ k, s.fate k = .unsent → t.fate k = .unsent)
    (hrx : ∀ j, (s.rx j).isSome → (t.rx j).isSome) : CallerInv t := by
  unfold CallerInv at h ⊢
  rw [hcaller, hcalls, hout]
  split at h
  · trivial
  · exact ⟨h.1, h.2.1, hfate _ h.2.2⟩
  · exact h
  · exact h
  · obtain ⟨hlt, hnone, j, hij, hj, hready⟩ := h
    exact ⟨hlt, hnone, j, hij, hj, hrx j hready⟩

theorem CallerInv.outcome_none (h : CallerInv s) (hk : s.caller.awaits k) : s.outcome k = none := by
  unfold CallerInv at h
  split at h
  · rename_i hs
    rw [hs] at hk
    exact hk.elim
  · rename_i hs
    rw [hs] at hk
    exact hk.elim
  · rename_i req hs
    rw [hs] at hk
    rw [← show req.call = k from hk, h.2]
  · rename_i req hs
    rw [hs] at hk
    rw [← show req.call = k from hk, h.2]
  · rename_i req i hs
    rw [hs] at hk
    rw [← show req.call = k from hk, h.2.1]

/-- Only where the caller is changes, and it still waits for the same ack. -/
theorem PairInv.go (h : PairInv s) {caller : Caller}
    (hawaits : ∀ j, s.caller.awaits j → caller.awaits j)
    (hcaller : CallerInv { s with caller := caller }) : PairInv { s with caller := caller } where
  tx := h.tx
  rx := h.rx
  pending j hsent hover := (h.pending j hsent hover).imp_right (hawaits j)
  new := h.new
  caller := hcaller
  acked := h.acked
  defined := h.defined

theorem PairInv.call (h : PairInv s) (hs : s.caller = .idle) (cmd : Words) (timeOut : Int) :
    PairInv { s with caller := .sending ⟨s.calls, cmd, timeOut, 0⟩, calls := s.calls + 1 } where
  tx := h.tx
  rx := h.rx
  pending j hsent hover := by
    have hpending := h.pending j hsent hover
    rw [hs] at hpending
    exact hpending
  new j hj := h.new j (Nat.le_of_succ_le hj)
  caller := ⟨Nat.lt_succ_self _, (h.new _ (Nat.le_refl _)).2, (h.new _ (Nat.le_refl _)).1⟩
  acked := h.acked
  defined := h.defined

theorem PairInv.send (h : PairInv s) (hs : s.caller = .sending req) : PairInv (s.send req) := by
  have hcaller := h.caller
  unfold CallerInv at hcaller
  rw [hs] at hcaller
  obtain ⟨hlt, hnone, hunsent⟩ := hcaller
  have hne : ∀ j, s.fate j ≠ .unsent → j ≠ req.call := by
    rintro j hj rfl
    exact hj hunsent
  refine ⟨fun ch m hm => ?_, fun ch ack hack => ?_, fun j hsent hover => ?_, fun j hj => ?_,
    ⟨hlt, hnone⟩, h.acked, h.defined⟩
  · show update s.fate req.call _ m.call = _
    have hm' : update s.tx req.txChannel (some ⟨req.call, req.cmd⟩) ch = some m := hm
    by_cases hch : ch = req.txChannel
    · rw [hch, update_self] at hm'
      obtain rfl := Option.some.inj hm'
      rw [update_self, hch]
    · rw [update_of_ne hch] at hm'
      have hfate := h.tx ch m hm'
      rw [update_of_ne (hne _ (by rw [hfate]; nofun)), hfate]
  · obtain ⟨hfate, hacks⟩ := h.rx ch ack hack
    refine ⟨?_, hacks⟩
    show update s.fate req.call _ ack.call = _
    rw [update_of_ne (hne _ (by rw [hfate]; nofun)), hfate]
  · by_cases hj : j = req.call
    · exact Or.inr hj.symm
    · have hfate : (s.send req).fate j = s.fate j := update_of_ne hj _ _
      rw [hfate] at hsent hover
      have hpending := h.pending j hsent hover
      rw [hs] at hpending
      exact hpending.imp_right False.elim
  · have hj' : s.calls ≤ j := hj
    obtain ⟨hfate, hout⟩ := h.new j hj'
    refine ⟨?_, hout⟩
    show update s.fate req.call _ j = _
    rw [update_of_ne (by omega), hfate]

/-- The call comes back. -/
theorem PairInv.back (h : PairInv s) {o : Outcome} (hk : k < s.calls) (hnone : s.outcome k = none)
    (hacked : ∀ ack, o = .acked ack → ack.call = k ∧ s.acks k = some ack.words)
    (hlost : ∀ ret ack, o ≠ .lost ret ack)
    (hawaits : ∀ j, s.caller.awaits j → s.fate j ≠ .over → o = .timedOut ∧ j = k) :
    PairInv (s.back k o) := by
  refine ⟨h.tx, h.rx, fun j hsent hover => ?_, fun j hj => ?_, trivial, fun j ack hj => ?_,
    fun j ret ack hj => ?_⟩
  · refine Or.inl ?_
    show update s.outcome k (some o) j = some .timedOut
    rcases h.pending j hsent hover with hout | hwait
    · rw [update_of_ne, hout]
      rintro rfl
      rw [hnone] at hout
      cases hout
    · obtain ⟨rfl, rfl⟩ := hawaits j hwait hover
      exact update_self ..
  · have hj' : s.calls ≤ j := hj
    obtain ⟨hfate, hout⟩ := h.new j hj'
    refine ⟨hfate, ?_⟩
    show update s.outcome k (some o) j = none
    rw [update_of_ne (by omega), hout]
  · have hj' : update s.outcome k (some o) j = some (.acked ack) := hj
    by_cases hjk : j = k
    · rw [hjk, update_self] at hj'
      rw [hjk]
      exact hacked ack (Option.some.inj hj')
    · rw [update_of_ne hjk] at hj'
      exact h.acked j ack hj'
  · have hj' : update s.outcome k (some o) j = some (.lost ret ack) := hj
    by_cases hjk : j = k
    · rw [hjk, update_self] at hj'
      exact absurd (Option.some.inj hj') (hlost ret ack)
    · rw [update_of_ne hjk] at hj'
      exact h.defined j ret ack hj'

/-- The recall bits are nothing to the invariant. -/
theorem PairInv.recalls (h : PairInv s) (recalls : Nat → Bool) :
    PairInv { s with recalls := recalls } :=
  { h with }

/-- What stands in the channels changes for call `k`, which is not waited for any more, or still. -/
theorem PairInv.fate (h : PairInv s) {fate : Fate} {tx rx : Nat → Option Message}
    {recalls : Nat → Bool} (hk : s.fate k ≠ .unsent)
    (hopen : fate ≠ .over → s.fate k ≠ .over)
    (htx : ∀ ch m, tx ch = some m → s.tx ch = some m ∧ m.call ≠ k)
    (hrx : ∀ ch ack, rx ch = some ack → s.rx ch = some ack ∧ ack.call ≠ k)
    (hcaller : CallerInv { s with
      tx := tx, rx := rx, recalls := recalls, fate := update s.fate k fate }) :
    PairInv { s with tx := tx, rx := rx, recalls := recalls, fate := update s.fate k fate } := by
  refine ⟨fun ch m hm => ?_, fun ch ack hack => ?_, fun j hsent hover => ?_, fun j hj => ?_,
    hcaller, h.acked, h.defined⟩
  · obtain ⟨hm, hne⟩ := htx ch m hm
    show update s.fate k fate m.call = _
    rw [update_of_ne hne, h.tx ch m hm]
  · obtain ⟨hack, hne⟩ := hrx ch ack hack
    obtain ⟨hfate, hacks⟩ := h.rx ch ack hack
    refine ⟨?_, hacks⟩
    show update s.fate k fate ack.call = _
    rw [update_of_ne hne, hfate]
  · have hsent' : update s.fate k fate j ≠ .unsent := hsent
    have hover' : update s.fate k fate j ≠ .over := hover
    by_cases hj : j = k
    · rw [hj, update_self] at hover'
      rw [hj]
      exact h.pending k hk (hopen hover')
    · rw [update_of_ne hj] at hsent' hover'
      exact h.pending j hsent' hover'
  · have hj' : s.calls ≤ j := hj
    obtain ⟨hfate, hout⟩ := h.new j hj'
    refine ⟨?_, hout⟩
    show update s.fate k fate j = _
    rw [update_of_ne, hfate]
    rintro rfl
    exact hk hfate

theorem PairInv.tx_unique (h : PairInv s) {c : Nat} {m n : Message} (hm : s.tx ch = some m)
    (hn : s.tx c = some n) (heq : n.call = m.call) : c = ch := by
  have hfate := h.tx c n hn
  rw [heq, h.tx ch m hm] at hfate
  exact (Fate.sent.inj hfate).symm

theorem PairInv.rx_unique (h : PairInv s) {c : Nat} {a b : Message} (ha : s.rx ch = some a)
    (hb : s.rx c = some b) (heq : b.call = a.call) : c = ch := by
  have hfate := (h.rx c b hb).1
  rw [heq, (h.rx ch a ha).1] at hfate
  exact (Fate.answered.inj hfate).symm

/-- A message is read by the other side, or recalled. -/
theorem PairInv.leave (h : PairInv s) {m : Message} {fate : Fate} (hm : s.tx ch = some m) :
    PairInv (s.leave ch m.call fate) := by
  have hfate := h.tx ch m hm
  refine h.fate (by rw [hfate]; nofun) (fun _ => by rw [hfate]; nofun) (fun c n hn => ?_)
    (fun c ack hack => ⟨hack, fun heq => ?_⟩) ?_
  · by_cases hc : c = ch
    · rw [hc, update_self] at hn
      cases hn
    · rw [update_of_ne hc] at hn
      exact ⟨hn, fun heq => hc (h.tx_unique hm hn heq)⟩
  · have hack' := (h.rx c ack hack).1
    rw [heq, hfate] at hack'
    cases hack'
  · refine h.caller.mono rfl rfl rfl (fun k hk => ?_) (fun _ hready => hready)
    show update s.fate m.call fate k = .unsent
    rw [update_of_ne, hk]
    rintro rfl
    rw [hk] at hfate
    cases hfate

/-- The other side answers a command. -/
theorem PairInv.reply (h : PairInv s) {words : Words} (hk : s.fate k = .delivered) :
    PairInv (s.reply k ch words) := by
  have hcalls : k < s.calls := by
    by_contra hge
    rw [(h.new k (Nat.not_lt.mp hge)).1] at hk
    cases hk
  have hacks : ∀ j, j ≠ k → (s.reply k ch words).acks j = s.acks j :=
    fun j hj => update_of_ne hj _ _
  have hfate : ∀ j, j ≠ k → (s.reply k ch words).fate j = s.fate j :=
    fun j hj => update_of_ne hj _ _
  have hself : (s.reply k ch words).fate k = .answered ch := update_self ..
  -- the ack is in time, or the command has timed out
  have hopen : ∀ ack, s.outcome k ≠ some (.acked ack) := by
    intro ack hout
    have hpending := h.pending k (by rw [hk]; nofun) (by rw [hk]; nofun)
    rw [hout] at hpending
    have hnone := h.caller.outcome_none (hpending.resolve_left (by nofun))
    rw [hout] at hnone
    cases hnone
  refine ⟨fun c m hm => ?_, fun c ack hack => ?_, fun j hsent hover => ?_, fun j hj => ?_,
    h.caller.mono rfl rfl rfl (fun j hj => ?_) (fun j hready => ?_), fun j ack hj => ?_, h.defined⟩
  · have hm' := h.tx c m hm
    rw [hfate, hm']
    rintro rfl
    rw [hm'] at hk
    cases hk
  · have hack' : update s.rx ch (some ⟨k, words⟩) c = some ack := hack
    by_cases hc : c = ch
    · rw [hc, update_self] at hack'
      obtain rfl := Option.some.inj hack'
      rw [hc]
      exact ⟨hself, update_self ..⟩
    · rw [update_of_ne hc] at hack'
      obtain ⟨hanswered, hwords⟩ := h.rx c ack hack'
      have hne : ack.call ≠ k := by
        rintro rfl
        rw [hanswered] at hk
        cases hk
      rw [hfate _ hne, hacks _ hne]
      exact ⟨hanswered, hwords⟩
  · by_cases hj : j = k
    · rw [hj]
      exact h.pending k (by rw [hk]; nofun) (by rw [hk]; nofun)
    · rw [hfate j hj] at hsent hover
      exact h.pending j hsent hover
  · have hj' : s.calls ≤ j := hj
    obtain ⟨hunsent, hout⟩ := h.new j hj'
    rw [hfate j (by omega)]
    exact ⟨hunsent, hout⟩
  · rw [hfate, hj]
    rintro rfl
    rw [hj] at hk
    cases hk
  · show (update s.rx ch (some ⟨k, words⟩) j).isSome
    by_cases hc : j = ch
    · rw [hc, update_self]
      rfl
    · rw [update_of_ne hc]
      exact hready
  · have hj' : s.outcome j = some (.acked ack) := hj
    rw [hacks]
    · exact h.acked j ack hj'
    · rintro rfl
      exact hopen ack hj'

/-- The ack of the call that waits is taken. -/
theorem PairInv.accept (h : PairInv s) {ack : Message} (hs : s.caller = .scanning req i)
    (hack : s.rx i = some ack) (hlate : s.outcome ack.call ≠ some .timedOut) :
    PairInv (s.accept req i ack) := by
  have hcaller := h.caller
  unfold CallerInv at hcaller
  rw [hs] at hcaller
  obtain ⟨hlt, hnone, -⟩ := hcaller
  obtain ⟨hanswered, hwords⟩ := h.rx i ack hack
  have hown : req.call = ack.call := by
    have hpending := h.pending ack.call (by rw [hanswered]; nofun) (by rw [hanswered]; nofun)
    rw [hs] at hpending
    exact hpending.resolve_left hlate
  have hgo : PairInv { s with caller := .waiting req } :=
    h.go (fun j hj => by rw [hs] at hj; exact hj) ⟨hlt, hnone⟩
  have htaken : PairInv { s with
      tx := s.tx
      rx := update s.rx i none
      recalls := s.recalls
      fate := update s.fate ack.call .over
      caller := .waiting req } := by
    refine hgo.fate (by rw [hanswered]; nofun) (fun hne => absurd rfl hne) (fun c m hm => ?_)
      (fun c b hb => ?_) ⟨hlt, hnone⟩
    · refine ⟨hm, fun heq => ?_⟩
      have hm' := h.tx c m hm
      rw [heq, hanswered] at hm'
      cases hm'
    · by_cases hc : c = i
      · rw [hc, update_self] at hb
        cases hb
      · rw [update_of_ne hc] at hb
        exact ⟨hb, fun heq => hc (h.rx_unique hack hb heq)⟩
  have hback := htaken.back (k := req.call)
    (o := .acked ⟨ack.call, (takeAck req.cmd ack.words).1⟩) hlt hnone (fun a ha => ?_)
    (fun _ _ => by nofun) (fun j hj hover => ?_)
  · exact hback
  · obtain rfl := Outcome.acked.inj ha
    rw [takeAck_fst, hown]
    exact ⟨rfl, hwords⟩
  · have hj' : req.call = j := hj
    exact absurd (by rw [← hj', hown]; exact update_self ..) hover

/-- One step of the caller, of the wormhole or of the other side -/
theorem tsiStep_inv (h : PairInv s) (hk : NotLate s e) (ht : tsiStep s e = some t) : PairInv t := by
  have hcaller := h.caller
  unfold CallerInv at hcaller
  cases e with
  | call cmd timeOut =>
    simp only [tsiStep] at ht
    split at ht
    · rename_i hs
      obtain rfl := Option.some.inj ht
      exact h.call hs cmd timeOut
    · cases ht
  | choose =>
    simp only [tsiStep] at ht
    split at ht
    · rename_i req hs
      rw [hs] at hcaller
      split at ht
      · split at ht
        · obtain rfl := Option.some.inj ht
          exact h.send hs
        · obtain rfl := Option.some.inj ht
          exact h.go (fun j hj => by rw [hs] at hj; exact hj) hcaller
      · obtain rfl := Option.some.inj ht
        refine h.back hcaller.1 hcaller.2.1 (fun _ => by nofun) (fun _ _ => by nofun) fun j hj => ?_
        rw [hs] at hj
        exact hj.elim
    · cases ht
  | poll =>
    simp only [tsiStep] at ht
    split at ht
    · rename_i req hs
      rw [hs] at hcaller
      obtain rfl := Option.some.inj ht
      refine h.go (fun j hj => ?_) ?_
      · rw [hs] at hj
        split
        · exact hj
        · exact hj
      · unfold CallerInv
        by_cases hflag : s.irqFlag = true
        · obtain ⟨j, hj, hready⟩ := List.any_eq_true.mp hflag
          simp only [hflag, if_true]
          exact ⟨hcaller.1, hcaller.2, j, Nat.zero_le j, List.mem_range.mp hj, hready⟩
        · simp only [hflag]
          exact hcaller
    · cases ht
  | tick late =>
    simp only [tsiStep] at ht
    split at ht
    · rename_i req hs
      rw [hs] at hcaller
      split at ht
      · obtain rfl := Option.some.inj ht
        refine (h.recalls _).back hcaller.1 hcaller.2 (fun _ => by nofun) (fun _ _ => by nofun)
          fun j hj _ => ⟨rfl, ?_⟩
        have hj' : s.caller.awaits j := hj
        rw [hs] at hj'
        exact hj'.symm
      · obtain rfl := Option.some.inj ht
        exact h.go (fun j hj => by rw [hs] at hj; exact hj) hcaller
    · cases ht
  | scan =>
    simp only [tsiStep] at ht
    split at ht
    · rename_i req i hs
      obtain ⟨-, ht⟩ := Option.ite_none_right_eq_some.mp ht
      split at ht
      · rename_i ack hack
        obtain rfl := Option.some.inj ht
        exact h.accept hs hack (hk req i ack hs hack)
      · rename_i hnot
        obtain rfl := Option.some.inj ht
        rw [hs] at hcaller
        obtain ⟨hlt, hnone, j, hij, hj, hready⟩ := hcaller
        refine h.go (fun j hj => by rw [hs] at hj; exact hj) ⟨hlt, hnone, j, ?_, hj, hready⟩
        refine Nat.lt_of_le_of_ne hij ?_
        rintro rfl
        rw [hnot] at hready
        cases hready
    · cases ht
  | fallOff ret ack =>
    simp only [tsiStep] at ht
    split at ht
    · rename_i req i hs
      rw [hs] at hcaller
      obtain ⟨-, -, j, hij, hj, -⟩ := hcaller
      rw [if_pos (by omega)] at ht
      cases ht
    · cases ht
  | deliver ch =>
    obtain ⟨m, hm, rfl⟩ := Option.map_eq_some_iff.mp ht
    exact h.leave hm
  | recalled ch =>
    simp only [tsiStep] at ht
    split at ht
    · obtain ⟨m, hm, rfl⟩ := Option.map_eq_some_iff.mp ht
      exact h.leave hm
    · cases ht
  | answer call ch words =>
    obtain ⟨⟨-, -, hcall⟩, ht⟩ := Option.ite_none_right_eq_some.mp ht
    obtain rfl := Option.some.inj ht
    exact h.reply hcall

/-- The ack of a command that timed out breaks the pairing where it is taken. -/
theorem notLate_of_law (h : PairInv s) (ht : tsiStep s e = some t) (hlaw : PairingLaw t) :
    NotLate s e := by
  cases e with
  | scan =>
    intro req i ack hs hack hlate
    have hcaller := h.caller
    unfold CallerInv at hcaller
    rw [hs] at hcaller
    obtain ⟨-, hnone, j, hij, hj, -⟩ := hcaller
    simp only [tsiStep, hs, hack] at ht
    rw [if_pos (by omega)] at ht
    obtain rfl := Option.some.inj ht
    have hown := (hlaw.own req.call _ (update_self ..)).1
    have hown' : ack.call = req.call := hown
    rw [hown', hnone] at hlate
    cases hlate
  | _ => trivial

end Invariant

/-- Each call is paired with the ack to its own command exactly where no call comes to the ack of a
command that timed out. -/
theorem run_pairingLaw_iff (es : List TsiEvent) :
    Always tsiStep PairingLaw tsiStart es ↔ EachStep tsiStep NotLate tsiStart es :=
  always_iff_of_kept (fun _ _ _ h hk ht => tsiStep_inv h hk ht) (fun _ h => h.law)
    (fun _ _ _ h ht hlaw => notLate_of_law h ht hlaw) pairInv_start

/-- The ack of a command that timed out is taken by a call with the same command. -/
theorem not_pairingLaw_late : ¬ ∀ es, Always tsiStep PairingLaw tsiStart es := by
  intro h
  have hrun : (run tsiStep tsiStart
      [.call ⟨0x01020000, 0, 0, 0⟩ 2000, .choose, .deliver 0, .poll, .tick true,
        .answer 0 2 ⟨0x01020000, 0, 0, 0⟩,
        .call ⟨0x01020000, 0, 0, 0⟩ 2000, .choose, .poll, .scan, .scan, .scan]).map
      (fun s => s.outcome 1) = some (some (.acked ⟨0, ⟨0x01020000, 0, 0, 0⟩⟩)) := by
    decide
  obtain ⟨t, ht, hout⟩ := Option.map_eq_some_iff.mp hrun
  have hown := (((h _).last ht).own 1 _ hout).1
  exact absurd hown (by decide)

end Ma35d1.Tsi
