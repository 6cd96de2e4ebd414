import Ma35d1.I2c.Master

/-!
# Waits and rounds

A wait finds the answer in time, or the loop has given up and the answer is there when the status
is read, or there is none to be seen. A round that fails leaves the error flag and a STOP behind,
whatever the function.
-/

namespace Ma35d1.I2c

variable {timeOut : BitVec 32} {w : Behaviour} {sw : Switch} {x : Call} {c : I2cT} {s : Status}

/-! ## Waits -/

/-- How many reads a wait makes before it gives up -/
def polls (count : BitVec 32) : Nat := (count - 1).toNat + 1

theorem polls_sub {count : BitVec 32} (h : count - 1 ≠ 0) :
    polls (count - 1) + 1 = polls count := by
  unfold polls
  have hne : (count - 1).toNat ≠ 0 := fun h0 => h (BitVec.eq_of_toNat_eq h0)
  have hlt := (count - 1).isLt
  have hsub : (count - 1 - 1).toNat = (count - 1).toNat - 1 := by
    rw [BitVec.toNat_sub]
    show (2 ^ 32 - 1 + (count - 1).toNat) % 2 ^ 32 = _
    omega
  omega

theorem poll_eq (count : BitVec 32) (n : Nat) :
    poll count n = (decide (polls count ≤ n), n - polls count) := by
  induction n generalizing count with
  | zero => simp [poll, polls]
  | succ n ih =>
    rw [poll]
    by_cases h : count - 1 = 0
    · have hone : polls count = 1 := by unfold polls; rw [h]; rfl
      rw [if_pos h, hone]
      simp
    · rw [if_neg h, ih, ← polls_sub h]
      simp

/-- What a wait is to a transfer: the answer that lets it go on is there in time, or only when the
status is read after the loop has given up, or it is not there. -/
inductive Turn
  | go | late | halt
  deriving DecidableEq

def Answer.turn (timeOut : BitVec 32) (a : Answer Bool) : Turn :=
  match a.after, a.what with
  | some n, .ok true =>
    if n < polls timeOut then .go else if n = polls timeOut then .late else .halt
  | _, _ => .halt

/-- An answer that lets the transfer go on whatever its value -/
def Answer.any {α : Type} (a : Answer α) : Answer Bool := ⟨a.after, a.what.map fun _ => true⟩

theorem waitReady_some {n : Nat} (h : c.pending w = some n) :
    waitReady timeOut w c =
      (decide (polls timeOut ≤ n), if n ≤ polls timeOut then c.enter w else c) := by
  unfold waitReady
  simp only [h, poll_eq, Nat.sub_eq_zero_iff_le]

section Turns

variable {a : Answer Bool}

theorem Answer.turn_go (h : a.turn timeOut = .go) :
    a.what = .ok true ∧ ∃ n, a.after = some n ∧ n < polls timeOut := by
  unfold Answer.turn at h
  split at h
  case h_1 n hn hw =>
    split at h
    case isTrue hlt => exact ⟨hw, n, hn, hlt⟩
    case isFalse => split at h <;> cases h
  case h_2 => cases h

theorem Answer.turn_late (h : a.turn timeOut = .late) :
    a.what = .ok true ∧ a.after = some (polls timeOut) := by
  unfold Answer.turn at h
  split at h
  case h_1 n hn hw =>
    split at h
    case isTrue => cases h
    case isFalse =>
      split at h
      case isTrue heq => exact ⟨hw, by rw [hn, heq]⟩
      case isFalse => cases h
  case h_2 => cases h

theorem Answer.turn_halt (h : a.turn timeOut = .halt) (hw : a.what = .ok true) :
    ∀ n, a.after = some n → polls timeOut < n := by
  intro n hn
  unfold Answer.turn at h
  simp only [hn, hw] at h
  split at h
  case isTrue => cases h
  case isFalse hge =>
    split at h
    case isTrue => cases h
    case isFalse hne => omega

theorem waitReady_go (hp : c.pending w = a.after) (h : a.turn timeOut = .go) :
    waitReady timeOut w c = (false, c.enter w) := by
  obtain ⟨-, n, hn, hlt⟩ := Answer.turn_go h
  rw [waitReady_some (hp.trans hn), if_pos (by omega), decide_eq_false (by omega)]

theorem waitReady_late (hp : c.pending w = a.after) (h : a.turn timeOut = .late) :
    waitReady timeOut w c = (true, c.enter w) := by
  rw [waitReady_some (hp.trans (Answer.turn_late h).2), if_pos (by omega),
    decide_eq_true (by omega)]

theorem waitReady_halt (hp : c.pending w = a.after) (h : a.turn timeOut = .halt) :
    (waitReady timeOut w c).2 = c ∨
      ((waitReady timeOut w c).2 = c.enter w ∧ a.what ≠ .ok true) := by
  cases hn : c.pending w with
  | none => exact .inl (by unfold waitReady; rw [hn])
  | some n =>
    rw [waitReady_some hn]
    by_cases hle : n ≤ polls timeOut
    · refine .inr ⟨if_pos hle, fun hw => ?_⟩
      have := Answer.turn_halt h hw n (hp.symm.trans hn)
      omega
    · exact .inl (if_neg hle)

end Turns

/-! ## Rounds -/

theorem setControlReg_stoSi (c : I2cT) :
    c.setControlReg ctlStoSi = { c with sto := true, stop := true, phase := .idle } := rfl

theorem setControlReg_si (c : I2cT) : c.setControlReg ctlSi = c.resume false := rfl

theorem setControlReg_siAa (c : I2cT) : c.setControlReg ctlSiAa = c.resume true := rfl

/-- At this status the switch sets `u8Err`, and when the round is over a STOP has been
requested. -/
def Fails (sw : Switch) (s : Status) : Prop :=
  ∀ x c, ∃ ctrl sto, (sw s x c).1 = { x with ctrl := ctrl, err := true } ∧
    (sw s x c).2.setControlReg (sw s x c).1.ctrl =
      { c with phase := .idle, stop := true, sto := sto }

theorem fails_nack (h : ∀ x c, sw s x c = nack x c) : Fails sw s := by
  intro x c
  rw [h]
  exact ⟨ctlStoSi, true, rfl, setControlReg_stoSi c⟩

theorem fails_unknown (h : ∀ x c, sw s x c = unknownStatus x c) : Fails sw s := by
  intro x c
  rw [h]
  exact ⟨ctlSi, false, rfl, setControlReg_si _⟩

theorem act_eq : act sw x c =
    ((sw c.status x c).1, (sw c.status x c).2.setControlReg (sw c.status x c).1.ctrl) := rfl

theorem act_held {x' : Call} {c' : I2cT} {ctrl : Byte} (h : c.phase = .held s)
    (hsw : sw s x c = (x', c')) (hctrl : x'.ctrl = ctrl) :
    act sw x c = (x', c'.setControlReg ctrl) := by
  have hs : c.status = s := by rw [I2cT.status, h]
  rw [act_eq, hs, hsw, hctrl]

/-- A round whose wait has its answer in time -/
theorem round_go {a : Answer Bool} (hp : c.pending w = a.after) (h : a.turn timeOut = .go) :
    round timeOut w sw x c = act sw x (c.enter w) := by
  rw [round, waitReady_go hp h]
  rfl

/-- A round whose wait has given up, and whose answer is there all the same -/
theorem round_late {a : Answer Bool} (hp : c.pending w = a.after) (h : a.turn timeOut = .late) :
    round timeOut w sw x c = act sw x.timedOut (c.enter w) := by
  rw [round, waitReady_late hp h]
  rfl

/-- A round at a status at which the function fails -/
theorem round_fails (h : Fails sw (waitReady timeOut w c).2.status) : ∃ ctrl sto code,
    round timeOut w sw x c =
      ({ x with ctrl := ctrl, err := true, errCode := code },
        { (waitReady timeOut w c).2 with phase := .idle, stop := true, sto := sto }) := by
  obtain ⟨ctrl, sto, hx, hc⟩ :=
    h (if (waitReady timeOut w c).1 then x.timedOut else x) (waitReady timeOut w c).2
  refine ⟨ctrl, sto, if (waitReady timeOut w c).1 then errTimeout else x.errCode, ?_⟩
  show act sw (if (waitReady timeOut w c).1 then x.timedOut else x) (waitReady timeOut w c).2 = _
  rw [act_eq, hc, hx]
  split <;> rfl

/-! ## The loop -/

@[simp] theorem finish_len : (finish timeOut w x c).len = x.len := by
  unfold finish
  split
  · split
    · rfl
    · split <;> rfl
  · rfl

@[simp] theorem finish_reads : (finish timeOut w x c).reads = x.reads := by
  unfold finish
  split
  · split
    · rfl
    · split <;> rfl
  · rfl

@[simp] theorem finish_rdata : (finish timeOut w x c).rdata = x.rdata := by
  unfold finish
  split
  · split
    · rfl
    · split <;> rfl
  · rfl

theorem transfer_over (n : Nat) (h : ¬(x.xfering = true ∧ x.err = false)) :
    transfer timeOut w sw (n + 1) x c = some (finish timeOut w x c, c) := by
  rw [transfer, if_neg h]

theorem transfer_round (n : Nat) (h : x.xfering = true ∧ x.err = false) :
    transfer timeOut w sw (n + 1) x c =
      transfer timeOut w sw n (round timeOut w sw x c).1 (round timeOut w sw x c).2 := by
  rw [transfer, if_pos h]

theorem transfer_mono {n m : Nat} (hle : n ≤ m) {r : Call × I2cT}
    (h : transfer timeOut w sw n x c = some r) : transfer timeOut w sw m x c = some r := by
  induction n generalizing m x c with
  | zero => cases h
  | succ n ih =>
    obtain ⟨m, rfl⟩ : ∃ m', m = m' + 1 := ⟨m - 1, by omega⟩
    by_cases hx : x.xfering = true ∧ x.err = false
    · rw [transfer_round n hx] at h
      rw [transfer_round m hx]
      exact ih (by omega) h
    · rw [transfer_over n hx] at h
      rw [transfer_over m hx]
      exact h

theorem transfer_unique {n m : Nat} {r r' : Call × I2cT}
    (h : transfer timeOut w sw n x c = some r) (h' : transfer timeOut w sw m x c = some r') :
    r = r' := by
  have hr := transfer_mono (Nat.le_max_left n m) h
  have hr' := transfer_mono (Nat.le_max_right n m) h'
  exact Option.some.inj (hr.symm.trans hr')

/-- A call returns, and what it returns has the property. -/
def Returns (call : Nat → Option (Call × I2cT)) (P : Call × I2cT → Prop) : Prop :=
  ∃ n r, call n = some r ∧ P r

/-- A call that is known to end is judged by that end. -/
theorem returns_iff {n : Nat} {r : Call × I2cT} {P : Call × I2cT → Prop}
    (h : transfer timeOut w sw n x c = some r) :
    Returns (fun n => transfer timeOut w sw n x c) P ↔ P r := by
  constructor
  · rintro ⟨m, r', h', hP⟩
    rwa [transfer_unique h h']
  · exact fun hP => ⟨n, r, h, hP⟩

theorem returns_round {P : Call × I2cT → Prop} (h : x.xfering = true ∧ x.err = false) :
    Returns (fun n => transfer timeOut w sw n x c) P ↔
      Returns (fun n => transfer timeOut w sw n (round timeOut w sw x c).1
        (round timeOut w sw x c).2) P := by
  constructor
  · rintro ⟨n, r, hr, hP⟩
    cases n with
    | zero => cases hr
    | succ n => exact ⟨n, r, (transfer_round n h).symm.trans hr, hP⟩
  · rintro ⟨n, r, hr, hP⟩
    exact ⟨n + 1, r, (transfer_round n h).trans hr, hP⟩

theorem returns_over {P : Call × I2cT → Prop} (h : ¬(x.xfering = true ∧ x.err = false)) :
    Returns (fun n => transfer timeOut w sw n x c) P ↔ P (finish timeOut w x c, c) :=
  returns_iff (transfer_over 0 h)

end Ma35d1.I2c
