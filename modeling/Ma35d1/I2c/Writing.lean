import Ma35d1.I2c.Waits

/-!
# What is written

The bytes of a frame go out one at a time, each after the one before it has been acknowledged.
Which byte a function puts next is told by how many it has put, whatever it keeps in its
variables: that is all the three functions differ in.
-/

namespace Ma35d1.I2c

variable {timeOut : BitVec 32} {w : Behaviour} {sw : Switch} {x : Call} {c : I2cT}

/-! ## The law -/

/-- The address with the direction of a write, the register, and the data. -/
def frameOf (slaveAddr : Byte) (regs : List Byte) (data : Nat → Byte) (wLen : BitVec 32) :
    List Byte :=
  slaveAddr <<< 1 :: (regs ++ (List.range wLen.toNat).map data)

/-- What a wait of a write is for: the START condition, then the acknowledgement of each byte. -/
def Behaviour.writeAnswer (w : Behaviour) : Nat → Answer Bool
  | 0 => w.start.any
  | k + 1 => w.ack k

def Behaviour.writeTurn (w : Behaviour) (timeOut : BitVec 32) (k : Nat) : Turn :=
  (w.writeAnswer k).turn timeOut

/-- A write of a frame, as it should end. -/
structure WriteLaw (timeOut : BitVec 32) (w : Behaviour) (frame : List Byte) (wLen : BitVec 32)
    (r : Call × I2cT) : Prop where
  order : r.2.sent <+: frame
  bound : ∀ i ∈ r.1.reads, i < wLen.toNat
  full : r.1.len = wLen → r.2.acks = List.replicate frame.length true
  whole : (∀ j ≤ frame.length, w.writeTurn timeOut j = .go) → r.2.sent = frame ∧ r.1.len = wLen
  stop : r.2.stop = true

/-- Of all waits that are reached: an answer that comes after the wait has given up is the last
one; and a wait that has no answer, or not the one wanted, is not that for the last byte, and
there is data whose length can tell. -/
def Served (timeOut : BitVec 32) (w : Behaviour) (bytes wLen : Nat) : Prop :=
  ∀ j ≤ bytes, (∀ i < j, w.writeTurn timeOut i = .go) →
    (w.writeTurn timeOut j = .late → j = bytes) ∧
      (w.writeTurn timeOut j = .halt → j < bytes ∧ 0 < wLen)

/-- The same from wait `k` on -/
def ServedFrom (timeOut : BitVec 32) (w : Behaviour) (bytes wLen k : Nat) : Prop :=
  ∀ j, k ≤ j → j ≤ bytes → (∀ i, k ≤ i → i < j → w.writeTurn timeOut i = .go) →
    (w.writeTurn timeOut j = .late → j = bytes) ∧
      (w.writeTurn timeOut j = .halt → j < bytes ∧ 0 < wLen)

theorem servedFrom_zero {bytes wLen : Nat} :
    ServedFrom timeOut w bytes wLen 0 ↔ Served timeOut w bytes wLen :=
  ⟨fun h j hj hgo => h j (Nat.zero_le j) hj fun i _ => hgo i,
    fun h j _ hj hgo => h j hj fun i hi => hgo i (Nat.zero_le i) hi⟩

/-! ## The controller at a wait -/

def phaseAt : Nat → Phase
  | 0 => .starting
  | 1 => .addressing
  | _ + 2 => .transmitting

/-- The status when the wait has its answer -/
def doneAt : Nat → Status
  | 0 => .started
  | 1 => .slawAck
  | _ + 2 => .dataAck

/-- The controller waits, with `k` bytes of the frame on the bus and all but the last of them
acknowledged. -/
structure Busy (frame : List Byte) (k : Nat) (c : I2cT) : Prop where
  phase : c.phase = phaseAt k
  sent : c.sent = frame.take k
  acks : c.acks = List.replicate (k - 1) true
  stop : c.stop = false
  write : k = 1 → c.dat.getLsbD 0 = false

/-- The wait has had its answer. -/
def I2cT.done (c : I2cT) (k : Nat) : I2cT :=
  { c with phase := .held (doneAt k), acks := List.replicate k true }

/-- The statuses at which a write fails -/
def failing : List Status := [.slawNack, .dataNack, .arbLost, .other]

section Busy

variable {frame : List Byte} {k : Nat}

theorem Busy.pending (h : Busy frame k c) : c.pending w = (w.writeAnswer k).after := by
  unfold I2cT.pending
  rw [h.phase]
  match k with
  | 0 => rfl
  | 1 => simp [phaseAt, Behaviour.writeAnswer, h.acks]
  | k + 2 => simp [phaseAt, Behaviour.writeAnswer, h.acks]

theorem Busy.enter (h : Busy frame k c) (hw : (w.writeAnswer k).what = .ok true) :
    c.enter w = c.done k := by
  unfold I2cT.enter I2cT.done
  rw [h.phase]
  match k with
  | 0 =>
    have hacks : c.acks = [] := h.acks
    cases hs : w.start.what with
    | error t => simp [Behaviour.writeAnswer, Answer.any, hs, Except.map] at hw
    | ok _ =>
      simp only [phaseAt, doneAt, List.replicate_zero]
      rw [← hacks]
  | 1 =>
    have hacks : c.acks = [] := h.acks
    have hw' : (w.ack 0).what = .ok true := hw
    have hbit : c.dat[0] = false := by simpa using h.write rfl
    simp [phaseAt, doneAt, hacks, hw', hbit]
  | k + 2 =>
    have hw' : (w.ack (k + 1)).what = .ok true := hw
    simp [phaseAt, doneAt, h.acks, hw', List.replicate_succ' (n := k + 1)]

/-- An answer that is not the one wanted leaves a status at which the write fails. -/
theorem Busy.enter_failing (h : Busy frame k c) (hw : (w.writeAnswer k).what ≠ .ok true) :
    (c.enter w).status ∈ failing ∧ (c.enter w).sent = c.sent ∧
      ((c.enter w).acks = c.acks ∨ (c.enter w).acks = c.acks ++ [false]) := by
  unfold I2cT.enter
  rw [h.phase]
  match k with
  | 0 =>
    cases hs : w.start.what with
    | ok _ => exact absurd (by simp [Behaviour.writeAnswer, Answer.any, hs, Except.map]) hw
    | error t => cases t <;> simp [phaseAt, I2cT.trouble, I2cT.status, Trouble.status, failing]
  | 1 =>
    have hacks : c.acks = [] := h.acks
    cases hs : (w.ack 0).what with
    | error t =>
      cases t <;> simp [phaseAt, hacks, hs, I2cT.trouble, I2cT.status, Trouble.status, failing]
    | ok a =>
      cases a with
      | true => exact absurd hs hw
      | false =>
        have hbit : c.dat[0] = false := by simpa using h.write rfl
        simp [phaseAt, hacks, hs, I2cT.status, failing, hbit]
  | k + 2 =>
    have hlen : c.acks.length = k + 1 := by rw [h.acks]; simp
    cases hs : (w.ack (k + 1)).what with
    | error t =>
      cases t <;> simp [phaseAt, hlen, hs, I2cT.trouble, I2cT.status, Trouble.status, failing]
    | ok a =>
      cases a with
      | true => exact absurd hs hw
      | false => simp [phaseAt, hlen, hs, I2cT.status, failing]

/-- What a round does when the answer is the one wanted. -/
theorem Busy.act_eq (h : Busy frame k c) (hw : (w.writeAnswer k).what = .ok true) :
    act sw x (c.enter w) =
      ((sw (doneAt k) x (c.done k)).1,
        (sw (doneAt k) x (c.done k)).2.setControlReg (sw (doneAt k) x (c.done k)).1.ctrl) := by
  rw [h.enter hw]
  rfl

theorem Busy.round_go (h : Busy frame k c) (ht : w.writeTurn timeOut k = .go) :
    round timeOut w sw x c =
      ((sw (doneAt k) x (c.done k)).1,
        (sw (doneAt k) x (c.done k)).2.setControlReg (sw (doneAt k) x (c.done k)).1.ctrl) := by
  rw [I2c.round_go h.pending ht, h.act_eq (Answer.turn_go ht).1]

theorem Busy.round_late (h : Busy frame k c) (ht : w.writeTurn timeOut k = .late) :
    round timeOut w sw x c =
      ((sw (doneAt k) x.timedOut (c.done k)).1,
        (sw (doneAt k) x.timedOut (c.done k)).2.setControlReg
          (sw (doneAt k) x.timedOut (c.done k)).1.ctrl) := by
  rw [I2c.round_late h.pending ht, h.act_eq (Answer.turn_late ht).1]

theorem Busy.status (h : Busy frame k c) : c.status ∈ failing := by
  unfold I2cT.status
  rw [h.phase]
  match k with
  | 0 => simp [phaseAt, failing]
  | 1 => simp [phaseAt, failing]
  | k + 2 => simp [phaseAt, failing]

/-- The next byte goes out. -/
theorem Busy.next (h : Busy frame k c) (hk : k < frame.length)
    (haddr : frame[0]!.getLsbD 0 = false) :
    Busy frame (k + 1) (((c.done k).setData frame[k]).setControlReg ctlSi) := by
  have hsent : c.sent ++ [frame[k]] = frame.take (k + 1) := by
    rw [h.sent, List.take_append_getElem hk]
  match k with
  | 0 =>
    refine ⟨rfl, hsent, rfl, h.stop, fun _ => ?_⟩
    rw [getElem!_pos frame 0 hk] at haddr
    exact haddr
  | 1 => exact ⟨rfl, hsent, rfl, h.stop, nofun⟩
  | k + 2 => exact ⟨rfl, hsent, rfl, h.stop, nofun⟩

end Busy

/-! ## A function that sends a frame -/

/-- With `k` bytes out the switch has put the byte `b` into the data register, and the word to be
written goes on with it. -/
structure Puts (At : Nat → Call → Prop) (k : Nat) (x : Call) (c : I2cT) (b : Byte)
    (r : Call × I2cT) : Prop where
  at_next : At (k + 1) r.1
  data : r.2 = c.setData b
  ctrl : r.1.ctrl = ctlSi
  xfering : r.1.xfering = x.xfering
  err : r.1.err = x.err

/-- The switch of a function that sends the frame; `At k` is what its variables are when `k` bytes
are out. -/
structure Sends (sw : Switch) (frame : List Byte) (wLen : BitVec 32) (At : Nat → Call → Prop) :
    Prop where
  addr : frame[0]!.getLsbD 0 = false
  fits : wLen.toNat < frame.length
  len : ∀ {k x}, At k x → x.len.toNat = k - (frame.length - wLen.toNat)
  reads : ∀ {k x}, At k x → ∀ i ∈ x.reads, i < wLen.toNat
  late : ∀ {k x}, At k x → At k x.timedOut
  next : ∀ {k x} c (hk : k < frame.length), At k x →
    Puts At k x c frame[k] (sw (doneAt k) x c)
  last : ∀ {x} c, At frame.length x →
    sw (doneAt frame.length) x c = ({ x with ctrl := ctlStoSi, xfering := false }, c)
  fail : ∀ s ∈ failing, Fails sw s

namespace Sends

variable {frame : List Byte} {wLen : BitVec 32} {At : Nat → Call → Prop} {k : Nat}

/-- The length that is returned is the whole one at the end only, or where the whole is nothing. -/
theorem len_eq_iff (h : Sends sw frame wLen At) (hx : At k x) (hk : k ≤ frame.length) :
    x.len = wLen ↔ ¬(k < frame.length ∧ 0 < wLen.toNat) := by
  have hlen := h.len hx
  have hfits := h.fits
  constructor
  · intro he
    rw [he] at hlen
    omega
  · intro hn
    exact BitVec.eq_of_toNat_eq (by omega)

theorem served_iff_of_go (ht : w.writeTurn timeOut k = .go) :
    ServedFrom timeOut w frame.length wLen.toNat k ↔
      ServedFrom timeOut w frame.length wLen.toNat (k + 1) := by
  constructor
  · intro h j hj hjn hgo
    refine h j (by omega) hjn fun i hi hij => ?_
    rcases Nat.eq_or_lt_of_le hi with rfl | hlt
    · exact ht
    · exact hgo i hlt hij
  · intro h j hj hjn hgo
    rcases Nat.eq_or_lt_of_le hj with rfl | hlt
    · rw [ht]
      exact ⟨nofun, nofun⟩
    · exact h j hlt hjn fun i hi hij => hgo i (by omega) hij

/-- Nothing after a wait that does not go on is looked at. -/
theorem served_iff_of_ne_go (hk : k ≤ frame.length) (ht : w.writeTurn timeOut k ≠ .go) :
    ServedFrom timeOut w frame.length wLen.toNat k ↔
      (w.writeTurn timeOut k = .late → k = frame.length) ∧
        (w.writeTurn timeOut k = .halt → k < frame.length ∧ 0 < wLen.toNat) := by
  constructor
  · exact fun h => h k (Nat.le_refl k) hk fun i hi hik => absurd hik (by omega)
  · intro h j hj hjn hgo
    rcases Nat.eq_or_lt_of_le hj with rfl | hlt
    · exact h
    · exact absurd (hgo k (Nat.le_refl k) hlt) ht

/-- The last byte has been acknowledged. -/
theorem law_last (h : Sends sw frame wLen At) (hx : At frame.length x) {r : Call × I2cT}
    (hlen : r.1.len = x.len) (hreads : r.1.reads = x.reads) (hsent : r.2.sent = frame)
    (hacks : r.2.acks = List.replicate frame.length true) (hstop : r.2.stop = true) :
    WriteLaw timeOut w frame wLen r := by
  have hall : x.len = wLen := (h.len_eq_iff hx (Nat.le_refl _)).mpr fun hlt => by omega
  refine ⟨?_, ?_, fun _ => hacks, fun _ => ⟨hsent, hlen.trans hall⟩, hstop⟩
  · rw [hsent]
  · rw [hreads]
    exact h.reads hx

/-- A write that has failed at wait `k`. -/
theorem law_fail_iff (h : Sends sw frame wLen At) (hk : k ≤ frame.length) (hx : At k x)
    (ht : w.writeTurn timeOut k ≠ .go) {r : Call × I2cT} (hlen : r.1.len = x.len)
    (hreads : r.1.reads = x.reads) (hsent : r.2.sent = frame.take k) (hstop : r.2.stop = true)
    (hacks : r.2.acks = List.replicate (k - 1) true ∨
      r.2.acks = List.replicate (k - 1) true ++ [false]) :
    WriteLaw timeOut w frame wLen r ↔ k < frame.length ∧ 0 < wLen.toNat := by
  have hfull : r.2.acks ≠ List.replicate frame.length true := by
    have hfits := h.fits
    rcases hacks with ha | ha
    · intro he
      have := congrArg List.length (ha.symm.trans he)
      simp only [List.length_replicate] at this
      omega
    · intro he
      have hmem : false ∈ List.replicate frame.length true := by rw [← he, ha]; simp
      exact Bool.false_ne_true (List.eq_of_mem_replicate hmem)
  constructor
  · intro hl
    by_contra hn
    exact hfull (hl.full (hlen.trans ((h.len_eq_iff hx hk).mpr hn)))
  · intro hlt
    refine ⟨?_, ?_, ?_, fun hgo => absurd (hgo k hk) ht, hstop⟩
    · rw [hsent]
      exact List.take_prefix k frame
    · rw [hreads]
      exact h.reads hx
    · rw [hlen]
      exact fun he => absurd hlt ((h.len_eq_iff hx hk).mp he)

/-- A round whose wait has no answer, or not the one wanted: nothing more goes out. -/
theorem round_halt (h : Sends sw frame wLen At) (hc : Busy frame k c)
    (ht : w.writeTurn timeOut k = .halt) :
    (round timeOut w sw x c).1.err = true ∧ (round timeOut w sw x c).1.len = x.len ∧
      (round timeOut w sw x c).1.reads = x.reads ∧
      (round timeOut w sw x c).2.sent = frame.take k ∧ (round timeOut w sw x c).2.stop = true ∧
      ((round timeOut w sw x c).2.acks = List.replicate (k - 1) true ∨
        (round timeOut w sw x c).2.acks = List.replicate (k - 1) true ++ [false]) := by
  have hwait : (waitReady timeOut w c).2.status ∈ failing ∧
      (waitReady timeOut w c).2.sent = c.sent ∧
      ((waitReady timeOut w c).2.acks = c.acks ∨
        (waitReady timeOut w c).2.acks = c.acks ++ [false]) := by
    rcases waitReady_halt hc.pending ht with he | ⟨he, hw⟩
    · rw [he]
      exact ⟨hc.status, rfl, .inl rfl⟩
    · rw [he]
      exact hc.enter_failing hw
  obtain ⟨hstatus, hsent, hacks⟩ := hwait
  rw [hc.sent] at hsent
  rw [hc.acks] at hacks
  obtain ⟨ctrl, sto, code, hr⟩ := round_fails (x := x) (h.fail _ hstatus)
  rw [hr]
  exact ⟨rfl, rfl, rfl, hsent, rfl, hacks⟩

theorem returns_halt (h : Sends sw frame wLen At) (hk : k ≤ frame.length) (hx : At k x)
    (hc : Busy frame k c) (ht : w.writeTurn timeOut k = .halt) :
    Returns (fun n => transfer timeOut w sw n (round timeOut w sw x c).1 (round timeOut w sw x c).2)
      (WriteLaw timeOut w frame wLen) ↔ ServedFrom timeOut w frame.length wLen.toNat k := by
  obtain ⟨herr, hlen, hreads, hsent, hstop, hacks⟩ := h.round_halt (x := x) hc ht
  have hne : w.writeTurn timeOut k ≠ .go := by rw [ht]; nofun
  rw [returns_over (fun hn => by rw [herr] at hn; simp at hn), served_iff_of_ne_go hk hne, ht]
  have hlaw := h.law_fail_iff (r := (finish timeOut w (round timeOut w sw x c).1
    (round timeOut w sw x c).2, (round timeOut w sw x c).2)) hk hx hne (finish_len.trans hlen)
    (finish_reads.trans hreads) hsent hstop hacks
  refine hlaw.trans ?_
  exact ⟨fun hn => ⟨nofun, fun _ => hn⟩, fun hn => hn.2 rfl⟩

/-- The rounds from wait `k` on, one after the other until the wait that does not go on. -/
theorem returns_iff (h : Sends sw frame wLen At) (hk : k ≤ frame.length) (hx : At k x)
    (hf : x.xfering = true ∧ x.err = false) (hc : Busy frame k c) :
    Returns (fun n => transfer timeOut w sw n x c) (WriteLaw timeOut w frame wLen) ↔
      ServedFrom timeOut w frame.length wLen.toNat k := by
  induction hm : frame.length - k generalizing k x c with
  | zero =>
    obtain rfl : k = frame.length := by omega
    have hsent : c.sent = frame := by rw [hc.sent, List.take_length]
    rw [returns_round hf]
    cases ht : w.writeTurn timeOut frame.length with
    | go =>
      rw [hc.round_go ht, h.last _ hx, setControlReg_stoSi, returns_over (fun hn => by simp at hn)]
      refine iff_of_true ?_ ?_
      · exact h.law_last hx finish_len finish_reads hsent rfl rfl
      intro j hj hjn _
      obtain rfl : j = frame.length := by omega
      rw [ht]
      exact ⟨nofun, nofun⟩
    | late =>
      rw [hc.round_late ht, h.last _ (h.late hx), setControlReg_stoSi,
        returns_over (fun hn => by simp at hn),
        served_iff_of_ne_go (Nat.le_refl _) (by rw [ht]; nofun), ht]
      refine iff_of_true ?_ ⟨fun _ => rfl, nofun⟩
      exact h.law_last hx finish_len finish_reads hsent rfl rfl
    | halt => exact h.returns_halt hk hx hc ht
  | succ m ih =>
    have hlt : k < frame.length := by omega
    rw [returns_round hf]
    cases ht : w.writeTurn timeOut k with
    | go =>
      have hput := h.next (c.done k) hlt hx
      rw [hc.round_go ht, hput.data, hput.ctrl, served_iff_of_go ht]
      exact ih hlt hput.at_next ⟨hput.xfering.trans hf.1, hput.err.trans hf.2⟩
        (hc.next hlt h.addr) (by omega)
    | late =>
      have hput := h.next (c.done k) hlt (h.late hx)
      rw [hc.round_late ht, hput.data, hput.ctrl,
        returns_over (fun hn => by rw [hput.err] at hn; cases hn.2),
        served_iff_of_ne_go hk (by rw [ht]; nofun), ht]
      refine iff_of_false (fun hl => ?_) fun hn => ?_
      · have hstop : (((c.done k).setData frame[k]).setControlReg ctlSi).stop = true := hl.stop
        rw [(hc.next hlt h.addr).stop] at hstop
        cases hstop
      · have := hn.1 rfl
        omega
    | halt => exact h.returns_halt hk hx hc ht

/-- A whole call -/
theorem call_iff (h : Sends sw frame wLen At) {data : Nat → Byte} (hx : At 0 (Call.new data))
    (dat : Byte) :
    Returns (fun n => transfer timeOut w sw n (Call.new data) (I2cT.new dat).start)
        (WriteLaw timeOut w frame wLen) ↔ Served timeOut w frame.length wLen.toNat := by
  have hc : Busy frame 0 (I2cT.new dat).start := ⟨rfl, rfl, rfl, rfl, nofun⟩
  rw [h.returns_iff (Nat.zero_le _) hx ⟨rfl, rfl⟩ hc, servedFrom_zero]

end Sends

/-! ## The three functions -/

section Frame

variable {slaveAddr : Byte} {regs : List Byte} {data : Nat → Byte} {wLen : BitVec 32}

theorem frameOf_length :
    (frameOf slaveAddr regs data wLen).length = 1 + regs.length + wLen.toNat := by
  simp only [frameOf, List.length_cons, List.length_append, List.length_map, List.length_range]
  omega

/-- The direction of a write -/
theorem frameOf_addr : (frameOf slaveAddr regs data wLen)[0]!.getLsbD 0 = false := by
  simp [frameOf]

theorem frameOf_data {k : Nat} (hk : k < (frameOf slaveAddr regs data wLen).length)
    (hdata : 1 + regs.length ≤ k) :
    (frameOf slaveAddr regs data wLen)[k] = data (k - (1 + regs.length)) := by
  obtain ⟨i, rfl⟩ : ∃ i, k = regs.length + i + 1 := ⟨k - (1 + regs.length), by omega⟩
  have hi : regs.length + i + 1 - (1 + regs.length) = i := by omega
  rw [hi]
  simp [frameOf, List.getElem_append_right]

end Frame

/-- The variables of a write, with `k` bytes out and `regs` of them the register. -/
structure Position (regs : Nat) (wLen : BitVec 32) (k : Nat) (x : Call) : Prop where
  len : x.len.toNat = k - (1 + regs)
  reads : ∀ i ∈ x.reads, i < wLen.toNat
  ctrl : k ≠ 0 → x.ctrl = ctlSi

namespace Position

variable {regs k : Nat} {data : Nat → Byte} {wLen : BitVec 32}

theorem new : Position regs wLen 0 (Call.new data) :=
  ⟨by simp [Call.new], by simp [Call.new], fun h => absurd rfl h⟩

theorem timedOut (h : Position regs wLen k x) :
    Position regs wLen k x.timedOut :=
  ⟨h.len, h.reads, h.ctrl⟩

/-- A byte before the data -/
theorem next (h : Position regs wLen k x) (hk : k ≤ regs) {x' : Call} (hlen : x'.len = x.len)
    (hreads : x'.reads = x.reads) (hctrl : x'.ctrl = ctlSi) : Position regs wLen (k + 1) x' := by
  have := h.len
  exact ⟨by rw [hlen]; omega, by rw [hreads]; exact h.reads, fun _ => hctrl⟩

theorem lt_iff (h : Position regs wLen k x) : x.len < wLen ↔ k - (1 + regs) < wLen.toNat := by
  rw [BitVec.lt_def, h.len]

theorem put (h : Position regs wLen k x) (hk : 1 + regs ≤ k) (hlt : x.len < wLen) :
    Position regs wLen (k + 1) (putData data x c).1 := by
  have hlen := h.len
  have hlt' := BitVec.lt_def.mp hlt
  refine ⟨?_, ?_, fun _ => h.ctrl (by omega)⟩
  · show (x.len + 1).toNat = _
    have hw := wLen.isLt
    rw [BitVec.toNat_add]
    show (x.len.toNat + 1) % 2 ^ 32 = _
    omega
  · intro i hi
    rcases List.mem_append.mp hi with hi | hi
    · exact h.reads i hi
    · rw [List.mem_singleton.mp hi]
      exact hlt'

end Position

section Switches

variable {slaveAddr dataAddr : Byte} {regAddr : BitVec 16} {data : Nat → Byte} {wLen : BitVec 32}
  {k : Nat}

/-- A byte of the data, wherever the function takes this branch -/
theorem Position.puts_data (regs : List Byte) (h : Position regs.length wLen k x)
    (hk : k < (frameOf slaveAddr regs data wLen).length) (hdata : 1 + regs.length ≤ k)
    (c : I2cT) : x.len < wLen ∧
      Puts (Position regs.length wLen) k x c (frameOf slaveAddr regs data wLen)[k]
        (putData data x c) := by
  have hlt : x.len < wLen := h.lt_iff.mpr (by rw [frameOf_length] at hk; omega)
  refine ⟨hlt, h.put hdata hlt, ?_, h.ctrl (by omega), rfl, rfl⟩
  rw [frameOf_data hk hdata, ← h.len]
  rfl

/-- After the last byte -/
theorem Position.not_lt (regs : List Byte) (h : Position regs.length wLen
    (frameOf slaveAddr regs data wLen).length x) : ¬x.len < wLen := by
  rw [h.lt_iff, frameOf_length]
  omega

theorem failing_cases {P : Status → Prop} (hslaw : P .slawNack) (hdata : P .dataNack)
    (hlost : P .arbLost) (hother : P .other) : ∀ s ∈ failing, P s := by
  intro s hs
  simp only [failing, List.mem_cons, List.not_mem_nil, or_false] at hs
  rcases hs with rfl | rfl | rfl | rfl
  · exact hslaw
  · exact hdata
  · exact hlost
  · exact hother

theorem writeSwitch_data : writeSwitch slaveAddr data wLen (doneAt (k + 1)) x c =
    if x.len < wLen then putData data x c
    else ({ x with ctrl := ctlStoSi, xfering := false }, c) := by
  cases k <;> rfl

theorem writeSwitch_sends :
    Sends (writeSwitch slaveAddr data wLen) (frameOf slaveAddr [] data wLen) wLen
      (Position 0 wLen) where
  addr := frameOf_addr
  fits := by rw [frameOf_length]; omega
  len h := by rw [h.len, frameOf_length]; simp
  reads h := h.reads
  late h := h.timedOut
  next {k x} c hk h := by
    match k with
    | 0 =>
      exact ⟨h.next (Nat.le_refl 0) rfl rfl rfl, by simp [writeSwitch, doneAt, frameOf], rfl, rfl,
        rfl⟩
    | k + 1 =>
      obtain ⟨hlt, hput⟩ := Position.puts_data [] h hk (by simp) c
      rw [writeSwitch_data, if_pos hlt]
      exact hput
  last {x} c h := by
    have hge := Position.not_lt [] h
    rw [frameOf_length, List.length_nil, Nat.add_comm (1 + 0) _, writeSwitch_data, if_neg hge]
  fail := failing_cases (fails_nack fun _ _ => rfl) (fails_nack fun _ _ => rfl)
    (fails_unknown fun _ _ => rfl) (fails_unknown fun _ _ => rfl)

theorem writeOneRegSwitch_data :
    writeOneRegSwitch slaveAddr dataAddr data wLen (doneAt (k + 2)) x c = if x.len < wLen then putData data x c
    else ({ x with ctrl := ctlStoSi, xfering := false }, c) := rfl

theorem writeOneRegSwitch_sends :
    Sends (writeOneRegSwitch slaveAddr dataAddr data wLen)
      (frameOf slaveAddr [dataAddr] data wLen) wLen (Position 1 wLen) where
  addr := frameOf_addr
  fits := by rw [frameOf_length]; omega
  len h := by rw [h.len, frameOf_length]; simp
  reads h := h.reads
  late h := h.timedOut
  next {k x} c hk h := by
    match k with
    | 0 =>
      exact ⟨h.next (Nat.zero_le 1) rfl rfl rfl, by simp [writeOneRegSwitch, doneAt, frameOf], rfl,
        rfl, rfl⟩
    | 1 =>
      exact ⟨h.next (Nat.le_refl 1) rfl rfl (h.ctrl (by omega)), rfl, h.ctrl (by omega), rfl, rfl⟩
    | k + 2 =>
      obtain ⟨hlt, hput⟩ := Position.puts_data [dataAddr] h hk (by simp) c
      rw [writeOneRegSwitch_data, if_pos hlt]
      exact hput
  last {x} c h := by
    have hge := Position.not_lt [dataAddr] h
    rw [frameOf_length, List.length_singleton, Nat.add_comm (1 + 1) _, writeOneRegSwitch_data,
      if_neg hge]
  fail := failing_cases (fails_nack fun _ _ => rfl) (fails_nack fun _ _ => rfl)
    (fails_unknown fun _ _ => rfl) (fails_unknown fun _ _ => rfl)

/-- The register of two bytes, the high one first -/
def twoRegs (regAddr : BitVec 16) : List Byte :=
  [regAddr.extractLsb' 8 8, regAddr.extractLsb' 0 8]

theorem hiByte_eq (a : BitVec 16) : ((a &&& 0xff00) >>> 8).setWidth 8 = a.extractLsb' 8 8 := by
  ext i hi
  have hc : BitVec.getLsbD (0xff00 : BitVec 16) (8 + i) = true := by
    revert i; decide
  simp only [BitVec.getElem_setWidth, BitVec.getLsbD_ushiftRight, BitVec.getLsbD_and, hc,
    Bool.and_true, BitVec.getElem_extractLsb']

theorem loByte_eq (a : BitVec 16) : (a &&& 0xff).setWidth 8 = a.extractLsb' 0 8 := by
  ext i hi
  have hc : BitVec.getLsbD (0xff : BitVec 16) i = true := by
    revert i; decide
  simp only [BitVec.getElem_setWidth, BitVec.getLsbD_and, hc, Bool.and_true,
    BitVec.getElem_extractLsb', Nat.zero_add]

/-- `u8Addr` is set until the low byte of the register is out. -/
def TwoRegsAt (wLen : BitVec 32) (k : Nat) (x : Call) : Prop :=
  Position 2 wLen k x ∧ x.addr = decide (k ≤ 2)

theorem writeTwoRegsSwitch_data (haddr : x.addr = false) :
    writeTwoRegsSwitch slaveAddr regAddr data wLen (doneAt (k + 2)) x c =
      if x.len < wLen then putData data x c
      else ({ x with ctrl := ctlStoSi, xfering := false }, c) := by
  show (if x.addr = true then _ else if x.len < wLen ∧ x.addr = false then _ else _) = _
  rw [if_neg (by rw [haddr]; nofun)]
  simp only [haddr, and_true]

theorem writeTwoRegsSwitch_sends :
    Sends (writeTwoRegsSwitch slaveAddr regAddr data wLen)
      (frameOf slaveAddr (twoRegs regAddr) data wLen) wLen (TwoRegsAt wLen) where
  addr := frameOf_addr
  fits := by rw [frameOf_length]; omega
  len h := by rw [h.1.len, frameOf_length]; simp [twoRegs]
  reads h := h.1.reads
  late h := ⟨h.1.timedOut, h.2⟩
  next {k x} c hk h := by
    match k with
    | 0 =>
      exact ⟨⟨h.1.next (Nat.zero_le 2) rfl rfl rfl, h.2⟩,
        by simp [writeTwoRegsSwitch, doneAt, frameOf], rfl, rfl, rfl⟩
    | 1 =>
      refine ⟨⟨h.1.next (Nat.le_succ 1) rfl rfl (h.1.ctrl (by omega)), h.2⟩, ?_,
        h.1.ctrl (by omega), rfl, rfl⟩
      exact congrArg c.setData (hiByte_eq regAddr)
    | 2 =>
      have haddr : x.addr = true := h.2
      have hsw : writeTwoRegsSwitch slaveAddr regAddr data wLen (doneAt 2) x c =
          ({ x with addr := false }, c.setData ((regAddr &&& 0xff).setWidth 8)) := if_pos haddr
      rw [hsw]
      refine ⟨⟨h.1.next (Nat.le_refl 2) rfl rfl (h.1.ctrl (by omega)), rfl⟩, ?_,
        h.1.ctrl (by omega), rfl, rfl⟩
      exact congrArg c.setData (loByte_eq regAddr)
    | k + 3 =>
      obtain ⟨hlt, hput⟩ := Position.puts_data (twoRegs regAddr) h.1 hk (by simp [twoRegs]) c
      have haddr : x.addr = false := h.2.trans (decide_eq_false (by omega))
      rw [writeTwoRegsSwitch_data haddr, if_pos hlt]
      exact ⟨⟨hput.at_next, haddr.trans (decide_eq_false (by omega)).symm⟩, hput.data, hput.ctrl,
        hput.xfering, hput.err⟩
  last {x} c h := by
    have hge := Position.not_lt (twoRegs regAddr) h.1
    have hlen : (frameOf slaveAddr (twoRegs regAddr) data wLen).length = wLen.toNat + 1 + 2 := by
      rw [frameOf_length]
      simp [twoRegs]
      omega
    have haddr : x.addr = false := h.2.trans (decide_eq_false (by omega))
    rw [hlen, writeTwoRegsSwitch_data haddr, if_neg hge]
  fail := failing_cases (fails_nack fun _ _ => rfl) (fails_nack fun _ _ => rfl)
    (fails_unknown fun _ _ => rfl) (fails_unknown fun _ _ => rfl)

end Switches

end Ma35d1.I2c
