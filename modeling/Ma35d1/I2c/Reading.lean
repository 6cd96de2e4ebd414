import Ma35d1.I2c.Waits

/-!
# What is read

The acknowledgement of a byte is decided before the byte comes: for the first one when the address
has been acknowledged, whatever the length, and for each other one when the byte before it is
taken. So the last byte is refused only where there are two or more.
-/

namespace Ma35d1.I2c

variable {timeOut : BitVec 32} {w : Behaviour} {x : Call} {c : I2cT} {slaveAddr : Byte}
  {old : Nat → Byte} {rLen : BitVec 32} {k : Nat}

/-! ## The law -/

/-- What a wait of a read is for: the START condition, the acknowledgement of the address, then
each byte. -/
def Behaviour.readAnswer (w : Behaviour) : Nat → Answer Bool
  | 0 => w.start.any
  | 1 => w.ack 0
  | i + 2 => (w.send i).any

def Behaviour.readTurn (w : Behaviour) (timeOut : BitVec 32) (k : Nat) : Turn :=
  (w.readAnswer k).turn timeOut

/-- What has been received is counted, and is what `rdata` has from its start; all but the last of
the bytes that were asked for are acknowledged. -/
structure Received (old : Nat → Byte) (rLen : BitVec 32) (x : Call) (c : I2cT) : Prop where
  count : x.len.toNat = c.got.length
  bytes : ∀ i, x.rdata i = ((c.got.map Prod.fst)[i]?).getD (old i)
  acks : ∀ i p, c.got[i]? = some p → p.2 = decide (i + 1 < rLen.toNat)

/-- A read, as it should end. -/
structure ReadLaw (timeOut : BitVec 32) (w : Behaviour) (old : Nat → Byte) (rLen : BitVec 32)
    (r : Call × I2cT) : Prop where
  received : Received old rLen r.1 r.2
  most : r.1.len ≤ rLen
  whole : (∀ j ≤ rLen.toNat + 1, w.readTurn timeOut j = .go) → r.1.len = rLen
  stop : r.2.stop = true

/-- No wait but that for the last byte has its answer after it has given up; and where less than
two bytes are asked for, none is received. -/
def ReadServed (timeOut : BitVec 32) (w : Behaviour) (rLen : Nat) : Prop :=
  (∀ j < max 2 (rLen + 1), (∀ i < j, w.readTurn timeOut i = .go) → w.readTurn timeOut j ≠ .late) ∧
    (rLen < 2 → w.readTurn timeOut 0 = .go → w.readTurn timeOut 1 = .go →
      w.readTurn timeOut 2 = .halt)

/-- The same of the bytes alone, from the one with index `i` on. -/
def BytesServed (timeOut : BitVec 32) (w : Behaviour) (rLen i : Nat) : Prop :=
  ∀ j, i + 2 ≤ j → j < rLen + 1 → (∀ l, i + 2 ≤ l → l < j → w.readTurn timeOut l = .go) →
    w.readTurn timeOut j ≠ .late

theorem readServed_iff (rLen : Nat) : ReadServed timeOut w rLen ↔
    w.readTurn timeOut 0 ≠ .late ∧ (w.readTurn timeOut 0 = .go →
      w.readTurn timeOut 1 ≠ .late ∧ (w.readTurn timeOut 1 = .go →
        if rLen < 2 then w.readTurn timeOut 2 = .halt else BytesServed timeOut w rLen 0)) := by
  constructor
  · rintro ⟨hlate, hless⟩
    refine ⟨hlate 0 (by omega) nofun, fun h0 => ⟨hlate 1 (by omega) fun i hi => ?_, fun h1 => ?_⟩⟩
    · obtain rfl : i = 0 := by omega
      exact h0
    · split
      case isTrue hlt => exact hless hlt h0 h1
      case isFalse hge =>
        intro j hj hjn hgo
        refine hlate j (by omega) fun i hi => ?_
        match i with
        | 0 => exact h0
        | 1 => exact h1
        | i + 2 => exact hgo (i + 2) (by omega) hi
  · rintro ⟨h0, h⟩
    refine ⟨fun j hj hgo => ?_, fun hlt h0 h1 => ?_⟩
    · match j with
      | 0 => exact h0
      | 1 => exact (h (hgo 0 (by omega))).1
      | j + 2 =>
        have h1 := (h (hgo 0 (by omega))).2 (hgo 1 (by omega))
        rw [if_neg (by omega)] at h1
        exact h1 (j + 2) (by omega) (by omega) fun l _ hl => hgo l hl
    · have h1 := (h h0).2 h1
      rwa [if_pos hlt] at h1

/-! ## The controller at a wait -/

/-- The controller waits for the START condition, for the address, or for the byte with index
`i`, and has nothing to stop for. -/
structure Listening (k : Nat) (aa : Bool) (c : I2cT) : Prop where
  phase : c.phase = match k with
    | 0 => .starting
    | 1 => .addressing
    | _ + 2 => .receiving aa
  acks : k < 2 → c.acks = []
  got : c.got.length = k - 2
  stop : c.stop = false
  read : k = 1 → c.dat.getLsbD 0 = true

/-- The statuses at which a read fails -/
def readFailing : List Status := [.slarNack, .arbLost, .other]

theorem readSwitch_fails {s : Status} (hs : s ∈ readFailing) :
    Fails (readSwitch slaveAddr rLen) s := by
  simp only [readFailing, List.mem_cons, List.not_mem_nil, or_false] at hs
  rcases hs with rfl | rfl | rfl
  · exact fails_nack fun _ _ => rfl
  · exact fails_unknown fun _ _ => rfl
  · exact fails_unknown fun _ _ => rfl

section Act

theorem act_started (h : c.phase = .held .started) : act (readSwitch slaveAddr rLen) x c =
    ({ x with ctrl := ctlSi }, (c.setData (slaveAddr <<< 1 ||| 1)).resume false) := by
  rw [act_held h rfl (rfl : _ = ctlSi), setControlReg_si]

theorem act_slarAck (h : c.phase = .held .slarAck) : act (readSwitch slaveAddr rLen) x c =
    ({ x with ctrl := ctlSiAa }, c.resume true) := by
  rw [act_held h rfl (rfl : _ = ctlSiAa), setControlReg_siAa]

/-- The acknowledgement of the byte after this one is decided. -/
theorem act_rxAck (slaveAddr : Byte) (rLen : BitVec 32) (x : Call) (h : c.phase = .held .rxAck) :
    ∃ ctrl, act (readSwitch slaveAddr rLen) x c =
    ({ getData x c with ctrl := ctrl }, c.resume (decide (x.len + 1 < rLen - 1))) := by
  by_cases hlt : x.len + 1 < rLen - 1
  · refine ⟨ctlSiAa, ?_⟩
    rw [act_held h rfl (if_pos hlt : _ = ctlSiAa), setControlReg_siAa, decide_eq_true hlt]
    exact congrArg (fun a => (({ getData x c with ctrl := a } : Call), c.resume true)) (if_pos hlt)
  · refine ⟨ctlSi, ?_⟩
    rw [act_held h rfl (if_neg hlt : _ = ctlSi), setControlReg_si, decide_eq_false hlt]
    exact congrArg (fun a => (({ getData x c with ctrl := a } : Call), c.resume false)) (if_neg hlt)

theorem act_rxNack (h : c.phase = .held .rxNack) : act (readSwitch slaveAddr rLen) x c =
    ({ getData x c with ctrl := ctlStoSi, xfering := false },
      { c with sto := true, stop := true, phase := .idle }) := by
  rw [act_held h rfl (rfl : _ = ctlStoSi), setControlReg_stoSi]

end Act

namespace Listening

variable {aa : Bool}

theorem pending (h : Listening k aa c) : c.pending w = (w.readAnswer k).after := by
  unfold I2cT.pending
  rw [h.phase]
  match k with
  | 0 => rfl
  | 1 => simp [Behaviour.readAnswer, h.acks]
  | k + 2 => simp [Behaviour.readAnswer, h.got, Answer.any]

theorem status (h : Listening k aa c) : c.status ∈ readFailing := by
  unfold I2cT.status
  rw [h.phase]
  match k with
  | 0 => simp [readFailing]
  | 1 => simp [readFailing]
  | k + 2 => simp [readFailing]

/-- An answer that is not the one wanted leaves a status at which the read fails. -/
theorem enter_failing (h : Listening k aa c) (hw : (w.readAnswer k).what ≠ .ok true) :
    (c.enter w).status ∈ readFailing ∧ (c.enter w).got = c.got := by
  unfold I2cT.enter
  rw [h.phase]
  match k with
  | 0 =>
    cases hs : w.start.what with
    | ok _ => exact absurd (by simp [Behaviour.readAnswer, Answer.any, hs, Except.map]) hw
    | error t => cases t <;> simp [I2cT.trouble, I2cT.status, Trouble.status, readFailing]
  | 1 =>
    have hacks : c.acks = [] := h.acks (by omega)
    have hbit : c.dat[0] = true := by simpa using h.read rfl
    cases hs : (w.ack 0).what with
    | error t =>
      cases t <;> simp [hacks, hs, I2cT.trouble, I2cT.status, Trouble.status, readFailing]
    | ok a =>
      cases a with
      | true => exact absurd hs hw
      | false => simp [hacks, hs, I2cT.status, readFailing, hbit]
  | k + 2 =>
    have hgot : c.got.length = k := h.got
    cases hs : (w.send k).what with
    | error t =>
      cases t <;> simp [hgot, hs, I2cT.trouble, I2cT.status, Trouble.status, readFailing]
    | ok b => exact absurd (by simp [Behaviour.readAnswer, Answer.any, hs, Except.map]) hw

/-- A round whose wait has no answer, or not the one wanted: nothing more is taken. -/
theorem round_halt (slaveAddr : Byte) (rLen : BitVec 32) (x : Call) (h : Listening k aa c)
    (ht : w.readTurn timeOut k = .halt) :
    (round timeOut w (readSwitch slaveAddr rLen) x c).1.err = true ∧
      (round timeOut w (readSwitch slaveAddr rLen) x c).1.len = x.len ∧
      (round timeOut w (readSwitch slaveAddr rLen) x c).1.rdata = x.rdata ∧
      (round timeOut w (readSwitch slaveAddr rLen) x c).2.got = c.got ∧
      (round timeOut w (readSwitch slaveAddr rLen) x c).2.stop = true := by
  have hwait : (waitReady timeOut w c).2.status ∈ readFailing ∧
      (waitReady timeOut w c).2.got = c.got := by
    rcases waitReady_halt h.pending ht with he | ⟨he, hw⟩
    · rw [he]
      exact ⟨h.status, rfl⟩
    · rw [he]
      exact h.enter_failing hw
  obtain ⟨ctrl, sto, code, hr⟩ := round_fails (x := x) (readSwitch_fails hwait.1)
  rw [hr]
  exact ⟨rfl, rfl, rfl, hwait.2, rfl⟩

/-- After the START condition, and after the address: the next thing is waited for. -/
theorem act_first (slaveAddr : Byte) (rLen : BitVec 32) (x : Call) (h : Listening k aa c)
    (hk : k < 2) (hw : (w.readAnswer k).what = .ok true) :
    Listening (k + 1) true (act (readSwitch slaveAddr rLen) x (c.enter w)).2 ∧
      (act (readSwitch slaveAddr rLen) x (c.enter w)).2.got = c.got ∧
      ∃ ctrl, (act (readSwitch slaveAddr rLen) x (c.enter w)).1 = { x with ctrl := ctrl } := by
  have hacks : c.acks = [] := h.acks hk
  match k with
  | 0 =>
    have henter : c.enter w = { c with phase := .held .started } := by
      unfold I2cT.enter
      rw [h.phase]
      cases hs : w.start.what with
      | ok _ => rfl
      | error t => simp [Behaviour.readAnswer, Answer.any, hs, Except.map] at hw
    rw [henter, act_started rfl]
    refine ⟨⟨rfl, fun _ => hacks, h.got, h.stop, fun _ => ?_⟩, rfl, ctlSi, rfl⟩
    show (slaveAddr <<< 1 ||| 1).getLsbD 0 = true
    simp
  | 1 =>
    have hbit : c.dat[0] = true := by simpa using h.read rfl
    have hw' : (w.ack 0).what = .ok true := hw
    have henter : c.enter w = { c with phase := .held .slarAck, acks := [true] } := by
      unfold I2cT.enter
      rw [h.phase]
      simp [hacks, hw', hbit]
    rw [henter, act_slarAck rfl]
    exact ⟨⟨rfl, fun hlt => by omega, h.got, h.stop, fun hne => by omega⟩, rfl, ctlSiAa, rfl⟩

/-- A byte has come. -/
theorem enter_byte (h : Listening (k + 2) aa c) (hw : (w.readAnswer (k + 2)).what = .ok true) :
    ∃ b, c.enter w =
      { c with
        phase := .held (if aa then .rxAck else .rxNack), dat := b, got := c.got ++ [(b, aa)] } := by
  have hgot : c.got.length = k := h.got
  unfold I2cT.enter
  rw [h.phase]
  cases hs : (w.send k).what with
  | error t => simp [Behaviour.readAnswer, Answer.any, hs, Except.map] at hw
  | ok b => exact ⟨b, by simp [hgot, hs]⟩

end Listening

/-! ## Bytes received -/

namespace Received

theorem first (h : c.got = []) (hlen : x.len = 0) (hdata : x.rdata = old) :
    Received old rLen x c := by
  refine ⟨by rw [hlen, h]; rfl, fun i => ?_, fun i p hp => ?_⟩
  · rw [hdata, h]
    rfl
  · rw [h] at hp
    cases hp

/-- A byte comes, acknowledged or not as it should be. -/
theorem byte (h : Received old rLen x c) (hlt : c.got.length < rLen.toNat) {b : Byte} {aa : Bool}
    (haa : aa = decide (c.got.length + 1 < rLen.toNat)) {x' : Call} {c₁ c' : I2cT}
    (hdat : c₁.dat = b) (hlen : x'.len = (getData x c₁).len)
    (hdata : x'.rdata = (getData x c₁).rdata) (hgot : c'.got = c.got ++ [(b, aa)]) :
    Received old rLen x' c' := by
  have hcount := h.count
  have hw := rLen.isLt
  refine ⟨?_, fun i => ?_, fun i p hp => ?_⟩
  · rw [hlen, hgot, List.length_append]
    show (x.len + 1).toNat = _
    rw [BitVec.toNat_add]
    show (x.len.toNat + 1) % 2 ^ 32 = c.got.length + 1
    omega
  · rw [hdata, hgot]
    show (if i = x.len.toNat then c₁.dat else x.rdata i) = _
    rw [List.map_append, List.getElem?_append, List.length_map, hcount, h.bytes]
    by_cases hi : i = c.got.length
    · rw [if_pos hi, hi, if_neg (Nat.lt_irrefl _), Nat.sub_self, hdat]
      rfl
    · rw [if_neg hi]
      by_cases hil : i < c.got.length
      · rw [if_pos hil]
      · rw [if_neg hil, List.getElem?_eq_none (by simp; omega),
          List.getElem?_eq_none (by simp; omega)]
  · rw [hgot, List.getElem?_append] at hp
    split at hp
    case isTrue => exact h.acks i p hp
    case isFalse hge =>
      obtain ⟨hi, hp⟩ := List.getElem?_eq_some_iff.mp hp
      have hi' : i = c.got.length := by simp at hi; omega
      subst hi'
      simp at hp
      rw [← hp]
      exact haa

end Received

/-! ## The rounds -/

theorem Received.law (h : Received old rLen x c) (hmost : x.len.toNat ≤ rLen.toNat)
    (hwhole : (∀ j ≤ rLen.toNat + 1, w.readTurn timeOut j = .go) → x.len = rLen)
    (hstop : c.stop = true) :
    ReadLaw timeOut w old rLen (finish timeOut w x c, c) :=
  ⟨⟨by rw [finish_len]; exact h.count, by rw [finish_rdata]; exact h.bytes, h.acks⟩,
    by rw [finish_len]; exact hmost, fun hgo => by rw [finish_len]; exact hwhole hgo, hstop⟩

/-- A wait that has no answer, or not the one wanted, ends the read as it should end. -/
theorem Listening.returns_halt {aa : Bool} (hc : Listening k aa c)
    (ht : w.readTurn timeOut k = .halt) (hr : Received old rLen x c)
    (hmost : x.len.toNat ≤ rLen.toNat) (hwhole : k ≤ rLen.toNat + 1 ∨ x.len = rLen) :
    Returns (fun n => transfer timeOut w (readSwitch slaveAddr rLen) n
        (round timeOut w (readSwitch slaveAddr rLen) x c).1
        (round timeOut w (readSwitch slaveAddr rLen) x c).2) (ReadLaw timeOut w old rLen) := by
  obtain ⟨herr, hlen, hdata, hgot, hstop⟩ :=
    hc.round_halt slaveAddr rLen x ht
  rw [returns_over (fun hn => by rw [herr] at hn; cases hn.2)]
  have hr' : Received old rLen (round timeOut w (readSwitch slaveAddr rLen) x c).1
      (round timeOut w (readSwitch slaveAddr rLen) x c).2 :=
    ⟨by rw [hlen, hgot]; exact hr.count, by rw [hdata, hgot]; exact hr.bytes,
      by rw [hgot]; exact hr.acks⟩
  refine hr'.law (by rw [hlen]; exact hmost) (fun hgo => ?_) hstop
  rw [hlen]
  rcases hwhole with hk | he
  · rw [hgo k hk] at ht
    cases ht
  · exact he

theorem Received.timedOut (h : Received old rLen x c) : Received old rLen x.timedOut c :=
  ⟨h.count, h.bytes, h.acks⟩

section Bytes

variable {i : Nat}

/-- A byte that is not the last one asked for -/
theorem Listening.act_ack (slaveAddr : Byte) (hc : Listening (i + 2) true c)
    (hw : (w.readAnswer (i + 2)).what = .ok true) (hr : Received old rLen x c)
    (hlt : i + 1 < rLen.toNat) :
    Listening (i + 3) (decide (i + 1 + 1 < rLen.toNat))
        (act (readSwitch slaveAddr rLen) x (c.enter w)).2 ∧
      Received old rLen (act (readSwitch slaveAddr rLen) x (c.enter w)).1
        (act (readSwitch slaveAddr rLen) x (c.enter w)).2 ∧
      (act (readSwitch slaveAddr rLen) x (c.enter w)).1.xfering = x.xfering ∧
      (act (readSwitch slaveAddr rLen) x (c.enter w)).1.err = x.err := by
  have hgot : c.got.length = i := hc.got
  have hcount := hr.count
  have hdec : decide (x.len + 1 < rLen - 1) = decide (i + 1 + 1 < rLen.toNat) := by
    apply decide_eq_decide.mpr
    have hb := rLen.isLt
    rw [BitVec.lt_def, BitVec.toNat_add, BitVec.toNat_sub]
    show (x.len.toNat + 1) % 2 ^ 32 < (2 ^ 32 - 1 + rLen.toNat) % 2 ^ 32 ↔ _
    omega
  obtain ⟨b, hb⟩ := hc.enter_byte hw
  rw [hb]
  obtain ⟨ctrl, hact⟩ := act_rxAck slaveAddr rLen x
    (c := { c with phase := .held .rxAck, dat := b, got := c.got ++ [(b, true)] }) rfl
  simp only [if_true] at hact ⊢
  rw [hact, hdec]
  refine ⟨⟨rfl, fun hn => by omega, ?_, hc.stop, fun hn => by omega⟩, ?_, rfl, rfl⟩
  · show (c.got ++ [(b, true)]).length = _
    simp
    omega
  · exact hr.byte (by omega) (decide_eq_true (by omega)).symm rfl rfl rfl rfl

/-- The last one -/
theorem Listening.act_last (slaveAddr : Byte) (hc : Listening (i + 2) false c)
    (hw : (w.readAnswer (i + 2)).what = .ok true) (hr : Received old rLen x c)
    (hlast : i + 1 = rLen.toNat) :
    (act (readSwitch slaveAddr rLen) x (c.enter w)).1.xfering = false ∧
      ReadLaw timeOut w old rLen
        (finish timeOut w (act (readSwitch slaveAddr rLen) x (c.enter w)).1
          (act (readSwitch slaveAddr rLen) x (c.enter w)).2,
          (act (readSwitch slaveAddr rLen) x (c.enter w)).2) := by
  have hgot : c.got.length = i := hc.got
  have hcount := hr.count
  have hlen : (x.len + 1).toNat = rLen.toNat := by
    have hb := rLen.isLt
    rw [BitVec.toNat_add]
    show (x.len.toNat + 1) % 2 ^ 32 = _
    omega
  obtain ⟨b, hb⟩ := hc.enter_byte hw
  rw [hb, act_rxNack rfl]
  refine ⟨rfl, Received.law ?_ (Nat.le_of_eq hlen) (fun _ => BitVec.eq_of_toNat_eq hlen) rfl⟩
  exact hr.byte (by omega) (decide_eq_false (by omega)).symm rfl rfl rfl rfl

theorem bytesServed_of_halt (n : Nat) (ht : w.readTurn timeOut (i + 2) = .halt) :
    BytesServed timeOut w n i := by
  intro j hj _ hgo
  rcases Nat.eq_or_lt_of_le hj with rfl | hlt
  · rw [ht]
    nofun
  · have := hgo (i + 2) (Nat.le_refl _) hlt
    rw [ht] at this
    cases this

theorem bytesServed_iff_of_go {n : Nat} (ht : w.readTurn timeOut (i + 2) = .go) :
    BytesServed timeOut w n i ↔ BytesServed timeOut w n (i + 1) := by
  constructor
  · intro h j hj hjn hgo
    refine h j (by omega) hjn fun l hl hlj => ?_
    rcases Nat.eq_or_lt_of_le hl with rfl | hlt
    · exact ht
    · exact hgo l (by omega) hlj
  · intro h j hj hjn hgo
    rcases Nat.eq_or_lt_of_le hj with rfl | hlt
    · rw [ht]
      nofun
    · exact h j (by omega) hjn fun l hl hlj => hgo l (by omega) hlj

/-- The rounds from the byte with index `i` on, where each has its acknowledgement decided as it
should be. -/
theorem Listening.returns_iff (hi : i < rLen.toNat)
    (hc : Listening (i + 2) (decide (i + 1 < rLen.toNat)) c) (hr : Received old rLen x c)
    (hf : x.xfering = true ∧ x.err = false) :
    Returns (fun n => transfer timeOut w (readSwitch slaveAddr rLen) n x c)
        (ReadLaw timeOut w old rLen) ↔ BytesServed timeOut w rLen.toNat i := by
  induction hm : rLen.toNat - i generalizing i x c with
  | zero => omega
  | succ m ih =>
    have hgot : c.got.length = i := hc.got
    have hcount := hr.count
    rw [returns_round hf]
    cases ht : w.readTurn timeOut (i + 2) with
    | halt =>
      refine iff_of_true ?_ (bytesServed_of_halt rLen.toNat ht)
      exact hc.returns_halt ht hr (by omega) (.inl (by omega))
    | go =>
      rw [round_go hc.pending ht]
      by_cases hlt : i + 1 < rLen.toNat
      · rw [decide_eq_true hlt] at hc
        obtain ⟨hc', hr', hxf, herr⟩ :=
          hc.act_ack slaveAddr (Answer.turn_go ht).1 hr hlt
        rw [bytesServed_iff_of_go ht]
        exact ih hlt hc' hr' ⟨hxf.trans hf.1, herr.trans hf.2⟩ (by omega)
      · rw [decide_eq_false hlt] at hc
        obtain ⟨hxf, hlaw⟩ :=
          hc.act_last slaveAddr (Answer.turn_go ht).1 hr (by omega)
        rw [returns_over (fun hn => by rw [hxf] at hn; cases hn.1)]
        exact iff_of_true hlaw fun j hj hjn => absurd hjn (by omega)
    | late =>
      rw [round_late hc.pending ht]
      by_cases hlt : i + 1 < rLen.toNat
      · rw [decide_eq_true hlt] at hc
        obtain ⟨hc', -, -, herr⟩ :=
          hc.act_ack slaveAddr (Answer.turn_late ht).1 hr.timedOut hlt
        rw [returns_over (fun hn => by rw [herr] at hn; cases hn.2)]
        refine iff_of_false (fun hl => ?_) fun hn => ?_
        · have hstop := hl.stop
          rw [hc'.stop] at hstop
          cases hstop
        · exact hn (i + 2) (Nat.le_refl _) (by omega) (fun l hl hli => by omega) ht
      · rw [decide_eq_false hlt] at hc
        obtain ⟨hxf, hlaw⟩ := hc.act_last slaveAddr
          (Answer.turn_late ht).1 hr.timedOut (by omega)
        rw [returns_over (fun hn => by rw [hxf] at hn; cases hn.1)]
        exact iff_of_true hlaw fun j hj hjn => absurd hjn (by omega)

end Bytes

/-! ## Less than two bytes -/

theorem setControlReg_got (c : I2cT) (ctrl : Byte) : (c.setControlReg ctrl).got = c.got := by
  unfold I2cT.setControlReg
  split
  · rfl
  split
  · unfold I2cT.resume
    split <;> rfl
  · rfl

theorem enter_got (c : I2cT) : c.got <+: (c.enter w).got := by
  unfold I2cT.enter
  split
  · exact List.prefix_refl _
  · split <;> exact List.prefix_refl _
  · split <;> exact List.prefix_refl _
  · split <;> exact List.prefix_refl _
  · split
    · exact List.prefix_append _ _
    · exact List.prefix_refl _
  · exact List.prefix_refl _

theorem readSwitch_got (s : Status) : (readSwitch slaveAddr rLen s x c).2.got = c.got := by
  cases s <;> rfl

/-- What has been received stays received. -/
theorem transfer_got {n : Nat} {r : Call × I2cT}
    (h : transfer timeOut w (readSwitch slaveAddr rLen) n x c = some r) : c.got <+: r.2.got := by
  induction n generalizing x c with
  | zero => cases h
  | succ n ih =>
    by_cases hx : x.xfering = true ∧ x.err = false
    · rw [transfer_round n hx] at h
      refine List.IsPrefix.trans ?_ (ih h)
      show c.got <+: (act (readSwitch slaveAddr rLen) _ (waitReady timeOut w c).2).2.got
      rw [act_eq]
      show c.got <+: (I2cT.setControlReg _ _).got
      rw [setControlReg_got, readSwitch_got]
      unfold waitReady
      split
      · exact List.prefix_refl _
      · show c.got <+: (if _ then c.enter w else c).got
        split
        · exact enter_got c
        · exact List.prefix_refl _
    · rw [transfer_over n hx] at h
      rw [← Option.some.inj h]

/-- The first byte has been acknowledged, and should not have been. -/
theorem not_readLaw_of_first (hless : rLen.toNat < 2) {b : Byte} (hgot : c.got = [(b, true)]) :
    ¬Returns (fun n => transfer timeOut w (readSwitch slaveAddr rLen) n x c)
      (ReadLaw timeOut w old rLen) := by
  rintro ⟨n, r, hr, hlaw⟩
  obtain ⟨rest, hrest⟩ := transfer_got hr
  have hfirst : r.2.got[0]? = some (b, true) := by
    rw [← hrest, hgot]
    rfl
  have hack := hlaw.received.acks 0 _ hfirst
  rw [decide_eq_false (by omega)] at hack
  cases hack

/-- With less than two bytes asked for, the first one must not come. -/
theorem returns_less (hless : rLen.toNat < 2) (hc : Listening 2 true c) (hr : Received old rLen x c)
    (hlen : x.len = 0) (hf : x.xfering = true ∧ x.err = false) :
    Returns (fun n => transfer timeOut w (readSwitch slaveAddr rLen) n x c)
        (ReadLaw timeOut w old rLen) ↔ w.readTurn timeOut 2 = .halt := by
  have hgot : c.got = [] := List.eq_nil_of_length_eq_zero hc.got
  have hcome (y : Call) (hw : (w.readAnswer 2).what = .ok true) :
      ¬Returns (fun n => transfer timeOut w (readSwitch slaveAddr rLen) n
        (act (readSwitch slaveAddr rLen) y (c.enter w)).1
        (act (readSwitch slaveAddr rLen) y (c.enter w)).2) (ReadLaw timeOut w old rLen) := by
    obtain ⟨b, hb⟩ := hc.enter_byte hw
    rw [hb]
    obtain ⟨ctrl, hact⟩ := act_rxAck slaveAddr rLen y
      (c := { c with phase := .held .rxAck, dat := b, got := c.got ++ [(b, true)] }) rfl
    simp only [if_true] at hact ⊢
    rw [hact]
    refine not_readLaw_of_first hless (b := b) ?_
    show c.got ++ [(b, true)] = _
    rw [hgot]
    rfl
  rw [returns_round hf]
  cases ht : w.readTurn timeOut 2 with
  | halt =>
    refine iff_of_true (hc.returns_halt ht hr (by rw [hlen]; exact Nat.zero_le _) ?_) rfl
    rcases Nat.eq_zero_or_pos rLen.toNat with h0 | hpos
    · exact .inr (hlen.trans (BitVec.eq_of_toNat_eq h0.symm))
    · exact .inl (by omega)
  | go =>
    rw [round_go hc.pending ht]
    exact iff_of_false (hcome x (Answer.turn_go ht).1) nofun
  | late =>
    rw [round_late hc.pending ht]
    exact iff_of_false (hcome x.timedOut (Answer.turn_late ht).1) nofun

/-! ## The function -/

/-- The START condition and the address -/
theorem returns_first (hk : k < 2) (hc : Listening k true c) (hr : Received old rLen x c)
    (hlen : x.len = 0) (hf : x.xfering = true ∧ x.err = false) :
    Returns (fun n => transfer timeOut w (readSwitch slaveAddr rLen) n x c)
        (ReadLaw timeOut w old rLen) ↔
      w.readTurn timeOut k ≠ .late ∧ (w.readTurn timeOut k = .go →
        Returns (fun n => transfer timeOut w (readSwitch slaveAddr rLen) n
          (act (readSwitch slaveAddr rLen) x (c.enter w)).1
          (act (readSwitch slaveAddr rLen) x (c.enter w)).2) (ReadLaw timeOut w old rLen)) := by
  rw [returns_round hf]
  cases ht : w.readTurn timeOut k with
  | halt =>
    refine iff_of_true (hc.returns_halt ht hr (by rw [hlen]; exact Nat.zero_le _) ?_) ⟨nofun, nofun⟩
    exact .inl (by omega)
  | go =>
    rw [round_go hc.pending ht]
    exact ⟨fun h => ⟨nofun, fun _ => h⟩, fun h => h.2 rfl⟩
  | late =>
    obtain ⟨hc', -, ctrl, hx⟩ := hc.act_first slaveAddr rLen x.timedOut hk (Answer.turn_late ht).1
    rw [round_late hc.pending ht, returns_over (fun hn => by rw [hx] at hn; cases hn.2)]
    refine iff_of_false (fun hl => ?_) fun hn => hn.1 rfl
    have hstop := hl.stop
    rw [hc'.stop] at hstop
    cases hstop

theorem returns_readMultiBytes_iff {dat : Byte} :
    Returns (readMultiBytes timeOut w dat slaveAddr old rLen) (ReadLaw timeOut w old rLen) ↔
      ReadServed timeOut w rLen.toNat := by
  have hc : Listening 0 true (I2cT.new dat).start := ⟨rfl, fun _ => rfl, rfl, rfl, nofun⟩
  have hr : Received old rLen (Call.new old) (I2cT.new dat).start := .first rfl rfl rfl
  unfold readMultiBytes
  rw [returns_first (by omega) hc hr rfl ⟨rfl, rfl⟩, readServed_iff]
  refine and_congr_right fun _ => imp_congr_right fun h0 => ?_
  obtain ⟨hc₁, hgot₁, ctrl₁, hx₁⟩ := hc.act_first slaveAddr rLen (Call.new old) (by omega)
    (Answer.turn_go h0).1
  have hr₁ : Received old rLen { Call.new old with ctrl := ctrl₁ } _ := .first hgot₁ rfl rfl
  rw [hx₁, returns_first (by omega) hc₁ hr₁ rfl ⟨rfl, rfl⟩]
  refine and_congr_right fun _ => imp_congr_right fun h1 => ?_
  obtain ⟨hc₂, hgot₂, ctrl₂, hx₂⟩ := hc₁.act_first slaveAddr rLen
    { Call.new old with ctrl := ctrl₁ } (by omega) (Answer.turn_go h1).1
  rw [hx₂]
  have hr₂ : Received old rLen { Call.new old with ctrl := ctrl₂ } _ :=
    .first (hgot₂.trans hgot₁) rfl rfl
  split
  case isTrue hless => exact returns_less hless hc₂ hr₂ rfl ⟨rfl, rfl⟩
  case isFalse hge =>
    refine Listening.returns_iff (i := 0) (by omega) ?_ hr₂ ⟨rfl, rfl⟩
    rw [decide_eq_true (by omega)]
    exact hc₂

end Ma35d1.I2c
