import Ma35d1.UsbHost.Hid.ReportWalk

/-!
# Reports of a mouse

One index moves through the report, and the reports are decoded as they should be exactly where it
stands at the bit that each reported field begins at.
-/

namespace Ma35d1.UsbHost.Hid

variable {n b t size i k base : Nat} {r : RpInfo} {rs : List RpInfo} {data : List (BitVec 8)}
  {id : BitVec 8} {h : Bool}

/-! ## One report -/

theorem bitLoop_ok (hread : ∀ j, i ≤ j → j < i + k → b + j * size < 8 * data.length ∧ j < 32) :
    bitLoop data size k i ⟨(b + i * size) / 8, b + i * size⟩
        (packBits 32 (fun j => bitAt data (b + j * size)) i) =
      .ok (packBits 32 (fun j => bitAt data (b + j * size)) (i + k),
        ⟨(b + (i + k) * size) / 8, b + (i + k) * size⟩) := by
  induction k generalizing i with
  | zero => rfl
  | succ k ih =>
    obtain ⟨hb, hi⟩ := hread i (Nat.le_refl i) (by omega)
    have hpos : 8 * ((b + i * size) / 8) + (b + i * size) % 8 = b + i * size := by omega
    have hbyte : (b + i * size) / 8 < data.length := by omega
    have hskip : (⟨(b + i * size) / 8, b + i * size⟩ : Cursor).skip size =
        ⟨(b + (i + 1) * size) / 8, b + (i + 1) * size⟩ := by
      rw [Cursor.skip, Nat.succ_mul, Nat.add_assoc]
    have hrest := ih (i := i + 1) fun j hj hjk => hread j (by omega) (by omega)
    rw [show i + 1 + k = i + (k + 1) by omega] at hrest
    have hbit : shiftedBit data ((b + i * size) / 8) (b + i * size) i = _ := shiftedBit_ok hbyte hi
    rw [hpos] at hbit
    rw [bitLoop]
    simp only [hbit]
    rw [hskip]
    exact hrest

theorem bitLoop_start (hread : ∀ j < k, b + j * size < 8 * data.length ∧ j < 32) :
    bitLoop data size k 0 ⟨b / 8, b⟩ 0 =
      .ok (packBits 32 (fun j => bitAt data (b + j * size)) k,
        ⟨(b + k * size) / 8, b + k * size⟩) := by
  have hloop := bitLoop_ok (i := 0) (k := k) fun j _ hj => hread j (by omega)
  rwa [Nat.zero_mul, Nat.add_zero, Nat.zero_add] at hloop

theorem bitLoop_reads {v : BitVec 32} {p : BitVec 32 × Cursor}
    (hloop : bitLoop data size k i ⟨(b + i * size) / 8, b + i * size⟩ v = .ok p) :
    ∀ j, i ≤ j → j < i + k → b + j * size < 8 * data.length ∧ j < 32 := by
  induction k generalizing i v with
  | zero => exact fun j hj hjk => by omega
  | succ k ih =>
    rw [bitLoop] at hloop
    match hbit : shiftedBit data ((b + i * size) / 8) (b + i * size) i with
    | .error e => simp only [hbit] at hloop; cases hloop
    | .ok w =>
      simp only [hbit] at hloop
      obtain ⟨hb, hi⟩ := shiftedBit_reads hbit
      have hskip : (⟨(b + i * size) / 8, b + i * size⟩ : Cursor).skip size =
          ⟨(b + (i + 1) * size) / 8, b + (i + 1) * size⟩ := by
        rw [Cursor.skip, Nat.succ_mul, Nat.add_assoc]
      rw [hskip] at hloop
      intro j hj hjk
      by_cases hji : j = i
      · subst hji
        exact ⟨by omega, hi⟩
      · exact ih hloop j (by omega) (by omega)

/-- What the walk stores of a report when `bit_idx` is `b` -/
def mouseStoreAt (data : List (BitVec 8)) (b : Nat) (r : RpInfo) : Option MouseStore :=
  if r.isButton then
    if r.status.variable_ then
      some (.buttons r.reportCount (packBits 32 (fun i => bitAt data (b + i * r.size)) r.count))
    else none
  else if r.isAxis then
    axisStore r (castUsage r.size (packBits 32 (fun i => bitAt data (b + i)) r.size))
  else none

/-- The reads of a report, bit by bit -/
theorem mouseReads_iff (hcount : 0 < r.count) : MouseReads n b r ↔
    (r.isButton = true → r.status.variable_ = true →
        ∀ j < r.count, b + j * r.size < 8 * n ∧ j < 32) ∧
      (r.isButton = false → r.isAxis = true → ∀ j < r.size, b + j < 8 * n ∧ j < 32) := by
  unfold MouseReads
  cases hbutton : r.isButton with
  | true =>
    rw [if_pos rfl]
    refine ⟨fun hr => ⟨fun _ hv j hj => ?_, fun hf => Bool.noConfusion hf⟩, fun hr hv => ?_⟩
    · obtain ⟨hlast, hmax⟩ := hr hv
      have := Nat.mul_le_mul_right r.size (show j ≤ r.count - 1 by omega)
      exact ⟨by omega, by omega⟩
    · obtain ⟨hlast, hmax⟩ := hr.1 rfl hv (r.count - 1) (by omega)
      exact ⟨hlast, by omega⟩
  | false =>
    rw [if_neg Bool.false_ne_true]
    refine ⟨fun hr => ⟨fun hf => Bool.noConfusion hf, fun _ ha j hj => ?_⟩, fun hr ha => ?_⟩
    · obtain ⟨hlast, hmax⟩ := hr ha
      exact ⟨by omega, by omega⟩
    · by_cases h0 : r.size = 0
      · exact ⟨.inl h0, by omega⟩
      · obtain ⟨hlast, hmax⟩ := hr.2 rfl ha (r.size - 1) (by omega)
        exact ⟨.inr (by omega), by omega⟩

/-- A report whose reads lie within the buffer -/
theorem mouseEntry_ok (hcount : 0 < r.count) (hr : MouseReads data.length b r) :
    mouseEntry data r ⟨b / 8, b⟩ =
      .ok (some (mouseStoreAt data b r, ⟨(b + mouseMove r) / 8, b + mouseMove r⟩)) := by
  obtain ⟨hbutton, haxis⟩ := (mouseReads_iff hcount).mp hr
  unfold mouseEntry mouseStoreAt mouseMove
  by_cases hb : r.isButton = true
  · rw [if_pos hb, if_pos hb, if_pos hb]
    by_cases hv : r.status.variable_ = true
    · rw [if_pos hv, if_pos hv, bitLoop_start fun j hj => hbutton hb hv j hj]
      rfl
    · rw [if_neg hv, if_neg hv]
      rfl
  · rw [if_neg hb, if_neg hb, if_neg hb]
    by_cases ha : r.isAxis = true
    · have hread : ∀ j < r.size, b + j * 1 < 8 * data.length ∧ j < 32 := fun j hj => by
        rw [Nat.mul_one]
        exact haxis (Bool.eq_false_iff.mpr hb) ha j hj
      rw [if_pos ha, if_pos ha, bitLoop_start hread]
      simp only [Nat.mul_one]
      rfl
    · rw [if_neg ha, if_neg ha]
      rfl

/-- A report that the walk gets through -/
theorem mouseEntry_reads {o : Option (Option MouseStore × Cursor)} (hcount : 0 < r.count)
    (he : mouseEntry data r ⟨b / 8, b⟩ = .ok o) : MouseReads data.length b r := by
  refine (mouseReads_iff hcount).mpr ⟨fun hb hv j hj => ?_, fun hb ha j hj => ?_⟩
  · rw [mouseEntry, if_pos hb, if_pos hv] at he
    match hloop : bitLoop data r.size r.count 0 ⟨b / 8, b⟩ 0 with
    | .error e => rw [hloop] at he; cases he
    | .ok p =>
      rw [show (⟨b / 8, b⟩ : Cursor) = ⟨(b + 0 * r.size) / 8, b + 0 * r.size⟩ by
        rw [Nat.zero_mul, Nat.add_zero]] at hloop
      exact bitLoop_reads hloop j (Nat.zero_le j) (by omega)
  · rw [mouseEntry, if_neg (by rw [hb]; exact Bool.false_ne_true), if_pos ha] at he
    match hloop : bitLoop data 1 r.size 0 ⟨b / 8, b⟩ 0 with
    | .error e => rw [hloop] at he; cases he
    | .ok p =>
      rw [show (⟨b / 8, b⟩ : Cursor) = ⟨(b + 0 * 1) / 8, b + 0 * 1⟩ from rfl] at hloop
      have hj' := bitLoop_reads hloop j (Nat.zero_le j) (by omega)
      rwa [Nat.mul_one] at hj'

/-! ## What is stored -/

/-- The width of the cast -/
def castWidth (size : Nat) : Nat := if size ≤ 8 then 8 else if size ≤ 16 then 16 else 32

theorem castUsage_eq (size : Nat) (v : BitVec 32) :
    castUsage size v = (v.setWidth (castWidth size)).toInt := by
  unfold castUsage castWidth
  by_cases h8 : size ≤ 8
  · rw [if_pos h8, if_pos h8]
  · rw [if_neg h8, if_neg h8]
    by_cases h16 : size ≤ 16
    · rw [if_pos h16, if_pos h16]
    · rw [if_neg h16, if_neg h16, BitVec.setWidth_eq]

theorem castWidth_bounds (hsize : size ≤ 32) :
    0 < castWidth size ∧ size ≤ castWidth size ∧ castWidth size ≤ 32 := by
  unfold castWidth
  split_ifs <;> omega

theorem castWidth_eq_iff (hsize : size ≤ 32) :
    castWidth size = size ↔ size = 8 ∨ size = 16 ∨ size = 32 := by
  unfold castWidth
  split_ifs <;> omega

theorem signExtend_congr {w v : Nat} {x : BitVec w} {y : BitVec v} (hxy : x.toInt = y.toInt) :
    x.signExtend 32 = y.signExtend 32 := congrArg (BitVec.ofInt 32) hxy

theorem signExtend_last {w : Nat} (x : BitVec w) (hw : w ≤ 32) :
    (x.signExtend 32).getLsbD 31 = x.getLsbD (w - 1) := by
  rw [BitVec.getLsbD_signExtend, BitVec.msb_eq_getLsbD_last]
  by_cases h31 : 31 < w
  · rw [if_pos h31, show w - 1 = 31 by omega]
    rfl
  · rw [if_neg h31]
    rfl

theorem axisStore_inj {x y : Int} (hr : r.isReported = true) (he : axisStore r x = axisStore r y) :
    x = y := by
  unfold axisStore at he
  unfold RpInfo.isReported at hr
  by_cases hx : r.dataUsage = usageIdX
  · rw [if_pos hx, if_pos hx] at he
    injection he with he
    injection he
  · rw [if_neg hx, if_neg hx] at he
    by_cases hy : r.dataUsage = usageIdY
    · rw [if_pos hy, if_pos hy] at he
      injection he with he
      injection he
    · rw [if_neg hy, if_neg hy] at he
      by_cases hw : r.dataUsage = usageIdWheel
      · rw [if_pos hw, if_pos hw] at he
        injection he with he
        injection he
      · simp [hx, hy, hw] at hr

theorem axisStore_eq_none (r : RpInfo) (x : Int) : axisStore r x = none ↔ r.isReported = false := by
  unfold axisStore RpInfo.isReported
  split_ifs <;> simp [*]

/-- Behind the buffer nothing is said. -/
theorem mouseField_behind (ht : 8 * data.length ≤ t) : mouseField data t r = none := by
  unfold mouseField
  split_ifs with hb hv ha hin
  · omega
  · rfl
  · omega
  · rfl
  · rfl

/-! ## Where a report has to stand -/

/-- The value of an axis at another bit, or with another cast, is not the one that was sent. -/
theorem axisValue_iff (hb : h = true → 8 ≤ b) (hbt : b ≤ t) (h0 : 0 < size) (hsize : size ≤ 32)
    (htn : t + size ≤ 8 * n) :
    (∀ data, Received h n id data →
        castUsage size (packBits 32 (fun i => bitAt data (b + i)) size) =
          ((packBits 32 (fun i => bitAt data (t + i)) size).setWidth size).toInt) ↔
      b = t ∧ (size = 8 ∨ size = 16 ∨ size = 32) := by
  obtain ⟨hw0, hsw, hw⟩ := castWidth_bounds hsize
  constructor
  · intro hall
    have hbits : ∀ p, (((packBits 32 (fun i => bitAt (oneBit h n id p) (b + i)) size).setWidth
        (castWidth size)).signExtend 32) =
        (((packBits 32 (fun i => bitAt (oneBit h n id p) (t + i)) size).setWidth size).signExtend
          32) := fun p => signExtend_congr (by
      rw [← castUsage_eq]
      exact hall _ (oneBit_received h n id p))
    have heq : b = t := by
      have hbit := congrArg (fun v => v.getLsbD 0) (hbits b)
      simp only [BitVec.getLsbD_signExtend, BitVec.getLsbD_setWidth, packBits_getLsbD, hw0, h0,
        if_true, Nat.add_zero, bitAt_oneBit hb (show b < 8 * n by omega),
        bitAt_oneBit (fun hid => by have := hb hid; omega) (show t < 8 * n by omega)] at hbit
      simpa [eq_comm] using hbit
    subst heq
    refine ⟨rfl, (castWidth_eq_iff hsize).mp ?_⟩
    by_contra hne
    have hbit := congrArg (fun v => v.getLsbD 31) (hbits (b + (size - 1)))
    simp only [signExtend_last _ hw, signExtend_last _ hsize, BitVec.getLsbD_setWidth,
      packBits_getLsbD] at hbit
    have hlast : bitAt (oneBit h n id (b + (size - 1))) (b + (size - 1)) = true := by
      rw [bitAt_oneBit (fun hid => by have := hb hid; omega) (by omega)]
      exact decide_eq_true rfl
    rw [decide_eq_false (show ¬ castWidth size - 1 < size by omega), hlast,
      decide_eq_true (show size - 1 < size by omega), decide_eq_true (show size - 1 < 32 by omega)]
      at hbit
    simp at hbit
  · rintro ⟨rfl, hcast⟩ data -
    rw [castUsage_eq, (castWidth_eq_iff hsize).mpr hcast]

/-- `bit_idx` stands where the report begins exactly if what is stored is what its bits say. -/
theorem mouseFits_iff (hcount : 0 < r.count) (hb : h = true → 8 ≤ b) (hbt : b ≤ t)
    (hr : MouseReads n b r) :
    (∀ data, Received h n id data → mouseStoreAt data b r = mouseField data t r) ↔
      MouseFits n b t r := by
  have ht : h = true → 8 ≤ t := fun hid => Nat.le_trans (hb hid) hbt
  unfold mouseStoreAt mouseField MouseFits
  by_cases hbutton : r.isButton = true
  · simp only [if_pos hbutton]
    by_cases hv : r.status.variable_ = true
    · obtain ⟨hlast, hmax⟩ : b + (r.count - 1) * r.size < 8 * n ∧ r.count ≤ 32 := by
        unfold MouseReads at hr
        rw [if_pos hbutton] at hr
        exact hr hv
      simp only [if_pos hv]
      constructor
      · intro hall _
        have hbit := hall _ (oneBit_received h n id b)
        split_ifs at hbit with hin
        · injection hbit with hbit
          injection hbit with _ hmap
          rw [(oneBit_received h n id b).1] at hin
          have hfirst := congrArg (fun v => v.getLsbD 0) hmap
          simp only [packBits_getLsbD, hcount, Nat.zero_mul, Nat.add_zero,
            bitAt_oneBit hb (show b < 8 * n by omega),
            bitAt_oneBit ht (show t < 8 * n by omega)] at hfirst
          simpa [eq_comm] using hfirst
      · intro hfit data hdata
        obtain rfl := hfit hv
        rw [if_pos ⟨hv, by rw [hdata.1]; exact hlast⟩]
    · simp [hv]
  · simp only [if_neg hbutton]
    by_cases ha : r.isAxis = true
    · obtain ⟨hin, hmax⟩ : (r.size = 0 ∨ b + r.size ≤ 8 * n) ∧ r.size ≤ 32 := by
        unfold MouseReads at hr
        rw [if_neg hbutton] at hr
        exact hr ha
      simp only [if_pos ha]
      cases hrep : r.isReported with
      | false =>
        have hnone := fun x => (axisStore_eq_none r x).mpr hrep
        simp [hnone]
      | true =>
        constructor
        · intro hall _ _
          have hwithin : t < 8 * n ∧ t + r.size ≤ 8 * n := by
            by_contra hout
            have hnone := hall _ (oneBit_received h n id 0)
            rw [(oneBit_received h n id 0).1, if_neg hout, axisStore_eq_none, hrep] at hnone
            exact Bool.noConfusion hnone
          refine ⟨hwithin.1, or_iff_not_imp_left.mpr fun h0 => ?_⟩
          refine (axisValue_iff hb hbt (Nat.pos_of_ne_zero h0) hmax hwithin.2).mp
            fun data (hdata : Received h n id data) => ?_
          have heq := hall data hdata
          rw [hdata.1, if_pos hwithin] at heq
          exact axisStore_inj hrep heq
        · intro hfit data hdata
          obtain ⟨htn, h0 | ⟨rfl, hcast⟩⟩ := hfit ha rfl
          · have hempty : ∀ f, packBits 32 f r.size = 0#32 := fun f => by rw [h0]; rfl
            rw [hdata.1, if_pos ⟨htn, by omega⟩, hempty, hempty, castUsage_eq, BitVec.setWidth_zero,
              BitVec.setWidth_zero, BitVec.toInt_zero, BitVec.toInt_zero]
          · rw [hdata.1, if_pos ⟨htn, by omega⟩]
            refine congrArg (axisStore r) ?_
            rw [castUsage_eq, (castWidth_eq_iff hmax).mpr hcast]
    · simp [ha]

/-! ## All reports -/

theorem mouseMove_le (hcount : 0 < r.count) : mouseMove r ≤ r.size * r.count := by
  unfold mouseMove
  split
  · rw [Nat.mul_comm]
  · exact Nat.le_mul_of_pos_right _ hcount

/-- A walk that comes to its end has read within the buffer. -/
theorem mouseReads_of_follows (hcount : 0 < r.count) (hn : data.length = n)
    (hf : Follows (mouseEntry data) (mouseField data) (· = none) n ⟨b / 8, b⟩ t (r :: rs)) :
    MouseReads n b r := by
  obtain ⟨x, c', he, -, -⟩ := follows_cons.mp hf
  have hr := mouseEntry_reads hcount he
  rwa [hn] at hr

theorem mouseFollows_cons (hcount : 0 < r.count) (hbt : b ≤ t) (hn : data.length = n)
    (hr : MouseReads n b r) :
    Follows (mouseEntry data) (mouseField data) (· = none) n ⟨b / 8, b⟩ t (r :: rs) ↔
      mouseStoreAt data b r = mouseField data t r ∧
        (n ≤ (b + mouseMove r) / 8 ∨
          Follows (mouseEntry data) (mouseField data) (· = none) n
            ⟨(b + mouseMove r) / 8, b + mouseMove r⟩ (t + r.size * r.count) rs) := by
  subst hn
  rw [follows_cons, mouseEntry_ok hcount hr]
  constructor
  · rintro ⟨x, c', he, hx, hrest⟩
    obtain ⟨rfl, rfl⟩ := Prod.mk.inj (Option.some.inj (Except.ok.inj he))
    refine ⟨hx, ?_⟩
    by_cases hstop : data.length ≤ (b + mouseMove r) / 8
    · exact .inl hstop
    · rw [if_neg hstop] at hrest
      exact .inr hrest
  · rintro ⟨hx, hrest⟩
    refine ⟨_, _, rfl, hx, ?_⟩
    by_cases hstop : data.length ≤ (b + mouseMove r) / 8
    · have hmove := mouseMove_le hcount
      rw [if_pos hstop]
      exact expectedFrom_silent (· = none) fun t' r' ht' => mouseField_behind (by omega)
    · rw [if_neg hstop]
      exact hrest.resolve_left hstop

theorem mouseLayout_iff (hcount : ∀ r ∈ rs, 0 < r.count) (hb : h = true → 8 ≤ b) (hbt : b ≤ t) :
    (∀ data, Received h n id data →
        Follows (mouseEntry data) (mouseField data) (· = none) n ⟨b / 8, b⟩ t rs) ↔
      MouseLayout n b t rs := by
  induction rs generalizing b t with
  | nil => exact ⟨fun _ => trivial, fun _ _ _ => follows_nil⟩
  | cons r rs ih =>
    have hc : 0 < r.count := hcount r List.mem_cons_self
    have hmove := mouseMove_le hc
    have hrest := ih (fun r' hr' => hcount r' (List.mem_cons_of_mem r hr'))
      (b := b + mouseMove r) (t := t + r.size * r.count) (fun hid => by have := hb hid; omega)
      (by omega)
    constructor
    · intro hall
      have hone := oneBit_received h n id 0
      have hr : MouseReads n b r := mouseReads_of_follows hc hone.1 (hall _ hone)
      have hstep := fun data (hdata : Received h n id data) =>
        (mouseFollows_cons hc hbt hdata.1 hr).mp (hall data hdata)
      refine ⟨hr, (mouseFits_iff hc hb hbt hr).mp fun data hdata => (hstep data hdata).1, ?_⟩
      refine or_iff_not_imp_left.mpr fun hstop => hrest.mp fun data hdata => ?_
      exact (hstep data hdata).2.resolve_left hstop
    · rintro ⟨hr, hfit, hnext⟩ data hdata
      refine (mouseFollows_cons hc hbt hdata.1 hr).mpr
        ⟨(mouseFits_iff hc hb hbt hr).mpr hfit data hdata, ?_⟩
      exact hnext.imp_right fun hlayout => hrest.mpr hlayout data hdata

/-- The decoder of a mouse refuses no report. -/
theorem mouseEntry_ne_none (c : Cursor) : mouseEntry data r c ≠ .ok none := by
  unfold mouseEntry
  split_ifs
  · cases bitLoop data r.size r.count 0 c 0 <;> exact fun he => by cases he
  · exact fun he => by cases he
  · cases bitLoop data 1 r.size 0 c 0 <;> exact fun he => by cases he
  · exact fun he => by cases he

theorem mouseLoop_ne_none (c : Cursor) : lookLoop (mouseEntry data) n rs c ≠ .ok none := by
  induction rs generalizing c with
  | nil => exact fun he => by cases he
  | cons r rs ih =>
    rw [lookLoop]
    cases he : mouseEntry data r c with
    | error e => exact fun hn => by cases hn
    | ok o =>
      cases o with
      | none => exact absurd he (mouseEntry_ne_none c)
      | some x =>
        obtain ⟨x, c'⟩ := x
        by_cases hstop : n ≤ c'.byteIdx
        · simp [hstop]
        · have hrest := ih c'
          cases hl : lookLoop (mouseEntry data) n rs c' with
          | error e => simp [hstop, hl, Except.map]
          | ok l =>
            cases l with
            | none => exact absurd hl hrest
            | some l => simp [hstop, hl, Except.map]

/-- A buffer of a mouse is decoded as it should be if the walk comes to its end with the stores
expected. -/
theorem decoded_mouse_iff {rpd : Rpd} (hdata : Received rpd.hasReportId n id data)
    (hn : rpd.hasReportId = true → 0 < n) : Decoded .mouse rpd data ↔
      Follows (mouseEntry data) (mouseField data) (· = none) n ⟨rpd.base / 8, rpd.base⟩ rpd.base
        (rpd.looked (data.getD 0 0)) := by
  show (∃ o, walkReports (mouseEntry data) rpd data = .ok o ∧ _) ↔ _
  unfold Follows mouseExpected
  rw [walkReports_eq (by rw [hdata.1]; exact hn), hdata.1]
  constructor
  · rintro ⟨o, ho, hsame⟩
    cases o with
    | none => exact absurd ho (mouseLoop_ne_none _)
    | some stores => exact ⟨stores, ho, hsame stores rfl⟩
  · rintro ⟨stores, ho, hsame⟩
    exact ⟨some stores, ho, fun _ he => by cases he; exact hsame⟩

end Ma35d1.UsbHost.Hid
