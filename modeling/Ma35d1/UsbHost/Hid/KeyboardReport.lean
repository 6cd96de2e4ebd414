import Ma35d1.UsbHost.Hid.ReportWalk

/-!
# Reports of a keyboard

Two indices move through the report: single bits move `bit_idx` and bytes move `byte_idx`, so the
reports behind bytes are decoded as they should be only if none of their fields is reported.
-/

namespace Ma35d1.UsbHost.Hid

variable {n b t i k base byteIdx : Nat} {r : RpInfo} {rs : List RpInfo} {data : List (BitVec 8)}
  {id : BitVec 8} {h : Bool} {c : Cursor}

/-! ## Where a field goes -/

theorem bitStore_eq_none (x : Nat) (v : BitVec 8) : bitStore x v = none ↔ ¬ KeyPlace (x / 8) := by
  unfold bitStore KeyPlace
  split_ifs <;> simp <;> omega

theorem byteStore_eq_none (x : Nat) (v : BitVec 8) : byteStore x v = none ↔ ¬ KeyPlace x := by
  unfold byteStore KeyPlace
  split_ifs <;> simp <;> omega

theorem bitStore_inj {x y : Nat} {v w : BitVec 8} (hx : KeyPlace (x / 8))
    (he : bitStore x v = bitStore y w) : x / 8 = y / 8 ∧ v = w := by
  have hsome := mt (bitStore_eq_none x v).mp (not_not.mpr hx)
  unfold bitStore at he hsome
  split_ifs at he hsome <;> simp at he hsome
  · exact ⟨by omega, he⟩
  · exact ⟨by omega, he.2⟩

theorem byteStore_inj {x y : Nat} {v w : BitVec 8} (hx : KeyPlace x)
    (he : byteStore x v = byteStore y w) : x = y ∧ v = w := by
  have hsome := mt (byteStore_eq_none x v).mp (not_not.mpr hx)
  unfold byteStore at he hsome
  split_ifs at he hsome <;> simp at he hsome
  · exact ⟨by omega, he⟩
  · exact ⟨by omega, he.2⟩

/-- Behind the buffer nothing is said. -/
theorem keyFields_behind (ht : 8 * data.length ≤ t) : NoStore (keyFields data base t r) := by
  unfold keyFields
  intro x hx
  split_ifs at hx
  · obtain ⟨i, -, rfl⟩ := List.mem_map.mp hx
    exact if_neg (by omega)
  · obtain ⟨i, -, rfl⟩ := List.mem_map.mp hx
    exact if_neg (by omega)
  · cases hx

/-! ## One report -/

/-- Single bit `i` of a report, as the walk stores it -/
def keyBitStored (data : List (BitVec 8)) (c : Cursor) (i : Nat) : Option KeyStore :=
  bitStore (c.bitIdx + i)
    ((packBits 32 (fun j => bitAt data (8 * c.byteIdx + (c.bitIdx + j) % 8)) (i + 1)).setWidth 8)

/-- Byte `i` of a report, as the walk stores it -/
def keyByteStored (data : List (BitVec 8)) (c : Cursor) (i : Nat) : Option KeyStore :=
  byteStore (c.byteIdx + i) (data.getD (c.byteIdx + i) 0)

theorem keyBits_ok (hb : c.byteIdx < data.length) (hk : i + k ≤ 32) :
    keyBits data c.byteIdx k i (c.bitIdx + i)
        (packBits 32 (fun j => bitAt data (8 * c.byteIdx + (c.bitIdx + j) % 8)) i) =
      .ok ((List.range' i k).map (keyBitStored data c)) := by
  induction k generalizing i with
  | zero => rfl
  | succ k ih =>
    have hbit : shiftedBit data c.byteIdx (c.bitIdx + i) i = _ := shiftedBit_ok hb (by omega)
    have hrest := ih (i := i + 1) (by omega)
    rw [keyBits]
    simp only [hbit]
    rw [List.range'_succ, List.map_cons, Nat.add_assoc]
    exact congrArg (Except.map _) hrest

theorem keyBits_reads {bitIdx : Nat} {v : BitVec 32} {l : List (Option KeyStore)} (h0 : 0 < k)
    (hl : keyBits data byteIdx k i bitIdx v = .ok l) : byteIdx < data.length ∧ i + k ≤ 32 := by
  induction k generalizing i bitIdx v l with
  | zero => exact absurd h0 (Nat.lt_irrefl 0)
  | succ k ih =>
    rw [keyBits] at hl
    match hbit : shiftedBit data byteIdx bitIdx i with
    | .error e => simp only [hbit] at hl; cases hl
    | .ok w =>
      obtain ⟨hb, hi⟩ := shiftedBit_reads hbit
      simp only [hbit] at hl
      match hrest : keyBits data byteIdx k (i + 1) (bitIdx + 1) (v ||| w) with
      | .error e => rw [hrest] at hl; cases hl
      | .ok rest =>
        rcases Nat.eq_zero_or_pos k with rfl | hk
        · exact ⟨hb, by omega⟩
        · have := (ih hk hrest).2
          exact ⟨hb, by omega⟩

theorem keyByte_place : keyByte data byteIdx =
    if KeyPlace byteIdx ∧ data.length ≤ byteIdx then .error .data
    else .ok (byteStore byteIdx (data.getD byteIdx 0)) := by
  unfold keyByte
  by_cases hp : KeyPlace byteIdx
  · rw [if_neg (by unfold KeyPlace at hp; omega)]
    by_cases hb : byteIdx < data.length
    · rw [if_pos hb, if_neg (by omega)]
    · rw [if_neg hb, if_pos ⟨hp, by omega⟩]
  · rw [if_pos (by unfold KeyPlace at hp; omega), if_neg fun hne => hp hne.1,
      (byteStore_eq_none _ _).mpr hp]

theorem keyBytes_ok (hread : ∀ j, byteIdx ≤ j → j < byteIdx + k → KeyPlace j → j < data.length) :
    keyBytes data k byteIdx =
      .ok ((List.range' byteIdx k).map fun j => byteStore j (data.getD j 0)) := by
  induction k generalizing byteIdx with
  | zero => rfl
  | succ k ih =>
    have hfirst := hread byteIdx (Nat.le_refl _) (by omega)
    rw [keyBytes, keyByte_place, if_neg fun hne => by have := hfirst hne.1; omega]
    simp only
    rw [ih fun j hj hjk => hread j (by omega) (by omega), List.range'_succ]
    rfl

theorem keyBytes_reads {l : List (Option KeyStore)} (hl : keyBytes data k byteIdx = .ok l) :
    ∀ j, byteIdx ≤ j → j < byteIdx + k → KeyPlace j → j < data.length := by
  induction k generalizing byteIdx l with
  | zero => exact fun j hj hjk => by omega
  | succ k ih =>
    intro j hj hjk hplace
    rw [keyBytes, keyByte_place] at hl
    by_cases hbad : KeyPlace byteIdx ∧ data.length ≤ byteIdx
    · rw [if_pos hbad] at hl
      cases hl
    · rw [if_neg hbad] at hl
      by_cases hji : j = byteIdx
      · subst hji
        by_contra hlt
        exact hbad ⟨hplace, by omega⟩
      · match hrest : keyBytes data k (byteIdx + 1) with
        | .error e => simp only [hrest] at hl; cases hl
        | .ok rest => exact ih hrest j (by omega) (by omega) hplace

/-- What the walk stores of a report when its indices are at `c` -/
def keyStoresAt (data : List (BitVec 8)) (c : Cursor) (r : RpInfo) : List (Option KeyStore) :=
  if r.isKey then
    if r.size = 1 then (List.range r.count).map (keyBitStored data c)
    else (List.range r.count).map (keyByteStored data c)
  else []

theorem keyUnsupported_iff :
    keyUnsupported r = true ↔ r.isKey = true ∧ r.size ≠ 1 ∧ r.size ≠ 8 := by
  unfold keyUnsupported
  rw [Bool.and_eq_true, Bool.and_eq_true, bne_iff_ne, bne_iff_ne, and_assoc]

theorem keyboardEntry_refused (hu : keyUnsupported r = true) :
    keyboardEntry data r c = .ok none := by
  obtain ⟨hkey, hsize⟩ := keyUnsupported_iff.mp hu
  rw [keyboardEntry, if_pos hkey, if_pos hsize]

/-- A report whose reads lie within the buffer -/
theorem keyboardEntry_ok (hu : ¬ keyUnsupported r = true)
    (hr : r.isKey = true → KeyReads data.length c r) :
    keyboardEntry data r c = .ok (some (keyStoresAt data c r, keyMove c r)) := by
  unfold keyboardEntry keyStoresAt keyMove
  by_cases hkey : r.isKey = true
  · have hsize : ¬ (r.size ≠ 1 ∧ r.size ≠ 8) := fun hs => hu (keyUnsupported_iff.mpr ⟨hkey, hs⟩)
    have hread := hr hkey
    unfold KeyReads at hread
    rw [if_pos hkey, if_neg hsize, if_pos hkey, if_pos hkey]
    by_cases h1 : r.size = 1
    · rw [if_pos h1] at hread
      have hloop := keyBits_ok (i := 0) (k := r.count) hread.1 (by omega)
      rw [List.range_eq_range', if_pos h1, if_pos h1, if_pos h1]
      exact congrArg (Except.map _) hloop
    · rw [if_neg h1] at hread
      rw [if_neg h1, if_neg h1, if_neg h1, keyBytes_ok fun j hj hjk hplace => by
        have hlt := hread (j - c.byteIdx) (by omega)
        rw [show c.byteIdx + (j - c.byteIdx) = j by omega] at hlt
        exact hlt hplace]
      rw [List.range'_eq_map_range, List.map_map]
      rfl
  · rw [if_neg hkey, if_neg hkey, if_neg hkey]

/-- A report that the walk gets through -/
theorem keyboardEntry_reads {o : Option (List (Option KeyStore) × Cursor)} (hcount : 0 < r.count)
    (he : keyboardEntry data r c = .ok o) (hu : ¬ keyUnsupported r = true) (hkey : r.isKey = true) :
    KeyReads data.length c r := by
  have hsize : ¬ (r.size ≠ 1 ∧ r.size ≠ 8) := fun hs => hu (keyUnsupported_iff.mpr ⟨hkey, hs⟩)
  rw [keyboardEntry, if_pos hkey, if_neg hsize] at he
  unfold KeyReads
  by_cases h1 : r.size = 1
  · rw [if_pos h1] at he ⊢
    match hl : keyBits data c.byteIdx r.count 0 c.bitIdx 0 with
    | .error e => rw [hl] at he; cases he
    | .ok l =>
      have hread := keyBits_reads hcount hl
      exact ⟨hread.1, by omega⟩
  · rw [if_neg h1] at he ⊢
    match hl : keyBytes data r.count c.byteIdx with
    | .error e => rw [hl] at he; cases he
    | .ok l =>
      exact fun i hi => keyBytes_reads hl (c.byteIdx + i) (by omega) (by omega)

/-! ## Where a report has to stand -/

/-- The indices have come from the report ID to the bit `t` or stay behind it. -/
structure Stands (h : Bool) (base : Nat) (c : Cursor) (t : Nat) : Prop where
  base_eq : base = if h = true then 8 else 0
  bit_mod : c.bitIdx % 8 = t % 8
  byte_le : 8 * c.byteIdx ≤ t
  bit_le : c.bitIdx ≤ t
  le_bit : base ≤ c.bitIdx
  le_byte : base ≤ 8 * c.byteIdx

theorem Stands.base_cases (hs : Stands h base c t) : base = 0 ∧ h = false ∨ base = 8 := by
  have hbase := hs.base_eq
  cases h with
  | false => exact .inl ⟨hbase, rfl⟩
  | true => exact .inr hbase

theorem Stands.base_mod (hs : Stands h base c t) : base % 8 = 0 := by
  rcases hs.base_cases with hf | h8
  · rw [hf.1]
  · rw [h8]

theorem Stands.behind (hs : Stands h base c t) {x : Nat} (hx : base ≤ x) : h = true → 8 ≤ x := by
  intro hid
  rcases hs.base_cases with hf | h8
  · rw [hid] at hf
    exact Bool.noConfusion hf.2
  · omega

/-- A report moves the indices with the bit, or less far. -/
theorem Stands.move (hs : Stands h base c t) (hu : ¬ keyUnsupported r = true) :
    Stands h base (keyMove c r) (t + r.size * r.count) := by
  obtain ⟨hbase, hmod, hbyte, hbit, hlbit, hlbyte⟩ := hs
  have hb8 : base % 8 = 0 := by
    rw [hbase]
    split <;> rfl
  unfold keyMove
  by_cases hkey : r.isKey = true
  · rw [if_pos hkey]
    by_cases h1 : r.size = 1
    · rw [if_pos h1, h1, Nat.one_mul]
      unfold Cursor.skip
      refine ⟨hbase, ?_, ?_, ?_, ?_, ?_⟩ <;> simp only <;> omega
    · have h8 : r.size = 8 := by
        by_contra hne
        exact hu (keyUnsupported_iff.mpr ⟨hkey, h1, hne⟩)
      rw [if_neg h1, h8]
      refine ⟨hbase, ?_, ?_, ?_, ?_, ?_⟩ <;> simp only <;> omega
  · rw [if_neg hkey]
    unfold Cursor.skip
    refine ⟨hbase, ?_, ?_, ?_, ?_, ?_⟩ <;> simp only <;> omega

theorem keyBitStored_eq_none (i : Nat) :
    keyBitStored data c i = none ↔ ¬ KeyPlace ((c.bitIdx + i) / 8) :=
  bitStore_eq_none _ _

theorem keyBitAt_eq_none (i : Nat) : keyBitAt data base t i = none ↔
    (t + i < 8 * data.length → ¬ KeyPlace ((t - base + i) / 8)) := by
  unfold keyBitAt
  by_cases hin : t + i < 8 * data.length
  · rw [if_pos hin, bitStore_eq_none]
    exact ⟨fun hp _ => hp, fun hp => hp hin⟩
  · rw [if_neg hin]
    exact ⟨fun _ hin' => absurd hin' hin, fun _ => rfl⟩

/-- A single bit with a field is stored in the same byte. -/
theorem keyBit_place (hs : Stands h base c t)
    (hall : ∀ data, Received h n id data → ∀ i < r.count,
      keyBitStored data c i = keyBitAt data base t i)
    (hi : i < r.count)
    (hplace : KeyPlace ((c.bitIdx + i) / 8) ∨ t + i < 8 * n ∧ KeyPlace ((t - base + i) / 8)) :
    c.bitIdx = t - base ∧ t + i < 8 * n ∧ KeyPlace ((c.bitIdx + i) / 8) := by
  have hb8 := hs.base_mod
  have hmod := hs.bit_mod
  have hle := hs.bit_le
  have hlb := hs.le_bit
  have hone := oneBit_received h n id 0
  have heq := hall _ hone i hi
  have hstored : KeyPlace ((c.bitIdx + i) / 8) := by
    rcases hplace with hp | ⟨hin, hp⟩
    · exact hp
    · by_contra hno
      rw [(keyBitStored_eq_none i).mpr hno, eq_comm, keyBitAt_eq_none, hone.1] at heq
      exact heq hin hp
  by_cases hin : t + i < 8 * n
  · unfold keyBitAt at heq
    rw [hone.1, if_pos hin] at heq
    have := (bitStore_inj hstored heq).1
    exact ⟨by omega, hin, hstored⟩
  · rw [(keyBitAt_eq_none i).mpr (by rw [hone.1]; exact fun h => absurd h hin),
      keyBitStored_eq_none] at heq
    exact absurd hstored heq

/-- The bits of the bytes that are stored are those that were sent. -/
theorem keyBit_bits (hall : ∀ data, Received h n id data → ∀ i < r.count,
      keyBitStored data c i = keyBitAt data base t i)
    (hi : i < r.count) (hin : t + i < 8 * n) (hp : KeyPlace ((c.bitIdx + i) / 8)) (p j : Nat)
    (hj : j < 8) :
    (decide (j < i + 1) && bitAt (oneBit h n id p) (8 * c.byteIdx + (c.bitIdx + j) % 8)) =
      (decide (t - base ≤ (t - base + i) / 8 * 8 + j ∧
          (t - base + i) / 8 * 8 + j ≤ t - base + i) &&
        bitAt (oneBit h n id p) (base + ((t - base + i) / 8 * 8 + j))) := by
  have hone := oneBit_received h n id p
  have heq := hall _ hone i hi
  unfold keyBitAt keyBitStored at heq
  rw [hone.1, if_pos hin] at heq
  have hbits := congrArg (fun v => v.getLsbD j) (bitStore_inj hp heq).2
  simp only [BitVec.getLsbD_setWidth, packBits_getLsbD, hj, decide_true, Bool.true_and] at hbits
  rw [decide_eq_true (show j < 32 by omega), Bool.and_true] at hbits
  exact hbits

/-- The first bit of the byte comes from the byte at `byte_idx`, which the report begins. -/
theorem keyBit_first (hs : Stands h base c t) (hb : c.byteIdx < n)
    (hall : ∀ data, Received h n id data → ∀ i < r.count,
      keyBitStored data c i = keyBitAt data base t i)
    (hi : i < r.count) (hin : t + i < 8 * n) (hp : KeyPlace ((c.bitIdx + i) / 8)) :
    c.bitIdx % 8 = 0 ∧ base + (t - base + i) / 8 * 8 = 8 * c.byteIdx := by
  have hb8 := hs.base_mod
  have hbits := keyBit_bits hall hi hin hp (8 * c.byteIdx + c.bitIdx % 8) 0 (by decide)
  simp only [Nat.add_zero] at hbits
  rw [bitAt_oneBit (hs.behind (by have := hs.le_byte; omega)) (by omega), decide_eq_true rfl,
    decide_eq_true (Nat.succ_pos i)] at hbits
  obtain ⟨hq, hbit⟩ := Bool.and_eq_true_iff.mp hbits.symm
  rw [bitAt_oneBit (hs.behind (by omega)) (by have := hs.bit_le; have := hs.le_bit; omega),
    decide_eq_true_iff] at hbit
  omega

/-- With the byte behind the first one, the bit behind the first one would come too. -/
theorem keyBit_second (hs : Stands h base c t) (hb : c.byteIdx < n)
    (hall : ∀ data, Received h n id data → ∀ i < r.count,
      keyBitStored data c i = keyBitAt data base t i)
    (hi : i < r.count) (hin : t + i < 8 * n) (hp : KeyPlace ((c.bitIdx + i) / 8)) (h1 : 1 ≤ i) :
    (t - base + i) / 8 * 8 + 1 ≤ t - base + i := by
  have hzero := (keyBit_first hs hb hall hi hin hp).1
  have hbits := keyBit_bits hall hi hin hp (8 * c.byteIdx + 1) 1 (by decide)
  rw [show (c.bitIdx + 1) % 8 = 1 by omega,
    bitAt_oneBit (hs.behind (by have := hs.le_byte; omega)) (by omega), decide_eq_true rfl,
    decide_eq_true (show 1 < i + 1 by omega)] at hbits
  exact (of_decide_eq_true (Bool.and_eq_true_iff.mp hbits.symm).1).2

/-- A single bit that has a field is stored as it was sent only if the report begins a byte, both
indices stand there, and the bit is in this byte. -/
theorem keyBit_fits (hs : Stands h base c t) (hb : c.byteIdx < n)
    (hall : ∀ data, Received h n id data → ∀ i < r.count,
      keyBitStored data c i = keyBitAt data base t i)
    (hi : i < r.count)
    (hplace : KeyPlace ((c.bitIdx + i) / 8) ∨ t + i < 8 * n ∧ KeyPlace ((t - base + i) / 8)) :
    c.bitIdx = t - base ∧ t = 8 * c.byteIdx ∧ i < 8 := by
  obtain ⟨hq, hin, hpb⟩ := keyBit_place hs hall hi hplace
  have hb8 := hs.base_mod
  have hmod := hs.bit_mod
  have hlt := hs.bit_le
  have hlb := hs.le_bit
  -- The first bit of the byte comes from the byte at `byte_idx`.
  have hfirst := keyBit_first hs hb hall hi hin hpb
  -- A bit eight or more behind would come with the bits of another byte.
  have hi8 : i < 8 := by
    by_contra hge
    have hi0 : i / 8 * 8 < r.count := by omega
    have hbyte : (c.bitIdx + i / 8 * 8) / 8 = (c.bitIdx + i) / 8 := by omega
    have hsecond := keyBit_second hs hb hall hi0 (by omega) (by rw [hbyte]; exact hpb) (by omega)
    omega
  exact ⟨hq, by omega, hi8⟩

theorem keyBitsFit_iff (hs : Stands h base c t) (hb : c.byteIdx < n) :
    (∀ data, Received h n id data → ∀ i < r.count,
      keyBitStored data c i = keyBitAt data base t i) ↔ KeyBitsFit n base c t r := by
  constructor
  · intro hall
    unfold KeyBitsFit
    refine or_iff_not_imp_left.mpr fun hnone => ?_
    push Not at hnone
    obtain ⟨i, hi, hplace⟩ := hnone
    have hfits := keyBit_fits hs hb hall hi (or_iff_not_imp_left.mpr hplace)
    refine ⟨hfits.1, hfits.2.1, fun j hj h8 hp => ?_⟩
    have := (keyBit_fits hs hb hall hj (.inl hp)).2.2
    omega
  · intro hfit data hdata i hi
    rcases hfit with hnone | ⟨hq, ht, hfar⟩
    · rw [(keyBitStored_eq_none i).mpr (hnone i hi).1, eq_comm, keyBitAt_eq_none, hdata.1]
      exact (hnone i hi).2
    · by_cases h8 : 8 ≤ i
      · rw [(keyBitStored_eq_none i).mpr (hfar i hi h8), eq_comm, keyBitAt_eq_none, ← hq]
        exact fun _ => hfar i hi h8
      · have hb8 := hs.base_mod
        have hle := hs.le_bit
        have hlt := hs.bit_le
        have hpos : c.bitIdx % 8 = 0 := by omega
        unfold keyBitStored keyBitAt
        rw [if_pos (by rw [hdata.1]; omega), hq]
        refine congrArg (bitStore (t - base + i)) (BitVec.eq_of_getLsbD_eq fun j hj => ?_)
        simp only [BitVec.getLsbD_setWidth, packBits_getLsbD, hj, decide_true, Bool.true_and]
        rw [decide_eq_true (show j < 32 by omega), Bool.and_true,
          show base + ((t - base + i) / 8 * 8 + j) = 8 * c.byteIdx + (t - base + j) % 8 by omega]
        refine congrArg (· && _) (decide_eq_decide.mpr ?_)
        omega

theorem getD_bits (data : List (BitVec 8)) (x : Nat) :
    data.getD x 0 = packBits 8 (fun k => bitAt data (8 * x + k)) 8 := by
  refine BitVec.eq_of_getLsbD_eq fun j hj => ?_
  rw [packBits_getLsbD, decide_eq_true hj, bitAt, show (8 * x + j) / 8 = x by omega,
    show (8 * x + j) % 8 = j by omega]
  rfl

theorem keyByteStored_eq_none (i : Nat) :
    keyByteStored data c i = none ↔ ¬ KeyPlace (c.byteIdx + i) :=
  byteStore_eq_none _ _

theorem keyByteAt_eq_none (i : Nat) : keyByteAt data base t i = none ↔
    (t + 8 * i < 8 * data.length → ¬ KeyPlace ((t - base) / 8 + i)) := by
  unfold keyByteAt
  by_cases hin : t + 8 * i < 8 * data.length
  · rw [if_pos hin, byteStore_eq_none]
    exact ⟨fun hp _ => hp, fun hp => hp hin⟩
  · rw [if_neg hin]
    exact ⟨fun _ hin' => absurd hin' hin, fun _ => rfl⟩

/-- A byte that has a field is stored as it was sent only without a report ID, where the report
begins at `byte_idx`. -/
theorem keyByte_fits (hs : Stands h base c t)
    (hread : ∀ i < r.count, KeyPlace (c.byteIdx + i) → c.byteIdx + i < n)
    (hall : ∀ data, Received h n id data → ∀ i < r.count,
      keyByteStored data c i = keyByteAt data base t i)
    (hi : i < r.count)
    (hplace : KeyPlace (c.byteIdx + i) ∨ t + 8 * i < 8 * n ∧ KeyPlace ((t - base) / 8 + i)) :
    base = 0 ∧ t = 8 * c.byteIdx := by
  have hlb := hs.le_bit
  have hlt := hs.bit_le
  have hbyte := hs.le_byte
  have hone := oneBit_received h n id (8 * (c.byteIdx + i))
  have heq := hall _ hone i hi
  have hstored : KeyPlace (c.byteIdx + i) := by
    rcases hplace with hp | ⟨hin, hp⟩
    · exact hp
    · by_contra hno
      rw [(keyByteStored_eq_none i).mpr hno, eq_comm, keyByteAt_eq_none, hone.1] at heq
      exact heq hin hp
  have hlast := hread i hi hstored
  by_cases hin : t + 8 * i < 8 * n
  · unfold keyByteAt keyByteStored at heq
    rw [hone.1, if_pos hin, getD_bits] at heq
    obtain ⟨hplaces, hbytes⟩ := byteStore_inj hstored heq
    have hbit := congrArg (fun v => v.getLsbD 0) hbytes
    simp only [packBits_getLsbD, Nat.add_zero] at hbit
    rw [bitAt_oneBit (hs.behind (by omega)) (by omega),
      bitAt_oneBit (hs.behind (by omega)) (by omega)] at hbit
    have hpos : t + 8 * i = 8 * (c.byteIdx + i) := by simpa using hbit
    rcases hs.base_cases with hf | h8
    · exact ⟨hf.1, by omega⟩
    · omega
  · rw [(keyByteAt_eq_none i).mpr (by rw [hone.1]; exact fun h => absurd h hin),
      keyByteStored_eq_none] at heq
    exact absurd hstored heq

theorem keyBytesFit_iff (hs : Stands h base c t)
    (hread : ∀ i < r.count, KeyPlace (c.byteIdx + i) → c.byteIdx + i < n) :
    (∀ data, Received h n id data → ∀ i < r.count,
      keyByteStored data c i = keyByteAt data base t i) ↔ KeyBytesFit n base c t r := by
  constructor
  · intro hall
    unfold KeyBytesFit
    refine or_iff_not_imp_left.mpr fun hnone => ?_
    push Not at hnone
    obtain ⟨i, hi, hplace⟩ := hnone
    exact keyByte_fits hs hread hall hi (or_iff_not_imp_left.mpr hplace)
  · intro hfit data hdata i hi
    rcases hfit with hnone | ⟨h0, ht⟩
    · rw [(keyByteStored_eq_none i).mpr (hnone i hi).1, eq_comm, keyByteAt_eq_none, hdata.1]
      exact (hnone i hi).2
    · by_cases hp : KeyPlace (c.byteIdx + i)
      · have hin := hread i hi hp
        unfold keyByteStored keyByteAt
        rw [hdata.1, if_pos (by omega), getD_bits,
          show (t - base) / 8 + i = c.byteIdx + i by omega,
          show t + 8 * i = 8 * (c.byteIdx + i) by omega]
      · rw [(keyByteStored_eq_none i).mpr hp, eq_comm, keyByteAt_eq_none,
          show (t - base) / 8 + i = c.byteIdx + i by omega]
        exact fun _ => hp

theorem map_range_congr {σ : Type} {f g : Nat → σ} :
    (List.range k).map f = (List.range k).map g ↔ ∀ i < k, f i = g i := by
  rw [List.map_inj_left]
  exact ⟨fun hall i hi => hall i (List.mem_range.mpr hi),
    fun hall i hi => hall i (List.mem_range.mp hi)⟩

/-- The indices stand right for a report exactly if what is stored is what its bits say. -/
theorem keyFits_iff (hs : Stands h base c t) (hr : r.isKey = true → KeyReads n c r) :
    (∀ data, Received h n id data → keyStoresAt data c r = keyFields data base t r) ↔
      (r.isKey = true → KeyFits n base c t r) := by
  unfold keyStoresAt keyFields KeyFits
  cases hkey : r.isKey with
  | true =>
    have hread := hr hkey
    unfold KeyReads at hread
    by_cases h1 : r.size = 1
    · rw [if_pos h1] at hread
      simp only [if_pos h1, if_true, map_range_congr, forall_const]
      exact keyBitsFit_iff hs hread.1
    · rw [if_neg h1] at hread
      simp only [if_neg h1, if_true, map_range_congr, forall_const]
      exact keyBytesFit_iff hs hread
  | false => exact ⟨fun _ hf => Bool.noConfusion hf, fun _ _ _ => rfl⟩

/-! ## All reports -/

theorem keyWithin_of_ok {o : Option (List (RpInfo × List (Option KeyStore)))}
    (hcount : ∀ r ∈ rs, 0 < r.count) (hn : data.length = n)
    (ho : lookLoop (keyboardEntry data) n rs c = .ok o) : KeyWithin n c rs := by
  induction rs generalizing c o with
  | nil => trivial
  | cons r rs ih =>
    refine or_iff_not_imp_left.mpr fun hu => ?_
    rw [lookLoop] at ho
    have hread : r.isKey = true → KeyReads n c r := fun hkey => by
      cases he : keyboardEntry data r c with
      | error e => rw [he] at ho; cases ho
      | ok x => rw [← hn]; exact keyboardEntry_reads (hcount r List.mem_cons_self) he hu hkey
    refine ⟨hread, or_iff_not_imp_left.mpr fun hstop => ?_⟩
    rw [keyboardEntry_ok hu (by rw [hn]; exact hread)] at ho
    simp only [if_neg hstop] at ho
    cases hl : lookLoop (keyboardEntry data) n rs (keyMove c r) with
    | error e => rw [hl] at ho; cases ho
    | ok x => exact ih (fun r' hr' => hcount r' (List.mem_cons_of_mem r hr')) hl

theorem keyLoop_refused (hn : data.length = n) (hw : KeyWithin n c rs) (hr : KeyRefused n c rs) :
    lookLoop (keyboardEntry data) n rs c = .ok none := by
  induction rs generalizing c with
  | nil => exact hr.elim
  | cons r rs ih =>
    rw [lookLoop]
    by_cases hu : keyUnsupported r = true
    · rw [keyboardEntry_refused hu]
    · obtain ⟨hread, hrest⟩ := hw.resolve_left hu
      obtain ⟨hstop, hr⟩ := hr.resolve_left hu
      rw [keyboardEntry_ok hu (by rw [hn]; exact hread)]
      simp only [if_neg hstop]
      rw [ih (hrest.resolve_left hstop) hr]
      rfl

theorem keyFollows_cons (hs : Stands h base c t) (hn : data.length = n)
    (hu : ¬ keyUnsupported r = true) (hread : r.isKey = true → KeyReads n c r) :
    Follows (keyboardEntry data) (keyFields data base) NoStore n c t (r :: rs) ↔
      keyStoresAt data c r = keyFields data base t r ∧
        (n ≤ (keyMove c r).byteIdx ∨ Follows (keyboardEntry data) (keyFields data base) NoStore n
          (keyMove c r) (t + r.size * r.count) rs) := by
  rw [follows_cons, keyboardEntry_ok hu (by rw [hn]; exact hread)]
  constructor
  · rintro ⟨x, c', he, hx, hrest⟩
    obtain ⟨rfl, rfl⟩ := Prod.mk.inj (Option.some.inj (Except.ok.inj he))
    refine ⟨hx, ?_⟩
    by_cases hstop : n ≤ (keyMove c r).byteIdx
    · exact .inl hstop
    · rw [if_neg hstop] at hrest
      exact .inr hrest
  · rintro ⟨hx, hrest⟩
    refine ⟨_, _, rfl, hx, ?_⟩
    by_cases hstop : n ≤ (keyMove c r).byteIdx
    · have hbyte := (hs.move hu).byte_le
      rw [if_pos hstop]
      exact expectedFrom_silent NoStore fun t' r' ht' => keyFields_behind (by omega)
    · rw [if_neg hstop]
      exact hrest.resolve_left hstop

theorem keyInStep_iff (hs : Stands h base c t) (hw : KeyWithin n c rs) (hr : ¬ KeyRefused n c rs) :
    (∀ data, Received h n id data →
        Follows (keyboardEntry data) (keyFields data base) NoStore n c t rs) ↔
      KeyInStep n base c t rs := by
  induction rs generalizing c t with
  | nil => exact ⟨fun _ => trivial, fun _ _ _ => follows_nil⟩
  | cons r rs ih =>
    have hu : ¬ keyUnsupported r = true := fun hu => hr (.inl hu)
    obtain ⟨hread, hwithin⟩ := hw.resolve_left hu
    have hrest := fun hstop : ¬ n ≤ (keyMove c r).byteIdx =>
      ih (hs.move hu) (hwithin.resolve_left hstop) fun href => hr (.inr ⟨hstop, href⟩)
    constructor
    · intro hall
      have hstep := fun data (hdata : Received h n id data) =>
        (keyFollows_cons hs hdata.1 hu hread).mp (hall data hdata)
      refine ⟨(keyFits_iff hs hread).mp fun data hdata => (hstep data hdata).1, ?_⟩
      refine or_iff_not_imp_left.mpr fun hstop => (hrest hstop).mp fun data hdata => ?_
      exact (hstep data hdata).2.resolve_left hstop
    · rintro ⟨hfit, hnext⟩ data hdata
      refine (keyFollows_cons hs hdata.1 hu hread).mpr
        ⟨(keyFits_iff hs hread).mpr hfit data hdata, ?_⟩
      exact or_iff_not_imp_left.mpr fun hstop =>
        (hrest hstop).mpr (hnext.resolve_left hstop) data hdata

theorem keyLoop_some (hn : data.length = n) (hw : KeyWithin n c rs) (hr : ¬ KeyRefused n c rs) :
    ∃ stores, lookLoop (keyboardEntry data) n rs c = .ok (some stores) := by
  induction rs generalizing c with
  | nil => exact ⟨[], rfl⟩
  | cons r rs ih =>
    have hu : ¬ keyUnsupported r = true := fun hu => hr (.inl hu)
    obtain ⟨hread, hwithin⟩ := hw.resolve_left hu
    rw [lookLoop, keyboardEntry_ok hu (by rw [hn]; exact hread)]
    by_cases hstop : n ≤ (keyMove c r).byteIdx
    · simp only [if_pos hstop]
      exact ⟨_, rfl⟩
    · obtain ⟨stores, hl⟩ := ih (hwithin.resolve_left hstop) fun href => hr (.inr ⟨hstop, href⟩)
      simp only [if_neg hstop]
      rw [hl]
      exact ⟨_, rfl⟩

end Ma35d1.UsbHost.Hid
