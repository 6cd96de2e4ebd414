import Ma35d1.Mmu.Pieces

/-!
# Runs of the MMU's configuration

A piece of a range is entered where its size puts it, the loop enters all of them, and `mmu_init`
begins with nothing mapped.
-/

namespace Ma35d1.Mmu

open Ma35d1.Machine.Trace

variable {p : TtbPlace} {addr : Nat}

namespace Tables

variable {m n : Tables} {level : Nat → Nat} {base size start : Nat} {tag : BitVec 64}

/-! ## One piece -/

/-- The parts of an entry for a whole number of granules -/
structure EntryFor (e : BitVec 64) (kind : BitVec 64) (output : Nat) (tag : BitVec 64) : Prop where
  kind : e &&& descMask = kind
  addr : (e &&& xlatAddrMask).toNat = output
  attr : e &&& attrMask = getBlockAttr tag

theorem entryFor {output : Nat} {k : BitVec 64} (hmod : output % granuleSize = 0)
    (hlt : output < 0x1000000000) (hk : k &&& descMask = k) :
    EntryFor (BitVec.ofNat 64 output ||| k ||| getBlockAttr tag) k output tag := by
  obtain ⟨haddr, hkind, hattr⟩ :=
    desc_parts (and_xlatAddrMask hmod hlt) hk (getBlockAttr_mask tag)
  exact ⟨hkind, by rw [haddr, toNat_ofNat_addr hlt], hattr⟩

theorem EntryFor.translate {e k : BitVec 64} {output : Nat} (h : EntryFor e k output tag)
    (size addr : Nat) : Tables.translate e size addr =
      (output / size * size + addr % size, getBlockAttr tag) := by
  rw [Tables.translate, h.addr, h.attr]

/-- The conditions of two branches are the same, and the values where they hold. -/
theorem ite_of_iff {α : Type*} {P Q : Prop} [Decidable P] [Decidable Q] {x y z : α} (h : P ↔ Q)
    (hx : Q → x = y) : (if P then x else z) = if Q then y else z := by
  by_cases hq : Q
  · rw [if_pos (h.mpr hq), if_pos hq, hx hq]
  · rw [if_neg fun hp => hq (h.mp hp), if_neg hq]

/-- The size of a piece -/
theorem initXlatTable_size (p : TtbPlace) (m : Tables) (base : Nat) (tag : BitVec 64)
    (hsize : size % granuleSize = 0) (hpos : 0 < size) :
    (initXlatTable p m base size tag).2 % granuleSize = 0 ∧
      granuleSize ≤ (initXlatTable p m base size tag).2 ∧
        (initXlatTable p m base size tag).2 ≤ size := by
  unfold initXlatTable
  split
  case isTrue h =>
    exact ⟨show l1XlatSize % granuleSize = 0 by decide, show granuleSize ≤ l1XlatSize by decide, h.1⟩
  split
  case isTrue h =>
    exact ⟨show l2XlatSize % granuleSize = 0 by decide, show granuleSize ≤ l2XlatSize by decide, h.1⟩
  refine ⟨show l3XlatSize % granuleSize = 0 by decide, show granuleSize ≤ l3XlatSize by decide, ?_⟩
  show l3XlatSize ≤ size
  unfold granuleSize at hsize
  unfold l3XlatSize
  omega

/-- What the output addresses are -/
theorem l1_mapping (hbase : base % l1XlatSize = 0) (hk : base = 0x180000000 → tag = uncachedMem)
    (hin : base ≤ addr ∧ addr < base + l1XlatSize) :
    (l1Output base / l1XlatSize * l1XlatSize + addr % l1XlatSize, getBlockAttr tag) =
      Range.mapping tag addr := by
  unfold Range.mapping
  congr 1
  unfold l1XlatSize at *
  unfold l1Output InWindow
  by_cases hb : base = 0x180000000
  · rw [if_pos hb, if_pos ⟨hk hb, by omega, by omega⟩]
    omega
  · rw [if_neg hb, if_neg (by omega)]
    omega

theorem l2_mapping (hbase : base % l2XlatSize = 0) (hlt : base < 0x1000000000)
    (hk : tag = uncachedMem → base / 0x100000000 % 2 = 1 → InWindow base)
    (hin : base ≤ addr ∧ addr < base + l2XlatSize) :
    (l2Output base tag / l2XlatSize * l2XlatSize + addr % l2XlatSize, getBlockAttr tag) =
      Range.mapping tag addr := by
  unfold Range.mapping
  congr 1
  unfold l2XlatSize at *
  unfold l2Output
  unfold InWindow at *
  by_cases htag : tag = uncachedMem
  · have hk := hk htag
    rw [if_pos htag]
    by_cases hbit : base / 0x100000000 % 2 = 1
    · obtain ⟨hlo, hhi⟩ := hk hbit
      rw [hbit, if_pos ⟨htag, by omega, by omega⟩]
      omega
    · rw [show base / 0x100000000 % 2 = 0 by omega, if_neg (by omega)]
      omega
  · rw [if_neg htag, if_neg fun h => htag h.1]
    omega

theorem l3_mapping (hbase : base % l3XlatSize = 0) (hk : tag = uncachedMem → ¬ InWindow base)
    (hin : base ≤ addr ∧ addr < base + l3XlatSize) :
    (base / l3XlatSize * l3XlatSize + addr % l3XlatSize, getBlockAttr tag) =
      Range.mapping tag addr := by
  unfold Range.mapping
  congr 1
  unfold l3XlatSize at *
  rw [if_neg]
  · omega
  · rintro ⟨htag, hwindow⟩
    have hnot := hk htag
    unfold InWindow at *
    omega

/-- The addresses that an entry of each level covers -/
theorem l1_covers (haddr : addr < 0x1000000000) (hlt : base < 0x1000000000)
    (hbase : base % l1XlatSize = 0) :
    l1Index addr = l1Index base ↔ base ≤ addr ∧ addr < base + l1XlatSize := by
  unfold l1XlatSize at *
  unfold l1Index l1XlatSize
  omega

theorem l2_covers (haddr : addr < 0x1000000000) (hlt : base < 0x1000000000)
    (hbase : base % l2XlatSize = 0) :
    l1Index addr = l1Index base ∧ l2Index addr = l2Index base ↔
      base ≤ addr ∧ addr < base + l2XlatSize := by
  unfold l2XlatSize at *
  unfold l1Index l2Index l1XlatSize l2XlatSize
  omega

theorem l3_covers (haddr : addr < 0x1000000000) (hlt : base < 0x1000000000)
    (hbase : base % l3XlatSize = 0) :
    l1Index addr = l1Index base ∧ l2Index addr = l2Index base ∧ l3Index addr = l3Index base ↔
      base ≤ addr ∧ addr < base + l3XlatSize := by
  unfold l3XlatSize at *
  unfold l1Index l2Index l3Index l1XlatSize l2XlatSize l3XlatSize
  omega

/-- A piece that was entered: the tables are a tree, and its addresses are mapped. -/
def Entered (p : TtbPlace) (m : Tables) (base : Nat) (tag : BitVec 64) (r : Tables × Nat) : Prop :=
  (∃ level, Shape p r.1 level) ∧ ∀ addr < 0x1000000000, r.1.walk p addr =
    if base ≤ addr ∧ addr < base + r.2 then some (Range.mapping tag addr) else m.walk p addr

theorem Shape.walk_eq (hs : Shape p m level) : m.walk p addr = walk1 p m 0 addr := by
  rw [walk, hs.root]

theorem Shape.enter1 (hs : Shape p m level) (hlt : base < 0x1000000000)
    (hbase : base % l1XlatSize = 0) (hk : base = 0x180000000 → tag = uncachedMem) :
    Entered p m base tag
      (m.write 0 (l1Index base) (blockEntry (l1Output base) tag), l1XlatSize) := by
  have houtput : l1Output base % l1XlatSize = 0 ∧ l1Output base < 0x1000000000 := by
    unfold l1Output
    split
    · exact ⟨by decide, by decide⟩
    · exact ⟨hbase, hlt⟩
  have hmod : l1Output base % granuleSize = 0 := by
    have := houtput.1
    unfold l1XlatSize at this
    unfold granuleSize
    omega
  have hentry : EntryFor (blockEntry (l1Output base) tag) blockDesc (l1Output base) tag :=
    entryFor hmod houtput.2 (by rfl)
  have hshape : Shape p (m.write 0 (l1Index base) (blockEntry (l1Output base) tag)) level :=
    hs.write (Nat.zero_le _) (.inl ⟨hentry.kind, .inl ⟨hs.top, by
      rw [hentry.addr]
      exact houtput.1⟩⟩)
  refine ⟨⟨level, hshape⟩, fun addr haddr => ?_⟩
  rw [hshape.walk_eq, hs.walk_eq, hs.walk_write1 hentry.kind, hentry.translate]
  exact ite_of_iff (l1_covers haddr hlt hbase) fun hin => congrArg some (l1_mapping hbase hk hin)

/-- The table of the second level for a piece -/
theorem Shape.l2Table (hs : Shape p m level) (hk : m.EntryKept 0 (l1Index base)) :
    ∃ level', Behind p m (Tables.l2Table p m base).1 level level' 0 (l1Index base)
      (Tables.l2Table p m base).2 := by
  have hsize : childSize level 0 = l2XlatSize := if_pos hs.top
  have h := hs.behind (Nat.zero_le _) (index_lt base).1 (fun _ => rfl) (.inl hs.top) hk
  rwa [hsize] at h

theorem Shape.enter2 (hs : Shape p m level) (hlt : base < 0x1000000000)
    (hbase : base % l2XlatSize = 0)
    (hk : tag = uncachedMem → base / 0x100000000 % 2 = 1 → InWindow base)
    (htable : m.EntryKept 0 (l1Index base)) : Entered p m base tag
      ((Tables.l2Table p m base).1.write (Tables.l2Table p m base).2 (l2Index base)
        (blockEntry (l2Output base tag) tag), l2XlatSize) := by
  obtain ⟨level', hb⟩ := hs.l2Table htable
  revert hb
  generalize Tables.l2Table p m base = r
  intro hb
  have houtput : l2Output base tag % l2XlatSize = 0 ∧ l2Output base tag < 0x1000000000 := by
    unfold l2XlatSize at *
    unfold l2Output
    split <;> omega
  have hmod : l2Output base tag % granuleSize = 0 := by
    have := houtput.1
    unfold l2XlatSize at this
    unfold granuleSize
    omega
  have hentry : EntryFor (blockEntry (l2Output base tag) tag) blockDesc (l2Output base tag) tag :=
    entryFor hmod houtput.2 (by rfl)
  have hlevel : level' r.2 = 2 := hb.child_level.trans (by rw [hs.top])
  have hshape : Shape p (r.1.write r.2 (l2Index base) (blockEntry (l2Output base tag) tag)) level' :=
    hb.shape.write hb.child_le (.inl ⟨hentry.kind, .inr ⟨hlevel, by
      rw [hentry.addr]
      exact houtput.1⟩⟩)
  refine ⟨⟨level', hshape⟩, fun addr haddr => ?_⟩
  rw [hshape.walk_eq, hs.walk_eq,
    hb.shape.walk_write2 (index_lt base).1 hb.link hb.child hentry.kind, hentry.translate, hb.walk]
  exact ite_of_iff (l2_covers haddr hlt hbase) fun hin =>
    congrArg some (l2_mapping hbase hlt hk hin)

theorem Shape.enter3 (hs : Shape p m level) (hlt : base < 0x1000000000)
    (hbase : base % l3XlatSize = 0) (hk : tag = uncachedMem → ¬ InWindow base)
    (htable : m.EntryKept 0 (l1Index base))
    (htable' : (Tables.l2Table p m base).1.EntryKept (Tables.l2Table p m base).2 (l2Index base)) :
    Entered p m base tag
      ((l3Table p m base).1.write (l3Table p m base).2 (l3Index base) (pageEntry base tag),
        l3XlatSize) := by
  obtain ⟨level', hb⟩ := hs.l2Table htable
  unfold l3Table
  revert htable' hb
  generalize Tables.l2Table p m base = r
  intro htable' hb
  have hlevel : level' r.2 = 2 := hb.child_level.trans (by rw [hs.top])
  have hsize : childSize level' r.2 = l3XlatSize := if_neg (by omega)
  obtain ⟨level'', hb'⟩ := hb.shape.behind hb.child_le (index_lt base).2.1 (by omega) (.inr hlevel)
    htable'
  rw [hsize] at hb'
  revert hb'
  generalize getNextLevelTable p r.1 r.2 (l2Index base) l3XlatSize = q
  intro hb'
  have hmod : base % granuleSize = 0 := hbase
  have hentry : EntryFor (pageEntry base tag) pageDesc base tag := entryFor hmod hlt (by rfl)
  have hlevel' : level'' q.2 = 3 := hb'.child_level.trans (by rw [hlevel])
  have hshape : Shape p (q.1.write q.2 (l3Index base) (pageEntry base tag)) level'' :=
    hb'.shape.write hb'.child_le (.inr ⟨hentry.kind, hlevel'⟩)
  -- the entry of the root is still the one that was found or taken first
  have hroot : q.1.ttb 0 (l1Index base) = r.1.ttb 0 (l1Index base) :=
    hb'.other 0 (Nat.zero_le _) _ fun h => by
      rw [← h.1, hb.shape.top] at hlevel
      exact absurd hlevel (by decide)
  refine ⟨⟨level'', hshape⟩, fun addr haddr => ?_⟩
  rw [hshape.walk_eq, hs.walk_eq, hb'.shape.walk_write3 (index_lt base).1 (hroot ▸ hb.link)
    (hroot ▸ hb.child) (index_lt base).2.1 hb'.link hb'.child hentry.kind, hentry.translate,
    hb'.walk, hb.walk]
  exact ite_of_iff (l3_covers haddr hlt hbase) fun hin => congrArg some (l3_mapping hbase hk hin)

/-- A piece under the condition -/
theorem Shape.enter (hs : Shape p m level) (hlt : base < 0x1000000000)
    (hbase : base % granuleSize = 0) (hk : PieceKept p m base size tag) :
    Entered p m base tag (initXlatTable p m base size tag) := by
  unfold PieceKept at hk
  unfold initXlatTable
  by_cases h1 : l1XlatSize ≤ size ∧ base % l1XlatSize = 0
  · rw [if_pos h1] at hk ⊢
    exact hs.enter1 hlt h1.2 hk
  rw [if_neg h1] at hk ⊢
  obtain ⟨htable, hk⟩ := hk
  by_cases h2 : l2XlatSize ≤ size ∧ base % l2XlatSize = 0
  · rw [if_pos h2] at hk ⊢
    exact hs.enter2 hlt h2.2 hk htable
  · rw [if_neg h2] at hk ⊢
    exact hs.enter3 hlt hbase hk.2 htable hk.1

/-! ## The loop -/

/-- The loop ends: each piece is a granule at least. -/
theorem configLoop_ends {fuel rest : Nat} (hrest : rest % granuleSize = 0)
    (hfuel : rest ≤ fuel * granuleSize) :
    ∃ n, configLoop p start size tag fuel rest m = some n := by
  induction fuel generalizing rest m with
  | zero =>
    obtain rfl : rest = 0 := by omega
    exact ⟨m, rfl⟩
  | succ fuel ih =>
    match rest with
    | 0 => exact ⟨m, rfl⟩
    | rest + 1 =>
      obtain ⟨hmod, hge, hle⟩ := initXlatTable_size p m (start + (size - (rest + 1))) tag hrest
        (Nat.succ_pos rest)
      unfold granuleSize at *
      exact ih (by omega) (by omega)

/-- What the loop has entered when it ends -/
theorem Shape.configLoop {fuel rest : Nat} (hs : Shape p m level) (hstart : start % granuleSize = 0)
    (hsize : size % granuleSize = 0) (hlt : start + size ≤ 0x1000000000)
    (hrest : rest % granuleSize = 0) (hle : rest ≤ size)
    (hk : LoopKept p start size tag fuel rest m)
    (hn : configLoop p start size tag fuel rest m = some n) : (∃ level, Shape p n level) ∧
      ∀ addr < 0x1000000000, n.walk p addr =
        if start + (size - rest) ≤ addr ∧ addr < start + size then some (Range.mapping tag addr)
        else m.walk p addr := by
  induction fuel generalizing rest m level with
  | zero =>
    match rest with
    | 0 =>
      obtain rfl := Option.some.inj hn
      exact ⟨⟨level, hs⟩, fun addr _ => (if_neg (by omega)).symm⟩
    | rest + 1 => exact Option.noConfusion rfl (heq_of_eq hn)
  | succ fuel ih =>
    match rest with
    | 0 =>
      obtain rfl := Option.some.inj hn
      exact ⟨⟨level, hs⟩, fun addr _ => (if_neg (by omega)).symm⟩
    | rest + 1 =>
      obtain ⟨hpiece, hk⟩ := hk
      obtain ⟨hmod, hge, hle'⟩ := initXlatTable_size p m (start + (size - (rest + 1))) tag hrest
        (Nat.succ_pos rest)
      have hbase : (start + (size - (rest + 1))) % granuleSize = 0 := by
        unfold granuleSize at *
        omega
      obtain ⟨⟨level', hs'⟩, hmaps⟩ := hs.enter (by omega) hbase hpiece
      obtain ⟨hend, hwalk⟩ := ih hs' (by unfold granuleSize at *; omega) (by omega) hk hn
      refine ⟨hend, fun addr haddr => ?_⟩
      rw [hwalk addr haddr, hmaps addr haddr]
      -- the piece, and what comes behind it
      by_cases hlater : start + (size - (rest + 1 - (initXlatTable p m
          (start + (size - (rest + 1))) (rest + 1) tag).2)) ≤ addr ∧ addr < start + size
      · rw [if_pos hlater, if_pos (by omega)]
      · rw [if_neg hlater]
        exact ite_of_iff (by omega) fun _ => rfl

/-! ## The beginning -/

/-- `mmu_init` of tables that are clear behind their first entries -/
theorem mmuInit_shape (hnext : m.nextFreeTable = 0) (hstray : m.stray = false)
    (hclear : ∀ t < tableCount, ∀ i < entryCount, i ≠ 0 → m.ttb t i = 0) :
    Shape p m.mmuInit (fun _ => 1) ∧ ∀ addr, m.mmuInit.walk p addr = none := by
  have hentry {t i : Nat} (ht : t < tableCount) (hi : i < entryCount) :
      m.markUnused.ttb t i = if i = 0 then unusedDesc else 0 := by
    by_cases h0 : i = 0
    · rw [if_pos h0]
      exact if_pos ⟨ht, h0⟩
    · rw [if_neg h0]
      exact (if_neg fun h => h0 h.2).trans (hclear t ht i hi h0)
  have htake : m.markUnused.takeTable = m.markUnused := by
    have hmark : m.markUnused.ttb 0 0 = unusedDesc := hentry (by decide) (by decide)
    have hfrom : m.markUnused.freeFrom (tableCount - m.markUnused.nextFreeTable)
        m.markUnused.nextFreeTable = m.markUnused.nextFreeTable := by
      show m.markUnused.freeFrom (tableCount - m.nextFreeTable) m.nextFreeTable = m.nextFreeTable
      rw [hnext]
      exact if_pos hmark
    rw [takeTable, hfrom]
  have hinit : m.mmuInit = { m.markUnused with root := 0 } := by
    have hsetup : m.markUnused.setupNewTable invalidDesc l1XlatSize = m.markUnused :=
      (if_neg fun h => h rfl).trans htake
    rw [mmuInit, hsetup]
    show ({ m.markUnused with root := m.nextFreeTable } : Tables) = _
    rw [hnext]
  have hkind {i : Nat} (hi : i < entryCount) : m.mmuInit.ttb 0 i &&& descMask = 0 := by
    rw [hinit]
    exact clear_kind (hentry (by decide) hi)
  have hnext' : m.mmuInit.nextFreeTable = 0 := by
    rw [hinit]
    exact hnext
  refine ⟨⟨by rw [hinit], hnext' ▸ by decide, by rw [hinit]; exact hstray, rfl,
    fun t ht i hi => ?_, fun t _ ht i hi => by rw [hinit]; exact hentry ht hi,
    fun t1 i1 t2 i2 h1 _ hi1 _ _ _ hd1 => ?_⟩, fun addr => ?_⟩
  · obtain rfl : t = 0 := by omega
    have hti := hentry (t := 0) (by decide) hi
    by_cases h0 : i = 0
    · exact .unused (by rw [hinit]; exact hti.trans (if_pos h0)) hnext'.symm h0
    · exact .empty (by rw [hinit]; exact hti.trans (if_neg h0))
  · obtain rfl : t1 = 0 := by omega
    rw [hkind hi1] at hd1
    exact absurd hd1 (by decide)
  · rw [walk, show m.mmuInit.root = 0 by rw [hinit]]
    exact walk1_fault (hkind (index_lt addr).1)

end Tables

namespace Maps

variable {s t : Maps} {e : Event}

/-- The tables are a tree, and map what was configured. -/
def Inv (p : TtbPlace) (s : Maps) : Prop :=
  (∃ level, Tables.Shape p s.mmu level) ∧
    ∀ addr < 0x1000000000, s.mmu.walk p addr = expected s.ranges addr

theorem expected_cons (r : Range) (ranges : List Range) : expected (r :: ranges) addr =
    if r.start ≤ addr ∧ addr < r.start + r.size then some (Range.mapping r.tag addr)
    else expected ranges addr := by
  unfold expected
  rw [List.find?_cons]
  by_cases hc : r.Covers addr
  · rw [decide_eq_true hc]
    exact (if_pos hc).symm
  · rw [decide_eq_false hc]
    exact (if_neg hc).symm

theorem Inv.law (h : Inv p s) : TablesLaw p s := by
  obtain ⟨⟨level, hs⟩, hmaps⟩ := h
  have hlevel {t : Nat} (ht : t = s.mmu.root ∨ ∃ j, s.mmu.PointsTo p s.mmu.root j t) :
      t ≤ s.mmu.nextFreeTable ∧ level t ≠ 3 := by
    rw [hs.root] at ht
    rcases ht with rfl | ⟨j, hj, hd, rfl⟩
    · exact ⟨Nat.zero_le _, by rw [hs.top]; decide⟩
    · obtain ⟨-, -, hle, hc⟩ := hs.child (Nat.zero_le _) hj (by rw [hs.top]; decide) hd
      exact ⟨hle, by rw [hc, hs.top]; decide⟩
  refine ⟨hmaps, fun t i t' i' c h1 h2 => ?_, hs.inside, fun r hr => ?_⟩
  · obtain ⟨hle1, hl1⟩ := hlevel h1.1
    obtain ⟨hle2, hl2⟩ := hlevel h2.1
    obtain ⟨-, hi1, hd1, hc1⟩ := h1
    obtain ⟨-, hi2, hd2, hc2⟩ := h2
    exact hs.single t i t' i' hle1 hle2 hi1 hi2 hl1 hl2 hd1 hd2 (hc1.trans hc2.symm)
  · obtain ⟨-, hsize, -⟩ := hr
    exact Tables.configLoop_ends hsize
      (Nat.le_of_eq (Nat.div_mul_cancel (Nat.dvd_of_mod_eq_zero hsize)).symm)

theorem inv_start : Inv p start := by
  obtain ⟨hs, hwalk⟩ := Tables.mmuInit_shape (p := p) (m := ⟨fun _ _ => 0, 0, 0, false⟩) rfl rfl
    fun _ _ _ _ _ => rfl
  exact ⟨⟨_, hs⟩, fun addr _ => hwalk addr⟩

theorem Inv.step (h : Inv p s) (hk : TablesKept p s e) (ht : step p s e = some t) : Inv p t := by
  obtain ⟨⟨level, hs⟩, hmaps⟩ := h
  cases e with
  | init =>
    obtain rfl := Option.some.inj ht
    obtain ⟨hs', hwalk⟩ := Tables.mmuInit_shape (p := p) hk.1 hs.inside hk.2
    exact ⟨⟨_, hs'⟩, fun addr _ => hwalk addr⟩
  | config r =>
    obtain ⟨⟨hstart, hsize, hlt⟩, ht⟩ := Option.ite_none_right_eq_some.mp ht
    obtain ⟨n, hn, rfl⟩ := Option.map_eq_some_iff.mp ht
    obtain ⟨hshape, hwalk⟩ := hs.configLoop hstart hsize hlt hsize (Nat.le_refl _) hk hn
    refine ⟨hshape, fun addr haddr => ?_⟩
    rw [hwalk addr haddr, expected_cons, hmaps addr haddr, Nat.sub_self, Nat.add_zero]

/-- **The translation tables.** In every run whose steps meet the condition, the law holds in every
state reached. -/
theorem run_tablesLaw (p : TtbPlace) (es : List Event)
    (hkept : EachStep (step p) (TablesKept p) start es) :
    Always (step p) (TablesLaw p) start es :=
  (always_of_eachStep (P := Inv p) (fun _ _ _ h hk ht => h.step hk ht) inv_start hkept).mono
    fun _ h => h.law

/-- `_ttb` in the SDRAM -/
def ttbInSdram : TtbPlace := ⟨0x80400000, by decide, by decide⟩

/-- `mmu_init` by the other core, a block of 1 GB, 4 MB of it again with blocks of the second level,
and the uncached alias -/
theorem run_tablesLaw_split : Always (step ttbInSdram) (TablesLaw ttbInSdram) start
    [.init, .config ⟨0, 0x40000000, devMem⟩, .config ⟨0, 0x400000, cachedMem⟩,
      .config ⟨0x180000000, 0x40000000, uncachedMem⟩] :=
  -- the tables are clear behind their first entries: 4096 entries that need no evaluation
  run_tablesLaw ttbInSdram _
    (.cons rfl ⟨rfl, fun _ _ _ _ hi => if_neg fun h => hi h.2⟩ (by decide))

/-- The range whose first piece needs a table gets the root itself: its mark is still there. The
addresses from 1 GB on are mapped though no range covers them. -/
theorem not_tablesLaw_firstPiece : ¬ Always (step ttbInSdram) (TablesLaw ttbInSdram) start
    [.config ⟨0x80200000, 0x200000, cachedMem⟩] := fun hlaw => by
  obtain ⟨s, hs, hwalk⟩ := Option.map_eq_some_iff.mp (show (run (step ttbInSdram) start
    [.config ⟨0x80200000, 0x200000, cachedMem⟩]).map
      (fun s => ((s.mmu.walk ttbInSdram 0x40000000).isSome, expected s.ranges 0x40000000)) =
        some (true, none) by decide +kernel)
  obtain ⟨hsome, hnone⟩ := Prod.mk.inj hwalk
  rw [(hlaw.last hs).maps 0x40000000 (by decide), hnone] at hsome
  exact Bool.false_ne_true hsome

end Maps

end Ma35d1.Mmu
