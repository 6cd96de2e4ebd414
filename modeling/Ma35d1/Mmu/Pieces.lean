import Ma35d1.Mmu.Shape

/-!
# The pieces of a range

Taking a table maps no address otherwise, and an entry that is written maps the addresses that it
covers, and no others.
-/

namespace Ma35d1.Mmu

variable {p : TtbPlace} {m n : Tables} {level : Nat → Nat} {t i c addr base : Nat} {d : BitVec 64}

namespace Tables

theorem walk2_block {e : BitVec 64} (he : m.ttb t (l2Index addr) = e)
    (hd : e &&& descMask = blockDesc) : walk2 p m t addr = some (translate e l2XlatSize addr) := by
  rw [walk2, he, if_pos hd]

theorem walk2_table {e : BitVec 64} (he : m.ttb t (l2Index addr) = e)
    (hd : e &&& descMask = tableDesc) : walk2 p m t addr = m.walk3 (p.tableOf e) addr := by
  rw [walk2, he, if_neg (by rw [hd]; decide), if_pos hd]

theorem walk2_fault (hd : m.ttb t (l2Index addr) &&& descMask = 0) : walk2 p m t addr = none := by
  rw [walk2, hd, if_neg (by decide), if_neg (by decide)]

theorem walk1_block {e : BitVec 64} (he : m.ttb t (l1Index addr) = e)
    (hd : e &&& descMask = blockDesc) : walk1 p m t addr = some (translate e l1XlatSize addr) := by
  rw [walk1, he, if_pos hd]

theorem walk1_table {e : BitVec 64} (he : m.ttb t (l1Index addr) = e)
    (hd : e &&& descMask = tableDesc) : walk1 p m t addr = walk2 p m (p.tableOf e) addr := by
  rw [walk1, he, if_neg (by rw [hd]; decide), if_pos hd]

theorem walk1_fault (hd : m.ttb t (l1Index addr) &&& descMask = 0) : walk1 p m t addr = none := by
  rw [walk1, hd, if_neg (by decide), if_neg (by decide)]

theorem walk3_page {e : BitVec 64} (he : m.ttb t (l3Index addr) = e)
    (hd : e &&& descMask = pageDesc) : m.walk3 t addr = some (translate e l3XlatSize addr) := by
  rw [walk3, he, if_pos hd]

theorem walk3_fault (hd : m.ttb t (l3Index addr) &&& descMask = 0) : m.walk3 t addr = none := by
  rw [walk3, hd, if_neg (by decide)]

/-- The first entry of a clear table and the others fault. -/
theorem clear_kind {j : Nat} (h : m.ttb t j = if j = 0 then unusedDesc else 0) :
    m.ttb t j &&& descMask = 0 := by
  rw [h]
  split <;> rfl

/-! ## A table that is taken -/

/-- The parts of a block are where the block is. -/
theorem pages_output {a : Nat} (ha : a % l2XlatSize = 0) :
    (a + l3Index addr * l3XlatSize) / l3XlatSize * l3XlatSize + addr % l3XlatSize =
      a / l2XlatSize * l2XlatSize + addr % l2XlatSize := by
  unfold l2XlatSize at ha
  unfold l3Index l3XlatSize l2XlatSize
  omega

theorem blocks_output {a : Nat} (ha : a % l1XlatSize = 0) :
    (a + l2Index addr * l2XlatSize) / l2XlatSize * l2XlatSize + addr % l2XlatSize =
      a / l1XlatSize * l1XlatSize + addr % l1XlatSize := by
  unfold l1XlatSize at ha
  unfold l2Index l2XlatSize l1XlatSize
  omega

/-- Taking a table maps no address otherwise. -/
theorem Taken.walk (h : Taken p m n t i (childSize level t)) (hin : Inherits m n level t i)
    (hs : Shape p m level) (ht : t ≤ m.nextFreeTable) (htop : level t = 1 → t = 0)
    (hl : level t = 1 ∨ level t = 2) (addr : Nat) : walk1 p n 0 addr = walk1 p m 0 addr := by
  have hother {t' j : Nat} (ht' : t' ≤ m.nextFreeTable) (hne : ¬ (t' = t ∧ j = i)) :
      n.ttb t' j = m.ttb t' j := h.other t' j (by omega) hne
  have hindex := index_lt addr
  -- the third level, then the second, then the first
  have h3 {t' : Nat} (ht' : t' ≤ m.nextFreeTable) (hl' : level t' = 3) :
      n.walk3 t' addr = m.walk3 t' addr :=
    walk3_same fun j _ => hother ht' fun ⟨heq, _⟩ => by
      rw [heq] at hl'
      omega
  have h2 {t' : Nat} (ht' : t' ≤ m.nextFreeTable) (hl' : level t' = 2) :
      walk2 p n t' addr = walk2 p m t' addr := by
    by_cases here : t' = t ∧ l2Index addr = i
    · obtain ⟨rfl, rfl⟩ := here
      rw [walk2_table rfl h.link, h.child]
      rcases hin with ⟨h0, he⟩ | ⟨-, hl1, -, -⟩ | ⟨hb, -, ha, he⟩
      · rw [walk3_fault (clear_kind (he _ hindex.2.2)), walk2_fault (by rw [h0]; rfl)]
      · omega
      · obtain ⟨hkind, haddr, hattr⟩ := he _ hindex.2.2
        rw [walk3_page rfl hkind, walk2_block rfl hb, translate, translate, haddr, hattr,
          pages_output ha]
    · exact walk2_same (hother ht' here) fun hd => by
        obtain ⟨-, -, hle, hc⟩ := hs.child ht' hindex.2.1 (by omega) hd
        exact h3 hle (by omega)
  by_cases here : 0 = t ∧ l1Index addr = i
  · obtain ⟨rfl, rfl⟩ := here
    rw [walk1_table rfl h.link, h.child]
    rcases hin with ⟨h0, he⟩ | ⟨hb, -, ha, he⟩ | ⟨-, hl2, -, -⟩
    · rw [walk2_fault (clear_kind (he _ hindex.2.1)), walk1_fault (by rw [h0]; rfl)]
    · obtain ⟨hkind, haddr, hattr⟩ := he _ hindex.2.1
      rw [walk2_block rfl hkind, walk1_block rfl hb, translate, translate, haddr, hattr,
        blocks_output ha]
    · exact absurd (hs.top.symm.trans hl2) (by decide)
  · exact walk1_same (hother (Nat.zero_le _) here) fun hd => by
      obtain ⟨-, -, hle, hc⟩ := hs.child (Nat.zero_le _) hindex.1 (by rw [hs.top]; decide) hd
      exact h2 hle (by rw [hc, hs.top])

/-- The table behind an entry: the one that is there, or one that is taken -/
structure Behind (p : TtbPlace) (m n : Tables) (level level' : Nat → Nat) (t i c : Nat) :
    Prop where
  shape : Shape p n level'
  next : m.nextFreeTable ≤ n.nextFreeTable
  levels : ∀ t' ≤ m.nextFreeTable, level' t' = level t'
  link : n.ttb t i &&& descMask = tableDesc
  child : p.tableOf (n.ttb t i) = c
  child_le : c ≤ n.nextFreeTable
  child_level : level' c = level t + 1
  other : ∀ t' ≤ m.nextFreeTable, ∀ j, ¬ (t' = t ∧ j = i) → n.ttb t' j = m.ttb t' j
  walk : ∀ addr, walk1 p n 0 addr = walk1 p m 0 addr

theorem Shape.behind (hs : Shape p m level) (ht : t ≤ m.nextFreeTable) (hi : i < entryCount)
    (htop : level t = 1 → t = 0) (hl : level t = 1 ∨ level t = 2) (hk : m.EntryKept t i) :
    ∃ level', Behind p m (getNextLevelTable p m t i (childSize level t)).1 level level' t i
      (getNextLevelTable p m t i (childSize level t)).2 := by
  by_cases hd : m.ttb t i &&& descMask = tableDesc
  · have heq : getNextLevelTable p m t i (childSize level t) = (m, p.tableOf (m.ttb t i)) :=
      if_neg fun hne => hne hd
    obtain ⟨-, -, hle, hc⟩ := hs.child ht hi (by omega) hd
    rw [heq]
    exact ⟨level, hs, Nat.le_refl _, fun _ _ => rfl, hd, rfl, hle, hc, fun _ _ _ _ => rfl,
      fun _ => rfl⟩
  · have hk := hk.resolve_left hd
    obtain ⟨htaken, hc⟩ := hs.taken ht hk hd (childSize level t)
    have hin := htaken.inherits hs ht hi hl hk hd
    rw [hc]
    exact ⟨_, htaken.shape hin hs ht hl hk, by rw [htaken.next]; omega,
      fun t' ht' => Function.update_of_ne (by omega) _ _, htaken.link, htaken.child,
      Nat.le_of_eq htaken.next.symm, Function.update_self ..,
      fun t' ht' j hne => htaken.other t' j (by omega) hne, htaken.walk hin hs ht htop hl⟩

/-! ## An entry that is written -/

/-- A block or a page may be written at its level. -/
theorem Shape.write (hs : Shape p m level) (ht : t ≤ m.nextFreeTable)
    (hd : d &&& descMask = blockDesc ∧ (level t = 1 ∧ (d &&& xlatAddrMask).toNat % l1XlatSize = 0 ∨
      level t = 2 ∧ (d &&& xlatAddrMask).toNat % l2XlatSize = 0) ∨
      d &&& descMask = pageDesc ∧ level t = 3) : Shape p (m.write t i d) level := by
  have hhere : (m.write t i d).ttb t i = d := if_pos ⟨rfl, rfl⟩
  have hother {t' j : Nat} (hne : ¬ (t' = t ∧ j = i)) : (m.write t i d).ttb t' j = m.ttb t' j :=
    if_neg hne
  have hnew {t' j : Nat} (hl : level t' ≠ 3)
      (hd' : (m.write t i d).ttb t' j &&& descMask = tableDesc) : ¬ (t' = t ∧ j = i) := by
    rintro ⟨rfl, rfl⟩
    rw [hhere] at hd'
    rcases hd with ⟨hb, -⟩ | ⟨-, hl3⟩
    · exact absurd (hb.symm.trans hd') (by decide)
    · exact hl hl3
  refine ⟨hs.root, hs.next, ?_, hs.top, fun t' ht' j hj => ?_, fun t' hlo hhi j hj => ?_,
    fun t1 i1 t2 i2 h1 h2 hi1 hi2 hl1 hl2 hd1 hd2 heq => ?_⟩
  · show (m.stray || decide (tableCount ≤ t)) = false
    rw [hs.inside, decide_eq_false (Nat.not_le.mpr (Nat.lt_of_le_of_lt ht hs.next))]
    rfl
  · by_cases here : t' = t ∧ j = i
    · obtain ⟨rfl, rfl⟩ := here
      rcases hd with ⟨hb, ⟨hl, ha⟩ | ⟨hl, ha⟩⟩ | ⟨hp, hl⟩
      · exact .block1 (by rwa [hhere]) hl (by rwa [hhere])
      · exact .block2 (by rwa [hhere]) hl (by rwa [hhere])
      · exact .page (by rwa [hhere]) hl
    · have hsame := hother here
      rcases hs.entry t' ht' j hj with h0 | ⟨hu, rfl, rfl⟩ | ⟨hb, hl', ha⟩ | ⟨hb, hl', ha⟩ |
        ⟨hd, hl', hlt', hle, hc⟩ | ⟨hd, hl'⟩
      · exact .empty (hsame.trans h0)
      · exact .unused (hsame.trans hu) rfl rfl
      · exact .block1 (hsame ▸ hb) hl' (hsame ▸ ha)
      · exact .block2 (hsame ▸ hb) hl' (hsame ▸ ha)
      · exact .table (hsame ▸ hd) hl' (hsame ▸ hlt') (hsame ▸ hle) (hsame ▸ hc)
      · exact .page (hsame ▸ hd) hl'
  · have hlo : m.nextFreeTable < t' := hlo
    rw [hother (by omega)]
    exact hs.free t' hlo hhi j hj
  · have hne1 := hnew hl1 hd1
    have hne2 := hnew hl2 hd2
    rw [hother hne1] at hd1 heq
    rw [hother hne2] at hd2 heq
    exact hs.single t1 i1 t2 i2 h1 h2 hi1 hi2 hl1 hl2 hd1 hd2 heq

/-- A block of the first level maps its addresses. -/
theorem Shape.walk_write1 (hs : Shape p m level) (hd : d &&& descMask = blockDesc) :
    walk1 p (m.write 0 i d) 0 addr =
      if l1Index addr = i then some (translate d l1XlatSize addr) else walk1 p m 0 addr := by
  have hindex := index_lt addr
  split
  case isTrue here => exact walk1_block (if_pos ⟨rfl, here⟩) hd
  case isFalse here =>
    have hother {t' j : Nat} (hne : t' ≠ 0) : (m.write 0 i d).ttb t' j = m.ttb t' j :=
      if_neg fun h => hne h.1
    refine walk1_same (if_neg fun h => here h.2) fun htab => ?_
    obtain ⟨-, hlt, hle, hc⟩ := hs.child (Nat.zero_le _) hindex.1 (by rw [hs.top]; decide) htab
    refine walk2_same (hother (by omega)) fun htab => ?_
    obtain ⟨-, hlt', -, -⟩ := hs.child hle hindex.2.1 (by rw [hc, hs.top]; decide) htab
    exact walk3_same fun j _ => hother (by omega)

/-- A block of the second level maps its addresses. -/
theorem Shape.walk_write2 (hs : Shape p m level) (hi : i < entryCount)
    (h1 : m.ttb 0 i &&& descMask = tableDesc) (hc : p.tableOf (m.ttb 0 i) = c)
    (hd : d &&& descMask = blockDesc) {k : Nat} : walk1 p (m.write c k d) 0 addr =
      if l1Index addr = i ∧ l2Index addr = k then some (translate d l2XlatSize addr)
      else walk1 p m 0 addr := by
  subst hc
  have hindex := index_lt addr
  have htop : level 0 ≠ 3 := by
    rw [hs.top]
    decide
  obtain ⟨-, hlt, hle, hc⟩ := hs.child (Nat.zero_le _) hi htop h1
  have hother {t' j : Nat} (hne : ¬ (t' = p.tableOf (m.ttb 0 i) ∧ j = k)) :
      (m.write (p.tableOf (m.ttb 0 i)) k d).ttb t' j = m.ttb t' j := if_neg hne
  split
  case isTrue here =>
    obtain ⟨rfl, rfl⟩ := here
    have hroot : (m.write (p.tableOf (m.ttb 0 (l1Index addr))) (l2Index addr) d).ttb 0
        (l1Index addr) = m.ttb 0 (l1Index addr) := hother (by omega)
    rw [walk1_table hroot h1]
    exact walk2_block (if_pos ⟨rfl, rfl⟩) hd
  case isFalse here =>
    refine walk1_same (hother (by omega)) fun htab => ?_
    obtain ⟨-, -, hle', hc'⟩ := hs.child (Nat.zero_le _) hindex.1 htop htab
    refine walk2_same (hother fun h => here ?_) fun htab' => ?_
    · -- two entries of the root never point to one table
      exact ⟨(hs.single 0 _ 0 i (Nat.zero_le _) (Nat.zero_le _) hindex.1 hi htop htop htab h1
        h.1).2, h.2⟩
    · obtain ⟨-, -, -, hc3⟩ := hs.child hle' hindex.2.1 (by rw [hc', hs.top]; decide) htab'
      refine walk3_same fun j _ => hother fun h => ?_
      rw [h.1] at hc3
      omega

/-- A page maps its addresses. -/
theorem Shape.walk_write3 (hs : Shape p m level) (hi : i < entryCount)
    (h1 : m.ttb 0 i &&& descMask = tableDesc) (ht : p.tableOf (m.ttb 0 i) = t) {k : Nat}
    (hk : k < entryCount) (h2 : m.ttb t k &&& descMask = tableDesc)
    (hc : p.tableOf (m.ttb t k) = c) (hd : d &&& descMask = pageDesc) {q : Nat} :
    walk1 p (m.write c q d) 0 addr =
      if l1Index addr = i ∧ l2Index addr = k ∧ l3Index addr = q then
        some (translate d l3XlatSize addr)
      else walk1 p m 0 addr := by
  subst ht hc
  have hindex := index_lt addr
  have htop : level 0 ≠ 3 := by
    rw [hs.top]
    decide
  obtain ⟨-, hlt, hle, hl2⟩ := hs.child (Nat.zero_le _) hi htop h1
  have hnot3 : level (p.tableOf (m.ttb 0 i)) ≠ 3 := by
    rw [hl2, hs.top]
    decide
  obtain ⟨-, hlt', -, hl3⟩ := hs.child hle hk hnot3 h2
  have hother {t' j : Nat} (hne : t' ≠ p.tableOf (m.ttb (p.tableOf (m.ttb 0 i)) k) ∨ j ≠ q) :
      (m.write (p.tableOf (m.ttb (p.tableOf (m.ttb 0 i)) k)) q d).ttb t' j = m.ttb t' j :=
    if_neg fun h => hne.elim (fun hne => hne h.1) fun hne => hne h.2
  split
  case isTrue here =>
    obtain ⟨rfl, rfl, rfl⟩ := here
    rw [walk1_table (hother (.inl (by omega))) h1, walk2_table (hother (.inl (by omega))) h2]
    exact walk3_page (if_pos ⟨rfl, rfl⟩) hd
  case isFalse here =>
    refine walk1_same (hother (.inl (by omega))) fun htab => ?_
    obtain ⟨-, -, hle1, hc1⟩ := hs.child (Nat.zero_le _) hindex.1 htop htab
    have hnot : level (p.tableOf (m.ttb 0 (l1Index addr))) ≠ 3 := by
      rw [hc1, hs.top]
      decide
    refine walk2_same (hother (.inl fun h => ?_)) fun htab' => ?_
    · rw [h, hl3, hl2, hs.top] at hc1
      exact absurd hc1 (by decide)
    · -- two entries of the second level never point to one table, nor do two of the root
      unfold walk3
      rw [hother ?_]
      by_contra hsame
      obtain ⟨hsame, hq⟩ := not_or.mp hsame
      obtain ⟨hpar, hl2'⟩ := hs.single _ _ _ _ hle1 hle hindex.2.1 hk hnot hnot3 htab' h2
        (not_not.mp hsame)
      exact here ⟨(hs.single 0 _ 0 i (Nat.zero_le _) (Nat.zero_le _) hindex.1 hi htop htop htab h1
        hpar).2, hl2', not_not.mp hq⟩

end Tables

end Ma35d1.Mmu
