import Mathlib.Logic.Function.Basic
import Ma35d1.Mmu.Law

/-!
# Taking a table

A table that is taken repeats the entry that it takes the place of, so that no address is mapped
otherwise; and the tables stay a tree.
-/

namespace Ma35d1.Mmu

variable {p : TtbPlace} {m n : Tables} {level : Nat → Nat} {t i c addr : Nat} {d : BitVec 64}

/-- A pointer to a table of `_ttb` -/
theorem tableAddr_parts (ht : t < tableCount) :
    (p.tableAddr t ||| tableDesc) &&& descMask = tableDesc ∧
      p.tableOf (p.tableAddr t ||| tableDesc) = t := by
  have haligned := p.aligned
  have hfits := p.fits
  unfold tableCount at ht
  unfold granuleSize at hfits
  have hmod : (p.base + t * granuleSize) % granuleSize = 0 := by
    unfold granuleSize
    omega
  have hlt : p.base + t * granuleSize < 0x1000000000 := by
    unfold granuleSize
    omega
  obtain ⟨haddr, hkind, -⟩ := desc_parts (z := 0) (and_xlatAddrMask hmod hlt)
    (show tableDesc &&& descMask = tableDesc by rfl) (by rfl)
  rw [show (0 : BitVec 64) = 0#64 from rfl, BitVec.or_zero] at haddr hkind
  refine ⟨hkind, ?_⟩
  unfold TtbPlace.tableOf TtbPlace.tableAddr
  rw [haddr, toNat_ofNat_addr hlt, Nat.add_sub_cancel_left, Nat.mul_div_cancel _ (by decide)]

namespace Tables

/-! ## Tables that are left as they are -/

/-- The table has the same entries in both. -/
def SameTable (m n : Tables) (t : Nat) : Prop := ∀ i < entryCount, n.ttb t i = m.ttb t i

theorem index_lt (addr : Nat) :
    l1Index addr < entryCount ∧ l2Index addr < entryCount ∧ l3Index addr < entryCount :=
  ⟨Nat.mod_lt _ (by decide), Nat.mod_lt _ (by decide), Nat.mod_lt _ (by decide)⟩

theorem walk3_same (h : SameTable m n t) : n.walk3 t addr = m.walk3 t addr := by
  unfold walk3
  rw [h _ (index_lt addr).2.2]

/-- The walk from a table of the second level, where its entry and what is behind it are the same -/
theorem walk2_same (h : n.ttb t (l2Index addr) = m.ttb t (l2Index addr))
    (hc : m.ttb t (l2Index addr) &&& descMask = tableDesc →
      n.walk3 (p.tableOf (m.ttb t (l2Index addr))) addr =
        m.walk3 (p.tableOf (m.ttb t (l2Index addr))) addr) :
    walk2 p n t addr = walk2 p m t addr := by
  unfold walk2
  rw [h]
  split
  · rfl
  · split
    · rename_i htable
      exact hc htable
    · rfl

theorem walk1_same (h : n.ttb t (l1Index addr) = m.ttb t (l1Index addr))
    (hc : m.ttb t (l1Index addr) &&& descMask = tableDesc →
      walk2 p n (p.tableOf (m.ttb t (l1Index addr))) addr =
        walk2 p m (p.tableOf (m.ttb t (l1Index addr))) addr) :
    walk1 p n t addr = walk1 p m t addr := by
  unfold walk1
  rw [h]
  split
  · rfl
  · split
    · rename_i htable
      exact hc htable
    · rfl

/-! ## What the shape says of a walk -/

/-- The table behind an entry -/
theorem Shape.child (h : Shape p m level) (ht : t ≤ m.nextFreeTable) (hi : i < entryCount)
    (hl : level t ≠ 3) (hd : m.ttb t i &&& descMask = tableDesc) :
    (level t = 1 ∨ level t = 2) ∧ t < p.tableOf (m.ttb t i) ∧
      p.tableOf (m.ttb t i) ≤ m.nextFreeTable ∧ level (p.tableOf (m.ttb t i)) = level t + 1 := by
  rcases h.entry t ht i hi with h0 | ⟨hu, -, -⟩ | ⟨hb, -, -⟩ | ⟨hb, -, -⟩ | ⟨-, hl, hlt, hle, hc⟩ |
    ⟨-, hl'⟩
  · rw [h0] at hd
    exact absurd hd (by decide)
  · rw [hu] at hd
    exact absurd hd (by decide)
  · exact absurd (hb.symm.trans hd) (by decide)
  · exact absurd (hb.symm.trans hd) (by decide)
  · exact ⟨hl, hlt, hle, hc⟩
  · exact absurd hl' hl

/-! ## A table that is taken -/

/-- What is left when the next table was taken for an entry -/
structure Taken (p : TtbPlace) (m n : Tables) (t i xlatSize : Nat) : Prop where
  next : n.nextFreeTable = m.nextFreeTable + 1
  room : m.nextFreeTable + 1 < tableCount
  root : n.root = m.root
  stray : n.stray = m.stray
  link : n.ttb t i &&& descMask = tableDesc
  child : p.tableOf (n.ttb t i) = m.nextFreeTable + 1
  entries : ∀ j < entryCount, n.ttb (m.nextFreeTable + 1) j =
    if m.ttb t i ≠ 0 then (if xlatSize = l3XlatSize then m.ttb t i ||| pageDesc else m.ttb t i) +
      BitVec.ofNat 64 (j * xlatSize)
    else if j = 0 then unusedDesc else 0
  other : ∀ t' j, t' ≠ m.nextFreeTable + 1 → ¬ (t' = t ∧ j = i) → n.ttb t' j = m.ttb t' j

/-- The search goes one table on. -/
theorem Shape.takeTable (h : Shape p m level) (hk : m.TakeKept) :
    m.takeTable = { m with nextFreeTable := m.nextFreeTable + 1 } := by
  obtain ⟨hroom, hmark⟩ := hk
  obtain ⟨k, hk⟩ : ∃ k, tableCount - m.nextFreeTable = k + 1 + 1 :=
    ⟨tableCount - m.nextFreeTable - 2, by omega⟩
  have hfree : m.ttb (m.nextFreeTable + 1) 0 = unusedDesc :=
    h.free _ (Nat.lt_succ_self _) hroom 0 (by decide)
  have hfrom : m.freeFrom (k + 1 + 1) m.nextFreeTable = m.nextFreeTable + 1 :=
    (if_neg hmark).trans (if_pos hfree)
  rw [Tables.takeTable, hk, hfrom]

theorem Shape.setupNewTable (h : Shape p m level) (hk : m.TakeKept) (d : BitVec 64)
    (xlatSize : Nat) : (m.setupNewTable d xlatSize).nextFreeTable = m.nextFreeTable + 1 ∧
      (m.setupNewTable d xlatSize).root = m.root ∧ (m.setupNewTable d xlatSize).stray = m.stray ∧
      (∀ j < entryCount, (m.setupNewTable d xlatSize).ttb (m.nextFreeTable + 1) j =
        if d ≠ 0 then (if xlatSize = l3XlatSize then d ||| pageDesc else d) +
          BitVec.ofNat 64 (j * xlatSize)
        else if j = 0 then unusedDesc else 0) ∧
      ∀ t' j, t' ≠ m.nextFreeTable + 1 → (m.setupNewTable d xlatSize).ttb t' j = m.ttb t' j := by
  have htake := h.takeTable hk
  unfold Tables.setupNewTable
  rw [htake]
  by_cases hd : d ≠ 0
  · rw [if_pos hd]
    refine ⟨rfl, rfl, ?_, fun j hj => ?_, fun t' j ht' => if_neg fun h' => ht' h'.1⟩
    · show (m.stray || decide (tableCount ≤ m.nextFreeTable + 1)) = m.stray
      rw [decide_eq_false (Nat.not_le.mpr hk.1), Bool.or_false]
    · rw [if_pos hd]
      exact if_pos ⟨rfl, hj⟩
  · rw [if_neg hd]
    refine ⟨rfl, rfl, rfl, fun j hj => ?_, fun _ _ _ => rfl⟩
    rw [if_neg hd]
    exact h.free _ (Nat.lt_succ_self _) hk.1 j hj

/-- Where there is no table behind an entry, the next one is taken for it. -/
theorem Shape.taken (h : Shape p m level) (ht : t ≤ m.nextFreeTable) (hk : m.TakeKept)
    (hd : m.ttb t i &&& descMask ≠ tableDesc) (xlatSize : Nat) :
    Taken p m (getNextLevelTable p m t i xlatSize).1 t i xlatSize ∧
      (getNextLevelTable p m t i xlatSize).2 = m.nextFreeTable + 1 := by
  obtain ⟨hnext, hroot, hstray, hentries, hother⟩ := h.setupNewTable hk (m.ttb t i) xlatSize
  have heq : getNextLevelTable p m t i xlatSize =
      ((m.setupNewTable (m.ttb t i) xlatSize).write t i
        (p.tableAddr (m.nextFreeTable + 1) ||| tableDesc), m.nextFreeTable + 1) := by
    rw [getNextLevelTable, if_pos hd, hnext, (tableAddr_parts hk.1).2]
  have hlt : t < tableCount := Nat.lt_of_le_of_lt ht h.next
  have hlink : ((m.setupNewTable (m.ttb t i) xlatSize).write t i
      (p.tableAddr (m.nextFreeTable + 1) ||| tableDesc)).ttb t i =
        p.tableAddr (m.nextFreeTable + 1) ||| tableDesc := if_pos ⟨rfl, rfl⟩
  rw [heq]
  refine ⟨⟨hnext, hk.1, hroot, ?_, ?_, ?_, fun j hj => ?_, fun t' j ht' hne => ?_⟩, rfl⟩
  · show ((m.setupNewTable (m.ttb t i) xlatSize).stray || decide (tableCount ≤ t)) = m.stray
    rw [decide_eq_false (Nat.not_le.mpr hlt), Bool.or_false, hstray]
  · exact (congrArg (· &&& descMask) hlink).trans (tableAddr_parts hk.1).1
  · exact (congrArg p.tableOf hlink).trans (tableAddr_parts hk.1).2
  · refine (if_neg fun h' => ?_).trans (hentries j hj)
    omega
  · exact (if_neg hne).trans (hother t' j ht')

/-- What the entries of a table that is taken are, by the entry it was taken for -/
inductive Inherits (m n : Tables) (level : Nat → Nat) (t i : Nat) : Prop
  | empty (hd : m.ttb t i = 0)
    (he : ∀ j < entryCount, n.ttb (m.nextFreeTable + 1) j = if j = 0 then unusedDesc else 0)
  | blocks (hd : m.ttb t i &&& descMask = blockDesc) (hl : level t = 1)
    (ha : (m.ttb t i &&& xlatAddrMask).toNat % l1XlatSize = 0)
    (he : ∀ j < entryCount, n.ttb (m.nextFreeTable + 1) j &&& descMask = blockDesc ∧
      (n.ttb (m.nextFreeTable + 1) j &&& xlatAddrMask).toNat =
        (m.ttb t i &&& xlatAddrMask).toNat + j * l2XlatSize ∧
      n.ttb (m.nextFreeTable + 1) j &&& attrMask = m.ttb t i &&& attrMask)
  | pages (hd : m.ttb t i &&& descMask = blockDesc) (hl : level t = 2)
    (ha : (m.ttb t i &&& xlatAddrMask).toNat % l2XlatSize = 0)
    (he : ∀ j < entryCount, n.ttb (m.nextFreeTable + 1) j &&& descMask = pageDesc ∧
      (n.ttb (m.nextFreeTable + 1) j &&& xlatAddrMask).toNat =
        (m.ttb t i &&& xlatAddrMask).toNat + j * l3XlatSize ∧
      n.ttb (m.nextFreeTable + 1) j &&& attrMask = m.ttb t i &&& attrMask)

/-- The type of a page does not touch the address and the attributes. -/
theorem or_pageDesc_parts (d : BitVec 64) : (d ||| pageDesc) &&& descMask = pageDesc ∧
    (d ||| pageDesc) &&& xlatAddrMask = d &&& xlatAddrMask ∧
      (d ||| pageDesc) &&& attrMask = d &&& attrMask := by
  refine ⟨?_, ?_, ?_⟩
  · refine BitVec.eq_of_getLsbD_eq fun i _ => ?_
    rw [BitVec.getLsbD_and, BitVec.getLsbD_or]
    show ((d.getLsbD i || descMask.getLsbD i) && descMask.getLsbD i) = descMask.getLsbD i
    cases d.getLsbD i <;> cases descMask.getLsbD i <;> rfl
  · rw [BitVec.and_or_distrib_right, show pageDesc &&& xlatAddrMask = 0#64 by rfl, BitVec.or_zero]
  · rw [BitVec.and_or_distrib_right, show pageDesc &&& attrMask = 0#64 by rfl, BitVec.or_zero]

/-- The size of what an entry of a table that is taken for one of table `t` covers -/
def childSize (level : Nat → Nat) (t : Nat) : Nat :=
  if level t = 1 then l2XlatSize else l3XlatSize

theorem Taken.inherits (h : Taken p m n t i (childSize level t)) (hs : Shape p m level)
    (ht : t ≤ m.nextFreeTable) (hi : i < entryCount) (hl : level t = 1 ∨ level t = 2)
    (hk : m.TakeKept) (hd : m.ttb t i &&& descMask ≠ tableDesc) : Inherits m n level t i := by
  have hentries := h.entries
  have hlt := addr_lt (m.ttb t i)
  rcases hs.entry t ht i hi with h0 | ⟨hu, rfl, rfl⟩ | ⟨hb, hl', ha⟩ | ⟨hb, hl', ha⟩ | ⟨htab, -⟩ |
    ⟨htab, -⟩
  · exact .empty h0 fun j hj => (hentries j hj).trans (if_neg fun hne => hne h0)
  · exact absurd hu hk.2
  · have hne : m.ttb t i ≠ 0 := fun h0 => absurd (h0 ▸ hb) (by decide)
    refine .blocks hb hl' ha fun j hj => ?_
    rw [hentries j hj, if_pos hne, childSize, if_pos hl', if_neg (by decide)]
    unfold l1XlatSize at ha
    unfold entryCount at hj
    have hparts := add_parts (d := m.ttb t i) (n := j * l2XlatSize)
      (by unfold l2XlatSize granuleSize; omega) (by unfold l2XlatSize; omega)
    exact ⟨hparts.2.1.trans hb, hparts.1, hparts.2.2⟩
  · have hne : m.ttb t i ≠ 0 := fun h0 => absurd (h0 ▸ hb) (by decide)
    have hne1 : ¬ level t = 1 := by omega
    refine .pages hb hl' ha fun j hj => ?_
    rw [hentries j hj, if_pos hne, childSize, if_neg hne1, if_pos rfl]
    unfold l2XlatSize at ha
    unfold entryCount at hj
    obtain ⟨hkind, haddr, hattr⟩ := or_pageDesc_parts (m.ttb t i)
    have hparts := add_parts (d := m.ttb t i ||| pageDesc) (n := j * l3XlatSize)
      (by rw [haddr]; unfold l3XlatSize granuleSize; omega)
      (by rw [haddr]; unfold l3XlatSize; omega)
    exact ⟨hparts.2.1.trans hkind, hparts.1.trans (by rw [haddr]), hparts.2.2.trans hattr⟩
  · exact absurd htab hd
  · exact absurd htab hd

/-- The tables stay a tree. -/
theorem Taken.shape (h : Taken p m n t i (childSize level t)) (hin : Inherits m n level t i)
    (hs : Shape p m level) (ht : t ≤ m.nextFreeTable) (hl : level t = 1 ∨ level t = 2)
    (hk : m.TakeKept) :
    Shape p n (Function.update level (m.nextFreeTable + 1) (level t + 1)) := by
  have hlevel {t' : Nat} (ht' : t' ≤ m.nextFreeTable) :
      Function.update level (m.nextFreeTable + 1) (level t + 1) t' = level t' :=
    Function.update_of_ne (by omega) _ _
  have hnew : Function.update level (m.nextFreeTable + 1) (level t + 1) (m.nextFreeTable + 1) =
      level t + 1 := Function.update_self ..
  have hother {t' j : Nat} (ht' : t' ≤ m.nextFreeTable) (hne : ¬ (t' = t ∧ j = i)) :
      n.ttb t' j = m.ttb t' j := h.other t' j (by omega) hne
  -- no entry of the new table points to a table
  have hleaf {j : Nat} (hj : j < entryCount) (hl3 : level t + 1 ≠ 3) :
      n.ttb (m.nextFreeTable + 1) j &&& descMask ≠ tableDesc := fun hd => by
    rcases hin with ⟨-, he⟩ | ⟨-, -, -, he⟩ | ⟨-, hl2, -, -⟩
    · rw [he j hj] at hd
      split at hd <;> exact absurd hd (by decide)
    · exact absurd ((he j hj).1.symm.trans hd) (by decide)
    · omega
  refine ⟨h.root.trans hs.root, h.next ▸ h.room, h.stray.trans hs.inside,
    (hlevel (Nat.zero_le _)).trans hs.top, fun t' ht' j hj => ?_, fun t' hlo hhi j hj => ?_,
    fun t1 i1 t2 i2 h1 h2 hi1 hi2 hl1 hl2 hd1 hd2 heq => ?_⟩
  · rcases Nat.lt_or_eq_of_le (h.next ▸ ht') with hlt | rfl
    · have ht' : t' ≤ m.nextFreeTable := Nat.le_of_lt_succ hlt
      by_cases hhere : t' = t ∧ j = i
      · obtain ⟨rfl, rfl⟩ := hhere
        refine .table h.link (by rwa [hlevel ht']) ?_ ?_ ?_
        · rw [h.child]
          omega
        · rw [h.child, h.next]
        · rw [h.child, hnew, hlevel ht']
      · have hsame := hother ht' hhere
        rcases hs.entry t' ht' j hj with h0 | ⟨hu, rfl, rfl⟩ | ⟨hb, hl', ha⟩ | ⟨hb, hl', ha⟩ |
          ⟨hd, hl', hlt', hle, hc⟩ | ⟨hd, hl'⟩
        · exact .empty (hsame.trans h0)
        · exact absurd hu hk.2
        · exact .block1 (hsame ▸ hb) ((hlevel ht').trans hl') (hsame ▸ ha)
        · exact .block2 (hsame ▸ hb) ((hlevel ht').trans hl') (hsame ▸ ha)
        · refine .table (hsame ▸ hd) (by rwa [hlevel ht']) (hsame ▸ hlt') ?_ ?_
          · rw [hsame, h.next]
            omega
          · rw [hsame, hlevel hle, hc, hlevel ht']
        · exact .page (hsame ▸ hd) ((hlevel ht').trans hl')
    · rcases hin with ⟨-, he⟩ | ⟨-, hl1, ha, he⟩ | ⟨-, hl2, -, he⟩
      · by_cases hj0 : j = 0
        · exact .unused ((he j hj).trans (if_pos hj0)) h.next.symm hj0
        · exact .empty ((he j hj).trans (if_neg hj0))
      · refine .block2 (he j hj).1 (hnew.trans (by rw [hl1])) ?_
        rw [(he j hj).2.1]
        unfold l1XlatSize at ha
        unfold l2XlatSize
        omega
      · exact .page (he j hj).1 (hnew.trans (by rw [hl2]))
  · have hlo : m.nextFreeTable + 1 < t' := h.next ▸ hlo
    rw [h.other t' j (by omega) (by omega)]
    exact hs.free t' (by omega) hhi j hj
  · have hold {t' j : Nat} (ht' : t' ≤ n.nextFreeTable) (hj : j < entryCount)
        (hl' : Function.update level (m.nextFreeTable + 1) (level t + 1) t' ≠ 3)
        (hd : n.ttb t' j &&& descMask = tableDesc) : t' ≤ m.nextFreeTable := by
      rcases Nat.lt_or_eq_of_le (h.next ▸ ht') with hlt | rfl
      · exact Nat.le_of_lt_succ hlt
      · exact absurd hd (hleaf hj (hnew ▸ hl'))
    have h1' := hold h1 hi1 hl1 hd1
    have h2' := hold h2 hi2 hl2 hd2
    rw [hlevel h1'] at hl1
    rw [hlevel h2'] at hl2
    by_cases here1 : t1 = t ∧ i1 = i
    · by_cases here2 : t2 = t ∧ i2 = i
      · exact ⟨here1.1.trans here2.1.symm, here1.2.trans here2.2.symm⟩
      · rw [here1.1, here1.2, h.child, hother h2' here2] at heq
        rw [hother h2' here2] at hd2
        have := (hs.child h2' hi2 hl2 hd2).2.2.1
        omega
    · rw [hother h1' here1] at hd1 heq
      by_cases here2 : t2 = t ∧ i2 = i
      · rw [here2.1, here2.2, h.child] at heq
        have := (hs.child h1' hi1 hl1 hd1).2.2.1
        omega
      · rw [hother h2' here2] at hd2 heq
        exact hs.single t1 i1 t2 i2 h1' h2' hi1 hi2 hl1 hl2 hd1 hd2 heq

end Tables

end Ma35d1.Mmu
