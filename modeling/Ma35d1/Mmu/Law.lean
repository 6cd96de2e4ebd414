import Ma35d1.Mmu.Tables

/-!
# What the tables must say

The law of the tables, the condition under which a range is entered as it should be, and the shape
of the tables that the condition keeps: a tree of three levels in which a new table is behind all
those before it.
-/

namespace Ma35d1.Mmu

namespace Tables

/-- An entry points to a table. -/
def PointsTo (p : TtbPlace) (m : Tables) (t i c : Nat) : Prop :=
  i < entryCount ∧ m.ttb t i &&& descMask = tableDesc ∧ p.tableOf (m.ttb t i) = c

/-- The entry is one of the root, or of a table that the root points to. -/
def Parent (p : TtbPlace) (m : Tables) (t i c : Nat) : Prop :=
  (t = m.root ∨ ∃ j, PointsTo p m m.root j t) ∧ PointsTo p m t i c

/-- The next table may be taken: there is one, and the table that was taken last is not marked
unused any more. -/
def TakeKept (m : Tables) : Prop :=
  m.nextFreeTable + 1 < tableCount ∧ m.ttb m.nextFreeTable 0 ≠ unusedDesc

instance (m : Tables) : Decidable m.TakeKept := inferInstanceAs (Decidable (_ ∧ _))

/-- There is a table behind an entry, or one may be taken. -/
def EntryKept (m : Tables) (t i : Nat) : Prop := m.ttb t i &&& descMask = tableDesc ∨ m.TakeKept

instance (m : Tables) (t i : Nat) : Decidable (m.EntryKept t i) := inferInstanceAs (Decidable (_ ∨ _))

/-- The condition on a piece of a range: its tables may be taken, and the alias of the SDRAM is where
its size makes the code look for it. -/
def PieceKept (p : TtbPlace) (m : Tables) (base size : Nat) (tag : BitVec 64) : Prop :=
  if l1XlatSize ≤ size ∧ base % l1XlatSize = 0 then base = 0x180000000 → tag = uncachedMem
  else m.EntryKept 0 (l1Index base) ∧
    if l2XlatSize ≤ size ∧ base % l2XlatSize = 0 then
      tag = uncachedMem → base / 0x100000000 % 2 = 1 → InWindow base
    else (l2Table p m base).1.EntryKept (l2Table p m base).2 (l2Index base) ∧
      (tag = uncachedMem → ¬ InWindow base)

instance (p : TtbPlace) (m : Tables) (base size : Nat) (tag : BitVec 64) :
    Decidable (PieceKept p m base size tag) :=
  inferInstanceAs (Decidable (if l1XlatSize ≤ size ∧ base % l1XlatSize = 0 then
    base = 0x180000000 → tag = uncachedMem
  else m.EntryKept 0 (l1Index base) ∧
    if l2XlatSize ≤ size ∧ base % l2XlatSize = 0 then
      tag = uncachedMem → base / 0x100000000 % 2 = 1 → InWindow base
    else (l2Table p m base).1.EntryKept (l2Table p m base).2 (l2Index base) ∧
      (tag = uncachedMem → ¬ InWindow base)))

/-- The condition on all pieces of a range -/
def LoopKept (p : TtbPlace) (start size : Nat) (tag : BitVec 64) : Nat → Nat → Tables → Prop
  | _, 0, _ => True
  | 0, _ + 1, _ => True
  | fuel + 1, rest + 1, m => PieceKept p m (start + (size - (rest + 1))) (rest + 1) tag ∧
    LoopKept p start size tag fuel
      (rest + 1 - (initXlatTable p m (start + (size - (rest + 1))) (rest + 1) tag).2)
      (initXlatTable p m (start + (size - (rest + 1))) (rest + 1) tag).1

def decidableLoopKept (p : TtbPlace) (start size : Nat) (tag : BitVec 64) :
    ∀ fuel rest m, Decidable (LoopKept p start size tag fuel rest m)
  | _, 0, _ => .isTrue (by unfold LoopKept; trivial)
  | 0, _ + 1, _ => .isTrue trivial
  | fuel + 1, rest + 1, m =>
    have := decidableLoopKept p start size tag fuel
      (rest + 1 - (initXlatTable p m (start + (size - (rest + 1))) (rest + 1) tag).2)
      (initXlatTable p m (start + (size - (rest + 1))) (rest + 1) tag).1
    inferInstanceAs (Decidable (_ ∧ _))

instance (p : TtbPlace) (start size : Nat) (tag : BitVec 64) (fuel rest : Nat) (m : Tables) :
    Decidable (LoopKept p start size tag fuel rest m) :=
  decidableLoopKept p start size tag fuel rest m

end Tables

namespace Maps

/-- What the tables must say -/
structure TablesLaw (p : TtbPlace) (s : Maps) : Prop where
  maps : ∀ addr < 0x1000000000, s.mmu.walk p addr = expected s.ranges addr
  single : ∀ t i t' i' c, s.mmu.Parent p t i c → s.mmu.Parent p t' i' c → t = t' ∧ i = i'
  inside : s.mmu.stray = false
  ends : ∀ r : Range, r.Fits → ∃ m, s.mmu.mmuConfigRange p r.start r.size r.tag = some m

/-- The condition on a step: the tables are clear behind their first entries when `mmu_init` is
called, and the pieces of a range may be entered. -/
def TablesKept (p : TtbPlace) (s : Maps) : Event → Prop
  | .init => s.mmu.nextFreeTable = 0 ∧
    ∀ t < tableCount, ∀ i < entryCount, i ≠ 0 → s.mmu.ttb t i = 0
  | .config r => Tables.LoopKept p r.start r.size r.tag (r.size / granuleSize) r.size s.mmu

instance (p : TtbPlace) (s : Maps) (e : Event) : Decidable (TablesKept p s e) :=
  match e with
  | .init => inferInstanceAs (Decidable (_ ∧ ∀ t < tableCount, ∀ i < entryCount, _ → _))
  | .config r => inferInstanceAs (Decidable (Tables.LoopKept p r.start r.size r.tag _ r.size s.mmu))

end Maps

/-! ## The shape of the tables -/

namespace Tables

/-- What an entry may be, by the level of its table -/
inductive EntryOk (p : TtbPlace) (m : Tables) (level : Nat → Nat) (t i : Nat) : Prop
  | empty (h : m.ttb t i = 0)
  | unused (h : m.ttb t i = unusedDesc) (ht : t = m.nextFreeTable) (hi : i = 0)
  | block1 (h : m.ttb t i &&& descMask = blockDesc) (hl : level t = 1)
    (ha : (m.ttb t i &&& xlatAddrMask).toNat % l1XlatSize = 0)
  | block2 (h : m.ttb t i &&& descMask = blockDesc) (hl : level t = 2)
    (ha : (m.ttb t i &&& xlatAddrMask).toNat % l2XlatSize = 0)
  | table (h : m.ttb t i &&& descMask = tableDesc) (hl : level t = 1 ∨ level t = 2)
    (hlt : t < p.tableOf (m.ttb t i)) (hle : p.tableOf (m.ttb t i) ≤ m.nextFreeTable)
    (hc : level (p.tableOf (m.ttb t i)) = level t + 1)
  | page (h : m.ttb t i &&& descMask = pageDesc) (hl : level t = 3)

/-- The tables that were taken are a tree, and the others are clear. -/
structure Shape (p : TtbPlace) (m : Tables) (level : Nat → Nat) : Prop where
  root : m.root = 0
  next : m.nextFreeTable < tableCount
  inside : m.stray = false
  top : level 0 = 1
  entry : ∀ t ≤ m.nextFreeTable, ∀ i < entryCount, EntryOk p m level t i
  free : ∀ t, m.nextFreeTable < t → t < tableCount → ∀ i < entryCount,
    m.ttb t i = if i = 0 then unusedDesc else 0
  single : ∀ t i t' i', t ≤ m.nextFreeTable → t' ≤ m.nextFreeTable → i < entryCount →
    i' < entryCount → level t ≠ 3 → level t' ≠ 3 → m.ttb t i &&& descMask = tableDesc →
    m.ttb t' i' &&& descMask = tableDesc → p.tableOf (m.ttb t i) = p.tableOf (m.ttb t' i') →
    t = t' ∧ i = i'

end Tables

end Ma35d1.Mmu
