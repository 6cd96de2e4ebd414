import Ma35d1.Machine.Trace
import Ma35d1.Mmu.Descriptor

/-!
# The translation tables

`mmu_config_range` enters a range piece by piece into the tables of `_ttb`, and takes the next table
that is not used where a smaller piece has none yet. The walk over the tables is the MMU's.
-/

namespace Ma35d1.Mmu

/-- Where `_ttb` is -/
structure TtbPlace where
  base : Nat
  aligned : base % 0x4000 = 0
  fits : base + 8 * granuleSize ≤ 0x1000000000

/-- The number of tables in `_ttb`, and of entries in a table -/
def tableCount : Nat := 8
def entryCount : Nat := 512

/-- The tables, the place of `next_free_table`, and the table that TTBR0 points to -/
structure Tables where
  ttb : Nat → Nat → BitVec 64
  nextFreeTable : Nat
  root : Nat
  /-- something was written outside `_ttb` -/
  stray : Bool

namespace TtbPlace

/-- The address of a table, and the table at the address in a descriptor -/
def tableAddr (p : TtbPlace) (t : Nat) : BitVec 64 := BitVec.ofNat 64 (p.base + t * granuleSize)

def tableOf (p : TtbPlace) (desc : BitVec 64) : Nat :=
  ((desc &&& xlatAddrMask).toNat - p.base) / granuleSize

end TtbPlace

/-- The index of an address at each level -/
def l1Index (addr : Nat) : Nat := addr / l1XlatSize % 512
def l2Index (addr : Nat) : Nat := addr / l2XlatSize % 512
def l3Index (addr : Nat) : Nat := addr / l3XlatSize % 512

namespace Tables

def write (m : Tables) (t i : Nat) (desc : BitVec 64) : Tables :=
  { m with
    ttb := fun t' i' => if t' = t ∧ i' = i then desc else m.ttb t' i'
    stray := m.stray || decide (tableCount ≤ t) }

/-- The next table that is not used, or the end of `_ttb` -/
def freeFrom (m : Tables) : Nat → Nat → Nat
  | 0, t => t
  | n + 1, t => if m.ttb t 0 = unusedDesc then t else m.freeFrom n (t + 1)

/-- The old entry is repeated in a table. -/
def fill (m : Tables) (t : Nat) (desc : BitVec 64) (xlatSize : Nat) : Tables :=
  { m with
    ttb := fun t' i => if t' = t ∧ i < entryCount then desc + BitVec.ofNat 64 (i * xlatSize)
      else m.ttb t' i
    stray := m.stray || decide (tableCount ≤ t) }

/-- `setup_new_table`; the table is `next_free_table`. -/
def takeTable (m : Tables) : Tables :=
  { m with nextFreeTable := m.freeFrom (tableCount - m.nextFreeTable) m.nextFreeTable }

def setupNewTable (m : Tables) (desc : BitVec 64) (xlatSize : Nat) : Tables :=
  if desc ≠ 0 then
    m.takeTable.fill m.takeTable.nextFreeTable
      (if xlatSize = l3XlatSize then desc ||| pageDesc else desc) xlatSize
  else m.takeTable

/-- `get_next_level_table` -/
def getNextLevelTable (p : TtbPlace) (m : Tables) (t i xlatSize : Nat) : Tables × Nat :=
  if m.ttb t i &&& descMask ≠ tableDesc then
    ((m.setupNewTable (m.ttb t i) xlatSize).write t i
        (p.tableAddr (m.setupNewTable (m.ttb t i) xlatSize).nextFreeTable ||| tableDesc),
      p.tableOf (p.tableAddr (m.setupNewTable (m.ttb t i) xlatSize).nextFreeTable ||| tableDesc))
  else (m, p.tableOf (m.ttb t i))

/-- The output address of a block of each size, and of a page -/
def l1Output (base : Nat) : Nat := if base = 0x180000000 then 0x80000000 else base

def l2Output (base : Nat) (tag : BitVec 64) : Nat :=
  if tag = uncachedMem then base - base / 0x100000000 % 2 * 0x100000000 else base

def blockEntry (output : Nat) (tag : BitVec 64) : BitVec 64 :=
  BitVec.ofNat 64 output ||| blockDesc ||| getBlockAttr tag

def pageEntry (output : Nat) (tag : BitVec 64) : BitVec 64 :=
  BitVec.ofNat 64 output ||| pageDesc ||| getBlockAttr tag

/-- The table of the second level for an address, and that of the third -/
def l2Table (p : TtbPlace) (m : Tables) (base : Nat) : Tables × Nat :=
  getNextLevelTable p m 0 (l1Index base) l2XlatSize

def l3Table (p : TtbPlace) (m : Tables) (base : Nat) : Tables × Nat :=
  getNextLevelTable p (l2Table p m base).1 (l2Table p m base).2 (l2Index base) l3XlatSize

/-- `init_xlat_table` -/
def initXlatTable (p : TtbPlace) (m : Tables) (base size : Nat) (tag : BitVec 64) : Tables × Nat :=
  if l1XlatSize ≤ size ∧ base % l1XlatSize = 0 then
    (m.write 0 (l1Index base) (blockEntry (l1Output base) tag), l1XlatSize)
  else if l2XlatSize ≤ size ∧ base % l2XlatSize = 0 then
    ((l2Table p m base).1.write (l2Table p m base).2 (l2Index base)
      (blockEntry (l2Output base tag) tag), l2XlatSize)
  else ((l3Table p m base).1.write (l3Table p m base).2 (l3Index base) (pageEntry base tag),
    l3XlatSize)

/-- The loop of `mmu_config_range`, for as many turns as there is fuel -/
def configLoop (p : TtbPlace) (start size : Nat) (tag : BitVec 64) :
    Nat → Nat → Tables → Option Tables
  | _, 0, m => some m
  | 0, _ + 1, _ => none
  | fuel + 1, rest + 1, m => configLoop p start size tag fuel
    (rest + 1 - (initXlatTable p m (start + (size - (rest + 1))) (rest + 1) tag).2)
    (initXlatTable p m (start + (size - (rest + 1))) (rest + 1) tag).1

/-- `mmu_config_range` -/
def mmuConfigRange (p : TtbPlace) (m : Tables) (start size : Nat) (tag : BitVec 64) : Option Tables :=
  configLoop p start size tag (size / granuleSize) size m

/-- All table slots are marked unused. -/
def markUnused (m : Tables) : Tables :=
  { m with ttb := fun t i => if t < tableCount ∧ i = 0 then unusedDesc else m.ttb t i }

/-- `mmu_init` -/
def mmuInit (m : Tables) : Tables :=
  { m.markUnused.setupNewTable invalidDesc l1XlatSize with
    root := (m.markUnused.setupNewTable invalidDesc l1XlatSize).nextFreeTable }

/-! ## The walk of the MMU -/

/-- The output address and the attributes of an entry that covers `size` bytes -/
def translate (desc : BitVec 64) (size addr : Nat) : Nat × BitVec 64 :=
  ((desc &&& xlatAddrMask).toNat / size * size + addr % size, desc &&& attrMask)

def walk3 (m : Tables) (t addr : Nat) : Option (Nat × BitVec 64) :=
  if m.ttb t (l3Index addr) &&& descMask = pageDesc then
    some (translate (m.ttb t (l3Index addr)) l3XlatSize addr)
  else none

def walk2 (p : TtbPlace) (m : Tables) (t addr : Nat) : Option (Nat × BitVec 64) :=
  if m.ttb t (l2Index addr) &&& descMask = blockDesc then
    some (translate (m.ttb t (l2Index addr)) l2XlatSize addr)
  else if m.ttb t (l2Index addr) &&& descMask = tableDesc then
    m.walk3 (p.tableOf (m.ttb t (l2Index addr))) addr
  else none

def walk1 (p : TtbPlace) (m : Tables) (t addr : Nat) : Option (Nat × BitVec 64) :=
  if m.ttb t (l1Index addr) &&& descMask = blockDesc then
    some (translate (m.ttb t (l1Index addr)) l1XlatSize addr)
  else if m.ttb t (l1Index addr) &&& descMask = tableDesc then
    walk2 p m (p.tableOf (m.ttb t (l1Index addr))) addr
  else none

/-- What an address is mapped to: 36 bits of address are resolved from the first level on. -/
def walk (p : TtbPlace) (m : Tables) (addr : Nat) : Option (Nat × BitVec 64) := walk1 p m m.root addr

end Tables

/-! ## The ranges -/

structure Range where
  start : Nat
  size : Nat
  tag : BitVec 64

/-- The addresses of the SDRAM's uncached alias -/
def InWindow (addr : Nat) : Prop := 0x180000000 ≤ addr ∧ addr < 0x1C0000000

instance (addr : Nat) : Decidable (InWindow addr) := inferInstanceAs (Decidable (_ ∧ _))

namespace Range

def Covers (r : Range) (addr : Nat) : Prop := r.start ≤ addr ∧ addr < r.start + r.size

instance (r : Range) (addr : Nat) : Decidable (r.Covers addr) :=
  inferInstanceAs (Decidable (_ ∧ _))

/-- A range may be configured: it is a whole number of pages in the 36-bit space. -/
def Fits (r : Range) : Prop :=
  r.start % granuleSize = 0 ∧ r.size % granuleSize = 0 ∧ r.start + r.size ≤ 0x1000000000

instance (r : Range) : Decidable r.Fits := inferInstanceAs (Decidable (_ ∧ _ ∧ _))

/-- What a range maps an address to -/
def mapping (tag : BitVec 64) (addr : Nat) : Nat × BitVec 64 :=
  (if tag = uncachedMem ∧ InWindow addr then addr - 0x100000000 else addr, getBlockAttr tag)

end Range

/-- What the most recent of the ranges that cover it maps an address to -/
def expected (ranges : List Range) (addr : Nat) : Option (Nat × BitVec 64) :=
  (ranges.find? fun r => decide (r.Covers addr)).map fun r => Range.mapping r.tag addr

/-- The tables, and the ranges since the last `mmu_init`, the last one first -/
structure Maps where
  mmu : Tables
  ranges : List Range

inductive Event
  | init
  | config (r : Range)

namespace Maps

def step (p : TtbPlace) (s : Maps) : Event → Option Maps
  | .init => some ⟨s.mmu.mmuInit, []⟩
  | .config r => if r.Fits then
      (s.mmu.mmuConfigRange p r.start r.size r.tag).map fun m => ⟨m, r :: s.ranges⟩
    else none

/-- After the first `mmu_init`: `_ttb` was cleared with the other data. -/
def start : Maps := ⟨Tables.mmuInit ⟨fun _ _ => 0, 0, 0, false⟩, []⟩

end Maps

end Ma35d1.Mmu
