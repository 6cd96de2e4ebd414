import Mathlib.Algebra.GroupWithZero.Nat
import Mathlib.Data.Finset.Card
import Mathlib.Data.Finset.Range
import Mathlib.Logic.Function.Basic

/-!
# The descriptor and DMA memory pools

`mem_alloc.c` serves every host-controller descriptor from one array of
`HW_MEM_UNIT_NUM` fixed-size units, and every software structure from an array of
`DMA_MEM_UNIT_NUM` units. A unit of the descriptor pool is named by its index.
`HwPool.unit` is `_hw_unit_used` with the kind each used unit was taken as, so
`none` is a free unit.
-/

namespace Ma35d1.UsbHost

def hwMemUnitNum : Nat := 512
def dmaMemUnitNum : Nat := 128
def dmaMemUnitSize : Nat := 1024

/-- What a unit was taken as; `other` is a unit of another host controller, whose
driver shares the pool. -/
inductive HwKind
  | ed | td | qh | qtd | itd | sitd | other
  deriving DecidableEq, Repr

/-- The kinds the EHCI driver allocates. -/
def HwKind.isEhci : HwKind → Bool
  | .ed | .td | .other => false
  | .qh | .qtd | .itd | .sitd => true

@[ext] structure HwPool where
  unit : Nat → Option HwKind
  /-- `_sidx`, the rotating start of the EHCI allocators -/
  sidx : Nat
  hwMemUsedCnt : Int
  /-- `_ehci_qh_used`, `_ehci_qtd_used` and their siblings -/
  usedCnt : HwKind → Int

namespace HwPool

/-- `usbh_memory_init`, for the descriptor pool -/
def init : HwPool := ⟨fun _ => none, 0, 0, fun _ => 0⟩

def take (p : HwPool) (k : HwKind) (i : Nat) : HwPool :=
  { p with
    unit := Function.update p.unit i (some k)
    hwMemUsedCnt := p.hwMemUsedCnt + 1
    usedCnt := Function.update p.usedCnt k (p.usedCnt k + 1) }

/-- `for (i = …; i != _sidx; i = (i+1) % HW_MEM_UNIT_NUM)` up to a free unit -/
def rotFree (p : HwPool) : Nat → Nat → Option Nat
  | 0, _ => none
  | n + 1, i =>
    if i = p.sidx then none
    else if p.unit i = none then some i
    else rotFree p n ((i + 1) % hwMemUnitNum)

/-- The allocator shared by `alloc_ehci_QH`, `alloc_ehci_qTD`, `alloc_ehci_iTD` and
`alloc_ehci_siTD`; each takes the next free unit behind `_sidx`. -/
def allocEhci (p : HwPool) (k : HwKind) : Option (Nat × HwPool) :=
  (p.rotFree hwMemUnitNum ((p.sidx + 1) % hwMemUnitNum)).map fun i =>
    (i, { p.take k i with sidx := i })

/-- `for (i = 0; i < HW_MEM_UNIT_NUM; i++)` up to a free unit -/
def firstFree (p : HwPool) : Nat → Nat → Option Nat
  | 0, _ => none
  | n + 1, i => if p.unit i = none then some i else firstFree p n (i + 1)

/-- The allocator shared by `alloc_ohci_ED` and `alloc_ohci_TD`. -/
def allocOhci (p : HwPool) (k : HwKind) : Option (Nat × HwPool) :=
  (p.firstFree hwMemUnitNum 0).map fun i => (i, p.take k i)

/-- `free_ehci_QH` and its siblings; an address outside the pool is ignored. -/
def free (p : HwPool) (k : HwKind) (i : Nat) : HwPool :=
  if i < hwMemUnitNum then
    { p with
      unit := Function.update p.unit i none
      hwMemUsedCnt := p.hwMemUsedCnt - 1
      usedCnt := Function.update p.usedCnt k (p.usedCnt k - 1) }
  else p

theorem rotFree_some {p : HwPool} {n i j : Nat} (hi : i < hwMemUnitNum)
    (h : p.rotFree n i = some j) : j < hwMemUnitNum ∧ p.unit j = none := by
  induction n generalizing i with
  | zero => simp [rotFree] at h
  | succ n ih =>
    rw [rotFree] at h
    split at h
    · cases h
    · split at h
      · rename_i hu
        obtain rfl := Option.some.inj h
        exact ⟨hi, hu⟩
      · exact ih (Nat.mod_lt _ (by decide)) h

/-- A unit handed out by an EHCI allocator was free. -/
theorem allocEhci_some {p p' : HwPool} {k : HwKind} {a : Nat}
    (h : p.allocEhci k = some (a, p')) :
    a < hwMemUnitNum ∧ p.unit a = none ∧ p' = { p.take k a with sidx := a } := by
  rw [allocEhci, Option.map_eq_some_iff] at h
  obtain ⟨i, hi, he⟩ := h
  obtain ⟨rfl, rfl⟩ := Prod.mk.inj he
  obtain ⟨hlt, hu⟩ := rotFree_some (Nat.mod_lt _ (by decide)) hi
  exact ⟨hlt, hu, rfl⟩

theorem firstFree_some {p : HwPool} {n i j : Nat} (h : p.firstFree n i = some j) :
    j < i + n ∧ p.unit j = none := by
  induction n generalizing i with
  | zero => simp [firstFree] at h
  | succ n ih =>
    rw [firstFree] at h
    split at h
    · rename_i hu
      obtain rfl := Option.some.inj h
      exact ⟨by omega, hu⟩
    · obtain ⟨hlt, hu⟩ := ih h
      exact ⟨by omega, hu⟩

/-- A unit handed out by an OHCI allocator was free. -/
theorem allocOhci_some {p p' : HwPool} {k : HwKind} {a : Nat}
    (h : p.allocOhci k = some (a, p')) :
    a < hwMemUnitNum ∧ p.unit a = none ∧ p' = p.take k a := by
  rw [allocOhci, Option.map_eq_some_iff] at h
  obtain ⟨i, hi, he⟩ := h
  obtain ⟨rfl, rfl⟩ := Prod.mk.inj he
  obtain ⟨hlt, hu⟩ := firstFree_some hi
  exact ⟨by omega, hu, rfl⟩

/-- The number of free units. -/
def avail (p : HwPool) : Nat := ((Finset.range hwMemUnitNum).filter fun i => p.unit i = none).card

theorem firstFree_none_iff {p : HwPool} {n i : Nat} :
    p.firstFree n i = none ↔ ∀ j, i ≤ j → j < i + n → p.unit j ≠ none := by
  induction n generalizing i with
  | zero => exact ⟨fun _ j h₁ h₂ => absurd h₂ (by omega), fun _ => rfl⟩
  | succ n ih =>
    rw [firstFree]
    split
    · rename_i hu
      exact ⟨(nomatch ·), fun h => absurd hu (h i (Nat.le_refl i) (by omega))⟩
    · rename_i hu
      rw [ih]
      refine ⟨fun h j h₁ h₂ => ?_, fun h j h₁ h₂ => h j (by omega) (by omega)⟩
      by_cases hj : j = i
      · exact hj ▸ hu
      · exact h j (by omega) (by omega)

/-- The OHCI allocators fail when no unit is free. -/
theorem allocOhci_eq_none_iff {p : HwPool} {k : HwKind} : p.allocOhci k = none ↔ p.avail = 0 := by
  rw [allocOhci, Option.map_eq_none_iff, firstFree_none_iff, avail, Finset.card_eq_zero,
    Finset.filter_eq_empty_iff]
  refine ⟨fun h j hj => h j (Nat.zero_le j) ?_, fun h j _ hj => h (Finset.mem_range.mpr ?_)⟩
  · have := Finset.mem_range.mp hj
    omega
  · omega

theorem avail_take {p : HwPool} {k : HwKind} {i : Nat} (hi : i < hwMemUnitNum)
    (hu : p.unit i = none) : (p.take k i).avail + 1 = p.avail := by
  have hmem : i ∈ (Finset.range hwMemUnitNum).filter fun j => p.unit j = none :=
    Finset.mem_filter.mpr ⟨Finset.mem_range.mpr hi, hu⟩
  have herase : ((Finset.range hwMemUnitNum).filter fun j => (p.take k i).unit j = none) =
      ((Finset.range hwMemUnitNum).filter fun j => p.unit j = none).erase i := by
    ext j
    rw [Finset.mem_filter, Finset.mem_erase, Finset.mem_filter]
    show _ ∧ Function.update p.unit i (some k) j = none ↔ _
    by_cases hj : j = i
    · simp [hj]
    · simp [hj]
  rw [avail, herase, Finset.card_erase_add_one hmem]
  rfl

theorem free_unit {p : HwPool} {k : HwKind} {i : Nat} (hi : i < hwMemUnitNum) :
    (p.free k i).unit = Function.update p.unit i none := by
  rw [free, if_pos hi]

@[simp] theorem free_sidx (p : HwPool) (k : HwKind) (i : Nat) : (p.free k i).sidx = p.sidx := by
  unfold free; split <;> rfl

/-! ### The units taken from the pool -/

/-- The units `ks`, all free in `p₀`, have been taken from it. -/
structure Took (p₀ : HwPool) (ks : List (Nat × HwKind)) (p : HwPool) : Prop where
  nodup : (ks.map Prod.fst).Nodup
  lt : ∀ k ∈ ks, k.1 < hwMemUnitNum
  wasFree : ∀ k ∈ ks, p₀.unit k.1 = none
  held : ∀ k ∈ ks, p.unit k.1 = some k.2
  rest : ∀ a, a ∉ ks.map Prod.fst → p.unit a = p₀.unit a
  memCnt : p.hwMemUsedCnt = p₀.hwMemUsedCnt + ks.length
  sidx : p.sidx < hwMemUnitNum

namespace Took

variable {p₀ p p' : HwPool} {ks ks' : List (Nat × HwKind)} {a : Nat} {k : HwKind}

theorem refl (h : p.sidx < hwMemUnitNum) : Took p [] p where
  nodup := List.nodup_nil
  lt _ h := absurd h List.not_mem_nil
  wasFree _ h := absurd h List.not_mem_nil
  held _ h := absurd h List.not_mem_nil
  rest _ _ := rfl
  memCnt := by simp
  sidx := h

theorem perm (h : p₀.Took ks p) (hp : ks.Perm ks') : p₀.Took ks' p where
  nodup := (hp.map _).nodup_iff.mp h.nodup
  lt k hk := h.lt k (hp.mem_iff.mpr hk)
  wasFree k hk := h.wasFree k (hp.mem_iff.mpr hk)
  held k hk := h.held k (hp.mem_iff.mpr hk)
  rest a ha := h.rest a fun hm => ha ((hp.map _).mem_iff.mp hm)
  memCnt := by rw [← hp.length_eq]; exact h.memCnt
  sidx := h.sidx

theorem not_held (h : p₀.Took ks p) (hu : p.unit a = none) : a ∉ ks.map Prod.fst := by
  intro hm
  obtain ⟨x, hx, rfl⟩ := List.mem_map.mp hm
  rw [h.held x hx] at hu
  cases hu

/-- Taking one more unit. -/
theorem take (h : p₀.Took ks p) (hlt : a < hwMemUnitNum) (hu : p.unit a = none) :
    p₀.Took ((a, k) :: ks) { p.take k a with sidx := a } := by
  have hna := h.not_held hu
  constructor
  · exact List.nodup_cons.mpr ⟨hna, h.nodup⟩
  · exact List.forall_mem_cons.mpr ⟨hlt, h.lt⟩
  · exact List.forall_mem_cons.mpr ⟨(h.rest a hna).symm.trans hu, h.wasFree⟩
  · refine List.forall_mem_cons.mpr ⟨Function.update_self .., fun x hx => ?_⟩
    refine (Function.update_of_ne ?_ ..).trans (h.held x hx)
    rintro rfl
    exact hna (List.mem_map_of_mem hx)
  · intro b hb
    obtain ⟨hba, hbk⟩ := not_or.mp (fun ho => hb (List.mem_cons.mpr ho))
    exact (Function.update_of_ne hba ..).trans (h.rest b hbk)
  · show p.hwMemUsedCnt + 1 = _
    rw [h.memCnt, List.length_cons]
    omega
  · exact hlt

/-- Giving one back. -/
theorem give (h : p₀.Took ((a, k) :: ks) p) : p₀.Took ks (p.free k a) := by
  obtain ⟨hna, hnd⟩ := List.nodup_cons.mp h.nodup
  have hlt : a < hwMemUnitNum := h.lt (a, k) List.mem_cons_self
  have hunit := free_unit (p := p) (k := k) hlt
  constructor
  · exact hnd
  · exact fun x hx => h.lt x (List.mem_cons_of_mem _ hx)
  · exact fun x hx => h.wasFree x (List.mem_cons_of_mem _ hx)
  · intro x hx
    rw [hunit]
    refine (Function.update_of_ne ?_ ..).trans (h.held x (List.mem_cons_of_mem _ hx))
    intro he
    exact hna (he ▸ List.mem_map.mpr ⟨x, hx, rfl⟩)
  · intro b hb
    rw [hunit]
    by_cases hba : b = a
    · rw [hba, Function.update_self]
      exact (h.wasFree (a, k) List.mem_cons_self).symm
    · rw [Function.update_of_ne hba]
      exact h.rest b fun hm => (List.mem_cons.mp hm).elim hba hb
  · have hc := h.memCnt
    rw [List.length_cons] at hc
    rw [free, if_pos hlt]
    show p.hwMemUsedCnt - 1 = _
    omega
  · rw [free_sidx]; exact h.sidx

theorem unit_eq (h : p₀.Took [] p) : p.unit = p₀.unit :=
  funext fun a => h.rest a List.not_mem_nil

end Took

end HwPool

/-! ## DMA memory -/

structure DmaPool where
  used : Nat → Bool
  usedCnt : Int

namespace DmaPool

def init : DmaPool := ⟨fun _ => false, 0⟩

/-- The search loop of `usbh_alloc_mem`: `start` and `found` when it stops. -/
def scan (p : DmaPool) (wanted : Nat) : Nat → Nat → Nat → Nat → Nat × Nat
  | 0, _, start, found => (start, found)
  | n + 1, i, start, found =>
    if p.used i = false then
      let start := if found = 0 then i else start
      if wanted ≤ found + 1 then (start, found + 1) else scan p wanted n (i + 1) start (found + 1)
    else scan p wanted n (i + 1) start 0

/-- `for (i = start; found > 0; i++, found--) _dma_unit_used[i] = 1` -/
def mark (used : Nat → Bool) (start : Nat) (b : Bool) : Nat → Nat → Bool
  | 0 => used
  | n + 1 => mark (Function.update used start b) (start + 1) b n

def wanted (size : Nat) : Nat := (size + dmaMemUnitSize - 1) / dmaMemUnitSize

/-- `usbh_alloc_mem`: the first unit of the block -/
def usbhAllocMem (p : DmaPool) (size : Nat) : Option (Nat × DmaPool) :=
  let w := wanted size
  let r := p.scan w (dmaMemUnitNum + 1 - w) 0 0 0
  if r.2 < w then none
  else some (r.1, { used := mark p.used r.1 true r.2, usedCnt := p.usedCnt + w })

/-- `usbh_free_mem` of a block that starts at unit `start` -/
def usbhFreeMem (p : DmaPool) (start size : Nat) : DmaPool :=
  let w := wanted size
  if dmaMemUnitNum ≤ start ∨ dmaMemUnitNum < start + w then p
  else { used := mark p.used start false w, usedCnt := p.usedCnt - w }

theorem scan_one {p : DmaPool} {n i start : Nat} :
    (p.scan 1 n i start 0).2 = 0 ∨
      ((p.scan 1 n i start 0).2 = 1 ∧ p.used (p.scan 1 n i start 0).1 = false ∧
        (p.scan 1 n i start 0).1 < i + n) := by
  induction n generalizing i start with
  | zero => exact .inl rfl
  | succ n ih =>
    rw [scan]
    split
    · rename_i hu
      exact .inr ⟨by simp, by simpa using hu, by simp⟩
    · rcases @ih (i + 1) start with h | ⟨h, hu, hlt⟩
      · exact .inl h
      · exact .inr ⟨h, hu, by omega⟩

/-- A structure of at most one unit takes one unit that was free. -/
theorem usbhAllocMem_one {p p' : DmaPool} {size a : Nat} (hs : wanted size = 1)
    (h : p.usbhAllocMem size = some (a, p')) :
    a < dmaMemUnitNum ∧ p.used a = false ∧
      p' = { used := Function.update p.used a true, usedCnt := p.usedCnt + 1 } := by
  unfold usbhAllocMem at h
  simp only [hs, Nat.add_sub_cancel] at h
  rcases @scan_one p dmaMemUnitNum 0 0 with h0 | ⟨h1, hu, hlt⟩
  · simp [h0] at h
  · simp only [h1, Nat.lt_irrefl, ↓reduceIte, Option.some.injEq, Prod.mk.injEq] at h
    obtain ⟨rfl, rfl⟩ := h
    exact ⟨by simpa using hlt, hu, rfl⟩

theorem scan_one_found {p : DmaPool} {n i start j : Nat} (hj : i ≤ j ∧ j < i + n)
    (hu : p.used j = false) : (p.scan 1 n i start 0).2 = 1 := by
  induction n generalizing i start with
  | zero => omega
  | succ n ih =>
    rw [scan]
    split
    · simp
    · rename_i hi
      have hne : j ≠ i := fun h => hi (h ▸ hu)
      exact ih ⟨by omega, by omega⟩

/-- It has one while any is free. -/
theorem usbhAllocMem_one_of_free {p : DmaPool} {size j : Nat} (hs : wanted size = 1)
    (hj : j < dmaMemUnitNum) (hu : p.used j = false) : ∃ a p', p.usbhAllocMem size = some (a, p') := by
  have h1 : (p.scan 1 dmaMemUnitNum 0 0 0).2 = 1 := scan_one_found ⟨Nat.zero_le _, by omega⟩ hu
  unfold usbhAllocMem
  simp only [hs, Nat.add_sub_cancel, h1, Nat.lt_irrefl, ↓reduceIte]
  exact ⟨_, _, rfl⟩

/-- Its free takes the pool back. -/
theorem usbhFreeMem_usbhAllocMem_one {p p' : DmaPool} {size a : Nat} (hs : wanted size = 1)
    (h : p.usbhAllocMem size = some (a, p')) : p'.usbhFreeMem a size = p := by
  obtain ⟨ha, hu, rfl⟩ := usbhAllocMem_one hs h
  unfold usbhFreeMem
  simp only [hs]
  rw [if_neg (by omega)]
  have hused : mark (Function.update p.used a true) a false 1 = p.used := by
    simp only [mark, Function.update_idem]
    rw [← hu, Function.update_eq_self]
  have hcnt : p.usedCnt + 1 - ((1 : Nat) : Int) = p.usedCnt := by omega
  rw [hused, hcnt]

/-- Its free clears that unit only. -/
theorem usbhFreeMem_one {p : DmaPool} {size a b : Nat} (hs : wanted size = 1) (hb : b ≠ a) :
    (p.usbhFreeMem a size).used b = p.used b := by
  unfold usbhFreeMem
  dsimp only
  split
  · rfl
  · rw [hs]
    exact Function.update_of_ne hb ..

end DmaPool

end Ma35d1.UsbHost
