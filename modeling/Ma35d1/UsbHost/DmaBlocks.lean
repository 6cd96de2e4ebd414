import Mathlib.Algebra.BigOperators.Group.List.Basic
import Mathlib.Data.List.Pairwise
import Ma35d1.Machine.Trace
import Ma35d1.UsbHost.MemAlloc

/-!
# The blocks of the DMA pool

`usbh_alloc_mem` takes a run of adjacent units and `usbh_free_mem` gives one back. The pool
only knows which units are used; beside it stand the blocks the callers hold.
-/

namespace Ma35d1.UsbHost

open Machine.Trace

/-- A block handed out by `usbh_alloc_mem(size)`. -/
structure Block where
  start : Nat
  size : Nat
  deriving DecidableEq

namespace Block

/-- The number of its units. -/
def len (b : Block) : Nat := DmaPool.wanted b.size

instance : Membership Nat Block := ⟨fun b u => b.start ≤ u ∧ u < b.start + b.len⟩

def Disjoint (b b' : Block) : Prop := ∀ u, u ∈ b → u ∉ b'

end Block

namespace DmaPool

variable {p p' : DmaPool} {a size w n i start found u : Nat}

theorem wanted_pos (hs : 0 < size) : 0 < wanted size := by
  unfold wanted dmaMemUnitSize
  omega

/-! ## The search -/

/-- A search that ends with enough units found them next to each other and free. On the way
the `found` units before `i` start at `start` and are free. -/
theorem scan_spec (hw : 0 < w) (hf : found < w) (hi : found ≠ 0 → start + found = i)
    (hfree : ∀ u, start ≤ u → u < start + found → p.used u = false)
    (hr : w ≤ (p.scan w n i start found).2) :
    (p.scan w n i start found).2 = w ∧ (p.scan w n i start found).1 + w ≤ i + n ∧
      ∀ u, (p.scan w n i start found).1 ≤ u → u < (p.scan w n i start found).1 + w →
        p.used u = false := by
  induction n generalizing i start found with
  | zero => exact absurd hr (by simp only [scan]; omega)
  | succ n ih =>
    rw [scan] at hr ⊢
    by_cases hu : p.used i = false
    · rw [if_pos hu] at hr ⊢
      dsimp only at hr ⊢
      generalize hst : (if found = 0 then i else start) = st at hr ⊢
      -- the run with unit `i` added
      have hrun : st + (found + 1) = i + 1 := by
        split at hst <;> omega
      have hfree' : ∀ u, st ≤ u → u < st + (found + 1) → p.used u = false := by
        intro u h₁ h₂
        by_cases hui : u = i
        · rw [hui]
          exact hu
        · split at hst
          · omega
          · exact hfree u (by omega) (by omega)
      by_cases hend : w ≤ found + 1
      · rw [if_pos hend] at hr ⊢
        have hlast : found + 1 = w := by omega
        exact ⟨hlast, by omega, fun u h₁ h₂ => hfree' u h₁ (by omega)⟩
      · rw [if_neg hend] at hr ⊢
        obtain ⟨h₁, h₂, h₃⟩ := ih (by omega) (fun _ => hrun) hfree' hr
        exact ⟨h₁, by omega, h₃⟩
    · rw [if_neg hu] at hr ⊢
      obtain ⟨h₁, h₂, h₃⟩ := ih hw (fun h => absurd rfl h) (fun u h₁ h₂ => by omega) hr
      exact ⟨h₁, by omega, h₃⟩

theorem mark_apply (used : Nat → Bool) (b : Bool) :
    mark used start b n u = if start ≤ u ∧ u < start + n then b else used u := by
  induction n generalizing used start with
  | zero => rw [mark, if_neg (by omega)]
  | succ n ih =>
    rw [mark, ih]
    by_cases hu : u = start
    · rw [hu, Function.update_self, if_neg (by omega), if_pos (by omega)]
    · rw [Function.update_of_ne hu]
      exact if_congr (by omega) rfl rfl

/-- What an allocation does: the units of the block were free and are used now. -/
theorem usbhAllocMem_some (hs : 0 < size) (h : p.usbhAllocMem size = some (a, p')) :
    a + wanted size ≤ dmaMemUnitNum ∧
      (∀ u, u ∈ Block.mk a size → p.used u = false) ∧
      (∀ u, p'.used u = true ↔ u ∈ Block.mk a size ∨ p.used u = true) ∧
      p'.usedCnt = p.usedCnt + wanted size := by
  have hw := wanted_pos hs
  unfold usbhAllocMem at h
  dsimp only at h
  split at h
  · cases h
  · rename_i hr
    obtain ⟨h₁, h₂, h₃⟩ := scan_spec hw hw (fun h => absurd rfl h) (fun u _ _ => by omega)
      (Nat.not_lt.1 hr)
    obtain ⟨rfl, rfl⟩ := Prod.mk.inj (Option.some.inj h)
    refine ⟨by omega, fun u hu => h₃ u hu.1 hu.2, fun u => ?_, rfl⟩
    dsimp only
    rw [h₁, mark_apply]
    split
    · rename_i hu
      exact ⟨fun _ => .inl hu, fun _ => rfl⟩
    · rename_i hu
      exact ⟨.inr, fun h => h.resolve_left hu⟩

/-- What a free does: the units of the block are free now. -/
theorem usbhFreeMem_spec (hs : 0 < size) (ha : a + wanted size ≤ dmaMemUnitNum) :
    (∀ u, (p.usbhFreeMem a size).used u = true ↔ u ∉ Block.mk a size ∧ p.used u = true) ∧
      (p.usbhFreeMem a size).usedCnt = p.usedCnt - wanted size := by
  have hw := wanted_pos hs
  unfold usbhFreeMem
  dsimp only
  rw [if_neg (by omega)]
  refine ⟨fun u => ?_, rfl⟩
  dsimp only
  rw [mark_apply]
  split
  · rename_i hu
    exact ⟨nofun, fun h => absurd hu h.1⟩
  · rename_i hu
    exact ⟨fun h => ⟨hu, h⟩, fun h => h.2⟩

end DmaPool

/-! ## Callers -/

/-- The pool and the blocks that are live. -/
structure DmaHeap where
  pool : DmaPool
  live : List Block

namespace DmaHeap

variable {s t : DmaHeap} {b : Block}

def init : DmaHeap := ⟨DmaPool.init, []⟩

inductive Event
  | alloc (size : Nat)
  | free (b : Block)

/-- Sizes are positive, and only a live block is freed, with its own size. -/
def step (s : DmaHeap) : Event → Option DmaHeap
  | .alloc size =>
    if 0 < size then
      match s.pool.usbhAllocMem size with
      | none => some s
      | some (start, pool) => some ⟨pool, ⟨start, size⟩ :: s.live⟩
    else none
  | .free b =>
    if b ∈ s.live then some ⟨s.pool.usbhFreeMem b.start b.size, s.live.erase b⟩ else none

/-- The live blocks are disjoint runs of units and the pool knows exactly their units. -/
structure Safe (s : DmaHeap) : Prop where
  pos : ∀ b ∈ s.live, 0 < b.size
  inside : ∀ b ∈ s.live, b.start + b.len ≤ dmaMemUnitNum
  disjoint : s.live.Pairwise Block.Disjoint
  used : ∀ u, s.pool.used u = true ↔ ∃ b ∈ s.live, u ∈ b
  usedCnt : s.pool.usedCnt = ((s.live.map Block.len).sum : Nat)

/-- An allocation is handed a block whose units are all free. -/
def AllocatesFree (s : DmaHeap) : Event → Prop
  | .alloc size => ∀ start pool, s.pool.usbhAllocMem size = some (start, pool) →
      ∀ u, u ∈ Block.mk start size → s.pool.used u = false
  | .free _ => True

theorem init_safe : Safe init :=
  ⟨nofun, nofun, List.Pairwise.nil, fun _ => ⟨nofun, nofun⟩, rfl⟩

theorem alloc_safe {size start : Nat} {pool : DmaPool} (h : Safe s) (hs : 0 < size)
    (ha : s.pool.usbhAllocMem size = some (start, pool)) :
    Safe ⟨pool, ⟨start, size⟩ :: s.live⟩ := by
  obtain ⟨hin, hfree, hused, hcnt⟩ := DmaPool.usbhAllocMem_some hs ha
  constructor
  · exact List.forall_mem_cons.2 ⟨hs, h.pos⟩
  · exact List.forall_mem_cons.2 ⟨hin, h.inside⟩
  · refine List.pairwise_cons.2 ⟨fun b hb u hu hub => ?_, h.disjoint⟩
    have hbusy := (h.used u).2 ⟨b, hb, hub⟩
    rw [hfree u hu] at hbusy
    cases hbusy
  · intro u
    dsimp only
    rw [hused u, h.used u]
    simp only [List.mem_cons, exists_eq_or_imp]
  · show pool.usedCnt = _
    rw [hcnt, h.usedCnt, List.map_cons, List.sum_cons]
    show _ = ((DmaPool.wanted size + _ : Nat) : Int)
    omega

theorem free_safe (h : Safe s) (hb : b ∈ s.live) :
    Safe ⟨s.pool.usbhFreeMem b.start b.size, s.live.erase b⟩ := by
  obtain ⟨hused, hcnt⟩ := DmaPool.usbhFreeMem_spec (p := s.pool) (h.pos b hb) (h.inside b hb)
  have hperm := List.perm_cons_erase hb
  -- the block freed is disjoint from those that stay
  have hdis : ∀ b' ∈ s.live.erase b, b.Disjoint b' :=
    (List.pairwise_cons.1 (hperm.pairwise h.disjoint fun hd u hu hu' => hd u hu' hu)).1
  constructor
  · exact fun b' hb' => h.pos b' (List.mem_of_mem_erase hb')
  · exact fun b' hb' => h.inside b' (List.mem_of_mem_erase hb')
  · exact h.disjoint.sublist (List.erase_sublist)
  · intro u
    rw [hused u, h.used u]
    constructor
    · rintro ⟨hub, b', hb', hub'⟩
      rcases List.mem_cons.1 (hperm.mem_iff.1 hb') with rfl | hb'
      · exact absurd hub' hub
      · exact ⟨b', hb', hub'⟩
    · rintro ⟨b', hb', hub'⟩
      exact ⟨fun hub => hdis b' hb' u hub hub', b', List.mem_of_mem_erase hb', hub'⟩
  · show (s.pool.usbhFreeMem b.start b.size).usedCnt = _
    have hsum : (s.live.map Block.len).sum = b.len + ((s.live.erase b).map Block.len).sum := by
      rw [(hperm.map Block.len).sum_eq, List.map_cons, List.sum_cons]
    rw [hcnt, h.usedCnt, hsum]
    show ((b.len + _ : Nat) : Int) - (b.len : Nat) = ((s.live.erase b).map Block.len).sum
    omega

theorem step_safe {e : Event} (h : Safe s) (he : step s e = some t) : Safe t := by
  cases e with
  | alloc size =>
    obtain ⟨hs, he⟩ := Option.ite_none_right_eq_some.1 he
    cases ha : s.pool.usbhAllocMem size with
    | none =>
      rw [ha] at he
      exact Option.some.inj he ▸ h
    | some r =>
      rw [ha] at he
      exact Option.some.inj he ▸ alloc_safe h hs ha
  | free b =>
    obtain ⟨hb, he⟩ := Option.ite_none_right_eq_some.1 he
    exact Option.some.inj he ▸ free_safe h hb

theorem step_allocatesFree {e : Event} (he : step s e = some t) : AllocatesFree s e := by
  cases e with
  | alloc size =>
    obtain ⟨hs, -⟩ := Option.ite_none_right_eq_some.1 he
    exact fun start pool ha => (DmaPool.usbhAllocMem_some hs ha).2.1
  | free b => trivial

/-- Whatever the order of allocations and frees, live blocks do not overlap, the pool knows
their units and their number, and a block handed out was free. -/
theorem run_safe (es : List Event) :
    Always step Safe init es ∧ EachStep step AllocatesFree init es :=
  ⟨always_of_step (fun _ _ _ h he => step_safe h he) init_safe,
    eachStep_of_step (fun _ _ _ he => step_allocatesFree he)⟩

end DmaHeap

end Ma35d1.UsbHost
