import Ma35d1.UsbHost.DmaBlocks

/-!
# What the search of the DMA pool finds

`usbh_alloc_mem` ends its loop where a block would still have to begin, not where it would have to
end, so that it does not come to the last units of the pool.
-/

namespace Ma35d1.UsbHost.DmaPool

variable {p : DmaPool} {size w n i start found a b : Nat}

/-- The `w` units from `a` on are free. -/
def FreeRun (p : DmaPool) (w a : Nat) : Prop := ∀ u, a ≤ u → u < a + w → p.used u = false

/-- Some `w` units of the pool next to each other are free. -/
def HasRun (p : DmaPool) (w : Nat) : Prop := ∃ a, a + w ≤ dmaMemUnitNum ∧ p.FreeRun w a

theorem FreeRun.extend (h : p.FreeRun n a) (hu : p.used (a + n) = false) : p.FreeRun (n + 1) a := by
  intro u hau hun
  by_cases hlast : u = a + n
  · rw [hlast]
    exact hu
  · exact h u hau (by omega)

/-- With `found` free units before `i`, the loop fails if no run of free units that begins with them
or later ends within its bound. -/
theorem scan_lt_iff (hf : found < w) (hi : found ≤ i) (hfree : p.FreeRun found (i - found)) :
    (p.scan w n i start found).2 < w ↔
      ∀ a, i - found ≤ a → a + w ≤ i + n → ¬ p.FreeRun w a := by
  induction n generalizing i start found with
  | zero => exact ⟨fun _ a ha haw => by omega, fun _ => hf⟩
  | succ n ih =>
    rw [scan]
    by_cases hu : p.used i = false
    · have hmore : p.FreeRun (found + 1) (i - found) :=
        hfree.extend (by rw [show i - found + found = i by omega]; exact hu)
      rw [if_pos hu]
      by_cases hend : w ≤ found + 1
      · have hw : w = found + 1 := by omega
        simp only [if_pos hend]
        refine iff_of_false (by omega) fun hno => hno (i - found) (Nat.le_refl _) (by omega) ?_
        rw [hw]
        exact hmore
      · have hback : i + 1 - (found + 1) = i - found := by omega
        have hrest : (p.scan w n (i + 1) (if found = 0 then i else start) (found + 1)).2 < w ↔ _ :=
          ih (by omega) (by omega) (by rw [hback]; exact hmore)
        simp only [if_neg hend]
        rw [hrest, hback, show i + 1 + n = i + (n + 1) by omega]
    · have hrest : (p.scan w n (i + 1) start 0).2 < w ↔ _ :=
        ih (by omega) (Nat.zero_le _) fun u hu₁ hu₂ => by omega
      rw [if_neg hu, hrest]
      constructor
      · intro hno a ha haw hrun
        by_cases hai : i < a
        · exact hno a (by omega) (by omega) hrun
        · exact hu (hrun i (by omega) (by omega))
      · exact fun hno a ha haw => hno a (by omega) (by omega)

/-- It returns `NULL` if no run of free units ends before the last `wanted - 1` units. -/
theorem usbhAllocMem_eq_none_iff (hs : 0 < size) : p.usbhAllocMem size = none ↔
    ∀ a, a + wanted size ≤ dmaMemUnitNum + 1 - wanted size → ¬ p.FreeRun (wanted size) a := by
  have hscan : (p.scan (wanted size) (dmaMemUnitNum + 1 - wanted size) 0 0 0).2 < _ ↔ _ :=
    scan_lt_iff (wanted_pos hs) (Nat.le_refl 0) fun u hu₁ hu₂ => by omega
  unfold usbhAllocMem
  dsimp only
  split
  · rename_i hlt
    exact iff_of_true rfl fun a ha => hscan.mp hlt a (Nat.zero_le _) (by omega)
  · rename_i hlt
    refine iff_of_false (fun hn => by cases hn) fun hno => hlt (hscan.mpr fun a _ ha => ?_)
    exact hno a (by omega)

/-- **Completeness of the DMA pool.** `NULL` means that no run of free units is long enough exactly
if, where there is one, one ends before the last `wanted - 1` units. -/
theorem usbhAllocMem_complete_iff (p : DmaPool) (size : Nat) (hs : 0 < size) :
    (p.usbhAllocMem size = none → ¬ p.HasRun (wanted size)) ↔
      (p.HasRun (wanted size) →
        ∃ a, a + wanted size ≤ dmaMemUnitNum + 1 - wanted size ∧ p.FreeRun (wanted size) a) := by
  rw [usbhAllocMem_eq_none_iff hs]
  constructor
  · intro hnone hrun
    by_contra hno
    exact hnone (fun a ha hfree => hno ⟨a, ha, hfree⟩) hrun
  · rintro hearly hno hrun
    obtain ⟨a, ha, hfree⟩ := hearly hrun
    exact hno a ha hfree

/-- A single unit is found wherever it is, and so in a new pool. -/
theorem usbhAllocMem_complete_iff_unit : (DmaHeap.init.pool.usbhAllocMem 1024).isSome := by
  rw [Option.isSome_iff_ne_none]
  intro hnone
  have hrun : DmaHeap.init.pool.HasRun (wanted 1024) := ⟨0, by decide, fun _ _ _ => rfl⟩
  exact (usbhAllocMem_complete_iff DmaHeap.init.pool 1024 (by decide)).mpr id hnone hrun

/-- After the initialisation all 128 units are free, and 65 of them are not found. -/
theorem not_usbhAllocMem_complete_empty : DmaHeap.init.pool.usbhAllocMem (65 * 1024) = none ∧
    DmaHeap.init.pool.HasRun (wanted (65 * 1024)) :=
  ⟨by decide, 0, by decide, fun _ _ _ => rfl⟩

end Ma35d1.UsbHost.DmaPool
