import Mathlib.Tactic.Ring
import Ma35d1.Loader.Flash

/-!
# The walk over the blocks

After `m` pages the walk is `m` pages on: it counts pages and never asks which block they are in.
The blocks that are valid only count how often the pages of a block are read.
-/

namespace Ma35d1.Loader

namespace Chip

variable {c : Chip} {offset size loadAddr : BitVec 32} {mem : Nat → BitVec 8} {w : Walk}
  {m n fuel : Nat}

theorem roundUp_mul {n d : Nat} (hd : 0 < d) : n ≤ roundUp n d * d ∧ roundUp n d * d < n + d := by
  have hdiv := Nat.div_add_mod n d
  have hmod := Nat.mod_lt n hd
  rw [Nat.mul_comm] at hdiv
  unfold roundUp
  split
  · rw [Nat.add_one_mul]
    omega
  · omega

/-- `m` pages have been copied, one after the other. -/
structure Copied (c : Chip) (offset size loadAddr : BitVec 32) (mem : Nat → BitVec 8) (m : Nat)
    (w : Walk) : Prop where
  left : m + w.pageToDownload = c.pages size
  place : w.startPage = c.firstPage offset + m
  addr : w.addr = loadAddr + BitVec.ofNat 32 (m * c.pageSize)
  inside : ∀ a, loadAddr.toNat ≤ a → a < loadAddr.toNat + m * c.pageSize → w.mem a =
    c.data (c.firstPage offset + (a - loadAddr.toNat) / c.pageSize)
      ((a - loadAddr.toNat) % c.pageSize)
  outside : ∀ a, a < loadAddr.toNat ∨ loadAddr.toNat + m * c.pageSize ≤ a → w.mem a = mem a
  reads : ∀ k < m, c.firstPage offset + k ∈ w.reads

theorem copied_begin (c : Chip) (offset size loadAddr : BitVec 32) (mem : Nat → BitVec 8) :
    c.Copied offset size loadAddr mem 0 (c.begin offset size loadAddr mem) := by
  refine ⟨Nat.zero_add _, rfl, ?_, fun a hlo hhi => ?_, fun _ _ => rfl,
    fun k hk => absurd hk (Nat.not_lt_zero k)⟩
  · rw [Nat.zero_mul]
    exact (BitVec.add_zero loadAddr).symm
  · rw [Nat.zero_mul] at hhi
    omega

/-- The blocks are counted apart. -/
theorem Copied.visit (h : c.Copied offset size loadAddr mem m w) (block : Nat) (count : Int) :
    c.Copied offset size loadAddr mem m { w with startBlock := block, blockCount := count } :=
  ⟨h.left, h.place, h.addr, h.inside, h.outside, h.reads⟩

/-- One more page -/
theorem Copied.copy (h : c.Copied offset size loadAddr mem m w) (hps : 0 < c.pageSize)
    (hleft : w.pageToDownload ≠ 0) (hfits : loadAddr.toNat + size.toNat ≤ 2 ^ 32) :
    c.Copied offset size loadAddr mem (m + 1) (c.copy w) := by
  have hpages := (roundUp_mul (n := size.toNat) hps).2
  have hm : m + 1 ≤ c.pages size := by
    have := h.left
    omega
  have hsize : m * c.pageSize < size.toNat := by
    have hmul : (m + 1) * c.pageSize ≤ c.pages size * c.pageSize := Nat.mul_le_mul_right _ hm
    rw [Nat.add_one_mul] at hmul
    unfold pages at hmul
    omega
  have haddr : w.addr.toNat = loadAddr.toNat + m * c.pageSize := by
    rw [h.addr, BitVec.toNat_add, BitVec.toNat_ofNat, Nat.add_mod_mod]
    exact Nat.mod_eq_of_lt (by omega)
  have hstep : (m + 1) * c.pageSize = m * c.pageSize + c.pageSize := Nat.add_one_mul ..
  refine ⟨?_, ?_, ?_, fun a hlo hhi => ?_, fun a ha => ?_, fun k hk => ?_⟩
  · show m + 1 + (w.pageToDownload - 1) = _
    have := h.left
    omega
  · show w.startPage + 1 = _
    rw [h.place, Nat.add_assoc]
  · show w.addr + BitVec.ofNat 32 c.pageSize = _
    rw [h.addr, hstep, BitVec.ofNat_add, BitVec.add_assoc]
  · show (if w.addr.toNat ≤ a ∧ a < w.addr.toNat + c.pageSize then
      c.data w.startPage (a - w.addr.toNat) else w.mem a) = _
    rw [haddr]
    by_cases hin : loadAddr.toNat + m * c.pageSize ≤ a
    · -- the page that was just copied
      obtain ⟨r, hr⟩ : ∃ r, a = loadAddr.toNat + m * c.pageSize + r := Nat.exists_eq_add_of_le hin
      have hlt : r < c.pageSize := by omega
      have hoff : a - (loadAddr.toNat + m * c.pageSize) = r := by omega
      have hrest : a - loadAddr.toNat = c.pageSize * m + r := by
        rw [hr, Nat.mul_comm]
        omega
      rw [if_pos ⟨hin, by omega⟩, h.place, hoff, hrest, Nat.mul_add_mod_self_left,
        Nat.mod_eq_of_lt hlt, Nat.mul_add_div hps, Nat.div_eq_of_lt hlt, Nat.add_zero]
    · rw [if_neg fun h' => hin h'.1]
      exact h.inside a hlo (by omega)
  · show (if w.addr.toNat ≤ a ∧ a < w.addr.toNat + c.pageSize then
      c.data w.startPage (a - w.addr.toNat) else w.mem a) = _
    rw [haddr, if_neg (by omega)]
    exact h.outside a (by omega)
  · show _ ∈ w.reads ++ [w.startPage]
    rcases Nat.lt_succ_iff_lt_or_eq.mp hk with hk | rfl
    · exact List.mem_append_left _ (h.reads k hk)
    · exact List.mem_append_right _ (List.mem_singleton.mpr h.place.symm)

/-- The pages of a block leave the blocks as they are. -/
theorem pageLoop_blocks (n : Nat) (w : Walk) :
    (c.pageLoop n w).1.blockCount = w.blockCount ∧
      (c.pageLoop n w).1.startBlock = w.startBlock := by
  induction n generalizing w with
  | zero => exact ⟨rfl, rfl⟩
  | succ n ih =>
    rw [pageLoop]
    split
    · exact ⟨rfl, rfl⟩
    split
    · exact ⟨rfl, rfl⟩
    · exact ih (c.copy w)

/-- What the pages of a block leave -/
structure BlockRead (c : Chip) (offset size loadAddr : BitVec 32) (mem : Nat → BitVec 8)
    (m : Nat) (w t : Walk) (failed : Bool) : Prop where
  copied : ∃ m', c.Copied offset size loadAddr mem m' t ∧ m ≤ m' ∧
    (t.page = 0 ∧ m' + w.page = m + c.pagePerBlock ∨
      m' + w.page = m + t.page ∧ t.page < c.pagePerBlock ∧
        (failed = false → t.pageToDownload = 0)) ∧
    (failed = true → m' < c.pages size ∧ c.fails (c.firstPage offset + m') = true)
  within : ∀ p ∈ t.reads, p ∈ w.reads ∨ c.firstPage offset + m ≤ p ∧ p < c.firstPage offset +
    c.pages size

theorem pageLoop_read (hps : 0 < c.pageSize) (hfits : loadAddr.toNat + size.toNat ≤ 2 ^ 32)
    (h : c.Copied offset size loadAddr mem m w) (hpage : w.page < c.pagePerBlock)
    (hn : w.pageToDownload = n) : BlockRead c offset size loadAddr mem m w (c.pageLoop n w).1
      (c.pageLoop n w).2 := by
  induction n generalizing m w with
  | zero =>
    exact ⟨⟨m, h, Nat.le_refl _, .inr ⟨rfl, hpage, fun _ => hn⟩, fun hf => Bool.noConfusion hf⟩,
      fun p hp => .inl hp⟩
  | succ n ih =>
    have hlt : m < c.pages size := by
      have := h.left
      omega
    rw [pageLoop]
    by_cases hfail : c.fails w.startPage = true
    · rw [if_pos hfail]
      refine ⟨⟨m, ⟨h.left, h.place, h.addr, h.inside, h.outside,
        fun k hk => List.mem_append_left _ (h.reads k hk)⟩, Nat.le_refl _,
        .inr ⟨rfl, hpage, fun hf => Bool.noConfusion hf⟩, fun _ => ⟨hlt, h.place ▸ hfail⟩⟩,
        fun p hp => ?_⟩
      rcases List.mem_append.mp hp with hp | hp
      · exact .inl hp
      · rw [List.mem_singleton.mp hp, h.place]
        exact .inr ⟨Nat.le_refl _, by omega⟩
    rw [if_neg hfail]
    have hcopy := h.copy hps (by omega) hfits
    have hreads : ∀ p ∈ (c.copy w).reads, p ∈ w.reads ∨ c.firstPage offset + m ≤ p ∧
        p < c.firstPage offset + c.pages size := fun p hp => by
      rcases List.mem_append.mp hp with hp | hp
      · exact .inl hp
      · rw [List.mem_singleton.mp hp, h.place]
        exact .inr ⟨Nat.le_refl _, by omega⟩
    by_cases hfull : c.pagePerBlock ≤ w.page + 1
    · rw [if_pos hfull]
      refine ⟨⟨m + 1, ⟨hcopy.left, hcopy.place, hcopy.addr, hcopy.inside, hcopy.outside,
        hcopy.reads⟩, Nat.le_succ m, .inl ⟨rfl, by omega⟩, fun hf => Bool.noConfusion hf⟩, hreads⟩
    · rw [if_neg hfull]
      have hn' : (c.copy w).pageToDownload = n := by
        show w.pageToDownload - 1 = n
        omega
      obtain ⟨⟨m', hcopied, hle, hpages, hf⟩, hwithin⟩ :=
        ih hcopy (Nat.not_le.mp hfull) hn'
      have hpage' : (c.copy w).page = w.page + 1 := rfl
      rw [hpage'] at hpages
      refine ⟨⟨m', hcopied, by omega, ?_, hf⟩, fun p hp => ?_⟩
      · rcases hpages with ⟨h0, hm⟩ | ⟨hm, hrest⟩
        · exact .inl ⟨h0, by omega⟩
        · exact .inr ⟨by omega, hrest⟩
      · rcases hwithin p hp with hp | ⟨hlo, hhi⟩
        · exact hreads p hp
        · exact .inr ⟨by omega, hhi⟩

end Chip

end Ma35d1.Loader
