import Ma35d1.Loader.Walk

/-!
# The visits of the good blocks

The loop over the blocks ends after as many good blocks as were counted, and each of them lets the
walk go on by a block's pages at most.
-/

namespace Ma35d1.Loader

namespace Chip

variable {c : Chip} {offset size loadAddr : BitVec 32} {mem : Nat → BitVec 8} {w t : Walk}
  {m v fuel : Nat}

/-- The loop ends if there are enough good blocks: `g` lists them. -/
theorem blockLoop_ends (g : Nat → Nat) (n top : Nat) (hg : ∀ j < n, c.valid (g j) = true)
    (hmono : ∀ j, j + 1 < n → g j < g (j + 1)) (htop : ∀ j < n, g j ≤ top) (hv : v < n)
    (hcount : w.blockCount ≤ (n : Int) - v) (hblock : w.startBlock ≤ g v) :
    ∃ fuel t, c.blockLoop fuel w = some t := by
  induction hd : top + 1 - w.startBlock generalizing v w with
  | zero =>
    have := htop v hv
    omega
  | succ d ih =>
    have hframe := c.pageLoop_blocks w.pageToDownload w
    by_cases hvalid : c.valid w.startBlock = true
    · by_cases hab : (c.pageLoop w.pageToDownload w).2 = true ∧ c.aborts = true
      · exact ⟨1, _, (if_pos hvalid).trans (if_pos hab)⟩
      by_cases hend : (afterBlock (c.pageLoop w.pageToDownload w).1).blockCount ≤ 0
      · exact ⟨1, _, (if_pos hvalid).trans ((if_neg hab).trans (if_pos hend))⟩
      -- one good block less to visit, and the next one is further on
      have hleft : ¬ w.blockCount - 1 ≤ 0 := hframe.1 ▸ hend
      have hv' : v + 1 < n := by omega
      have hnext := hmono v hv'
      obtain ⟨fuel, t, ht⟩ := ih (w := { afterBlock (c.pageLoop w.pageToDownload w).1 with
          startBlock := w.startBlock + 1 }) hv'
        (by
          show (c.pageLoop w.pageToDownload w).1.blockCount - 1 ≤ _
          rw [hframe.1]
          omega)
        (by
          show w.startBlock + 1 ≤ _
          omega)
        (by
          show top + 1 - (w.startBlock + 1) = d
          omega)
      exact ⟨fuel + 1, t, (if_pos hvalid).trans ((if_neg hab).trans ((if_neg hend).trans ht))⟩
    · have hne : w.startBlock ≠ g v := fun h => hvalid (h ▸ hg v hv)
      obtain ⟨fuel, t, ht⟩ := ih (w := { w with startBlock := w.startBlock + 1 }) hv hcount
        (by
          show w.startBlock + 1 ≤ _
          omega)
        (by
          show top + 1 - (w.startBlock + 1) = d
          omega)
      exact ⟨fuel + 1, t, (if_neg hvalid).trans ht⟩

/-- It ends at a good block only. -/
theorem valid_of_blockLoop (h : c.blockLoop fuel w = some t) :
    ∃ block, w.startBlock ≤ block ∧ c.valid block = true := by
  induction fuel generalizing w with
  | zero => exact Option.noConfusion rfl (heq_of_eq h)
  | succ fuel ih =>
    rw [blockLoop] at h
    by_cases hvalid : c.valid w.startBlock = true
    · exact ⟨_, Nat.le_refl _, hvalid⟩
    · rw [if_neg hvalid] at h
      obtain ⟨block, hle, hblock⟩ := ih h
      exact ⟨block, Nat.le_of_succ_le hle, hblock⟩

/-- With no page to read nothing is read. -/
theorem blockLoop_none (h0 : w.pageToDownload = 0) (h : c.blockLoop fuel w = some t) :
    t.mem = w.mem ∧ t.reads = w.reads := by
  induction fuel generalizing w with
  | zero => exact Option.noConfusion rfl (heq_of_eq h)
  | succ fuel ih =>
    have hloop : c.pageLoop w.pageToDownload w = (w, false) := by
      rw [h0]
      rfl
    rw [blockLoop, hloop] at h
    by_cases hvalid : c.valid w.startBlock = true
    · rw [if_pos hvalid, if_neg fun hab => Bool.noConfusion hab.1] at h
      by_cases hend : (afterBlock w).blockCount ≤ 0
      · rw [if_pos hend] at h
        obtain rfl := Option.some.inj h
        exact ⟨rfl, rfl⟩
      · rw [if_neg hend] at h
        exact ih (w := { afterBlock w with startBlock := w.startBlock + 1 }) h0 h
    · rw [if_neg hvalid] at h
      exact ih (w := { w with startBlock := w.startBlock + 1 }) h0 h

/-- Each visit of a good block reads no more pages than a block has. -/
theorem blockLoop_read (hps : 0 < c.pageSize) (hfits : loadAddr.toNat + size.toNat ≤ 2 ^ 32)
    (hw : c.Copied offset size loadAddr mem m w) (hpage : w.page < c.pagePerBlock)
    (hv : v < c.blocks size) (hcount : w.blockCount = (c.blocks size : Int) - v)
    (hm : m + c.firstPage offset % c.pagePerBlock ≤ v * c.pagePerBlock + w.page)
    (h : c.blockLoop fuel w = some t) : ∃ m, c.Copied offset size loadAddr mem m t ∧
      m + c.firstPage offset % c.pagePerBlock ≤ c.blocks size * c.pagePerBlock := by
  induction fuel generalizing m v w with
  | zero => exact Option.noConfusion rfl (heq_of_eq h)
  | succ fuel ih =>
    rw [blockLoop] at h
    by_cases hvalid : c.valid w.startBlock = true
    · rw [if_pos hvalid] at h
      obtain ⟨⟨m', hc, -, hpages, -⟩, -⟩ := pageLoop_read hps hfits hw hpage rfl
      have hframe := c.pageLoop_blocks w.pageToDownload w
      have hstep : (v + 1) * c.pagePerBlock = v * c.pagePerBlock + c.pagePerBlock :=
        Nat.add_one_mul ..
      have hle : (v + 1) * c.pagePerBlock ≤ c.blocks size * c.pagePerBlock :=
        Nat.mul_le_mul_right _ hv
      have hm' : m' + c.firstPage offset % c.pagePerBlock ≤ (v + 1) * c.pagePerBlock := by
        omega
      by_cases hab : (c.pageLoop w.pageToDownload w).2 = true ∧ c.aborts = true
      · rw [if_pos hab] at h
        obtain rfl := Option.some.inj h
        exact ⟨m', hc, hm'.trans hle⟩
      rw [if_neg hab] at h
      by_cases hend : (afterBlock (c.pageLoop w.pageToDownload w).1).blockCount ≤ 0
      · rw [if_pos hend] at h
        obtain rfl := Option.some.inj h
        exact ⟨m', hc.visit _ _, hm'.trans hle⟩
      · rw [if_neg hend] at h
        have hleft : ¬ w.blockCount - 1 ≤ 0 := hframe.1 ▸ hend
        refine ih (v := v + 1) (hc.visit (w.startBlock + 1)
          ((c.pageLoop w.pageToDownload w).1.blockCount - 1)) ?_ (by omega) ?_ ?_ h
        · show (c.pageLoop w.pageToDownload w).1.page < _
          omega
        · show (c.pageLoop w.pageToDownload w).1.blockCount - 1 = _
          rw [hframe.1]
          omega
        · show _ ≤ _ + (c.pageLoop w.pageToDownload w).1.page
          omega
    · rw [if_neg hvalid] at h
      exact ih (hw.visit (w.startBlock + 1) w.blockCount) hpage hv hcount hm h

/-- The block of a visit begins before the end of the application. -/
theorem visit_lt (hblocks : c.blocks size * c.pagePerBlock < c.pages size + c.pagePerBlock)
    (hv : v < c.blocks size) : (c.firstBlock offset + v) * c.pagePerBlock <
      c.firstPage offset + c.pages size := by
  have hle : (v + 1) * c.pagePerBlock ≤ c.blocks size * c.pagePerBlock :=
    Nat.mul_le_mul_right _ hv
  have hfirst : c.firstBlock offset * c.pagePerBlock ≤ c.firstPage offset := Nat.div_mul_le_self ..
  rw [Nat.add_one_mul] at hle
  rw [Nat.add_mul]
  omega

/-- Where no page fails, a good block is read to its end or to the end of the application. -/
theorem pageLoop_whole (hps : 0 < c.pageSize) (hfits : loadAddr.toNat + size.toNat ≤ 2 ^ 32)
    (hfails : ∀ k < c.pages size, c.fails (c.firstPage offset + k) = false)
    (hw : c.Copied offset size loadAddr mem m w) (hpage : w.page < c.pagePerBlock)
    (hm : m + c.firstPage offset % c.pagePerBlock = v * c.pagePerBlock + w.page)
    (hreads : ∀ p ∈ w.reads, c.firstPage offset ≤ p ∧ p < c.firstPage offset + c.pages size) :
    (c.pageLoop w.pageToDownload w).2 = false ∧
      (∃ m', c.Copied offset size loadAddr mem m' (c.pageLoop w.pageToDownload w).1 ∧
        ((c.pageLoop w.pageToDownload w).1.page = 0 ∧
            m' + c.firstPage offset % c.pagePerBlock = (v + 1) * c.pagePerBlock ∨
          m' = c.pages size ∧
            m' + c.firstPage offset % c.pagePerBlock < (v + 1) * c.pagePerBlock)) ∧
      ∀ p ∈ (c.pageLoop w.pageToDownload w).1.reads,
        c.firstPage offset ≤ p ∧ p < c.firstPage offset + c.pages size := by
  obtain ⟨⟨m', hc, -, hpages, hf⟩, hwithin⟩ := pageLoop_read hps hfits hw hpage rfl
  have hnf : (c.pageLoop w.pageToDownload w).2 = false := by
    by_contra hne
    obtain ⟨hlt, hfail⟩ := hf (Bool.eq_true_of_not_eq_false hne)
    rw [hfails m' hlt] at hfail
    exact Bool.noConfusion hfail
  have hstep : (v + 1) * c.pagePerBlock = v * c.pagePerBlock + c.pagePerBlock :=
    Nat.add_one_mul ..
  refine ⟨hnf, ⟨m', hc, ?_⟩, fun p hp => ?_⟩
  · rcases hpages with ⟨h0, hm'⟩ | ⟨hm', hlt, hdone⟩
    · exact .inl ⟨h0, by omega⟩
    · have hleft := hc.left
      have hzero := hdone hnf
      exact .inr ⟨by omega, by omega⟩
  · rcases hwithin p hp with hp | ⟨hlo, hhi⟩
    · exact hreads p hp
    · exact ⟨by omega, hhi⟩

/-- Where no block is bad and no page fails, all pages are read. -/
theorem blockLoop_whole (fuel : Nat) (hps : 0 < c.pageSize) (hppb : 0 < c.pagePerBlock)
    (hfits : loadAddr.toNat + size.toNat ≤ 2 ^ 32)
    (hvalid : ∀ block, c.firstBlock offset ≤ block →
      block * c.pagePerBlock < c.firstPage offset + c.pages size → c.valid block = true)
    (hfails : ∀ k < c.pages size, c.fails (c.firstPage offset + k) = false)
    (hroom : c.firstPage offset % c.pagePerBlock + c.pages size ≤ c.blocks size * c.pagePerBlock)
    (hw : c.Copied offset size loadAddr mem m w) (hpage : w.page < c.pagePerBlock)
    (hcount : w.blockCount = (c.blocks size : Int) - v)
    (hblock : w.startBlock = c.firstBlock offset + v) (hv : v + fuel + 1 = c.blocks size)
    (hm : m + c.firstPage offset % c.pagePerBlock = v * c.pagePerBlock + w.page)
    (hreads : ∀ p ∈ w.reads, c.firstPage offset ≤ p ∧ p < c.firstPage offset + c.pages size) :
    ∃ t, c.blockLoop (fuel + 1) w = some t ∧
      c.Copied offset size loadAddr mem (c.pages size) t ∧
      ∀ p ∈ t.reads, c.firstPage offset ≤ p ∧ p < c.firstPage offset + c.pages size := by
  have hblocks : c.blocks size * c.pagePerBlock < c.pages size + c.pagePerBlock :=
    (roundUp_mul hppb).2
  induction fuel generalizing m v w with
  | zero =>
    obtain ⟨hnf, ⟨m', hc, hm'⟩, hreads'⟩ := pageLoop_whole hps hfits hfails hw hpage hm hreads
    have hgood : c.valid w.startBlock = true :=
      hblock ▸ hvalid _ (Nat.le_add_right _ _) (visit_lt hblocks (by omega))
    have hall : m' = c.pages size := by
      rcases hm' with ⟨-, hm'⟩ | ⟨hm', -⟩
      · have hleft := hc.left
        have hlast : c.blocks size = v + 1 := hv.symm
        rw [hlast] at hroom
        omega
      · exact hm'
    have hend : (afterBlock (c.pageLoop w.pageToDownload w).1).blockCount ≤ 0 := by
      show (c.pageLoop w.pageToDownload w).1.blockCount - 1 ≤ 0
      rw [(c.pageLoop_blocks _ w).1]
      omega
    refine ⟨_, (if_pos hgood).trans ((if_neg ?_).trans (if_pos hend)), hall ▸ hc.visit _ _,
      hreads'⟩
    exact fun hab => Bool.noConfusion (hnf.symm.trans hab.1)
  | succ fuel ih =>
    obtain ⟨hnf, ⟨m', hc, hm'⟩, hreads'⟩ := pageLoop_whole hps hfits hfails hw hpage hm hreads
    have hgood : c.valid w.startBlock = true :=
      hblock ▸ hvalid _ (Nat.le_add_right _ _) (visit_lt hblocks (by omega))
    -- the application does not end before the last of its blocks
    obtain ⟨h0, hm'⟩ : (c.pageLoop w.pageToDownload w).1.page = 0 ∧
        m' + c.firstPage offset % c.pagePerBlock = (v + 1) * c.pagePerBlock := by
      rcases hm' with hm' | ⟨hall, hm'⟩
      · exact hm'
      · have hle : (v + 1 + 1) * c.pagePerBlock ≤ c.blocks size * c.pagePerBlock :=
          Nat.mul_le_mul_right _ (by omega)
        rw [Nat.add_one_mul] at hle
        omega
    have hend : ¬ (afterBlock (c.pageLoop w.pageToDownload w).1).blockCount ≤ 0 := by
      show ¬ (c.pageLoop w.pageToDownload w).1.blockCount - 1 ≤ 0
      rw [(c.pageLoop_blocks _ w).1]
      omega
    obtain ⟨t, ht, hdone⟩ := ih (v := v + 1) (hc.visit (w.startBlock + 1)
      ((c.pageLoop w.pageToDownload w).1.blockCount - 1))
      (by
        show (c.pageLoop w.pageToDownload w).1.page < _
        omega)
      (by
        show (c.pageLoop w.pageToDownload w).1.blockCount - 1 = _
        rw [(c.pageLoop_blocks _ w).1]
        omega)
      (by
        show w.startBlock + 1 = _
        omega)
      (by omega)
      (by
        show _ = _ + (c.pageLoop w.pageToDownload w).1.page
        omega) hreads'
    refine ⟨t, (if_pos hgood).trans ((if_neg ?_).trans ((if_neg hend).trans ht)), hdone⟩
    exact fun hab => Bool.noConfusion (hnf.symm.trans hab.1)

end Chip

end Ma35d1.Loader
