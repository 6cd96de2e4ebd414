import Ma35d1.Loader.Blocks

/-!
# Booting the whole application

The walk is right exactly on the applications that a page counter finds: no bad block from the first
one to the last, and as many pages in them as the blocks that were counted.
-/

namespace Ma35d1.Loader

/-- An application in the good blocks of a chip, page after page from the block of its offset on:
its page `k` is in page `place k`, and no good page between them is left out. -/
structure Image (c : Chip) where
  offset : BitVec 32
  size : BitVec 32
  loadAddr : BitVec 32
  place : Nat → Nat
  aligned : offset.toNat % c.pageSize = 0
  fits : loadAddr.toNat + size.toNat ≤ 2 ^ 32
  good : ∀ k < c.pages size, c.valid (place k / c.pagePerBlock) = true
  starts : ∀ k < c.pages size, c.firstPage offset ≤ place k
  mono : ∀ j k, j < k → k < c.pages size → place j < place k
  whole : ∀ p, c.firstPage offset ≤ p → c.valid (p / c.pagePerBlock) = true →
    (∃ k < c.pages size, place k = p) ∨ ∀ k < c.pages size, place k < p

/-- The application is loaded whole, or is not started. -/
structure BootsWhole (c : Chip) (readable : Nat → Prop) (i : Image c) : Prop where
  loads : (∀ k < c.pages i.size, readable (i.place k)) → ∀ mem, ∃ fuel b,
    main c fuel i.offset i.size i.loadAddr mem = some b ∧ b.started = true ∧
    (∀ k < i.size.toNat, b.mem (i.loadAddr.toNat + k) =
      c.data (i.place (k / c.pageSize)) (k % c.pageSize)) ∧
    (∀ a, a < i.loadAddr.toNat ∨ i.loadAddr.toNat + c.pages i.size * c.pageSize ≤ a →
      b.mem a = mem a) ∧
    ∀ p ∈ b.reads, c.valid (p / c.pagePerBlock) = true
  fails : ∀ k < c.pages i.size, ¬ readable (i.place k) → ∀ mem fuel b,
    main c fuel i.offset i.size i.loadAddr mem = some b → b.started = false

/-- An application of no pages needs one good block to stop at. Another one has all its pages one
after the other, in good blocks, no more of them than its size needs from a block's first page on;
the chip comes back from its reset, and every page can be read. -/
def BootsWhen (c : Chip) (readable : Nat → Prop) (i : Image c) : Prop :=
  if c.pages i.size = 0 then
    c.ready = true → ∃ block, c.firstBlock i.offset ≤ block ∧ c.valid block = true
  else c.ready = true ∧
    c.firstPage i.offset % c.pagePerBlock + c.pages i.size ≤ c.blocks i.size * c.pagePerBlock ∧
    (∀ block, c.firstBlock i.offset ≤ block →
      block * c.pagePerBlock < c.firstPage i.offset + c.pages i.size → c.valid block = true) ∧
    ∀ k < c.pages i.size, readable (i.place k)

namespace Image

variable {c : Chip} (i : Image c) {k : Nat}

theorem add_le_place (hk : k < c.pages i.size) : c.firstPage i.offset + k ≤ i.place k := by
  induction k with
  | zero => exact i.starts 0 hk
  | succ k ih =>
    have hle := ih (Nat.lt_of_succ_lt hk)
    have hlt := i.mono k (k + 1) (Nat.lt_succ_self k) hk
    omega

/-- Where no block is bad, the pages are one after the other. -/
theorem place_eq (hvalid : ∀ block, c.firstBlock i.offset ≤ block →
      block * c.pagePerBlock < c.firstPage i.offset + c.pages i.size → c.valid block = true)
    (hk : k < c.pages i.size) : i.place k = c.firstPage i.offset + k := by
  induction k using Nat.strong_induction_on with
  | _ k ih =>
    have hgood : c.valid ((c.firstPage i.offset + k) / c.pagePerBlock) = true := by
      refine hvalid _ (Nat.div_le_div_right (Nat.le_add_right _ _)) ?_
      have := Nat.div_mul_le_self (c.firstPage i.offset + k) c.pagePerBlock
      omega
    rcases i.whole _ (Nat.le_add_right _ _) hgood with ⟨j, hj, hplace⟩ | hbefore
    · have hle := i.add_le_place hj
      rcases Nat.lt_or_eq_of_le (show j ≤ k by omega) with hlt | rfl
      · have := ih j hlt hj
        omega
      · exact hplace
    · have hle := i.add_le_place hk
      have hlt := hbefore k hk
      omega

/-- The good blocks in which the application is: one for each block that is counted -/
theorem exists_blocks (hppb : 0 < c.pagePerBlock) (hpages : 0 < c.pages i.size)
    (mem : Nat → BitVec 8) : ∃ fuel t,
      c.blockLoop fuel (c.begin i.offset i.size i.loadAddr mem) = some t := by
  have hblocks : c.blocks i.size * c.pagePerBlock < c.pages i.size + c.pagePerBlock :=
    (Chip.roundUp_mul hppb).2
  have hcover : c.pages i.size ≤ c.blocks i.size * c.pagePerBlock := (Chip.roundUp_mul hppb).1
  have hlt : ∀ j < c.blocks i.size, j * c.pagePerBlock < c.pages i.size := fun j hj => by
    have hle : (j + 1) * c.pagePerBlock ≤ c.blocks i.size * c.pagePerBlock :=
      Nat.mul_le_mul_right _ hj
    rw [Nat.add_one_mul] at hle
    omega
  have hpos : 0 < c.blocks i.size := by
    by_contra hzero
    rw [Nat.eq_zero_of_not_pos hzero, Nat.zero_mul] at hcover
    omega
  have hadd : ∀ j k, j + k < c.pages i.size → i.place j + k ≤ i.place (j + k) := fun j k => by
    induction k with
    | zero => exact fun _ => Nat.le_refl _
    | succ k ih =>
      intro hk
      have hle := ih (Nat.lt_of_succ_lt hk)
      have := i.mono (j + k) (j + (k + 1)) (Nat.lt_succ_self _) hk
      omega
  refine Chip.blockLoop_ends (v := 0) (fun j => i.place (j * c.pagePerBlock) / c.pagePerBlock) _
    (i.place (c.pages i.size - 1) / c.pagePerBlock)
    (fun j hj => i.good _ (hlt j hj)) (fun j hj => ?_) (fun j hj => ?_) hpos
    (Int.le_of_eq (Int.sub_zero _).symm) ?_
  · -- a block's pages further on is another block
    have hnext := hlt (j + 1) hj
    rw [Nat.add_one_mul] at hnext
    have hle := hadd _ _ hnext
    calc i.place (j * c.pagePerBlock) / c.pagePerBlock
        < i.place (j * c.pagePerBlock) / c.pagePerBlock + 1 := Nat.lt_succ_self _
      _ = (i.place (j * c.pagePerBlock) + c.pagePerBlock) / c.pagePerBlock :=
        (Nat.add_div_right _ hppb).symm
      _ ≤ i.place ((j + 1) * c.pagePerBlock) / c.pagePerBlock := by
        rw [Nat.add_one_mul]
        exact Nat.div_le_div_right hle
  · have hj' := hlt j hj
    have hle := hadd (j * c.pagePerBlock) (c.pages i.size - 1 - j * c.pagePerBlock) (by omega)
    rw [show j * c.pagePerBlock + (c.pages i.size - 1 - j * c.pagePerBlock) =
      c.pages i.size - 1 by omega] at hle
    exact Nat.div_le_div_right (by omega)
  · show c.firstBlock i.offset ≤ i.place (0 * c.pagePerBlock) / c.pagePerBlock
    rw [Nat.zero_mul]
    exact Nat.div_le_div_right (i.starts 0 hpages)

end Image

section

variable {c : Chip} {readable : Nat → Prop} {i : Image c}

/-- An application of no pages -/
theorem bootsWhole_zero (hps : 0 < c.pageSize) (hpages : c.pages i.size = 0) :
    BootsWhole c readable i ↔
      (c.ready = true → ∃ block, c.firstBlock i.offset ≤ block ∧ c.valid block = true) := by
  constructor
  · intro h hready
    obtain ⟨fuel, b, hb, -⟩ := h.loads (fun k hk => by omega) fun _ => 0
    obtain ⟨t, ht, -⟩ := Option.map_eq_some_iff.mp hb
    exact Chip.valid_of_blockLoop ((if_pos hready).symm.trans ht)
  · intro h
    refine ⟨fun _ mem => ?_, fun k hk => by omega⟩
    obtain ⟨fuel, t, ht, hmem, hreads⟩ : ∃ fuel t,
        c.load fuel i.offset i.size i.loadAddr mem = some t ∧ t.mem = mem ∧ t.reads = [] := by
      by_cases hready : c.ready = true
      · obtain ⟨block, hle, hblock⟩ := h hready
        obtain ⟨fuel, t, ht⟩ := Chip.blockLoop_ends (v := 0)
          (w := c.begin i.offset i.size i.loadAddr mem) (fun _ => block) 1 block (fun _ _ => hblock)
          (fun j hj => by omega) (fun _ _ => Nat.le_refl _) Nat.one_pos (by
            show ((Chip.roundUp (c.pages i.size) c.pagePerBlock : Nat) : Int) ≤ _
            rw [hpages, Chip.roundUp, Nat.zero_mod, if_neg (fun h => h rfl), Nat.zero_div]
            omega) hle
        exact ⟨fuel, t, (if_pos hready).trans ht, Chip.blockLoop_none hpages ht⟩
      · exact ⟨0, _, if_neg hready, rfl, rfl⟩
    refine ⟨fuel, ⟨t.mem, t.reads, true⟩, Option.map_eq_some_iff.mpr ⟨t, ht, rfl⟩, rfl,
      fun k hk => ?_, fun a _ => congrFun hmem a, fun p hp => ?_⟩
    · have hsize : i.size.toNat ≤ c.pages i.size * c.pageSize := (Chip.roundUp_mul hps).1
      rw [hpages, Nat.zero_mul] at hsize
      omega
    · exact absurd (hreads ▸ hp) List.not_mem_nil

/-- The run of a loader that ends: how many pages it has copied -/
theorem Chip.load_read {fuel : Nat} {mem : Nat → BitVec 8} {t : Walk} (hps : 0 < c.pageSize)
    (hppb : 0 < c.pagePerBlock) (hpages : 0 < c.pages i.size)
    (h : c.load fuel i.offset i.size i.loadAddr mem = some t) :
    ∃ m, c.Copied i.offset i.size i.loadAddr mem m t ∧
      (m = 0 ∨ c.ready = true ∧
        m + c.firstPage i.offset % c.pagePerBlock ≤ c.blocks i.size * c.pagePerBlock) := by
  by_cases hready : c.ready = true
  · have hcover : c.pages i.size ≤ c.blocks i.size * c.pagePerBlock := (Chip.roundUp_mul hppb).1
    have hpos : 0 < c.blocks i.size := by
      by_contra hzero
      rw [Nat.eq_zero_of_not_pos hzero, Nat.zero_mul] at hcover
      omega
    obtain ⟨m, hm, hle⟩ := Chip.blockLoop_read (v := 0) hps i.fits
      (c.copied_begin _ _ _ mem) (Nat.mod_lt _ hppb) hpos
      (Int.sub_zero _).symm (by
        show 0 + _ ≤ 0 * _ + c.firstPage i.offset % c.pagePerBlock
        omega) ((if_pos hready).symm.trans h)
    exact ⟨m, hm, .inr ⟨hready, hle⟩⟩
  · obtain rfl := Option.some.inj ((if_neg hready).symm.trans h)
    exact ⟨0, c.copied_begin _ _ _ mem, .inl rfl⟩

/-- An application of some pages is loaded whole only if all its pages are read. -/
theorem BootsWhole.when (hps : 0 < c.pageSize) (hppb : 0 < c.pagePerBlock)
    (hpages : 0 < c.pages i.size) (h : BootsWhole c readable i) : c.ready = true ∧
    c.firstPage i.offset % c.pagePerBlock + c.pages i.size ≤ c.blocks i.size * c.pagePerBlock ∧
    (∀ block, c.firstBlock i.offset ≤ block →
      block * c.pagePerBlock < c.firstPage i.offset + c.pages i.size → c.valid block = true) ∧
    ∀ k < c.pages i.size, readable (i.place k) := by
  -- the loader ends whatever it could read, and the application is started
  have hreadable : ∀ k < c.pages i.size, readable (i.place k) := fun k hk => by
    by_contra hnot
    obtain ⟨fuel, t, ht⟩ : ∃ fuel t,
        c.load fuel i.offset i.size i.loadAddr (fun _ => 0) = some t := by
      by_cases hready : c.ready = true
      · obtain ⟨fuel, t, ht⟩ := i.exists_blocks hppb hpages fun _ => 0
        exact ⟨fuel, t, (if_pos hready).trans ht⟩
      · exact ⟨0, _, if_neg hready⟩
    exact Bool.noConfusion (h.fails k hk hnot _ fuel ⟨t.mem, t.reads, true⟩
      (Option.map_eq_some_iff.mpr ⟨t, ht, rfl⟩))
  -- the memory before differs from the application everywhere
  obtain ⟨fuel, b, hb, -, hmem, -, hreads⟩ := h.loads hreadable fun a =>
    c.data (i.place ((a - i.loadAddr.toNat) / c.pageSize)) ((a - i.loadAddr.toNat) % c.pageSize) + 1
  obtain ⟨t, ht, rfl⟩ := Option.map_eq_some_iff.mp hb
  obtain ⟨m, hm, hready⟩ := Chip.load_read hps hppb hpages ht
  have hall : m = c.pages i.size := by
    by_contra hne
    have hleft := hm.left
    have hbound : c.pages i.size * c.pageSize < i.size.toNat + c.pageSize :=
      (Chip.roundUp_mul hps).2
    have hle : (m + 1) * c.pageSize ≤ c.pages i.size * c.pageSize :=
      Nat.mul_le_mul_right _ (by omega)
    rw [Nat.add_one_mul] at hle
    have hin : t.mem (i.loadAddr.toNat + m * c.pageSize) = _ := hmem (m * c.pageSize) (by omega)
    have hout := hm.outside (i.loadAddr.toNat + m * c.pageSize) (.inr (Nat.le_refl _))
    rw [hin, Nat.add_sub_cancel_left] at hout
    exact absurd hout (by bv_omega)
  subst hall
  rcases hready with hzero | ⟨hready, hroom⟩
  · omega
  refine ⟨hready, by omega, fun block hle hlt => ?_, hreadable⟩
  -- each of the blocks has a page that was read
  obtain ⟨k, hk, hblock⟩ : ∃ k < c.pages i.size,
      (c.firstPage i.offset + k) / c.pagePerBlock = block := by
    rcases Nat.lt_or_eq_of_le hle with hlt' | rfl
    · have hstart : c.firstPage i.offset ≤ block * c.pagePerBlock := by
        have hmod := Nat.mod_lt (c.firstPage i.offset) hppb
        have hdiv := Nat.div_add_mod (c.firstPage i.offset) c.pagePerBlock
        have hmul : (c.firstBlock i.offset + 1) * c.pagePerBlock ≤ block * c.pagePerBlock :=
          Nat.mul_le_mul_right _ hlt'
        rw [Nat.add_one_mul, Nat.mul_comm] at hmul
        unfold Chip.firstBlock at hmul
        omega
      refine ⟨block * c.pagePerBlock - c.firstPage i.offset, by omega, ?_⟩
      rw [Nat.add_sub_cancel' hstart, Nat.mul_div_cancel _ hppb]
    · exact ⟨0, hpages, rfl⟩
  exact hblock ▸ hreads _ (hm.reads k hk)

/-- An application whose pages a page counter finds is loaded whole. -/
theorem BootsWhole.of_when (hps : 0 < c.pageSize) (hppb : 0 < c.pagePerBlock)
    (hread : ∀ p, readable p → c.fails p = false) (hpages : 0 < c.pages i.size)
    (hready : c.ready = true)
    (hroom : c.firstPage i.offset % c.pagePerBlock + c.pages i.size ≤
      c.blocks i.size * c.pagePerBlock)
    (hvalid : ∀ block, c.firstBlock i.offset ≤ block →
      block * c.pagePerBlock < c.firstPage i.offset + c.pages i.size → c.valid block = true)
    (hreadable : ∀ k < c.pages i.size, readable (i.place k)) : BootsWhole c readable i := by
  refine ⟨fun _ mem => ?_, fun k hk hnot => absurd (hreadable k hk) hnot⟩
  have hplace : ∀ k < c.pages i.size, i.place k = c.firstPage i.offset + k := fun k hk =>
    i.place_eq hvalid hk
  have hpos : 0 < c.blocks i.size := by
    by_contra hzero
    rw [Nat.eq_zero_of_not_pos hzero, Nat.zero_mul] at hroom
    omega
  obtain ⟨t, ht, hcopied, hreads⟩ := Chip.blockLoop_whole (m := 0) (v := 0) (c.blocks i.size - 1)
    hps hppb i.fits hvalid
    (fun k hk => hread _ (hplace k hk ▸ hreadable k hk)) hroom
    (c.copied_begin _ _ _ mem) (Nat.mod_lt _ hppb) (Int.sub_zero _).symm rfl (by omega)
    (by rw [Nat.zero_mul]; rfl) fun p hp => absurd hp List.not_mem_nil
  refine ⟨_, ⟨t.mem, t.reads, true⟩, Option.map_eq_some_iff.mpr ⟨t, (if_pos hready).trans ht, rfl⟩,
    rfl, fun k hk => ?_, hcopied.outside, fun p hp => ?_⟩
  · have hcover : i.size.toNat ≤ c.pages i.size * c.pageSize := (Chip.roundUp_mul hps).1
    have hpage : k / c.pageSize < c.pages i.size := Nat.div_lt_of_lt_mul (by
      rw [Nat.mul_comm]
      omega)
    have hin := hcopied.inside (i.loadAddr.toNat + k) (Nat.le_add_right _ _) (by omega)
    rw [Nat.add_sub_cancel_left] at hin
    exact hplace _ hpage ▸ hin
  · obtain ⟨hlo, hhi⟩ := hreads p hp
    have := Nat.div_mul_le_self p c.pagePerBlock
    exact hvalid _ (Nat.div_le_div_right hlo) (by omega)

/-- The application is loaded whole exactly when a page counter finds it. -/
theorem bootsWhole_iff_when (hps : 0 < c.pageSize) (hppb : 0 < c.pagePerBlock)
    (hread : ∀ p, readable p → c.fails p = false) :
    BootsWhole c readable i ↔ BootsWhen c readable i := by
  unfold BootsWhen
  split
  case isTrue hpages => exact bootsWhole_zero hps hpages
  case isFalse hpages =>
    have hpos := Nat.pos_of_ne_zero hpages
    constructor
    · exact fun h => h.when hps hppb hpos
    · rintro ⟨hready, hroom, hvalid, hreadable⟩
      exact .of_when hps hppb hread hpos hready hroom hvalid hreadable

end

/-- A SPI NAND whose first block is bad -/
def badFirst : SpiNand where
  spare page := some (if page < 64 then 0 else 0xff)
  junk := 0
  status _ := 0
  timeout _ := false
  data _ _ := 0
  resets := true

/-- An application of one page at its start, which is in the second block -/
def badFirstImage : Image badFirst.chip where
  offset := 0
  size := 2048
  loadAddr := 0x80000000
  place _ := 64
  aligned := rfl
  fits := by decide
  good k _ := rfl
  starts k _ := Nat.zero_le _
  mono j k hjk hk := absurd hk (by
    rw [show badFirst.chip.pages 2048 = 1 from rfl]
    omega)
  whole p _ hp := by
    have hmark : (if p / 64 * 64 < 64 then (0 : BitVec 8) else 0xff) = 0xff :=
      (of_decide_eq_true hp).1
    by_cases hfirst : p / 64 * 64 < 64
    · rw [if_pos hfirst] at hmark
      exact absurd hmark (by decide)
    · rcases Nat.lt_or_eq_of_le (show 64 ≤ p by omega) with hlt | heq
      · exact .inr fun _ _ => hlt
      · exact .inl ⟨0, by decide, heq⟩

end Ma35d1.Loader
