import Mathlib.Tactic.Ring
import Mathlib.Tactic.NormNum
import Ma35d1.Clk.Pll

/-!
# What the divider search finds

The loops visit every divider within the limits, and some outside them: their bounds are quotients
that are rounded down. What they keep is the first divider of least distance, where the distance
is that of the frequency after three divisions in whole hertz.
-/

namespace Ma35d1.Clk

open Machine

variable {src pllFreq lo hi m n p x con1 con2 : Nat} {t : PllDiv}

/-! ## The bounds of the loops -/

theorem mem_span : x ∈ span lo hi ↔ lo ≤ x ∧ x ≤ hi := by
  rw [span, List.mem_range'_1]
  omega

theorem mem_searched : t ∈ searched src ↔
    (rngMinM src ≤ t.m ∧ t.m ≤ rngMaxM src) ∧
      (rngMinN (src / t.m) ≤ t.n ∧ t.n ≤ rngMaxN (src / t.m)) ∧
      rngMinP (src / t.m * t.n) ≤ t.p ∧ t.p ≤ rngMaxP (src / t.m * t.n) := by
  simp only [searched, List.mem_flatMap, List.mem_map, mem_span]
  constructor
  · rintro ⟨m, hm, n, hn, p, hp, rfl⟩
    exact ⟨hm, hn, hp⟩
  · rintro ⟨hm, hn, hp⟩
    exact ⟨t.m, hm, t.n, hn, t.p, hp, rfl⟩

/-- What the bounds leave -/
structure InRange (src : Nat) (t : PllDiv) : Prop where
  m : 1 ≤ t.m ∧ t.m ≤ 63
  n : 16 ≤ t.n ∧ t.n ≤ 2047
  p : 1 ≤ t.p ∧ t.p ≤ 7
  ref : freq1Mhz * t.m ≤ src
  con1 : freq1Mhz ≤ src / t.m
  con2 : src / t.m * t.n ≤ freq2400Mhz

theorem rngMinM_pos (hsrc : src ≤ 80000000) : 1 ≤ rngMinM src := by
  unfold rngMinM freq40Mhz
  split <;> omega

theorem rngMaxM_le (hm : m ≤ rngMaxM src) : m ≤ 63 ∧ freq1Mhz * m ≤ src := by
  unfold rngMaxM freq1Mhz at *
  split at hm <;> omega

theorem con1_ge (hpos : 1 ≤ m) (hm : m ≤ rngMaxM src) : freq1Mhz ≤ src / m :=
  (Nat.le_div_iff_mul_le hpos).mpr (rngMaxM_le hm).2

theorem con2_le (hpos : 0 < con1) (hn : n ≤ rngMaxN con1) : con1 * n ≤ freq2400Mhz := by
  have hquot : n ≤ freq2400Mhz / con1 := by
    unfold rngMaxN at hn
    split at hn <;> omega
  rw [Nat.mul_comm]
  exact (Nat.le_div_iff_mul_le hpos).mp hquot

theorem InRange.of_mem (hsrc : src ≤ 80000000) (ht : t ∈ searched src) : InRange src t := by
  obtain ⟨⟨hm, hm'⟩, ⟨hn, hn'⟩, hp, hp'⟩ := mem_searched.mp ht
  have hpos : 1 ≤ t.m := (rngMinM_pos hsrc).trans hm
  have hcon1 := con1_ge hpos hm'
  have hcon1' : 0 < src / t.m := Nat.lt_of_lt_of_le (by decide) hcon1
  obtain ⟨h63, href⟩ := rngMaxM_le hm'
  refine ⟨⟨hpos, h63⟩, ⟨?_, ?_⟩, ⟨?_, ?_⟩, href, hcon1, con2_le hcon1' hn'⟩
  · unfold rngMinN at hn
    split at hn <;> omega
  · unfold rngMaxN at hn'
    split at hn' <;> omega
  · unfold rngMinP at hp
    split at hp <;> omega
  · unfold rngMaxP at hp'
    split at hp' <;> omega

/-- **The search visits every divider within the limits.** -/
theorem Legal.mem_searched (h : Legal src t) (hsrc : src ≤ 80000000) : t ∈ searched src := by
  obtain ⟨⟨hm, hm'⟩, ⟨hn, hn'⟩, ⟨hp, hp'⟩, ⟨href, href'⟩, hvco, hvco'⟩ := h
  have hcon1 : freq1Mhz ≤ src / t.m := (Nat.le_div_iff_mul_le hm).mpr href
  have hpos : 0 < src / t.m := Nat.lt_of_lt_of_le (by decide) hcon1
  have hfloor : src / t.m * t.m ≤ src := Nat.div_mul_le_self ..
  have hceil : src < (src / t.m + 1) * t.m := by
    rw [Nat.succ_mul]
    exact Nat.lt_div_mul_add hm
  generalize hc : src / t.m = c at *
  have hlow : freq600Mhz < (c + 1) * t.n := by
    have hlt : freq600Mhz * t.m < (c + 1) * t.n * t.m := by
      calc freq600Mhz * t.m ≤ src * t.n := hvco
        _ < (c + 1) * t.m * t.n := Nat.mul_lt_mul_of_pos_right hceil (by omega)
        _ = (c + 1) * t.n * t.m := by ring
    exact Nat.lt_of_mul_lt_mul_right hlt
  have hhigh : c * t.n ≤ freq2400Mhz := by
    have hle : c * t.n * t.m ≤ freq2400Mhz * t.m := by
      calc c * t.n * t.m = c * t.m * t.n := by ring
        _ ≤ src * t.n := Nat.mul_le_mul_right _ hfloor
        _ ≤ freq2400Mhz * t.m := hvco'
    exact Nat.le_of_mul_le_mul_right hle hm
  have hsum : (c + 1) * t.n = c * t.n + t.n := Nat.succ_mul ..
  rw [Clk.mem_searched, hc]
  refine ⟨⟨?_, ?_⟩, ⟨?_, ?_⟩, ?_, ?_⟩
  · unfold rngMinM freq40Mhz at *
    split <;> omega
  · unfold rngMaxM freq1Mhz at *
    split <;> omega
  · have hquot : freq600Mhz / c ≤ t.n := by
      have hlt : freq600Mhz < (t.n + 1) * c := by
        rw [Nat.succ_mul, Nat.mul_comm t.n]
        unfold freq1Mhz at hcon1
        omega
      exact Nat.lt_succ_iff.mp ((Nat.div_lt_iff_lt_mul hpos).mpr hlt)
    unfold rngMinN
    split <;> omega
  · have hquot : t.n ≤ freq2400Mhz / c := by
      rw [Nat.le_div_iff_mul_le hpos, Nat.mul_comm]
      exact hhigh
    unfold rngMaxN
    split <;> omega
  · unfold rngMinP freq2400Mhz at *
    split <;> omega
  · unfold rngMaxP freq85700Khz freq600Mhz at *
    split <;> omega

/-- There are dividers within the limits for every source. -/
theorem exists_legal (hlo : freq1Mhz ≤ src) (hhi : src ≤ 80000000) : ∃ t, Legal src t := by
  have hm : ∃ m, 1 ≤ m ∧ m ≤ 2 ∧ freq1Mhz * m ≤ src ∧ src ≤ freq40Mhz * m := by
    unfold freq1Mhz freq40Mhz at *
    by_cases h : src ≤ 40000000
    · exact ⟨1, by omega⟩
    · exact ⟨2, by omega⟩
  obtain ⟨m, hm, hm', href, href'⟩ := hm
  have hpos : 0 < src := Nat.lt_of_lt_of_le (by decide) hlo
  have hfloor := Nat.div_mul_le_self (freq600Mhz * m) src
  have hceil : freq600Mhz * m < freq600Mhz * m / src * src + src := Nat.lt_div_mul_add hpos
  have hsum : src * (freq600Mhz * m / src + 1) = freq600Mhz * m / src * src + src := by ring
  generalize hq : freq600Mhz * m / src = q at *
  have hq15 : 15 ≤ q := by
    rw [← hq, Nat.le_div_iff_mul_le hpos]
    unfold freq40Mhz freq600Mhz at *
    omega
  have hq600 : q ≤ 600 := by
    rw [← hq]
    refine Nat.div_le_of_le_mul ?_
    unfold freq1Mhz freq600Mhz at *
    omega
  have hm63 : m ≤ 63 := by omega
  have hn : 16 ≤ q + 1 ∧ q + 1 ≤ 2047 := by omega
  refine ⟨⟨m, q + 1, 1⟩, ⟨hm, hm63⟩, hn, ⟨Nat.le_refl 1, Nat.le_add_left 1 6⟩, ⟨href, href'⟩,
    ?_, ?_⟩
  · show freq600Mhz * m ≤ src * (q + 1)
    omega
  · show src * (q + 1) ≤ freq2400Mhz * m
    unfold freq40Mhz freq600Mhz freq2400Mhz at *
    omega

/-! ## The loops as one scan -/

theorem divide_eq {a b : Nat} (hb : 0 < b) : divide a b = .ok (a / b) := by
  rw [divide, if_neg (Nat.ne_of_gt hb)]

theorem tryP_eq (hp : 0 < p) (b : Nat × PllDiv) :
    tryP pllFreq (src / m * n) m n b p =
      keepLeast (truncDiff src pllFreq) Exit.found b ⟨m, n, p⟩ := by
  unfold tryP
  rw [divide_eq hp]
  rfl

theorem tryN_eq (b : Nat × PllDiv) : tryN pllFreq (src / m) m b n =
    ((span (rngMinP (src / m * n)) (rngMaxP (src / m * n))).map (PllDiv.mk m n)).foldlM
      (keepLeast (truncDiff src pllFreq) Exit.found) b := by
  rw [List.foldlM_map]
  refine foldlM_congr (fun p hp b => tryP_eq ?_ b) b
  have hlo := (mem_span.mp hp).1
  unfold rngMinP at hlo
  split at hlo <;> omega

theorem tryM_eq (hm : 1 ≤ m) (hm' : m ≤ rngMaxM src) (b : Nat × PllDiv) :
    tryM src pllFreq b m =
      ((span (rngMinN (src / m)) (rngMaxN (src / m))).flatMap fun n =>
        (span (rngMinP (src / m * n)) (rngMaxP (src / m * n))).map (PllDiv.mk m n)).foldlM
          (keepLeast (truncDiff src pllFreq) Exit.found) b := by
  have hcon1 : src / m ≠ 0 :=
    Nat.ne_of_gt (Nat.lt_of_lt_of_le (by decide) (con1_ge hm hm'))
  unfold tryM
  rw [divide_eq hm, foldlM_flatMap]
  show (if src / m = 0 then _ else _) = _
  rw [if_neg hcon1]
  exact foldlM_congr (fun n _ b => tryN_eq b) b

/-- The nest of loops is one loop over the searched dividers. -/
theorem searchPll_eq (hsrc : src ≤ 80000000) : searchPll src pllFreq =
    (searched src).foldlM (keepLeast (truncDiff src pllFreq) Exit.found)
      (0xFFFFFFFF, ⟨0, 0, 0⟩) := by
  rw [searchPll, searched, foldlM_flatMap]
  refine foldlM_congr (fun m hm b => ?_) _
  obtain ⟨hlo, hhi⟩ := mem_span.mp hm
  exact tryM_eq ((rngMinM_pos hsrc).trans hlo) hhi b

theorem InRange.truncDiff_lt (h : InRange src t) (hf : pllFreq ≤ freq2400Mhz) :
    truncDiff src pllFreq t < 0xFFFFFFFF := by
  have hcon2 := h.con2
  have hcon3 : src / t.m * t.n / t.p ≤ src / t.m * t.n := Nat.div_le_self ..
  unfold truncDiff pllDiff
  generalize src / t.m * t.n / t.p = c at *
  unfold freq2400Mhz at *
  split <;> omega

/-- **The search**: it ends with the first searched divider of least distance. -/
theorem calPllFreqMode0_found (hlo : freq1Mhz ≤ src) (hhi : src ≤ 80000000)
    (hf : freq85700Khz ≤ pllFreq) (hf' : pllFreq ≤ freq2400Mhz) :
    ∃ t, FirstLeast (truncDiff src pllFreq) (searched src) t ∧ InRange src t ∧
      calPllFreqMode0 src pllFreq = some (t.regs, src * t.n / (t.p * t.m)) := by
  obtain ⟨t₀, ht₀⟩ := exists_legal hlo hhi
  have hmem := ht₀.mem_searched hhi
  have hrange : ¬ (pllFreq < freq85700Khz ∨ freq2400Mhz < pllFreq) := by omega
  rcases foldlM_keepLeast Exit.found (searched src) (0xFFFFFFFF, ⟨0, 0, 0⟩) with
    ⟨-, hall⟩ | ⟨t, ht, -, hres⟩
  · exact absurd (hall t₀ hmem)
      (Nat.not_le.mpr ((InRange.of_mem hhi hmem).truncDiff_lt hf'))
  · have hin := InRange.of_mem hhi ht.mem
    have hpm : t.p * t.m ≠ 0 := Nat.ne_of_gt (Nat.mul_pos hin.p.1 hin.m.1)
    have hprod : src * t.n < 0x10000000000000000 := by
      have hle : src * t.n ≤ 80000000 * 2047 := Nat.mul_le_mul hhi hin.n.2
      omega
    refine ⟨t, ht, hin, ?_⟩
    rw [calPllFreqMode0, if_neg hrange, searchPll_eq hhi]
    rcases hres with hres | hres
    all_goals
      rw [hres]
      show (if t.p * t.m = 0 then none else _) = _
      rw [if_neg hpm, Nat.mod_eq_of_lt hprod]

/-! ## What is read back -/

/-- A field that is cleared and set again -/
theorem and_of_cleared {x r B C : BitVec 32} (h : ~~~ B &&& C = 0#32) :
    ((x &&& ~~~ B) ||| r) &&& C = r &&& C := by
  rw [BitVec.and_or_distrib_right, BitVec.and_assoc, h, BitVec.and_zero, BitVec.zero_or]

/-- A number below a power of two is what its low bits are. -/
theorem ofNat_and_ones {n k : Nat} (h : n < 2 ^ k) :
    BitVec.ofNat 32 n &&& BitVec.ofNat 32 (2 ^ k - 1) = BitVec.ofNat 32 n := by
  rw [← BitVec.ofNat_and, Nat.and_two_pow_sub_one_eq_mod, Nat.mod_eq_of_lt h]

theorem ofNat_and_fbdiv (n : Nat) (h : n < 2048) :
    BitVec.ofNat 32 n &&& fbdivMsk = BitVec.ofNat 32 n ∧
      BitVec.ofNat 32 n &&& indivMsk = 0#32 ∧ BitVec.ofNat 32 n &&& modeMsk = 0#32 := by
  have hones : BitVec.ofNat 32 n &&& 0x7ff#32 = BitVec.ofNat 32 n := ofNat_and_ones (k := 11) h
  refine ⟨hones, ?_, ?_⟩
  · rw [← hones, BitVec.and_assoc, show 0x7ff#32 &&& indivMsk = 0#32 from by decide,
      BitVec.and_zero]
  · rw [← hones, BitVec.and_assoc, show 0x7ff#32 &&& modeMsk = 0#32 from by decide,
      BitVec.and_zero]

theorem shiftLeft_and_indiv : ∀ m < 64, ((BitVec.ofNat 32 m <<< 12) &&& indivMsk) >>> 12 =
      BitVec.ofNat 32 m ∧
    (BitVec.ofNat 32 m <<< 12) &&& fbdivMsk = 0#32 ∧
    (BitVec.ofNat 32 m <<< 12) &&& modeMsk = 0#32 := by
  decide

theorem shiftLeft_and_outdiv : ∀ p < 8,
    ((BitVec.ofNat 32 p <<< 4) &&& outdivMsk) >>> 4 = BitVec.ofNat 32 p := by
  decide

theorem PllRegs.dividers_eq {c : PllRegs} (h : InRange src t)
    (h0 : ∃ x, c.ctl0 = (x &&& ~~~ (indivMsk ||| fbdivMsk)) ||| t.regs.1)
    (h1 : c.ctl1 &&& outdivMsk = t.regs.2 &&& outdivMsk) : c.dividers = t := by
  obtain ⟨x, h0⟩ := h0
  obtain ⟨hm, hmf, -⟩ := shiftLeft_and_indiv t.m (by have := h.m; omega)
  obtain ⟨hn, hni, -⟩ := ofNat_and_fbdiv t.n (by have := h.n; omega)
  have hp := shiftLeft_and_outdiv t.p (by have := h.p; omega)
  have hm' : t.m < 2 ^ 32 := by have := h.m; omega
  have hn' : t.n < 2 ^ 32 := by have := h.n; omega
  have hp' : t.p < 2 ^ 32 := by have := h.p; omega
  have hind : c.ctl0 &&& indivMsk = (BitVec.ofNat 32 t.m <<< 12) &&& indivMsk := by
    rw [h0, and_of_cleared (by decide), PllDiv.regs, BitVec.and_or_distrib_right, hni,
      BitVec.or_zero]
  have hfb : c.ctl0 &&& fbdivMsk = BitVec.ofNat 32 t.n := by
    rw [h0, and_of_cleared (by decide), PllDiv.regs, BitVec.and_or_distrib_right, hmf, hn,
      BitVec.zero_or]
  unfold PllRegs.dividers
  rw [hind, hfb, h1, hm, show t.regs.2 = BitVec.ofNat 32 t.p <<< 4 from rfl, hp,
    BitVec.toNat_ofNat, BitVec.toNat_ofNat, BitVec.toNat_ofNat, Nat.mod_eq_of_lt hm',
    Nat.mod_eq_of_lt hn', Nat.mod_eq_of_lt hp']

/-- The register values hold the dividers. -/
theorem InRange.dividers (h : InRange src t) :
    (PllRegs.mk t.regs.1 t.regs.2 0).dividers = t :=
  PllRegs.dividers_eq h ⟨0#32, by rw [BitVec.zero_and, BitVec.zero_or]⟩ rfl

/-- The frequency of the dividers fits into 32 bits. -/
theorem InRange.clk_lt (h : InRange src t) : src * t.n / (t.p * t.m) < 0x100000000 := by
  have hm := h.m.1
  have hn := h.n.2
  have hcon2 := h.con2
  have hceil : src < (src / t.m + 1) * t.m := by
    rw [Nat.succ_mul]
    exact Nat.lt_div_mul_add hm
  have hsum : (src / t.m + 1) * t.n = src / t.m * t.n + t.n := Nat.succ_mul ..
  have hlt : src * t.n < 0x100000000 * (t.p * t.m) := by
    calc src * t.n ≤ (src / t.m + 1) * t.m * t.n := Nat.mul_le_mul_right _ (Nat.le_of_lt hceil)
      _ = (src / t.m + 1) * t.n * t.m := by ring
      _ < 0x100000000 * t.m := by
        refine Nat.mul_lt_mul_of_pos_right ?_ hm
        unfold freq2400Mhz at hcon2
        omega
      _ ≤ 0x100000000 * (t.p * t.m) :=
        Nat.mul_le_mul_left _ (Nat.le_mul_of_pos_left _ h.p.1)
  exact Nat.div_lt_of_lt_mul (by rwa [Nat.mul_comm (t.p * t.m)])

theorem InRange.write_mode (h : InRange src t) (c : PllRegs) :
    (c.write pllOpmodeInteger t.regs).ctl0 &&& modeMsk = 0#32 := by
  obtain ⟨-, -, hm⟩ := shiftLeft_and_indiv t.m (by have := h.m; omega)
  obtain ⟨-, -, hn⟩ := ofNat_and_fbdiv t.n (by have := h.n; omega)
  have hreg : t.regs.1 &&& modeMsk = 0#32 := by
    rw [PllDiv.regs, BitVec.and_or_distrib_right, hm, hn, BitVec.or_zero]
  have hkeep : ~~~ (indivMsk ||| fbdivMsk) &&& modeMsk = modeMsk := by decide
  have hmode : (BitVec.ofNat 32 pllOpmodeInteger <<< 18) &&& modeMsk = 0#32 := by decide
  show ((_ &&& ~~~ (indivMsk ||| fbdivMsk)) ||| t.regs.1) &&& modeMsk = _
  rw [BitVec.and_or_distrib_right, hreg, BitVec.or_zero, BitVec.and_assoc, hkeep,
    and_of_cleared (by decide), hmode]

theorem getAdvPllClockFreq_eq {idx : Nat} {clk : Nat → PllRegs} (hidx : sysPll < idx)
    (h : InRange hxt t) (hpd : (clk idx).ctl1 &&& pdMsk = 0#32)
    (hmode : (clk idx).ctl0 &&& modeMsk = 0#32) (hdiv : (clk idx).dividers = t) :
    getAdvPllClockFreq idx clk = some (hxt * t.n / (t.p * t.m)) := by
  have hpm : t.p * t.m ≠ 0 := Nat.ne_of_gt (Nat.mul_pos h.p.1 h.m.1)
  unfold getAdvPllClockFreq
  rw [if_neg (by omega)]
  dsimp only
  rw [hpd, hmode, hdiv, if_neg (by decide), if_neg hpm, if_pos (by decide),
    Nat.mod_eq_of_lt h.clk_lt]

/-- What is set is read back. -/
theorem readsBack (hf : freq85700Khz ≤ pllFreq) (hf' : pllFreq ≤ freq2400Mhz) :
    ReadsBack pllFreq := by
  intro idx hidx clk
  have hlo : freq1Mhz ≤ hxt := by decide
  have hhi : hxt ≤ 80000000 := by decide
  obtain ⟨t, -, hin, hcal⟩ := calPllFreqMode0_found hlo hhi hf hf'
  have hset : setAdvPllFreq idx pllOpmodeInteger hxt pllFreq clk =
      some (hxt * t.n / (t.p * t.m),
        Function.update clk idx ((clk idx).write pllOpmodeInteger t.regs)) := by
    unfold setAdvPllFreq
    rw [if_pos rfl, hcal]
    rfl
  refine ⟨_, _, hset, getAdvPllClockFreq_eq hidx hin ?_ ?_ (PllRegs.dividers_eq hin ?_ ?_)⟩
  all_goals rw [Function.update_self]
  · show (_ &&& ~~~ pdMsk) &&& pdMsk = _
    rw [BitVec.and_assoc, show ~~~ pdMsk &&& pdMsk = 0#32 by decide, BitVec.and_zero]
  · exact hin.write_mode _
  · exact ⟨_, rfl⟩
  · show ((_ ||| t.regs.2) &&& ~~~ pdMsk) &&& outdivMsk = _
    rw [BitVec.and_assoc, show ~~~ pdMsk &&& outdivMsk = outdivMsk by decide]
    exact and_of_cleared (by decide)

/-! ## What the search finds -/

/-- **The divider search.** For every source and target it ends with the nearest dividers exactly
if, with distances in whole hertz, they come before all dividers that are outside the limits or
farther from the target. The frequency is read back in any case. -/
theorem findsNearest_iff (src pllFreq : Nat) (hlo : freq1Mhz ≤ src) (hhi : src ≤ 80000000)
    (hf : freq85700Khz ≤ pllFreq) (hf' : pllFreq ≤ freq2400Mhz) :
    FindsNearest src pllFreq ↔
      Leads (truncDiff src pllFreq) (searched src) (Nearest src pllFreq) := by
  obtain ⟨t, ht, hin, hcal⟩ := calPllFreqMode0_found hlo hhi hf hf'
  rw [← ht.good_iff, FindsNearest, hcal]
  constructor
  · rintro ⟨⟨r, f, hr, hbest⟩, -⟩
    obtain ⟨rfl, -⟩ := Prod.mk.inj (Option.some.inj hr)
    rwa [hin.dividers] at hbest
  · intro hbest
    exact ⟨⟨t.regs, _, rfl, by rwa [hin.dividers]⟩, fun _ => readsBack hf hf'⟩

/-- 1000 MHz from the crystal: an exact result leads. -/
theorem findsNearest_iff_crystal :
    Leads (truncDiff hxt freq1000Mhz) (searched hxt) (Nearest hxt freq1000Mhz) := by
  refine (findsNearest_iff hxt freq1000Mhz (by decide) (by decide) (by decide) (by decide)).mp
    ⟨⟨(PllDiv.mk 3 125 1).regs, freq1000Mhz, by decide +kernel, ?_⟩, fun _ =>
      readsBack (by decide) (by decide)⟩
  have hdiv : (PllRegs.mk (PllDiv.mk 3 125 1).regs.1 (PllDiv.mk 3 125 1).regs.2 0).dividers =
      ⟨3, 125, 1⟩ := by decide
  rw [hdiv]
  refine ⟨⟨by decide, by decide, by decide, by decide, by decide⟩, fun t' _ => ?_⟩
  have hzero : deviation hxt freq1000Mhz ⟨3, 125, 1⟩ = 0 := by
    norm_num [deviation, hxt, freq1000Mhz]
  rw [hzero]
  exact abs_nonneg _

/-- With a source of 26 MHz the search settles on a VCO of 598 MHz. -/
theorem not_findsNearest_slowVco : ¬ FindsNearest 26000000 598000000 := by
  rintro ⟨⟨r, f, hr, hbest⟩, -⟩
  have hcal : calPllFreqMode0 26000000 598000000 = some ((0x1017#32, 0x10#32), 598000000) := by
    decide
  obtain ⟨rfl, -⟩ := Prod.mk.inj (Option.some.inj (hr.symm.trans hcal))
  exact absurd hbest.1.vco.1 (by decide)

end Ma35d1.Clk
