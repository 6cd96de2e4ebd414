import Mathlib.Order.Basic
import Mathlib.Tactic.Ring
import Ma35d1.CanFd.BitRate

/-!
# What the bit timing search finds

For each number of time quanta the search tries two prescalers, the quotient and the next. No
other prescaler within the limits is closer to the request.
-/

namespace Ma35d1.CanFd

open Machine

variable {n : Bool} {baud clock g k r : Nat} {s s' : BestTiming} {seen : List Nat}

/-! ## The limits -/

theorem limits_brpInc (n : Bool) : (limits n).brpInc = 1 := by cases n <;> rfl

theorem limits_brpMin (n : Bool) : (limits n).brpMin = 1 := by cases n <;> rfl

/-- The fewest and the most quanta of the two segments -/
def tqMin (n : Bool) : Nat := (limits n).tseg1Min + (limits n).tseg2Min

def tqMax (n : Bool) : Nat := (limits n).tseg1Max + (limits n).tseg2Max

theorem tqMin_pos (n : Bool) : 2 ≤ tqMin n := by cases n <;> decide

theorem tqMax_le (n : Bool) : tqMax n ≤ 384 := by cases n <;> decide

theorem mem_tsegs : g ∈ tsegs (limits n) ↔ tqMin n ≤ g / 2 ∧ g / 2 ≤ tqMax n := by
  have hle : tqMin n ≤ tqMax n := by cases n <;> decide
  rw [tsegs, List.mem_reverse, List.mem_range'_1]
  unfold tqMin tqMax at *
  omega

/-- The segments that a number of quanta is divided into -/
structure SplitOk (l : BtLimits) (t : Nat) (q : Spt) : Prop where
  tseg1 : (l.tseg1Min : Int) ≤ q.tseg1 ∧ q.tseg1 ≤ l.tseg1Max
  tseg2 : (l.tseg2Min : Int) ≤ q.tseg2 ∧ q.tseg2 ≤ l.tseg2Max
  sum : q.tseg1 + q.tseg2 = t
  spt : 0 ≤ q.spt ∧ q.spt ≤ 1000

instance (l : BtLimits) (t : Nat) (q : Spt) : Decidable (SplitOk l t q) :=
  decidable_of_iff (((l.tseg1Min : Int) ≤ q.tseg1 ∧ q.tseg1 ≤ l.tseg1Max) ∧
    ((l.tseg2Min : Int) ≤ q.tseg2 ∧ q.tseg2 ≤ l.tseg2Max) ∧ q.tseg1 + q.tseg2 = t ∧
    0 ≤ q.spt ∧ q.spt ≤ 1000)
    ⟨fun ⟨h₁, h₂, h₃, h₄⟩ => ⟨h₁, h₂, h₃, h₄⟩, fun h => ⟨h.tseg1, h.tseg2, h.sum, h.spt⟩⟩

/-- A part of the whole, in thousandths -/
theorem sample_le {a b : Int} (hb : 0 < b) (h0 : 0 ≤ a) (h : a ≤ b) :
    0 ≤ (1000 * a).tdiv b ∧ (1000 * a).tdiv b ≤ 1000 := by
  rw [Int.tdiv_eq_ediv_of_nonneg (by omega)]
  exact ⟨Int.ediv_nonneg (by omega) (by omega), Int.ediv_le_of_le_mul hb (by omega)⟩

/-- The limits are kept wherever the sample point leaves the first segment its least length. -/
theorem splitOk_of_quotient {l : BtLimits} {p q : Int} {t : Nat} (hq : (p * (t + 1)).tdiv 1000 = q)
    (h1 : l.tseg1Min ≤ l.tseg1Max) (h2 : l.tseg2Min ≤ l.tseg2Max)
    (hmin : l.tseg1Min + l.tseg2Min ≤ t) (hmax : t ≤ l.tseg1Max + l.tseg2Max)
    (hle : l.tseg1Min + 1 ≤ q) : SplitOk l t (updateSpt l p t) := by
  unfold updateSpt
  rw [hq]
  refine ⟨⟨?_, ?_⟩, ⟨?_, ?_⟩, ?_, sample_le (by omega) (by omega) (by omega)⟩
  all_goals
    dsimp only
    omega

theorem updateSpt_of_mem (n : Bool) {p : Nat} (hp : p ∈ [750, 800, 875]) {t : Nat}
    (hmin : tqMin n ≤ t) (hmax : t ≤ tqMax n) :
    SplitOk (limits n) t (updateSpt (limits n) p t) := by
  have hq : ((p : Int) * (t + 1)).tdiv 1000 = (p : Int) * (t + 1) / 1000 :=
    Int.tdiv_eq_ediv_of_nonneg (Int.mul_nonneg (by omega) (by omega))
  refine splitOk_of_quotient hq (by cases n <;> decide) (by cases n <;> decide) hmin hmax ?_
  simp only [List.mem_cons, List.not_mem_nil, or_false] at hp
  cases n with
  | false =>
    have hmin : 2 ≤ t := hmin
    show (1 : Int) + 1 ≤ _
    obtain rfl | rfl | rfl := hp <;> omega
  | true =>
    have hmin : 4 ≤ t := hmin
    show (2 : Int) + 1 ≤ _
    obtain rfl | rfl | rfl := hp <;> omega

theorem updateSpt_ok (n : Bool) (baud : Nat) {t : Nat} (h : tqMin n ≤ t) (h' : t ≤ tqMax n) :
    SplitOk (limits n) t (updateSpt (limits n) (samplPt baud) t) := by
  have hmem : samplPt baud ∈ [750, 800, 875] := by
    unfold samplPt
    split
    · decide
    · split <;> decide
  exact updateSpt_of_mem n hmem h h'

/-! ## The candidates -/

/-- The prescaler that is tried -/
def brpOf (baud clock g : Nat) : Nat := clock / ((1 + g / 2) * baud) + g % 2

/-- It is one of the controller's. -/
def BrpFits (l : BtLimits) (baud clock g : Nat) : Prop :=
  1 ≤ brpOf baud clock g ∧ brpOf baud clock g ≤ l.brpMax

instance (l : BtLimits) (baud clock g : Nat) : Decidable (BrpFits l baud clock g) :=
  inferInstanceAs (Decidable (_ ∧ _))

def candError (baud clock g : Nat) : Nat :=
  rateError baud (clock / (brpOf baud clock g * (1 + g / 2)))

/-- What the search has kept of the values it has seen -/
structure Kept (l : BtLimits) (baud clock : Nat) (seen : List Nat) (s : BestTiming) : Prop where
  least : ∀ g ∈ seen, BrpFits l baud clock g → s.bestError ≤ candError baud clock g
  chosen : (s = ⟨1000000000, 0, 0, 1000⟩ ∧ ∀ g ∈ seen, ¬ BrpFits l baud clock g) ∨
    ∃ g ∈ seen, BrpFits l baud clock g ∧ s.bestTseg = g / 2 ∧ s.bestBrp = brpOf baud clock g ∧
      candError baud clock g = s.bestError
  spt : s.sptError = 1000 ∨ s.bestError = 0

theorem Kept.skip {l : BtLimits} (h : Kept l baud clock seen s) (hg : ¬ BrpFits l baud clock g) :
    Kept l baud clock (g :: seen) s where
  least g' hg' hf := by
    rcases List.mem_cons.mp hg' with rfl | hg'
    · exact absurd hf hg
    · exact h.least g' hg' hf
  chosen := by
    refine h.chosen.imp (fun ⟨hs, hall⟩ => ⟨hs, fun g' hg' => ?_⟩)
      fun ⟨g', hg', hrest⟩ => ⟨g', List.mem_cons_of_mem _ hg', hrest⟩
    rcases List.mem_cons.mp hg' with rfl | hg'
    · exact hg
    · exact hall g' hg'
  spt := h.spt

/-- A candidate that is not closer leaves what is kept. -/
theorem Kept.keep {l : BtLimits} (h : Kept l baud clock seen s) (hf : BrpFits l baud clock g)
    (hs : s ≠ ⟨1000000000, 0, 0, 1000⟩) (hle : s.bestError ≤ candError baud clock g) :
    Kept l baud clock (g :: seen) s where
  least g' hg' hf := by
    rcases List.mem_cons.mp hg' with rfl | hg'
    · exact hle
    · exact h.least g' hg' hf
  chosen := by
    rcases h.chosen with ⟨hinit, -⟩ | ⟨g', hg', hrest⟩
    · exact absurd hinit hs
    · exact .inr ⟨g', List.mem_cons_of_mem _ hg', hrest⟩
  spt := h.spt

/-- A candidate that is not farther is taken. -/
theorem Kept.take {l : BtLimits} (h : Kept l baud clock seen s) (hf : BrpFits l baud clock g)
    (hle : candError baud clock g ≤ s.bestError)
    (hs' : s'.bestTseg = g / 2 ∧ s'.bestBrp = brpOf baud clock g ∧
      s'.bestError = candError baud clock g)
    (hspt : s'.sptError = 1000 ∨ s'.bestError = 0) : Kept l baud clock (g :: seen) s' where
  least g' hg' hf := by
    rcases List.mem_cons.mp hg' with rfl | hg'
    · exact Nat.le_of_eq hs'.2.2
    · rw [hs'.2.2]
      exact hle.trans (h.least g' hg' hf)
  chosen := .inr ⟨g, List.mem_cons_self, hf, hs'.1, hs'.2.1, hs'.2.2.symm⟩
  spt := hspt

/-! ## The loop -/

theorem divide_eq {a b : Nat} (hb : 0 < b) : divide a b = .ok (a / b) := by
  rw [divide, if_neg (Nat.ne_of_gt hb)]

theorem rateError_le {rate : Nat} (hbaud : baud ≤ 1000000000) (hrate : rate ≤ 1000000000) :
    rateError baud rate ≤ 1000000000 := by
  unfold rateError
  omega

/-- What is assumed of the rate and the clock: the rate is at most `MAX_DATA_BAUDRATE`, and the
clock is an `int32_t`. -/
structure Asked (baud clock : Nat) : Prop where
  pos : 1 ≤ baud
  baud : baud ≤ 8000000
  clock : clock < 0x80000000

theorem Asked.candError_le {l : BtLimits} (ha : Asked baud clock) (hg : 2 ≤ g / 2)
    (hf : BrpFits l baud clock g) : candError baud clock g ≤ 1000000000 := by
  have hprod : 1 * 3 ≤ brpOf baud clock g * (1 + g / 2) := Nat.mul_le_mul hf.1 (by omega)
  have hrate : clock / (brpOf baud clock g * (1 + g / 2)) ≤ clock / 3 :=
    Nat.div_le_div_left hprod (by decide)
  have hc := ha.clock
  have hb := ha.baud
  refine rateError_le (by omega) (hrate.trans ?_)
  omega

/-- The distance of the sample point, for `tseg / 2` quanta -/
def sptDist (l : BtLimits) (baud g : Nat) : Nat :=
  ((samplPt baud : Int) - (updateSpt l (samplPt baud) (g / 2 : Nat)).spt).natAbs

theorem sptDist_le (hg : tqMin n ≤ g / 2) (hg' : g / 2 ≤ tqMax n) :
    sptDist (limits n) baud g ≤ 1000 := by
  have hs := (updateSpt_ok n baud hg hg').spt
  have hp : samplPt baud ≤ 1000 := by
    unfold samplPt
    split
    · decide
    · split <;> decide
  unfold sptDist
  omega

/-- One pass of the loop -/
theorem tryTseg_eq (ha : Asked baud clock) (hg : g / 2 ≤ tqMax n) (s : BestTiming) :
    tryTseg (limits n) baud clock s g =
      if ¬ BrpFits (limits n) baud clock g then .ok s
      else if s.bestError < candError baud clock g then .ok s
      else if candError baud clock g = 0 then
        if s.sptError < sptDist (limits n) baud g then .ok { s with bestError := 0 }
        else if sptDist (limits n) baud g = 0 then
          .error (.done ⟨0, g / 2, brpOf baud clock g, 0⟩)
        else .ok ⟨0, g / 2, brpOf baud clock g, sptDist (limits n) baud g⟩
      else .ok ⟨candError baud clock g, g / 2, brpOf baud clock g, s.sptError⟩ := by
  have hmax := tqMax_le n
  have hprod : (1 + g / 2) * baud ≤ 385 * 8000000 := Nat.mul_le_mul (by omega) ha.baud
  have hpos : 0 < (1 + g / 2) * baud := Nat.mul_pos (by omega) ha.pos
  have hmod : (1 + g / 2) * baud % 0x100000000 = (1 + g / 2) * baud :=
    Nat.mod_eq_of_lt (by omega)
  unfold tryTseg
  dsimp only
  rw [hmod, divide_eq hpos]
  show (if (clock / ((1 + g / 2) * baud) + g % 2) / (limits n).brpInc * (limits n).brpInc <
    (limits n).brpMin ∨ _ then _ else _) = _
  rw [limits_brpInc, limits_brpMin, Nat.div_one, Nat.mul_one]
  by_cases hf : BrpFits (limits n) baud clock g
  · have hbrp : 0 < brpOf baud clock g * (1 + g / 2) := Nat.mul_pos hf.1 (by omega)
    have hrange : ¬ (clock / ((1 + g / 2) * baud) + g % 2 < 1 ∨
        (limits n).brpMax < clock / ((1 + g / 2) * baud) + g % 2) :=
      not_or.mpr ⟨Nat.not_lt.mpr hf.1, Nat.not_lt.mpr hf.2⟩
    rw [if_neg hrange, if_neg (not_not.mpr hf)]
    have hdiv : divide clock ((clock / ((1 + g / 2) * baud) + g % 2) * (1 + g / 2)) = .ok _ :=
      divide_eq hbrp
    rw [hdiv]
    rfl
  · have hrange : clock / ((1 + g / 2) * baud) + g % 2 < 1 ∨
        (limits n).brpMax < clock / ((1 + g / 2) * baud) + g % 2 := by
      rcases Nat.lt_or_ge (brpOf baud clock g) 1 with h | h
      · exact .inl h
      · exact .inr (Nat.not_le.mp fun h' => hf ⟨h, h'⟩)
    rw [if_pos hrange, if_pos hf]

/-- The loop goes on or ends with what is kept. -/
theorem Kept.step (h : Kept (limits n) baud clock seen s) (ha : Asked baud clock)
    (hg : tqMin n ≤ g / 2) (hg' : g / 2 ≤ tqMax n) :
    ∃ s', Kept (limits n) baud clock (g :: seen) s' ∧
      (tryTseg (limits n) baud clock s g = .ok s' ∨
        s'.bestError = 0 ∧ tryTseg (limits n) baud clock s g = .error (.done s')) := by
  rw [tryTseg_eq ha hg']
  by_cases hf : BrpFits (limits n) baud clock g
  · have hle := ha.candError_le ((tqMin_pos n).trans hg) hf
    have hspt : sptDist (limits n) baud g ≤ 1000 := sptDist_le hg hg'
    rw [if_neg (not_not.mpr hf)]
    by_cases hlt : s.bestError < candError baud clock g
    · rw [if_pos hlt]
      refine ⟨s, h.keep hf ?_ (Nat.le_of_lt hlt), .inl rfl⟩
      rintro rfl
      exact absurd hlt (Nat.not_lt.mpr hle)
    · rw [if_neg hlt]
      have hle' := Nat.not_lt.mp hlt
      by_cases h0 : candError baud clock g = 0
      · rw [if_pos h0]
        by_cases hd : s.sptError < sptDist (limits n) baud g
        · -- a sample point was kept before, and its rate was exact
          have hbest : s.bestError = 0 := h.spt.resolve_left (by omega)
          rw [if_pos hd]
          refine ⟨s, h.keep hf ?_ (by omega), .inl ?_⟩
          · rintro rfl
            cases hbest
          · rw [← hbest]
        · rw [if_neg hd]
          by_cases hz : sptDist (limits n) baud g = 0
          · rw [if_pos hz]
            exact ⟨_, h.take hf hle' ⟨rfl, rfl, h0.symm⟩ (.inr rfl), .inr ⟨rfl, rfl⟩⟩
          · rw [if_neg hz]
            exact ⟨_, h.take hf hle' ⟨rfl, rfl, h0.symm⟩ (.inr rfl), .inl rfl⟩
      · rw [if_neg h0]
        refine ⟨_, h.take hf hle' ⟨rfl, rfl, rfl⟩ ?_, .inl rfl⟩
        exact h.spt.imp id fun hz => absurd (Nat.le_zero.mp (hz ▸ hle')) h0
  · rw [if_pos hf]
    exact ⟨s, h.skip hf, .inl rfl⟩

/-- What the search ends with -/
structure Found (n : Bool) (baud clock : Nat) (s : BestTiming) : Prop where
  least : ∀ g ∈ tsegs (limits n), BrpFits (limits n) baud clock g →
    s.bestError ≤ candError baud clock g
  chosen : (s = ⟨1000000000, 0, 0, 1000⟩ ∧
      ∀ g ∈ tsegs (limits n), ¬ BrpFits (limits n) baud clock g) ∨
    ∃ g ∈ tsegs (limits n), BrpFits (limits n) baud clock g ∧ s.bestTseg = g / 2 ∧
      s.bestBrp = brpOf baud clock g ∧ candError baud clock g = s.bestError

theorem Kept.run {rest : List Nat} (h : Kept (limits n) baud clock seen s) (ha : Asked baud clock)
    (hall : ∀ g, g ∈ seen ∨ g ∈ rest ↔ g ∈ tsegs (limits n)) :
    ∃ s', Found n baud clock s' ∧
      (rest.foldlM (tryTseg (limits n) baud clock) s = .ok s' ∨
        rest.foldlM (tryTseg (limits n) baud clock) s = .error (.done s')) := by
  induction rest generalizing seen s with
  | nil =>
    have hmem : ∀ g, g ∈ seen ↔ g ∈ tsegs (limits n) := fun g => by
      rw [← hall g]
      simp
    refine ⟨s, ⟨fun g hg => h.least g ((hmem g).mpr hg), ?_⟩, .inl rfl⟩
    exact h.chosen.imp (fun ⟨hs, hno⟩ => ⟨hs, fun g hg => hno g ((hmem g).mpr hg)⟩)
      fun ⟨g, hg, hrest⟩ => ⟨g, (hmem g).mp hg, hrest⟩
  | cons g rest ih =>
    have hg := (hall g).mp (.inr List.mem_cons_self)
    obtain ⟨hlo, hhi⟩ := mem_tsegs.mp hg
    obtain ⟨s₁, h₁, hok | ⟨h0, herr⟩⟩ := h.step ha hlo hhi
    · obtain ⟨s', hs', hres⟩ := ih h₁ fun g' => by
        rw [← hall g', List.mem_cons, List.mem_cons]
        tauto
      refine ⟨s', hs', ?_⟩
      rw [List.foldlM_cons, hok]
      exact hres
    · refine ⟨s₁, ⟨fun g' _ _ => by rw [h0]; exact Nat.zero_le _, ?_⟩, .inr ?_⟩
      · rcases h₁.chosen with ⟨hinit, -⟩ | ⟨g', hg', hrest⟩
        · rw [hinit] at h0
          cases h0
        · refine .inr ⟨g', (hall g').mp ?_, hrest⟩
          rw [List.mem_cons]
          rcases List.mem_cons.mp hg' with h | h
          · exact .inr (.inl h)
          · exact .inl h
      · rw [List.foldlM_cons, herr]
        rfl

theorem searchTiming_found (n : Bool) (ha : Asked baud clock) : ∃ s, Found n baud clock s ∧
    (searchTiming (limits n) baud clock = .ok s ∨
      searchTiming (limits n) baud clock = .error (.done s)) := by
  have hinit : Kept (limits n) baud clock [] ⟨1000000000, 0, 0, 1000⟩ :=
    ⟨fun _ h => absurd h List.not_mem_nil, .inl ⟨rfl, fun _ h => absurd h List.not_mem_nil⟩,
      .inl rfl⟩
  exact hinit.run ha fun g => by simp

/-! ## The candidates are enough -/

/-- A smaller divisor, at or above the request, is not closer. -/
theorem rateError_le_of_ge {q q' : Nat} (h : baud ≤ q) (h' : q ≤ q') :
    rateError baud q ≤ rateError baud q' := by
  unfold rateError
  omega

theorem rateError_le_of_le {q q' : Nat} (h : q ≤ baud) (h' : q' ≤ q) :
    rateError baud q ≤ rateError baud q' := by
  unfold rateError
  omega

/-- Where the largest prescaler `R` does not divide down to the rate with `k` quanta, the first
number of quanta with which one does is not farther than any prescaler with `k`. -/
theorem exists_quanta {K R : Nat} (hR : 1 ≤ R) (hk : 1 ≤ k) (hbaud : 1 ≤ baud)
    (hfast : (R + 1) * k * baud ≤ clock) (hslow : clock < (R + 1) * K * baud) :
    ∃ k', k < k' ∧ k' ≤ K ∧ 1 ≤ clock / (k' * baud) ∧ clock / (k' * baud) ≤ R ∧
      k * R ≤ k' * (clock / (k' * baud)) := by
  have hex : ∃ k', clock < (R + 1) * k' * baud := ⟨K, hslow⟩
  have hfirst := Nat.find_spec hex
  have hleast : Nat.find hex ≤ K := Nat.find_min' hex hslow
  generalize hk' : Nat.find hex = k' at hfirst hleast
  have hlt : k < k' := by
    by_contra hle
    have hmono : (R + 1) * k' * baud ≤ (R + 1) * k * baud :=
      Nat.mul_le_mul_right _ (Nat.mul_le_mul_left _ (Nat.not_lt.mp hle))
    omega
  obtain ⟨j, rfl⟩ : ∃ j, k' = j + 1 := ⟨k' - 1, by omega⟩
  have hbefore : (R + 1) * j * baud ≤ clock := Nat.not_lt.mp (Nat.find_min hex (by omega))
  have hpos : 0 < (j + 1) * baud := Nat.mul_pos (Nat.succ_pos j) hbaud
  have hR' : clock / ((j + 1) * baud) ≤ R := by
    refine Nat.lt_succ_iff.mp ((Nat.div_lt_iff_lt_mul hpos).mpr ?_)
    rw [← Nat.mul_assoc]
    exact hfirst
  have hceil : clock < (clock / ((j + 1) * baud) + 1) * ((j + 1) * baud) := by
    rw [Nat.succ_mul]
    exact Nat.lt_div_mul_add hpos
  refine ⟨j + 1, hlt, hleast, ?_⟩
  generalize clock / ((j + 1) * baud) = q at *
  have hquanta : (R + 1) * j < (q + 1) * (j + 1) := by
    refine Nat.lt_of_mul_lt_mul_right (a := baud) ?_
    calc (R + 1) * j * baud ≤ clock := hbefore
      _ < (q + 1) * ((j + 1) * baud) := hceil
      _ = (q + 1) * (j + 1) * baud := by ring
  have hexpand : (q + 1) * (j + 1) = (j + 1) * q + j + 1 := by ring
  have hexpand' : (R + 1) * j = j * R + j := by ring
  have hjR : k * R ≤ j * R := Nat.mul_le_mul_right _ (by omega)
  have hqpos : 1 ≤ q := by
    by_contra h0
    obtain rfl : q = 0 := by omega
    have hjpos : 1 * 1 ≤ j * R := Nat.mul_le_mul (by omega) hR
    omega
  exact ⟨hqpos, hR', by omega⟩

/-- Every prescaler and number of quanta has a candidate that is not farther. -/
theorem exists_candidate (ha : Asked baud clock) (hclock : clock < clockLimit (limits n) baud)
    (hk : tqMin n + 1 ≤ k) (hk' : k ≤ tqMax n + 1) (hr : 1 ≤ r) (hr' : r ≤ (limits n).brpMax) :
    ∃ g ∈ tsegs (limits n), BrpFits (limits n) baud clock g ∧
      candError baud clock g ≤ rateError baud (clock / (k * r)) := by
  have hkpos : 1 ≤ k := by omega
  -- the candidates with `j + 1` quanta
  have hdown : ∀ j q, tqMin n ≤ j → j ≤ tqMax n → clock / ((j + 1) * baud) = q → 1 ≤ q →
      q ≤ (limits n).brpMax → j * 2 ∈ tsegs (limits n) ∧ BrpFits (limits n) baud clock (j * 2) ∧
        candError baud clock (j * 2) = rateError baud (clock / ((j + 1) * q)) := by
    intro j q hj hj' hq hq1 hqR
    have hhalf : j * 2 / 2 = j := Nat.mul_div_cancel j (by decide)
    have hbrp : brpOf baud clock (j * 2) = q := by
      rw [brpOf, hhalf, Nat.add_comm 1 j, hq, Nat.mul_mod_left, Nat.add_zero]
    refine ⟨mem_tsegs.mpr (by rw [hhalf]; exact ⟨hj, hj'⟩), ⟨by rwa [hbrp], by rwa [hbrp]⟩, ?_⟩
    rw [candError, hbrp, hhalf, Nat.add_comm 1 j, Nat.mul_comm q]
  have habove : ∀ j q, clock / ((j + 1) * baud) = q → 1 ≤ q →
      baud ≤ clock / ((j + 1) * q) := by
    intro j q hq hq1
    rw [Nat.le_div_iff_mul_le (Nat.mul_pos (Nat.succ_pos j) hq1)]
    calc baud * ((j + 1) * q) = q * ((j + 1) * baud) := by ring
      _ ≤ clock := by
        rw [← hq]
        exact Nat.div_mul_le_self ..
  obtain ⟨j, rfl⟩ : ∃ j, k = j + 1 := ⟨k - 1, by omega⟩
  have hpos : 0 < (j + 1) * baud := Nat.mul_pos (Nat.succ_pos j) ha.pos
  by_cases hup : clock / ((j + 1) * baud) < r
  · -- the next prescaler
    have hodd : (j * 2 + 1) / 2 = j := by omega
    have hbrp : brpOf baud clock (j * 2 + 1) = clock / ((j + 1) * baud) + 1 := by
      rw [brpOf, hodd, Nat.add_comm 1 j]
      omega
    refine ⟨j * 2 + 1, mem_tsegs.mpr (by rw [hodd]; omega),
      ⟨by rw [hbrp]; exact Nat.succ_pos _, by rw [hbrp]; exact Nat.le_trans hup hr'⟩, ?_⟩
    rw [candError, hbrp, hodd, Nat.add_comm 1 j, Nat.mul_comm (_ + 1)]
    refine rateError_le_of_le ?_ (Nat.div_le_div_left (Nat.mul_le_mul_left _ hup)
      (Nat.mul_pos (Nat.succ_pos j) (Nat.succ_pos _)))
    refine Nat.div_le_of_le_mul (Nat.le_of_lt ?_)
    calc clock < clock / ((j + 1) * baud) * ((j + 1) * baud) + (j + 1) * baud :=
          Nat.lt_div_mul_add hpos
      _ = (j + 1) * (clock / ((j + 1) * baud) + 1) * baud := by ring
  · have hge := Nat.not_lt.mp hup
    by_cases hR : clock / ((j + 1) * baud) ≤ (limits n).brpMax
    · -- the quotient
      obtain ⟨hmem, hfits, herr⟩ := hdown j _ (by omega) (by omega) rfl (hr.trans hge) hR
      refine ⟨_, hmem, hfits, ?_⟩
      rw [herr]
      exact rateError_le_of_ge (habove j _ rfl (hr.trans hge))
        (Nat.div_le_div_left (Nat.mul_le_mul_left _ hge) (Nat.mul_pos (Nat.succ_pos j) hr))
    · have hfast : ((limits n).brpMax + 1) * (j + 1) * baud ≤ clock := by
        rw [Nat.mul_assoc]
        exact (Nat.le_div_iff_mul_le hpos).mp (Nat.not_le.mp hR)
      have hslow : clock < ((limits n).brpMax + 1) * (tqMax n + 1) * baud := by
        have hsum : 1 + (limits n).tseg1Max + (limits n).tseg2Max = tqMax n + 1 := by
          unfold tqMax
          omega
        rw [clockLimit, hsum] at hclock
        exact hclock
      obtain ⟨k', hlt, hle, hq1, hqR, hquanta⟩ :=
        exists_quanta (hr.trans hr') hkpos ha.pos hfast hslow
      obtain ⟨i, rfl⟩ : ∃ i, k' = i + 1 := ⟨k' - 1, by omega⟩
      obtain ⟨hmem, hfits, herr⟩ := hdown i _ (by omega) (by omega) rfl hq1 hqR
      refine ⟨_, hmem, hfits, ?_⟩
      rw [herr]
      exact rateError_le_of_ge (habove i _ rfl hq1)
        (Nat.div_le_div_left ((Nat.mul_le_mul_left _ hr').trans hquanta)
          (Nat.mul_pos (Nat.succ_pos j) hr))

/-! ## The registers -/

/-- A value less one, at its place in a register -/
theorem toNat_part {a : Nat} (ha : 1 ≤ a) (hk : a * 2 ^ k ≤ 2 ^ 32) :
    (BitVec.ofInt 32 ((a : Int) - 1) <<< k).toNat = (a - 1) * 2 ^ k := by
  have hcast : ((a : Int) - 1) = ((a - 1 : Nat) : Int) := by omega
  have hlt : (a - 1) * 2 ^ k < 2 ^ 32 := by
    have hpos : 0 < 2 ^ k := Nat.two_pow_pos k
    rw [Nat.sub_mul]
    omega
  have hlt' : a - 1 < 2 ^ 32 :=
    Nat.lt_of_le_of_lt (Nat.le_mul_of_pos_right _ (Nat.two_pow_pos k)) hlt
  rw [hcast, BitVec.ofInt_natCast, BitVec.toNat_shiftLeft, BitVec.toNat_ofNat,
    Nat.mod_eq_of_lt hlt', Nat.shiftLeft_eq, Nat.mod_eq_of_lt hlt]

theorem toNat_low {a : Nat} (ha : 1 ≤ a) (ha' : a ≤ 2 ^ 32) :
    (BitVec.ofInt 32 ((a : Int) - 1)).toNat = a - 1 := by
  have h := toNat_part (k := 0) ha (by omega)
  rwa [BitVec.shiftLeft_zero, Nat.pow_zero, Nat.mul_one] at h

/-- Four parts of a word that are above one another -/
theorem toNat_or_parts {a b c d : BitVec 32} {i j k : Nat} (hji : j ≤ i) (hkj : k ≤ j)
    (ha : 2 ^ i ∣ a.toNat) (hb : b.toNat < 2 ^ i) (hb' : 2 ^ j ∣ b.toNat) (hc : c.toNat < 2 ^ j)
    (hc' : 2 ^ k ∣ c.toNat) (hd : d.toNat < 2 ^ k) :
    (a ||| b ||| c ||| d).toNat = a.toNat + b.toNat + c.toNat + d.toNat := by
  have hab := toNat_or_of_dvd ha hb
  have haj : 2 ^ j ∣ (a ||| b).toNat := by
    rw [hab]
    exact Nat.dvd_add ((Nat.pow_dvd_pow 2 hji).trans ha) hb'
  have habc := toNat_or_of_dvd haj hc
  have hak : 2 ^ k ∣ (a ||| b ||| c).toNat := by
    rw [habc]
    exact Nat.dvd_add ((Nat.pow_dvd_pow 2 hkj).trans haj) hc'
  rw [toNat_or_of_dvd hak hd, habc, hab]

theorem or_last (a b c d : BitVec 32) : a ||| b ||| c ||| d = a ||| c ||| d ||| b := by
  ac_rfl

/-- The values less one in `NBTP` -/
def Timing.toNbtp (t : Timing) : BitVec 32 :=
  nbtpWord ((t.brp : Int) - 1) ((t.tseg1 : Int) - 1) ((t.tseg2 : Int) - 1) ((t.sjw : Int) - 1)

/-- The values less one in `DBTP` -/
def Timing.toDbtp (t : Timing) : BitVec 32 :=
  dbtpWord ((t.brp : Int) - 1) ((t.tseg1 : Int) - 1) ((t.tseg2 : Int) - 1) ((t.sjw : Int) - 1)

variable {t : Timing}

theorem Timing.toNbtp_toNat (h : t.InLimits nLimits) : t.toNbtp.toNat =
    (t.sjw - 1) * 2 ^ 25 + (t.brp - 1) * 2 ^ 16 + (t.tseg1 - 1) * 2 ^ 8 + (t.tseg2 - 1) := by
  obtain ⟨⟨hb, hb'⟩, ⟨h₁, h₁'⟩, ⟨h₂, h₂'⟩, hj, hj', -⟩ := h
  simp only [nLimits] at *
  have pb := toNat_part (k := 16) hb (by omega)
  have pj := toNat_part (k := 25) hj (by omega)
  have p₁ := toNat_part (k := 8) (show 1 ≤ t.tseg1 by omega) (by omega)
  have p₂ := toNat_low (show 1 ≤ t.tseg2 by omega) (by omega)
  rw [Timing.toNbtp, nbtpWord, BitVec.or_comm (BitVec.ofInt 32 ((t.brp : Int) - 1) <<< 16),
    toNat_or_parts (i := 25) (j := 16) (k := 8) (by decide) (by decide) (by omega) (by omega)
      (by omega) (by omega) (by omega) (by omega), pb, pj, p₁, p₂]

theorem Timing.toDbtp_toNat (h : t.InLimits dLimits) : t.toDbtp.toNat =
    (t.brp - 1) * 2 ^ 16 + (t.tseg1 - 1) * 2 ^ 8 + (t.tseg2 - 1) * 2 ^ 4 + (t.sjw - 1) := by
  obtain ⟨⟨hb, hb'⟩, ⟨h₁, h₁'⟩, ⟨h₂, h₂'⟩, hj, hj', -⟩ := h
  simp only [dLimits] at *
  have pb := toNat_part (k := 16) hb (by omega)
  have pj := toNat_low hj (by omega)
  have p₁ := toNat_part (k := 8) h₁ (by omega)
  have p₂ := toNat_part (k := 4) h₂ (by omega)
  rw [Timing.toDbtp, dbtpWord, or_last,
    toNat_or_parts (i := 16) (j := 8) (k := 4) (by decide) (by decide) (by omega) (by omega)
      (by omega) (by omega) (by omega) (by omega), pb, pj, p₁, p₂]

theorem timing_nbtp (r : BtRegs) (h : t.InLimits nLimits) :
    ({ r with nbtp := t.toNbtp } : BtRegs).timing true = t := by
  have hword := Timing.toNbtp_toNat h
  obtain ⟨⟨hb, hb'⟩, ⟨h₁, h₁'⟩, ⟨h₂, h₂'⟩, hj, hj', -⟩ := h
  simp only [nLimits] at *
  rw [BtRegs.timing, if_pos rfl]
  dsimp only
  have eb : field t.toNbtp 16 9 + 1 = t.brp := by
    rw [field_eq, hword]
    omega
  have e₁ : field t.toNbtp 8 8 + 1 = t.tseg1 := by
    rw [field_eq, hword]
    omega
  have e₂ : field t.toNbtp 0 7 + 1 = t.tseg2 := by
    rw [field_eq, hword]
    omega
  have ej : field t.toNbtp 25 7 + 1 = t.sjw := by
    rw [field_eq, hword]
    omega
  rw [eb, e₁, e₂, ej]

/-- With or without the bit of the delay compensation -/
theorem timing_dbtp {r : BtRegs} (h : t.InLimits dLimits)
    (hr : r.dbtp = t.toDbtp ∨ r.dbtp = 0x800000#32 ||| t.toDbtp) : r.timing false = t := by
  have hword := Timing.toDbtp_toNat h
  obtain ⟨⟨hb, hb'⟩, ⟨h₁, h₁'⟩, ⟨h₂, h₂'⟩, hj, hj', -⟩ := h
  simp only [dLimits] at *
  have htdc : r.dbtp.toNat % 2 ^ 23 = t.toDbtp.toNat := by
    rcases hr with hr | hr
    · rw [hr]
      omega
    · rw [hr, toNat_or_of_dvd (k := 23) (by decide) (by omega)]
      show (0x800000 + _) % 2 ^ 23 = _
      omega
  rw [BtRegs.timing, if_neg (by decide)]
  have eb : field r.dbtp 16 5 + 1 = t.brp := by
    rw [field_eq]
    omega
  have e₁ : field r.dbtp 8 5 + 1 = t.tseg1 := by
    rw [field_eq]
    omega
  have e₂ : field r.dbtp 4 4 + 1 = t.tseg2 := by
    rw [field_eq]
    omega
  have ej : field r.dbtp 0 4 + 1 = t.sjw := by
    rw [field_eq]
    omega
  rw [eb, e₁, e₂, ej]

/-! ## What is programmed -/

/-- The values that follow from what the search ends with -/
structure Programs (n : Bool) (baud : Nat) (s : BestTiming) (t : Timing) : Prop where
  brp : s.bestBrp = t.brp
  tseg1 : (updateSpt (limits n) (samplPt baud) s.bestTseg).tseg1 = t.tseg1
  tseg2 : (updateSpt (limits n) (samplPt baud) s.bestTseg).tseg2 = t.tseg2
  sjw : t.sjw = if t.tseg2 < 2 then t.tseg2 else 2

theorem setBitRate_eq (hs : searchTiming (limits n) baud clock = .ok s ∨
      searchTiming (limits n) baud clock = .error (.done s))
    (hp : Programs n baud s t) (hl : t.InLimits (limits n)) (r : BtRegs) :
    ∃ r', setBitRate n baud clock r = some (t.rate clock, r') ∧ r'.timing n = t := by
  have hbrp : 1 ≤ t.brp := by
    have := hl.brp.1
    rwa [limits_brpMin] at this
  have hquanta : ((t.brp : Int) - 1 + 1) * ((t.tseg1 : Int) - 1 + ((t.tseg2 : Int) - 1) + 3) =
      ((t.quanta * t.brp : Nat) : Int) := by
    rw [Timing.quanta]
    push_cast
    ring
  have hpos : t.quanta * t.brp ≠ 0 :=
    Nat.ne_of_gt (Nat.mul_pos (by unfold Timing.quanta; omega) hbrp)
  have hsjw : (if (t.tseg2 : Int) < (if ((limits n).sjwMax : Int) < 2 then
      ((limits n).sjwMax : Int) else 2) then (t.tseg2 : Int)
      else (if ((limits n).sjwMax : Int) < 2 then ((limits n).sjwMax : Int) else 2)) = t.sjw := by
    have hmax : ¬ ((limits n).sjwMax : Int) < 2 := by cases n <;> decide
    rw [if_neg hmax, hp.sjw]
    split <;> split <;> omega
  have hbody : setBitRate n baud clock r =
      if n then some (t.rate clock, { r with nbtp := t.toNbtp })
      else if 2500000 < t.rate clock then
        some (t.rate clock, { r with
          dbtp := 0x800000#32 ||| t.toDbtp
          tdcr := BitVec.ofNat 32 (if 127 < clock / 1000 * samplPt baud / t.rate clock then 127
            else clock / 1000 * samplPt baud / t.rate clock) <<< 8 })
      else some (t.rate clock, { r with dbtp := t.toDbtp }) := by
    unfold setBitRate
    dsimp only
    rcases hs with hs | hs
    all_goals
      rw [hs]
      dsimp only
      rw [hp.tseg1, hp.tseg2, hp.brp, hsjw, hquanta, Int.toNat_natCast,
        if_neg (Int.natCast_ne_zero.mpr hpos)]
      rfl
  rw [hbody]
  cases n with
  | true => exact ⟨_, rfl, timing_nbtp r hl⟩
  | false =>
    rw [if_neg (by decide)]
    split
    · exact ⟨_, rfl, timing_dbtp hl (.inr rfl)⟩
    · exact ⟨_, rfl, timing_dbtp hl (.inl rfl)⟩

/-- A candidate and its split are within the limits. -/
theorem BrpFits.programs {g : Nat} (hg : g ∈ tsegs (limits n))
    (hf : BrpFits (limits n) baud clock g) (hs : s.bestTseg = g / 2 ∧ s.bestBrp = brpOf baud clock g) :
    ∃ t : Timing, t.InLimits (limits n) ∧ Programs n baud s t ∧ t.brp = brpOf baud clock g ∧
      t.quanta = 1 + g / 2 := by
  obtain ⟨hlo, hhi⟩ := mem_tsegs.mp hg
  have hq := updateSpt_ok n baud hlo hhi
  obtain ⟨t₁, h₁⟩ := Int.eq_ofNat_of_zero_le (Int.le_trans (Int.natCast_nonneg _) hq.tseg1.1)
  obtain ⟨t₂, h₂⟩ := Int.eq_ofNat_of_zero_le (Int.le_trans (Int.natCast_nonneg _) hq.tseg2.1)
  have hsum := hq.sum
  have htseg1 := hq.tseg1
  have htseg2 := hq.tseg2
  rw [h₁] at htseg1
  rw [h₂] at htseg2
  rw [h₁, h₂] at hsum
  have hpos : 1 ≤ (limits n).tseg2Min := by cases n <;> decide
  have hsjw : 2 ≤ (limits n).sjwMax := by cases n <;> decide
  refine ⟨⟨brpOf baud clock g, t₁, t₂, if t₂ < 2 then t₂ else 2⟩, ⟨?_, ?_, ?_, ?_⟩,
    ⟨hs.2, by rw [hs.1]; exact h₁, by rw [hs.1]; exact h₂, rfl⟩, rfl, ?_⟩
  · rw [limits_brpMin]
    exact hf
  · exact ⟨Int.ofNat_le.mp htseg1.1, Int.ofNat_le.mp htseg1.2⟩
  · exact ⟨Int.ofNat_le.mp htseg2.1, Int.ofNat_le.mp htseg2.2⟩
  · dsimp only
    split <;> omega
  · show 1 + t₁ + t₂ = _
    omega

/-- A clock that no prescaler divides down to the rate ends in the division by zero. -/
theorem setBitRate_eq_none (ha : Asked baud clock) (hfast : clockLimit (limits n) baud ≤ clock)
    (r : BtRegs) : setBitRate n baud clock r = none := by
  obtain ⟨s, hfound, hs⟩ := searchTiming_found n ha
  have hno : ∀ g ∈ tsegs (limits n), ¬ BrpFits (limits n) baud clock g := by
    intro g hg hf
    have hpos : 0 < (1 + g / 2) * baud := Nat.mul_pos (by omega) ha.pos
    have hquanta : 1 + g / 2 ≤ 1 + (limits n).tseg1Max + (limits n).tseg2Max := by
      have := (mem_tsegs.mp hg).2
      unfold tqMax at this
      omega
    have hquot : (limits n).brpMax + 1 ≤ clock / ((1 + g / 2) * baud) := by
      rw [Nat.le_div_iff_mul_le hpos, ← Nat.mul_assoc]
      exact (Nat.mul_le_mul_right _ (Nat.mul_le_mul_left _ hquanta)).trans hfast
    have hle := hf.2
    unfold brpOf at hle
    exact absurd (hquot.trans ((Nat.le_add_right _ _).trans hle)) (Nat.not_succ_le_self _)
  rcases hfound.chosen with ⟨rfl, -⟩ | ⟨g, hg, hf, -⟩
  · unfold setBitRate
    dsimp only
    rcases hs with hs | hs
    all_goals
      rw [hs]
      exact if_pos (Int.zero_mul _)
  · exact absurd hf (hno g hg)

/-- A clock of 200 MHz and a rate of 1 kbit/s -/
theorem setBitRate_eq_none_slow : clockLimit nLimits 1000 ≤ 200000000 ∧
    setBitRate true 1000 200000000 ⟨0, 0, 0⟩ = none :=
  ⟨by decide, setBitRate_eq_none ⟨by decide, by decide, by decide⟩ (by decide) ⟨0, 0, 0⟩⟩

/-- **The bit timing.** For every request and every clock below the limit of the prescalers, no
division is by zero, what is programmed is within the limits and has the returned rate, and no
timing within the limits has a closer rate. -/
theorem setBitRate_best (setNbtp : Bool) (baud clock : Nat) (hpos : 1 ≤ baud)
    (hbaud : baud ≤ 8000000) (hint : clock < 0x80000000)
    (hclock : clock < clockLimit (limits setNbtp) baud) (r : BtRegs) :
    ∃ rate r', setBitRate setNbtp baud clock r = some (rate, r') ∧
      BestRate (limits setNbtp) baud clock rate (r'.timing setNbtp) := by
  have ha : Asked baud clock := ⟨hpos, hbaud, hint⟩
  have hmin : tqMin setNbtp ≤ tqMax setNbtp := by cases setNbtp <;> decide
  have hR : 1 ≤ (limits setNbtp).brpMax := by cases setNbtp <;> decide
  obtain ⟨s, hfound, hs⟩ := searchTiming_found setNbtp ha
  obtain ⟨g₀, hg₀, hf₀, -⟩ := exists_candidate ha hclock (Nat.le_refl _)
    (Nat.succ_le_succ hmin) (Nat.le_refl 1) hR
  rcases hfound.chosen with ⟨-, hno⟩ | ⟨g, hg, hf, htseg, hbrp, herr⟩
  · exact absurd hf₀ (hno g₀ hg₀)
  · obtain ⟨t, hl, hp, htb, htq⟩ := hf.programs hg ⟨htseg, hbrp⟩
    obtain ⟨r', hset, htiming⟩ := setBitRate_eq hs hp hl r
    refine ⟨_, r', hset, ?_⟩
    rw [htiming]
    refine ⟨hl, rfl, fun t' hl' => ?_⟩
    have hrate : rateError baud (t.rate clock) = candError baud clock g := by
      rw [Timing.rate, htb, htq, Nat.mul_comm]
      rfl
    obtain ⟨g', hg', hf', hle⟩ := exists_candidate (k := t'.quanta) (r := t'.brp) ha hclock
      (by have := hl'.tseg1.1; have := hl'.tseg2.1; unfold tqMin Timing.quanta; omega)
      (by have := hl'.tseg1.2; have := hl'.tseg2.2; unfold tqMax Timing.quanta; omega)
      (by have := hl'.brp.1; rwa [limits_brpMin] at this) hl'.brp.2
    rw [hrate, herr]
    exact (hfound.least g' hg' hf').trans hle

theorem setBitRate_best_nominal : ∃ rate r',
    setBitRate true 500000 100000000 ⟨0, 0, 0⟩ = some (rate, r') ∧
      BestRate nLimits 500000 100000000 rate (r'.timing true) :=
  setBitRate_best true 500000 100000000 (by decide) (by decide) (by decide) (by decide) ⟨0, 0, 0⟩

/-- The returned rate is a quotient: its product with the divisors is not the clock. -/
theorem not_setBitRate_exact : ∃ rate r',
    setBitRate true 300000 100000000 ⟨0, 0, 0⟩ = some (rate, r') ∧
      (r'.timing true).quanta * (r'.timing true).brp * rate ≠ 100000000 :=
  ⟨300300, ⟨0x2240501#32, 0, 0⟩, by decide +kernel, by decide⟩

end Ma35d1.CanFd
