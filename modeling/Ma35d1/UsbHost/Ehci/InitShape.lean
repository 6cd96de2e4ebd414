import Mathlib.Algebra.Order.Group.Nat
import Ma35d1.UsbHost.Ehci.ListMoves
import Ma35d1.UsbHost.Ehci.Runs

/-!
# The shape behind `ehci_init`

`init_periodic_frame_list` hooks the heads from `_Iqh[10]` down. When the head
`_Iqh[i]` is hooked, every frame whose index plus one is a multiple of `2^i` leads
to it: directly if the frame was empty, and else behind `_Iqh[i+1]`.
-/

namespace Ma35d1.UsbHost.Ehci

open Heap.LinkedPath Heap.IntervalTree

/-! ## Hooking one head -/

/-- The heads from `_Iqh[n]` up are hooked. -/
structure Hooked (n : Nat) (m : Links) : Prop where
  last : n < numIqh → m.hLink (m.iqh n) = .terminate
  next : ∀ i, n ≤ i → i + 1 < numIqh → m.hLink (m.iqh (i + 1)) = .qh (m.iqh i)
  frame : ∀ idx < flSize, m.pfList idx =
    if n < numIqh ∧ 2 ^ n ∣ idx + 1 then .qh (m.iqh (level idx)) else .null
  inj : ∀ i j, n ≤ i → i < numIqh → n ≤ j → j < numIqh → m.iqh i = m.iqh j → i = j

/-- What hooking `_Iqh[n]` at `a` leaves. -/
def hookedAt (n : Nat) (a : Addr) (m : Links) : Links :=
  { m with
    pfList := fun idx =>
      if idx < flSize ∧ 2 ^ n ∣ idx + 1 ∧ m.pfList idx = .null then .qh a else m.pfList idx
    hLink := if n + 1 < numIqh then Function.update m.hLink (m.iqh (n + 1)) (.qh a) else m.hLink }

/-- The walk along a frame that has heads already. -/
theorem hookIqh_eq {n : Nat} {a : Addr} {m : Links} (hm : Hooked (n + 1) m) (hn : n + 1 < numIqh)
    (ha : ∀ i, n + 1 ≤ i → i < numIqh → m.iqh i ≠ a) {h : Addr → Link}
    (hh : h = m.hLink ∨ h = Function.update m.hLink (m.iqh (n + 1)) (.qh a))
    {i fuel : Nat} (hi : i + n + 1 < numIqh) (hf : i + 1 < fuel) :
    hookIqh a fuel (m.iqh (i + n + 1)) { m with hLink := h } =
      some { m with hLink := Function.update m.hLink (m.iqh (n + 1)) (.qh a) } := by
  induction i generalizing fuel with
  | zero =>
    obtain ⟨fuel, rfl⟩ : ∃ k, fuel = k + 2 := ⟨fuel - 2, by omega⟩
    have hne := ha (n + 1) (Nat.le_refl _) hn
    simp only [Nat.zero_add]
    rcases hh with rfl | rfl
    · rw [hookIqh, if_neg hne, if_pos (hm.last hn)]
    · have hu : Function.update m.hLink (m.iqh (n + 1)) (.qh a) (m.iqh (n + 1)) = .qh a :=
        Function.update_self ..
      rw [hookIqh, if_neg hne]
      simp only [hu, reduceCtorEq, ↓reduceIte, Link.ptr]
      rw [hookIqh, if_pos rfl]
  | succ i ih =>
    obtain ⟨fuel, rfl⟩ : ∃ k, fuel = k + 1 := ⟨fuel - 1, by omega⟩
    have hidx : i + 1 + n + 1 = (i + n + 1) + 1 := by omega
    have hne := ha (i + 1 + n + 1) (by omega) hi
    have hlink : h (m.iqh (i + 1 + n + 1)) = .qh (m.iqh (i + n + 1)) := by
      have hm' := hm.next (i + n + 1) (by omega) (by omega)
      rw [hidx]
      rcases hh with rfl | rfl
      · exact hm'
      · rw [Function.update_of_ne, hm']
        intro he
        have := hm.inj _ _ (by omega) (by omega) (Nat.le_refl _) hn he
        omega
    rw [hookIqh, if_neg hne]
    simp only [hlink, reduceCtorEq, ↓reduceIte, Link.ptr]
    exact ih (by omega) (by omega)

/-- The frames `2^n`, `2·2^n`, …, `j·2^n` are hooked. -/
private def hookedTo (n : Nat) (a : Addr) (m : Links) (j : Nat) : Links :=
  { m with
    pfList := fun idx =>
      if idx + 1 ≤ 2 ^ n * j ∧ 2 ^ n ∣ idx + 1 ∧ m.pfList idx = .null then .qh a else m.pfList idx
    hLink := if n + 1 < numIqh ∧ 2 ≤ j then Function.update m.hLink (m.iqh (n + 1)) (.qh a)
      else m.hLink }

theorem pow_succ_dvd_iff {n j : Nat} : 2 ^ (n + 1) ∣ 2 ^ n * (j + 1) - 1 + 1 ↔ 2 ∣ j + 1 := by
  have hpos : 0 < 2 ^ n * (j + 1) := Nat.mul_pos (Nat.two_pow_pos n) (Nat.succ_pos j)
  rw [Nat.sub_add_cancel hpos, Nat.pow_succ]
  exact Nat.mul_dvd_mul_iff_left (Nat.two_pow_pos n)

private theorem hookFrames_to {n : Nat} {a : Addr} {m : Links} (hm : Hooked (n + 1) m)
    (ha : ∀ i, n + 1 ≤ i → i < numIqh → m.iqh i ≠ a) {j : Nat}
    (hj : 2 ^ n * j ≤ flSize) : hookFrames a (2 ^ n) j m = some (hookedTo n a m j) := by
  have hpos := Nat.two_pow_pos n
  induction j with
  | zero =>
    rw [hookFrames]
    congr 1
    simp [hookedTo]
  | succ j ih =>
    have hj' : 2 ^ n * j ≤ flSize := by rw [Nat.mul_succ] at hj; omega
    rw [hookFrames, ih hj', Option.bind_some]
    generalize hidx : 2 ^ n * (j + 1) - 1 = idx
    have hidx1 : idx + 1 = 2 ^ n * (j + 1) := by
      have : 0 < 2 ^ n * (j + 1) := Nat.mul_pos hpos (Nat.succ_pos j)
      omega
    have hlt : idx < flSize := by omega
    have hgt : ¬ idx + 1 ≤ 2 ^ n * j := by rw [hidx1, Nat.mul_succ]; omega
    have hdvd : 2 ^ n ∣ idx + 1 := by rw [hidx1]; exact Nat.dvd_mul_right ..
    -- between the two bounds there is no other multiple of the interval
    have hstep : ∀ b, 2 ^ n ∣ b + 1 → (b + 1 ≤ 2 ^ n * (j + 1) ↔ b + 1 ≤ 2 ^ n * j ∨ b = idx) := by
      rintro b ⟨c, hc⟩
      rw [hc, Nat.mul_le_mul_left_iff hpos, Nat.mul_le_mul_left_iff hpos]
      constructor
      · intro h
        by_cases hcj : c ≤ j
        · exact .inl hcj
        · have : c = j + 1 := by omega
          subst this
          exact .inr (by omega)
      · rintro (h | rfl)
        · omega
        · have : 2 ^ n * c = 2 ^ n * (j + 1) := by omega
          exact Nat.le_of_eq (Nat.eq_of_mul_eq_mul_left hpos this)
    have hpf : (hookedTo n a m j).pfList idx = m.pfList idx := by
      simp only [hookedTo, hgt, false_and, ↓reduceIte]
    have hframe := hm.frame idx hlt
    by_cases hodd : n + 1 < numIqh ∧ 2 ^ (n + 1) ∣ idx + 1
    · -- the frame has a longer interval's head already
      rw [if_pos hodd] at hframe
      have heven : 2 ∣ j + 1 := by rw [← hidx] at hodd; exact pow_succ_dvd_iff.mp hodd.2
      have hj2 : 2 ≤ j + 1 := Nat.le_of_dvd (Nat.succ_pos j) heven
      have hlev : n + 1 ≤ level idx := (le_level_iff hodd.1).mpr hodd.2
      have hlevlt := level_lt idx
      have hwalk := hookIqh_eq hm hodd.1 ha (h := (hookedTo n a m j).hLink)
        (by unfold hookedTo; dsimp only; split
            · exact .inr rfl
            · exact .inl rfl)
        (i := level idx - (n + 1)) (by omega)
        (show _ < walkFuel by
          have : numIqh < walkFuel := by decide
          omega)
      rw [show level idx - (n + 1) + n + 1 = level idx by omega] at hwalk
      rw [hookFrame, hpf, hframe]
      simp only [Link.ptr, Option.bind_some]
      have hcomm : ∀ p, hookIqh a walkFuel (m.iqh (level idx))
          { m with hLink := (hookedTo n a m j).hLink, pfList := p } =
          some { m with
            hLink := Function.update m.hLink (m.iqh (n + 1)) (.qh a), pfList := p } := by
        intro p
        have hgen : ∀ fuel b (l : Links), hookIqh a fuel b { l with pfList := p } =
            (hookIqh a fuel b l).map fun l => { l with pfList := p } := by
          intro fuel
          induction fuel with
          | zero => intros; rfl
          | succ fuel ihf =>
            intro b l
            simp only [hookIqh]
            split
            · rfl
            · split
              · rfl
              · cases (l.hLink b).ptr with
                | none => rfl
                | some q => exact ihf q l
        have := hgen walkFuel (m.iqh (level idx)) { m with hLink := (hookedTo n a m j).hLink }
        rw [hwalk] at this
        exact this
      refine (hcomm _).trans ?_
      simp only [hookedTo, hodd.1, hj2, and_self, ↓reduceIte, Option.some.injEq, Links.mk.injEq,
        true_and, and_true]
      funext b
      by_cases hd : 2 ^ n ∣ b + 1
      · simp only [hstep b hd]
        by_cases hbi : b = idx
        · subst hbi; simp [hframe]
        · simp [hbi]
      · simp [hd]
    · -- the frame is empty
      rw [if_neg hodd] at hframe
      have hodd' : n + 1 < numIqh → ¬ 2 ∣ j + 1 := fun h1 h2 =>
        hodd ⟨h1, by rw [← hidx]; exact pow_succ_dvd_iff.mpr h2⟩
      rw [hookFrame, hpf, hframe]
      simp only [hookedTo, Option.some.injEq, Links.mk.injEq, true_and, and_true]
      refine ⟨?_, ?_⟩
      · congr 1
        simp only [eq_iff_iff]
        constructor
        · rintro ⟨h1, h2⟩; exact ⟨h1, by omega⟩
        · rintro ⟨h1, h2⟩
          have := hodd' h1
          exact ⟨h1, by omega⟩
      · funext b
        by_cases hbi : b = idx
        · subst hbi
          rw [Function.update_self, if_pos ⟨(hstep b hdvd).mpr (.inr rfl), hdvd, hframe⟩]
        · rw [Function.update_of_ne hbi]
          by_cases hd : 2 ^ n ∣ b + 1
          · simp only [hstep b hd, hbi, or_false]
          · simp [hd]

theorem hookFrames_eq {n : Nat} {a : Addr} {m : Links} (hm : Hooked (n + 1) m) (hn : n < numIqh)
    (ha : ∀ i, n + 1 ≤ i → i < numIqh → m.iqh i ≠ a) :
    hookFrames a (2 ^ n) (flSize / 2 ^ n) m = some (hookedAt n a m) := by
  have hdiv : 2 ^ n ∣ flSize := by
    have hle : n ≤ 10 := Nat.le_of_lt_succ hn
    exact (Nat.pow_dvd_pow 2 hle : 2 ^ n ∣ 2 ^ 10)
  have hmul := Nat.mul_div_cancel' hdiv
  rw [hookFrames_to hm ha (Nat.le_of_eq hmul)]
  congr 1
  have hj : n + 1 < numIqh → 2 ≤ flSize / 2 ^ n := by
    intro h
    have hle : n ≤ 9 := by simp only [numIqh] at h; omega
    have hp : 2 ^ n ≤ 2 ^ 9 := Nat.pow_le_pow_right (by decide) hle
    rw [Nat.le_div_iff_mul_le (Nat.two_pow_pos n)]
    simp only [flSize]
    omega
  simp only [hookedTo, hookedAt, hmul, Links.mk.injEq, true_and, and_true]
  refine ⟨?_, ?_⟩
  · congr 1
    simp only [eq_iff_iff]
    exact ⟨fun h => h.1, fun h => ⟨h, hj h⟩⟩
  · funext b
    congr 1

/-- The links when `_Iqh[n]` has been allocated at `a` and not hooked yet. -/
def withIqh (n : Nat) (a : Addr) (m : Links) : Links :=
  { m with iqh := Function.update m.iqh n a, hLink := Function.update m.hLink a .terminate }

theorem Hooked.withIqh {n : Nat} {a : Addr} {m : Links} (hm : Hooked (n + 1) m)
    (ha : ∀ i, n + 1 ≤ i → i < numIqh → m.iqh i ≠ a) : Hooked (n + 1) (withIqh n a m) := by
  have hi : ∀ i, n + 1 ≤ i → Function.update m.iqh n a i = m.iqh i := fun i hi =>
    Function.update_of_ne (by omega) ..
  have hl : ∀ i, n + 1 ≤ i → i < numIqh →
      Function.update m.hLink a .terminate (m.iqh i) = m.hLink (m.iqh i) := fun i hi hlt =>
    Function.update_of_ne (ha i hi hlt) ..
  constructor
  · intro hlt
    show Function.update m.hLink a .terminate (Function.update m.iqh n a (n + 1)) = _
    rw [hi _ (Nat.le_refl _), hl _ (Nat.le_refl _) hlt]
    exact hm.last hlt
  · intro i hni hlt
    show Function.update m.hLink a .terminate (Function.update m.iqh n a (i + 1)) =
      .qh (Function.update m.iqh n a i)
    rw [hi _ (by omega), hi _ hni, hl _ (by omega) hlt]
    exact hm.next i hni hlt
  · intro idx hidx
    show m.pfList idx =
      if _ then Link.qh (Function.update m.iqh n a (level idx)) else _
    rw [hm.frame idx hidx]
    split
    · rename_i hc
      rw [hi _ ((le_level_iff hc.1).mpr hc.2)]
    · rfl
  · intro i j hni hi' hnj hj he
    have he' : Function.update m.iqh n a i = Function.update m.iqh n a j := he
    rw [hi i hni, hi j hnj] at he'
    exact hm.inj i j hni hi' hnj hj he'

theorem Hooked.hookedAt {n : Nat} {a : Addr} {m : Links} (hm : Hooked (n + 1) m) (hn : n < numIqh)
    (ha : m.iqh n = a) (hne : ∀ i, n + 1 ≤ i → i < numIqh → m.iqh i ≠ a)
    (hl : m.hLink a = .terminate) : Hooked n (hookedAt n a m) := by
  have hlink : ∀ b, (n + 1 < numIqh → b ≠ m.iqh (n + 1)) →
      (Ehci.hookedAt n a m).hLink b = m.hLink b := by
    intro b hb
    unfold Ehci.hookedAt
    dsimp only
    split
    · rename_i hlt; exact Function.update_of_ne (hb hlt) ..
    · rfl
  constructor
  · intro _
    show (Ehci.hookedAt n a m).hLink (m.iqh n) = _
    rw [hlink _ fun hlt => ha ▸ (hne (n + 1) (Nat.le_refl _) hlt).symm, ha]
    exact hl
  · intro i hni hlt
    show (Ehci.hookedAt n a m).hLink (m.iqh (i + 1)) = .qh (m.iqh i)
    by_cases hin : i = n
    · subst hin
      have hu : (Ehci.hookedAt i a m).hLink = Function.update m.hLink (m.iqh (i + 1)) (.qh a) := by
        unfold Ehci.hookedAt; dsimp only; rw [if_pos hlt]
      rw [hu, Function.update_self, ha]
    · rw [hlink _ fun hlt' he => ?_]
      · exact hm.next i (by omega) hlt
      · have := hm.inj _ _ (by omega) hlt (Nat.le_refl _) hlt' he
        omega
  · intro idx hidx
    show (if idx < flSize ∧ 2 ^ n ∣ idx + 1 ∧ m.pfList idx = .null then Link.qh a else m.pfList idx) =
      if n < numIqh ∧ 2 ^ n ∣ idx + 1 then .qh (m.iqh (level idx)) else .null
    rw [hm.frame idx hidx]
    by_cases hd : 2 ^ n ∣ idx + 1
    · by_cases hd' : n + 1 < numIqh ∧ 2 ^ (n + 1) ∣ idx + 1
      · simp [hd', hd, hn]
      · have hlev : level idx = n := by
          have h1 := (le_level_iff hn).mpr hd
          by_cases hlt : n + 1 < numIqh
          · have h2 := mt (le_level_iff hlt).mp fun h => hd' ⟨hlt, h⟩
            omega
          · have := level_lt idx
            omega
        simp [hd', hd, hn, hidx, hlev, ha]
    · have hd' : ¬ 2 ^ (n + 1) ∣ idx + 1 := fun h =>
        hd (Nat.dvd_trans (Nat.pow_dvd_pow 2 (Nat.le_succ n)) h)
      simp [hd, hd']
  · intro i j hni hi hnj hj he
    have he' : m.iqh i = m.iqh j := he
    by_cases hin : i = n <;> by_cases hjn : j = n
    · rw [hin, hjn]
    · subst hin
      exact absurd (he'.symm.trans ha) (hne j (by omega) hj)
    · subst hjn
      exact absurd (he'.trans ha) (hne i (by omega) hi)
    · exact hm.inj i j (by omega) hi (by omega) hj he'

/-! ## The state behind `ehci_init` -/

/-- `_H_qh` and the interval heads from `_Iqh[n]` up. -/
def IsRoot (n : Nat) (m : Links) (a : Addr) : Prop :=
  a = m.hQh ∨ ∃ i, n ≤ i ∧ i < numIqh ∧ a = m.iqh i

/-- The roots allocated so far, over the pool `unit₀` that the driver was started with. -/
structure Booted (unit₀ : Addr → Option HwKind) (n : Nat) (m : Links) : Prop
    extends Hooked n m where
  unitGhost : m.pool.unit m.ghostQtd = some .qtd
  unitRoot : ∀ a, IsRoot n m a → m.pool.unit a = some .qh
  unitOther : ∀ a, a ≠ m.ghostQtd → ¬ IsRoot n m a → m.pool.unit a = unit₀ a
  sidx : m.pool.sidx < hwMemUnitNum
  ghostLt : m.ghostQtd < hwMemUnitNum
  rootLt : ∀ a, IsRoot n m a → a < hwMemUnitNum
  iqhNe : ∀ i, n ≤ i → i < numIqh → m.iqh i ≠ m.hQh
  ring : m.hLink m.hQh = .qh m.hQh
  lists : ∀ a, IsRoot n m a → m.qtdList a = none ∧ m.doneList a = none
  removed : m.qhRemoveList = none
  isoEps : m.isoEpList = none

theorem isRoot_step {n : Nat} {a b : Addr} {m m' : Links} (hn : n < numIqh) (hh : m'.hQh = m.hQh)
    (hi : m'.iqh = Function.update m.iqh n a) :
    IsRoot n m' b ↔ b = a ∨ IsRoot (n + 1) m b := by
  unfold IsRoot
  rw [hh, hi]
  constructor
  · rintro (he | ⟨i, hni, hlt, he⟩)
    · exact .inr (.inl he)
    · by_cases hin : i = n
      · subst hin; rw [Function.update_self] at he; exact .inl he
      · rw [Function.update_of_ne hin] at he; exact .inr (.inr ⟨i, by omega, hlt, he⟩)
  · rintro (he | he | ⟨i, hni, hlt, he⟩)
    · exact .inr ⟨n, Nat.le_refl n, hn, by rw [Function.update_self]; exact he⟩
    · exact .inl he
    · exact .inr ⟨i, by omega, hlt, by rw [Function.update_of_ne (by omega)]; exact he⟩

/-- Allocating and hooking one more head. -/
theorem Booted.step {unit₀ : Addr → Option HwKind} {n : Nat} {a : Addr} {m m' : Links}
    (hb : Booted unit₀ (n + 1) m) (hn : n < numIqh) (h : m.allocEhciQh = some (a, m')) :
    Booted unit₀ n (hookedAt n a (withIqh n a m')) := by
  obtain ⟨halt, hau, hm'⟩ := allocEhciQh_some h
  have hrootNe : ∀ b, IsRoot (n + 1) m b → b ≠ a := fun b hr he => by
    have hu := hb.unitRoot b hr
    rw [he, hau] at hu
    cases hu
  have hghostNe : m.ghostQtd ≠ a := fun he => by
    have hu := hb.unitGhost
    rw [he, hau] at hu
    cases hu
  have hiqhNe : ∀ i, n + 1 ≤ i → i < numIqh → m.iqh i ≠ a := fun i hi hlt =>
    hrootNe _ (.inr ⟨i, hi, hlt, rfl⟩)
  have hhooked : Hooked (n + 1) m' := by
    have hl : ∀ b, b ≠ a → m'.hLink b = m.hLink b := fun b hb' => by
      rw [hm']; exact Function.update_of_ne hb' ..
    rw [hm'] at hl ⊢
    constructor
    · exact fun hlt => (hl _ (hiqhNe _ (Nat.le_refl _) hlt)).trans (hb.last hlt)
    · exact fun i hi hlt => (hl _ (hiqhNe _ (by omega) hlt)).trans (hb.next i hi hlt)
    · exact hb.frame
    · exact hb.inj
  have hne' : ∀ i, n + 1 ≤ i → i < numIqh → m'.iqh i ≠ a := by rw [hm']; exact hiqhNe
  have hself : (withIqh n a m').iqh n = a := Function.update_self ..
  have hne : ∀ i, n + 1 ≤ i → i < numIqh → (withIqh n a m').iqh i ≠ a := fun i hi hlt => by
    show Function.update m'.iqh n a i ≠ a
    rw [Function.update_of_ne (by omega)]
    exact hne' i hi hlt
  have hhook := (hhooked.withIqh hne').hookedAt hn hself hne (Function.update_self ..)
  have hroot : ∀ b, IsRoot n (hookedAt n a (withIqh n a m')) b ↔ b = a ∨ IsRoot (n + 1) m b :=
    fun b => isRoot_step hn (by rw [hm']; rfl) (by rw [hm']; rfl)
  have hunit : ∀ b, (hookedAt n a (withIqh n a m')).pool.unit b =
      Function.update m.pool.unit a (some .qh) b := fun b => by rw [hm']; rfl
  have hghost : (hookedAt n a (withIqh n a m')).ghostQtd = m.ghostQtd := by rw [hm']; rfl
  have hqtd : ∀ b, (hookedAt n a (withIqh n a m')).qtdList b = Function.update m.qtdList a none b :=
    fun b => by rw [hm']; rfl
  have hdone : ∀ b, (hookedAt n a (withIqh n a m')).doneList b = Function.update m.doneList a none b :=
    fun b => by rw [hm']; rfl
  have hhead : (hookedAt n a (withIqh n a m')).hQh = m.hQh := by rw [hm']; rfl
  constructor
  · exact hhook
  · rw [hghost, hunit, Function.update_of_ne hghostNe]; exact hb.unitGhost
  · intro b hr
    rw [hunit]
    rcases (hroot b).mp hr with rfl | hr
    · exact Function.update_self ..
    · rw [Function.update_of_ne (hrootNe b hr)]; exact hb.unitRoot b hr
  · intro b hbg hr
    have hr' := mt (hroot b).mpr hr
    rw [hghost] at hbg
    rw [hunit, Function.update_of_ne fun he => hr' (.inl he)]
    exact hb.unitOther b hbg fun hr => hr' (.inr hr)
  · rw [hm']; exact halt
  · rw [hghost]; exact hb.ghostLt
  · intro b hr
    rcases (hroot b).mp hr with rfl | hr
    · exact halt
    · exact hb.rootLt b hr
  · intro i hi hlt
    rw [hhead]
    show (withIqh n a m').iqh i ≠ m.hQh
    by_cases hin : i = n
    · subst hin; rw [hself]; exact (hrootNe _ (.inl rfl)).symm
    · have hiq : (withIqh n a m').iqh i = m.iqh i := by
        rw [hm']; exact Function.update_of_ne hin ..
      rw [hiq]
      exact hb.iqhNe i (by omega) hlt
  · rw [hhead]
    have hha : m.hQh ≠ a := hrootNe _ (.inl rfl)
    have h0 : (withIqh n a m').hLink m.hQh = .qh m.hQh := by
      rw [hm']
      show Function.update (Function.update m.hLink a .null) a .terminate m.hQh = _
      rw [Function.update_of_ne hha, Function.update_of_ne hha]
      exact hb.ring
    unfold hookedAt
    dsimp only
    split
    · rename_i hlt
      have hiq : (withIqh n a m').iqh (n + 1) = m.iqh (n + 1) := by
        rw [hm']; exact Function.update_of_ne (by omega) ..
      rw [hiq, Function.update_of_ne (hb.iqhNe (n + 1) (Nat.le_refl _) hlt).symm]
      exact h0
    · exact h0
  · intro b hr
    rw [hqtd, hdone]
    rcases (hroot b).mp hr with rfl | hr
    · exact ⟨Function.update_self .., Function.update_self ..⟩
    · rw [Function.update_of_ne (hrootNe b hr), Function.update_of_ne (hrootNe b hr)]
      exact hb.lists b hr
  · rw [hm']; exact hb.removed
  · rw [hm']; exact hb.isoEps

/-- The fields of the client and of the record that initialisation leaves alone. -/
structure SameClient (s s' : Ehci) : Prop where
  ep : s'.ep = s.ep
  hwPipe : s'.hwPipe = s.hwPipe
  trace : s'.trace = s.trace
  utrEp : s'.utrEp = s.utrEp
  utr : s'.utr = s.utr
  psen : s'.psen = s.psen
  bell : ∃ f, s'.bell = { s.bell with stamp := f }

theorem SameClient.trans {s₁ s₂ s₃ : Ehci} (h : SameClient s₁ s₂) (h' : SameClient s₂ s₃) :
    SameClient s₁ s₃ :=
  ⟨h'.ep.trans h.ep, h'.hwPipe.trans h.hwPipe, h'.trace.trans h.trace, h'.utrEp.trans h.utrEp,
    h'.utr.trans h.utr, h'.psen.trans h.psen, by
      obtain ⟨f, hf⟩ := h.bell
      obtain ⟨g, hg⟩ := h'.bell
      exact ⟨g, by rw [hg, hf]⟩⟩

theorem allocEhciQh_ehci {s s' : Ehci} {a : Addr} (h : s.allocEhciQh = some (a, s')) :
    s.toLinks.allocEhciQh = some (a, s'.toLinks) ∧ SameClient s s' := by
  unfold allocEhciQh at h
  rw [Option.map_eq_some_iff] at h
  obtain ⟨⟨b, m⟩, hm, he⟩ := h
  obtain ⟨rfl, rfl⟩ := Prod.mk.inj he
  obtain ⟨_, _, hm'⟩ := allocEhciQh_some hm
  have hep : m.ep = s.ep := by rw [hm']
  have hpipe : m.hwPipe = s.hwPipe := by rw [hm']
  exact ⟨hm, ⟨hep, hpipe, rfl, rfl, rfl, rfl, _, rfl⟩⟩

/-- The loop body of `init_periodic_frame_list` with the walks along the frames done. -/
def hookedIqh (i : Nat) (s : Ehci) : Option Ehci :=
  s.allocEhciQh.map fun r =>
    let s := r.2.setQhHw r.1 (initHeadHw r.2.ghostQtd)
    s.setLinks (hookedAt i r.1 (withIqh i r.1 s.toLinks))

theorem initIqh_eq {unit₀ : Addr → Option HwKind} {n : Nat} {s : Ehci}
    (hb : Booted unit₀ (n + 1) s.toLinks) (hn : n < numIqh) : initIqh n s = hookedIqh n s := by
  unfold initIqh hookedIqh
  cases ha : s.allocEhciQh with
  | none => rfl
  | some r =>
    obtain ⟨a, s₁⟩ := r
    obtain ⟨hal, -⟩ := allocEhciQh_ehci ha
    obtain ⟨halt, hau, hm'⟩ := allocEhciQh_some hal
    have hne : ∀ i, n + 1 ≤ i → i < numIqh → s₁.iqh i ≠ a := by
      intro i hi hlt he
      have hiq : s₁.iqh i = s.iqh i := by rw [hm']
      rw [hiq] at he
      have hu := hb.unitRoot _ (.inr ⟨i, hi, hlt, rfl⟩)
      rw [he, hau] at hu
      cases hu
    have hhooked : Hooked (n + 1) s₁.toLinks := by
      have hl : ∀ i, n + 1 ≤ i → i < numIqh → s₁.hLink (s.iqh i) = s.hLink (s.iqh i) := by
        intro i hi hlt
        have := hne i hi hlt
        rw [hm'] at this ⊢
        exact Function.update_of_ne this ..
      rw [hm'] at hl ⊢
      exact ⟨fun hlt => (hl _ (Nat.le_refl _) hlt).trans (hb.last hlt),
        fun i hi hlt => (hl _ (by omega) hlt).trans (hb.next i hi hlt), hb.frame, hb.inj⟩
    have hne' : ∀ i, n + 1 ≤ i → i < numIqh → (withIqh n a s₁.toLinks).iqh i ≠ a := by
      intro i hi hlt
      show Function.update s₁.iqh n a i ≠ a
      rw [Function.update_of_ne (by omega)]
      exact hne i hi hlt
    have heq := hookFrames_eq (hhooked.withIqh hne) hn hne'
    show Option.map _ (hookFrames a (2 ^ n) (flSize / 2 ^ n) (withIqh n a s₁.toLinks)) = _
    rw [heq]
    rfl

theorem initIqh_booted {unit₀ : Addr → Option HwKind} {n : Nat} {s s' : Ehci}
    (hb : Booted unit₀ (n + 1) s.toLinks) (hn : n < numIqh) (h : initIqh n s = some s') :
    Booted unit₀ n s'.toLinks ∧ SameClient s s' := by
  rw [initIqh_eq hb hn] at h
  obtain ⟨⟨a, s₁⟩, ha, rfl⟩ := Option.map_eq_some_iff.mp h
  obtain ⟨hal, hsame⟩ := allocEhciQh_ehci ha
  exact ⟨hb.step hn hal, hsame.trans ⟨rfl, rfl, rfl, rfl, rfl, rfl, _, rfl⟩⟩

theorem initIqhs_booted {unit₀ : Addr → Option HwKind} {n : Nat} {s s' : Ehci}
    (hb : Booted unit₀ n s.toLinks) (hn : n ≤ numIqh) (h : initIqhs n s = some s') :
    Booted unit₀ 0 s'.toLinks ∧ SameClient s s' := by
  induction n generalizing s with
  | zero =>
    obtain rfl := Option.some.inj h
    exact ⟨hb, ⟨rfl, rfl, rfl, rfl, rfl, rfl, _, rfl⟩⟩
  | succ n ih =>
    rw [initIqhs, Option.bind_eq_some_iff] at h
    obtain ⟨s₁, h₁, h⟩ := h
    obtain ⟨hb₁, hc₁⟩ := initIqh_booted hb hn h₁
    obtain ⟨hb', hc'⟩ := ih hb₁ (Nat.le_of_succ_le hn) h
    exact ⟨hb', hc₁.trans hc'⟩

/-- `ehci_init` up to the ghost qTD and the head of the ring, with an empty frame list. -/
def initRoots (s : Ehci) : Option Ehci :=
  let s := { s with asen := false, psen := false, bell := { s.bell with iaad := false } }
  (s.allocEhciQtd none).bind fun r =>
    let s := { r.2 with
      ghostQtd := r.1
      token := Function.update r.2.token r.1 0x11197B7F#32
      qhRemoveList := none }
    s.allocEhciQh.map fun r =>
      let s := { r.2 with
        hQh := r.1
        hLink := Function.update r.2.hLink r.1 (.qh r.1) }
      let s := s.setQhHw r.1 fun q =>
        { initHeadHw s.ghostQtd q with chrst := 0x8000#32 }
      s.setLinks { s.toLinks with pfList := fun _ => .null, isoEpList := none }

theorem ehciInit_roots (s : Ehci) :
    ehciInit true s = ((initRoots s).bind (initIqhs numIqh)).map fun s => (0, s) := by
  unfold ehciInit initRoots
  rw [if_neg Bool.noConfusion]
  dsimp only
  rw [Option.bind_assoc, Option.map_bind]
  refine congrArg _ (funext fun r => ?_)
  dsimp only [Function.comp]
  generalize Ehci.allocEhciQh _ = found
  cases found with
  | none => rfl
  | some r => rfl

theorem initRoots_booted {s s' : Ehci} (h : initRoots s = some s') :
    Booted s.pool.unit numIqh s'.toLinks ∧
      SameClient { s with psen := false, bell := { s.bell with iaad := false } } s' := by
  obtain ⟨⟨g, s₁⟩, hg, h⟩ := Option.bind_eq_some_iff.mp h
  obtain ⟨⟨q, s₂⟩, hq, rfl⟩ := Option.map_eq_some_iff.mp h
  obtain ⟨⟨g', m₁⟩, hm₁, he₁⟩ := Option.map_eq_some_iff.mp hg
  obtain ⟨rfl, rfl⟩ := Prod.mk.inj he₁
  obtain ⟨hglt, hgu, rfl⟩ := allocEhciQtd_some hm₁
  obtain ⟨hal, hsame⟩ := allocEhciQh_ehci hq
  obtain ⟨hqlt, hqu, hm₂⟩ := allocEhciQh_some hal
  have hgq : q ≠ g' := by
    rintro rfl
    have hu : Function.update s.pool.unit q (some .qtd) q = none := hqu
    rw [Function.update_self] at hu
    cases hu
  have hnone : ∀ (P : Nat → Prop), ¬ ∃ i, numIqh ≤ i ∧ i < numIqh ∧ P i := by
    rintro P ⟨i, h1, h2, _⟩; omega
  refine ⟨?_, ⟨hsame.ep, hsame.hwPipe, hsame.trace, hsame.utrEp, hsame.utr, hsame.psen, ?_⟩⟩
  swap
  · obtain ⟨f, hf⟩ := hsame.bell
    refine ⟨f, ?_⟩
    show s₂.bell = _
    rw [hf]
    rfl
  constructor
  · refine ⟨fun hlt => absurd hlt (Nat.lt_irrefl _), fun i hi hlt => by omega,
      fun idx _ => ?_, fun i j hi hlt => by omega⟩
    rw [if_neg fun hc => absurd hc.1 (Nat.lt_irrefl _)]
    rfl
  · show s₂.pool.unit s₂.ghostQtd = some .qtd
    rw [hm₂]
    show Function.update (Function.update s.pool.unit g' (some .qtd)) q (some .qh) g' = _
    rw [Function.update_of_ne hgq.symm, Function.update_self]
  · rintro b (he | hr)
    · show s₂.pool.unit b = some .qh
      rw [show b = q from he, hm₂]
      exact Function.update_self ..
    · exact absurd hr (hnone _)
  · intro b hbg hr
    have hbq : b ≠ q := fun he => hr (.inl he)
    have hbg' : b ≠ s₂.ghostQtd := hbg
    show s₂.pool.unit b = s.pool.unit b
    rw [hm₂] at hbg' ⊢
    show Function.update (Function.update s.pool.unit g' (some .qtd)) q (some .qh) b = _
    rw [Function.update_of_ne hbq, Function.update_of_ne hbg']
  · show s₂.pool.sidx < hwMemUnitNum
    rw [hm₂]
    exact hqlt
  · show s₂.ghostQtd < hwMemUnitNum
    rw [hm₂]
    exact hglt
  · rintro b (rfl | hr)
    · exact hqlt
    · exact absurd hr (hnone _)
  · exact fun i h1 h2 => by omega
  · show Function.update s₂.hLink q (.qh q) q = .qh q
    exact Function.update_self ..
  · rintro b (he | hr)
    · show s₂.qtdList b = none ∧ s₂.doneList b = none
      rw [show b = q from he, hm₂]
      exact ⟨Function.update_self .., Function.update_self ..⟩
    · exact absurd hr (hnone _)
  · show s₂.qhRemoveList = none
    rw [hm₂]
  · rfl

/-- `for (i = NUM_IQH-1; i >= 0; i--)` with the walks along the frames done. -/
def hookedIqhs : Nat → Ehci → Option Ehci
  | 0, s => some s
  | n + 1, s => (hookedIqh n s).bind (hookedIqhs n)

theorem initIqhs_eq {unit₀ : Addr → Option HwKind} {n : Nat} {s : Ehci}
    (hb : Booted unit₀ n s.toLinks) (hn : n ≤ numIqh) : initIqhs n s = hookedIqhs n s := by
  induction n generalizing s with
  | zero => rfl
  | succ n ih =>
    rw [initIqhs, hookedIqhs, ← initIqh_eq hb hn]
    cases h : initIqh n s with
    | none => rfl
    | some s₁ => exact ih (initIqh_booted hb hn h).1 (Nat.le_of_succ_le hn)

/-- `ehci_init` without the walks along the frames. -/
theorem ehciInit_eq (s : Ehci) :
    ehciInit true s = ((initRoots s).bind (hookedIqhs numIqh)).map fun s => (0, s) := by
  rw [ehciInit_roots]
  cases h : initRoots s with
  | none => rw [Option.bind_none, Option.bind_none]
  | some s₁ =>
    rw [Option.bind_some, Option.bind_some, initIqhs_eq (initRoots_booted h).1 (Nat.le_refl _)]

/-- What `ehci_init` leaves. -/
theorem ehciInit_booted {s s' : Ehci} (h : ehciInit true s = some (0, s')) :
    Booted s.pool.unit 0 s'.toLinks ∧ s'.ep = s.ep ∧ s'.hwPipe = s.hwPipe ∧ s'.trace = s.trace ∧
      s'.utrEp = s.utrEp ∧ s'.utr = s.utr ∧ s'.psen = false ∧
      ∃ f, s'.bell = { s.bell with iaad := false, stamp := f } := by
  rw [ehciInit_roots] at h
  obtain ⟨s₃, h₃, he⟩ := Option.map_eq_some_iff.mp h
  obtain rfl := (Prod.mk.inj he).2
  obtain ⟨s₂, h₂, h₃⟩ := Option.bind_eq_some_iff.mp h₃
  obtain ⟨hb₂, hc₂⟩ := initRoots_booted h₂
  obtain ⟨hb, hc₃⟩ := initIqhs_booted hb₂ (Nat.le_refl _) h₃
  have hc := hc₂.trans hc₃
  exact ⟨hb, hc.ep, hc.hwPipe, hc.trace, hc.utrEp, hc.utr, hc.psen, hc.bell⟩

/-! ## The view behind `ehci_init` -/

/-- The roots have their roles, and every list is empty. -/
def bootView (m : Links) : View where
  role a :=
    if a = m.ghostQtd then .ghost
    else if a = m.hQh then .head
    else match (List.range numIqh).find? (fun i => m.iqh i = a) with
      | some i => .iqh i
      | none => .free
  ring := []
  under _ := []
  removed := []
  queued _ := []
  done _ := []
  tds _ _ := []
  orphans := []
  frame _ := []
  isoEps := []

section BootView

variable {unit₀ : Addr → Option HwKind} {m : Links} {a : Addr}

theorem Booted.ghost_not_root (hb : Booted unit₀ 0 m) : ¬ IsRoot 0 m m.ghostQtd := by
  intro hr
  have hu := hb.unitRoot _ hr
  rw [hb.unitGhost] at hu
  cases hu

theorem Booted.iqh_root (_ : Booted unit₀ 0 m) {i : Nat} (hi : i < numIqh) : IsRoot 0 m (m.iqh i) :=
  .inr ⟨i, Nat.zero_le i, hi, rfl⟩

theorem Booted.ne_ghost (hb : Booted unit₀ 0 m) (hr : IsRoot 0 m a) : a ≠ m.ghostQtd :=
  fun he => hb.ghost_not_root (he ▸ hr)

theorem bootView_ghost : (bootView m).role m.ghostQtd = .ghost := if_pos rfl

theorem bootView_head (hb : Booted unit₀ 0 m) : (bootView m).role m.hQh = .head := by
  show (if _ then _ else _) = _
  rw [if_neg (hb.ne_ghost (.inl rfl)), if_pos rfl]

theorem bootView_iqh (hb : Booted unit₀ 0 m) {i : Nat} (hi : i < numIqh) :
    (bootView m).role (m.iqh i) = .iqh i := by
  show (if _ then _ else _) = _
  rw [if_neg (hb.ne_ghost (hb.iqh_root hi)), if_neg (hb.iqhNe i (Nat.zero_le i) hi)]
  cases hf : (List.range numIqh).find? fun j => m.iqh j = m.iqh i with
  | none =>
    rw [List.find?_eq_none] at hf
    exact absurd (decide_eq_true rfl) (hf i (List.mem_range.mpr hi))
  | some j =>
    have hj := List.mem_range.mp (List.mem_of_find?_eq_some hf)
    have he : m.iqh j = m.iqh i := by simpa using List.find?_some hf
    rw [hb.inj j i (Nat.zero_le j) hj (Nat.zero_le i) hi he]

theorem bootView_free (hg : a ≠ m.ghostQtd) (hr : ¬ IsRoot 0 m a) : (bootView m).role a = .free := by
  show (if _ then _ else _) = _
  rw [if_neg hg, if_neg fun he => hr (.inl he)]
  have hf : (List.range numIqh).find? (fun j => m.iqh j = a) = none := by
    rw [List.find?_eq_none]
    intro j hj he
    exact hr (.inr ⟨j, Nat.zero_le j, List.mem_range.mp hj, (of_decide_eq_true he).symm⟩)
  rw [hf]

theorem bootView_cases (hb : Booted unit₀ 0 m) (a : Addr) :
    (a = m.ghostQtd ∧ (bootView m).role a = .ghost) ∨ (a = m.hQh ∧ (bootView m).role a = .head) ∨
      (∃ i < numIqh, a = m.iqh i ∧ (bootView m).role a = .iqh i) ∨
      (a ≠ m.ghostQtd ∧ ¬ IsRoot 0 m a ∧ (bootView m).role a = .free) := by
  by_cases hg : a = m.ghostQtd
  · exact .inl ⟨hg, hg ▸ bootView_ghost⟩
  by_cases hr : IsRoot 0 m a
  · rcases hr with rfl | ⟨i, _, hi, rfl⟩
    · exact .inr (.inl ⟨rfl, bootView_head hb⟩)
    · exact .inr (.inr (.inl ⟨i, hi, rfl, bootView_iqh hb hi⟩))
  · exact .inr (.inr (.inr ⟨hg, hr, bootView_free hg hr⟩))

private theorem bootView_roles (hb : Booted unit₀ 0 m)
    (h₀ : ∀ a k, unit₀ a = some k → k.isEhci = false) :
    Roles m.pool.unit m.hQh m.ghostQtd m.iqh (bootView m) := by
  constructor
  · intro a ha
    rcases bootView_cases hb a with ⟨rfl, he⟩ | ⟨rfl, he⟩ | ⟨i, hi, rfl, he⟩ | ⟨_, _, he⟩ <;> rw [he]
    · exact ⟨hb.ghostLt, hb.unitGhost⟩
    · exact ⟨hb.rootLt _ (.inl rfl), hb.unitRoot _ (.inl rfl)⟩
    · exact ⟨hb.rootLt _ (hb.iqh_root hi), hb.unitRoot _ (hb.iqh_root hi)⟩
    · exact absurd he ha
  · intro a ha k hk
    rcases bootView_cases hb a with ⟨rfl, he⟩ | ⟨rfl, he⟩ | ⟨i, hi, rfl, he⟩ | ⟨hg, hr, _⟩
    · rw [he] at ha; cases ha
    · rw [he] at ha; cases ha
    · rw [he] at ha; cases ha
    · exact h₀ a k ((hb.unitOther a hg hr).symm.trans hk)
  · intro r a hr
    have hl : (bootView m).list r = [] := by cases r <;> rfl
    rw [hl]
    refine ⟨fun h => absurd h List.not_mem_nil, fun he => ?_⟩
    rcases bootView_cases hb a with ⟨_, h⟩ | ⟨_, h⟩ | ⟨i, _, _, h⟩ | ⟨_, _, h⟩ <;> rw [h] at he <;>
      subst he <;> cases hr
  · intro a
    refine ⟨fun ha => ?_, fun ha => ha ▸ bootView_head hb⟩
    rcases bootView_cases hb a with ⟨_, h⟩ | ⟨he, _⟩ | ⟨i, _, _, h⟩ | ⟨_, _, h⟩
    · rw [h] at ha; cases ha
    · exact he
    · rw [h] at ha; cases ha
    · rw [h] at ha; cases ha
  · intro a
    refine ⟨fun ha => ?_, fun ha => ha ▸ bootView_ghost⟩
    rcases bootView_cases hb a with ⟨he, _⟩ | ⟨_, h⟩ | ⟨i, _, _, h⟩ | ⟨_, _, h⟩
    · exact he
    · rw [h] at ha; cases ha
    · rw [h] at ha; cases ha
    · rw [h] at ha; cases ha
  · intro i a
    refine ⟨fun ha => ?_, fun ⟨hi, ha⟩ => ha ▸ bootView_iqh hb hi⟩
    rcases bootView_cases hb a with ⟨_, h⟩ | ⟨_, h⟩ | ⟨j, hj, he, h⟩ | ⟨_, _, h⟩
    · rw [h] at ha; cases ha
    · rw [h] at ha; cases ha
    · rw [h] at ha; cases ha; exact ⟨hj, he⟩
    · rw [h] at ha; cases ha
  all_goals intros; contradiction

theorem boot_chain (hb : Booted unit₀ 0 m) {n : Nat} (hn : n < numIqh) :
    Path Link.qh m.hLink (.qh (m.iqh n)) (chainFrom m.iqh (fun _ => []) (n + 1)) .terminate := by
  induction n with
  | zero => exact ⟨rfl, hb.last (by decide)⟩
  | succ n ih =>
    refine ⟨rfl, ?_⟩
    rw [hb.next n (Nat.zero_le n) hn]
    exact ih (Nat.lt_of_succ_lt hn)

theorem bootView_shape (hb : Booted unit₀ 0 m)
    (h₀ : ∀ a k, unit₀ a = some k → k.isEhci = false) : Shape m (bootView m) where
  toRoles := bootView_roles hb h₀
  sidx := hb.sidx
  ring := ⟨rfl, hb.ring⟩
  chain := boot_chain hb (by decide)
  asyncUnder _ h := absurd h List.not_mem_nil
  intrUnder _ _ h := absurd h List.not_mem_nil
  removed := hb.removed
  queued h hh := by
    by_cases hr : IsRoot 0 m h
    · exact (hb.lists h hr).1
    · have hg : h ≠ m.ghostQtd := by rintro rfl; rw [hb.unitGhost] at hh; cases hh
      have hk := h₀ h .qh ((hb.unitOther h hg hr).symm.trans hh)
      cases hk
  done h hh := by
    by_cases hr : IsRoot 0 m h
    · exact (hb.lists h hr).2
    · have hg : h ≠ m.ghostQtd := by rintro rfl; rw [hb.unitGhost] at hh; cases hh
      have hk := h₀ h .qh ((hb.unitOther h hg hr).symm.trans hh)
      cases hk
  frame idx hi := by
    have hf := hb.frame idx hi
    rw [if_pos ⟨by decide, Nat.one_dvd _⟩] at hf
    exact hf
  frameMem _ _ a :=
    ⟨fun h => absurd h List.not_mem_nil, by rintro (⟨_, _, h, _⟩ | ⟨h, _⟩) <;> cases h⟩
  schedLt _ _ _ h := absurd h List.not_mem_nil
  orphanLt _ h := absurd h List.not_mem_nil
  isoEps := hb.isoEps
  isoDma _ h := absurd h List.not_mem_nil
  nextLt _ h := absurd h List.not_mem_nil
  tds _ _ h := absurd h List.not_mem_nil

end BootView

end Ma35d1.UsbHost.Ehci
