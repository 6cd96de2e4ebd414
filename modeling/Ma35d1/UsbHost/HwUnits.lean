import Mathlib.Data.List.Count
import Ma35d1.Machine.Trace
import Ma35d1.UsbHost.MemAlloc

/-!
# The units of the descriptor pool

The OHCI allocators search from the first unit on, the EHCI allocators from the one behind `_sidx`
round to the one before it. Beside the pool stand the units that the callers hold.
-/

namespace Ma35d1.UsbHost

open Machine.Trace

/-- The pool and the units that are live, each with its kind -/
structure HwHeap where
  pool : HwPool
  live : List (Nat × HwKind)

namespace HwPool

variable {p : HwPool} {n i d : Nat} {k : HwKind}

/-- The allocator of a kind -/
def allocKind (p : HwPool) (k : HwKind) : Option (Nat × HwPool) :=
  if k.isEhci then p.allocEhci k else p.allocOhci k

theorem allocKind_some {p' : HwPool} {a : Nat} (h : p.allocKind k = some (a, p')) :
    a < hwMemUnitNum ∧ p.unit a = none ∧ p'.unit = Function.update p.unit a (some k) ∧
      p'.hwMemUsedCnt = p.hwMemUsedCnt + 1 ∧
      p'.usedCnt = Function.update p.usedCnt k (p.usedCnt k + 1) ∧
      p'.sidx = (if k.isEhci then a else p.sidx) := by
  unfold allocKind at h
  by_cases hk : k.isEhci = true
  · rw [if_pos hk] at h
    obtain ⟨hlt, hu, rfl⟩ := allocEhci_some h
    exact ⟨hlt, hu, rfl, rfl, rfl, (if_pos hk).symm⟩
  · rw [if_neg hk] at h
    obtain ⟨hlt, hu, rfl⟩ := allocOhci_some h
    exact ⟨hlt, hu, rfl, rfl, rfl, (if_neg hk).symm⟩

/-- The search round the pool, `d` units behind the one it began with: all units from there on are
taken but the one at `_sidx`, which it does not come to. -/
theorem rotFree_none_iff (hs : p.sidx < hwMemUnitNum) (hd : d + n = hwMemUnitNum) :
    p.rotFree n ((p.sidx + 1 + d) % hwMemUnitNum) = none ↔
      ∀ e, d ≤ e → e + 1 < hwMemUnitNum → p.unit ((p.sidx + 1 + e) % hwMemUnitNum) ≠ none := by
  induction n generalizing d with
  | zero => exact ⟨fun _ e hde he => by omega, fun _ => rfl⟩
  | succ n ih =>
    have hnext : ((p.sidx + 1 + d) % hwMemUnitNum + 1) % hwMemUnitNum =
        (p.sidx + 1 + (d + 1)) % hwMemUnitNum := by
      rw [Nat.mod_add_mod]
      rfl
    rw [rotFree]
    by_cases hlast : d + 1 = hwMemUnitNum
    · have hround : (p.sidx + 1 + d) % hwMemUnitNum = p.sidx := by
        rw [show p.sidx + 1 + d = p.sidx + hwMemUnitNum by omega, Nat.add_mod_right,
          Nat.mod_eq_of_lt hs]
      rw [if_pos hround]
      exact ⟨fun _ e hde he => by omega, fun _ => rfl⟩
    · have hne : (p.sidx + 1 + d) % hwMemUnitNum ≠ p.sidx := by
        unfold hwMemUnitNum at *
        omega
      rw [if_neg hne, hnext]
      by_cases hu : p.unit ((p.sidx + 1 + d) % hwMemUnitNum) = none
      · rw [if_pos hu]
        exact iff_of_false (fun h => by cases h) fun hall => hall d (Nat.le_refl d) (by omega) hu
      · rw [if_neg hu, ih (by omega)]
        refine ⟨fun hall e hde he => ?_, fun hall e hde he => hall e (by omega) he⟩
        by_cases hed : e = d
        · rw [hed]
          exact hu
        · exact hall e (by omega) he

/-- The EHCI allocators fail when all units but the one at `_sidx` are taken. -/
theorem allocEhci_eq_none_iff (hs : p.sidx < hwMemUnitNum) : p.allocEhci k = none ↔
    ∀ j < hwMemUnitNum, j ≠ p.sidx → p.unit j ≠ none := by
  have hrot := rotFree_none_iff (p := p) (d := 0) hs (Nat.zero_add _)
  rw [Nat.add_zero] at hrot
  rw [allocEhci, Option.map_eq_none_iff, hrot]
  constructor
  · intro hall j hj hne
    have hplace : (p.sidx + 1 + (j + hwMemUnitNum - p.sidx - 1) % hwMemUnitNum) % hwMemUnitNum =
        j := by
      unfold hwMemUnitNum at *
      omega
    have hfar := hall ((j + hwMemUnitNum - p.sidx - 1) % hwMemUnitNum) (Nat.zero_le _)
      (by unfold hwMemUnitNum at *; omega)
    rwa [hplace] at hfar
  · intro hall e _ he
    exact hall _ (Nat.mod_lt _ (by decide)) (by unfold hwMemUnitNum at *; omega)

theorem avail_eq_zero_iff : p.avail = 0 ↔ ∀ j < hwMemUnitNum, p.unit j ≠ none := by
  rw [avail, Finset.card_eq_zero, Finset.filter_eq_empty_iff]
  exact ⟨fun h j hj => h (Finset.mem_range.mpr hj), fun h j hj => h j (Finset.mem_range.mp hj)⟩

end HwPool

namespace HwHeap

variable {s t : HwHeap} {a : Nat} {k : HwKind} {pool : HwPool}

/-- `usbh_memory_init` -/
def init : HwHeap := ⟨HwPool.init, []⟩

inductive Event
  | alloc (k : HwKind)
  | free (a : Nat) (k : HwKind)

/-- Only a live unit is freed, with the function of its kind. -/
def step (s : HwHeap) : Event → Option HwHeap
  | .alloc k =>
    if k = .other then none
    else match s.pool.allocKind k with
      | none => some s
      | some (a, pool) => some ⟨pool, (a, k) :: s.live⟩
  | .free a k =>
    if (a, k) ∈ s.live then some ⟨s.pool.free k a, s.live.erase (a, k)⟩ else none

theorem step_alloc_some (hk : k ≠ .other) (ha : s.pool.allocKind k = some (a, pool)) :
    step s (.alloc k) = some ⟨pool, (a, k) :: s.live⟩ := by
  simp only [step, if_neg hk, ha]

theorem step_alloc_none (hk : k ≠ .other) (ha : s.pool.allocKind k = none) :
    step s (.alloc k) = some s := by
  simp only [step, if_neg hk, ha]

/-- No unit is live twice, the pool knows the live units and their kinds, and the counters are their
numbers. -/
structure Safe (s : HwHeap) : Prop where
  nodup : (s.live.map Prod.fst).Nodup
  lt : ∀ x ∈ s.live, x.1 < hwMemUnitNum
  unit : ∀ a k, s.pool.unit a = some k ↔ (a, k) ∈ s.live
  memCnt : s.pool.hwMemUsedCnt = s.live.length
  usedCnt : ∀ k, s.pool.usedCnt k = (s.live.map Prod.snd).count k
  sidx : s.pool.sidx < hwMemUnitNum

/-- An allocator returns `NULL` only if all units are in use. -/
def Complete (s : HwHeap) : Event → Prop
  | .alloc k => s.pool.allocKind k = none → s.live.length = hwMemUnitNum
  | .free _ _ => True

/-- An EHCI allocator is not called when the unit at `_sidx` is the only free one. -/
def SparesLast (s : HwHeap) : Event → Prop
  | .alloc k => k.isEhci = true → s.pool.unit s.pool.sidx = none →
      ∃ j < hwMemUnitNum, j ≠ s.pool.sidx ∧ s.pool.unit j = none
  | .free _ _ => True

theorem init_safe : Safe init where
  nodup := List.nodup_nil
  lt _ h := absurd h List.not_mem_nil
  unit _ _ := ⟨(nomatch ·), fun h => absurd h List.not_mem_nil⟩
  memCnt := rfl
  usedCnt _ := rfl
  sidx := by decide

/-- What a unit that is not free is, is live. -/
theorem Safe.notMem (h : Safe s) (hu : s.pool.unit a = none) : a ∉ s.live.map Prod.fst := by
  intro hm
  obtain ⟨⟨b, k⟩, hx, rfl⟩ := List.mem_map.mp hm
  have hb : s.pool.unit b = some k := (h.unit b k).mpr hx
  rw [hu] at hb
  cases hb

theorem alloc_safe (h : Safe s) (ha : s.pool.allocKind k = some (a, pool)) :
    Safe ⟨pool, (a, k) :: s.live⟩ := by
  obtain ⟨hlt, hu, hunit, hmem, hused, hsidx⟩ := HwPool.allocKind_some ha
  have hna := h.notMem hu
  constructor
  · exact List.nodup_cons.mpr ⟨hna, h.nodup⟩
  · exact List.forall_mem_cons.mpr ⟨hlt, h.lt⟩
  · intro b k'
    show pool.unit b = some k' ↔ _
    rw [hunit, List.mem_cons, Prod.mk.injEq]
    by_cases hb : b = a
    · subst hb
      rw [Function.update_self, Option.some.injEq]
      refine ⟨fun hk => .inl ⟨rfl, hk.symm⟩, fun hm => ?_⟩
      rcases hm with hk | hm
      · exact hk.2.symm
      · exact absurd (List.mem_map_of_mem hm) hna
    · rw [Function.update_of_ne hb, h.unit]
      exact ⟨.inr, fun hm => hm.resolve_left fun hk => hb hk.1⟩
  · show pool.hwMemUsedCnt = _
    rw [hmem, h.memCnt, List.length_cons]
    omega
  · intro k'
    show pool.usedCnt k' = _
    rw [hused, List.map_cons]
    by_cases hk : k' = k
    · subst hk
      rw [Function.update_self, List.count_cons_self, h.usedCnt]
      omega
    · rw [Function.update_of_ne hk, h.usedCnt, List.count_cons_of_ne fun he => hk he.symm]
  · show pool.sidx < _
    rw [hsidx]
    split
    · exact hlt
    · exact h.sidx

theorem free_safe (h : Safe s) (hx : (a, k) ∈ s.live) :
    Safe ⟨s.pool.free k a, s.live.erase (a, k)⟩ := by
  have hlt := h.lt _ hx
  have hperm := List.perm_cons_erase hx
  have hnodup : a ∉ (s.live.erase (a, k)).map Prod.fst ∧
      ((s.live.erase (a, k)).map Prod.fst).Nodup :=
    List.nodup_cons.mp ((hperm.map Prod.fst).nodup_iff.mp h.nodup)
  constructor
  · exact hnodup.2
  · exact fun x hm => h.lt x (List.mem_of_mem_erase hm)
  · intro b k'
    show (s.pool.free k a).unit b = some k' ↔ _
    rw [HwPool.free_unit hlt]
    by_cases hb : b = a
    · subst hb
      rw [Function.update_self]
      exact iff_of_false (fun hn => by cases hn) fun hm => hnodup.1 (List.mem_map_of_mem hm)
    · rw [Function.update_of_ne hb, h.unit, hperm.mem_iff, List.mem_cons, Prod.mk.injEq]
      exact ⟨fun hm => hm.resolve_left fun hk => hb hk.1, .inr⟩
  · show (s.pool.free k a).hwMemUsedCnt = _
    have hlen := hperm.length_eq
    rw [List.length_cons] at hlen
    rw [HwPool.free, if_pos hlt]
    show s.pool.hwMemUsedCnt - 1 = ((s.live.erase (a, k)).length : Int)
    rw [h.memCnt]
    omega
  · intro k'
    show (s.pool.free k a).usedCnt k' = _
    have hcount := (hperm.map Prod.snd).count_eq k'
    rw [List.map_cons] at hcount
    rw [HwPool.free, if_pos hlt]
    show Function.update s.pool.usedCnt k (s.pool.usedCnt k - 1) k' =
      (((s.live.erase (a, k)).map Prod.snd).count k' : Int)
    by_cases hk : k' = k
    · subst hk
      rw [List.count_cons_self] at hcount
      rw [Function.update_self, h.usedCnt]
      omega
    · rw [List.count_cons_of_ne fun he => hk he.symm] at hcount
      rw [Function.update_of_ne hk, h.usedCnt, hcount]
  · show (s.pool.free k a).sidx < _
    rw [HwPool.free_sidx]
    exact h.sidx

theorem step_safe {e : Event} (h : Safe s) (he : step s e = some t) : Safe t := by
  cases e with
  | alloc k =>
    obtain ⟨-, he⟩ := Option.ite_none_left_eq_some.mp he
    match ha : s.pool.allocKind k with
    | none =>
      rw [ha] at he
      exact Option.some.inj he ▸ h
    | some (a, pool) =>
      rw [ha] at he
      exact Option.some.inj he ▸ alloc_safe h ha
  | free a k =>
    obtain ⟨hx, he⟩ := Option.ite_none_right_eq_some.mp he
    exact Option.some.inj he ▸ free_safe h hx

/-- All units are in use when none is free. -/
theorem Safe.full_iff (h : Safe s) :
    s.live.length = hwMemUnitNum ↔ ∀ j < hwMemUnitNum, s.pool.unit j ≠ none := by
  have hsub : (s.live.map Prod.fst).toFinset ⊆ Finset.range hwMemUnitNum := by
    intro j hj
    obtain ⟨x, hx, rfl⟩ := List.mem_map.mp (List.mem_toFinset.mp hj)
    exact Finset.mem_range.mpr (h.lt x hx)
  have hcard : (s.live.map Prod.fst).toFinset.card = s.live.length := by
    rw [List.toFinset_card_of_nodup h.nodup, List.length_map]
  have hlive : ∀ j, j ∈ (s.live.map Prod.fst).toFinset ↔ s.pool.unit j ≠ none := by
    intro j
    rw [List.mem_toFinset, Option.ne_none_iff_exists']
    constructor
    · intro hj
      obtain ⟨⟨b, k⟩, hx, rfl⟩ := List.mem_map.mp hj
      exact ⟨k, (h.unit b k).mpr hx⟩
    · rintro ⟨k, hk⟩
      exact List.mem_map.mpr ⟨(j, k), (h.unit j k).mp hk, rfl⟩
  constructor
  · intro hfull j hj
    have heq := Finset.eq_of_subset_of_card_le hsub
      (by rw [Finset.card_range, hcard, hfull])
    rw [← hlive j, heq]
    exact Finset.mem_range.mpr hj
  · intro hall
    have heq : (s.live.map Prod.fst).toFinset = Finset.range hwMemUnitNum :=
      hsub.antisymm fun j hj => (hlive j).mpr (hall j (Finset.mem_range.mp hj))
    rw [← hcard, heq, Finset.card_range]

theorem complete_iff {e : Event} (h : Safe s) : Complete s e ↔ SparesLast s e := by
  cases e with
  | free a k => exact Iff.rfl
  | alloc k =>
    show (s.pool.allocKind k = none → _) ↔ _
    rw [h.full_iff]
    unfold HwPool.allocKind SparesLast
    by_cases hk : k.isEhci = true
    · simp only [if_pos hk]
      rw [HwPool.allocEhci_eq_none_iff h.sidx]
      constructor
      · intro hall _ hlast
        by_contra hno
        push Not at hno
        exact hall hno _ h.sidx hlast
      · intro hspare hnone j hj hu
        by_cases hjs : j = s.pool.sidx
        · obtain ⟨i, hi, his, hui⟩ := hspare hk (hjs ▸ hu)
          exact hnone i hi his hui
        · exact hnone j hj hjs hu
    · simp only [if_neg hk]
      rw [HwPool.allocOhci_eq_none_iff, HwPool.avail_eq_zero_iff]
      exact iff_of_true id fun he => absurd he hk

/-- **The descriptor pool.** In every run no unit is live twice and the counters are right, and an
allocator returns `NULL` only if all units are in use exactly if no EHCI allocator is called when
the unit at `_sidx` is the only free one. -/
theorem run_units_iff (es : List Event) : Always step Safe init es ∧
    (EachStep step Complete init es ↔ EachStep step SparesLast init es) :=
  ⟨always_of_step (fun _ _ _ h he => step_safe h he) init_safe,
    eachStep_congr (fun _ _ _ h he => step_safe h he) (fun _ _ _ h _ => complete_iff h) init_safe⟩

/-! ## A full pool -/

/-- The pool after `n` transfer descriptors from a fresh one -/
def filled (n : Nat) : HwPool :=
  ⟨fun i => if i < n then some .td else none, 0, n, fun k => if k = .td then n else 0⟩

theorem firstFree_filled {n m i : Nat} (hi : i ≤ n) (hm : n < i + m) :
    (filled n).firstFree m i = some n := by
  induction m generalizing i with
  | zero => omega
  | succ m ih =>
    have hunit : (filled n).unit i = if i < n then some HwKind.td else none := rfl
    rw [HwPool.firstFree, hunit]
    by_cases hin : i < n
    · rw [if_pos hin, if_neg (by exact fun h => by cases h)]
      exact ih hin (by omega)
    · rw [if_neg hin, if_pos rfl, show i = n by omega]

theorem allocKind_filled {n : Nat} (hn : n < hwMemUnitNum) :
    (filled n).allocKind .td = some (n, filled (n + 1)) := by
  have hfirst := firstFree_filled (n := n) (m := hwMemUnitNum) (Nat.zero_le n) (by omega)
  show ((filled n).firstFree hwMemUnitNum 0).map _ = _
  rw [hfirst]
  refine congrArg (fun p => some (n, p)) (HwPool.ext (funext fun j => ?_) rfl ?_ ?_)
  · show Function.update (filled n).unit n (some HwKind.td) j =
      if j < n + 1 then some HwKind.td else none
    by_cases hj : j = n
    · rw [hj, Function.update_self, if_pos (Nat.lt_succ_self n)]
    · rw [Function.update_of_ne hj]
      exact if_congr (by omega) rfl rfl
  · show ((n : Nat) : Int) + 1 = ((n + 1 : Nat) : Int)
    omega
  · funext k
    show Function.update (filled n).usedCnt .td ((n : Int) + 1) k =
      if k = .td then ((n + 1 : Nat) : Int) else 0
    by_cases hk : k = .td
    · rw [hk, Function.update_self, if_pos rfl]
      omega
    · rw [Function.update_of_ne hk, if_neg hk]
      exact if_neg hk

theorem run_filled {n m : Nat} (l : List (Nat × HwKind)) (hn : n + m ≤ hwMemUnitNum) :
    ∃ l', run step ⟨filled n, l⟩ (List.replicate m (.alloc .td)) = some ⟨filled (n + m), l'⟩ := by
  induction m generalizing n l with
  | zero => exact ⟨l, rfl⟩
  | succ m ih =>
    obtain ⟨l', hl'⟩ := ih (n := n + 1) ((n, .td) :: l) (by omega)
    refine ⟨l', ?_⟩
    have hstep : step ⟨filled n, l⟩ (.alloc .td) = some ⟨filled (n + 1), (n, .td) :: l⟩ :=
      step_alloc_some (by decide) (allocKind_filled (by omega))
    rw [List.replicate_succ, run, hstep, show n + (m + 1) = n + 1 + m by omega]
    exact hl'

theorem filled_zero : filled 0 = HwPool.init := by
  refine HwPool.ext (funext fun i => ?_) rfl rfl (funext fun k => ?_)
  · show (if i < 0 then some HwKind.td else none) = none
    exact if_neg (Nat.not_lt_zero i)
  · show (if k = .td then ((0 : Nat) : Int) else 0) = 0
    split <;> rfl

/-- All units are taken and the first one is given back: the EHCI allocator, which begins behind it,
does not find it. -/
theorem not_complete_first : ¬ EachStep step Complete init
    (List.replicate 512 (.alloc .td) ++ [.free 0 .td, .alloc .qtd]) := by
  intro hall
  obtain ⟨l, hl⟩ := run_filled (n := 0) (m := 512) [] (by decide)
  rw [filled_zero] at hl
  have hsafe : Safe ⟨filled 512, l⟩ :=
    (always_of_step (fun _ _ _ h he => step_safe h he) init_safe).last hl
  have hmem : (0, HwKind.td) ∈ l := (hsafe.unit 0 .td).mp rfl
  have hfreed := free_safe hsafe hmem
  obtain ⟨-, hlast⟩ := hall.append hl _ (if_pos hmem)
  have hunit : ∀ j, ((filled 512).free .td 0).unit j = if j = 0 then none else
      (filled 512).unit j := by
    intro j
    rw [HwPool.free_unit (by decide)]
    exact Function.update_apply ..
  have hnone : ((filled 512).free .td 0).allocKind .qtd = none := by
    rw [HwPool.allocKind, if_pos (by decide), HwPool.allocEhci_eq_none_iff hfreed.sidx]
    intro j hj hne
    have hj0 : j ≠ 0 := by rwa [HwPool.free_sidx] at hne
    rw [hunit, if_neg hj0]
    exact fun hn => by rw [show (filled 512).unit j = some .td from if_pos hj] at hn; cases hn
  have hfull := (hlast _ (step_alloc_none (by decide) hnone)).1 hnone
  exact hfreed.full_iff.mp hfull 0 (by decide) (by rw [hunit, if_pos rfl])

end HwHeap

end Ma35d1.UsbHost
