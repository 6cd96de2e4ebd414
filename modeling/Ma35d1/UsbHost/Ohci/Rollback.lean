import Ma35d1.Heap.IntervalTree
import Ma35d1.UsbHost.Ohci.Xfer

/-!
# Submissions that fail

A submission takes units of the pool one at a time and may run out of them after any
number. `Holds` follows which units the call has taken: as long as it only takes,
writes and returns units that were free, everything in use stays as it was.
-/

namespace Ma35d1.UsbHost.Ohci

open Heap.LinkedPath Heap.IntervalTree

/-! ## What a failed call must leave alone -/

/-- The EDs on the lists of the controller and under the interval heads. -/
inductive OnList (m : Lists) : Addr → Prop
  | control {a : Addr} (h : m.hcControlHeadED = some a) : OnList m a
  | bulk {a : Addr} (h : m.hcBulkHeadED = some a) : OnList m a
  | table {a : Addr} (idx : Nat) (hi : idx < 32) (h : m.intTable idx = some a) : OnList m a
  | head (i : Nat) (hi : i < numIed) : OnList m (m.ied i)
  | next {a b : Addr} (ha : OnList m a) (h : m.nextED a = some b) : OnList m b

/-- The TDs queued on them. -/
inductive OnQueue (m : Lists) : Addr → Prop
  | first {a t : Addr} (ha : OnList m a) (h : m.headP a = some t) : OnQueue m t
  | tail {a t : Addr} (ha : OnList m a) (h : m.tailP a = some t) : OnQueue m t
  | next {t t' : Addr} (ht : OnQueue m t) (h : m.nextTD t = some t') : OnQueue m t'

/-- No list refers to a free unit. -/
def Undamaged (s : Ohci) : Prop :=
  ∀ a, OnList s.toLists a ∨ OnQueue s.toLists a → s.pool.unit a ≠ none

/-- The words of the unit `a`, as an ED and as a TD, are the same. -/
structure SameAt (s s' : Ohci) (a : Addr) : Prop where
  edInfo : s'.edInfo a = s.edInfo a
  tailP : s'.tailP a = s.tailP a
  headP : s'.headP a = s.headP a
  nextED : s'.nextED a = s.nextED a
  bInterval : s'.bInterval a = s.bInterval a
  edHalt : s'.edHalt a = s.edHalt a
  edCarry : s'.edCarry a = s.edCarry a
  nextSf : s'.nextSf a = s.nextSf a
  nextTD : s'.nextTD a = s.nextTD a
  td : s'.td a = s.td a

theorem SameAt.refl (s : Ohci) (a : Addr) : SameAt s s a :=
  ⟨rfl, rfl, rfl, rfl, rfl, rfl, rfl, rfl, rfl, rfl⟩

theorem SameAt.trans {s s' s'' : Ohci} {a : Addr} (h : SameAt s s' a) (h' : SameAt s' s'' a) :
    SameAt s s'' a :=
  ⟨h'.edInfo.trans h.edInfo, h'.tailP.trans h.tailP, h'.headP.trans h.headP,
    h'.nextED.trans h.nextED, h'.bInterval.trans h.bInterval, h'.edHalt.trans h.edHalt,
    h'.edCarry.trans h.edCarry, h'.nextSf.trans h.nextSf, h'.nextTD.trans h.nextTD,
    h'.td.trans h.td⟩

/-- The roots of the lists are the same. -/
structure SameRoots (s s' : Ohci) : Prop where
  control : s'.hcControlHeadED = s.hcControlHeadED
  bulk : s'.hcBulkHeadED = s.hcBulkHeadED
  intTable : s'.intTable = s.intTable
  ied : s'.ied = s.ied

theorem SameRoots.trans {s s' s'' : Ohci} (h : SameRoots s s') (h' : SameRoots s' s'') :
    SameRoots s s'' :=
  ⟨h'.control.trans h.control, h'.bulk.trans h.bulk, h'.intTable.trans h.intTable,
    h'.ied.trans h.ied⟩

/-- The call from `s` to `s'` left the pool, the lists with their EDs and TDs and every
`hw_pipe` as they were, and freed no ED of a list. -/
structure Unchanged (s s' : Ohci) : Prop where
  pool : s'.pool = s.pool
  roots : SameRoots s s'
  eds : ∀ a, OnList s.toLists a → SameAt s s' a
  tds : ∀ a, OnQueue s.toLists a → SameAt s s' a
  hwPipe : s'.hwPipe = s.hwPipe
  freed : ∃ l, s'.trace = l ++ s.trace ∧ ∀ k a m, .free k a m ∈ l → ¬ OnList s.toLists a

theorem Unchanged.refl (s : Ohci) : Unchanged s s where
  pool := rfl
  roots := ⟨rfl, rfl, rfl, rfl⟩
  eds a _ := .refl s a
  tds a _ := .refl s a
  hwPipe := rfl
  freed := ⟨[], rfl, fun _ _ _ h => absurd h (List.not_mem_nil)⟩

/-! ## The units a call holds -/

/-- The call has taken the units `ks`, all free at its start `s₀`, and nothing in use there
has changed but for the pipes, now `p`. -/
structure Holds (s₀ : Ohci) (p : EpId → HwPipe) (ks : List (Addr × HwKind)) (s : Ohci) :
    Prop where
  hwPipe : s.hwPipe = p
  nodup : (ks.map Prod.fst).Nodup
  lt : ∀ k ∈ ks, k.1 < hwMemUnitNum
  wasFree : ∀ k ∈ ks, s₀.pool.unit k.1 = none
  held : ∀ k ∈ ks, s.pool.unit k.1 = some k.2
  rest : ∀ a, a ∉ ks.map Prod.fst → s.pool.unit a = s₀.pool.unit a
  sidx : s.pool.sidx = s₀.pool.sidx
  memCnt : s.pool.hwMemUsedCnt = s₀.pool.hwMemUsedCnt + ks.length
  usedCnt : ∀ k, s.pool.usedCnt k = s₀.pool.usedCnt k + (ks.map Prod.snd).count k
  roots : SameRoots s₀ s
  same : ∀ a, s₀.pool.unit a ≠ none → SameAt s₀ s a
  freed : ∃ l, s.trace = l ++ s₀.trace ∧ ∀ k a m, .free k a m ∈ l → s₀.pool.unit a = none

variable {s₀ s s' : Ohci} {p : EpId → HwPipe} {ks ks' : List (Addr × HwKind)} {a : Addr} {k : HwKind}

theorem Holds.refl (s : Ohci) : Holds s s.hwPipe [] s where
  hwPipe := rfl
  nodup := List.nodup_nil
  lt _ h := absurd h (List.not_mem_nil)
  wasFree _ h := absurd h (List.not_mem_nil)
  held _ h := absurd h (List.not_mem_nil)
  rest _ _ := rfl
  sidx := rfl
  memCnt := by simp
  usedCnt _ := by simp
  roots := ⟨rfl, rfl, rfl, rfl⟩
  same a _ := .refl s a
  freed := ⟨[], rfl, fun _ _ _ h => absurd h (List.not_mem_nil)⟩

theorem Holds.perm (h : Holds s₀ p ks s) (hp : ks.Perm ks') : Holds s₀ p ks' s where
  hwPipe := h.hwPipe
  nodup := (hp.map _).nodup_iff.mp h.nodup
  lt k hk := h.lt k (hp.mem_iff.mpr hk)
  wasFree k hk := h.wasFree k (hp.mem_iff.mpr hk)
  held k hk := h.held k (hp.mem_iff.mpr hk)
  rest a ha := h.rest a fun hm => ha ((hp.map _).mem_iff.mp hm)
  sidx := h.sidx
  memCnt := by rw [← hp.length_eq]; exact h.memCnt
  usedCnt k := by rw [← (hp.map Prod.snd).count_eq]; exact h.usedCnt k
  roots := h.roots
  same := h.same
  freed := h.freed

/-- A write to nothing but units the call holds. -/
theorem Holds.write {t : Ohci} (h : Holds s₀ p ks s) (hp : t.pool = s.pool) (hr : SameRoots s t)
    (ht : t.trace = s.trace) (hs : ∀ b, b ∉ ks.map Prod.fst → SameAt s t b) :
    Holds s₀ t.hwPipe ks t where
  hwPipe := rfl
  nodup := h.nodup
  lt := h.lt
  wasFree := h.wasFree
  held := by rw [hp]; exact h.held
  rest := by rw [hp]; exact h.rest
  sidx := by rw [hp]; exact h.sidx
  memCnt := by rw [hp]; exact h.memCnt
  usedCnt := by rw [hp]; exact h.usedCnt
  roots := h.roots.trans hr
  same a ha := (h.same a ha).trans <| hs a fun hm => by
    obtain ⟨x, hx, rfl⟩ := List.mem_map.mp hm
    exact ha (h.wasFree x hx)
  freed := by rw [ht]; exact h.freed

/-- Taking one more unit. -/
theorem Holds.take (h : Holds s₀ p ks s) (hlt : a < hwMemUnitNum) (hu : s.pool.unit a = none)
    (hp : s'.pool = s.pool.take k a) (hpipe : s'.hwPipe = s.hwPipe) (hr : SameRoots s s')
    (ht : s'.trace = s.trace) (hs : ∀ b, b ≠ a → SameAt s s' b) : Holds s₀ p ((a, k) :: ks) s' := by
  have hna : a ∉ ks.map Prod.fst := by
    intro hm
    obtain ⟨x, hx, rfl⟩ := List.mem_map.mp hm
    rw [h.held x hx] at hu
    cases hu
  have hfree : s₀.pool.unit a = none := (h.rest a hna).symm.trans hu
  constructor
  · exact hpipe.trans h.hwPipe
  · exact List.nodup_cons.mpr ⟨hna, h.nodup⟩
  · exact List.forall_mem_cons.mpr ⟨hlt, h.lt⟩
  · exact List.forall_mem_cons.mpr ⟨hfree, h.wasFree⟩
  · rw [hp]
    refine List.forall_mem_cons.mpr ⟨Function.update_self .., fun x hx => ?_⟩
    refine (Function.update_of_ne ?_ ..).trans (h.held x hx)
    rintro rfl
    exact hna (List.mem_map_of_mem hx)
  · intro b hb
    obtain ⟨hba, hbk⟩ := not_or.mp (fun ho => hb (List.mem_cons.mpr ho))
    rw [hp]
    exact (Function.update_of_ne hba ..).trans (h.rest b hbk)
  · rw [hp]; exact h.sidx
  · rw [hp]
    show s.pool.hwMemUsedCnt + 1 = _
    rw [h.memCnt, List.length_cons]
    omega
  · intro k'
    rw [hp, List.map_cons, List.count_cons]
    show Function.update s.pool.usedCnt k _ k' = _
    by_cases hk : k' = k
    · subst hk
      rw [Function.update_self, h.usedCnt k', if_pos (beq_self_eq_true _)]
      omega
    · rw [Function.update_of_ne hk, h.usedCnt k', if_neg (by simpa using Ne.symm hk)]
      omega
  · exact h.roots.trans hr
  · exact fun b hb => (h.same b hb).trans (hs b fun he => hb (he ▸ hfree))
  · rw [ht]; exact h.freed

/-- Giving one back. -/
theorem Holds.give (h : Holds s₀ p ((a, k) :: ks) s) : Holds s₀ p ks (s.free k a) := by
  obtain ⟨hna, hnd⟩ := List.nodup_cons.mp h.nodup
  have hlt : a < hwMemUnitNum := h.lt (a, k) List.mem_cons_self
  have hfree : s₀.pool.unit a = none := h.wasFree (a, k) List.mem_cons_self
  have hpool : (s.free k a).pool = { s.pool with
      unit := Function.update s.pool.unit a none
      hwMemUsedCnt := s.pool.hwMemUsedCnt - 1
      usedCnt := Function.update s.pool.usedCnt k (s.pool.usedCnt k - 1) } := by
    show s.pool.free k a = _
    rw [HwPool.free, if_pos hlt]
  constructor
  · exact h.hwPipe
  · exact hnd
  · exact fun x hx => h.lt x (List.mem_cons_of_mem _ hx)
  · exact fun x hx => h.wasFree x (List.mem_cons_of_mem _ hx)
  · intro x hx
    rw [hpool]
    refine (Function.update_of_ne ?_ ..).trans (h.held x (List.mem_cons_of_mem _ hx))
    intro he
    exact hna (he ▸ List.mem_map.mpr ⟨x, hx, rfl⟩)
  · intro b hb
    rw [hpool]
    show Function.update s.pool.unit a none b = _
    by_cases hba : b = a
    · rw [hba, Function.update_self, hfree]
    · rw [Function.update_of_ne hba]
      exact h.rest b fun hm => (List.mem_cons.mp hm).elim hba hb
  · rw [hpool]; exact h.sidx
  · rw [hpool]
    show s.pool.hwMemUsedCnt - 1 = _
    rw [h.memCnt, List.length_cons]
    omega
  · intro k'
    rw [hpool]
    show Function.update s.pool.usedCnt k _ k' = _
    have hc := h.usedCnt k'
    rw [List.map_cons, List.count_cons] at hc
    by_cases hk : k' = k
    · subst hk
      rw [if_pos (beq_self_eq_true _)] at hc
      rw [Function.update_self]
      omega
    · rw [if_neg (by simpa using Ne.symm hk)] at hc
      rw [Function.update_of_ne hk]
      omega
  · exact h.roots.trans ⟨rfl, rfl, rfl, rfl⟩
  · exact fun b hb => (h.same b hb).trans ⟨rfl, rfl, rfl, rfl, rfl, rfl, rfl, rfl, rfl, rfl⟩
  · obtain ⟨l, hl, hf⟩ := h.freed
    refine ⟨.free k a s.toLists :: l, congrArg (Event.free k a s.toLists :: ·) hl,
      fun k' b m hm => ?_⟩
    rcases List.mem_cons.mp hm with he | hm
    · obtain ⟨rfl, rfl, rfl⟩ := Event.free.inj he
      exact hfree
    · exact hf k' b m hm

/-- A call that holds nothing any more has changed nothing. -/
theorem Holds.unchanged (h : Holds s₀ p [] s) (hu : Undamaged s₀) (hp : p = s₀.hwPipe) :
    Unchanged s₀ s where
  pool := by
    refine HwPool.ext (funext fun a => h.rest a (List.not_mem_nil)) h.sidx ?_ (funext fun k => ?_)
    · simpa using h.memCnt
    · simpa using h.usedCnt k
  roots := h.roots
  eds a ha := h.same a (hu a (.inl ha))
  tds a ha := h.same a (hu a (.inr ha))
  hwPipe := h.hwPipe.trans hp
  freed := by
    obtain ⟨l, hl, hf⟩ := h.freed
    exact ⟨l, hl, fun k a m hm ha => hu a (.inl ha) (hf k a m hm)⟩

/-! ## Allocations and the lists of TDs -/

theorem Holds.allocEd (h : Holds s₀ p ks s) (ha : s.allocOhciEd = some (a, s')) :
    Holds s₀ p ((a, .ed) :: ks) s' := by
  obtain ⟨⟨i, pool⟩, hp, he⟩ := Option.map_eq_some_iff.mp ha
  obtain ⟨rfl, rfl⟩ := Prod.mk.inj he
  obtain ⟨hlt, hu, rfl⟩ := HwPool.allocOhci_some hp
  refine h.take hlt hu rfl rfl ⟨rfl, rfl, rfl, rfl⟩ rfl fun b hb => ?_
  constructor <;> first | rfl | exact Function.update_of_ne hb ..

theorem Holds.allocTd {u : Option UtrId} (h : Holds s₀ p ks s)
    (ha : s.allocOhciTd u = some (a, s')) : Holds s₀ p ((a, .td) :: ks) s' := by
  obtain ⟨⟨i, pool⟩, hp, he⟩ := Option.map_eq_some_iff.mp ha
  obtain ⟨rfl, rfl⟩ := Prod.mk.inj he
  obtain ⟨hlt, hu, rfl⟩ := HwPool.allocOhci_some hp
  refine h.take hlt hu rfl rfl ⟨rfl, rfl, rfl, rfl⟩ rfl fun b hb => ?_
  constructor <;> first | rfl | exact Function.update_of_ne hb ..

theorem nextTD_allocTd {u : Option UtrId} (ha : s.allocOhciTd u = some (a, s')) :
    s'.nextTD = Function.update s.nextTD a none := by
  obtain ⟨⟨i, pool⟩, -, he⟩ := Option.map_eq_some_iff.mp ha
  obtain ⟨rfl, rfl⟩ := Prod.mk.inj he
  rfl

/-- The units of a list of TDs. -/
def asTds (l : List Addr) : List (Addr × HwKind) := l.map (·, .td)

theorem map_fst_asTds (l : List Addr) : (asTds l).map Prod.fst = l := by
  simp [asTds, Function.comp_def]

variable {tds : List Addr} {list : Ptr}

theorem Holds.tds_nodup (h : Holds s₀ p (asTds tds ++ ks) s) : tds.Nodup := by
  have hd := h.nodup
  rw [List.map_append, map_fst_asTds] at hd
  exact (List.nodup_append.mp hd).1

theorem Holds.tds_lt (h : Holds s₀ p (asTds tds ++ ks) s) : tds.length < ohciFuel := by
  have hl := nodup_length_le h.tds_nodup fun a ha =>
    h.lt (a, .td) (List.mem_append_left _ (List.mem_map.mpr ⟨a, ha, rfl⟩))
  exact Nat.lt_succ_of_le hl

/-- The loop that gives a TD list back. -/
theorem freeTdChain_holds {n : Nat} (h : Holds s₀ p (asTds tds ++ ks) s)
    (hp : Path some s.nextTD list tds none) (hr : freeTdChain n list s = some s') :
    Holds s₀ p ks s' := by
  induction n generalizing list tds s with
  | zero => cases hr
  | succ n ih =>
    cases tds with
    | nil =>
      obtain rfl : list = none := hp
      obtain rfl := Option.some.inj hr
      exact h
    | cons td tds =>
      obtain ⟨rfl, hrest⟩ := hp
      exact ih (Holds.give h) hrest hr

theorem memOut_holds {ed : Addr} {r : Int} (h : Holds s₀ p (asTds tds ++ (ed, .ed) :: ks) s)
    (hp : Path some s.nextTD list tds none) (hr : memOut ed list s = some (r, s')) :
    Holds s₀ p ks s' := by
  obtain ⟨s₁, hs₁, he⟩ := Option.map_eq_some_iff.mp hr
  obtain ⟨rfl, rfl⟩ := Prod.mk.inj he
  exact (freeTdChain_holds h hp hs₁).give

/-- A TD behind the ones already there. -/
theorem Holds.link {l : List Addr} {a td : Addr}
    (h : Holds s₀ p ((td, .td) :: (asTds (l ++ [a]) ++ ks)) s)
    (hp : Path some s.nextTD list (l ++ [a]) none) (hn : s.nextTD td = none) :
    Holds s₀ p (asTds (l ++ [a] ++ [td]) ++ ks) (setNextTD a (some td) s) ∧
      Path some (setNextTD a (some td) s).nextTD list (l ++ [a] ++ [td]) none := by
  have hd := h.nodup
  rw [List.map_cons, List.map_append, map_fst_asTds] at hd
  obtain ⟨hna, hd⟩ := List.nodup_cons.mp hd
  have hne : td ≠ a := by
    rintro rfl
    exact hna (List.mem_append_left _ (List.mem_append_right _ List.mem_cons_self))
  constructor
  · have hw : Holds s₀ p ((td, .td) :: (asTds (l ++ [a]) ++ ks)) (setNextTD a (some td) s) := by
      have := h.write (t := setNextTD a (some td) s) rfl ⟨rfl, rfl, rfl, rfl⟩ rfl fun b hb => by
        have hba : b ≠ a := by
          rintro rfl
          refine hb (List.mem_map.mpr ⟨(b, .td), List.mem_cons_of_mem _ ?_, rfl⟩)
          simp [asTds]
        exact ⟨rfl, rfl, rfl, rfl, rfl, rfl, rfl, rfl, Function.update_of_ne hba .., rfl⟩
      exact h.hwPipe ▸ this
    refine hw.perm ?_
    rw [show asTds (l ++ [a] ++ [td]) = asTds (l ++ [a]) ++ [(td, .td)] by simp [asTds],
      List.append_assoc]
    exact List.perm_middle.symm
  · have hal : a ∉ l := by
      have hd' := (List.nodup_append.mp hd).1
      have := List.nodup_append.mp hd'
      exact fun hm => this.2.2 a hm a List.mem_cons_self rfl
    rw [List.append_assoc]
    exact hp.snoc hal hne hn

/-! ## Control transfers -/

theorem tryAllocTd_holds {u : UtrId} (h : Holds s₀ p ks s) :
    Holds s₀ p (asTds (tryAllocTd u s).1.toList ++ ks) (tryAllocTd u s).2 := by
  unfold tryAllocTd
  split
  · rename_i td s' ha
    exact h.allocTd ha
  · exact h

theorem freeIfSome_holds {td : Ptr} (h : Holds s₀ p (asTds td.toList ++ ks) s) :
    Holds s₀ p ks (freeIfSome td s) := by
  cases td with
  | none => exact h
  | some td => exact Holds.give h

theorem ctrlMemErr_holds {setup data status : Ptr}
    (h : Holds s₀ p (asTds status.toList ++ (asTds data.toList ++ (asTds setup.toList ++ ks))) s) :
    Holds s₀ p ks (ctrlMemErr setup data status s).2 := by
  refine freeIfSome_holds (freeIfSome_holds (freeIfSome_holds (h.perm ?_)))
  refine List.perm_append_comm_assoc .. |>.trans ?_
  refine (List.Perm.append_left _ (List.perm_append_comm_assoc ..)).trans ?_
  refine (List.perm_append_comm_assoc ..).trans ?_
  exact List.Perm.append_left _ (List.Perm.refl _)

/-- A control transfer that fails has returned what it took. -/
theorem ohciCtrlXfer_holds {u : UtrId} {r : Int} (h : ohciCtrlXfer u s = some (r, s'))
    (hr : r < 0) : Holds s s.hwPipe [] s' := by
  have hsetup : Holds s s.hwPipe (asTds (tryAllocTd u s).1.toList) (tryAllocTd u s).2 := by
    simpa using tryAllocTd_holds (u := u) (Holds.refl s)
  obtain ⟨setup, hset⟩ : ∃ x, tryAllocTd u s = x := ⟨_, rfl⟩
  obtain ⟨data, hdat⟩ : ∃ x, (if (0 < (s.utr u).dataLen : Bool) then tryAllocTd u setup.2
    else (none, setup.2)) = x := ⟨_, rfl⟩
  rw [hset] at hsetup
  have hdata : Holds s s.hwPipe (asTds data.1.toList ++ asTds setup.1.toList) data.2 := by
    rw [← hdat]
    split
    · exact tryAllocTd_holds hsetup
    · simpa [asTds] using hsetup
  have hmemErr (status : Ptr) {s₁ : Ohci}
      (hs : Holds s s.hwPipe (asTds status.toList ++ (asTds data.1.toList ++
        asTds setup.1.toList)) s₁) :
      Holds s s.hwPipe [] (ctrlMemErr setup.1 data.1 status s₁).2 :=
    ctrlMemErr_holds (by simpa using hs)
  unfold ohciCtrlXfer at h
  simp only [hset, hdat] at h
  split at h
  · rename_i hnone
    obtain ⟨rfl, rfl⟩ := Prod.mk.inj (Option.some.inj h)
    have := hmemErr none (by simpa [asTds] using hdata)
    rwa [hnone.2] at this
  · have hstatus := tryAllocTd_holds (u := u) hdata
    split at h
    · rename_i td st hs₁ hs₂
      rw [hs₂] at hstatus
      unfold ctrlOnTds at h
      split at h
      · split at h
        · obtain ⟨rfl, rfl⟩ := Prod.mk.inj (Option.some.inj h)
          rw [← hs₁]
          exact hmemErr _ hstatus
        · obtain ⟨rfl, rfl⟩ := Prod.mk.inj (Option.some.inj h)
          exact absurd hr (Int.lt_irrefl 0)
      · obtain ⟨rfl, rfl⟩ := Prod.mk.inj (Option.some.inj h)
        exact absurd hr (Int.lt_irrefl 0)
      · cases h
    · obtain ⟨rfl, rfl⟩ := Prod.mk.inj (Option.some.inj h)
      exact hmemErr _ hstatus

/-! ## Bulk transfers -/

/-- Writes to a TD the call holds and to requests. -/
theorem bulkTd_holds (u : UtrId) (e : EpId) (ed : Addr) (buff dataLen : BitVec 32) {td : Addr}
    (h : Holds s₀ p ((td, .td) :: ks) s) :
    Holds s₀ p ((td, .td) :: ks) (bulkTd u e ed td buff dataLen s) := by
  have := h.write (t := bulkTd u e ed td buff dataLen s) rfl ⟨rfl, rfl, rfl, rfl⟩ rfl
    fun b hb => by
      have hbt : b ≠ td := fun he => hb (he ▸ List.mem_cons_self)
      exact ⟨rfl, rfl, rfl, rfl, rfl, rfl, rfl, rfl, rfl,
        (Function.update_of_ne hbt ..).trans (Function.update_of_ne hbt ..)⟩
  exact h.hwPipe ▸ this

theorem chainTd_holds {td first : Addr} (h : Holds s₀ p ((td, .td) :: (asTds tds ++ ks)) s)
    (hp : Path some s.nextTD list tds none) (hn : s.nextTD td = none)
    (hr : chainTd list td s = some (first, s')) :
    Holds s₀ p (asTds (tds ++ [td]) ++ ks) s' ∧
      Path some s'.nextTD (some first) (tds ++ [td]) none := by
  rcases List.eq_nil_or_concat tds with rfl | ⟨l, a, rfl⟩
  · obtain rfl : list = none := hp
    obtain ⟨rfl, rfl⟩ := Prod.mk.inj (Option.some.inj hr)
    exact ⟨h, rfl, hn⟩
  · rw [List.concat_eq_append] at h hp ⊢
    cases list with
    | none =>
      cases l with
      | nil => cases hp.1
      | cons b l => cases hp.1
    | some b =>
      have hlt : l.length < ohciFuel := by
        have hperm : Holds s₀ p (asTds (l ++ [a]) ++ (td, .td) :: ks) s :=
          h.perm List.perm_middle.symm
        have := hperm.tds_lt
        simp at this
        omega
      rw [chainTd, lastFrom_eq hp rfl hlt] at hr
      obtain ⟨rfl, rfl⟩ := Prod.mk.inj (Option.some.inj hr)
      exact h.link hp hn

theorem bulkTds_holds {u : UtrId} {e : EpId} {ed : Addr} {n : Nat} {buff dataLen : BitVec 32}
    {b : Bool} {list' : Ptr} (h : Holds s₀ p (asTds tds ++ ks) s)
    (hp : Path some s.nextTD list tds none)
    (hr : bulkTds u e ed n buff dataLen list s = some (b, list', s')) :
    ∃ tds', Holds s₀ p (asTds tds' ++ ks) s' ∧ Path some s'.nextTD list' tds' none := by
  induction n generalizing buff dataLen list tds s with
  | zero => cases hr
  | succ n ih =>
    rw [bulkTds] at hr
    split at hr
    · obtain ⟨-, he⟩ := Prod.mk.inj (Option.some.inj hr)
      obtain ⟨rfl, rfl⟩ := Prod.mk.inj he
      exact ⟨tds, h, hp⟩
    · rename_i td s₁ ha
      obtain ⟨⟨first, s₂⟩, hc, hr⟩ := Option.bind_eq_some_iff.mp hr
      have h₁ := bulkTd_holds u e ed buff dataLen (h.allocTd ha)
      have hna : td ∉ tds := by
        have hd := (List.nodup_cons.mp h₁.nodup).1
        rw [List.map_append, map_fst_asTds] at hd
        exact fun hm => hd (List.mem_append_left _ hm)
      have hn := nextTD_allocTd ha
      have hp₁ : Path some (bulkTd u e ed td buff dataLen s₁).nextTD list tds none := by
        show Path some s₁.nextTD list tds none
        rw [hn]
        exact hp.update_of_not_mem hna
      obtain ⟨h₂, hp₂⟩ := chainTd_holds h₁ hp₁ (by
        show s₁.nextTD td = none
        rw [hn, Function.update_self]) hc
      split at hr
      · obtain ⟨-, he⟩ := Prod.mk.inj (Option.some.inj hr)
        obtain ⟨rfl, rfl⟩ := Prod.mk.inj he
        exact ⟨_, h₂, hp₂⟩
      · exact ih h₂ hp₂ hr

/-- On an ED the call has allocated, a failure returns everything but `hw_pipe`. -/
theorem bulkOnEd_holds {u : UtrId} {e : EpId} {ed : Addr} {isNewED : Bool} {r : Int}
    (h : Holds s₀ p [(ed, .ed)] s) (hr : bulkOnEd u e ed isNewED s = some (r, s')) (hneg : r < 0) :
    Holds s₀ (Function.update p e (.ed ed)) [] s' := by
  have h₁ : Holds s₀ (Function.update p e (.ed ed)) (asTds [] ++ [(ed, .ed)])
      ((s.setHwPipe e (.ed ed)).setTdCnt u 0) := by
    rw [← h.hwPipe]
    exact h.write (t := (s.setHwPipe e (.ed ed)).setTdCnt u 0) rfl ⟨rfl, rfl, rfl, rfl⟩ rfl
      fun b _ => ⟨rfl, rfl, rfl, rfl, rfl, rfl, rfl, rfl, rfl, rfl⟩
  obtain ⟨⟨b, list, s₂⟩, hb, hr⟩ := Option.bind_eq_some_iff.mp hr
  have hnil : Path some ((s.setHwPipe e (.ed ed)).setTdCnt u 0).nextTD none [] none := rfl
  obtain ⟨tds', h₂, hp⟩ := bulkTds_holds h₁ hnil hb
  cases b with
  | true =>
    obtain ⟨rfl, rfl⟩ := Prod.mk.inj (Option.some.inj hr)
    exact absurd hneg (Int.lt_irrefl 0)
  | false => exact memOut_holds h₂ hp hr

/-! ## Interrupt transfers -/

theorem intNewEd_holds {u : UtrId} {e : EpId} {info : BitVec 32} {tdNew ed : Addr} {r : Int}
    (h : Holds s₀ p [(tdNew, .td)] s) {s₁ : Ohci} (ha : s.allocOhciEd = some (ed, s₁))
    (hr : intNewEd u e info tdNew s = (r, s')) (hneg : r < 0) : Holds s₀ p [] s' := by
  have h₁ : Holds s₀ p [(ed, .ed), (tdNew, .td)] (newPeriodicEd e info ed s₁) := by
    have ha' := h.allocEd ha
    have := ha'.write (t := newPeriodicEd e info ed s₁) rfl ⟨rfl, rfl, rfl, rfl⟩ rfl
      fun b hb => by
        have hbe : b ≠ ed := fun he => hb (he ▸ List.mem_cons_self)
        exact ⟨Function.update_of_ne hbe .., rfl, rfl, rfl, Function.update_of_ne hbe .., rfl, rfl,
          rfl, rfl, rfl⟩
    exact ha'.hwPipe ▸ this
  rw [intNewEd, ha] at hr
  simp only at hr
  split at hr
  · obtain ⟨-, rfl⟩ := Prod.mk.inj hr
    exact h₁.give.give
  · obtain ⟨rfl, -⟩ := Prod.mk.inj hr
    exact absurd hneg (Int.lt_irrefl 0)

/-! ## Isochronous transfers -/

theorem isoTd_holds {u : UtrId} {ed td : Addr} {i : Nat} (hed : (ed, HwKind.ed) ∈ ks)
    (h : Holds s₀ p ((td, .td) :: ks) s) : Holds s₀ p ((td, .td) :: ks) (isoTd u ed td i s) := by
  have := h.write (t := isoTd u ed td i s) rfl ⟨rfl, rfl, rfl, rfl⟩ rfl fun b hb => by
    have hbt : b ≠ td := fun he => hb (he ▸ List.mem_cons_self)
    have hbe : b ≠ ed := fun he => hb (List.mem_map.mpr ⟨_, List.mem_cons_of_mem _ hed, he.symm⟩)
    exact ⟨rfl, rfl, rfl, rfl, rfl, rfl, rfl, Function.update_of_ne hbe .., rfl,
      Function.update_of_ne hbt ..⟩
  exact h.hwPipe ▸ this

theorem isoTds_holds {u : UtrId} {ed : Addr} {n i : Nat} {last : Ptr} {b : Bool} {list' : Ptr}
    (hed : (ed, HwKind.ed) ∈ ks) (h : Holds s₀ p (asTds tds ++ ks) s)
    (hp : Path some s.nextTD list tds none) (hlast : last = tds.getLast?)
    (hr : isoTds u ed n i list last s = (b, list', s')) :
    ∃ tds', Holds s₀ p (asTds tds' ++ ks) s' ∧ Path some s'.nextTD list' tds' none := by
  induction n generalizing i list last tds s with
  | zero =>
    obtain ⟨-, he⟩ := Prod.mk.inj hr
    obtain ⟨rfl, rfl⟩ := Prod.mk.inj he
    exact ⟨tds, h, hp⟩
  | succ n ih =>
    have h₀ : Holds s₀ p (asTds tds ++ ks) (s.setUtr u fun r => { r with
        isoStatus := Function.update r.isoStatus i usbhErrNotAccess1 }) := by
      have := h.write (t := s.setUtr u fun r => { r with
        isoStatus := Function.update r.isoStatus i usbhErrNotAccess1 }) rfl ⟨rfl, rfl, rfl, rfl⟩ rfl
        fun b _ => ⟨rfl, rfl, rfl, rfl, rfl, rfl, rfl, rfl, rfl, rfl⟩
      exact h.hwPipe ▸ this
    rw [isoTds] at hr
    simp only at hr
    split at hr
    · obtain ⟨-, he⟩ := Prod.mk.inj hr
      obtain ⟨rfl, rfl⟩ := Prod.mk.inj he
      exact ⟨tds, h₀, hp⟩
    · rename_i td s₁ ha
      have h₁ := isoTd_holds (u := u) (i := i) (List.mem_append_right _ hed) (h₀.allocTd ha)
      have hna : td ∉ tds := by
        have hd := (List.nodup_cons.mp h₁.nodup).1
        rw [List.map_append, map_fst_asTds] at hd
        exact fun hm => hd (List.mem_append_left _ hm)
      have hnext : (isoTd u ed td i s₁).nextTD = Function.update s.nextTD td none := by
        show s₁.nextTD = _
        rw [nextTD_allocTd ha]
        rfl
      have hn : (isoTd u ed td i s₁).nextTD td = none := by rw [hnext, Function.update_self]
      have hp₁ : Path some (isoTd u ed td i s₁).nextTD list tds none := by
        rw [hnext]
        exact hp.update_of_not_mem hna
      rcases List.eq_nil_or_concat tds with rfl | ⟨l, a, rfl⟩
      · obtain rfl : list = none := hp
        rw [hlast] at hr
        have hone : Holds s₀ p (asTds [td] ++ ks) (isoTd u ed td i s₁) := h₁
        exact ih hone ⟨rfl, hn⟩ rfl hr
      · rw [List.concat_eq_append] at h₁ hp₁ hlast
        rw [hlast, List.getLast?_concat] at hr
        have hsome : list.or (some td) = list := by
          cases list with
          | none => exact absurd hp₁ (by cases l <;> simp)
          | some b => rfl
        rw [hsome] at hr
        obtain ⟨h₂, hp₂⟩ := h₁.link hp₁ hn
        exact ih h₂ hp₂ (List.getLast?_concat ..).symm hr

/-- The frame counters before the first TD. -/
def isoPrep (u : UtrId) (ed : Addr) (s : Ohci) : Ohci :=
  let s : Ohci := if (s.utr u).bIsoNewSched then
      { s with nextSf := Function.update s.nextSf ed (s.frameNo + ohciIsoDelay) }
    else s
  (s.setTdCnt u 0).setUtr u ({ · with isoSf := (s.nextSf ed).toNat })

/-- It writes nothing of a list but `next_sf` of the ED. -/
theorem isoPrep_same (u : UtrId) (ed : Addr) (s : Ohci) {b : Addr} (hb : b ≠ ed) :
    SameAt s (isoPrep u ed s) b := by
  unfold isoPrep
  split
  · exact ⟨rfl, rfl, rfl, rfl, rfl, rfl, rfl, Function.update_of_ne hb .., rfl, rfl⟩
  · exact ⟨rfl, rfl, rfl, rfl, rfl, rfl, rfl, rfl, rfl, rfl⟩

theorem isoPrep_toLists (u : UtrId) (ed : Addr) (s : Ohci) :
    (isoPrep u ed s).toLists = s.toLists ∧ (isoPrep u ed s).trace = s.trace := by
  unfold isoPrep
  split <;> exact ⟨rfl, rfl⟩

/-- A failed `ohci_iso_xfer` ran out of TDs. -/
theorem isoOnEd_neg {u : UtrId} {e : EpId} {ed : Addr} {isNewED : Bool} {r : Int}
    (hr : isoOnEd u e ed isNewED s = some (r, s')) (hneg : r < 0) :
    ∃ b list s₁, isoTds u ed ifPerUtr 0 none none (isoPrep u ed s) = (b, list, s₁) ∧
      memOut ed list s₁ = some (r, s') := by
  obtain ⟨⟨b, list, s₁⟩, ht⟩ : ∃ x, isoTds u ed ifPerUtr 0 none none (isoPrep u ed s) = x :=
    ⟨_, rfl⟩
  refine ⟨b, list, s₁, ht, ?_⟩
  change (if (isoTds u ed ifPerUtr 0 none none (isoPrep u ed s)).1 then _
    else memOut ed (isoTds u ed ifPerUtr 0 none none (isoPrep u ed s)).2.1
      (isoTds u ed ifPerUtr 0 none none (isoPrep u ed s)).2.2) = _ at hr
  rw [ht] at hr
  cases b with
  | true =>
    obtain ⟨s₂, -, he⟩ := Option.map_eq_some_iff.mp hr
    obtain ⟨rfl, -⟩ := Prod.mk.inj he
    exact absurd hneg (Int.lt_irrefl 0)
  | false => exact hr

theorem isoOnEd_holds {u : UtrId} {e : EpId} {ed : Addr} {isNewED : Bool} {r : Int}
    (h : Holds s₀ p [(ed, .ed)] s) (hr : isoOnEd u e ed isNewED s = some (r, s')) (hneg : r < 0) :
    Holds s₀ p [] s' := by
  obtain ⟨b, list, s₁, ht, hm⟩ := isoOnEd_neg hr hneg
  obtain ⟨hl, htr⟩ := isoPrep_toLists u ed s
  have h₁ : Holds s₀ p (asTds [] ++ [(ed, .ed)]) (isoPrep u ed s) := by
    have := h.write (t := isoPrep u ed s) (by rw [hl]) (by constructor <;> rw [hl]) htr
      fun b hb => isoPrep_same u ed s fun he => hb (he ▸ List.mem_cons_self)
    rw [hl] at this
    exact h.hwPipe ▸ this
  have hnil : Path some (isoPrep u ed s).nextTD none [] none := rfl
  obtain ⟨tds', h₂, hp⟩ := isoTds_holds List.mem_cons_self h₁ hnil rfl ht
  exact memOut_holds h₂ hp hm

end Ma35d1.UsbHost.Ohci
