import Ma35d1.Heap.IntervalTree
import Ma35d1.Machine.Trace
import Ma35d1.UsbHost.Msc.Drives

/-!
# Drive slots balance

The drives on `g_msc_list`, their numbers and the `MSC_T`s allocated belong together. The list
and the numbers always do; an `MSC_T` is lost by a probe that finds no medium.
-/

namespace Ma35d1.UsbHost.Msc

open Heap.LinkedPath Machine.Trace

variable {s t : Slots} {l : List Addr} {a msc : Addr} {i : Nat}

/-- `l` is `g_msc_list`: its drive numbers are distinct and exactly those in use, no unit is on
it twice, and its elements are allocated. -/
structure Listed (s : Slots) (l : List Addr) : Prop where
  path : Path some s.next s.gMscList l none
  used : ∀ i : Nat, s.gFatDrvUsed i = true ↔ ∃ a ∈ l, s.drvNo a = i
  drvNo : ∀ a ∈ l, ∃ i < usbdrvCnt, s.drvNo a = (i : Nat)
  drvNodup : (l.map s.drvNo).Nodup
  unitNodup : (l.map fun a => (s.iface a, s.lun a)).Nodup
  live : ∀ a ∈ l, s.live a = true
  fresh : ∀ a, s.live a = true → a < s.fresh

/-- Every `MSC_T` allocated is on the list. -/
def Balanced (s : Slots) : Prop := ∃ l, Listed s l ∧ ∀ a, s.live a = true → a ∈ l

theorem Listed.nodup (h : Listed s l) : l.Nodup := Path.nodup_none h.path

/-- There is one such list. -/
theorem Listed.unique {l' : List Addr} (h : Listed s l) (h' : Listed s l') : l = l' :=
  Path.unique (fun _ _ => Option.some.inj) h.path h'.path (fun _ _ => nofun) (fun _ _ => nofun)

/-- What is not on the list does not matter. -/
theorem Listed.congr (h : Listed s l) (hhead : t.gMscList = s.gMscList)
    (hnext : ∀ a ∈ l, t.next a = s.next a) (hused : t.gFatDrvUsed = s.gFatDrvUsed)
    (hdrv : ∀ a ∈ l, t.drvNo a = s.drvNo a) (hiface : ∀ a ∈ l, t.iface a = s.iface a)
    (hlun : ∀ a ∈ l, t.lun a = s.lun a) (hlive : ∀ a ∈ l, t.live a = s.live a)
    (hfresh : ∀ a, t.live a = true → a < t.fresh) : Listed t l := by
  constructor
  · rw [hhead]
    exact h.path.congr (fun _ _ => rfl) fun a ha => (hnext a ha).symm
  · intro i
    rw [hused, h.used i]
    exact ⟨fun ⟨a, ha, he⟩ => ⟨a, ha, (hdrv a ha).trans he⟩,
      fun ⟨a, ha, he⟩ => ⟨a, ha, (hdrv a ha).symm.trans he⟩⟩
  · intro a ha
    rw [hdrv a ha]
    exact h.drvNo a ha
  · rw [List.map_congr_left hdrv]
    exact h.drvNodup
  · have hunit : ∀ a ∈ l, (t.iface a, t.lun a) = (s.iface a, s.lun a) := fun a ha => by
      rw [hiface a ha, hlun a ha]
    rw [List.map_congr_left hunit]
    exact h.unitNodup
  · exact fun a ha => (hlive a ha).trans (h.live a ha)
  · exact hfresh

/-! ## Operations on the slots -/

@[simp] theorem setLun_lun (s : Slots) (a : Addr) (v : BitVec 8) :
    (s.setLun a v).lun = Function.update s.lun a v := rfl

@[simp] theorem alloc_live (s : Slots) :
    s.alloc.live = Function.update s.live s.fresh true := rfl

@[simp] theorem free_live (s : Slots) (a : Addr) :
    (s.free a).live = Function.update s.live a false := rfl

theorem mscListAdd_eq (s : Slots) (a : Addr) : s.mscListAdd a =
    { s with next := Function.update s.next a s.gMscList, gMscList := some a } := by
  unfold Slots.mscListAdd
  cases h : s.gMscList <;> rfl

theorem mount_eq (s : Slots) (a : Addr) (i : Nat) : s.mount a i =
    { s with
      next := Function.update s.next a s.gMscList
      gMscList := some a
      gFatDrvUsed := Function.update s.gFatDrvUsed i true
      drvNo := Function.update s.drvNo a i } := by
  rw [Slots.mount, mscListAdd_eq, Slots.setDrvNo]

theorem ne_of_not_mem {b : Addr} (ha : a ∉ l) (hb : b ∈ l) : b ≠ a := fun h => ha (h ▸ hb)

theorem alloc_listed (h : Listed s l) : Listed s.alloc l := by
  have hne : ∀ b ∈ l, b ≠ s.fresh := fun b hb => (h.fresh b (h.live b hb)).ne
  refine h.congr rfl (fun b hb => Function.update_of_ne (hne b hb) ..) rfl
    (fun b hb => Function.update_of_ne (hne b hb) ..)
    (fun b hb => Function.update_of_ne (hne b hb) ..)
    (fun b hb => Function.update_of_ne (hne b hb) ..)
    (fun b hb => Function.update_of_ne (hne b hb) ..) fun b hb => ?_
  by_cases hbf : b = s.fresh
  · rw [hbf]
    exact Nat.lt_succ_self _
  · rw [alloc_live, Function.update_of_ne hbf] at hb
    exact Nat.lt_succ_of_lt (h.fresh b hb)

theorem memcpy_listed (h : Listed s l) (ha : a ∉ l) (msc : Addr) : Listed (s.memcpy a msc) l := by
  have hne : ∀ b ∈ l, b ≠ a := fun b hb => ne_of_not_mem ha hb
  exact h.congr rfl (fun b hb => Function.update_of_ne (hne b hb) ..) rfl
    (fun b hb => Function.update_of_ne (hne b hb) ..)
    (fun b hb => Function.update_of_ne (hne b hb) ..)
    (fun b hb => Function.update_of_ne (hne b hb) ..) (fun _ _ => rfl) h.fresh

theorem free_listed (h : Listed s l) (ha : a ∉ l) : Listed (s.free a) l := by
  refine h.congr rfl (fun _ _ => rfl) rfl (fun _ _ => rfl) (fun _ _ => rfl) (fun _ _ => rfl)
    (fun b hb => Function.update_of_ne (ne_of_not_mem ha hb) ..) fun b hb => ?_
  by_cases hba : b = a
  · rw [hba, free_live, Function.update_self] at hb
    cases hb
  · rw [free_live, Function.update_of_ne hba] at hb
    exact h.fresh b hb

theorem freeDrive_some (h : s.freeDrive = some i) : i < usbdrvCnt ∧ s.gFatDrvUsed i = false := by
  obtain ⟨hi, hmem, -⟩ := List.find?_eq_some_iff_append.1 h
  exact ⟨List.mem_range.1 (List.mem_of_find?_eq_some h), by simpa using hi⟩

/-- A drive that is mounted takes a number that was free. -/
theorem mount_listed (h : Listed s l) (ha : a ∉ l) (hlive : s.live a = true)
    (hfree : s.freeDrive = some i)
    (hunit : (s.iface a, s.lun a) ∉ l.map fun b => (s.iface b, s.lun b)) :
    Listed (s.mount a i) (a :: l) := by
  obtain ⟨hi, hnot⟩ := freeDrive_some hfree
  have hne : ∀ b ∈ l, b ≠ a := fun b hb => ne_of_not_mem ha hb
  have hdrv : ∀ b ∈ l, Function.update s.drvNo a (i : Int) b = s.drvNo b := fun b hb =>
    Function.update_of_ne (hne b hb) ..
  have hnew : ∀ b ∈ l, s.drvNo b ≠ (i : Int) := fun b hb he => by
    rw [(h.used i).2 ⟨b, hb, he⟩] at hnot
    cases hnot
  rw [mount_eq]
  constructor
  · refine ⟨rfl, ?_⟩
    show Path some (Function.update s.next a s.gMscList)
      (Function.update s.next a s.gMscList a) l none
    rw [Function.update_self]
    exact h.path.update_of_not_mem ha
  · intro j
    show Function.update s.gFatDrvUsed i true j = true ↔
      ∃ b ∈ a :: l, Function.update s.drvNo a (i : Int) b = j
    simp only [List.mem_cons, exists_eq_or_imp, Function.update_self]
    by_cases hj : j = i
    · rw [hj, Function.update_self]
      exact iff_of_true rfl (.inl rfl)
    · rw [Function.update_of_ne hj, h.used j]
      constructor
      · rintro ⟨b, hb, he⟩
        exact .inr ⟨b, hb, (hdrv b hb).trans he⟩
      · rintro (he | ⟨b, hb, he⟩)
        · exact absurd (Int.ofNat.inj he).symm hj
        · exact ⟨b, hb, (hdrv b hb).symm.trans he⟩
  · intro b hb
    show ∃ j < usbdrvCnt, Function.update s.drvNo a (i : Int) b = (j : Nat)
    rcases List.mem_cons.1 hb with rfl | hb
    · exact ⟨i, hi, Function.update_self ..⟩
    · rw [hdrv b hb]
      exact h.drvNo b hb
  · show ((a :: l).map (Function.update s.drvNo a (i : Int))).Nodup
    rw [List.map_cons, Function.update_self, List.map_congr_left hdrv]
    refine List.nodup_cons.2 ⟨fun hmem => ?_, h.drvNodup⟩
    obtain ⟨b, hb, he⟩ := List.mem_map.1 hmem
    exact hnew b hb he
  · exact List.nodup_cons.2 ⟨hunit, h.unitNodup⟩
  · exact List.forall_mem_cons.2 ⟨hlive, h.live⟩
  · exact h.fresh

/-! ## Unmounting -/

/-- A list of allocated drives is no longer than the number of allocations. -/
theorem Listed.length_le (h : Listed s l) : l.length ≤ s.fresh :=
  Heap.IntervalTree.nodup_length_le h.nodup fun a ha => h.fresh a (h.live a ha)

/-- `msc_list_remove` unlinks its argument and leaves the links of the others. -/
theorem mscListRemove_spec {kept rest : List Addr}
    (h : Path some s.next s.gMscList (kept ++ a :: rest) none)
    (hlen : (kept ++ a :: rest).length ≤ s.fresh) :
    ∃ next head, s.mscListRemove a = { s with next := next, gMscList := head } ∧
      Path some next head (kept ++ rest) none ∧ ∀ b, b ∉ kept → next b = s.next b := by
  have hd := Path.nodup_none h
  rcases List.eq_nil_or_concat kept with rfl | ⟨kept, p, rfl⟩
  · obtain ⟨hhead, hrest⟩ := h
    refine ⟨s.next, s.next a, ?_, hrest, fun _ _ => rfl⟩
    rw [Slots.mscListRemove, hhead]
    exact if_pos rfl
  · have hsplit : kept.concat p ++ a :: rest = kept ++ p :: a :: rest := by simp
    rw [hsplit] at h hd hlen
    obtain ⟨b, hb⟩ : ∃ b, s.gMscList = some b := by
      cases kept with
      | nil => exact ⟨p, h.1⟩
      | cons b kept => exact ⟨b, h.1⟩
    have hba : b ≠ a := by
      rintro rfl
      rw [hb] at h
      have hmem : b ∈ kept ++ [p] := by
        cases kept with
        | nil => exact List.mem_singleton.2 (Option.some.inj h.1)
        | cons c kept => exact List.mem_cons.2 (.inl (Option.some.inj h.1))
      have hd' : (kept ++ [p] ++ b :: rest).Nodup := by simpa using hd
      exact (List.nodup_append.1 hd').2.2 b hmem b List.mem_cons_self rfl
    have hstop : ∀ c ∈ kept ++ [p], (s.next c).isNone = false := by
      intro c hc
      have hp : s.next p = some a := h.start_eq.2.1
      rcases List.mem_append.1 hc with hc | hc
      · obtain ⟨d, -, hnext⟩ := h.next_mem_tail hc
        rw [hnext]
        rfl
      · rw [List.mem_singleton.1 hc, hp]
        rfl
    have hpred : predFrom s.next (fun p => (s.next p).isNone) a (s.fresh + 1) b = some (some p) :=
      Path.predFrom_eq (hb ▸ h) hd rfl hstop (Nat.lt_succ_of_le hlen)
    refine ⟨Function.update s.next p (s.next a), s.gMscList, ?_, ?_, fun c hc => ?_⟩
    · rw [Slots.mscListRemove, hb]
      dsimp only
      rw [if_neg hba, hpred, ← hb]
    · have hremove := h.remove_after hd
      simpa using hremove
    · exact Function.update_of_ne (fun he => hc (by simp [he])) ..

/-- A drive taken off the list gives its number back. -/
theorem remove_listed {kept rest : List Addr} (h : Listed s (kept ++ a :: rest)) :
    Listed (((s.fatfsDriveFree (s.drvNo a)).mscListRemove a).free a) (kept ++ rest) ∧
      ∀ b, b ∉ kept →
        (((s.fatfsDriveFree (s.drvNo a)).mscListRemove a).free a).next b = s.next b := by
  have hperm : (kept ++ a :: rest).Perm (a :: (kept ++ rest)) := List.perm_middle
  have hmem : ∀ b ∈ kept ++ rest, b ∈ kept ++ a :: rest := fun b hb =>
    hperm.mem_iff.2 (List.mem_cons_of_mem _ hb)
  obtain ⟨i, hi, hdrv⟩ := h.drvNo a (hperm.mem_iff.2 List.mem_cons_self)
  have hdrvNodup : (s.drvNo a :: (kept ++ rest).map s.drvNo).Nodup :=
    (hperm.map s.drvNo).nodup_iff.1 h.drvNodup
  obtain ⟨next, head, he, hpath, hnext⟩ :=
    mscListRemove_spec (s := s.fatfsDriveFree (s.drvNo a)) h.path h.length_le
  rw [he]
  refine ⟨?_, hnext⟩
  have hnot : a ∉ kept ++ rest := (List.nodup_cons.1 (hperm.nodup_iff.1 h.nodup)).1
  constructor
  · exact hpath
  · intro j
    show Function.update s.gFatDrvUsed (s.drvNo a).toNat false j = true ↔
      ∃ b ∈ kept ++ rest, s.drvNo b = j
    rw [hdrv, Int.toNat_natCast]
    by_cases hj : j = i
    · rw [hj, Function.update_self]
      refine iff_of_false nofun ?_
      rintro ⟨b, hb, hbi⟩
      exact (List.nodup_cons.1 hdrvNodup).1 (List.mem_map.2 ⟨b, hb, hbi.trans hdrv.symm⟩)
    · rw [Function.update_of_ne hj, h.used j]
      constructor
      · rintro ⟨b, hb, hbj⟩
        rcases List.mem_cons.1 (hperm.mem_iff.1 hb) with rfl | hb
        · exact absurd (Int.ofNat.inj (hbj.symm.trans hdrv)) hj
        · exact ⟨b, hb, hbj⟩
      · rintro ⟨b, hb, hbj⟩
        exact ⟨b, hmem b hb, hbj⟩
  · exact fun b hb => h.drvNo b (hmem b hb)
  · exact (List.nodup_cons.1 hdrvNodup).2
  · exact (List.nodup_cons.1 ((hperm.map _).nodup_iff.1 h.unitNodup)).2
  · intro b hb
    show Function.update s.live a false b = true
    rw [Function.update_of_ne (ne_of_not_mem hnot hb)]
    exact h.live b (hmem b hb)
  · intro b hb
    by_cases hba : b = a
    · rw [hba, free_live, Function.update_self] at hb
      cases hb
    · rw [free_live, Function.update_of_ne hba] at hb
      exact h.fresh b hb

theorem mscListRemove_fields (s : Slots) (a : Addr) :
    (s.mscListRemove a).live = s.live ∧ (s.mscListRemove a).iface = s.iface := by
  unfold Slots.mscListRemove
  split
  · exact ⟨rfl, rfl⟩
  · split
    · exact ⟨rfl, rfl⟩
    · split <;> exact ⟨rfl, rfl⟩

/-- The loop of `msc_disconnect`: the drives of the interface among those still to come are
taken off and given back. -/
theorem disconnectFrom_spec (ifc : IfaceId) {n : Nat} {p : Ptr} (kept : List Addr)
    {rest : List Addr}
    (h : Listed s (kept ++ rest)) (hp : Path some s.next p rest none) (hn : rest.length < n) :
    ∃ l, Listed (disconnectFrom ifc n p s) l ∧ (∀ b ∈ l, b ∈ kept ++ rest) ∧
      (disconnectFrom ifc n p s).iface = s.iface ∧ (∀ b ∈ l, b ∈ rest → s.iface b ≠ ifc) ∧
      ∀ b, (disconnectFrom ifc n p s).live b = true → s.live b = true ∧
        (b ∈ kept ++ rest → b ∈ l) := by
  induction rest generalizing s n p kept with
  | nil =>
    have hp : p = none := hp
    rw [hp]
    cases n with
    | zero => exact absurd hn (Nat.lt_irrefl 0)
    | succ n =>
      exact ⟨kept ++ [], h, fun _ hb => hb, rfl, nofun, fun _ hb => ⟨hb, fun hm => hm⟩⟩
  | cons a rest ih =>
    obtain ⟨rfl, hrest⟩ := hp
    cases n with
    | zero => exact absurd hn (Nat.not_lt_zero _)
    | succ n =>
      rw [disconnectFrom]
      have hn : rest.length < n := Nat.lt_of_succ_lt_succ hn
      by_cases hif : s.iface a = ifc
      · rw [if_pos hif]
        obtain ⟨hr, hnext⟩ := remove_listed h
        obtain ⟨hlive', hiface'⟩ := mscListRemove_fields (s.fatfsDriveFree (s.drvNo a)) a
        have hd := h.nodup
        -- the links of the drives still to come are as they were
        have hpath : Path some (((s.fatfsDriveFree (s.drvNo a)).mscListRemove a).free a).next
            (s.next a) rest none :=
          hrest.congr (fun _ _ => rfl) fun b hb => (hnext b fun hk =>
            (List.nodup_append.1 hd).2.2 b hk b (List.mem_cons_of_mem _ hb) rfl).symm
        obtain ⟨l, hl, hsub, hifc, hout, hlive⟩ := ih kept hr hpath hn
        have hifs : (((s.fatfsDriveFree (s.drvNo a)).mscListRemove a).free a).iface = s.iface :=
          hiface'
        rw [hifs] at hifc hout
        have hnot : a ∉ kept ++ rest :=
          (List.nodup_cons.1 (List.perm_middle.nodup_iff.1 hd)).1
        refine ⟨l, hl, fun b hb => ?_, hifc, fun b hb hbr => ?_, fun b hb => ?_⟩
        · exact List.perm_middle.mem_iff.2 (List.mem_cons_of_mem _ (hsub b hb))
        · rcases List.mem_cons.1 hbr with rfl | hbr
          · exact absurd (hsub b hb) hnot
          · exact hout b hb hbr
        · obtain ⟨hb', hmem⟩ := hlive b hb
          by_cases hba : b = a
          · rw [hba, free_live, Function.update_self] at hb'
            cases hb'
          · rw [free_live, Function.update_of_ne hba, hlive'] at hb'
            refine ⟨hb', fun hm => hmem ?_⟩
            rcases List.mem_cons.1 (List.perm_middle.mem_iff.1 hm) with he | hm
            · exact absurd he hba
            · exact hm
      · rw [if_neg hif]
        rw [List.append_cons] at h
        obtain ⟨l, hl, hsub, hifc, hout, hlive⟩ := ih _ h hrest hn
        rw [← List.append_cons] at hsub hlive
        refine ⟨l, hl, hsub, hifc, fun b hb hbr => ?_, hlive⟩
        rcases List.mem_cons.1 hbr with rfl | hbr
        · exact hif
        · exact hout b hb hbr

/-! ## Probing -/

/-- The state of the loop of `umass_init_device`: `l` is the list, `tryMsc` is allocated beside
it, and the units of the interface that are on the list were tried before. -/
structure Trying (s : Slots) (l : List Addr) (ifc : IfaceId) (msc tryMsc : Addr) (lun : Nat) :
    Prop where
  listed : Listed s l
  tryLive : s.live tryMsc = true
  tryNot : tryMsc ∉ l
  tryIface : s.iface tryMsc = ifc
  mscIface : s.iface msc = ifc
  mscLt : msc < s.fresh
  luns : ∀ a ∈ l, s.iface a = ifc → (s.lun a).toNat < lun

/-- Whether a unit of the device from `lun` on answers and tells its capacity. -/
def hasMedium (dev : Nat → BulkOutcome) (msc : Addr) : Nat → Nat → Io → Bool
  | 0, _, _ => false
  | n + 1, lun, io =>
    let l := BitVec.ofNat 8 lun
    let d := findDisk dev msc l 3 io
    if d.1 = false then hasMedium dev msc n (lun + 1) d.2
    else
      let c := readCapacity dev msc l 3 0 d.2
      if c.1 < 0 then hasMedium dev msc n (lun + 1) c.2 else true

section Trying

variable {ifc : IfaceId} {tryMsc : Addr} {lun : Nat}

/-- The unit number is set. -/
theorem Trying.setLun (h : Trying s l ifc msc tryMsc lun) (v : BitVec 8) :
    Trying (s.setLun tryMsc v) l ifc msc tryMsc lun where
  listed := h.listed.congr rfl (fun _ _ => rfl) rfl (fun _ _ => rfl) (fun _ _ => rfl)
    (fun _ hb => Function.update_of_ne (ne_of_not_mem h.tryNot hb) ..) (fun _ _ => rfl)
    h.listed.fresh
  tryLive := h.tryLive
  tryNot := h.tryNot
  tryIface := h.tryIface
  mscIface := h.mscIface
  mscLt := h.mscLt
  luns a ha hif := by
    show (Function.update s.lun tryMsc v a).toNat < lun
    rw [Function.update_of_ne (ne_of_not_mem h.tryNot ha)]
    exact h.luns a ha hif

/-- On to the next unit. -/
theorem Trying.succ (h : Trying s l ifc msc tryMsc lun) : Trying s l ifc msc tryMsc (lun + 1) :=
  { h with luns := fun a ha hif => Nat.lt_succ_of_lt (h.luns a ha hif) }

theorem Trying.mount (h : Trying s l ifc msc tryMsc lun) (hlun : (s.lun tryMsc).toNat = lun)
    (hfree : s.freeDrive = some i) : Listed (s.mount tryMsc i) (tryMsc :: l) := by
  refine mount_listed h.listed h.tryNot h.tryLive hfree fun hmem => ?_
  obtain ⟨b, hb, he⟩ := List.mem_map.1 hmem
  obtain ⟨hif, hl⟩ := Prod.mk.inj he
  have hlt := h.luns b hb (hif.trans h.tryIface)
  rw [hl, hlun] at hlt
  exact Nat.lt_irrefl _ hlt

theorem mount_fresh (s : Slots) (a : Addr) (i : Nat) : (s.mount a i).fresh = s.fresh := by
  rw [mount_eq]

/-- The copy is a new `MSC_T`; the others stay as they are. -/
theorem copy_fields (s : Slots) (tryMsc msc : Addr) (i : Nat) {b : Addr} (hb : b ≠ s.fresh) :
    ((s.mount tryMsc i).alloc.memcpy s.fresh msc).iface b = s.iface b ∧
      ((s.mount tryMsc i).alloc.memcpy s.fresh msc).lun b = s.lun b ∧
      ((s.mount tryMsc i).alloc.memcpy s.fresh msc).live b = s.live b := by
  rw [mount_eq]
  refine ⟨?_, ?_, Function.update_of_ne hb ..⟩
  · show Function.update (Function.update s.iface s.fresh 0) s.fresh _ b = _
    rw [Function.update_of_ne hb, Function.update_of_ne hb]
  · show Function.update (Function.update s.lun s.fresh 0) s.fresh _ b = _
    rw [Function.update_of_ne hb, Function.update_of_ne hb]

/-- A copy of the first `MSC_T` is made for the next unit. -/
theorem Trying.copy (h : Trying s l ifc msc tryMsc lun) (hlun : (s.lun tryMsc).toNat = lun)
    (hfree : s.freeDrive = some i) :
    Trying ((s.mount tryMsc i).alloc.memcpy s.fresh msc) (tryMsc :: l) ifc msc s.fresh (lun + 1) := by
  have hm := h.mount hlun hfree
  have hfresh := mount_fresh s tryMsc i
  have hlt : ∀ b ∈ tryMsc :: l, b < s.fresh := fun b hb => hfresh ▸ hm.fresh b (hm.live b hb)
  have hnot : s.fresh ∉ tryMsc :: l := fun hb => Nat.lt_irrefl _ (hlt _ hb)
  have hmsc : msc ≠ s.fresh := h.mscLt.ne
  refine ⟨memcpy_listed (alloc_listed hm) hnot msc, ?_, hnot, ?_, ?_, ?_, ?_⟩
  · show (s.mount tryMsc i).alloc.live s.fresh = true
    rw [alloc_live, hfresh, Function.update_self]
  · rw [mount_eq]
    show Function.update (Function.update s.iface s.fresh 0) s.fresh
      (Function.update s.iface s.fresh 0 msc) s.fresh = ifc
    rw [Function.update_self, Function.update_of_ne hmsc, h.mscIface]
  · rw [(copy_fields s tryMsc msc i hmsc).1, h.mscIface]
  · show msc < (s.mount tryMsc i).fresh + 1
    rw [hfresh]
    exact Nat.lt_succ_of_lt h.mscLt
  · intro b hb hbif
    obtain ⟨hif, hluns, -⟩ := copy_fields s tryMsc msc i (hlt b hb).ne
    rw [hif] at hbif
    rw [hluns]
    rcases List.mem_cons.1 hb with rfl | hb
    · rw [hlun]
      exact Nat.lt_succ_self _
    · exact Nat.lt_succ_of_lt (h.luns b hb hbif)

/-- What the loop leaves: the list is in order, what it gained is of the interface, and beside
it only the last `MSC_T` tried is allocated anew. -/
structure Tried (s t : Slots) (l : List Addr) (ifc : IfaceId) (tryMsc : Addr) (left : Ptr)
    (l' : List Addr) : Prop where
  listed : Listed t l'
  kept : ∀ b ∈ l, b ∈ l'
  keptIface : ∀ b ∈ l, t.iface b = s.iface b
  newIface : ∀ b ∈ l', b ∉ l → t.iface b = ifc
  live : ∀ b, t.live b = true → s.live b = true ∧ b ≠ tryMsc ∨ b ∈ l' ∨ left = some b
  left : ∀ b, left = some b → t.live b = true ∧ b ∉ l'

/-- No drive number is left. -/
theorem Trying.noDrive (h : Trying s l ifc msc tryMsc lun) :
    Tried s (s.setDrvNo tryMsc usbhErrMemoryOut) l ifc tryMsc (some tryMsc) l := by
  refine ⟨?_, fun _ hb => hb, fun _ _ => rfl, fun b hb hn => absurd hb hn, fun b hb => ?_,
    fun b hb => ?_⟩
  · exact h.listed.congr rfl (fun _ _ => rfl) rfl
      (fun _ hb => Function.update_of_ne (ne_of_not_mem h.tryNot hb) ..) (fun _ _ => rfl)
      (fun _ _ => rfl) (fun _ _ => rfl) h.listed.fresh
  · by_cases hbt : b = tryMsc
    · exact .inr (.inr (congrArg some hbt.symm))
    · exact .inl ⟨hb, hbt⟩
  · obtain rfl := Option.some.inj hb
    exact ⟨h.tryLive, h.tryNot⟩

/-- There is no copy for the next unit. -/
theorem Trying.last (h : Trying s l ifc msc tryMsc lun) (hlun : (s.lun tryMsc).toNat = lun)
    (hfree : s.freeDrive = some i) :
    Tried s (s.mount tryMsc i) l ifc tryMsc none (tryMsc :: l) := by
  refine ⟨h.mount hlun hfree, fun b hb => List.mem_cons_of_mem _ hb, fun b _ => ?_,
    fun b hb hn => ?_, fun b hb => ?_, nofun⟩
  · rw [mount_eq]
  · rw [mount_eq]
    rcases List.mem_cons.1 hb with rfl | hb
    · exact h.tryIface
    · exact absurd hb hn
  · rw [mount_eq] at hb
    by_cases hbt : b = tryMsc
    · exact .inr (.inl (List.mem_cons.2 (.inl hbt)))
    · exact .inl ⟨hb, hbt⟩

/-- What the units behind this one leave, seen from before it. -/
theorem Trying.next {left : Ptr} {l' : List Addr} (h : Trying s l ifc msc tryMsc lun)
    (hlun : (s.lun tryMsc).toNat = lun) (hfree : s.freeDrive = some i)
    (ht : Tried ((s.mount tryMsc i).alloc.memcpy s.fresh msc) t (tryMsc :: l) ifc s.fresh left l') :
    Tried s t l ifc tryMsc left l' := by
  have hm := h.mount hlun hfree
  have hlt : ∀ b ∈ tryMsc :: l, b < s.fresh := fun b hb =>
    mount_fresh s tryMsc i ▸ hm.fresh b (hm.live b hb)
  have hif : ∀ b ∈ tryMsc :: l, t.iface b = s.iface b := fun b hb =>
    (ht.keptIface b hb).trans (copy_fields s tryMsc msc i (hlt b hb).ne).1
  refine ⟨ht.listed, fun b hb => ht.kept b (List.mem_cons_of_mem _ hb),
    fun b hb => hif b (List.mem_cons_of_mem _ hb), fun b hb hn => ?_, fun b hb => ?_, ht.left⟩
  · by_cases hbt : b = tryMsc
    · rw [hbt, hif tryMsc List.mem_cons_self, h.tryIface]
    · exact ht.newIface b hb fun hm => (List.mem_cons.1 hm).elim hbt hn
  · rcases ht.live b hb with ⟨hlive, hne⟩ | hrest
    · rw [(copy_fields s tryMsc msc i hne).2.2] at hlive
      by_cases hbt : b = tryMsc
      · exact .inr (.inl (ht.kept b (List.mem_cons.2 (.inl hbt))))
      · exact .inl ⟨hlive, hbt⟩
    · exact .inr hrest

/-- A medium once found is not forgotten. -/
theorem initLuns_media_true {env : ProbeEnv} {n : Nat} {ret : Int} {s : Umas} :
    (initLuns env msc n lun tryMsc true ret s).2.1 = true := by
  induction n generalizing lun tryMsc ret s with
  | zero => rfl
  | succ n ih =>
    rw [initLuns]
    dsimp only
    split
    · exact ih
    split
    · exact ih
    split
    · rfl
    split
    · rfl
    · exact ih

/-- Only behind a mounted drive is there no `MSC_T` left over. -/
theorem initLuns_none {env : ProbeEnv} {n : Nat} {bHasMedia : Bool} {ret : Int} {s : Umas}
    (h : (initLuns env msc n lun tryMsc bHasMedia ret s).1 = none) :
    (initLuns env msc n lun tryMsc bHasMedia ret s).2.1 = true := by
  induction n generalizing lun tryMsc bHasMedia ret s with
  | zero => cases h
  | succ n ih =>
    rw [initLuns] at h ⊢
    dsimp only at h ⊢
    split at h
    · rename_i hd
      rw [if_pos hd]
      exact ih h
    rename_i hd
    rw [if_neg hd]
    split at h
    · rename_i hc
      rw [if_pos hc]
      exact ih h
    rename_i hc
    rw [if_neg hc]
    split at h
    · cases h
    split at h
    · rename_i ha
      rw [if_pos ha]
    · rename_i ha
      rw [if_neg ha]
      exact ih h

/-- A medium is found when a unit has one and a drive number is free. -/
theorem initLuns_media_iff (env : ProbeEnv) (msc tryMsc : Addr) (n lun : Nat) (ret : Int)
    (s : Umas) : (initLuns env msc n lun tryMsc false ret s).2.1 = true ↔
      hasMedium env.dev tryMsc n lun s.io = true ∧ s.slots.freeDrive ≠ none := by
  induction n generalizing lun ret s with
  | zero => exact iff_of_false nofun fun h => nomatch h.1
  | succ n ih =>
    have hret : ∀ io, readCapacity env.dev tryMsc (BitVec.ofNat 8 lun) 3 ret io =
        readCapacity env.dev tryMsc (BitVec.ofNat 8 lun) 3 0 io := fun _ => rfl
    have hdrive : (s.slots.setLun tryMsc (BitVec.ofNat 8 lun)).freeDrive = s.slots.freeDrive := rfl
    rw [initLuns, hasMedium]
    dsimp only
    rw [hret, hdrive]
    split
    · exact ih ..
    split
    · exact ih ..
    split
    · rename_i hnone
      exact iff_of_false nofun fun h => h.2 hnone
    · rename_i hsome
      have hne : s.slots.freeDrive ≠ none := by
        rw [hsome]
        nofun
      split
      · exact iff_of_true rfl ⟨rfl, hne⟩
      · exact iff_of_true initLuns_media_true ⟨rfl, hne⟩

theorem initLuns_spec (env : ProbeEnv) (n : Nat) (bHasMedia : Bool) (ret : Int) {s : Umas}
    (h : Trying s.slots l ifc msc tryMsc lun) (hn : lun + n ≤ 256) :
    ∃ l', Tried s.slots (initLuns env msc n lun tryMsc bHasMedia ret s).2.2.2.slots l ifc tryMsc
        (initLuns env msc n lun tryMsc bHasMedia ret s).1 l' ∧
      ((initLuns env msc n lun tryMsc bHasMedia ret s).2.1 = false → l' = l) := by
  induction n generalizing lun tryMsc bHasMedia ret s l with
  | zero =>
    refine ⟨l, ⟨h.listed, fun _ hb => hb, fun _ _ => rfl, fun b hb hn => absurd hb hn,
      fun b hb => ?_, fun b hb => ?_⟩, fun _ => rfl⟩
    · by_cases hbt : b = tryMsc
      · exact .inr (.inr (congrArg some hbt.symm))
      · exact .inl ⟨hb, hbt⟩
    · obtain rfl := Option.some.inj hb
      exact ⟨h.tryLive, h.tryNot⟩
  | succ n ih =>
    have h1 := h.setLun (BitVec.ofNat 8 lun)
    have hlun : ((s.slots.setLun tryMsc (BitVec.ofNat 8 lun)).lun tryMsc).toNat = lun := by
      rw [setLun_lun, Function.update_self, BitVec.toNat_ofNat]
      exact Nat.mod_eq_of_lt (by omega)
    -- the unit number is all that differs
    have hiface : (s.slots.setLun tryMsc (BitVec.ofNat 8 lun)).iface = s.slots.iface := rfl
    have hlive : (s.slots.setLun tryMsc (BitVec.ofNat 8 lun)).live = s.slots.live := rfl
    rw [initLuns]
    dsimp only
    generalize s.slots.setLun tryMsc (BitVec.ofNat 8 lun) = s1 at h1 hlun hiface hlive ⊢
    have hback : ∀ {t : Slots} {left : Ptr} {l' : List Addr},
        Tried s1 t l ifc tryMsc left l' → Tried s.slots t l ifc tryMsc left l' := by
      intro t left l' ht
      refine ⟨ht.listed, ht.kept, ?_, ht.newIface, ?_, ht.left⟩
      · rw [← hiface]
        exact ht.keptIface
      · rw [← hlive]
        exact ht.live
    split
    · obtain ⟨l', hl, hsame⟩ := ih _ _ (s := ⟨s1, _⟩) h1.succ (by omega)
      exact ⟨l', hback hl, hsame⟩
    split
    · obtain ⟨l', hl, hsame⟩ := ih _ _ (s := ⟨s1, _⟩) h1.succ (by omega)
      exact ⟨l', hback hl, hsame⟩
    split
    · exact ⟨l, hback h1.noDrive, fun _ => rfl⟩
    · rename_i drvNo hfree
      split
      · exact ⟨tryMsc :: l, hback (h1.last hlun hfree), nofun⟩
      · rw [mount_fresh]
        generalize hu : Umas.duplicate ⟨s1.mount tryMsc drvNo, _⟩ msc = u
        have hslots : u.slots = (s1.mount tryMsc drvNo).alloc.memcpy s1.fresh msc := by
          rw [← hu, Umas.duplicate, mount_fresh]
        obtain ⟨l', hl, -⟩ := ih _ _ (s := u) (hslots ▸ h1.copy hlun hfree) (by omega)
        refine ⟨l', hback (h1.next hlun hfree (hslots ▸ hl)), fun hm => ?_⟩
        rw [initLuns_media_true] at hm
        cases hm

end Trying

/-- The `MSC_T` of a probe is new. -/
theorem prepare_trying {s : Umas} (env : ProbeEnv) {iface : Iface} (h : Listed s.slots l)
    (hnew : ∀ a ∈ l, s.slots.iface a ≠ iface.id) :
    Trying (s.prepare env iface).slots l iface.id s.slots.fresh s.slots.fresh 0 := by
  have hne : ∀ b ∈ l, b ≠ s.slots.fresh := fun b hb => (h.fresh b (h.live b hb)).ne
  have hif : ∀ b ∈ l, (s.prepare env iface).slots.iface b = s.slots.iface b := by
    intro b hb
    show Function.update (Function.update s.slots.iface s.slots.fresh 0) s.slots.fresh iface.id b = _
    rw [Function.update_of_ne (hne b hb), Function.update_of_ne (hne b hb)]
  have ha := alloc_listed h
  refine ⟨?_, Function.update_self .., ?_, Function.update_self .., Function.update_self ..,
    Nat.lt_succ_self _, fun b hb hbif => ?_⟩
  · exact ha.congr rfl (fun _ _ => rfl) rfl (fun _ _ => rfl)
      (fun b hb => Function.update_of_ne (hne b hb) ..) (fun _ _ => rfl) (fun _ _ => rfl) ha.fresh
  · exact fun hb => (hne _ hb) rfl
  · rw [hif b hb] at hbif
    exact absurd hbif (hnew b hb)

/-- What a probe does to the list `l`, given that `iface` is not on it. -/
structure Probed (s t : Slots) (l : List Addr) (ifc : IfaceId) (ret : Int) (l' : List Addr) :
    Prop where
  listed : Listed t l'
  keptIface : ∀ b ∈ l, t.iface b = s.iface b
  newIface : ∀ b ∈ l', b ∉ l → ret = 0 ∧ t.iface b = ifc

/-- `umass_init_device` loses its `MSC_T` exactly when no medium gets a drive number. -/
theorem umassInitDevice_spec {s : Umas} (env : ProbeEnv) {iface : Iface} (h : Listed s.slots l)
    (hnew : ∀ a ∈ l, s.slots.iface a ≠ iface.id) :
    ∃ l', Probed s.slots (umassInitDevice env s.slots.fresh (s.prepare env iface)).2.slots l
        iface.id (umassInitDevice env s.slots.fresh (s.prepare env iface)).1 l' ∧
      ((∀ b, s.slots.live b = true → b ∈ l) →
        (Balanced (umassInitDevice env s.slots.fresh (s.prepare env iface)).2.slots ↔
          hasMedium env.dev s.slots.fresh (env.maxLun.toNat + 1) 0 (s.io.zero s.slots.fresh) = true ∧
            s.slots.freeDrive ≠ none)) := by
  have ht := prepare_trying env h hnew
  have hmax : (s.prepare env iface).slots.maxLun s.slots.fresh = env.maxLun :=
    Function.update_self ..
  have hlt := env.maxLun.isLt
  have hprep : ∀ b ∈ l, (s.prepare env iface).slots.iface b = s.slots.iface b := by
    intro b hb
    have hne := (h.fresh b (h.live b hb)).ne
    show Function.update (Function.update s.slots.iface s.slots.fresh 0) s.slots.fresh iface.id b = _
    rw [Function.update_of_ne hne, Function.update_of_ne hne]
  have hlive : ∀ b, b ≠ s.slots.fresh → (s.prepare env iface).slots.live b = s.slots.live b :=
    fun b hb => Function.update_of_ne hb ..
  have hmedia := initLuns_media_iff env s.slots.fresh s.slots.fresh (env.maxLun.toNat + 1) 0
    usbhErrNotFound (s.prepare env iface)
  obtain ⟨l', hl, hsame⟩ := initLuns_spec env (env.maxLun.toNat + 1) false usbhErrNotFound ht
    (by omega)
  have hnone : (initLuns env s.slots.fresh (env.maxLun.toNat + 1) 0 s.slots.fresh false
      usbhErrNotFound (s.prepare env iface)).1 = none → _ := initLuns_none
  unfold umassInitDevice
  rw [hmax]
  dsimp only
  generalize initLuns env s.slots.fresh (env.maxLun.toNat + 1) 0 s.slots.fresh false
    usbhErrNotFound (s.prepare env iface) = r at hmedia hl hsame hnone ⊢
  obtain ⟨left, media, ret, u⟩ := r
  dsimp only at hmedia hl hsame hnone ⊢
  cases media with
  | false =>
    obtain rfl := hsame rfl
    cases left with
    | none => cases hnone rfl
    | some a =>
      refine ⟨l', ⟨hl.listed, fun b hb => (hl.keptIface b hb).trans (hprep b hb),
        fun b hb hn => absurd hb hn⟩, fun _ => ?_⟩
      refine iff_of_false ?_ fun hm => nomatch hmedia.2 hm
      rintro ⟨l'', hl'', hall⟩
      obtain ⟨hlive', hnot⟩ := hl.left a rfl
      exact hnot (hl.listed.unique hl'' ▸ hall a hlive')
  | true =>
    have hall : (∀ b, s.slots.live b = true → b ∈ l) → ∀ b, u.slots.live b = true →
        b ∈ l' ∨ left = some b := by
      intro hlive0 b hb
      rcases hl.live b hb with ⟨hb', hne⟩ | hrest
      · exact .inl (hl.kept b (hlive0 b (hlive b hne ▸ hb')))
      · exact hrest
    cases left with
    | none =>
      refine ⟨l', ⟨hl.listed, fun b hb => (hl.keptIface b hb).trans (hprep b hb),
        fun b hb hn => ⟨rfl, hl.newIface b hb hn⟩⟩, fun hlive0 => ?_⟩
      exact iff_of_true ⟨l', hl.listed, fun b hb => (hall hlive0 b hb).resolve_right nofun⟩
        (hmedia.1 rfl)
    | some a =>
      obtain ⟨-, hnot⟩ := hl.left a rfl
      refine ⟨l', ⟨free_listed hl.listed hnot,
        fun b hb => (hl.keptIface b hb).trans (hprep b hb),
        fun b hb hn => ⟨rfl, hl.newIface b hb hn⟩⟩, fun hlive0 => ?_⟩
      refine iff_of_true ⟨l', free_listed hl.listed hnot, fun b hb => ?_⟩ (hmedia.1 rfl)
      have hba : b ≠ a := by
        rintro rfl
        rw [if_pos rfl] at hb
        have hfree : Function.update u.slots.live b false b = true := hb
        rw [Function.update_self] at hfree
        cases hfree
      have hb' : Function.update u.slots.live a false b = true := hb
      rw [Function.update_of_ne hba] at hb'
      exact (hall hlive0 b hb').resolve_right fun he => hba (Option.some.inj he).symm

/-! ## Steps and runs -/

/-- A probe that gets as far as the units of the device finds a medium, and a drive number for
it. -/
def Keeps (s : Driver) : Event → Prop
  | .probe env iface => iface.check = 0 → env.alloc = true →
      iface.hasBulk false = true → iface.hasBulk true = true →
      hasMedium env.dev s.umas.slots.fresh (env.maxLun.toNat + 1) 0
          (s.umas.io.zero s.umas.slots.fresh) = true ∧
        s.umas.slots.freeDrive ≠ none
  | .disconnect _ => True

theorem mscProbe_spec {s : Umas} (env : ProbeEnv) {iface : Iface} (h : Listed s.slots l)
    (hnew : ∀ a ∈ l, s.slots.iface a ≠ iface.id) (bound : List IfaceId) :
    ∃ l', Probed s.slots (mscProbe env iface s).2.slots l iface.id (mscProbe env iface s).1 l' ∧
      ((∀ b, s.slots.live b = true → b ∈ l) →
        (Balanced (mscProbe env iface s).2.slots ↔ Keeps ⟨s, bound⟩ (.probe env iface))) := by
  have hsame : ∀ ret, Probed s.slots s.slots l iface.id ret l := fun _ =>
    ⟨h, fun _ _ => rfl, fun b hb hn => absurd hb hn⟩
  unfold mscProbe
  dsimp only
  split
  · rename_i hcheck
    exact ⟨l, hsame _, fun hl => iff_of_true ⟨l, h, hl⟩ fun hc => absurd hc hcheck⟩
  rename_i hcheck
  split
  · rename_i halloc
    refine ⟨l, hsame _, fun hl => iff_of_true ⟨l, h, hl⟩ fun _ ha => ?_⟩
    rw [halloc] at ha
    cases ha
  rename_i halloc
  split
  · rename_i hbulk
    have hne : ∀ b ∈ l, b ≠ s.slots.fresh := fun b hb => (h.fresh b (h.live b hb)).ne
    have hfree : Listed (s.slots.alloc.free s.slots.fresh) l :=
      free_listed (alloc_listed h) fun hb => hne _ hb rfl
    refine ⟨l, ⟨hfree, fun b hb => Function.update_of_ne (hne b hb) ..,
      fun b hb hn => absurd hb hn⟩, fun hl => iff_of_true ⟨l, hfree, fun b hb => ?_⟩ ?_⟩
    · by_cases hbf : b = s.slots.fresh
      · rw [hbf, free_live, Function.update_self] at hb
        cases hb
      · rw [free_live, Function.update_of_ne hbf, alloc_live, Function.update_of_ne hbf] at hb
        exact hl b hb
    · intro _ _ hin hout
      rcases hbulk with hb | hb
      · rw [hb] at hin
        cases hin
      · rw [hb] at hout
        cases hout
  · rename_i hbulk
    obtain ⟨l', hl', hiff⟩ := umassInitDevice_spec env h hnew
    refine ⟨l', hl', fun hl => (hiff hl).trans ⟨fun hm _ _ _ _ => hm, fun hk => ?_⟩⟩
    rw [not_or] at hbulk
    exact hk (not_not.1 hcheck) (Bool.eq_true_of_not_eq_false halloc)
      (Bool.eq_true_of_not_eq_false hbulk.1) (Bool.eq_true_of_not_eq_false hbulk.2)

/-- What holds in every run: the list is in order and holds bound interfaces only. -/
def Wf (s : Driver) : Prop :=
  ∃ l, Listed s.umas.slots l ∧ ∀ a ∈ l, s.umas.slots.iface a ∈ s.bound

theorem init_listed : Listed Driver.init.umas.slots [] :=
  ⟨rfl, fun _ => ⟨nofun, nofun⟩, nofun, List.nodup_nil, List.nodup_nil, nofun, nofun⟩

theorem step_spec {s t : Driver} {e : Event} (hw : Wf s) (h : step s e = some t) :
    Wf t ∧ (Balanced s.umas.slots → (Balanced t.umas.slots ↔ Keeps s e)) := by
  obtain ⟨l, hl, hbound⟩ := hw
  have hall : Balanced s.umas.slots → ∀ b, s.umas.slots.live b = true → b ∈ l := by
    rintro ⟨l', hl', hlive⟩
    exact hl.unique hl' ▸ hlive
  cases e with
  | probe env iface =>
    obtain ⟨hnot, h⟩ := Option.ite_none_left_eq_some.1 h
    obtain rfl := Option.some.inj h
    have hnew : ∀ a ∈ l, s.umas.slots.iface a ≠ iface.id := fun a ha he => hnot (he ▸ hbound a ha)
    obtain ⟨l', hp, hiff⟩ := mscProbe_spec env hl hnew s.bound
    refine ⟨⟨l', hp.listed, fun a ha => ?_⟩, fun hb => hiff (hall hb)⟩
    by_cases hal : a ∈ l
    · rw [hp.keptIface a hal]
      have hmem := hbound a hal
      dsimp only
      split
      · exact List.mem_cons_of_mem _ hmem
      · exact hmem
    · obtain ⟨hret, hif⟩ := hp.newIface a ha hal
      rw [hif]
      dsimp only
      rw [if_pos hret]
      exact List.mem_cons_self
  | disconnect iface =>
    obtain ⟨hmem, h⟩ := Option.ite_none_right_eq_some.1 h
    obtain rfl := Option.some.inj h
    obtain ⟨l', hl', hsub, hif, hout, hlive⟩ := disconnectFrom_spec iface []
      hl hl.path (Nat.lt_succ_of_le hl.length_le)
    refine ⟨⟨l', hl', fun a ha => ?_⟩, fun hb => iff_of_true ⟨l', hl', fun b hlb => ?_⟩ trivial⟩
    · show (disconnectFrom iface _ _ _).iface a ∈ s.bound.erase iface
      rw [hif]
      exact (List.mem_erase_of_ne (hout a ha (hsub a ha))).2 (hbound a (hsub a ha))
    · obtain ⟨hlb, hkeep⟩ := hlive b hlb
      exact hkeep (hall hb b hlb)

/-- Whatever is probed and disconnected, the drives on the list have distinct numbers, exactly
those in use, and no unit is there twice. -/
theorem run_listed (es : List Event) :
    Always step (fun s => ∃ l, Listed s.umas.slots l) Driver.init es :=
  (always_of_step (fun _ _ _ hw h => (step_spec hw h).1) ⟨[], init_listed, nofun⟩).mono
    fun _ ⟨l, hl, _⟩ => ⟨l, hl⟩

/-- No `MSC_T` is lost in a run exactly when every probe that looks for a medium mounts one. -/
theorem run_balanced_iff (es : List Event) :
    Always step (fun s => Balanced s.umas.slots) Driver.init es ↔
      EachStep step Keeps Driver.init es :=
  always_iff_eachStep (fun _ _ _ hw h => (step_spec hw h).1)
    (fun _ _ _ hw hb h => (step_spec hw h).2 hb) ⟨[], init_listed, nofun⟩
    ⟨[], init_listed, nofun⟩

/-! ## A device without a medium -/

/-- A mass-storage interface with two bulk endpoints. -/
def stick : Iface := ⟨3, 0x08, 0x06, 0x50, [⟨0x81, 0x02, 0, 512⟩, ⟨0x02, 0x02, 0, 512⟩]⟩

/-- A card reader without a card: every command is refused with a status. -/
def noCard : ProbeEnv := ⟨true, 0, fun _ => true, fun _ => ⟨true, 0, some usbhErrStall, 0, fun _ => 0⟩⟩

/-- Its `MSC_T` is neither on the list nor freed. -/
theorem noCard_not_balanced :
    ¬ Always step (fun s => Balanced s.umas.slots) Driver.init [.probe noCard stick] := by
  intro h
  have hlast := h.last (t := ⟨(mscProbe noCard stick Driver.init.umas).2, []⟩) rfl
  obtain ⟨l, hl, hlive⟩ := hlast
  have hhead : (mscProbe noCard stick Driver.init.umas).2.slots.gMscList = none := by rfl
  have hmem : 0 ∈ l := hlive 0 (by rfl)
  cases l with
  | nil => cases hmem
  | cons a l =>
    have hpath : (mscProbe noCard stick Driver.init.umas).2.slots.gMscList = some a := hl.path.1
    rw [hhead] at hpath
    cases hpath

end Ma35d1.UsbHost.Msc
