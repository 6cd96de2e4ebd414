import Ma35d1.UsbHost.Ehci.Run

/-!
# Submissions that fail

A submission takes units of the pool one at a time and may run out of them after any
number. `Holds` follows which units the call has taken: as long as it only takes,
writes and returns units that were free, everything in use stays as it was, and so does
the invariant.
-/

namespace Ma35d1.UsbHost.Ehci

open Heap.LinkedPath Relation

variable {M : Mode} {hand : UtrId → List (List Nat)} {hot : Ptr} {home : UtrId → Home}
  {s s' s₀ : Ehci} {v : View} {p : EpId → HwPipe} {ks ks' : List (Addr × HwKind)}
  {a qh t : Addr} {u : UtrId} {e : EpId} {l : List Addr} {r : Int} {isNewQh : Bool}

/-! ## What a call leaves alone -/

/-- The words of the unit `a` that the lists and the accounts are made of. -/
structure SameAt (s s' : Ehci) (a : Addr) : Prop where
  hLink : s'.hLink a = s.hLink a
  qtdList : s'.qtdList a = s.qtdList a
  doneList : s'.doneList a = s.doneList a
  qhNext : s'.qhNext a = s.qhNext a
  qtdNext : s'.qtdNext a = s.qtdNext a
  qtdUtr : s'.qtdUtr a = s.qtdUtr a
  token : s'.token a = s.token a
  stamp : s'.bell.stamp a = s.bell.stamp a

theorem SameAt.refl (s : Ehci) (a : Addr) : SameAt s s a := ⟨rfl, rfl, rfl, rfl, rfl, rfl, rfl, rfl⟩

theorem SameAt.trans {s₁ s₂ s₃ : Ehci} (h : SameAt s₁ s₂ a) (h' : SameAt s₂ s₃ a) :
    SameAt s₁ s₃ a :=
  ⟨h'.hLink.trans h.hLink, h'.qtdList.trans h.qtdList, h'.doneList.trans h.doneList,
    h'.qhNext.trans h.qhNext, h'.qtdNext.trans h.qtdNext, h'.qtdUtr.trans h.qtdUtr,
    h'.token.trans h.token, h'.stamp.trans h.stamp⟩

/-- The words that belong to no QH and no qTD. -/
structure SameRoots (s s' : Ehci) : Prop where
  links : s'.toLinks = { s.toLinks with
    pool := s'.pool, hLink := s'.hLink, qtdList := s'.qtdList, doneList := s'.doneList
    qhNext := s'.qhNext, qtdNext := s'.qtdNext, hwPipe := s'.hwPipe }
  itdHw : s'.itdHw = s.itdHw
  tdUtr : s'.tdUtr = s.tdUtr
  tdFidx : s'.tdFidx = s.tdFidx
  tdCnt : s'.tdCnt = s.tdCnt
  psen : s'.psen = s.psen
  bell : ∃ f, s'.bell = { s.bell with stamp := f }

theorem SameRoots.refl (s : Ehci) : SameRoots s s := ⟨rfl, rfl, rfl, rfl, rfl, rfl, _, rfl⟩

theorem SameRoots.trans {s₁ s₂ s₃ : Ehci} (h : SameRoots s₁ s₂) (h' : SameRoots s₂ s₃) :
    SameRoots s₁ s₃ where
  links := by rw [h'.links, h.links]
  itdHw := h'.itdHw.trans h.itdHw
  tdUtr := h'.tdUtr.trans h.tdUtr
  tdFidx := h'.tdFidx.trans h.tdFidx
  tdCnt := h'.tdCnt.trans h.tdCnt
  psen := h'.psen.trans h.psen
  bell := by
    obtain ⟨f, hf⟩ := h.bell
    obtain ⟨g, hg⟩ := h'.bell
    exact ⟨g, by rw [hg, hf]⟩

/-- The call has taken the units `ks`, all free at its start `s₀`, and nothing in use there
has changed but for the pipes, now `p`. -/
structure Holds (s₀ : Ehci) (p : EpId → HwPipe) (ks : List (Addr × HwKind)) (s : Ehci) :
    Prop where
  pool : s₀.pool.Took ks s.pool
  hwPipe : s.hwPipe = p
  roots : SameRoots s₀ s
  same : ∀ a, s₀.pool.unit a ≠ none → SameAt s₀ s a

theorem Holds.refl (h : s.pool.sidx < hwMemUnitNum) : Holds s s.hwPipe [] s :=
  ⟨.refl h, rfl, .refl s, fun a _ => .refl s a⟩

theorem Holds.perm (h : Holds s₀ p ks s) (hp : ks.Perm ks') : Holds s₀ p ks' s :=
  ⟨h.pool.perm hp, h.hwPipe, h.roots, h.same⟩

/-- A write to nothing but units the call holds. -/
theorem Holds.write (h : Holds s₀ p ks s) (s' : Ehci) (hp : s'.pool = s.pool)
    (hpipe : s'.hwPipe = s.hwPipe) (hr : SameRoots s s')
    (hs : ∀ b, b ∉ ks.map Prod.fst → SameAt s s' b) : Holds s₀ p ks s' where
  pool := by rw [hp]; exact h.pool
  hwPipe := hpipe.trans h.hwPipe
  roots := h.roots.trans hr
  same a ha := (h.same a ha).trans <| hs a fun hm => by
    obtain ⟨x, hx, rfl⟩ := List.mem_map.mp hm
    exact ha (h.pool.wasFree x hx)

/-- Taking one more unit. -/
theorem Holds.take {k : HwKind} (h : Holds s₀ p ks s) (hlt : a < hwMemUnitNum)
    (hu : s.pool.unit a = none) (hp : s'.pool = { s.pool.take k a with sidx := a })
    (hpipe : s'.hwPipe = s.hwPipe) (hr : SameRoots s s') (hs : ∀ b, b ≠ a → SameAt s s' b) :
    Holds s₀ p ((a, k) :: ks) s' where
  pool := by rw [hp]; exact h.pool.take hlt hu
  hwPipe := hpipe.trans h.hwPipe
  roots := h.roots.trans hr
  same b hb := (h.same b hb).trans <| hs b fun he =>
    hb (he ▸ (h.pool.rest a (h.pool.not_held hu)).symm.trans hu)

/-- Giving one back. -/
theorem Holds.give {k : HwKind} (h : Holds s₀ p ((a, k) :: ks) s) : Holds s₀ p ks (s.free k a) :=
  ⟨h.pool.give, h.hwPipe, h.roots.trans ⟨rfl, rfl, rfl, rfl, rfl, rfl, _, rfl⟩,
    fun b hb => (h.same b hb).trans ⟨rfl, rfl, rfl, rfl, rfl, rfl, rfl, rfl⟩⟩

/-- Writes to words that no list and no account is made of. -/
theorem Holds.scratch (h : Holds s₀ p ks s) (qhHw : Addr → QhHw) (qtdHw : Addr → QtdHw)
    (qtdXferLen : Addr → BitVec 32) (udev : DevId → Udev) (utrEp : UtrId → Option EpId) :
    Holds s₀ p ks { s with
      qhHw := qhHw, qtdHw := qtdHw, qtdXferLen := qtdXferLen, udev := udev, utrEp := utrEp } :=
  ⟨h.pool, h.hwPipe, h.roots.trans ⟨rfl, rfl, rfl, rfl, rfl, rfl, _, rfl⟩,
    fun b hb => (h.same b hb).trans ⟨rfl, rfl, rfl, rfl, rfl, rfl, rfl, rfl⟩⟩

theorem Holds.setHwPipe (h : Holds s₀ p ks s) (e : EpId) (w : HwPipe) :
    Holds s₀ (Function.update p e w) ks (s.setHwPipe e w) :=
  ⟨h.pool, by rw [← h.hwPipe]; rfl, h.roots.trans ⟨rfl, rfl, rfl, rfl, rfl, rfl, _, rfl⟩,
    fun b hb => (h.same b hb).trans ⟨rfl, rfl, rfl, rfl, rfl, rfl, rfl, rfl⟩⟩

theorem Holds.allocQh (h : Holds s₀ p ks s) (ha : s.allocEhciQh = some (a, s')) :
    Holds s₀ p ((a, .qh) :: ks) s' := by
  obtain ⟨⟨b, m⟩, hm, he⟩ := Option.map_eq_some_iff.mp ha
  obtain ⟨rfl, rfl⟩ := Prod.mk.inj he
  obtain ⟨hlt, hu, rfl⟩ := allocEhciQh_some hm
  refine h.take hlt hu rfl rfl ⟨rfl, rfl, rfl, rfl, rfl, rfl, _, rfl⟩ fun b hb => ?_
  constructor <;> first | rfl | exact Function.update_of_ne hb ..

theorem Holds.allocQtd {w : Option UtrId} (h : Holds s₀ p ks s)
    (ha : s.allocEhciQtd w = some (a, s')) : Holds s₀ p ((a, .qtd) :: ks) s' := by
  obtain ⟨⟨b, m⟩, hm, he⟩ := Option.map_eq_some_iff.mp ha
  obtain ⟨rfl, rfl⟩ := Prod.mk.inj he
  obtain ⟨hlt, hu, rfl⟩ := allocEhciQtd_some hm
  refine h.take hlt hu rfl rfl ⟨rfl, rfl, rfl, rfl, rfl, rfl, _, rfl⟩ fun b hb => ?_
  constructor <;> first | rfl | exact Function.update_of_ne hb ..

theorem allocEhciQtd_words {w : Option UtrId} (ha : s.allocEhciQtd w = some (a, s')) :
    s.pool.unit a = none ∧ s'.qtdList = s.qtdList ∧
      s'.qtdNext = Function.update s.qtdNext a none := by
  obtain ⟨⟨b, m⟩, hm, he⟩ := Option.map_eq_some_iff.mp ha
  obtain ⟨rfl, rfl⟩ := Prod.mk.inj he
  obtain ⟨-, hu, rfl⟩ := allocEhciQtd_some hm
  exact ⟨hu, rfl, rfl⟩

/-- The units of a list of qTDs. -/
def asQtds (l : List Addr) : List (Addr × HwKind) := l.map (·, .qtd)

theorem map_fst_asQtds (l : List Addr) : (asQtds l).map Prod.fst = l := by
  simp [asQtds, Function.comp_def]

/-! ## Submissions -/

theorem Holds.tryAlloc (h : Holds s₀ p ks s) :
    Holds s₀ p (asQtds (tryAllocQtd u s).1.toList ++ ks) (tryAllocQtd u s).2 := by
  unfold tryAllocQtd
  split
  · rename_i qtd s' ha
    exact h.allocQtd ha
  · exact h

theorem Holds.freeIfSome {q : Ptr} (h : Holds s₀ p (asQtds q.toList ++ ks) s) :
    Holds s₀ p ks (freeIfSome q s) := by
  cases q with
  | none => exact h
  | some q => exact Holds.give h

/-- A control transfer that fails has returned its qTDs. -/
theorem ctrlOnQh_holds (h : Holds s₀ p ks s) (hc : ctrlOnQh u qh isNewQh s = some (r, s'))
    (hr : r < 0) : Holds s₀ p ks s' := by
  unfold ctrlOnQh at hc
  obtain ⟨sw, hw, hc⟩ := Option.bind_eq_some_iff.mp hc
  obtain ⟨f, g, rfl⟩ := writeQh_eq hw
  dsimp only at hc
  have h₀ := h.scratch g s.qtdHw s.qtdXferLen f
    (Function.update s.utrEp u (some (.ep0 (s.utr u).udev)))
  generalize ({ s with qhHw := g, udev := f, utrEp := _ } : Ehci) = s₁ at h₀ hc
  have hsetup := h₀.tryAlloc (u := u)
  generalize tryAllocQtd u s₁ = setup at hsetup hc
  obtain ⟨data, hdata, hd⟩ : ∃ data : Ptr × Ehci,
      (if decide (0 < (s.utr u).dataLen) = true then tryAllocQtd u setup.2
        else (none, setup.2)) = data ∧
      Holds s₀ p (asQtds data.1.toList ++ (asQtds setup.1.toList ++ ks)) data.2 := by
    refine ⟨_, rfl, ?_⟩
    split
    · exact hsetup.tryAlloc
    · exact hsetup
  rw [hdata] at hc
  split at hc
  · obtain ⟨-, rfl⟩ := Prod.mk.inj (Option.some.inj hc)
    exact (hd.perm (List.perm_append_comm_assoc ..)).freeIfSome.freeIfSome
  · rename_i status s₂ _
    unfold ctrlFill at hc
    split at hc
    · cases hc
    · split at hc
      · cases hc
      · obtain ⟨_, -, he⟩ := Option.map_eq_some_iff.mp hc
        exact absurd hr (by rw [← (Prod.mk.inj he).1]; exact Int.lt_irrefl 0)

/-- A qTD joins the queue of a QH the call holds. -/
theorem Holds.appendLinks {m : Links} (h : Holds s₀ p ((t, .qtd) :: (asQtds l ++ [(qh, .qh)])) s)
    (hp : Path some s.qtdNext (s.qtdList qh) l none) (hn : s.qtdNext t = none)
    (hm : s.appendToQtdListOfQh qh t = some m) :
    ∃ f g, m = { s.toLinks with qtdList := f, qtdNext := g } ∧
      (∀ b, b ≠ qh → f b = s.qtdList b) ∧ (∀ b, b ∉ l → g b = s.qtdNext b) ∧
      Path some g (f qh) (l ++ [t]) none := by
  have hd := h.pool.nodup
  rw [List.map_cons, List.map_append, map_fst_asQtds] at hd
  obtain ⟨htl, hd⟩ := List.nodup_cons.mp hd
  have hdl := (List.nodup_append.mp hd).1
  have hlt : l.length < walkFuel := Shape.lt_walkFuel hdl fun b hb =>
    h.pool.lt (b, .qtd) (List.mem_cons_of_mem _ (List.mem_append_left _
      (List.mem_map.mpr ⟨b, hb, rfl⟩)))
  rcases List.eq_nil_or_concat l with hl | ⟨l', last, hl⟩
  · subst hl
    have hq : s.qtdList qh = none := hp
    rw [Links.appendToQtdListOfQh, hq] at hm
    obtain rfl := Option.some.inj hm
    refine ⟨_, _, rfl, fun b hb => Function.update_of_ne hb .., fun _ _ => rfl, ?_⟩
    exact ⟨Function.update_self .., hn⟩
  · rw [List.concat_eq_append] at hl
    subst hl
    obtain ⟨q, hq⟩ : ∃ q, s.qtdList qh = some q := by
      cases hq : s.qtdList qh with
      | none => rw [hq] at hp; cases l' <;> cases hp.1
      | some q => exact ⟨q, rfl⟩
    have hw : lastFrom s.qtdNext walkFuel q = some last :=
      lastFrom_eq hp hq (by rw [List.length_append] at hlt; omega)
    rw [Links.appendToQtdListOfQh, hq] at hm
    change (lastFrom s.qtdNext walkFuel q).bind _ = _ at hm
    rw [hw] at hm
    obtain rfl := Option.some.inj hm
    have hmem : last ∈ l' ++ [last] := List.mem_append_right _ List.mem_cons_self
    refine ⟨_, _, rfl, fun _ _ => rfl, fun b hb => Function.update_of_ne ?_ .., ?_⟩
    · rintro rfl
      exact hb hmem
    · rw [List.append_assoc]
      refine hp.snoc ?_ ?_ hn
      · exact fun hm' => (List.nodup_append.mp hdl).2.2 last hm' last List.mem_cons_self rfl
      · rintro rfl
        exact htl (List.mem_append_left _ hmem)

theorem Holds.appendQtd {tok : BitVec 32}
    (h : Holds s₀ p ((t, .qtd) :: (asQtds l ++ [(qh, .qh)])) s)
    (hp : Path some s.qtdNext (s.qtdList qh) l none) (hn : s.qtdNext t = none)
    (hs : appendQtd qh t tok s = some s') :
    Holds s₀ p ((t, .qtd) :: (asQtds l ++ [(qh, .qh)])) s' ∧
      Path some s'.qtdNext (s'.qtdList qh) (l ++ [t]) none := by
  obtain ⟨m, hm, rfl⟩ := Option.map_eq_some_iff.mp hs
  obtain ⟨f, g, rfl, hlist, hnext, hpath⟩ := h.appendLinks hp hn hm
  refine ⟨h.write _ rfl rfl ⟨rfl, rfl, rfl, rfl, rfl, rfl, _, rfl⟩ fun b hb => ?_, hpath⟩
  rw [List.map_cons, List.map_append, map_fst_asQtds] at hb
  obtain ⟨hbt, hb⟩ := not_or.mp (mt List.mem_cons.mpr hb)
  obtain ⟨hbl, hbq⟩ := not_or.mp (mt List.mem_append.mpr hb)
  exact ⟨rfl, hlist b (fun hq => hbq (hq ▸ List.mem_cons_self)), rfl, rfl, hnext b hbl, rfl,
    Function.update_of_ne hbt .., rfl⟩

/-- Nothing but the words of the qTD `t` that lie on no list is written. -/
structure QtdWords (t : Addr) (s s' : Ehci) : Prop where
  same : s' = { s with
    token := s'.token, qtdHw := s'.qtdHw, qtdXferLen := s'.qtdXferLen, qtdQh := s'.qtdQh }
  token : ∀ b, b ≠ t → s'.token b = s.token b

theorem QtdWords.trans {s₁ s₂ s₃ : Ehci} (h : QtdWords t s₁ s₂) (h' : QtdWords t s₂ s₃) :
    QtdWords t s₁ s₃ :=
  ⟨by rw [h'.same, h.same], fun b hb => (h'.token b hb).trans (h.token b hb)⟩

theorem QtdWords.toLinks (h : QtdWords t s s') : s'.toLinks = s.toLinks := by rw [h.same]

theorem QtdWords.holds {k : HwKind} (hw : QtdWords t s s') (h : Holds s₀ p ((t, k) :: ks) s) :
    Holds s₀ p ((t, k) :: ks) s' := by
  refine h.write s' (by rw [hw.toLinks]) (by rw [hw.toLinks]) ?_ fun b hb => ?_
  · rw [hw.same]
    exact ⟨rfl, rfl, rfl, rfl, rfl, rfl, _, rfl⟩
  · have hbt : b ≠ t := fun he => hb (he ▸ List.mem_cons_self)
    have htok := hw.token b hbt
    rw [hw.same]
    exact ⟨rfl, rfl, rfl, rfl, rfl, rfl, htok, rfl⟩

/-- One slice links its qTD; all else it writes are words of that qTD and the pointer to it. -/
theorem bulkSlice_eq {buff dataLen : BitVec 32} {pre : Ptr}
    (h : bulkSlice e qh t buff dataLen pre s = some s') :
    ∃ s₁ s₂ tok, QtdWords t s s₁ ∧ appendQtd qh t tok s₁ = some s₂ ∧ QtdWords t s₂ s' := by
  unfold bulkSlice at h
  dsimp only at h
  generalize (if 0x4000#32 < dataLen then 0x4000#32 else dataLen) = xferLen at h
  obtain ⟨s₂, ha, h⟩ := Option.map_eq_some_iff.mp h
  refine ⟨writeQtdBptr t buff xferLen (setAltNextQtd t .listEnd (setNextQtd t (.qtd s.ghostQtd) s)),
    s₂, _, ⟨rfl, fun _ _ => rfl⟩, ha, ?_⟩
  have hw : QtdWords t s₂ (if dataLen - xferLen = 0 then
      setNextQtd t (.qtd s₂.ghostQtd) (setToken t (s₂.token t ||| qtdIoc) s₂) else s₂) := by
    split
    · exact ⟨rfl, fun b hb => Function.update_of_ne hb ..⟩
    · exact ⟨rfl, fun _ _ => rfl⟩
  generalize (if dataLen - xferLen = 0 then
    setNextQtd t (.qtd s₂.ghostQtd) (setToken t (s₂.token t ||| qtdIoc) s₂) else s₂) = s₃ at h hw
  refine hw.trans ?_
  subst h
  cases pre <;> exact ⟨rfl, fun _ _ => rfl⟩

/-- The new qTD goes behind those already queued. -/
theorem bulkSlice_holds {buff dataLen : BitVec 32} {pre : Ptr}
    (h : Holds s₀ p ((t, .qtd) :: (asQtds l ++ [(qh, .qh)])) s)
    (hp : Path some s.qtdNext (s.qtdList qh) l none) (hn : s.qtdNext t = none)
    (hs : bulkSlice e qh t buff dataLen pre s = some s') :
    Holds s₀ p (asQtds (l ++ [t]) ++ [(qh, .qh)]) s' ∧
      Path some s'.qtdNext (s'.qtdList qh) (l ++ [t]) none := by
  obtain ⟨s₁, s₂, tok, hw, ha, hw'⟩ := bulkSlice_eq hs
  obtain ⟨h₂, hpath⟩ := (hw.holds h).appendQtd (by rw [hw.toLinks]; exact hp)
    (by rw [hw.toLinks]; exact hn) ha
  refine ⟨(hw'.holds h₂).perm ?_, by rw [hw'.toLinks]; exact hpath⟩
  rw [show asQtds (l ++ [t]) = asQtds l ++ [(t, .qtd)] by simp [asQtds], List.append_assoc]
  exact List.perm_middle.symm

/-- The qTDs of a bulk transfer, up to the allocation that fails. -/
theorem bulkQtds_holds {n : Nat} {buff dataLen : BitVec 32} {pre : Ptr} {b : Bool}
    (h : Holds s₀ p (asQtds l ++ [(qh, .qh)]) s)
    (hp : Path some s.qtdNext (s.qtdList qh) l none)
    (hs : bulkQtds u e qh n buff dataLen pre s = some (b, s')) :
    ∃ l', Holds s₀ p (asQtds l' ++ [(qh, .qh)]) s' ∧
      Path some s'.qtdNext (s'.qtdList qh) l' none := by
  induction n generalizing buff dataLen pre l s with
  | zero =>
    obtain rfl := (Prod.mk.inj (Option.some.inj hs)).2
    exact ⟨l, h, hp⟩
  | succ n ih =>
    rw [bulkQtds] at hs
    split at hs
    · obtain rfl := (Prod.mk.inj (Option.some.inj hs)).2
      exact ⟨l, h, hp⟩
    · split at hs
      · obtain rfl := (Prod.mk.inj (Option.some.inj hs)).2
        exact ⟨l, h, hp⟩
      · rename_i qtd s₁ ha
        obtain ⟨s₂, hs₂, hs⟩ := Option.bind_eq_some_iff.mp hs
        have h₁ := h.allocQtd ha
        obtain ⟨hu, hlist, hnext⟩ := allocEhciQtd_words ha
        have hql : qtd ∉ l := fun hl => h.pool.not_held hu <| List.mem_map.mpr
          ⟨(qtd, .qtd), List.mem_append_left _ (List.mem_map.mpr ⟨qtd, hl, rfl⟩), rfl⟩
        have hp₁ : Path some s₁.qtdNext (s₁.qtdList qh) l none := by
          rw [hlist, hnext]
          exact hp.update_of_not_mem hql
        obtain ⟨h₂, hp₂⟩ := bulkSlice_holds h₁ hp₁ (by rw [hnext, Function.update_self]) hs₂
        exact ih h₂ hp₂ hs

/-- The loop that gives a qTD list back. -/
theorem freeQtdChain_holds {n : Nat} {q : Ptr} (h : Holds s₀ p (asQtds l ++ ks) s)
    (hp : Path some s.qtdNext q l none) (hs : freeQtdChain n q s = some s') :
    Holds s₀ p ks s' := by
  induction n generalizing q l s with
  | zero => cases hs
  | succ n ih =>
    cases l with
    | nil =>
      obtain rfl : q = none := hp
      obtain rfl := Option.some.inj hs
      exact h
    | cons a l =>
      obtain ⟨rfl, hrest⟩ := hp
      exact ih (Holds.give h) hrest hs

/-- A bulk transfer that fails on a new QH has returned the QH too. -/
theorem bulkOnQh_holds (h : Holds s₀ p [(qh, .qh)] s) (hq : s.qtdList qh = none)
    (hs : bulkOnQh u e qh true s = some (r, s')) (hr : r < 0) :
    Holds s₀ (Function.update p e .null) [] s' := by
  unfold bulkOnQh at hs
  obtain ⟨⟨b, s₁⟩, hs₁, hs⟩ := Option.bind_eq_some_iff.mp hs
  obtain ⟨l, h₁, hp⟩ := bulkQtds_holds (l := []) h hq hs₁
  cases b with
  | true =>
    obtain ⟨_, -, he⟩ := Option.map_eq_some_iff.mp (show Option.map _ _ = _ from hs)
    exact absurd hr (by rw [← (Prod.mk.inj he).1]; exact Int.lt_irrefl 0)
  | false =>
    obtain ⟨s₂, hs₂, he⟩ := Option.map_eq_some_iff.mp (show bulkFail e qh true s₁ = _ from hs)
    obtain rfl := (Prod.mk.inj he).2
    exact ((freeQtdChain_holds h₁ hp hs₂).give).setHwPipe e .null

/-- So has an interrupt transfer, which takes one qTD. -/
theorem intOnQh_holds (h : Holds s₀ p [(qh, .qh)] s) (hs : intOnQh u e qh true s = some (r, s'))
    (hr : r < 0) : Holds s₀ (Function.update p e .null) [] s' := by
  unfold intOnQh at hs
  split at hs
  · obtain rfl := (Prod.mk.inj (Option.some.inj hs)).2
    exact h.give.setHwPipe e .null
  · obtain ⟨_, -, he⟩ := Option.map_eq_some_iff.mp (show Option.map _ _ = _ from hs)
    exact absurd hr (by rw [← (Prod.mk.inj he).1]; exact Int.lt_irrefl 0)

/-! ## The invariant behind a call that holds nothing any more -/

/-- The lists are made of the words of used units. -/
theorem Shape.kept (hs : Shape s.toLinks v) (h : Holds s p [] s') : Shape s'.toLinks v := by
  have hunit : s'.pool.unit = s.pool.unit := h.pool.unit_eq
  have hsame : ∀ {a}, v.role a ≠ .free → SameAt s s' a := fun {a} ha => h.same a fun hn => by
    obtain ⟨k, hk⟩ := hs.used_unit ha
    rw [hn] at hk
    cases hk
  have hlist : ∀ {a r}, Role.listed r = true → a ∈ v.list r → SameAt s s' a := fun hr ha =>
    hsame (role_ne_free hs hr ha)
  have hqh : ∀ {q}, s'.pool.unit q = some .qh → SameAt s s' q := fun {q} hq => h.same q fun hn => by
    rw [hunit, hn] at hq
    cases hq
  have htd : ∀ a, tdLink s.toLinks a = tdLink s'.toLinks a := fun a => by
    unfold tdLink
    rw [hunit]
  rw [h.roots.links]
  refine { hs with
    toRoles := ?_, sidx := h.pool.sidx, ring := ?_, chain := ?_, removed := ?_, queued := ?_
    done := ?_, frame := ?_ }
  · show Roles s'.pool.unit _ _ _ _
    rw [hunit]
    exact hs.toRoles
  · refine hs.ring.congr (fun _ _ => rfl) fun a ha => (hsame ?_).hLink.symm
    rcases List.mem_cons.mp ha with rfl | ha
    · rw [hs.role_head]; exact Role.noConfusion
    · exact role_ne_free hs (r := .async) rfl ha
  · refine hs.chain.congr (fun _ _ => rfl) fun a ha => (hsame fun hf => ?_).hLink.symm
    exact Off.not_mem_chain hs (.inl hf) ha
  · exact hs.removed.congr (fun _ _ => rfl) fun a ha => (hlist (r := .removed) rfl ha).qhNext.symm
  · intro q hq
    show Path some s'.qtdNext (s'.qtdList q) _ _
    rw [(hqh hq).qtdList]
    exact (hs.queued q (hunit ▸ hq)).congr (fun _ _ => rfl) fun a ha =>
      (hlist (r := .queued q) rfl ha).qtdNext.symm
  · intro q hq
    show Path some s'.qtdNext (s'.doneList q) _ _
    rw [(hqh hq).doneList]
    exact (hs.done q (hunit ▸ hq)).congr (fun _ _ => rfl) fun a ha =>
      (hlist (r := .done q) rfl ha).qtdNext.symm
  · intro idx hi
    refine (hs.frame idx hi).congr (fun a _ => ?_) fun a ha => (hsame fun hf => ?_).hLink.symm
    · have := htd a
      rw [h.roots.links] at this
      exact this
    · exact Off.not_mem_frame hs (.inl hf) hi ha

/-- The invariant does not see a call that holds nothing any more. -/
theorem Good.unheld (hnq : ¬ M.noQuit) (hg : Good M hot home s v) (h : Holds s s.hwPipe [] s')
    (ht : s'.trace = s.trace) : ApiOk M hot s v s' := by
  have hs := hg.inv.shape
  have hsame : ∀ a, v.role a ≠ .free → SameAt s s' a := fun a ha => h.same a fun hn => by
    obtain ⟨k, hk⟩ := hs.used_unit ha
    rw [hn] at hk
    cases hk
  have hqueued : ∀ q, ∀ a ∈ v.queued q, SameAt s s' a := fun q a ha =>
    hsame a (role_ne_free hs (r := .queued q) rfl ha)
  have hslots : ∀ k t, tdSlots s' k t = tdSlots s k t := fun k t => by
    cases k
    · simp only [tdSlots, h.roots.tdFidx, h.roots.itdHw]
    · simp only [tdSlots, h.roots.tdFidx]
  have hi : Inv M (fun _ => []) hot home s' v := by
    have hi₀ := hg.inv.setEps s'.utrEp s.isoEpEp fun _ h => absurd h hnq
    refine hi₀.unseen ?_ (hs.kept h)
    exact
      { trace := ht
        tdCnt := h.roots.tdCnt
        utrEp := rfl
        isoEpEp := by rw [h.roots.links]
        psen := h.roots.psen
        queued := rfl, tds := rfl, orphans := rfl, under := rfl, frame := rfl
        qtdUtr := fun q a ha => (hqueued q a ha).qtdUtr
        token := fun q a ha => (hqueued q a ha).token
        tdUtr := fun k _ t _ => congrFun (congrFun h.roots.tdUtr k) t
        tdSlots := fun k _ t _ => hslots k t
        gone := fun a ha => ⟨ha, fun hst => hst.congr h.roots.bell (hsame a fun hf => by
          rcases ha with ha | ⟨q, ha⟩ <;> rw [hf] at ha <;> cases ha).stamp⟩ }
  have hl := h.roots.links
  refine ApiOk.same hg hi h.hwPipe ?_ ?_ ?_ ?_ ?_ (fun a ha => ?_) (fun a ha => (hsame a ha).stamp)
    h.roots.bell fun _ he => ht ▸ he
  · rw [hl]
  · rw [hl]
  · rw [hl]
  · rw [hl]
  · rw [hl]
  · exact (hsame a (by rw [ha]; exact Role.noConfusion)).hLink

/-- The record is about accepted requests: it leaves out the frees of a call that failed. -/
def offRecord (s s' : Ehci) : Ehci := { s' with trace := s.trace }

theorem Good.rolledBack (hnq : ¬ M.noQuit) (hg : Good M hot home s v) (h : Holds s s.hwPipe [] s') :
    ApiOk M hot s v (offRecord s s') := by
  refine hg.unheld hnq ⟨h.pool, h.hwPipe, ?_, fun a ha => ?_⟩ rfl
  · have hr := h.roots
    exact ⟨hr.links, hr.itdHw, hr.tdUtr, hr.tdFidx, hr.tdCnt, hr.psen, hr.bell⟩
  · have hw := h.same a ha
    exact ⟨hw.hLink, hw.qtdList, hw.doneList, hw.qhNext, hw.qtdNext, hw.qtdUtr, hw.token, hw.stamp⟩

end Ma35d1.UsbHost.Ehci
