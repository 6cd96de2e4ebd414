import Ma35d1.UsbHost.Ehci.Invariant

/-!
# What one edit of the driver does to the invariant

The counterpart of the edits of the lists, one level up: each names the words that
the driver writes with the edit, and the invariant they leave.
-/

namespace Ma35d1.UsbHost.Ehci

open Heap.LinkedPath Heap.IntervalTree

variable {M : Mode} {hand : UtrId → List (List Nat)} {hot : Ptr} {home : UtrId → Home}
  {s s' : Ehci} {v v' : View} {a h q t : Addr} {u : UtrId} {k : HwKind}

/-! ## Doorbells -/

theorem Stamped.congr {b b' : Doorbell} (h : Stamped b a) (hb : ∃ f, b' = { b with stamp := f })
    (ha : b'.stamp a = b.stamp a) : Stamped b' a := by
  obtain ⟨f, rfl⟩ := hb
  obtain ⟨r, hr, hrest⟩ := h
  exact ⟨r, ha.trans hr, hrest⟩

theorem Stamped.ring (h : Stamped s.bell a) : Stamped s.ringDoorbell.bell a := by
  unfold ringDoorbell
  split
  · exact h
  · rename_i hi
    obtain ⟨r, hr, hle, _, hiaa, hs⟩ := h
    exact ⟨r, hr, Nat.le_succ_of_le hle, fun _ => Nat.lt_succ_of_le hle, hiaa, hs⟩

/-- A unit that leaves its schedule while no doorbell is under way. -/
theorem stamped_stampNow (hi : IdleDetach (.detach a s.bell)) : Stamped (s.stampNow a).bell a := by
  obtain ⟨h₁, h₂, h₃⟩ := hi
  refine ⟨s.bell.rung, Function.update_self .., Nat.le_refl _, fun hc => ?_, fun hc => ?_,
    fun n hn => ?_⟩
  · exact absurd (h₁.symm.trans hc) (by decide)
  · exact absurd (h₂.symm.trans hc) (by decide)
  · exact absurd (h₃.symm.trans hn) (by simp)

theorem Stamped.stampNow (h : Stamped s.bell a) (hne : a ≠ q) : Stamped (s.stampNow q).bell a :=
  h.congr ⟨_, rfl⟩ (Function.update_of_ne hne ..)

/-- The bell changes, and nothing waiting for it loses its stamp. -/
theorem Inv.setBell (hi : Inv M hand hot home s v) {b : Doorbell}
    (h : ∀ a, Gone v a → Stamped s.bell a → Stamped b a) :
    Inv M hand hot home { s with bell := b } v :=
  hi.unseen
    { trace := rfl, tdCnt := rfl, utrEp := rfl, isoEpEp := rfl, psen := rfl, queued := rfl
      tds := rfl, orphans := rfl, under := rfl, frame := rfl
      qtdUtr := fun _ _ _ => rfl, token := fun _ _ _ => rfl, tdUtr := fun _ _ _ _ => rfl
      tdSlots := fun k _ _ _ => by cases k <;> rfl
      gone := fun a hg => ⟨hg, h a hg⟩ } hi.shape

theorem Inv.ringDoorbell (hi : Inv M hand hot home s v) :
    Inv M hand hot home s.ringDoorbell v := by
  have h : ∀ a, Gone v a → Stamped s.bell a → Stamped s.ringDoorbell.bell a := fun a _ hst => hst.ring
  have hs : s.ringDoorbell = { s with bell := s.ringDoorbell.bell } := by
    unfold Ehci.ringDoorbell; split <;> rfl
  rw [hs]
  exact hi.setBell h

/-! ## Modes -/

/-- Forgetting whether the periodic schedule is on, until it is switched on. -/
def Mode.relaxed (M : Mode) : Mode := { M with psenKept := False }

theorem Inv.relax (hi : Inv M hand hot home s v) : Inv M.relaxed hand hot home s v :=
  ⟨hi.shape, hi.frees, hi.acct, hi.bells, hi.answered, False.elim, hi.hotTd⟩

theorem Inv.tighten (hi : Inv M.relaxed hand hot home s v) (hp : M.psenKept → PsenOk s v) :
    Inv M hand hot home s v :=
  ⟨hi.shape, hi.frees, hi.acct, hi.bells, hi.answered, hp, hi.hotTd⟩

/-- `_ehci->UCMDR |= HSUSBH_UCMDR_PSEN_Msk` -/
theorem Inv.psenOn (hi : Inv M.relaxed hand hot home s v) :
    Inv M hand hot home { s with psen := true } v where
  shape := hi.shape
  frees := hi.frees
  acct ho := by
    have ha := hi.acct ho
    exact ⟨ha.qtds, ha.tds.congr rfl rfl (fun _ _ _ _ => rfl) (fun _ _ _ _ _ => ⟨rfl, rfl⟩)
      (fun _ _ _ _ => rfl)
      (fun k _ _ _ => by cases k <;> rfl) fun _ => rfl, ha.record⟩
  bells := hi.bells
  answered := hi.answered
  psen _ := .inl rfl
  hotTd := hi.hotTd

/-! ## Allocation and free -/

/-- What allocations and the filling of descriptors leave alone. -/
structure Quiet (s s' : Ehci) : Prop where
  used : ∀ b k, s.pool.unit b = some k → s'.pool.unit b = some k ∧ s'.hLink b = s.hLink b ∧
    s'.bell.stamp b = s.bell.stamp b
  bell : ∃ f, s'.bell = { s.bell with stamp := f }
  ep : s'.ep = s.ep
  hwPipe : s'.hwPipe = s.hwPipe
  isoEpEp : s'.isoEpEp = s.isoEpEp
  insertedUnder : s'.insertedUnder = s.insertedUnder
  hQh : s'.hQh = s.hQh
  iqh : s'.iqh = s.iqh
  trace : s'.trace = s.trace
  psen : s'.psen = s.psen

theorem Quiet.refl (s : Ehci) : Quiet s s :=
  ⟨fun _ _ h => ⟨h, rfl, rfl⟩, ⟨_, rfl⟩, rfl, rfl, rfl, rfl, rfl, rfl, rfl, rfl⟩

theorem Quiet.trans {s₁ s₂ s₃ : Ehci} (h : Quiet s₁ s₂) (h' : Quiet s₂ s₃) : Quiet s₁ s₃ where
  used b k hb := by
    obtain ⟨h₁, h₂, h₃⟩ := h.used b k hb
    obtain ⟨h₁', h₂', h₃'⟩ := h'.used b k h₁
    exact ⟨h₁', h₂'.trans h₂, h₃'.trans h₃⟩
  bell := by
    obtain ⟨f, hf⟩ := h.bell
    obtain ⟨g, hg⟩ := h'.bell
    exact ⟨g, by rw [hg, hf]⟩
  ep := h'.ep.trans h.ep
  hwPipe := h'.hwPipe.trans h.hwPipe
  isoEpEp := h'.isoEpEp.trans h.isoEpEp
  insertedUnder := h'.insertedUnder.trans h.insertedUnder
  hQh := h'.hQh.trans h.hQh
  iqh := h'.iqh.trans h.iqh
  trace := h'.trace.trans h.trace
  psen := h'.psen.trans h.psen

theorem gone_become_held (hg : Gone (v.become a (.held k)) q) : q ≠ a ∧ Gone v q := by
  have hne : q ≠ a := by
    rintro rfl
    rcases hg with hg | ⟨h, hg⟩
    · rw [View.become] at hg; simp at hg
    · rw [View.become] at hg; simp at hg
  refine ⟨hne, ?_⟩
  have hr : (v.become a (.held k)).role q = v.role q := Function.update_of_ne hne ..
  unfold Gone at hg ⊢
  rwa [hr] at hg

/-- Taking a free unit: the words written are those of the unit. -/
private theorem Inv.hold (hi : Inv M hand hot home s v) (hf : v.role a = .free)
    (hs : Shape s'.toLinks (v.become a (.held k))) (htrace : s'.trace = s.trace)
    (hcnt : s'.tdCnt = s.tdCnt) (hep : s'.utrEp = s.utrEp) (hiso : s'.isoEpEp = s.isoEpEp)
    (hpsen : s'.psen = s.psen)
    (hq : ∀ q, q ≠ a → s'.qtdUtr q = s.qtdUtr q ∧ s'.token q = s.token q)
    (ht : ∀ k t, t ≠ a → s'.tdUtr k t = s.tdUtr k t ∧ s'.tdFidx k t = s.tdFidx k t)
    (hm : ∀ t, t ≠ a → s'.itdHw t = s.itdHw t)
    (hb : ∃ f, s'.bell = { s.bell with stamp := f })
    (hst : ∀ q, q ≠ a → s'.bell.stamp q = s.bell.stamp q) :
    Inv M hand hot home s' (v.become a (.held k)) := by
  have hoff : Off v a := .inl hf
  have hqne : ∀ h, ∀ q ∈ v.queued h, q ≠ a := fun h q hm =>
    ne_of_mem_of_not_mem hm (hoff.not_mem hi.shape (.queued h))
  have htne : ∀ k x, ∀ t ∈ v.tds k x, t ≠ a := fun k x t hm =>
    ne_of_mem_of_not_mem hm (hoff.not_mem hi.shape (.td k x))
  refine hi.unseen
    { trace := htrace, tdCnt := hcnt, utrEp := hep, isoEpEp := hiso, psen := hpsen, queued := rfl
      tds := rfl, orphans := rfl, under := rfl, frame := rfl
      qtdUtr := fun h q hm => (hq q (hqne h q hm)).1
      token := fun h q hm => (hq q (hqne h q hm)).2
      tdUtr := fun k x t hm => (ht k t (htne k x t hm)).1
      tdSlots := fun k x t hmem => ?_
      gone := fun q hg => ?_ } hs
  · have hne := htne k x t hmem
    cases k
    · simp only [tdSlots, (ht .itd t hne).2, hm t hne]
    · simp only [tdSlots, (ht .sitd t hne).2]
  · obtain ⟨hne, hg'⟩ := gone_become_held hg
    exact ⟨hg', fun h => h.congr hb (hst q hne)⟩

private theorem Quiet.alloc (hu : s.pool.unit a = none) (hb : ∃ f, s'.bell = { s.bell with stamp := f })
    (hunit : ∀ b, b ≠ a → s'.pool.unit b = s.pool.unit b)
    (hlink : ∀ b, b ≠ a → s'.hLink b = s.hLink b)
    (hst : ∀ b, b ≠ a → s'.bell.stamp b = s.bell.stamp b)
    (h : s'.ep = s.ep ∧ s'.hwPipe = s.hwPipe ∧ s'.isoEpEp = s.isoEpEp ∧
      s'.insertedUnder = s.insertedUnder ∧ s'.hQh = s.hQh ∧ s'.iqh = s.iqh ∧ s'.trace = s.trace ∧
      s'.psen = s.psen) : Quiet s s' := by
  obtain ⟨h₁, h₂, h₃, h₄, h₅, h₆, h₇, h₈⟩ := h
  refine ⟨fun b k hk => ?_, hb, h₁, h₂, h₃, h₄, h₅, h₆, h₇, h₈⟩
  have hne : b ≠ a := fun he => by rw [he, hu] at hk; cases hk
  exact ⟨(hunit b hne).trans hk, hlink b hne, hst b hne⟩

theorem Inv.allocQh (hi : Inv M hand hot home s v) (he : s.allocEhciQh = some (a, s')) :
    Inv M hand hot home s' (v.become a (.held .qh)) ∧ v.role a = .free ∧ Quiet s s' ∧
      s'.bell.stamp a = none ∧ s'.utr = s.utr := by
  unfold Ehci.allocEhciQh at he
  rw [Option.map_eq_some_iff] at he
  obtain ⟨⟨b, m⟩, hm, he⟩ := he
  obtain ⟨rfl, rfl⟩ := Prod.mk.inj he
  obtain ⟨hs, hf⟩ := hi.shape.allocQh hm
  obtain ⟨hlt, hu, hme⟩ := allocEhciQh_some hm
  have hst : ∀ q, q ≠ b → Function.update s.bell.stamp b none q = s.bell.stamp q := fun q hq =>
    Function.update_of_ne hq ..
  have hx : m.isoEpEp = s.isoEpEp := by rw [hme]
  refine ⟨hi.hold hf hs rfl rfl rfl hx rfl (fun _ _ => ⟨rfl, rfl⟩) (fun _ _ _ => ⟨rfl, rfl⟩)
    (fun _ _ => rfl) ⟨_, rfl⟩ hst, hf, Quiet.alloc hu ⟨_, rfl⟩ (fun c hc => ?_) (fun c hc => ?_) hst ?_,
    Function.update_self .., rfl⟩
  · show m.pool.unit c = _
    rw [hme]; exact Function.update_of_ne hc ..
  · show m.hLink c = _
    rw [hme]; exact Function.update_of_ne hc ..
  · rw [show (((s.setLinks m).unstamp b).setQhHw b _).toLinks = m from rfl, hme]
    exact ⟨rfl, rfl, rfl, rfl, rfl, rfl, rfl, rfl⟩

theorem Inv.allocQtd (hi : Inv M hand hot home s v) {w : Option UtrId}
    (he : s.allocEhciQtd w = some (a, s')) :
    Inv M hand hot home s' (v.become a (.held .qtd)) ∧ v.role a = .free ∧ Quiet s s' ∧
      s'.qtdNext a = none ∧ s'.qtdUtr = Function.update s.qtdUtr a w ∧ s'.utr = s.utr ∧
      (∀ b, b ≠ a → s'.qtdNext b = s.qtdNext b) ∧ s'.qtdList = s.qtdList := by
  unfold Ehci.allocEhciQtd at he
  rw [Option.map_eq_some_iff] at he
  obtain ⟨⟨b, m⟩, hm, he⟩ := he
  obtain ⟨rfl, rfl⟩ := Prod.mk.inj he
  obtain ⟨hs, hf, hn⟩ := hi.shape.allocQtd hm
  obtain ⟨hlt, hu, hme⟩ := allocEhciQtd_some hm
  have hst : ∀ q, q ≠ b → Function.update s.bell.stamp b none q = s.bell.stamp q := fun q hq =>
    Function.update_of_ne hq ..
  have hx : m.isoEpEp = s.isoEpEp := by rw [hme]
  refine ⟨hi.hold hf hs rfl rfl rfl hx rfl
    (fun q hq => ⟨Function.update_of_ne hq .., Function.update_of_ne hq ..⟩)
    (fun _ _ _ => ⟨rfl, rfl⟩) (fun _ _ => rfl) ⟨_, rfl⟩ hst, hf,
    Quiet.alloc hu ⟨_, rfl⟩ (fun c hc => ?_) (fun c hc => ?_) hst ?_, hn, rfl, rfl, fun c hc => ?_, ?_⟩
  · show m.pool.unit c = _
    rw [hme]; exact Function.update_of_ne hc ..
  · show m.hLink c = _
    rw [hme]
  · show m.ep = s.ep ∧ m.hwPipe = s.hwPipe ∧ m.isoEpEp = s.isoEpEp ∧
      m.insertedUnder = s.insertedUnder ∧ m.hQh = s.hQh ∧ m.iqh = s.iqh ∧ s.trace = s.trace ∧
      s.psen = s.psen
    rw [hme]
    exact ⟨rfl, rfl, rfl, rfl, rfl, rfl, rfl, rfl⟩
  · show m.qtdNext c = _
    rw [hme]; exact Function.update_of_ne hc ..
  · show m.qtdList = _
    rw [hme]

theorem Inv.allocTd (hi : Inv M hand hot home s v) {i : IsoKind}
    (he : s.allocEhciTd i = some (a, s')) :
    Inv M hand hot home s' (v.become a (.held i.hw)) ∧ v.role a = .free ∧ Quiet s s' ∧
      s'.tdCnt = s.tdCnt ∧ s'.nextFrame = s.nextFrame ∧ s'.utrEp = s.utrEp ∧
      (∀ b, b ≠ a → s'.tdNext i b = s.tdNext i b) := by
  unfold Ehci.allocEhciTd at he
  rw [Option.map_eq_some_iff] at he
  obtain ⟨⟨b, m⟩, hm, he⟩ := he
  obtain ⟨rfl, rfl⟩ := Prod.mk.inj he
  obtain ⟨hs, hf⟩ := hi.shape.allocTd hm
  obtain ⟨hlt, hu, hme⟩ := allocEhciTd_some hm
  have hne : ∀ (α : Type) (f : IsoKind → Addr → α) (y : α) (j : IsoKind) (c : Addr), c ≠ b →
      Links.setTd f i b y j c = f j c := fun α f y j c hc => Links.setTd_of_ne fun hp => hc hp.2
  have hml : m.ep = s.ep ∧ m.hwPipe = s.hwPipe ∧ m.isoEpEp = s.isoEpEp ∧
      m.insertedUnder = s.insertedUnder ∧ m.hQh = s.hQh ∧ m.iqh = s.iqh ∧
      m.nextFrame = s.nextFrame ∧ (∀ c, c ≠ b → m.pool.unit c = s.pool.unit c) ∧
      (∀ c, c ≠ b → m.hLink c = s.hLink c) ∧ ∀ c, c ≠ b → m.tdNext i c = s.tdNext i c := by
    rw [hme]
    exact ⟨rfl, rfl, rfl, rfl, rfl, rfl, rfl, fun c hc => Function.update_of_ne hc ..,
      fun c hc => Function.update_of_ne hc .., fun c hc => hne _ _ _ i c hc⟩
  obtain ⟨h₁, h₂, h₃, h₄, h₅, h₆, h₇, h₈, h₉, h₁₀⟩ := hml
  cases i with
  | itd =>
    exact ⟨hi.hold hf hs rfl rfl rfl h₃ rfl (fun _ _ => ⟨rfl, rfl⟩)
      (fun j c hc => ⟨hne _ _ _ j c hc, hne _ _ _ j c hc⟩)
      (fun c hc => Function.update_of_ne hc ..) ⟨_, rfl⟩ fun _ _ => rfl, hf,
      Quiet.alloc hu ⟨_, rfl⟩ h₈ h₉ (fun _ _ => rfl) ⟨h₁, h₂, h₃, h₄, h₅, h₆, rfl, rfl⟩,
      rfl, h₇, rfl, h₁₀⟩
  | sitd =>
    exact ⟨hi.hold hf hs rfl rfl rfl h₃ rfl (fun _ _ => ⟨rfl, rfl⟩)
      (fun j c hc => ⟨hne _ _ _ j c hc, hne _ _ _ j c hc⟩)
      (fun _ _ => rfl) ⟨_, rfl⟩ fun _ _ => rfl, hf,
      Quiet.alloc hu ⟨_, rfl⟩ h₈ h₉ (fun _ _ => rfl) ⟨h₁, h₂, h₃, h₄, h₅, h₆, rfl, rfl⟩,
      rfl, h₇, rfl, h₁₀⟩

/-- A held unit is given back. -/
theorem Inv.freeHeld (hi : Inv M hand hot home s v) (hr : v.role a = .held k)
    (hq : k = .qh → v.queued a = [] ∧ v.done a = [])
    (hans : M.handler → (∀ e ∈ s.trace, IdleDetach e) → Answered (.free k a s.toLinks s.bell)) :
    Inv M hand hot home (s.free k a) (v.become a .free) := by
  have hu := hi.shape.unit_of_role hr rfl
  have hlt := (hi.shape.used a (by rw [hr]; exact Role.noConfusion)).1
  have hgone : ∀ q, Gone (v.become a .free) q → Gone v q := by
    intro q hg
    have hne : q ≠ a := by
      rintro rfl
      rcases hg with hg | ⟨h, hg⟩ <;> · rw [View.become] at hg; simp at hg
    unfold Gone at hg ⊢
    rwa [show (v.become a .free).role q = v.role q from Function.update_of_ne hne ..] at hg
  constructor
  · exact hi.shape.release hr (HwPool.free_unit hlt) (HwPool.free_sidx ..) hq
  · intro e he
    rcases List.mem_cons.mp he with rfl | he
    · exact ⟨hu, Off.not_onLists hi.shape (.inr ⟨k, hr⟩)⟩
    · exact hi.frees e he
  · intro ho
    have ha := hi.acct ho
    exact ⟨ha.qtds, ha.tds.congr rfl rfl (fun _ _ _ _ => rfl) (fun _ _ _ _ _ => ⟨rfl, rfl⟩)
      (fun _ _ _ _ => rfl)
      (fun k _ _ _ => by cases k <;> rfl) fun _ => rfl, ha.record.congr (.free ..)⟩
  · intro hd q hg
    exact hi.bells (fun e he => hd e (List.mem_cons_of_mem _ he)) q (hgone q hg)
  · intro hh hd e he
    have hd' : ∀ e ∈ s.trace, IdleDetach e := fun e he => hd e (List.mem_cons_of_mem _ he)
    rcases List.mem_cons.mp he with rfl | he
    · exact hans hh hd'
    · exact hi.answered hh hd' e he
  · exact fun hp => (hi.psen hp).congr rfl (fun _ _ h => h) (fun _ _ h => h) (fun _ _ _ => rfl)
      fun _ _ h => h
  · exact hi.hotTd

/-! ## The qTDs of a QH -/

/-- Another role for one unit that does not wait for a doorbell then. -/
theorem gone_become {r : Role} (hr : r ≠ .removed) (hr' : ∀ h, r ≠ .done h)
    (hrole : v'.role = Function.update v.role a r) (hg : Gone v' q) : q ≠ a ∧ Gone v q := by
  have hne : q ≠ a := by
    rintro rfl
    unfold Gone at hg
    rw [hrole, Function.update_self] at hg
    rcases hg with hg | ⟨h, hg⟩
    · exact hr hg
    · exact hr' h hg
  refine ⟨hne, ?_⟩
  unfold Gone at hg ⊢
  rwa [hrole, Function.update_of_ne hne] at hg

/-- A held qTD of `u` joins the queue of `h`. -/
theorem Inv.appendQtd (hi : Inv M hand hot home s v) (ht : v.role t = .held .qtd)
    (hh : s.pool.unit h = some .qh) (hn : s.qtdNext t = none)
    (hu : M.own = completed → s.qtdUtr t = some u ∧ home u = .qh h ∧
      ∀ q ∈ v.queued h, s.qtdUtr q = some u)
    (hp : M.psenKept → s.psen = true ∨ ∀ i, h ∉ v.under i) (tok : BitVec 32) :
    ∃ l n, Ehci.appendQtd h t tok s = some { s with
        qtdList := l, qtdNext := n, qtdQh := Function.update s.qtdQh t (some h)
        token := Function.update s.token t tok } ∧
      Inv M hand hot home { s with
        qtdList := l, qtdNext := n, qtdQh := Function.update s.qtdQh t (some h)
        token := Function.update s.token t tok } (v.putQueued h t) ∧
      (∀ b, b ≠ h → l b = s.qtdList b) ∧ l h ≠ none ∧ ∀ b, b ∉ v.queued h → n b = s.qtdNext b := by
  obtain ⟨m, hm, hs, hme, hl, hlh, hnext⟩ := hi.shape.putQueued ht hh hn
  have hoff : Off v t := .inr ⟨_, ht⟩
  have htok : ∀ b, ∀ q ∈ v.queued b, Function.update s.token t tok q = s.token q := fun b q hq =>
    Function.update_of_ne (ne_of_mem_of_not_mem hq (hoff.not_mem hi.shape (.queued b))) ..
  refine ⟨m.qtdList, m.qtdNext, ?_, ?_, hl, hlh, hnext⟩
  · unfold Ehci.appendQtd
    rw [hm, Option.map_some]
    congr 1
    unfold setToken setLinks
    rw [hme]
  · constructor
    · rw [hme] at hs; exact hs
    · exact hi.frees
    · intro ho
      obtain ⟨hut, hhome, hsame⟩ := hu ho
      have ha := hi.acct ho
      exact ⟨ha.qtds.put hut hhome hsame, ha.tds.congr rfl rfl (fun _ _ _ _ => rfl)
        (fun _ _ _ _ _ => ⟨rfl, rfl⟩)
        (fun _ _ _ _ => rfl) (fun k _ _ _ => by cases k <;> rfl) fun _ => rfl, ha.record⟩
    · intro hd q hg
      exact hi.bells hd q (gone_become Role.noConfusion (fun _ => Role.noConfusion) rfl hg).2
    · exact hi.answered
    · intro hpk
      rcases hp hpk with hp | hp
      · exact .inl hp
      · rcases hi.psen hpk with hps | ⟨h₁, h₂⟩
        · exact .inl hps
        · refine .inr ⟨fun i b hb q hq => ?_, h₂⟩
          have hbh : b ≠ h := fun he => hp i (he ▸ hb)
          have hq' : q ∈ Function.update v.queued h (v.queued h ++ [t]) b := hq
          rw [Function.update_of_ne hbh] at hq'
          show Function.update s.token t tok q &&& qtdStsActive = 0
          rw [htok b q hq']
          exact h₁ i b hb q hq'
    · exact hi.hotTd

/-- The token of a qTD changes, with the periodic schedule on if the qTD is part of it. -/
theorem Inv.setToken (hi : Inv M hand hot home s v) (tok : BitVec 32)
    (hp : M.psenKept → s.psen = true ∨ ∀ i, ∀ h ∈ v.under i, t ∉ v.queued h) :
    Inv M hand hot home (Ehci.setToken t tok s) v where
  shape := hi.shape
  frees := hi.frees
  acct ho := by
    have ha := hi.acct ho
    exact ⟨ha.qtds, ha.tds.congr rfl rfl (fun _ _ _ _ => rfl) (fun _ _ _ _ _ => ⟨rfl, rfl⟩)
      (fun _ _ _ _ => rfl)
      (fun k _ _ _ => by cases k <;> rfl) fun _ => rfl, ha.record⟩
  bells := hi.bells
  answered := hi.answered
  psen hpk := by
    rcases hp hpk with hp | hp
    · exact .inl hp
    · rcases hi.psen hpk with hps | ⟨h₁, h₂⟩
      · exact .inl hps
      · refine .inr ⟨fun i h hh q hq => ?_, h₂⟩
        show Function.update s.token t tok q &&& qtdStsActive = 0
        rw [Function.update_of_ne (ne_of_mem_of_not_mem hq (hp i h hh))]
        exact h₁ i h hh q hq
  hotTd := hi.hotTd

/-- A qTD leaves the queue of `h` and joins its done list. -/
private theorem Inv.moveDone (hi : Inv M hand hot home s v) {m : Links}
    (hs : Shape m ((v.takeQueued h t).putDone h t)) (hx : m.isoEpEp = s.isoEpEp) :
    Inv M hand hot home ((s.setLinks m).stampNow t) ((v.takeQueued h t).putDone h t) := by
  have hsub : ∀ b, ∀ q ∈ ((v.takeQueued h t).putDone h t).queued b, q ∈ v.queued b := by
    intro b q hq
    have hq' : q ∈ Function.update v.queued h ((v.queued h).erase t) b := hq
    by_cases hb : b = h
    · subst hb; rw [Function.update_self] at hq'; exact List.mem_of_mem_erase hq'
    · rwa [Function.update_of_ne hb] at hq'
  constructor
  · exact hs
  · intro e he
    rcases List.mem_cons.mp he with rfl | he
    · exact trivial
    · exact hi.frees e he
  · intro ho
    have ha := hi.acct ho
    exact ⟨ha.qtds.mono hsub fun _ _ _ => rfl, ha.tds.congr rfl rfl (fun _ _ _ _ => rfl)
      (fun _ _ _ x _ => ⟨rfl, congrFun hx x⟩) (fun _ _ _ _ => rfl)
      (fun k _ _ _ => by cases k <;> rfl) fun _ => rfl, ha.record.congr (.detach ..)⟩
  · intro hd q hg
    have hidle : IdleDetach (.detach t s.bell) := hd _ List.mem_cons_self
    have hd' : ∀ e ∈ s.trace, IdleDetach e := fun e he => hd e (List.mem_cons_of_mem _ he)
    by_cases hqt : q = t
    · subst hqt; exact stamped_stampNow hidle
    · have hg' : Gone v q := by
        have hr : ((v.takeQueued h t).putDone h t).role q = v.role q := by
          show Function.update (Function.update v.role t _) t _ q = v.role q
          rw [Function.update_of_ne hqt, Function.update_of_ne hqt]
        unfold Gone at hg ⊢
        rwa [hr] at hg
      exact (hi.bells hd' q hg').stampNow hqt
  · intro hh hd e he
    have hd' : ∀ e ∈ s.trace, IdleDetach e := fun e he => hd e (List.mem_cons_of_mem _ he)
    rcases List.mem_cons.mp he with rfl | he
    · exact trivial
    · exact hi.answered hh hd' e he
  · exact fun hp => (hi.psen hp).congr rfl (fun _ _ h => h) hsub (fun _ _ _ => rfl) fun _ _ h => h
  · exact hi.hotTd

/-- `scan_asynchronous_list` moves a retired qTD to the done list. -/
theorem Inv.reclaimQtd (hi : Inv M hand hot home s v) {l₁ l₂ : List Addr}
    (hl : v.queued h = l₁ ++ t :: l₂) :
    ∃ s₁, unlinkQtd h t l₁.getLast? s = some s₁ ∧
      Inv M hand hot home (pushDone h t s₁) ((v.takeQueued h t).putDone h t) ∧
      s₁ = { s with qtdList := s₁.qtdList, qtdNext := s₁.qtdNext } ∧
      s₁.qtdNext t = s.qtdNext t ∧ ((pushDone h t s₁).qtdList h = none ↔ l₁ ++ l₂ = []) := by
  have ht : t ∈ v.queued h := by rw [hl]; simp
  have hh := hi.shape.queuedQh h t ht
  have hnd := hi.shape.queued_nodup h
  have hpath := hi.shape.queued h hh
  have hrole : (v.takeQueued h t).role t = .held .qtd := Function.update_self ..
  have hempty : ∀ m : Links, Shape m ((v.takeQueued h t).putDone h t) → m.pool.unit h = some .qh →
      (m.qtdList h = none ↔ l₁ ++ l₂ = []) := by
    intro m hm hu
    have hq : ((v.takeQueued h t).putDone h t).queued h = l₁ ++ l₂ := by
      show Function.update v.queued h ((v.queued h).erase t) h = _
      rw [Function.update_self, hl]
      rw [hl] at hnd
      have hnm : t ∉ l₁ := fun hm => (List.nodup_append.mp hnd).2.2 t hm t (by simp) rfl
      rw [List.erase_append_right _ hnm, List.erase_cons_head]
    have hp := hm.queued h hu
    rw [hq] at hp
    constructor
    · intro hnone
      rw [hnone] at hp
      generalize l₁ ++ l₂ = l at hp
      cases l with
      | nil => rfl
      | cons b l => cases hp.1
    · intro he
      rw [he] at hp
      exact hp
  rcases List.eq_nil_or_concat l₁ with rfl | ⟨l₁, p, rfl⟩
  · rw [hl] at hpath
    have hhead : s.qtdList h = some t := hpath.1
    have hs₁ := hi.shape.popQueued ht hhead
    have hs₂ := hs₁.putDone (h := h) hrole hh
    refine ⟨s.setLinks { s.toLinks with
      qtdList := Function.update s.qtdList h (s.qtdNext t) }, ?_, hi.moveDone hs₂ rfl, rfl, rfl,
      hempty _ hs₂ hh⟩
    unfold unlinkQtd
    rw [if_pos hhead]
  · rw [List.concat_eq_append] at hl ⊢
    have hl' : v.queued h = l₁ ++ p :: t :: l₂ := by rw [hl]; simp
    have hne : s.qtdList h ≠ some t := by
      intro he
      rw [hl', he] at hpath
      rw [hl'] at hnd
      cases l₁ with
      | nil =>
        have hpt := Option.some.inj hpath.1
        simp [hpt] at hnd
      | cons c l₁ =>
        have hct := Option.some.inj hpath.1
        simp [hct] at hnd
    have hs₁ := hi.shape.cutQueued ht hl'
    have hs₂ := hs₁.putDone (h := h) hrole hh
    have htp : t ≠ p := by
      rintro rfl
      rw [hl'] at hnd
      have := (List.nodup_append.mp hnd).2.1
      simp at this
    refine ⟨s.setLinks { s.toLinks with
      qtdNext := Function.update s.qtdNext p (s.qtdNext t) }, ?_, hi.moveDone hs₂ rfl, rfl,
      Function.update_of_ne htp .., ?_⟩
    · unfold unlinkQtd
      rw [if_neg hne]
      simp
    · rw [List.concat_eq_append] at hempty
      exact hempty _ hs₂ hh

/-- `scan_periodic_frame_list` moves the one qTD of an interrupt QH to the done list. -/
theorem Inv.takeInt (hi : Inv M hand hot home s v) (hl : v.queued h = [t]) :
    Inv M hand hot home (takeIntQtd h t s) ((v.takeQueued h t).putDone h t) := by
  have ht : t ∈ v.queued h := by rw [hl]; simp
  have hh := hi.shape.queuedQh h t ht
  have hpath := hi.shape.queued h hh
  rw [hl] at hpath
  have hhead : s.qtdList h = some t := hpath.1
  have hnext : s.qtdNext t = none := hpath.2
  have hs₁ := hi.shape.popQueued ht hhead
  rw [hnext] at hs₁
  exact hi.moveDone (hs₁.putDone (h := h) (Function.update_self ..) hh) rfl

/-- A unit that waited for a doorbell is held now, and no other unit changes. -/
private theorem Inv.popGone (hi : Inv M hand hot home s v) {m : Links} (hs : Shape m v')
    (hrole : v'.role = Function.update v.role a (.held k)) (hq : ∀ h, ∀ q ∈ v'.queued h, q ∈ v.queued h)
    (ht : v'.tds = v.tds) (hu : v'.under = v.under) (hf : v'.frame = v.frame)
    (hx : m.isoEpEp = s.isoEpEp) (hor : v'.orphans = v.orphans) :
    Inv M hand hot home (s.setLinks m) v' where
  shape := hs
  frees := hi.frees
  acct ho := by
    have ha := hi.acct ho
    exact ⟨ha.qtds.mono hq fun _ _ _ => rfl, ha.tds.congr ht hor (fun _ _ _ _ => rfl)
      (fun _ _ _ x _ => ⟨rfl, congrFun hx x⟩) (fun _ _ _ _ => rfl)
      (fun k _ _ _ => by cases k <;> rfl) fun _ => rfl, ha.record⟩
  bells hd q hg := hi.bells hd q (gone_become Role.noConfusion (fun _ => Role.noConfusion) hrole hg).2
  answered := hi.answered
  psen hp := (hi.psen hp).congr rfl (fun i b hb => by rwa [hu] at hb) hq (fun _ _ _ => rfl)
    fun idx _ he => by rw [hf]; exact he
  hotTd t' ht' := by rw [ht]; exact hi.hotTd t' ht'

/-- A free inside the answer to a doorbell. -/
theorem answered_of_stamped (hserv : s.bell.serving ≠ none) (hst : Stamped s.bell a) :
    Answered (.free k a s.toLinks s.bell) := by
  intro _ r hr
  obtain ⟨r', hr', _, _, _, hlt⟩ := hst
  rw [hr] at hr'
  obtain rfl := Option.some.inj hr'
  cases hsv : s.bell.serving with
  | none => exact absurd hsv hserv
  | some n => exact ⟨n, rfl, hlt n hsv⟩

/-- `iaad_remove_qh` frees the first qTD of a done list. -/
theorem Inv.freeDone (hi : Inv M hand hot home s v) (ht : t ∈ v.done h)
    (hl : s.doneList h = some t) (hserv : M.handler → s.bell.serving ≠ none) :
    Inv M hand hot home
      ((s.setLinks { s.toLinks with
        doneList := Function.update s.doneList h (s.qtdNext t) }).free .qtd t)
      ((v.takeDone h t).become t .free) := by
  have hgone : Gone v t := .inr ⟨h, hi.shape.role_done ht⟩
  have hi₁ := hi.popGone (hi.shape.popDone ht hl) (k := .qtd) rfl (fun _ _ hq => hq) rfl rfl rfl rfl rfl
  exact hi₁.freeHeld (Function.update_self ..) (fun hk => by cases hk) fun hh hd =>
    answered_of_stamped (hserv hh) (hi.bells hd t hgone)

/-- `iaad_remove_qh` frees the first qTD left on the queue of a removed QH. -/
theorem Inv.freeQueued (hi : Inv M hand hot home s v) (ht : t ∈ v.queued h)
    (hl : s.qtdList h = some t) (hserv : M.handler → s.bell.serving ≠ none)
    (hst : (∀ e ∈ s.trace, IdleDetach e) → Stamped s.bell h) :
    Inv M hand hot home
      ((stampWithQh h t (s.setLinks { s.toLinks with
        qtdList := Function.update s.qtdList h (s.qtdNext t) })).free .qtd t)
      ((v.takeQueued h t).become t .free) := by
  have hsub : ∀ b, ∀ q ∈ (v.takeQueued h t).queued b, q ∈ v.queued b := by
    intro b q hq
    have hq' : q ∈ Function.update v.queued h ((v.queued h).erase t) b := hq
    by_cases hb : b = h
    · subst hb; rw [Function.update_self] at hq'; exact List.mem_of_mem_erase hq'
    · rwa [Function.update_of_ne hb] at hq'
  have hi₁ := hi.popGone (hi.shape.popQueued ht hl) (k := .qtd) rfl hsub rfl rfl rfl rfl rfl
  have hne : ∀ q, Gone (v.takeQueued h t) q → q ≠ t := fun q hg =>
    (gone_become Role.noConfusion (fun _ => Role.noConfusion) rfl hg).1
  have hi₂ := hi₁.setBell (b := (stampWithQh h t (s.setLinks { s.toLinks with
    qtdList := Function.update s.qtdList h (s.qtdNext t) })).bell) fun q hg h =>
      h.congr ⟨_, rfl⟩ (Function.update_of_ne (hne q hg) ..)
  refine hi₂.freeHeld (Function.update_self ..) (fun hk => by cases hk) fun hh hd => ?_
  obtain ⟨r, hr, hrest⟩ := hst hd
  exact answered_of_stamped (hserv hh) ⟨r, (Function.update_self ..).trans hr, hrest⟩

/-! ## QHs on and off their schedules -/

/-- A held QH goes behind the head of the asynchronous ring. -/
theorem Inv.insertRing (hi : Inv M hand hot home s v) (hq : v.role q = .held .qh) :
    Inv M hand hot home (insertQh s.hQh q none s) (v.putRing q) :=
  hi.unseen
    { trace := rfl, tdCnt := rfl, utrEp := rfl, isoEpEp := rfl, psen := rfl, queued := rfl
      tds := rfl, orphans := rfl, under := rfl, frame := rfl
      qtdUtr := fun _ _ _ => rfl, token := fun _ _ _ => rfl, tdUtr := fun _ _ _ _ => rfl
      tdSlots := fun k _ _ _ => by cases k <;> rfl
      gone := fun a hg =>
        ⟨(gone_become Role.noConfusion (fun _ => Role.noConfusion) rfl hg).2, id⟩ }
    (hi.shape.putRing hq)

/-- A held QH goes behind an interval head, with the periodic schedule about to be on. -/
theorem Inv.insertUnder (hi : Inv M.relaxed hand hot home s v) (hq : v.role q = .held .qh) {i : Nat}
    (hlt : i < numIqh) :
    Inv M.relaxed hand hot home (insertQh (s.iqh i) q (some i) s) (v.putUnder i q) where
  shape := hi.shape.putUnder hq hlt
  frees := hi.frees
  acct ho := by
    have ha := hi.acct ho
    exact ⟨ha.qtds, ha.tds.congr rfl rfl (fun _ _ _ _ => rfl) (fun _ _ _ _ _ => ⟨rfl, rfl⟩)
      (fun _ _ _ _ => rfl)
      (fun k _ _ _ => by cases k <;> rfl) fun _ => rfl, ha.record⟩
  bells hd a hg := hi.bells hd a
    (gone_become Role.noConfusion (fun _ => Role.noConfusion) rfl hg).2
  answered := hi.answered
  psen := False.elim
  hotTd := hi.hotTd

/-- A QH leaves its schedule for the remove list. -/
private theorem Inv.moveRemoved (hi : Inv M hand hot home s v) {m : Links} (hs : Shape m v')
    (hrole : ∀ a, a ≠ q → v'.role a = v.role a) (hqu : v'.queued = v.queued)
    (ht : v'.tds = v.tds) (hu : ∀ i, ∀ b ∈ v'.under i, b ∈ v.under i) (hf : v'.frame = v.frame)
    (hx : m.isoEpEp = s.isoEpEp) (hor : v'.orphans = v.orphans) :
    Inv M hand hot home ((s.setLinks m).stampNow q).ringDoorbell v' := by
  refine Inv.ringDoorbell ?_
  constructor
  · exact hs
  · intro e he
    rcases List.mem_cons.mp he with rfl | he
    · exact trivial
    · exact hi.frees e he
  · intro ho
    have ha := hi.acct ho
    exact ⟨ha.qtds.mono (fun b q hq => by rwa [hqu] at hq) fun _ _ _ => rfl,
      ha.tds.congr ht hor (fun _ _ _ _ => rfl) (fun _ _ _ x _ => ⟨rfl, congrFun hx x⟩)
        (fun _ _ _ _ => rfl) (fun k _ _ _ => by cases k <;> rfl) fun _ => rfl,
      ha.record.congr (.detach ..)⟩
  · intro hd a hg
    have hidle : IdleDetach (.detach q s.bell) := hd _ List.mem_cons_self
    have hd' : ∀ e ∈ s.trace, IdleDetach e := fun e he => hd e (List.mem_cons_of_mem _ he)
    by_cases haq : a = q
    · subst haq; exact stamped_stampNow hidle
    · have hg' : Gone v a := by unfold Gone at hg ⊢; rwa [hrole a haq] at hg
      exact (hi.bells hd' a hg').stampNow haq
  · intro hh hd e he
    have hd' : ∀ e ∈ s.trace, IdleDetach e := fun e he => hd e (List.mem_cons_of_mem _ he)
    rcases List.mem_cons.mp he with rfl | he
    · exact trivial
    · exact hi.answered hh hd' e he
  · exact fun hp => (hi.psen hp).congr rfl hu (fun b q hq => by rwa [hqu] at hq)
      (fun _ _ _ => rfl) fun idx _ he => by rw [hf]; exact he
  · exact fun t' ht' => by rw [ht]; exact hi.hotTd t' ht'

theorem Inv.unlinkRing (hi : Inv M hand hot home s v) (hq : q ∈ v.ring) {p : Addr}
    {l₁ l₂ : List Addr} (hl : s.hQh :: v.ring = l₁ ++ p :: q :: l₂) :
    Inv M hand hot home (unlinkQh p q s) ((v.takeRing q).putRemoved q) := by
  have hs := (hi.shape.takeRing hq hl).putRemoved (q := q) (Function.update_self ..)
  refine hi.moveRemoved hs (fun a ha => ?_) rfl rfl (fun _ _ h => h) rfl rfl rfl
  show Function.update (Function.update v.role q _) q _ a = v.role a
  rw [Function.update_of_ne ha, Function.update_of_ne ha]

theorem Inv.unlinkUnder (hi : Inv M hand hot home s v) {i : Nat} (hq : q ∈ v.under i) {p : Addr}
    {l₁ l₂ : List Addr} (hl : chainFrom s.iqh v.under numIqh = l₁ ++ p :: q :: l₂) :
    Inv M hand hot home (unlinkQh p q s) ((v.takeUnder i q).putRemoved q) := by
  have hs := (hi.shape.takeUnder hq hl).putRemoved (q := q) (Function.update_self ..)
  refine hi.moveRemoved hs (fun a ha => ?_) rfl rfl (fun j b hb => ?_) rfl rfl rfl
  · show Function.update (Function.update v.role q _) q _ a = v.role a
    rw [Function.update_of_ne ha, Function.update_of_ne ha]
  · have hb' : b ∈ Function.update v.under i ((v.under i).erase q) j := hb
    by_cases hj : j = i
    · subst hj; rw [Function.update_self] at hb'; exact List.mem_of_mem_erase hb'
    · rwa [Function.update_of_ne hj] at hb'

/-- `iaad_remove_qh` takes the first QH of the remove list. -/
theorem Inv.popRemoved (hi : Inv M hand hot home s v) (hq : s.qhRemoveList = some q) :
    Inv M hand hot home (s.setLinks { s.toLinks with qhRemoveList := s.qhNext q })
      (v.takeRemoved q) :=
  hi.popGone (hi.shape.takeRemoved hq) (k := .qh) rfl (fun _ _ hq => hq) rfl rfl rfl rfl rfl

/-! ## Submission and completion on the record -/

/-- A submission goes on record; an isochronous one has its descriptors in hand. -/
theorem Inv.logSubmit (hi : Inv M hand hot home s v) (hu : M.own = completed → ¬ Pending s.trace u)
    (iso : Bool) (hand' : UtrId → List (List Nat)) (hne : ∀ w, w ≠ u → hand' w = hand w)
    (hiso : iso = true → hand' u ≠ []) :
    Inv M hand' hot home (s.log (.submit u iso)) v where
  shape := hi.shape
  frees e he := by
    rcases List.mem_cons.mp he with rfl | he
    · exact trivial
    · exact hi.frees e he
  acct ho := by
    have ha := hi.acct ho
    have hnone : home u = .none := by
      by_contra hne
      exact hu ho (ha.record.pending u hne)
    have hwu : ∀ w k x, home w = .iso k x → w ≠ u := by
      rintro w k x he rfl
      rw [hnone] at he
      cases he
    refine ⟨ha.qtds, ⟨ha.tds.carried, ?_, ?_, ha.tds.ep, ha.tds.orphans, ?_⟩, ?_⟩
    · intro w k x he
      rw [hne w (hwu w k x he)]
      exact ha.tds.cnt w k x he
    · intro w k x he
      rw [hne w (hwu w k x he)]
      exact ha.tds.pos w k x he
    · intro hnq w k x he
      have hs : slotsSince (.submit u iso :: s.trace) w = slotsSince s.trace w :=
        if_neg (hwu w k x he).symm
      rw [hne w (hwu w k x he)]
      have hf : (mine (s.log (.submit u iso)) v hot k x w).flatMap
          (tdSlots (s.log (.submit u iso)) k) = (mine s v hot k x w).flatMap (tdSlots s k) :=
        List.flatMap_congr fun t _ => by cases k <;> rfl
      show (slotsSince (.submit u iso :: s.trace) w ++ _ ++ _).Perm _
      rw [hs, hf]
      exact ha.tds.slots hnq w k x he
    · refine ⟨⟨hu ho, ha.record.alternates⟩, ha.record.slotsOk, fun w hw => ?_, fun hnq w hw => ?_⟩
      · exact .inr (ha.record.pending w hw)
      · have hw' : if u = w then iso = true else PendingIso s.trace w := hw
        by_cases huw : u = w
        · subst huw
          rw [if_pos rfl] at hw'
          exact .inr (hiso hw')
        · rw [if_neg huw] at hw'
          rw [hne w (Ne.symm huw)]
          exact ha.record.kept hnq w hw'
  bells hd a hg := hi.bells (fun e he => hd e (List.mem_cons_of_mem _ he)) a hg
  answered hh hd e he := by
    rcases List.mem_cons.mp he with rfl | he
    · exact trivial
    · exact hi.answered hh (fun e he => hd e (List.mem_cons_of_mem _ he)) e he
  psen hp := (hi.psen hp).congr rfl (fun _ _ h => h) (fun _ _ h => h) (fun _ _ _ => rfl)
    fun _ _ h => h
  hotTd := hi.hotTd

theorem Inv.setHwPipe (hi : Inv M hand hot home s v) (e : EpId) (p : HwPipe) :
    Inv M hand hot home (s.setHwPipe e p) v :=
  hi.words ⟨rfl, rfl, rfl, rfl, rfl, rfl, rfl, rfl, rfl, fun _ => rfl, rfl⟩ { hi.shape with }

/-- A pending request gets a home on a QH whose queue is empty. -/
theorem Inv.setHome (hi : Inv M hand hot home s v)
    (hu : M.own = completed → home u = .none ∧ Pending s.trace u) (h : Addr) :
    Inv M hand hot (Function.update home u (.qh h)) s v :=
  { hi with
    acct := fun ho => by
      have ha := hi.acct ho
      obtain ⟨hn, hp⟩ := hu ho
      have hw : ∀ w, w ≠ u → Function.update home u (.qh h) w = home w := fun w hw =>
        Function.update_of_ne hw ..
      refine ⟨ha.qtds.rehome hw (fun h he => by rw [hn] at he; cases he),
        ha.tds.rehome hw (fun k x he => by rw [hn] at he; cases he)
          (fun k x => by rw [Function.update_self]; exact Home.noConfusion), ?_⟩
      refine ⟨ha.record.alternates, ha.record.slotsOk, fun w hne => ?_, fun hnq w hpw => ?_⟩
      · by_cases hwu : w = u
        · subst hwu; exact hp
        · rw [hw w hwu] at hne; exact ha.record.pending w hne
      · rcases ha.record.kept hnq w hpw with ⟨k, x, he⟩ | hh
        · refine .inl ⟨k, x, ?_⟩
          rw [hw w, he]
          rintro rfl
          rw [hn] at he
          cases he
        · exact .inr hh }

/-- A pending request completes when none of its descriptors is left. -/
theorem Inv.logDone (hi : Inv M hand hot home s v) (st : Int) (hand' : UtrId → List (List Nat))
    (hne : ∀ w, w ≠ u → hand' w = hand w) (hflat : (hand u).flatten = [])
    (hu : M.own = completed → home u ≠ .none ∧ (∀ h, home u = .qh h → v.queued h = []) ∧
      (∀ k x, home u = .iso k x → mine s v hot k x u = []) ∧
      (hand u ≠ [] → ∃ k x, home u = .iso k x)) :
    Inv M hand' hot (Function.update home u .none) (s.log (.done u st)) v where
  shape := hi.shape
  frees e he := by
    rcases List.mem_cons.mp he with rfl | he
    · exact trivial
    · exact hi.frees e he
  acct ho := by
    have ha := hi.acct ho
    obtain ⟨hn, hq, hm, hiso⟩ := hu ho
    have hw : ∀ w, w ≠ u → Function.update home u .none w = home w := fun w hw =>
      Function.update_of_ne hw ..
    have hwu : ∀ w k x, Function.update home u .none w = .iso k x → w ≠ u := by
      rintro w k x he rfl
      rw [Function.update_self] at he
      cases he
    have ht := ha.tds.rehome hw hm (fun k x => by rw [Function.update_self]; exact Home.noConfusion)
    refine ⟨ha.qtds.rehome hw hq, ⟨ht.carried, fun w k x he => ?_, fun w k x he => ?_,
      ht.ep, ht.orphans, fun hnq w k x he => ?_⟩, ?_⟩
    · rw [hne w (hwu w k x he)]
      exact ht.cnt w k x he
    · rw [hne w (hwu w k x he)]
      exact ht.pos w k x he
    · have hf : (mine s v hot k x w).flatMap (tdSlots (s.log (.done u st)) k) =
          (mine s v hot k x w).flatMap (tdSlots s k) := by cases k <;> rfl
      rw [hne w (hwu w k x he)]
      show (slotsSince s.trace w ++ (mine s v hot k x w).flatMap _ ++ _).Perm _
      rw [hf]
      exact ht.slots hnq w k x he
    refine ⟨⟨ha.record.pending u hn, ha.record.alternates⟩, fun hnq => ⟨fun hp => ?_,
      ha.record.slotsOk hnq⟩, fun w hw' => ?_, fun hnq w hpw => ?_⟩
    · obtain ⟨k, x, he⟩ := (ha.record.kept hnq u hp).elim id hiso
      have hsl := ha.tds.slots hnq u k x he
      rw [hm k x he, hflat] at hsl
      simpa using hsl
    · have hwu : w ≠ u := by
        rintro rfl
        rw [Function.update_self] at hw'
        exact hw' rfl
      rw [hw w hwu] at hw'
      exact ⟨hwu.symm, ha.record.pending w hw'⟩
    · obtain ⟨huw, hpw⟩ := hpw
      rcases ha.record.kept hnq w hpw with ⟨k, x, he⟩ | hh
      · exact .inl ⟨k, x, by rw [hw w (Ne.symm huw)]; exact he⟩
      · exact .inr (by rw [hne w (Ne.symm huw)]; exact hh)
  bells hd a hg := hi.bells (fun e he => hd e (List.mem_cons_of_mem _ he)) a hg
  answered hh hd e he := by
    rcases List.mem_cons.mp he with rfl | he
    · exact trivial
    · exact hi.answered hh (fun e he => hd e (List.mem_cons_of_mem _ he)) e he
  psen hp := (hi.psen hp).congr rfl (fun _ _ h => h) (fun _ _ h => h) (fun _ _ _ => rfl)
    fun _ _ h => h
  hotTd := hi.hotTd

/-- `td_cnt` of a request with no isochronous descriptors. -/
theorem Inv.setTdCnt (hi : Inv M hand hot home s v)
    (hu : M.own = completed → ∀ k x, home u ≠ .iso k x) (c : Int) :
    Inv M hand hot home { s with tdCnt := Function.update s.tdCnt u c } v :=
  { hi with
    acct := fun ho => by
      have ha := hi.acct ho
      refine ⟨ha.qtds, ha.tds.congr rfl rfl (fun w k x he => ?_) (fun _ _ _ _ _ => ⟨rfl, rfl⟩)
        (fun _ _ _ _ => rfl)
        (fun k _ _ _ => by cases k <;> rfl) (fun _ => rfl), ha.record⟩
      refine Function.update_of_ne ?_ ..
      rintro rfl
      exact hu ho k x he }

end Ma35d1.UsbHost.Ehci
