import Ma35d1.UsbHost.Ehci.Api

/-!
# Quitting an endpoint that is not isochronous

`move_qh_to_remove_list` finds the QH in the ring or in the periodic schedule, takes
it off and puts it on the remove list, with the doorbell rung.
-/

namespace Ma35d1.UsbHost.Ehci

open Heap.LinkedPath Heap.IntervalTree

variable {M : Mode} {hot : Ptr} {home : UtrId → Home}
  {s s' s'' : Ehci} {v v' : View} {m : Links} {a p q qh : Addr} {u : UtrId} {e : EpId}

theorem unlinkQh_toLinks (p qh : Addr) (s : Ehci) :
    (unlinkQh p qh s).toLinks = { s.toLinks with
      hLink := Function.update s.hLink p (s.hLink qh)
      qhNext := Function.update s.qhNext qh s.qhRemoveList
      qhRemoveList := some qh } :=
  ringDoorbell_toLinks _

/-! ## The search -/

theorem Shape.ring_ptr (hs : Shape m v) :
    Path some (hNext m) (some m.hQh) (m.hQh :: v.ring) (some m.hQh) :=
  hs.ring.map Link.ptr

theorem Shape.chain_ptr (hs : Shape m v) :
    Path some (hNext m) (some (m.iqh (numIqh - 1))) (chainFrom m.iqh v.under numIqh) none :=
  hs.chain.map Link.ptr

/-- A QH in the ring before the last one does not lead back to the head. -/
theorem Shape.ring_stop (hs : Shape m v) {l₁ l₂ : List Addr}
    (hl : m.hQh :: v.ring = l₁ ++ p :: l₂) (ha : a ∈ l₁) : (hNext m a == some m.hQh) = false := by
  have hp := hs.ring_ptr
  rw [hl] at hp
  obtain ⟨b, hb, he⟩ := hp.next_mem_tail ha
  rw [← hl, List.tail_cons] at hb
  rw [he]
  simp only [beq_eq_false_iff_ne, ne_eq, Option.some.injEq]
  rintro rfl
  exact hs.head_not_mem_ring hb

/-- The search in the ring finds a QH that lies there. -/
theorem Shape.ring_search (hs : Shape m v) {l₁ l₂ : List Addr}
    (hl : m.hQh :: v.ring = l₁ ++ p :: qh :: l₂) :
    predFrom (hNext m) (fun q => hNext m q == some m.hQh) qh walkFuel m.hQh = some (some p) :=
  hs.ring_ptr.predFrom_eq hs.ring_nodup hl (fun _ hc =>
    hs.ring_stop (show m.hQh :: v.ring = (l₁ ++ [p]) ++ qh :: l₂ by rw [hl]; simp) hc) hs.ring_lt

/-- The search in the ring ends for a QH that lies elsewhere. -/
theorem Shape.ring_search_none (hs : Shape m v) (hq : qh ∉ m.hQh :: v.ring) :
    predFrom (hNext m) (fun q => hNext m q == some m.hQh) qh walkFuel m.hQh = some none := by
  obtain ⟨l, b, hl⟩ : ∃ l b, m.hQh :: v.ring = l ++ [b] :=
    ⟨_, _, (List.dropLast_append_getLast (List.cons_ne_nil _ _)).symm⟩
  have hp := hs.ring_ptr
  have hlt := hs.ring_lt
  rw [hl] at hp hq hlt
  refine predFrom_absent hp rfl (fun hx => hq (List.mem_of_mem_tail hx))
    (fun _ hc => hs.ring_stop hl hc) ?_ ?_
  · have hb : hNext m b = some m.hQh := hp.start_eq.2
    rw [hb]
    exact beq_self_eq_true _
  · rw [List.length_append] at hlt
    omega

/-- The search in the periodic schedule finds a QH that lies there. -/
theorem Shape.chain_search (hs : Shape m v) {l₁ l₂ : List Addr}
    (hl : chainFrom m.iqh v.under numIqh = l₁ ++ p :: qh :: l₂) :
    predFrom (hNext m) (fun q => m.hLink q == .terminate) qh walkFuel (m.iqh (numIqh - 1)) =
      some (some p) := by
  refine hs.chain_ptr.predFrom_eq hs.chain_nodup hl (fun c hc => ?_) hs.chain_lt
  have hp := hs.chain
  rw [show chainFrom m.iqh v.under numIqh = (l₁ ++ [p]) ++ qh :: l₂ by rw [hl]; simp] at hp
  obtain ⟨b, _, he⟩ := hp.next_mem_tail hc
  rw [he]
  rfl

/-- An interrupt QH has a QH in front of it. -/
theorem Shape.chain_pred (hs : Shape m v) {i : Nat} (hq : qh ∈ v.under i) :
    ∃ l₁ p l₂, chainFrom m.iqh v.under numIqh = l₁ ++ p :: qh :: l₂ := by
  have hm : qh ∈ chainFrom m.iqh v.under numIqh :=
    mem_chainFrom.mpr ⟨i, hs.intrLt i qh hq, .inr hq⟩
  refine exists_pred ((List.mem_cons.mp hm).resolve_left fun he => ?_)
  have hr := hs.role_intr hq
  rw [he, hs.role_iqh (by decide)] at hr
  cases hr

/-! ## The endpoint afterwards -/

/-- The QH of the endpoint `e` went to the remove list. -/
structure Unlinked (e : EpId) (qh p : Addr) (s : Ehci) (v v' : View) : Prop where
  pipe : s.hwPipe e = .qh qh
  from' : v.role qh = .async ∨ ∃ i, v.role qh = .intr i
  pred : v.role p ≠ .removed
  role : v'.role = Function.update v.role qh .removed
  ring : ∀ q, q ∈ v'.ring ↔ q ≠ qh ∧ q ∈ v.ring
  under : ∀ i q, q ∈ v'.under i ↔ q ≠ qh ∧ q ∈ v.under i
  queued : v'.queued = v.queued
  done : v'.done = v.done
  tds : v'.tds = v.tds
  isoEps : v'.isoEps = v.isoEps
  back : (s.insertedUnder qh = none ∧ ∃ b, s.hLink qh = .qh b ∧ AsyncClass s.toLinks v b) ∨
    (s.insertedUnder qh ≠ none ∧
      (s.hLink qh = .terminate ∨ ∃ b, s.hLink qh = .qh b ∧ IntClass s.toLinks v b))
  ne : p ≠ qh

theorem Unlinked.role_ne (h : Unlinked e qh p s v v') (ha : a ≠ qh) : v'.role a = v.role a := by
  rw [h.role, Function.update_of_ne ha]

theorem Unlinked.role_self (h : Unlinked e qh p s v v') : v'.role qh = .removed := by
  rw [h.role, Function.update_self]

theorem Unlinked.role_iff (h : Unlinked e qh p s v v') {r : Role} (hr : r ≠ .removed)
    (h₁ : r ≠ .async) (h₂ : ∀ i, r ≠ .intr i) : v'.role a = r ↔ v.role a = r := by
  by_cases ha : a = qh
  · subst ha
    rw [h.role_self]
    refine ⟨fun he => absurd he.symm hr, fun he => ?_⟩
    rcases h.from' with hf | ⟨i, hf⟩
    · exact absurd (he.symm.trans hf) h₁
    · exact absurd (he.symm.trans hf) (h₂ i)
  · rw [h.role_ne ha]

theorem Unlinked.tidy (h : Unlinked e qh p s v v') (hs : Shape s.toLinks v)
    (ht : Tidy s.toLinks v) : Tidy ((unlinkQh p qh s).setHwPipe e .null).toLinks v' := by
  have hl : ((unlinkQh p qh s).setHwPipe e .null).toLinks =
      { (unlinkQh p qh s).toLinks with hwPipe := Function.update (unlinkQh p qh s).hwPipe e .null } := rfl
  rw [hl, unlinkQh_toLinks]
  have hpipe : ∀ e' x, x ≠ .null → Function.update s.hwPipe e .null e' = x → e' ≠ e ∧ s.hwPipe e' = x := by
    intro e' x hx he
    by_cases hee : e' = e
    · rw [hee, Function.update_self] at he; exact absurd he.symm hx
    · rw [Function.update_of_ne hee] at he; exact ⟨hee, he⟩
  have hqh : ∀ e' q, e' ≠ e → s.hwPipe e' = .qh q → q ≠ qh := by
    rintro e' q hee he rfl
    exact hee (ht.pipeInj e' e q he h.pipe)
  constructor
  · intro e' q he
    obtain ⟨hee, he⟩ := hpipe e' _ HwPipe.noConfusion he
    have hq := hqh e' q hee he
    rcases ht.pipeQh e' q he with ⟨h₁, i, h₂⟩ | ⟨h₁, h₂, h₃⟩
    · exact .inl ⟨h₁, i, (h.under i q).mpr ⟨hq, h₂⟩⟩
    · exact .inr ⟨h₁, h₂, (h.ring q).mpr ⟨hq, h₃⟩⟩
  · intro e₁ e₂ q h₁ h₂
    exact ht.pipeInj e₁ e₂ q (hpipe e₁ _ HwPipe.noConfusion h₁).2 (hpipe e₂ _ HwPipe.noConfusion h₂).2
  · intro q hq
    obtain ⟨hne, hq⟩ := (h.ring q).mp hq
    obtain ⟨e', he'⟩ := ht.ringPipe q hq
    refine ⟨e', ?_⟩
    show Function.update s.hwPipe e .null e' = .qh q
    rw [Function.update_of_ne, he']
    rintro rfl
    rw [h.pipe] at he'
    exact hne (HwPipe.qh.inj he').symm
  · intro e' x
    rw [h.isoEps]
    refine ⟨fun he => (ht.pipeIso e' x).mp (hpipe e' _ HwPipe.noConfusion he).2, fun hx => ?_⟩
    have he := (ht.pipeIso e' x).mpr hx
    show Function.update s.hwPipe e .null e' = .isoEp x
    rw [Function.update_of_ne, he]
    rintro rfl
    rw [h.pipe] at he
    cases he
  · exact fun e' a he => ht.pipeEd e' a (hpipe e' _ HwPipe.noConfusion he).2
  · rw [h.isoEps]; exact ht.isoType
  · exact ht.ep0
  · intro b hc
    rw [h.queued]
    refine ht.single b ?_
    by_cases hb : b = qh
    · subst hb
      rcases h.from' with hf | ⟨i, hf⟩
      · rcases hc with ⟨i, hc⟩ | ⟨i, hc⟩ | ⟨_, hn⟩
        · rw [h.role_self] at hc; cases hc
        · rw [h.role_self] at hc; cases hc
        · exact absurd (hs.asyncUnder b ((hs.mem .async b rfl).mpr hf)) hn
      · exact .inr (.inl ⟨i, hf⟩)
    · rw [IntClass, h.role_ne hb] at hc
      exact hc

theorem Unlinked.ext (h : Unlinked e qh p s v v') :
    Ext s v ((unlinkQh p qh s).setHwPipe e .null) v' := by
  have hl := unlinkQh_toLinks p qh s
  have hiu : ((unlinkQh p qh s).setHwPipe e .null).insertedUnder = s.insertedUnder := by
    show (unlinkQh p qh s).insertedUnder = _
    rw [hl]
  have hmove : ∀ a, v.role a = .async ∨ (∃ i, v.role a = .intr i) →
      v'.role a = v.role a ∨ v'.role a = .removed := by
    intro a _
    by_cases ha : a = qh
    · subst ha; exact .inr h.role_self
    · exact .inl (h.role_ne ha)
  constructor
  · exact fun a k => h.role_iff Role.noConfusion Role.noConfusion fun _ => Role.noConfusion
  · exact fun a => (h.role_iff Role.noConfusion Role.noConfusion fun _ => Role.noConfusion).mpr
  · exact fun a i => (h.role_iff Role.noConfusion Role.noConfusion fun _ => Role.noConfusion).mpr
  · intro a ha
    exact ⟨(hmove a (.inl ha)).imp_left fun h => h.trans ha, congrFun hiu a⟩
  · intro a i ha
    exact ⟨(hmove a (.inr ⟨i, ha⟩)).imp_left fun h => h.trans ha, congrFun hiu a⟩
  · intro a ha
    have hne : a ≠ qh := by
      rintro rfl
      rcases h.from' with hf | ⟨i, hf⟩ <;> rw [hf] at ha <;> cases ha
    refine ⟨(h.role_ne hne).trans ha, congrFun hiu a, ?_⟩
    show (unlinkQh p qh s).hLink a = _
    rw [hl]
    refine Function.update_of_ne ?_ ..
    rintro rfl
    exact h.pred ha
  · show (unlinkQh p qh s).hQh = _
    rw [hl]
  · show (unlinkQh p qh s).iqh = _
    rw [hl]
  · exact fun a _ => ⟨congrFun h.queued a, congrFun h.done a⟩
  · intro a k ha hst
    have hne : a ≠ qh := by
      rintro rfl
      rcases h.from' with hf | ⟨i, hf⟩ <;> rw [hf] at ha <;> cases ha
    have hst' : Stamped (s.setLinks { s.toLinks with
        hLink := Function.update s.hLink p (s.hLink qh)
        qhNext := Function.update s.qhNext qh s.qhRemoveList
        qhRemoveList := some qh }).bell a := hst
    exact (hst'.stampNow hne).ring
  · show (Ehci.ringDoorbell _).bell.serving = _
    unfold ringDoorbell
    split <;> rfl
  · exact fun k x => ⟨[], by rw [h.tds, List.append_nil]⟩
  · exact ⟨[], h.isoEps⟩
  · intro ev hev
    show ev ∈ (Ehci.ringDoorbell _).trace
    unfold ringDoorbell
    split <;> exact List.mem_cons_of_mem _ hev

theorem Good.unlinked (hg : Good M hot home s v) (h : Unlinked e qh p s v v')
    (hi : Inv M (fun _ => []) hot home (unlinkQh p qh s) v') :
    ApiOk M hot s v ((unlinkQh p qh s).setHwPipe e .null) := by
  have hs := hg.inv.shape
  have hi' := hi.setHwPipe e .null
  have hx := h.ext
  have hl := unlinkQh_toLinks p qh s
  refine ⟨v', home, ⟨hi', h.tidy hs hg.tidy⟩, hx, fun hst => hst.ext hx hs ?_⟩
  intro b hb hn
  have hbq : b = qh := by
    by_contra hne
    exact hn ((h.role_ne hne).symm.trans (hi'.shape.role_removed hb))
  subst hbq
  have hlink : ((unlinkQh p b s).setHwPipe e .null).hLink b = s.hLink b := by
    show (unlinkQh p b s).hLink b = _
    rw [hl]
    exact Function.update_of_ne (Ne.symm h.ne) ..
  have hiu : ((unlinkQh p b s).setHwPipe e .null).insertedUnder b = s.insertedUnder b := by
    show (unlinkQh p b s).insertedUnder b = _
    rw [hl]
  rw [hlink, hiu]
  rcases h.back with ⟨hu, c, hc, hcl⟩ | ⟨hu, hc⟩
  · exact ⟨fun _ => ⟨c, hc, hx.asyncClass hs hcl⟩, fun hne => absurd hu hne⟩
  · exact ⟨fun he => absurd he hu, fun _ =>
      hc.imp_right fun ⟨c, hc, hcl⟩ => ⟨c, hc, hx.intClass hs hcl⟩⟩

/-! ## `ehci_quit_xfer` -/

theorem Good.quitQh (hg : Good M hot home s v) (hp : s.hwPipe e = .qh qh)
    (h : quitQh e qh s = some s') : ApiOk M hot s v s' := by
  have hs := hg.inv.shape
  obtain ⟨s₁, hmove, rfl⟩ := Option.map_eq_some_iff.mp (show Option.map _ _ = _ from h)
  have hrole : v.role qh = .async ∨ ∃ i, v.role qh = .intr i := by
    rcases hg.tidy.pipeQh e qh hp with ⟨_, i, hm⟩ | ⟨_, _, hm⟩
    · exact .inr ⟨i, hs.role_intr hm⟩
    · exact .inl (hs.role_async hm)
  have hfind : findNode s.qhNext qh walkFuel s.qhRemoveList = some false := by
    rw [findNode_eq hs.removed hs.removed_lt, decide_eq_false]
    intro hm
    rw [hs.role_removed hm] at hrole
    rcases hrole with h | ⟨i, h⟩ <;> cases h
  unfold moveQhToRemoveList at hmove
  rw [hfind] at hmove
  simp only [Option.bind_eq_bind, Option.bind_some, Bool.false_eq_true, ↓reduceIte] at hmove
  rcases hrole with hr | ⟨i, hr⟩
  · have hm : qh ∈ v.ring := (hs.mem .async qh rfl).mpr hr
    obtain ⟨l₁, p, l₂, hl⟩ := exists_pred (a := s.hQh) hm
    rw [show predFrom (fun a => (s.hLink a).ptr) (fun q => (s.hLink q).ptr == some s.hQh) qh
      walkFuel s.hQh = some (some p) from hs.ring_search hl] at hmove
    obtain rfl := Option.some.inj hmove
    have hpm : p ∈ s.hQh :: v.ring := by rw [hl]; simp
    have hpr : v.role p = .head ∨ v.role p = .async := by
      rcases List.mem_cons.mp hpm with rfl | hpm
      · exact .inl hs.role_head
      · exact .inr (hs.role_async hpm)
    have hd := hs.ring_nodup
    refine hg.unlinked (show Unlinked e qh _ s v ((v.takeRing qh).putRemoved qh) from
      { pipe := hp, from' := .inl hr, pred := ?_, role := ?_, ring := fun q => ?_
        under := fun i q => ?_, queued := rfl, done := rfl, tds := rfl, isoEps := rfl
        back := .inl ⟨hs.asyncUnder qh hm, ?_⟩, ne := ?_ }) (hg.inv.unlinkRing hm hl)
    · rcases hpr with h | h <;> rw [h] <;> exact Role.noConfusion
    · exact Function.update_idem ..
    · exact (List.nodup_cons.mp hd).2.mem_erase_iff
    · refine ⟨fun hq => ⟨?_, hq⟩, And.right⟩
      rintro rfl
      rw [hs.role_intr hq] at hr
      cases hr
    · rcases hs.ring.next_eq (List.mem_cons_of_mem _ hm) with ⟨b, hb, he⟩ | he
      · exact ⟨b, he, .inr (.inl (hs.role_async hb))⟩
      · exact ⟨_, he, .inl hs.role_head⟩
    · rintro rfl
      rw [hl] at hd
      exact (List.nodup_cons.mp (List.nodup_append.mp hd).2.1).1 List.mem_cons_self
  · have hm : qh ∈ v.under i := (hs.mem (.intr i) qh rfl).mpr hr
    obtain ⟨l₁, p, l₂, hl⟩ := hs.chain_pred hm
    have hnr : qh ∉ s.hQh :: v.ring := Shape.not_mem_ring_of_chain hs
      (mem_chainFrom.mpr ⟨i, hs.intrLt i qh hm, .inr hm⟩)
    rw [show predFrom (fun a => (s.hLink a).ptr) (fun q => (s.hLink q).ptr == some s.hQh) qh
      walkFuel s.hQh = some none from hs.ring_search_none hnr] at hmove
    dsimp only [Option.bind_some] at hmove
    rw [show predFrom (fun a => (s.hLink a).ptr) (fun q => s.hLink q == .terminate) qh
      walkFuel (s.iqh (numIqh - 1)) = some (some p) from hs.chain_search hl] at hmove
    obtain rfl := Option.some.inj hmove
    have hpm : p ∈ chainFrom s.iqh v.under numIqh := by rw [hl]; simp
    have hd := hs.chain_nodup
    refine hg.unlinked (show Unlinked e qh _ s v ((v.takeUnder i qh).putRemoved qh) from
      { pipe := hp, from' := .inr ⟨i, hr⟩, pred := ?_, role := ?_, ring := fun q => ?_
        under := fun j q => ?_, queued := rfl, done := rfl, tds := rfl, isoEps := rfl
        back := .inr ⟨?_, ?_⟩, ne := ?_ }) (hg.inv.unlinkUnder hm hl)
    · obtain ⟨j, _, h | h⟩ := hs.role_chain hpm <;> rw [h] <;> exact Role.noConfusion
    · exact Function.update_idem ..
    · refine ⟨fun hq => ⟨?_, hq⟩, And.right⟩
      rintro rfl
      exact hnr (List.mem_cons_of_mem _ hq)
    · show q ∈ Function.update v.under i ((v.under i).erase qh) j ↔ _
      by_cases hj : j = i
      · subst hj
        rw [Function.update_self]
        exact (hs.under_nodup (hs.intrLt j qh hm)).mem_erase_iff
      · rw [Function.update_of_ne hj]
        refine ⟨fun hq => ⟨?_, hq⟩, And.right⟩
        rintro rfl
        rw [hs.role_intr hq] at hr
        exact hj (Role.intr.inj hr)
    · rw [hs.intrUnder i qh hm]
      exact Option.some_ne_none i
    · rcases hs.chain.next_eq (mem_chainFrom.mpr ⟨i, hs.intrLt i qh hm, .inr hm⟩) with ⟨b, hb, he⟩ | he
      · obtain ⟨j, _, hbr | hbr⟩ := hs.role_chain (List.mem_of_mem_tail hb)
        · exact .inr ⟨b, he, .inl ⟨j, hbr⟩⟩
        · exact .inr ⟨b, he, .inr (.inl ⟨j, hbr⟩)⟩
      · exact .inl he
    · rintro rfl
      rw [hl] at hd
      exact (List.nodup_cons.mp (List.nodup_append.mp hd).2.1).1 List.mem_cons_self

theorem ApiOk.trans (h : ApiOk M hot s v s')
    (h' : ∀ v' home', Good M hot home' s' v' → ApiOk M hot s' v' s'') : ApiOk M hot s v s'' := by
  obtain ⟨v₁, home₁, hg₁, hx₁, hs₁⟩ := h
  obtain ⟨v₂, home₂, hg₂, hx₂, hs₂⟩ := h' v₁ home₁ hg₁
  exact ⟨v₂, home₂, hg₂, hx₁.trans hx₂, hs₂ ∘ hs₁⟩

theorem Good.quitEp (hg : Good M hot home s v) (h : quitEp e s = some s') : ApiOk M hot s v s' := by
  unfold Ehci.quitEp at h
  split at h
  · rename_i hp
    exact hg.quitQh hp h
  · rw [← Option.some.inj h]
    exact .refl hg
  · cases h

/-- The isochronous part of a quit leaves other endpoints alone. -/
theorem ehciQuitIsoXfer_other (env : Env) {utr : Option UtrId} {ep : Option EpId}
    (ht : ∀ e, quitTarget s utr ep = some e → ¬ isIso s e) :
    ehciQuitIsoXfer env utr ep s = some (usbhErrNotFound, s) := by
  unfold ehciQuitIsoXfer
  split
  · rfl
  · rename_i e he
    exact if_pos (ht e he)

theorem Good.quit (hg : Good M hot home s v) {utr : Option UtrId} {ep : Option EpId} {r : Int}
    (ht : ∀ e, quitTarget s utr ep = some e → ¬ isIso s e)
    (h : ehciQuitXfer idleEnv utr ep s = some (r, s')) : ApiOk M hot s v s' := by
  have hthen : ∀ {s₁ v₁ home₁}, Good M hot home₁ s₁ v₁ →
      ep.elim (some ((0 : Int), s₁)) (fun e => (Ehci.quitEp e s₁).map fun s => ((0 : Int), s)) =
        some (r, s') →
      ApiOk M hot s₁ v₁ s' := by
    intro s₁ v₁ home₁ hg₁ h
    cases ep with
    | none => rw [← (Prod.mk.inj (Option.some.inj h)).2]; exact .refl hg₁
    | some e =>
      obtain ⟨s₂, hq, he⟩ := Option.map_eq_some_iff.mp (show Option.map _ _ = _ from h)
      rw [← (Prod.mk.inj he).2]
      exact hg₁.quitEp hq
  unfold ehciQuitXfer at h
  rw [ehciQuitIsoXfer_other idleEnv ht] at h
  simp only [Option.bind_eq_bind, Option.bind_some] at h
  rw [if_neg (by decide)] at h
  cases utr with
  | none =>
    refine hthen hg ?_
    cases ep <;> exact h
  | some u =>
    dsimp only at h
    split at h
    · rw [← (Prod.mk.inj (Option.some.inj h)).2]; exact .refl hg
    · rename_i e he
      split at h
      · rw [← (Prod.mk.inj (Option.some.inj h)).2]; exact .refl hg
      · rename_i qh hp
        obtain ⟨s₁, hq, h⟩ := Option.bind_eq_some_iff.mp h
        exact (hg.quitQh hp hq).trans fun v₁ home₁ hg₁ => hthen hg₁ (by cases ep <;> exact h)
      · cases h

end Ma35d1.UsbHost.Ehci
