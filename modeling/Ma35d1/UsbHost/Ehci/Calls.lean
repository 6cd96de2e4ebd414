import Ma35d1.UsbHost.Ehci.SubmitIso

/-!
# The calls of the interface keep the invariant

The isochronous submissions, and then any sequence of calls, as a callback makes
them: `ApiOk` holds from one call to the next.
-/

namespace Ma35d1.UsbHost.Ehci

open Heap.LinkedPath Relation

variable {M : Mode} {hand : UtrId → List (List Nat)} {hot : Ptr} {home : UtrId → Home}
  {s s' s₁ s₂ : Ehci} {v v' v₁ : View} {a t : Addr} {u : UtrId} {e : EpId} {k : IsoKind} {x : IsoId}
  {r : Int}

/-! ## Isochronous submissions -/

/-- What the loop that fills and links the descriptors does, `c` slots for each. -/
def FillSpec (k : IsoKind) (u : UtrId) (x : IsoId) (c : Nat)
    (fill : Ptr → Ehci → Option (Bool × Ehci)) : Prop :=
  ∀ {M : Mode} {hand : UtrId → List (List Nat)} {hot : Ptr} {home : UtrId → Home}
    {s₀ s s' : Ehci} {v v' : View} {L : List Addr} {lst : Ptr} {ok : Bool},
    Inv M.relaxed (Function.update hand u (slotsFrom c L.length 0)) hot home s v' →
    Grown k x L s₀ v s v' → x ∈ v.isoEps → Path some (s.tdNext k) lst L none →
    (M.own = completed → home u = .iso k x) → L.length * c = ifPerUtr →
    fill lst s = some (ok, s') →
    ok = true ∧ ∃ v₂, Inv M.relaxed (Function.update hand u []) hot home s' v₂ ∧
      Grown k x [] s₀ v s' v₂

theorem fillItds_spec {mask : BitVec 8} {interval c : Nat}
    (hc : (List.range 8).countP (inMask mask) = c) (hpos : 0 < c) :
    FillSpec .itd u x c fun lst => fillItds u e x mask interval walkFuel lst 0 :=
  fun hi hg hx hp hu hlen h => fillItds_ok hc hpos hi hg hx hp hu (by rw [Nat.zero_add]; exact hlen) h

theorem fillSitds_spec : FillSpec .sitd u x 1 fun lst => fillSitds u e x walkFuel lst 0 :=
  fun hi hg hx hp hu hlen h => fillSitds_ok hi hg hx hp hu
    (by rw [Nat.zero_add, ← hlen, Nat.mul_one]) h

/-- Each interval class spreads the eight slots evenly. -/
theorem isoLayout_ok (bInterval : Nat) :
    0 < (List.range 8).countP (inMask (isoLayout bInterval).1) ∧
      (isoLayout bInterval).2.1 *
        (List.range 8).countP (inMask (isoLayout bInterval).1) = ifPerUtr := by
  unfold isoLayout
  repeat' split
  all_goals decide

/-- Behind the choice of the endpoint an isochronous submission is refused at once, or it
allocates descriptors and fills them. -/
theorem isoOnEp_cases (h : isoOnEp u e x s = some (r, s')) :
    (r ≠ 0 ∧ s' = s) ∨ ∃ k cnt c fill, cnt * c = ifPerUtr ∧ FillSpec k u x c fill ∧
      submitTds k u x cnt fill s = some (r, s') := by
  unfold isoOnEp at h
  split at h
  · unfold ehciIsoSplitXfer at h
    split at h
    · obtain ⟨rfl, rfl⟩ := Prod.mk.inj (Option.some.inj h)
      exact .inl ⟨by decide, rfl⟩
    · exact .inr ⟨.sitd, ifPerUtr, 1, _, Nat.mul_one _, fillSitds_spec, h⟩
  · obtain ⟨hpos, hcnt⟩ := isoLayout_ok (s.ep e).bInterval
    exact .inr ⟨.itd, _, _, _, hcnt, fillItds_spec rfl hpos, h⟩

/-- The two outcomes of `submitTds`: no memory, or the chain is filled. -/
theorem submitTds_cases {cnt : Nat} {fill : Ptr → Ehci → Option (Bool × Ehci)}
    (hi : Inv M hand hot home s v) (h : submitTds k u x cnt fill s = some (r, s')) :
    (r ≠ 0 ∧ Inv M hand hot home s' v ∧ Grown k x [] s v s' v) ∨
      ∃ L lst s₁ v₁ f ok s₂, L.length = cnt ∧ Path some (s₁.tdNext k) lst L none ∧
        Grown k x L s v s₁ v₁ ∧ Inv M hand hot home s₁ v₁ ∧
        (s₁.trace = s.trace ∧ s₁.utrEp = s.utrEp) ∧
        fill lst { s₁ with
          tdCnt := Function.update s₁.tdCnt u (cnt : Int), utr := f } = some (ok, s₂) ∧
        (ok = true → r = 0 ∧ s' = { s₂ with psen := true }) := by
  have hs := hi.shape
  unfold submitTds at h
  generalize hal : allocTds k cnt none s = al at h
  obtain ⟨ok, lst, s₁⟩ := al
  obtain ⟨L, v₁, hc, hi₁, hq, -, -, hep, hlen⟩ := allocTds_ok hi (.nil k s v) hal
  dsimp only at h
  split at h
  · obtain ⟨s₂, hfree, h⟩ := Option.bind_eq_some_iff.mp h
    obtain ⟨rfl, rfl⟩ := Prod.mk.inj (Option.some.inj h)
    obtain ⟨hi₂, p, tr, rfl, htr⟩ := freeTds_ok hi₁ hc hfree
    refine .inl ⟨by decide, hi₂, ?_⟩
    have hg : Grown k x [] s v s v := (Chained.nil k s v).grown (.refl s) hs
    refine { hg with
      keeps := fun a ha => ?_, bell := hq.bell, words := ?_
      trace := fun e he => htr e (by rw [hq.trace]; exact he) }
    · obtain ⟨j, hj⟩ := hs.used_unit ha
      exact (hq.used a j hj).2
    · exact ⟨hq.ep, hq.hwPipe, hq.isoEpEp, hq.insertedUnder, hq.hQh, hq.iqh⟩
  · rename_i hok
    obtain ⟨⟨ok', s₂⟩, hfill, h⟩ := Option.bind_eq_some_iff.mp h
    refine .inr ⟨L, lst, s₁, v₁, _, ok', s₂, ?_, hc.path, hc.grown hq hs, hi₁, ⟨hq.trace, hep⟩, hfill,
      fun ho => ?_⟩
    · exact hlen (by simpa using hok)
    · subst ho
      obtain ⟨rfl, rfl⟩ := Prod.mk.inj (Option.some.inj h)
      exact ⟨rfl, rfl⟩

/-- A mode in which no account of the requests is kept. -/
def Mode.unowned (M : Mode) : Mode := { M with own := fun _ _ => True }

theorem unowned_ne : (fun _ _ => True : Owner) ≠ completed := fun h => by
  have he : True = completed [.submit 0 false] 0 := congrFun (congrFun h [.submit 0 false]) 0
  exact (he ▸ trivial : completed [.submit 0 false] 0) (.inl rfl)

theorem Inv.unown (hi : Inv M hand hot home s v) (hand' : UtrId → List (List Nat))
    (home' : UtrId → Home) : Inv M.unowned hand' hot home' s v :=
  { hi with acct := fun h => absurd h unowned_ne }

/-- A refused submission gave back what it allocated. -/
theorem submitTds_fails {cnt c : Nat} {fill : Ptr → Ehci → Option (Bool × Ehci)}
    (hi : Inv M hand hot home s v) (hx : x ∈ v.isoEps) (hcnt : cnt * c = ifPerUtr)
    (hfill : FillSpec k u x c fill) (hr : r ≠ 0) (h : submitTds k u x cnt fill s = some (r, s')) :
    Inv M hand hot home s' v ∧ Grown k x [] s v s' v := by
  rcases submitTds_cases hi h with ⟨-, h⟩ | ⟨L, lst, s₁, v₁, f, ok, s₂, hL, hp, hg, hi₁, -, hf, hok⟩
  · exact h
  · have hi₂ := (hi₁.unown (Function.update hand u (slotsFrom c L.length 0))
      (Function.update home u (.iso k x))).relax
    have hi₃ : Inv M.unowned.relaxed (Function.update hand u (slotsFrom c L.length 0)) hot
        (Function.update home u (.iso k x))
        { s₁ with tdCnt := Function.update s₁.tdCnt u (cnt : Int), utr := f } v₁ :=
      { hi₂ with acct := fun h => absurd h unowned_ne }
    obtain ⟨rfl, -⟩ := hfill hi₃ (hg.congr rfl rfl rfl) hx hp
      (fun h => absurd h unowned_ne) (by rw [hL]; exact hcnt) hf
    exact absurd (hok rfl).1 hr

/-- An accepted submission links all its descriptors. -/
theorem submitTds_ok {cnt c : Nat} {fill : Ptr → Ehci → Option (Bool × Ehci)}
    (hi : Inv M (Function.update hand u [[]]) hot home s v) (hx : x ∈ v.isoEps)
    (hcnt : cnt * c = ifPerUtr) (hfill : FillSpec k u x c fill)
    (hu : M.own = completed → home u = .none ∧ Pending s.trace u ∧ slotsSince s.trace u = [])
    (hep : s.utrEp u = some (s.isoEpEp x))
    (h : submitTds k u x cnt fill s = some (0, s')) :
    ∃ v', Inv M (Function.update hand u []) hot (Function.update home u (.iso k x)) s' v' ∧
      Grown k x [] s v s' v' := by
  rcases submitTds_cases hi h with ⟨h0, -⟩ | ⟨L, lst, s₁, v₁, f, ok, s₂, hL, hp, hg, hi₁, ⟨ht, he⟩, hf, hok⟩
  · exact absurd rfl h0
  · subst hL
    have hself : Function.update hand u (slotsFrom c L.length 0) u = slotsFrom c L.length 0 :=
      Function.update_self ..
    have hpos : 0 < L.length := by
      refine Nat.pos_of_ne_zero fun h0 => ?_
      rw [h0, Nat.zero_mul] at hcnt
      cases hcnt
    have hi₂ := hi₁.takeHand (Function.update hand u (slotsFrom c L.length 0)) (u := u)
      (fun w hw => by rw [Function.update_of_ne hw, Function.update_of_ne hw])
      (by rw [ht]; exact hu)
      (by
        rw [hself]
        intro h0
        have := slotsFrom_length c L.length 0
        rw [h0] at this
        simp only [List.length_nil] at this
        omega)
      (by rw [hself, slotsFrom_flatten, hcnt, List.range_eq_range']) k x
      (by rw [he, hg.words.2.2.1]; exact hep)
    have hi₃ : Inv M (Function.update hand u (slotsFrom c L.length 0)) hot
        (Function.update home u (.iso k x))
        { s₁ with tdCnt := Function.update s₁.tdCnt u (L.length : Int), utr := f } v₁ := by
      rw [hself, slotsFrom_length] at hi₂
      exact hi₂.scratch ..
    obtain ⟨rfl, v₂, hi₄, hg₄⟩ := hfill hi₃.relax (hg.congr rfl rfl rfl) hx hp
      (fun _ => Function.update_self ..) hcnt hf
    obtain ⟨-, rfl⟩ := hok rfl
    exact ⟨v₂, hi₄.psenOn, hg₄.congr rfl rfl rfl⟩

theorem newSchedFrame_lt (s : Ehci) : s.newSchedFrame < flSize := Nat.mod_lt _ (by decide)

/-- A new `ISO_EP_T` for the endpoint `e`. -/
theorem newIsoEp_ok (hi : Inv M hand hot home s v) (ht : Tidy s.toLinks v)
    (hp : s.hwPipe e = .null) (hte : (s.ep e).xferType = epAttrTtIso)
    (hh : M.own = completed → ∀ w, hand w ≠ [] → home w = .none)
    (h : newIsoEp e s = some (x, s')) :
    Inv M hand hot home s' (v.consIso x) ∧ Tidy s'.toLinks (v.consIso x) ∧
      Ext s v s' (v.consIso x) ∧ s'.isoEpEp x = e ∧ s'.trace = s.trace ∧ s'.utrEp = s.utrEp := by
  obtain ⟨⟨y, d⟩, hd, he⟩ := Option.map_eq_some_iff.mp (show Option.map _ _ = _ from h)
  obtain ⟨rfl, rfl⟩ := Prod.mk.inj he
  obtain ⟨hlt, hfree, hd'⟩ := DmaPool.usbhAllocMem_one (by decide) hd
  have hs := hi.shape
  have hy : y ∉ v.isoEps := fun hm => by
    rw [(hs.isoDma y hm).2] at hfree
    cases hfree
  have hs' := hs.consIso e (Function.update s.hwPipe e (.isoEp y)) hfree hlt (newSchedFrame_lt s)
    (d := d) (by rw [hd'])
  have hpipe : ∀ e', e' ≠ e → Function.update s.hwPipe e (.isoEp y) e' = s.hwPipe e' := fun e' he =>
    Function.update_of_ne he ..
  have hself : Function.update s.hwPipe e (.isoEp y) e = .isoEp y := Function.update_self ..
  have hi₁ := hi.setEps s.utrEp (Function.update s.isoEpEp y e) fun ho _ w k x hw => ⟨rfl, by
    refine Function.update_of_ne ?_ _ _
    rintro rfl
    -- the `ISO_EP_T` of a request in flight is on `iso_ep_list`
    rcases (hi.acct ho).tds.pos w k x hw with hm | hm
    · obtain ⟨t, ht⟩ := List.exists_mem_of_ne_nil _ hm
      exact hy (hs.tdEp k x t (mem_mine.mp ht).1)
    · rw [hh ho w hm] at hw
      cases hw⟩
  refine ⟨hi₁.unseen ⟨rfl, rfl, rfl, rfl, rfl, rfl, rfl, rfl, rfl, rfl, fun _ _ _ => rfl,
    fun _ _ _ => rfl, fun _ _ _ _ => rfl, fun j _ _ _ => by cases j <;> rfl,
    fun _ h => ⟨h, id⟩⟩ hs', ?_, ?_, Function.update_self .., rfl, rfl⟩
  · have hqh : ∀ e' q, Function.update s.hwPipe e (.isoEp y) e' = .qh q →
        s.hwPipe e' = .qh q := by
      intro e' q he'
      by_cases hee : e' = e
      · rw [hee, hself] at he'; cases he'
      · rwa [hpipe e' hee] at he'
    refine ⟨fun e' q he' => ht.pipeQh e' q (hqh e' q he'),
      fun e₁ e₂ q h₁ h₂ => ht.pipeInj e₁ e₂ q (hqh e₁ q h₁) (hqh e₂ q h₂), fun q hq => ?_,
      fun e' x => ?_, fun e' a he' => ?_, fun x hx => ?_, ht.ep0, ht.single⟩
    · obtain ⟨e', he'⟩ := ht.ringPipe q hq
      refine ⟨e', (hpipe e' ?_).trans he'⟩
      rintro rfl
      rw [hp] at he'
      cases he'
    · show Function.update s.hwPipe e (.isoEp y) e' = .isoEp x ↔
        x ∈ y :: v.isoEps ∧ Function.update s.isoEpEp y e x = e'
      rw [List.mem_cons]
      by_cases hxy : x = y
      · subst hxy
        rw [Function.update_self]
        refine ⟨fun he' => ⟨.inl rfl, ?_⟩, fun he' => by rw [← he'.2, hself]⟩
        by_contra hne
        rw [hpipe e' fun h => hne h.symm] at he'
        exact hy ((ht.pipeIso e' x).mp he').1
      · rw [Function.update_of_ne hxy]
        by_cases hee : e' = e
        · subst hee
          rw [hself]
          refine ⟨fun he' => absurd (HwPipe.isoEp.inj he').symm hxy, fun ⟨hx, he'⟩ => ?_⟩
          have hpx := (ht.pipeIso e' x).mpr ⟨hx.resolve_left hxy, he'⟩
          rw [hp] at hpx
          cases hpx
        · rw [hpipe e' hee, ht.pipeIso e' x]
          simp [hxy]
    · by_cases hee : e' = e
      · subst hee
        have he'' : Function.update s.hwPipe e' (.isoEp y) e' = .ed a := he'
        rw [hself] at he''
        cases he''
      · exact ht.pipeEd e' a ((hpipe e' hee).symm.trans he')
    · show (s.ep (Function.update s.isoEpEp y e x)).xferType = _
      by_cases hxy : x = y
      · subst hxy
        rw [Function.update_self]
        exact hte
      · rw [Function.update_of_ne hxy]
        exact ht.isoType x ((List.mem_cons.mp hx).resolve_left hxy)
  · exact Ext.of_grow (fun _ _ => rfl) (fun a ha j hj => by
      have hj' : v.role a = .held j := hj
      rw [ha] at hj'
      cases hj') (fun _ _ => rfl) (fun _ _ => rfl) rfl rfl (fun _ _ => ⟨rfl, rfl⟩)
      (fun _ _ => rfl) ⟨_, rfl⟩ (fun _ _ => ⟨[], (List.append_nil _).symm⟩) ⟨[y], rfl⟩
      fun _ h => h

/-- The choice of the `ISO_EP_T`. -/
theorem ehciIsoXfer_cases (hi : Inv M hand hot home s v) (ht : Tidy s.toLinks v)
    (he : s.utrEp u = some e) (hte : (s.ep e).xferType = epAttrTtIso)
    (hh : M.own = completed → ∀ w, hand w ≠ [] → home w = .none)
    (h : ehciIsoXfer u s = some (r, s')) :
    (r ≠ 0 ∧ s' = s) ∨ ∃ s₁ v₁ x, Inv M hand hot home s₁ v₁ ∧ Tidy s₁.toLinks v₁ ∧
      Ext s v s₁ v₁ ∧ v₁.removed = v.removed ∧ x ∈ v₁.isoEps ∧ s₁.trace = s.trace ∧
      s₁.utrEp u = some (s₁.isoEpEp x) ∧ isoOnEp u e x s₁ = some (r, s') := by
  unfold ehciIsoXfer at h
  obtain ⟨e', he', h⟩ := Option.bind_eq_some_iff.mp h
  obtain rfl := Option.some.inj (he.symm.trans he')
  split at h
  · rename_i x hp
    obtain ⟨hx, hxe⟩ := (ht.pipeIso e x).mp hp
    refine .inr ⟨_, v, x, ?_, ?_, ?_, rfl, hx, ?_, ?_, h⟩
    · split
      · exact hi.words ⟨rfl, rfl, rfl, rfl, rfl, rfl, rfl, rfl, rfl, fun _ => rfl, rfl⟩
          (hi.shape.setNextFrame (newSchedFrame_lt s))
      · exact hi
    · split
      · exact { ht with }
      · exact ht
    · split
      · exact { Ext.refl s v with }
      · exact .refl s v
    · split <;> rfl
    · split <;> exact he.trans (congrArg some hxe.symm)
  · rename_i hp
    split at h
    · obtain ⟨rfl, rfl⟩ := Prod.mk.inj (Option.some.inj h)
      exact .inl ⟨by decide, rfl⟩
    · rename_i x s₁ hn
      obtain ⟨hi₁, ht₁, hx₁, hxe, htr, hep⟩ := newIsoEp_ok hi ht hp hte hh hn
      exact .inr ⟨s₁, _, x, hi₁, ht₁, hx₁, rfl, List.mem_cons_self, htr, by rw [hep, he, hxe], h⟩
  · cases h

theorem Good.iso (hg : Good M hot home s v) (hu : M.own s.trace u) (he : s.utrEp u = some e)
    (ht : isIso s e) (h : ehciIsoXfer u (s.log (.submit u true)) = some (0, s')) :
    ApiOk M hot s v s' := by
  have hs := hg.inv.shape
  have hnp : M.own = completed → ¬ Pending s.trace u := fun ho => by rw [ho] at hu; exact hu
  have hi₀ := hg.inv.logSubmit hnp true (Function.update (fun _ => []) u [[]])
    (fun w hw => Function.update_of_ne hw ..) (fun _ => by rw [Function.update_self]; exact List.cons_ne_nil _ _)
  have hnone : M.own = completed → home u = .none := fun ho => by
    by_contra hne
    exact hnp ho ((hg.inv.acct ho).record.pending u hne)
  rcases ehciIsoXfer_cases hi₀ hg.tidy he ht (fun ho w hw => by
      by_cases hwu : w = u
      · rw [hwu]; exact hnone ho
      · rw [Function.update_of_ne hwu] at hw; exact absurd rfl hw) h with
    ⟨h0, -⟩ | ⟨s₁, v₁, x, hi₁, ht₁, hx₁, hr, hm, htr, hep, h₁⟩
  · exact absurd rfl h0
  rcases isoOnEp_cases h₁ with ⟨h0, -⟩ | ⟨k, cnt, c, fill, hcnt, hfill, h₂⟩
  · exact absurd rfl h0
  obtain ⟨v₂, hi₂, hg₂⟩ := submitTds_ok (c := c) hi₁ hm hcnt hfill (fun ho => by
    rw [htr]
    exact ⟨hnone ho, .inl rfl, if_pos rfl⟩) hep h₂
  have hx : Ext s v s' v₂ := Ext.trans
    { hx₁ with trace := fun e he => hx₁.trace e (List.mem_cons_of_mem _ he) } hg₂.ext
  have hempty : Function.update (fun _ : UtrId => ([] : List (List Nat))) u [] = fun _ => [] :=
    Function.update_eq_self u _
  rw [hempty] at hi₂
  exact ⟨v₂, _, ⟨hi₂, hg₂.tidy ht₁⟩, hx, fun hst => hst.same hx hs
    (hg₂.lists.2.2.1.trans hr)⟩

theorem Good.isoFails (hg : Good M hot home s v) (he : s.utrEp u = some e) (ht : isIso s e)
    (hr : r ≠ 0) (h : ehciIsoXfer u s = some (r, s')) : ApiOk M hot s v s' := by
  have hs := hg.inv.shape
  rcases ehciIsoXfer_cases hg.inv hg.tidy he ht (fun _ _ hw => absurd rfl hw) h with
    ⟨-, rfl⟩ | ⟨s₁, v₁, x, hi₁, ht₁, hx₁, hrm, hm, -, -, h₁⟩
  · exact .refl hg
  rcases isoOnEp_cases h₁ with ⟨-, rfl⟩ | ⟨k, cnt, c, fill, hcnt, hfill, h₂⟩
  · exact ⟨v₁, home, ⟨hi₁, ht₁⟩, hx₁, fun hst => hst.same hx₁ hs hrm⟩
  obtain ⟨hi₂, hg₂⟩ := submitTds_fails (c := c) hi₁ hm hcnt hfill hr h₂
  have hx := hx₁.trans hg₂.ext
  exact ⟨v₁, home, ⟨hi₂, hg₂.tidy ht₁⟩, hx, fun hst => hst.same hx hs hrm⟩

/-! ## The other calls -/

/-- A client fills in a request that is its own. -/
theorem Good.prepare (hg : Good M hot home s v) (hu : M.own s.trace u) (f : Utr) (p : Option EpId)
    (c : Int) :
    ApiOk M hot s v { s with
      utr := Function.update s.utr u f
      utrEp := Function.update s.utrEp u p
      tdCnt := Function.update s.tdCnt u c } := by
  have hh : M.own = completed → ∀ k x, home u ≠ .iso k x := fun ho k x he => by
    rw [ho] at hu
    exact hu ((hg.inv.acct ho).record.pending u (by rw [he]; exact Home.noConfusion))
  exact ApiOk.same hg (((hg.inv.setTdCnt hh c).setUtrEp p hh).scratch ..) rfl rfl rfl rfl rfl rfl (fun _ _ => rfl) (fun _ _ => rfl) ⟨_, rfl⟩
    fun _ h => h

/-- Nothing but QHs is held. -/
def HeldQh (v : View) : Prop := ∀ a k, v.role a = .held k → k = .qh

theorem Ext.heldQh (h : Ext s v s' v') (hh : HeldQh v) : HeldQh v' := fun a k ha =>
  hh a k ((h.held a k).mp ha)

theorem Role.isEhci_of_kind {r : Role} (hr : ∀ k, r = .held k → k = .qh) {k : HwKind}
    (h : r.kind = some k) : k.isEhci = true := by
  cases r with
  | free => cases h
  | held j => obtain rfl := hr j rfl; obtain rfl := Option.some.inj h; rfl
  | td j x => obtain rfl := Option.some.inj h; cases j <;> rfl
  | _ => obtain rfl := Option.some.inj h; rfl

/-- Other drivers take and return units of their own kinds. -/
theorem Shape.foreign {m : Links} (hs : Shape m v) (hh : HeldQh v) {p : HwPool} {d : DmaPool}
    (hp : ∀ a, p.unit a ≠ m.pool.unit a → (∀ k, p.unit a = some k → k.isEhci = false) ∧
      (∀ k, m.pool.unit a = some k → k.isEhci = false))
    (hsi : p.sidx < hwMemUnitNum) (hd : ∀ x ∈ v.isoEps, d.used x = m.dma.used x) :
    Shape { m with pool := p, dma := d } v := by
  have hkeep : ∀ a k, k.isEhci = true → (p.unit a = some k ↔ m.pool.unit a = some k) := by
    intro a k hk
    by_cases hne : p.unit a = m.pool.unit a
    · rw [hne]
    · obtain ⟨h₁, h₂⟩ := hp a hne
      refine ⟨fun h => ?_, fun h => ?_⟩
      · rw [h₁ k h] at hk; cases hk
      · rw [h₂ k h] at hk; cases hk
  have htd : ∀ a, tdLink { m with pool := p, dma := d } a = tdLink m a := fun a => by
    unfold tdLink
    simp only [hkeep a .itd rfl]
  have hqh : ∀ a, p.unit a = some .qh ↔ m.pool.unit a = some .qh := fun a => hkeep a .qh rfl
  refine { hs with
    toRoles := ⟨fun a ha => ?_, fun a ha k hk => ?_, hs.mem, hs.head, hs.ghost, hs.iqhRole, hs.intrLt,
      fun h a ha => (hqh h).mpr (hs.queuedQh h a ha), fun h a ha => (hqh h).mpr (hs.doneQh h a ha),
      hs.tdEp⟩
    sidx := hsi
    queued := fun h hh => hs.queued h ((hqh h).mp hh)
    done := fun h hh => hs.done h ((hqh h).mp hh)
    frame := fun idx hi => (hs.frame idx hi).congr (fun a _ => (htd a).symm) fun _ _ => rfl
    isoDma := fun x hx => ⟨(hs.isoDma x hx).1, (hd x hx).trans (hs.isoDma x hx).2⟩ }
  · obtain ⟨hlt, hu⟩ := hs.used a ha
    obtain ⟨k, hk⟩ := hs.used_unit ha
    have hr : (v.role a).kind = some k := hu.symm.trans hk
    refine ⟨hlt, ?_⟩
    rw [hr]
    exact (hkeep a k (Role.isEhci_of_kind (hh a) hr)).mpr hk
  · by_cases hne : p.unit a = m.pool.unit a
    · exact hs.unused a ha k (hne ▸ hk)
    · exact (hp a hne).1 k hk

theorem Good.foreign (hg : Good M hot home s v) (hh : HeldQh v) {p : HwPool} {d : DmaPool}
    (hp : ∀ a, p.unit a ≠ s.pool.unit a → (∀ k, p.unit a = some k → k.isEhci = false) ∧
      (∀ k, s.pool.unit a = some k → k.isEhci = false))
    (hsi : p.sidx < hwMemUnitNum)
    (hd : ∀ x, Reach s.isoEpNext s.isoEpList x → d.used x = s.dma.used x) :
    ApiOk M hot s v { s with pool := p, dma := d } := by
  have hs' := hg.inv.shape.foreign hh hp hsi fun x hx => hd x (hg.inv.shape.isoEps.reach_of_mem hx)
  exact ApiOk.same hg (hg.inv.words ⟨rfl, rfl, rfl, rfl, rfl, rfl, rfl, rfl, rfl, fun _ => rfl, rfl⟩ hs') rfl rfl rfl rfl
    rfl rfl (fun _ _ => rfl) (fun _ _ => rfl) ⟨_, rfl⟩ fun _ h => h

/-! ## Sequences of calls -/

theorem Good.apiStep (hg : Good M hot home s v) (hh : HeldQh v) (h : ApiStep M.own s s') :
    ApiOk M hot s v s' := by
  cases h with
  | prepare u f p c hu => exact hg.prepare hu f p c
  | ctrl u hu h => exact hg.ctrl hu h
  | bulk u e hu he ht h => exact hg.bulk hu he ht h
  | int u e hu he ht h => exact hg.int hu he ht h
  | intFails u e r hu he ht hr h => exact hg.intFails he hr h
  | iso u e hu he ht h => exact hg.iso hu he ht h
  | isoFails u e r hu he ht hr h => exact hg.isoFails he ht hr h
  | quit utr ep r ht h => exact hg.quit ht h
  | foreign p d hp hs hd => exact hg.foreign hh hp hs hd

/-- Calls that keep the invariant may follow one another. -/
theorem Good.calls {R : Ehci → Ehci → Prop}
    (hR : ∀ {s s' home v}, Good M hot home s v → HeldQh v → R s s' → ApiOk M hot s v s')
    (hg : Good M hot home s v) (hh : HeldQh v) (h : ReflTransGen R s s') : ApiOk M hot s v s' := by
  induction h with
  | refl => exact .refl hg
  | tail _ hstep ih =>
    obtain ⟨v₁, home₁, hg₁, hx₁, hs₁⟩ := ih
    obtain ⟨v₂, home₂, hg₂, hx₂, hs₂⟩ := hR hg₁ (hx₁.heldQh hh) hstep
    exact ⟨v₂, home₂, hg₂, hx₁.trans hx₂, hs₂ ∘ hs₁⟩

/-- The callbacks keep the invariant, whatever calls they make, and the controller runs on. -/
structure EnvKeeps (M : Mode) (env : Env) : Prop where
  func : ∀ u s hot home v, Good M hot home s v → HeldQh v → ApiOk M hot s v (env.func u s)
  hc : ∀ s, ReflTransGen HcStep s (env.hc s)

theorem EnvOk.keeps {env : Env} (he : EnvOk M.own env) : EnvKeeps M env :=
  ⟨fun u s _ _ _ hg hh => hg.calls Good.apiStep hh (he.func u s), he.hc⟩

end Ma35d1.UsbHost.Ehci
