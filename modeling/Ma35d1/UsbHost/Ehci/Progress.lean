import Ma35d1.UsbHost.Ehci.Calls

/-!
# Progress of the controller, and completions

The controller writes no link and takes back no descriptor. A completion goes on
record and runs the callback, which may call the driver again.
-/

namespace Ma35d1.UsbHost.Ehci

open Heap.LinkedPath Relation

variable {M : Mode} {hand hand' : UtrId → List (List Nat)} {hot : Ptr} {home : UtrId → Home}
  {s s' s₁ s₂ : Ehci} {v v' v₁ : View} {a b h t : Addr} {u : UtrId} {env : Env}

/-! ## The controller -/

theorem HcStep.toLinks_eq (h : HcStep s s') : s'.toLinks = s.toLinks := by
  cases h <;> rfl

theorem HcStep.serving_eq (h : HcStep s s') : s'.bell.serving = s.bell.serving := by
  cases h <;> rfl

theorem Inv.hcStep (hi : Inv M hand hot home s v) (h : HcStep s s') :
    Inv M hand hot home s' v := by
  cases h with
  | overlay => exact hi.scratch ..
  | token a t ha =>
    refine hi.setToken t fun hp => (hi.psen hp).imp_right fun ⟨hq, _⟩ i b hb hm => ?_
    exact ha (hq i b hb a hm)
  | transaction a t =>
    refine hi.words ⟨rfl, rfl, rfl, rfl, rfl, rfl, rfl, rfl, rfl, fun b => ?_, rfl⟩ hi.shape
    show (Function.update s.itdHw a _ b).transMask = _
    by_cases hb : b = a
    · rw [hb, Function.update_self]
    · rw [Function.update_of_ne hb]
  | stsCtrl => exact hi.scratch ..
  | frame => exact hi.scratch ..
  | usbint => exact hi.scratch ..
  | fetch => exact hi.setBell fun _ _ h => h
  | drop => exact hi.setBell fun _ _ h => h
  | answer hi' _ =>
    refine hi.setBell fun a _ ⟨r, hr, hle, hiaad, _, hs⟩ => ?_
    refine ⟨r, hr, hle, ?_, fun _ => hiaad hi', hs⟩
    rintro ⟨⟩

/-- Links, and the doorbell under service, are as they were. -/
structure Still (s s' : Ehci) : Prop where
  links : s'.toLinks = s.toLinks
  serving : s'.bell.serving = s.bell.serving

theorem Inv.hcSteps (hi : Inv M hand hot home s v) (h : ReflTransGen HcStep s s') :
    Inv M hand hot home s' v ∧ Still s s' := by
  induction h with
  | refl => exact ⟨hi, rfl, rfl⟩
  | tail _ hstep ih =>
    obtain ⟨hi', hl, hs⟩ := ih
    exact ⟨hi'.hcStep hstep, hstep.toLinks_eq.trans hl, hstep.serving_eq.trans hs⟩

/-! ## Between two calls -/

/-- No function of the driver holds a descriptor, and the removed QHs lead back. -/
structure Idle (M : Mode) (hot : Ptr) (s : Ehci) (v : View) : Prop where
  good : ∃ home, Good M hot home s v
  stale : Stale s.toLinks v
  held : ∀ a k, v.role a ≠ .held k

theorem Idle.shape (hd : Idle M hot s v) : Shape s.toLinks v := hd.good.choose_spec.inv.shape

theorem Idle.tidy (hd : Idle M hot s v) : Tidy s.toLinks v := hd.good.choose_spec.tidy

theorem Idle.heldQh (hd : Idle M hot s v) : HeldQh v := fun a k ha => absurd ha (hd.held a k)

theorem Idle.hcSteps (hd : Idle M hot s v) (h : ReflTransGen HcStep s s') :
    Idle M hot s' v ∧ Still s s' := by
  obtain ⟨home, hg⟩ := hd.good
  obtain ⟨hi, hst⟩ := hg.inv.hcSteps h
  refine ⟨⟨⟨home, hi, ?_⟩, ?_, hd.held⟩, hst⟩
  · rw [hst.links]; exact hg.tidy
  · rw [hst.links]; exact hd.stale

theorem ApiOk.idle (h : ApiOk M hot s v s') (hst : Stale s.toLinks v)
    (hh : ∀ a k, v.role a ≠ .held k) :
    ∃ v', Idle M hot s' v' ∧ Ext s v s' v' := by
  obtain ⟨v', home', hg, hx, hs⟩ := h
  exact ⟨v', ⟨⟨home', hg⟩, hs hst, fun a k ha => hh a k ((hx.held a k).mp ha)⟩, hx⟩

/-! ## Completions -/

/-- A request completes when nothing is left of it; `s₁` is what its callback finds. -/
theorem Inv.completeCall (hi : Inv M hand hot home s v) (ht : Tidy s.toLinks v) (env : Env)
    (hempty : ∀ w, w ≠ u → hand w = []) (hflat : (hand u).flatten = [])
    (hu : M.own = completed → home u ≠ .none ∧ (∀ h, home u = .qh h → v.queued h = []) ∧
      (∀ k x, home u = .iso k x → mine s v hot k x u = []) ∧
      (hand u ≠ [] → ∃ k x, home u = .iso k x)) (c : Int) :
    ∃ home' s₁, Good M hot home' s₁ v ∧ Ext s v s₁ v ∧ s₁.toLinks = s.toLinks ∧
      (complete env u { s with tdCnt := Function.update s.tdCnt u c } = s₁ ∨
        complete env u { s with tdCnt := Function.update s.tdCnt u c } = env.func u s₁) := by
  have hi₁ := hi.logDone (s.utr u).status (fun _ => []) (fun w hw => (hempty w hw).symm)
    hflat hu
  have hi₂ := hi₁.setTdCnt (u := u) (fun _ k x h => by rw [Function.update_self] at h; cases h) c
  have hx : ∀ (f : UtrId → Utr) (e : Event),
      Ext s v { s with tdCnt := Function.update s.tdCnt u c, utr := f, trace := e :: s.trace } v :=
    fun _ _ => { Ext.refl s v with trace := fun _ he => List.mem_cons_of_mem _ he }
  have hg : Good M hot (Function.update home u .none)
      ((({ s with tdCnt := Function.update s.tdCnt u c } : Ehci).setUtr u
        ({ · with bIsTransferDone := true })).log (.done u (s.utr u).status)) v :=
    ⟨hi₂.scratch .., ht⟩
  refine ⟨_, _, hg, hx _ _, rfl, ?_⟩
  unfold Ehci.complete
  dsimp only
  split
  · exact .inr rfl
  · exact .inl rfl

/-- What a call finds, and what it leaves if it runs the callback. -/
theorem Good.called (hg : Good M hot home s₁ v) (hx : Ext s v s₁ v) (hst : s₁.toLinks = s.toLinks)
    (hh : HeldQh v) (he : EnvKeeps M env) (h : s' = s₁ ∨ s' = env.func u s₁) :
    ApiOk M hot s v s' := by
  rcases h with rfl | rfl
  · exact ⟨v, home, hg, hx, by rw [hst]; exact id⟩
  · obtain ⟨v', home', hg', hx', hs'⟩ := he.func u _ _ _ _ hg hh
    exact ⟨v', home', hg', hx.trans hx', by rw [← hst]; exact hs'⟩

/-- The callback may call the driver. -/
theorem Inv.complete (hi : Inv M hand hot home s v) (ht : Tidy s.toLinks v) (hh : HeldQh v)
    (he : EnvKeeps M env) (hempty : ∀ w, w ≠ u → hand w = []) (hflat : (hand u).flatten = [])
    (hu : M.own = completed → home u ≠ .none ∧ (∀ h, home u = .qh h → v.queued h = []) ∧
      (∀ k x, home u = .iso k x → mine s v hot k x u = []) ∧
      (hand u ≠ [] → ∃ k x, home u = .iso k x)) (c : Int) :
    ApiOk M hot s v (complete env u { s with tdCnt := Function.update s.tdCnt u c }) := by
  obtain ⟨home', s₁, hg, hx, hl, hs⟩ := hi.completeCall ht env hempty hflat hu c
  exact hg.called hx hl hh he hs

end Ma35d1.UsbHost.Ehci
