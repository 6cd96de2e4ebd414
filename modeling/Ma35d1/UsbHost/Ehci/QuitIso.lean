import Ma35d1.UsbHost.Ehci.ScanIso

/-!
# Quitting an isochronous endpoint

The loop of `ehci_quit_iso_xfer` takes the iTDs of the endpoint off their frames
one by one but leaves `itd_list` alone, so it runs ahead of that pointer: `ahead`
is the state with the pointer where the loop stands. The siTDs of the endpoint are
not looked at and become orphans.
-/

namespace Ma35d1.UsbHost.Ehci

open Heap.LinkedPath Heap.IntervalTree Relation

variable {M : Mode} {hand : UtrId → List (List Nat)} {hot : Ptr} {home : UtrId → Home}
  {s s' s₁ s₂ : Ehci} {v v' v₁ v₂ : View} {m : Links} {a b t : Addr} {u : UtrId} {env : Env}
  {n : Nat} {x : IsoId} {e : EpId} {cur : Option IsoId} {l : List IsoId}

/-! ## Running ahead of `itd_list` -/

def aheadLinks (x : IsoId) (cur : Ptr) (m : Links) : Links :=
  { m with tdList := Links.setTd m.tdList .itd x cur }

def ahead (x : IsoId) (cur : Ptr) (s : Ehci) : Ehci := s.setLinks (aheadLinks x cur s.toLinks)

theorem HcStep.ahead (h : HcStep s s') (x : IsoId) (cur : Ptr) :
    HcStep (ahead x cur s) (ahead x cur s') := by
  cases h with
  | overlay a q hc hp => exact .overlay a q hc hp
  | token a t ha => exact .token a t ha
  | transaction a t => exact .transaction a t
  | stsCtrl a t => exact .stsCtrl a t
  | frame n => exact .frame n
  | usbint => exact .usbint
  | fetch a ha => exact .fetch a ha
  | drop a => exact .drop a
  | answer hi hc => exact .answer hi hc

theorem hcSteps_ahead (h : ReflTransGen HcStep s s') (x : IsoId) (cur : Ptr) :
    ReflTransGen HcStep (ahead x cur s) (ahead x cur s') := by
  induction h with
  | refl => exact .refl
  | tail _ hstep ih => exact ih.tail (hstep.ahead x cur)

theorem unlinkFromFrame_ahead (k : IsoKind) (cur : Ptr) :
    (aheadLinks x cur m).unlinkFromFrame k t = (m.unlinkFromFrame k t).map (aheadLinks x cur) := by
  unfold Links.unlinkFromFrame
  dsimp only
  by_cases hf : m.pfList (m.schedFrnidx k t) = k.link t
  · have hf' : (aheadLinks x cur m).pfList ((aheadLinks x cur m).schedFrnidx k t) = k.link t := hf
    rw [if_pos hf, if_pos hf']
    rfl
  · have hf' : (aheadLinks x cur m).pfList ((aheadLinks x cur m).schedFrnidx k t) ≠ k.link t := hf
    rw [if_neg hf, if_neg hf']
    show Option.bind (m.pfList (m.schedFrnidx k t)).ptr _ =
      Option.map _ (Option.bind (m.pfList (m.schedFrnidx k t)).ptr _)
    cases (m.pfList (m.schedFrnidx k t)).ptr with
    | none => rfl
    | some p =>
      show Option.bind (predFrom (fun a => (m.hLink a).ptr) (fun _ => false) t walkFuel p) _ =
        Option.map _ (Option.bind
          (predFrom (fun a => (m.hLink a).ptr) (fun _ => false) t walkFuel p) _)
      cases predFrom (fun a => (m.hLink a).ptr) (fun _ => false) t walkFuel p with
      | none => rfl
      | some q => cases q <;> rfl

theorem unlinkFromFrame_eq {k : IsoKind} {m' : Links} (h : m.unlinkFromFrame k t = some m') :
    m' = { m with hLink := m'.hLink, pfList := m'.pfList } := by
  unfold Links.unlinkFromFrame at h
  dsimp only at h
  split at h
  · rw [← Option.some.inj h]
  · obtain ⟨p, -, h⟩ := Option.bind_eq_some_iff.mp (show Option.bind _ _ = _ from h)
    obtain ⟨q, -, h⟩ := Option.bind_eq_some_iff.mp (show Option.bind _ _ = _ from h)
    obtain ⟨q, -, h⟩ := Option.bind_eq_some_iff.mp (show Option.bind _ _ = _ from h)
    rw [← Option.some.inj h]

theorem onLists_ahead (cur : Ptr) : OnLists (aheadLinks x cur m) a ↔ OnLists m a := by
  constructor
  · intro h
    cases h with
    | ring h => exact .ring h
    | chain h => exact .chain h
    | queued q hq h => exact .queued q hq h
    | done q hq h => exact .done q hq h
    | removed h => exact .removed h
    | frame idx hi h => exact .frame idx hi h
  · intro h
    cases h with
    | ring h => exact .ring h
    | chain h => exact .chain h
    | queued q hq h => exact .queued q hq h
    | done q hq h => exact .done q hq h
    | removed h => exact .removed h
    | frame idx hi h => exact .frame idx hi h

/-! ## What a free puts on record -/

/-- The memory that a free finds may be told with another `itd_list`. -/
theorem Inv.relog {tr : List Event} {d : Doorbell} {k : HwKind} {m' : Links}
    (hi : Inv M hand hot home { s with trace := .free k a m d :: tr } v)
    (hm : FreeOk (.free k a m d) → FreeOk (.free k a m' d)) :
    Inv M hand hot home { s with trace := .free k a m' d :: tr } v where
  shape := hi.shape
  frees e he := by
    rcases List.mem_cons.mp he with rfl | he
    · exact hm (hi.frees _ List.mem_cons_self)
    · exact hi.frees e (List.mem_cons_of_mem _ he)
  acct ho := by
    have ha := hi.acct ho
    exact ⟨ha.qtds, ha.tds.congr rfl rfl (fun _ _ _ _ => rfl) (fun _ _ _ _ _ => ⟨rfl, rfl⟩)
      (fun _ _ _ _ => rfl) (fun k _ _ _ => by cases k <;> rfl) (fun _ => rfl),
      ⟨ha.record.alternates, ha.record.slotsOk, ha.record.pending, ha.record.kept⟩⟩
  bells hd := hi.bells fun e he => by
    rcases List.mem_cons.mp he with rfl | he
    · exact trivial
    · exact hd e (List.mem_cons_of_mem _ he)
  answered hh hd e he := by
    have hd' : ∀ e ∈ Event.free k a m d :: tr, IdleDetach e := fun e he => by
      rcases List.mem_cons.mp he with rfl | he
      · exact trivial
      · exact hd e (List.mem_cons_of_mem _ he)
    rcases List.mem_cons.mp he with rfl | he
    · exact hi.answered hh hd' (.free k a m d) List.mem_cons_self
    · exact hi.answered hh hd' e (List.mem_cons_of_mem _ he)
  psen hp := (hi.psen hp).congr rfl (fun _ _ h => h) (fun _ _ h => h) (fun _ _ _ => rfl)
    fun _ _ h => h
  hotTd := hi.hotTd

theorem Idle.relog {tr : List Event} {d : Doorbell} {k : HwKind} {m' : Links}
    (hd : Idle M hot s v) (htr : s.trace = .free k a m d :: tr)
    (hm : FreeOk (.free k a m d) → FreeOk (.free k a m' d)) :
    Idle M hot { s with trace := .free k a m' d :: tr } v := by
  obtain ⟨home, hg⟩ := hd.good
  have hi : Inv M (fun _ => []) hot home { s with trace := .free k a m d :: tr } v := by
    rw [← htr]
    exact hg.inv
  exact ⟨⟨home, hi.relog hm, hg.tidy⟩, hd.stale, hd.held⟩

/-! ## One iTD -/

/-- Where no slot is accounted for, the slots in hand do not matter. -/
theorem Inv.dropSlots {l : List Nat} (hnq : ¬ M.noQuit)
    (hi : Inv M (Function.update (fun _ => []) u [l]) hot home s v) :
    Inv M (Function.update (fun _ => []) u [[]]) hot home s v :=
  { hi with
    acct := fun ho => by
      have ha := hi.acct ho
      have hlen : ∀ w, (Function.update (fun _ : UtrId => ([] : List (List Nat))) u [[]] w).length =
          (Function.update (fun _ : UtrId => ([] : List (List Nat))) u [l] w).length := by
        intro w
        by_cases hw : w = u
        · rw [hw, Function.update_self, Function.update_self]; rfl
        · rw [Function.update_of_ne hw, Function.update_of_ne hw]
      have hne : ∀ w, Function.update (fun _ : UtrId => ([] : List (List Nat))) u [l] w ≠ [] →
          Function.update (fun _ : UtrId => ([] : List (List Nat))) u [[]] w ≠ [] := fun w h h0 =>
        h (List.length_eq_zero_iff.mp (by rw [← hlen, h0]; rfl))
      refine ⟨ha.qtds, ⟨ha.tds.carried, fun w k y he => ?_, fun w k y he => ?_,
        ha.tds.ep, ha.tds.orphans, fun h => absurd h hnq⟩, ⟨ha.record.alternates, ha.record.slotsOk, ha.record.pending,
        fun h => absurd h hnq⟩⟩
      · rw [hlen]
        exact ha.tds.cnt w k y he
      · exact (ha.tds.pos w k y he).imp_right (hne w) }

/-- The count of `ehci_quit_iso_xfer` for one iTD. -/
def quitCount (env : Env) (u : UtrId) (s : Ehci) : Ehci :=
  let s : Ehci := { s with tdCnt := Function.update s.tdCnt u (s.tdCnt u - 1) }
  if s.tdCnt u = 0 then (complete env u s).setUtr u ({ · with status := usbhErrAbort }) else s

/-- With quiet callbacks the count leaves the links alone. -/
theorem quitCount_setLinks (he : QuietEnv env) :
    quitCount env u (s.setLinks m) = (quitCount env u s).setLinks m := by
  unfold quitCount complete
  dsimp only [setLinks]
  split
  · rw [he.func, he.func, ite_self, ite_self]
    rfl
  · rfl

theorem quitCount_countDown : ∃ f, quitCount env u s = { countDown env u s with utr := f } := by
  unfold quitCount countDown
  dsimp only
  split
  · exact ⟨_, rfl⟩
  · exact ⟨_, rfl⟩

/-! ## The loop -/

/-- What the loop leaves of the view. -/
structure QuitKeeps (x : IsoId) (s : Ehci) (v : View) (s' : Ehci) (v' : View) : Prop where
  isoEps : v'.isoEps = v.isoEps
  under : v'.under = v.under
  queued : v'.queued = v.queued
  tds : ∀ k y, ¬ (k = .itd ∧ y = x) → v'.tds k y = v.tds k y
  orphans : v'.orphans = v.orphans
  token : (∀ q, s'.token q = s.token q ∨ s.token q &&& qtdStsActive ≠ 0)
  psen : s'.psen = s.psen
  serving : s'.bell.serving = s.bell.serving
  isoEpEp : s'.isoEpEp = s.isoEpEp

theorem hcSteps_token (h : ReflTransGen HcStep s s') (q : Addr) :
    s'.token q = s.token q ∨ s.token q &&& qtdStsActive ≠ 0 := by
  induction h with
  | refl => exact .inl rfl
  | tail _ hstep ih =>
    rcases ih with ih | ih
    · cases hstep with
      | token a t ha =>
        by_cases hq : q = a
        · subst hq
          rw [ih] at ha
          exact .inr ha
        · refine .inl (Eq.trans ?_ ih)
          exact Function.update_of_ne hq ..
      | _ => exact .inl ih
    · exact .inr ih

theorem hcSteps_psen (h : ReflTransGen HcStep s s') : s'.psen = s.psen := by
  induction h with
  | refl => rfl
  | tail _ hstep ih =>
    refine Eq.trans ?_ ih
    cases hstep <;> rfl

theorem hcSteps_still (h : ReflTransGen HcStep s s') :
    s'.toLinks = s.toLinks ∧ s'.tdUtr = s.tdUtr ∧ s'.bell.serving = s.bell.serving := by
  induction h with
  | refl => exact ⟨rfl, rfl, rfl⟩
  | tail _ hstep ih =>
    obtain ⟨hl, hu, hs⟩ := ih
    refine ⟨hstep.toLinks_eq.trans hl, Eq.trans ?_ hu, hstep.serving_eq.trans hs⟩
    cases hstep <;> rfl

theorem quitCount_bell (he : QuietEnv env) : (quitCount env u s).bell = s.bell ∧
    (quitCount env u s).token = s.token ∧ (quitCount env u s).psen = s.psen := by
  unfold quitCount complete
  dsimp only
  split
  · rw [he.func, ite_self]
    exact ⟨rfl, rfl, rfl⟩
  · exact ⟨rfl, rfl, rfl⟩

/-- One pass of the loop: the request of the iTD counts it, and the iTD is freed. -/
theorem quitItd_ok (he : QuietEnv env) (hnq : ¬ M.noQuit)
    (hd : Idle M none (ahead x (some t) s) v) (hx : x ∈ v.isoEps) (hu : s.tdUtr .itd t = some u)
    (hm : (env.hc s).unlinkFromFrame .itd t = some m) :
    ∃ v', Idle M none (ahead x (s.tdNext .itd t)
        ((quitCount env u ((env.hc s).setLinks m)).free .itd t)) v' ∧
      QuitKeeps x s v ((quitCount env u ((env.hc s).setLinks m)).free .itd t) v' := by
  obtain ⟨hl, hut, hsv⟩ := hcSteps_still (he.hc s)
  obtain ⟨hd₁, -⟩ := hd.hcSteps (hcSteps_ahead (he.hc s) x (some t))
  obtain ⟨home, hg⟩ := hd₁.good
  have hs := hg.inv.shape
  have hp := hs.tds .itd x hx
  have hhead : (ahead x (some t) (env.hc s)).tdList .itd x = some t :=
    Links.setTd_self (env.hc s).tdList .itd x (some t)
  rw [hhead] at hp
  cases hlist : v.tds .itd x with
  | nil => rw [hlist] at hp; cases hp
  | cons b l =>
    rw [hlist] at hp
    obtain rfl : t = b := Option.some.inj hp.1
    have ht : t ∈ v.tds .itd x := by rw [hlist]; exact List.mem_cons_self
    have hu₁ : (ahead x (some t) (env.hc s)).tdUtr .itd t = some u :=
      (congrFun (congrFun hut .itd) t).trans hu
    -- the request counts the iTD, and its callback does nothing
    obtain ⟨home', s₂, hg₂, hx₂, hl₂, hs₂⟩ := ((hg.inv.heat ht hu₁).dropSlots hnq).countDownCall
      (k := .itd) (x := x) hg.tidy env fun ho => by
        obtain ⟨w, hw, hhome⟩ := (hg.inv.acct ho).tds.carried .itd x t ht (fun h => by cases h)
        obtain rfl := Option.some.inj (hu₁.symm.trans hw)
        exact hhome
    rw [he.func, or_self] at hs₂
    subst hs₂
    obtain ⟨f, hf⟩ : ∃ f, (quitCount env u (env.hc s)).setLinks
        (aheadLinks x (some t) (env.hc s).toLinks) =
        { countDown env u (ahead x (some t) (env.hc s)) with utr := f } := by
      rw [← quitCount_setLinks he]
      exact quitCount_countDown
    have hd₂ : Idle M (some t) ((quitCount env u (env.hc s)).setLinks
        (aheadLinks x (some t) (env.hc s).toLinks)) v := by
      rw [hf]
      exact ⟨⟨home', hg₂.inv.scratch .., hg₂.tidy⟩, by
        show Stale (countDown env u (ahead x (some t) (env.hc s))).toLinks v
        rw [hl₂]
        exact hd₁.stale, hd₁.held⟩
    obtain ⟨m₁, hm₁, hd₃, hl₃, hnext⟩ := hd₂.dropTd (show _ = [] ++ t :: l from hlist)
    -- the iTD leaves its frame and the list, which the loop leaves unsaid
    have hm₁' : m₁ = aheadLinks x (some t) m := by
      have h : (aheadLinks x (some t) (env.hc s).toLinks).unlinkFromFrame .itd t = some m₁ := hm₁
      rw [unlinkFromFrame_ahead, hm] at h
      exact (Option.some.inj h).symm
    subst hm₁'
    have hnx : m.tdNext .itd t = s.tdNext .itd t := by
      have h₁ : m.tdNext .itd t = l.head? := hnext
      have h₂ : (env.hc s).tdNext .itd t = l.head? := by
        have hp₂ := hp.2
        cases l with
        | nil => exact hp₂
        | cons c l => exact hp₂.1
      rw [h₁, ← h₂, hl]
    have hun : unlinkFromIsoEp .itd x t none (aheadLinks x (some t) m) =
        aheadLinks x (s.tdNext .itd t) m := by
      unfold unlinkFromIsoEp aheadLinks
      dsimp only
      rw [hnx]
      congr 1
      unfold Links.setTd
      rw [Function.update_self, Function.update_idem, Function.update_idem]
    rw [show ([] : List Addr).getLast? = none from rfl, hun] at hd₃
    refine ⟨(v.takeTd .itd x t ((env.hc s).schedFrnidx .itd t)).become t .free, ?_, ?_⟩
    · rw [quitCount_setLinks he]
      exact hd₃.relog (show _ = Event.free .itd t (aheadLinks x (s.tdNext .itd t) m) _ :: _ from rfl)
        fun ⟨hunit, hno⟩ => ⟨hunit, fun h => hno ((onLists_ahead (s.tdNext .itd t)).mpr h)⟩
    · obtain ⟨hb, htok, hps⟩ := quitCount_bell (u := u) (s := (env.hc s).setLinks m) he
      refine ⟨rfl, rfl, rfl, fun k y hky => Links.setTd_of_ne hky, rfl, ?_, ?_, ?_, ?_⟩
      · show ∀ q, (quitCount env u ((env.hc s).setLinks m)).token q = _ ∨ _
        rw [htok]
        exact fun q => hcSteps_token (he.hc s) q
      · have hps' : (env.hc s).psen = s.psen := hcSteps_psen (he.hc s)
        exact hps.trans hps'
      · show (quitCount env u ((env.hc s).setLinks m)).bell.serving = _
        rw [hb]
        exact hsv
      · show (quitCount env u ((env.hc s).setLinks m)).isoEpEp = _
        rw [quitCount_setLinks he]
        have hme : m.isoEpEp = (env.hc s).isoEpEp := by rw [unlinkFromFrame_eq hm]
        exact hme.trans (congrArg (·.isoEpEp) hl)

theorem QuitKeeps.refl (x : IsoId) (s : Ehci) (v : View) : QuitKeeps x s v s v where
  isoEps := rfl
  under := rfl
  queued := rfl
  tds _ _ _ := rfl
  orphans := rfl
  token _ := .inl rfl
  psen := rfl
  serving := rfl
  isoEpEp := rfl

theorem QuitKeeps.trans (h : QuitKeeps x s v s₁ v₁) (h' : QuitKeeps x s₁ v₁ s₂ v₂) :
    QuitKeeps x s v s₂ v₂ where
  isoEps := h'.isoEps.trans h.isoEps
  under := h'.under.trans h.under
  queued := h'.queued.trans h.queued
  tds k y hky := (h'.tds k y hky).trans (h.tds k y hky)
  orphans := h'.orphans.trans h.orphans
  token q := by
    rcases h.token q with hq | hq
    · rw [← hq]; exact h'.token q
    · exact .inr hq
  psen := h'.psen.trans h.psen
  serving := h'.serving.trans h.serving
  isoEpEp := h'.isoEpEp.trans h.isoEpEp

theorem quitItds_ok {cur : Ptr} (he : QuietEnv env) (hnq : ¬ M.noQuit)
    (hd : Idle M none (ahead x cur s) v) (hx : x ∈ v.isoEps)
    (h : quitItds env n cur s = some s') :
    ∃ v', Idle M none (ahead x none s') v' ∧ QuitKeeps x s v s' v' := by
  induction n generalizing cur s v with
  | zero => cases h
  | succ n ih =>
    cases cur with
    | none =>
      obtain rfl := Option.some.inj h
      exact ⟨v, hd, .refl x s v⟩
    | some t =>
      obtain ⟨u, hu, hrest⟩ := Option.bind_eq_some_iff.mp (show Option.bind _ _ = _ from h)
      dsimp only at hrest
      split at hrest
      · cases hrest
      obtain ⟨m, hm, hloop⟩ := Option.bind_eq_some_iff.mp (show Option.bind _ _ = _ from hrest)
      obtain ⟨v₁, hd₁, hk₁⟩ := quitItd_ok he hnq hd hx hu hm
      obtain ⟨v', hd', hk'⟩ := ih hd₁ (by rw [hk₁.isoEps]; exact hx) hloop
      exact ⟨v', hd', hk₁.trans hk'⟩

/-! ## The endpoint goes -/

theorem removeIsoEp_eq {m' : Links} (h : m.removeIsoEpFromList x = some m') :
    m' = { m with isoEpList := m'.isoEpList, isoEpNext := m'.isoEpNext } := by
  unfold Links.removeIsoEpFromList at h
  split at h
  · rw [← Option.some.inj h]
  · obtain ⟨p, -, h⟩ := Option.bind_eq_some_iff.mp (show Option.bind _ _ = _ from h)
    obtain ⟨q, -, h⟩ := Option.bind_eq_some_iff.mp (show Option.bind _ _ = _ from h)
    split at h
    · rw [← Option.some.inj h]
    · rw [← Option.some.inj h]

theorem removeIsoEp_ahead (cur : Ptr) {y : IsoId} :
    (aheadLinks x cur m).removeIsoEpFromList y =
      (m.removeIsoEpFromList y).map (aheadLinks x cur) := by
  unfold Links.removeIsoEpFromList
  by_cases hf : m.isoEpList = some y
  · have hf' : (aheadLinks x cur m).isoEpList = some y := hf
    rw [if_pos hf, if_pos hf']
    rfl
  · have hf' : (aheadLinks x cur m).isoEpList ≠ some y := hf
    rw [if_neg hf, if_neg hf']
    show Option.bind m.isoEpList _ = Option.map _ (Option.bind m.isoEpList _)
    rw [Option.map_bind]
    refine congrArg _ (funext fun p => ?_)
    show Option.bind (predFrom m.isoEpNext (fun p => (m.isoEpNext p).isNone) y walkFuel p) _ =
      Option.map _ (Option.bind
        (predFrom m.isoEpNext (fun p => (m.isoEpNext p).isNone) y walkFuel p) _)
    rw [Option.map_bind]
    refine congrArg _ (funext fun q => ?_)
    cases q <;> rfl

theorem findIsoEp_some (hp : Path some m.isoEpNext cur l none) (h : findIsoEp m e n cur = some (some x)) :
    x ∈ l ∧ m.isoEpEp x = e := by
  induction n generalizing cur l with
  | zero => cases h
  | succ n ih =>
    cases l with
    | nil =>
      obtain rfl : cur = none := hp
      cases h
    | cons y l =>
      obtain rfl : cur = some y := hp.1
      rw [findIsoEp] at h
      split at h
      · rename_i he
        obtain rfl := Option.some.inj (Option.some.inj h)
        exact ⟨List.mem_cons_self, he⟩
      · obtain ⟨hm, he⟩ := ih hp.2 h
        exact ⟨List.mem_cons_of_mem _ hm, he⟩

/-- The requests of the endpoint `x` have no home any more. -/
def leaveIso (home : UtrId → Home) (x : IsoId) (u : UtrId) : Home :=
  if home u = .iso .itd x ∨ home u = .iso .sitd x then .none else home u

theorem leaveIso_qh : leaveIso home x u = .qh b ↔ home u = .qh b := by
  unfold leaveIso
  split
  · rename_i h
    constructor
    · intro h'; cases h'
    · intro h'; rw [h'] at h; rcases h with h | h <;> cases h
  · exact Iff.rfl

theorem leaveIso_iso {k : IsoKind} {y : IsoId} :
    leaveIso home x u = .iso k y ↔ home u = .iso k y ∧ y ≠ x := by
  unfold leaveIso
  split
  · rename_i h
    constructor
    · intro h'; cases h'
    · rintro ⟨h', hne⟩
      rw [h'] at h
      rcases h with h | h
      · exact absurd (Home.iso.inj h).2 hne
      · exact absurd (Home.iso.inj h).2 hne
  · rename_i h
    refine ⟨fun h' => ⟨h', ?_⟩, And.left⟩
    rintro rfl
    cases k
    · exact h (.inl h')
    · exact h (.inr h')

/-- The endpoint is dropped once its iTDs are gone. -/
theorem Inv.dropIso (hi : Inv M.relaxed (fun _ => []) none home s v) (hnq : ¬ M.noQuit)
    (hx : x ∈ v.isoEps) (hnil : v.tds .itd x = []) {m : Links} (hs : Shape m (v.dropIso x)) :
    Inv M.relaxed (fun _ => []) none (leaveIso home x) (s.setLinks m) (v.dropIso x) where
  shape := hs
  frees := hi.frees
  acct ho := by
    have ha := hi.acct ho
    have htds : ∀ k y, y ≠ x → (v.dropIso x).tds k y = v.tds k y := fun k y hy =>
      Links.setTd_of_ne fun h => hy h.2
    have hmine : ∀ k y w, y ≠ x → mine (s.setLinks m) (v.dropIso x) none k y w = mine s v none k y w :=
      fun k y w hy => mine_congr (htds k y hy) fun _ _ => rfl
    have hempty : ∀ k, (v.dropIso x).tds k x = [] := by
      intro k
      cases k with
      | itd =>
        have h : Links.setTd v.tds .sitd x [] .itd x = v.tds .itd x :=
          Links.setTd_of_ne fun h => by cases h.1
        exact h.trans hnil
      | sitd => exact Links.setTd_self v.tds .sitd x []
    refine ⟨⟨fun h q hq => ?_, ha.qtds.same⟩, ⟨fun k y t ht hh => ?_, fun w k y he => ?_,
      fun w k y he => ?_, fun h => absurd h hnq, fun h => absurd h hnq,
      fun h => absurd h hnq⟩, ⟨ha.record.alternates, ha.record.slotsOk,
      fun w hw => ha.record.pending w ?_, fun h => absurd h hnq⟩⟩
    · obtain ⟨w, hw, he⟩ := ha.qtds.carried h q hq
      exact ⟨w, hw, leaveIso_qh.mpr he⟩
    · have hy : y ≠ x := by
        rintro rfl
        rw [hempty] at ht
        cases ht
      rw [htds k y hy] at ht
      obtain ⟨w, hw, he⟩ := ha.tds.carried k y t ht hh
      exact ⟨w, hw, leaveIso_iso.mpr ⟨he, hy⟩⟩
    · obtain ⟨he, hy⟩ := leaveIso_iso.mp he
      rw [hmine k y w hy]
      exact ha.tds.cnt w k y he
    · obtain ⟨he, hy⟩ := leaveIso_iso.mp he
      rw [hmine k y w hy]
      exact ha.tds.pos w k y he
    · intro h0
      apply hw
      unfold leaveIso
      rw [h0, ite_self]
  bells hd a hg := by
    refine hi.bells hd a ?_
    have hrole : (v.dropIso x).role a = if v.role a = .td .sitd x then .orphan else v.role a := rfl
    unfold Gone at hg ⊢
    rw [hrole] at hg
    split at hg
    · rcases hg with hg | ⟨b, hg⟩ <;> cases hg
    · exact hg
  answered := hi.answered
  psen h := h.elim
  hotTd t ht := by cases ht

theorem role_dropIso {r : Role} (hr : r ≠ .orphan) (ht : r ≠ .td .sitd x) :
    (v.dropIso x).role a = r ↔ v.role a = r := by
  have hrole : (v.dropIso x).role a = if v.role a = .td .sitd x then .orphan else v.role a := rfl
  rw [hrole]
  split
  · rename_i h
    rw [h]
    exact ⟨fun h' => absurd h'.symm hr, fun h' => absurd h'.symm ht⟩
  · exact Iff.rfl

theorem asyncClass_dropIso : AsyncClass m (v.dropIso x) a ↔ AsyncClass m v a := by
  unfold AsyncClass
  rw [role_dropIso Role.noConfusion Role.noConfusion, role_dropIso Role.noConfusion Role.noConfusion,
    role_dropIso Role.noConfusion Role.noConfusion]

theorem intClass_dropIso : IntClass m (v.dropIso x) a ↔ IntClass m v a := by
  have h₁ : ∀ i, (v.dropIso x).role a = .iqh i ↔ v.role a = .iqh i := fun i =>
    role_dropIso Role.noConfusion Role.noConfusion
  have h₂ : ∀ i, (v.dropIso x).role a = .intr i ↔ v.role a = .intr i := fun i =>
    role_dropIso Role.noConfusion Role.noConfusion
  have h₃ : (v.dropIso x).role a = .removed ↔ v.role a = .removed :=
    role_dropIso Role.noConfusion Role.noConfusion
  unfold IntClass
  simp only [h₁, h₂, h₃]

theorem Tidy.dropIso (ht : Tidy m v) (hs : Shape m v) (hx : x ∈ v.isoEps) (d : DmaPool)
    {l : Option IsoId} {f : IsoId → Option IsoId} :
    Tidy { m with
      dma := d, isoEpList := l, isoEpNext := f
      hwPipe := Function.update m.hwPipe (m.isoEpEp x) .null } (v.dropIso x) := by
  have hpx : m.hwPipe (m.isoEpEp x) = .isoEp x := (ht.pipeIso _ x).mpr ⟨hx, rfl⟩
  have hpipe : ∀ {e p}, p ≠ HwPipe.null →
      (Function.update m.hwPipe (m.isoEpEp x) .null e = p ↔ e ≠ m.isoEpEp x ∧ m.hwPipe e = p) := by
    intro e p hp
    by_cases he : e = m.isoEpEp x
    · rw [he, Function.update_self]
      exact ⟨fun h => absurd h.symm hp, fun h => absurd rfl h.1⟩
    · rw [Function.update_of_ne he]
      exact ⟨fun h => ⟨he, h⟩, And.right⟩
  have hnd := hs.isoEps_nodup
  exact
    { pipeQh := fun e q h => ht.pipeQh e q ((hpipe HwPipe.noConfusion).mp h).2
      pipeInj := fun e e' q h h' => ht.pipeInj e e' q ((hpipe HwPipe.noConfusion).mp h).2
        ((hpipe HwPipe.noConfusion).mp h').2
      ringPipe := fun q hq => by
        obtain ⟨e, he⟩ := ht.ringPipe q hq
        refine ⟨e, (hpipe HwPipe.noConfusion).mpr ⟨?_, he⟩⟩
        rintro rfl
        rw [hpx] at he
        cases he
      pipeIso := fun e y => by
        refine (hpipe HwPipe.noConfusion).trans ?_
        rw [ht.pipeIso, show (v.dropIso x).isoEps = v.isoEps.erase x from rfl, hnd.mem_erase_iff]
        constructor
        · rintro ⟨hne, hy, rfl⟩
          exact ⟨⟨fun h => hne (by rw [h]), hy⟩, rfl⟩
        · rintro ⟨⟨hne, hy⟩, rfl⟩
          refine ⟨fun h => hne ?_, hy, rfl⟩
          have hpy := (ht.pipeIso (m.isoEpEp x) y).mpr ⟨hy, h⟩
          rw [hpx] at hpy
          exact (HwPipe.isoEp.inj hpy).symm
      pipeEd := fun e b h => ht.pipeEd e b ((hpipe HwPipe.noConfusion).mp h).2
      isoType := fun y hy => ht.isoType y (List.mem_of_mem_erase hy)
      ep0 := ht.ep0
      single := fun b hb => ht.single b (intClass_dropIso.mp hb) }

theorem Stale.dropIso (hst : Stale m v) (d : DmaPool) (p : EpId → HwPipe) {l : Option IsoId}
    {f : IsoId → Option IsoId} :
    Stale { m with dma := d, isoEpList := l, isoEpNext := f, hwPipe := p } (v.dropIso x) where
  async b hb hn := by
    obtain ⟨c, hc, hcl⟩ := hst.async b hb hn
    exact ⟨c, hc, asyncClass_dropIso.mpr hcl⟩
  intr b hb hn := (hst.intr b hb hn).imp_right fun ⟨c, hc, hcl⟩ => ⟨c, hc, intClass_dropIso.mpr hcl⟩

/-! ## The call -/

/-- No interrupt QH has an active qTD. -/
def IntIdle (s : Ehci) : Prop :=
  ∀ h, Reach (hNext s.toLinks) (some (s.iqh (numIqh - 1))) h → (∀ i < numIqh, h ≠ s.iqh i) →
    ∀ q, Reach s.qtdNext (s.qtdList h) q → s.token q &&& qtdStsActive = 0

/-- No siTD is in the frame list. -/
def NoSitd (s : Ehci) : Prop :=
  ∀ idx < flSize, ∀ t, Reach (hNext s.toLinks) (s.pfList idx).ptr t → s.pool.unit t ≠ some .sitd

/-- A quit of the only isochronous endpoint finds no other use of the periodic schedule. -/
def QuitSpares (s : Ehci) (utr : Option UtrId) (ep : Option EpId) : Prop :=
  ∀ x, quitTarget s utr ep = some (s.isoEpEp x) → s.isoEpList = some x → s.isoEpNext x = none →
    IntIdle s ∧ NoSitd s

theorem IntIdle.view (h : IntIdle s) (hs : Shape s.toLinks v) :
    ∀ i, ∀ b ∈ v.under i, ∀ q ∈ v.queued b, s.token q &&& qtdStsActive = 0 := by
  intro i b hb q hq
  have hunit := hs.unit_of_role (hs.role_intr hb) rfl
  refine h b (hs.reach_chain.mpr (mem_chainFrom.mpr ⟨i, hs.intrLt i b hb, .inr hb⟩)) ?_ q
    ((Path.reach_iff (hs.queued b hunit)).mpr hq)
  rintro j hj rfl
  have hr := hs.role_intr hb
  rw [hs.role_iqh hj] at hr
  cases hr

theorem NoSitd.view (h : NoSitd s) (hs : Shape s.toLinks v) :
    (∀ y, v.tds .sitd y = []) ∧ v.orphans = [] := by
  have hframe : ∀ t, t ∈ v.frame (s.schedFrnidx .sitd t) → s.schedFrnidx .sitd t < flSize →
      s.pool.unit t ≠ some .sitd := fun t ht hlt =>
    h _ hlt t ((hs.reach_frame hlt).mpr (List.mem_append_left _ ht))
  refine ⟨fun y => List.eq_nil_iff_forall_not_mem.mpr fun t ht => ?_,
    List.eq_nil_iff_forall_not_mem.mpr fun t ht => ?_⟩
  · have hlt := hs.schedLt .sitd y t ht
    exact hframe t (hs.mem_frame_of_td ht) hlt (hs.unit_of_role (hs.role_td ht) rfl)
  · have hlt := hs.orphanLt t ht
    exact hframe t ((hs.frameMem _ hlt t).mpr (.inr ⟨ht, rfl⟩)) hlt
      (hs.unit_of_role (hs.role_orphan ht) rfl)

theorem Inv.psenOff (hi : Inv M.relaxed hand hot home s v) :
    Inv M.relaxed hand hot home { s with psen := false } v where
  shape := hi.shape
  frees := hi.frees
  acct ho := by
    have ha := hi.acct ho
    exact ⟨ha.qtds, ha.tds.congr rfl rfl (fun _ _ _ _ => rfl) (fun _ _ _ _ _ => ⟨rfl, rfl⟩)
      (fun _ _ _ _ => rfl) (fun k _ _ _ => by cases k <;> rfl) fun _ => rfl, ha.record⟩
  bells := hi.bells
  answered := hi.answered
  psen h := h.elim
  hotTd := hi.hotTd

/-- Quitting the endpoint of `x`. -/
def quitIsoEp (env : Env) (e : EpId) (x : IsoId) (s : Ehci) : Option Ehci :=
  (quitItds env walkFuel (s.tdList .itd x) s).bind fun s =>
    (s.removeIsoEpFromList x).map fun m =>
      let s := s.setLinks { m with
        dma := m.dma.usbhFreeMem x isoEpSize
        hwPipe := Function.update m.hwPipe e .null }
      if s.isoEpList = none then { s with psen := false } else s

theorem quitIsoEp_ok (he : QuietEnv env) (hnq : ¬ M.noQuit) (hd : Idle M none s v)
    (hx : x ∈ v.isoEps) (hp : M.psenKept → v.isoEps = [x] → IntIdle s ∧ NoSitd s)
    (h : quitIsoEp env (s.isoEpEp x) x s = some s') :
    ∃ v', Idle M none s' v' ∧ s'.bell.serving = s.bell.serving := by
  obtain ⟨s₁, hloop, hrest⟩ := Option.bind_eq_some_iff.mp h
  obtain ⟨m, hm, hs'⟩ := Option.map_eq_some_iff.mp hrest
  have hahead : ahead x (s.tdList .itd x) s = s := by
    have : Links.setTd s.tdList .itd x (s.tdList .itd x) = s.tdList := by
      unfold Links.setTd
      rw [Function.update_eq_self, Function.update_eq_self]
    unfold ahead aheadLinks
    rw [this]
    rfl
  obtain ⟨v₁, hd₁, hk⟩ := quitItds_ok he hnq (by rw [hahead]; exact hd) hx hloop
  obtain ⟨home, hg⟩ := hd₁.good
  have hs₁ := hg.inv.shape
  have hx₁ : x ∈ v₁.isoEps := by rw [hk.isoEps]; exact hx
  have hnil : v₁.tds .itd x = [] := by
    have hpath := hs₁.tds .itd x hx₁
    have hhead : (ahead x none s₁).tdList .itd x = none := Links.setTd_self s₁.tdList .itd x none
    rw [hhead] at hpath
    cases hl : v₁.tds .itd x with
    | nil => rfl
    | cons b l => rw [hl] at hpath; cases hpath.1
  have heq := removeIsoEp_eq hm
  have hfree : ∀ y, y ≠ x → (s₁.dma.usbhFreeMem x isoEpSize).used y = s₁.dma.used y := fun y hy =>
    DmaPool.usbhFreeMem_one (by decide) hy
  obtain ⟨m', hm', -, hlast, hsh⟩ := hs₁.dropIso hx₁ hnil
    (Function.update s₁.hwPipe (s.isoEpEp x) .null) hfree (f := s₁.tdList) fun j y hy =>
      (Links.setTd_of_ne fun h => hy h.2).symm
  obtain rfl : m' = aheadLinks x none m := by
    have h' : (aheadLinks x none s₁.toLinks).removeIsoEpFromList x = some m' := hm'
    rw [removeIsoEp_ahead, hm] at h'
    exact (Option.some.inj h').symm
  -- the links and the invariant without the endpoint
  have hml : ({ m with
      dma := m.dma.usbhFreeMem x isoEpSize
      hwPipe := Function.update m.hwPipe (s.isoEpEp x) .null } : Links) =
      { s₁.toLinks with
        dma := s₁.dma.usbhFreeMem x isoEpSize, isoEpList := m.isoEpList, isoEpNext := m.isoEpNext
        hwPipe := Function.update s₁.hwPipe (s.isoEpEp x) .null } := by
    rw [heq]
  have hsh₂ : Shape { s₁.toLinks with
      dma := s₁.dma.usbhFreeMem x isoEpSize, isoEpList := m.isoEpList, isoEpNext := m.isoEpNext
      hwPipe := Function.update s₁.hwPipe (s.isoEpEp x) .null } (v₁.dropIso x) := by
    rw [heq] at hsh
    exact hsh
  have hi₂ := hg.inv.relax.dropIso hnq hx₁ hnil hsh₂
  have htidy := hg.tidy.dropIso hs₁ hx₁ (s₁.dma.usbhFreeMem x isoEpSize) (l := m.isoEpList)
    (f := m.isoEpNext)
  have hst := hd₁.stale.dropIso (x := x) (s₁.dma.usbhFreeMem x isoEpSize)
    (Function.update s₁.hwPipe (s.isoEpEp x) .null) (l := m.isoEpList) (f := m.isoEpNext)
  have hep : (ahead x none s₁).isoEpEp x = s.isoEpEp x := congrFun hk.isoEpEp x
  rw [hep] at htidy
  have hheld : ∀ a k, (v₁.dropIso x).role a ≠ .held k := fun a k h =>
    hd₁.held a k ((role_dropIso Role.noConfusion Role.noConfusion).mp h)
  dsimp only at hs'
  rw [hml] at hs'
  split at hs'
  · rename_i hnone
    rw [← hs']
    refine ⟨v₁.dropIso x, ⟨⟨leaveIso home x, ?_, { htidy with }⟩, { hst with }, hheld⟩, hk.serving⟩
    have hi₃ : Inv M.relaxed (fun _ => []) none (leaveIso home x)
        { s₁.setLinks { s₁.toLinks with
            dma := s₁.dma.usbhFreeMem x isoEpSize, isoEpList := m.isoEpList, isoEpNext := m.isoEpNext
            hwPipe := Function.update s₁.hwPipe (s.isoEpEp x) .null } with psen := false }
        (v₁.dropIso x) := hi₂.psenOff
    refine hi₃.tighten fun hpk => .inr ?_
    have honly : v.isoEps = [x] := by
      have he : v₁.isoEps.erase x = [] := hlast.mp hnone
      rw [hk.isoEps] at he
      cases hl : v.isoEps with
      | nil => rw [hl] at hx; cases hx
      | cons y l =>
        rw [hl, List.erase_cons] at he
        split at he
        · rename_i hy
          rw [he, eq_of_beq hy]
        · cases he
    obtain ⟨hint, hsitd⟩ := hp hpk honly
    obtain ⟨hnos, hnoo⟩ := hsitd.view hd.shape
    refine ⟨fun i b hb q hq => ?_, fun idx hi => List.eq_nil_iff_forall_not_mem.mpr fun t ht => ?_⟩
    · have hb' : b ∈ v.under i := by rw [← hk.under]; exact hb
      have hq' : q ∈ v.queued b := by rw [← hk.queued]; exact hq
      have hz := hint.view hd.shape i b hb' q hq'
      show s₁.token q &&& qtdStsActive = 0
      rcases hk.token q with he | he
      · rw [he]; exact hz
      · exact absurd hz he
    · have hall : ∀ k y, v₁.tds k y = [] := by
        intro k y
        by_cases hy : y = x
        · subst hy
          cases k with
          | itd => exact hnil
          | sitd => rw [hk.tds .sitd y fun h => by cases h.1]; exact hnos y
        · refine hs₁.tds_eq_nil fun hm => hy ?_
          rw [hk.isoEps, honly] at hm
          exact List.mem_singleton.mp hm
      rcases (hs₁.frameMem idx hi t).mp ht with ⟨k, y, hm, -⟩ | ⟨hm, -⟩
      · rw [hall] at hm; cases hm
      · rw [hk.orphans, hnoo] at hm; cases hm
  · rw [← hs']
    refine ⟨v₁.dropIso x, ⟨⟨leaveIso home x, hi₂.tighten fun hpk => ?_, { htidy with }⟩,
      { hst with }, hheld⟩, hk.serving⟩
    exact (hg.inv.psen hpk).congr rfl (fun _ _ h => h) (fun _ _ h => h) (fun _ _ _ => rfl)
      fun _ _ h => h

theorem ehciQuitIsoXfer_iso {utr : Option UtrId} {ep : Option EpId} {r : Int}
    (ht : quitTarget s utr ep = some e) (hiso : isIso s e)
    (h : ehciQuitIsoXfer env utr ep s = some (r, s')) :
    r = 0 ∧ ((findIsoEp s.toLinks e walkFuel s.isoEpList = some none ∧ s' = s) ∨
      ∃ x, findIsoEp s.toLinks e walkFuel s.isoEpList = some (some x) ∧
        quitIsoEp env e x s = some s') := by
  unfold ehciQuitIsoXfer at h
  rw [show ep.or (utr.bind s.utrEp) = some e from ht] at h
  dsimp only at h
  rw [if_neg (fun hne => hne hiso)] at h
  obtain ⟨w, hw, hrest⟩ := Option.bind_eq_some_iff.mp (show Option.bind _ _ = _ from h)
  cases w with
  | none =>
    obtain ⟨rfl, rfl⟩ := Prod.mk.inj (Option.some.inj hrest)
    exact ⟨rfl, .inl ⟨hw, rfl⟩⟩
  | some x =>
    obtain ⟨s₁, hloop, hrest⟩ := Option.bind_eq_some_iff.mp (show Option.bind _ _ = _ from hrest)
    obtain ⟨m, hm, hrest⟩ := Option.bind_eq_some_iff.mp (show Option.bind _ _ = _ from hrest)
    obtain ⟨rfl, rfl⟩ := Prod.mk.inj (Option.some.inj hrest)
    refine ⟨rfl, .inr ⟨x, hw, ?_⟩⟩
    unfold quitIsoEp
    rw [hloop]
    show Option.map _ (s₁.removeIsoEpFromList x) = _
    rw [hm]
    rfl

theorem Idle.quitXfer {utr : Option UtrId} {ep : Option EpId} {r : Int} (he : QuietEnv env)
    (hnq : ¬ M.noQuit) (hd : Idle M none s v) (hps : M.psenKept → QuitSpares s utr ep)
    (h : ehciQuitXfer env utr ep s = some (r, s')) :
    ∃ v', Idle M none s' v' ∧ s'.bell.serving = s.bell.serving := by
  by_cases ht : ∀ e, quitTarget s utr ep = some e → ¬ isIso s e
  · have h' : ehciQuitXfer idleEnv utr ep s = some (r, s') := by
      rw [← h]
      unfold ehciQuitXfer
      rw [ehciQuitIsoXfer_other env ht, ehciQuitIsoXfer_other idleEnv ht]
    obtain ⟨home, hg⟩ := hd.good
    obtain ⟨v', hd', hx'⟩ := (hg.quit ht h').idle hd.stale hd.held
    exact ⟨v', hd', hx'.serving⟩
  · push Not at ht
    obtain ⟨e, hte, hiso⟩ := ht
    obtain ⟨⟨r₁, s₁⟩, hq, hrest⟩ := Option.bind_eq_some_iff.mp (show Option.bind _ _ = _ from h)
    obtain ⟨rfl, hcase⟩ := ehciQuitIsoXfer_iso hte hiso hq
    obtain rfl : s₁ = s' := by
      have : some ((0 : Int), s₁) = some (r, s') := hrest
      exact (Prod.mk.inj (Option.some.inj this)).2
    rcases hcase with ⟨-, rfl⟩ | ⟨x, hfind, hquit⟩
    · exact ⟨v, hd, rfl⟩
    · have hs := hd.shape
      obtain ⟨hx, rfl⟩ := findIsoEp_some hs.isoEps hfind
      refine quitIsoEp_ok he hnq hd hx (fun hpk honly => ?_) hquit
      have hpath := hs.isoEps
      rw [honly] at hpath
      exact hps hpk x hte hpath.1 hpath.2

end Ma35d1.UsbHost.Ehci
