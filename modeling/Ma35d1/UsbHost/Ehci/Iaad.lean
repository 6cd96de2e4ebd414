import Ma35d1.UsbHost.Ehci.Scan

/-!
# The answer to a doorbell

`iaad_remove_qh` frees the done lists and the removed QHs, and completes what was
still queued on them. A removed QH is held while its request is aborted: the
callback may call the driver, but no call leads to that QH any more.
-/

namespace Ma35d1.UsbHost.Ehci

open Heap.LinkedPath

variable {M : Mode} {hand : UtrId → List (List Nat)} {hot : Ptr} {home : UtrId → Home}
  {s s' s₁ s₂ : Ehci} {v v' v₁ v₂ : View} {a b h qh t : Addr} {u : UtrId} {env : Env} {n : Nat}

/-! ## Freeing the qTDs of a QH -/

/-- qTDs of `qh` became free; the record only grew, and no QH lost its stamp. -/
structure Drained (qh : Addr) (s : Ehci) (v : View) (s' : Ehci) (v' : View) : Prop
    extends Reclaimed qh s v s' v' where
  trace : ∀ e ∈ s.trace, e ∈ s'.trace
  stamp : ∀ a, v.role a = .held .qh → Stamped s.bell a → Stamped s'.bell a
  unit : ∀ a, s.pool.unit a = some .qh → s'.pool.unit a = some .qh
  removed : s'.qhRemoveList = s.qhRemoveList

theorem Drained.refl (qh : Addr) (s : Ehci) (v : View) : Drained qh s v s v where
  toReclaimed := .of_links rfl rfl
  trace _ h := h
  stamp _ _ h := h
  unit _ h := h
  removed := rfl

theorem Drained.trans (h : Drained qh s v s₁ v₁) (h' : Drained qh s₁ v₁ s₂ v₂) :
    Drained qh s v s₂ v₂ where
  toReclaimed := h.toReclaimed.trans h'.toReclaimed
  trace e he := h'.trace e (h.trace e he)
  stamp a ha hst := h'.stamp a
    ((h.role_iff Role.noConfusion Role.noConfusion Role.noConfusion).mpr ha) (h.stamp a ha hst)
  unit a ha := h'.unit a (h.unit a ha)
  removed := h'.removed.trans h.removed

theorem free_unit_ne (hne : a ≠ t) (k : HwKind) : (s.free k t).pool.unit a = s.pool.unit a := by
  show (s.pool.free k t).unit a = _
  unfold HwPool.free
  split
  · exact Function.update_of_ne hne ..
  · rfl

/-- What one free leaves in place. -/
theorem drained_one (hs : Shape s.toLinks v) {m : Links} {f : Addr → Option Nat}
    (hl : m = { s.toLinks with qtdList := m.qtdList, doneList := m.doneList })
    (hr : v.role t = .queued qh ∨ v.role t = .done qh)
    (hrole : v'.role = Function.update v.role t .free)
    (hlists : v'.ring = v.ring ∧ v'.under = v.under ∧ v'.removed = v.removed ∧ v'.isoEps = v.isoEps)
    (hother : ∀ h, h ≠ qh → v'.queued h = v.queued h)
    (hlen : (v'.queued qh).length ≤ (v.queued qh).length)
    (hf : ∀ a, a ≠ t → f a = s.bell.stamp a) :
    Drained qh s v
      ({ s.setLinks m with bell := { s.bell with stamp := f } }.free .qtd t) v' where
  role a := by
    rw [hrole]
    by_cases hat : a = t
    · subst hat
      exact .inr ⟨hr, .inr (Function.update_self ..)⟩
    · exact .inl (Function.update_of_ne hat ..)
  lists := hlists
  other := hother
  length := hlen
  links := by
    show m.hLink = _ ∧ m.insertedUnder = _ ∧ m.hQh = _ ∧ m.iqh = _
    rw [hl]
    exact ⟨rfl, rfl, rfl, rfl⟩
  words := by
    show m.hwPipe = _ ∧ m.ep = _ ∧ m.isoEpEp = _
    rw [hl]
    exact ⟨rfl, rfl, rfl⟩
  serving := rfl
  trace _ he := List.mem_cons_of_mem _ he
  stamp a ha hst := by
    refine hst.congr ⟨f, rfl⟩ (hf a ?_)
    rintro rfl
    rw [ha] at hr
    rcases hr with hr | hr <;> cases hr
  unit a ha := by
    have hne : a ≠ t := by
      rintro rfl
      rcases hr with hr | hr
      · rw [hs.unit_of_role hr rfl] at ha; cases ha
      · rw [hs.unit_of_role hr rfl] at ha; cases ha
    rw [free_unit_ne hne]
    show m.pool.unit a = _
    rw [hl]
    exact ha
  removed := by
    show m.qhRemoveList = _
    rw [hl]

theorem freeDoneList_ok (hi : Inv M hand hot home s v) (hunit : s.pool.unit qh = some .qh)
    (hserv : M.handler → s.bell.serving ≠ none) (h : freeDoneList qh n s = some s') :
    ∃ v', Inv M hand hot home s' v' ∧ Drained qh s v s' v' ∧ v'.done qh = [] ∧
      v'.queued qh = v.queued qh := by
  induction n generalizing s v with
  | zero => cases h
  | succ n ih =>
    rw [freeDoneList] at h
    have hp := hi.shape.done qh hunit
    cases hd : v.done qh with
    | nil =>
      rw [hd] at hp
      rw [show s.doneList qh = none from hp] at h
      rw [← Option.some.inj h]
      exact ⟨v, hi, .refl .., hd, rfl⟩
    | cons t l =>
      rw [hd] at hp
      have hl : s.doneList qh = some t := hp.1
      rw [hl] at h
      have ht : t ∈ v.done qh := by rw [hd]; exact List.mem_cons_self
      have hi₁ := hi.freeDone ht hl hserv
      have hd₁ : Drained qh s v
          ((s.setLinks { s.toLinks with
            doneList := Function.update s.doneList qh (s.qtdNext t) }).free .qtd t)
          ((v.takeDone qh t).become t .free) := by
        refine drained_one hi.shape (m := { s.toLinks with
          doneList := Function.update s.doneList qh (s.qtdNext t) }) (f := s.bell.stamp)
          rfl (.inr (hi.shape.role_done ht)) (Function.update_idem ..) ⟨rfl, rfl, rfl, rfl⟩
          (fun _ _ => rfl) (Nat.le_refl _) (fun _ _ => rfl)
      obtain ⟨v', hi', hd', hnil, hq⟩ := ih hi₁ (hd₁.unit qh hunit)
        (fun hh => by rw [hd₁.serving]; exact hserv hh) h
      exact ⟨v', hi', hd₁.trans hd', hnil, hq⟩

theorem freeQtdList_ok (hi : Inv M hand hot home s v) (hr : v.role qh = .held .qh)
    (hserv : M.handler → s.bell.serving ≠ none)
    (hst : (∀ e ∈ s.trace, IdleDetach e) → Stamped s.bell qh)
    (h : freeQtdList qh n s = some s') :
    ∃ v', Inv M hand hot home s' v' ∧ Drained qh s v s' v' ∧ v'.queued qh = [] ∧
      v'.done qh = v.done qh := by
  induction n generalizing s v with
  | zero => cases h
  | succ n ih =>
    rw [freeQtdList] at h
    have hp := hi.shape.queued qh (hi.shape.unit_of_role hr rfl)
    cases hd : v.queued qh with
    | nil =>
      rw [hd] at hp
      rw [show s.qtdList qh = none from hp] at h
      rw [← Option.some.inj h]
      exact ⟨v, hi, .refl .., hd, rfl⟩
    | cons t l =>
      rw [hd] at hp
      have hl : s.qtdList qh = some t := hp.1
      rw [hl] at h
      have ht : t ∈ v.queued qh := by rw [hd]; exact List.mem_cons_self
      have hi₁ := hi.freeQueued ht hl hserv hst
      have hd₁ : Drained qh s v
          ((stampWithQh qh t (s.setLinks { s.toLinks with
            qtdList := Function.update s.qtdList qh (s.qtdNext t) })).free .qtd t)
          ((v.takeQueued qh t).become t .free) := by
        refine drained_one hi.shape (m := { s.toLinks with
          qtdList := Function.update s.qtdList qh (s.qtdNext t) })
          (f := Function.update s.bell.stamp t (s.bell.stamp qh))
          rfl (.inl (hi.shape.role_queued ht)) (Function.update_idem ..) ⟨rfl, rfl, rfl, rfl⟩
          (fun b hb => Function.update_of_ne hb ..) ?_ (fun b hb => Function.update_of_ne hb ..)
        show (Function.update v.queued qh ((v.queued qh).erase t) qh).length ≤ _
        rw [Function.update_self]
        exact List.length_erase_le
      have hr₁ := (hd₁.role_iff Role.noConfusion Role.noConfusion Role.noConfusion).mpr hr
      obtain ⟨v', hi', hd', hnil, hq⟩ := ih hi₁ hr₁
        (fun hh => by rw [hd₁.serving]; exact hserv hh)
        (fun hid => hd₁.stamp qh hr (hst fun e he => hid e (hd₁.trace e he))) h
      exact ⟨v', hi', hd₁.trans hd', hnil, hq⟩

/-! ## The removed QHs -/

/-- A QH taken off the remove list is on no list, and keeps what is queued on it. -/
theorem Good.takeRemoved (hg : Good M hot home s v) (hq : s.qhRemoveList = some qh) :
    Good M hot home (s.setLinks { s.toLinks with qhRemoveList := s.qhNext qh })
      (v.takeRemoved qh) := by
  refine ⟨hg.inv.popRemoved hq, { hg.tidy with single := fun b hb => hg.tidy.single b ?_ }⟩
  have hrole : ∀ {r : Role}, r ≠ .held .qh → (v.takeRemoved qh).role b = r → v.role b = r := by
    intro r hr hb
    have hb' : Function.update v.role qh (.held .qh) b = r := hb
    by_cases hbq : b = qh
    · subst hbq
      rw [Function.update_self] at hb'
      exact absurd hb'.symm hr
    · rwa [Function.update_of_ne hbq] at hb'
  rcases hb with ⟨i, hb⟩ | ⟨i, hb⟩ | ⟨hb, hn⟩
  · exact .inl ⟨i, hrole Role.noConfusion hb⟩
  · exact .inr (.inl ⟨i, hrole Role.noConfusion hb⟩)
  · exact .inr (.inr ⟨hrole Role.noConfusion hb, hn⟩)

/-- Aborting the request of a QH that is held. -/
theorem Good.abortQtds (hg : Good M hot home s v) (hh : HeldQh v) (he : EnvKeeps M env)
    (hr : v.role qh = .held .qh) (hserv : M.handler → s.bell.serving ≠ none)
    (hst : (∀ e ∈ s.trace, IdleDetach e) → Stamped s.bell qh) (hd : v.done qh = [])
    (h : abortQtds env qh s = some s') :
    ∃ v' home', Good M hot home' s' v' ∧ v'.queued qh = [] ∧ v'.done qh = [] ∧
      (∀ a k, v'.role a = .held k ↔ v.role a = .held k) ∧
      s'.bell.serving = s.bell.serving ∧ (∀ e ∈ s.trace, e ∈ s'.trace) ∧
      (Stamped s.bell qh → Stamped s'.bell qh) := by
  have hp := hg.inv.shape.queued qh (hg.inv.shape.unit_of_role hr rfl)
  unfold Ehci.abortQtds at h
  split at h
  · rename_i hnone
    rw [← Option.some.inj h]
    rw [hnone] at hp
    refine ⟨v, home, hg, ?_, hd, fun _ _ => Iff.rfl, rfl, fun _ he => he, id⟩
    cases hq : v.queued qh with
    | nil => rfl
    | cons b l => rw [hq] at hp; cases hp.1
  · rename_i qtd hqtd
    obtain ⟨s₁, hfree, h⟩ := Option.bind_eq_some_iff.mp (show Option.bind _ _ = _ from h)
    obtain ⟨u, hu, h⟩ := Option.bind_eq_some_iff.mp (show Option.bind _ _ = _ from h)
    obtain ⟨v₁, hi₁, hd₁, hnil, hdone⟩ := freeQtdList_ok hg.inv hr hserv hst hfree
    have hheld : ∀ a k, v₁.role a = .held k ↔ v.role a = .held k := fun a k =>
      hd₁.role_iff Role.noConfusion Role.noConfusion Role.noConfusion
    have hcarry : M.own = completed → home u = .qh qh := by
      intro ho
      have hm : qtd ∈ v.queued qh := by
        rw [hqtd] at hp
        cases hq : v.queued qh with
        | nil => rw [hq] at hp; cases hp
        | cons b l =>
          rw [hq] at hp
          rw [Option.some.inj hp.1]
          exact List.mem_cons_self
      obtain ⟨w, hw, hhome⟩ := (hg.inv.acct ho).qtds.carried qh qtd hm
      rw [hu] at hw
      rw [Option.some.inj hw]
      exact hhome
    have hi₂ : Inv M (fun _ => []) hot home (s₁.setUtr u ({ · with status := usbhErrAbort })) v₁ :=
      hi₁.scratch ..
    have hok := hi₂.complete (u := u) (hd₁.tidy hg.tidy) (fun a k ha => hh a k ((hheld a k).mp ha)) he
      (fun _ _ => rfl) rfl (fun ho => by
        have hhome := hcarry ho
        refine ⟨by rw [hhome]; exact Home.noConfusion, fun b hb => ?_, fun k x hx => ?_,
          fun hne => absurd rfl hne⟩
        · rw [hhome] at hb
          rw [← Home.qh.inj hb]
          exact hnil
        · rw [hhome] at hx
          cases hx) (s₁.tdCnt u)
    rw [show ({ s₁.setUtr u ({ · with status := usbhErrAbort }) with
        tdCnt := Function.update (s₁.setUtr u ({ · with status := usbhErrAbort })).tdCnt u
          (s₁.tdCnt u) } : Ehci) = s₁.setUtr u ({ · with status := usbhErrAbort }) by
      show ({ s₁.setUtr u ({ · with status := usbhErrAbort }) with
        tdCnt := Function.update s₁.tdCnt u (s₁.tdCnt u) } : Ehci) = _
      rw [Function.update_eq_self]
      rfl, Option.some.inj h] at hok
    obtain ⟨v₂, home₂, hg₂, hx₂, -⟩ := hok
    have hr₁ := (hheld qh .qh).mpr hr
    obtain ⟨hq₂, hd₂⟩ := hx₂.lists qh hr₁
    exact ⟨v₂, home₂, hg₂, hq₂.trans hnil, hd₂.trans (hdone.trans hd),
      fun a k => (hx₂.held a k).trans (hheld a k), hx₂.serving.trans hd₁.serving,
      fun e he => hx₂.trace e (hd₁.trace e he),
      fun hst => hx₂.stamp qh .qh hr₁ (hd₁.stamp qh hr hst)⟩

/-- A held QH with nothing left on it is freed. -/
theorem Good.freeQh (hg : Good M hot home s v) (hr : v.role qh = .held .qh)
    (hq : v.queued qh = [] ∧ v.done qh = []) (hserv : M.handler → s.bell.serving ≠ none)
    (hst : (∀ e ∈ s.trace, IdleDetach e) → Stamped s.bell qh) :
    Good M hot home (s.free .qh qh) (v.become qh .free) := by
  refine ⟨hg.inv.freeHeld hr (fun _ => hq) fun hh hd => answered_of_stamped (hserv hh) (hst hd),
    { hg.tidy with single := fun b hb => hg.tidy.single b ?_ }⟩
  have hrole : ∀ {r : Role}, r ≠ .free → (v.become qh .free).role b = r → v.role b = r := by
    intro r hne hb
    have hb' : Function.update v.role qh .free b = r := hb
    by_cases hbq : b = qh
    · rw [hbq, Function.update_self] at hb'
      exact absurd hb'.symm hne
    · rwa [Function.update_of_ne hbq] at hb'
  rcases hb with ⟨i, hb⟩ | ⟨i, hb⟩ | ⟨hb, hn⟩
  · exact .inl ⟨i, hrole Role.noConfusion hb⟩
  · exact .inr (.inl ⟨i, hrole Role.noConfusion hb⟩)
  · exact .inr (.inr ⟨hrole Role.noConfusion hb, hn⟩)

/-- While the remove list is worked off its QHs may lead to freed ones; in the end none is left. -/
theorem removeQhs_ok (he : EnvKeeps M env) (hg : Good M hot home s v)
    (hh : ∀ a k, v.role a ≠ .held k) (hserv : M.handler → s.bell.serving ≠ none)
    (h : removeQhs env n s = some s') :
    ∃ v', Idle M hot s' v' ∧ s'.bell.serving = s.bell.serving := by
  induction n generalizing home s v with
  | zero => cases h
  | succ n ih =>
    rw [removeQhs] at h
    have hp := hg.inv.shape.removed
    split at h
    · rename_i hnone
      rw [← Option.some.inj h]
      rw [hnone] at hp
      have hnil : v.removed = [] := by
        cases hr : v.removed with
        | nil => rfl
        | cons b l => rw [hr] at hp; cases hp.1
      refine ⟨v, ⟨⟨home, hg⟩, ⟨fun b hb => ?_, fun b hb => ?_⟩, hh⟩, rfl⟩
      · rw [hnil] at hb; cases hb
      · rw [hnil] at hb; cases hb
    · rename_i qh hqh
      obtain ⟨s₁, hdone, h⟩ := Option.bind_eq_some_iff.mp (show Option.bind _ _ = _ from h)
      obtain ⟨s₂, habort, h⟩ := Option.bind_eq_some_iff.mp (show Option.bind _ _ = _ from h)
      have hgone : Gone v qh := by
        refine .inl (hg.inv.shape.role_removed ?_)
        cases hr : v.removed with
        | nil => rw [hr] at hp; rw [hqh] at hp; cases hp
        | cons b l =>
          rw [hr, hqh] at hp
          rw [Option.some.inj hp.1]
          exact List.mem_cons_self
      have hst₀ : (∀ e ∈ s.trace, IdleDetach e) → Stamped s.bell qh :=
        fun hd => hg.inv.bells hd qh hgone
      have hg₀ := hg.takeRemoved hqh
      have hr₀ : (v.takeRemoved qh).role qh = .held .qh := Function.update_self ..
      obtain ⟨v₁, hi₁, hd₁, hnil, -⟩ := freeDoneList_ok hg₀.inv
        (hg₀.inv.shape.unit_of_role hr₀ rfl) hserv hdone
      have hheld : ∀ a k, v₁.role a = .held k ↔ a = qh ∧ k = .qh := by
        intro a k
        rw [hd₁.role_iff Role.noConfusion Role.noConfusion Role.noConfusion]
        show Function.update v.role qh (.held .qh) a = _ ↔ _
        by_cases ha : a = qh
        · rw [ha, Function.update_self]
          exact ⟨fun he => ⟨rfl, (Role.held.inj he).symm⟩, fun he => by rw [he.2]⟩
        · rw [Function.update_of_ne ha]
          exact ⟨fun he => absurd he (hh a k), fun he => absurd he.1 ha⟩
      have hserv₁ : M.handler → s₁.bell.serving ≠ none := fun hm => by
        rw [hd₁.serving]; exact hserv hm
      have hst₁ : (∀ e ∈ s₁.trace, IdleDetach e) → Stamped s₁.bell qh := fun hd =>
        hd₁.stamp qh hr₀ (hst₀ fun e he => hd e (hd₁.trace e he))
      obtain ⟨v₂, home₂, hg₂, hq₂, hdn₂, hheld₂, hs₂, htr₂, hstamp₂⟩ :=
        Good.abortQtds ⟨hi₁, hd₁.tidy hg₀.tidy⟩ (fun a k ha => ((hheld a k).mp ha).2) he
          ((hheld qh .qh).mpr ⟨rfl, rfl⟩) hserv₁ hst₁ hnil habort
      have hr₂ : v₂.role qh = .held .qh := (hheld₂ qh .qh).mpr ((hheld qh .qh).mpr ⟨rfl, rfl⟩)
      have hserv₂ : M.handler → s₂.bell.serving ≠ none := fun hm => by
        rw [hs₂]; exact hserv₁ hm
      have hg₃ := hg₂.freeQh hr₂ ⟨hq₂, hdn₂⟩ hserv₂ fun hd =>
        hstamp₂ (hst₁ fun e he => hd e (htr₂ e he))
      have hh₃ : ∀ a k, (v₂.become qh .free).role a ≠ .held k := by
        intro a k ha
        have ha' : Function.update v₂.role qh .free a = .held k := ha
        by_cases haq : a = qh
        · rw [haq, Function.update_self] at ha'
          cases ha'
        · rw [Function.update_of_ne haq] at ha'
          exact haq ((hheld a k).mp ((hheld₂ a k).mp ha')).1
      obtain ⟨v', hd', hs'⟩ := ih hg₃ hh₃ hserv₂ h
      exact ⟨v', hd', hs'.trans (hs₂.trans hd₁.serving)⟩

/-! ## The done lists of the schedules -/

theorem Idle.drain (hd : Idle M hot s v) (hunit : s.pool.unit qh = some .qh)
    (hserv : M.handler → s.bell.serving ≠ none) (h : freeDoneList qh n s = some s') :
    ∃ v', Idle M hot s' v' ∧ Drained qh s v s' v' := by
  obtain ⟨home, hg⟩ := hd.good
  obtain ⟨v', hi', hd', -, -⟩ := freeDoneList_ok hg.inv hunit hserv h
  exact ⟨v', ⟨⟨home, hi', hd'.tidy hg.tidy⟩, hd'.stale hd.stale, hd'.held hd.held⟩, hd'⟩

theorem freeAsyncDone_ok (hd : Idle M hot s v) (hc : AsyncClass s.toLinks v qh)
    (hserv : M.handler → s.bell.serving ≠ none) (h : freeAsyncDone n qh s = some s') :
    ∃ v', Idle M hot s' v' ∧ s'.bell.serving = s.bell.serving := by
  induction n generalizing qh s v with
  | zero => cases h
  | succ n ih =>
    rw [freeAsyncDone] at h
    split at h
    · rw [← Option.some.inj h]
      exact ⟨v, hd, rfl⟩
    rename_i hne
    obtain ⟨s₁, hfree, h⟩ := Option.bind_eq_some_iff.mp (show Option.bind _ _ = _ from h)
    obtain ⟨b, hb, h⟩ := Option.bind_eq_some_iff.mp (show Option.bind _ _ = _ from h)
    obtain ⟨v₁, hd₁, hf⟩ := hd.drain (hc.unit hd.shape) hserv hfree
    have hnext := (hf.asyncClass.mpr hc).next hd₁.shape hd₁.stale (by rw [hf.links.2.2.1]; exact hne) hb
    obtain ⟨v', hd', hs'⟩ := ih hd₁ hnext (fun hm => by rw [hf.serving]; exact hserv hm) h
    exact ⟨v', hd', hs'.trans hf.serving⟩

theorem freePeriodicDone_ok {cur : Ptr} (hd : Idle M hot s v)
    (hc : ∀ q, cur = some q → IntClass s.toLinks v q)
    (hserv : M.handler → s.bell.serving ≠ none) (h : freePeriodicDone n cur s = some s') :
    ∃ v', Idle M hot s' v' ∧ s'.bell.serving = s.bell.serving := by
  induction n generalizing cur s v with
  | zero => cases h
  | succ n ih =>
    cases cur with
    | none =>
      rw [← Option.some.inj h]
      exact ⟨v, hd, rfl⟩
    | some qh =>
      have hc' := hc qh rfl
      obtain ⟨s₁, hfree, h⟩ := Option.bind_eq_some_iff.mp (show Option.bind _ _ = _ from h)
      obtain ⟨v₁, hd₁, hf⟩ := hd.drain (hc'.unit hd.shape) hserv hfree
      obtain ⟨v', hd', hs'⟩ := ih hd₁
        (fun q hq => (hf.intClass.mpr hc').next hd₁.shape hd₁.stale hq)
        (fun hm => by rw [hf.serving]; exact hserv hm) h
      exact ⟨v', hd', hs'.trans hf.serving⟩

theorem iaadRemoveQh_ok (he : EnvKeeps M env) (hd : Idle M hot s v)
    (hserv : M.handler → s.bell.serving ≠ none) (h : iaadRemoveQh env n s = some s') :
    ∃ v', Idle M hot s' v' ∧ s'.bell.serving = s.bell.serving := by
  obtain ⟨s₁, hrem, h⟩ := Option.bind_eq_some_iff.mp (show Option.bind _ _ = _ from h)
  obtain ⟨b, hb, h⟩ := Option.bind_eq_some_iff.mp (show Option.bind _ _ = _ from h)
  obtain ⟨s₂, hasync, hper⟩ := Option.bind_eq_some_iff.mp (show Option.bind _ _ = _ from h)
  obtain ⟨home, hg⟩ := hd.good
  obtain ⟨v₁, hd₁, hs₁⟩ := removeQhs_ok he hg hd.held hserv hrem
  have hserv₁ : M.handler → s₁.bell.serving ≠ none := fun hm => by rw [hs₁]; exact hserv hm
  have hc : AsyncClass s₁.toLinks v₁ b := by
    rcases hd₁.shape.ring.next_eq List.mem_cons_self with ⟨c, hc, hl⟩ | hl <;> rw [hl] at hb <;>
      obtain rfl := Option.some.inj hb
    · exact .inr (.inl (hd₁.shape.role_async hc))
    · exact .inl hd₁.shape.role_head
  obtain ⟨v₂, hd₂, hs₂⟩ := freeAsyncDone_ok hd₁ hc hserv₁ hasync
  obtain ⟨v₃, hd₃, hs₃⟩ := freePeriodicDone_ok hd₂ (fun q hq => by
      rw [← Option.some.inj hq]
      exact .inl ⟨_, (hd₂.shape.iqhRole _ _).mpr ⟨by decide, rfl⟩⟩)
    (fun hm => by rw [hs₂]; exact hserv₁ hm) hper
  exact ⟨v₃, hd₃, hs₃.trans (hs₂.trans hs₁)⟩

end Ma35d1.UsbHost.Ehci
