import Ma35d1.UsbHost.Ehci.Submit

/-!
# Calls about QHs keep the invariant

`ehci_ctrl_xfer`, `ehci_bulk_xfer`, `ehci_int_xfer` and the quit of an endpoint
that is not isochronous, from a state between two calls to another one.
-/

namespace Ma35d1.UsbHost.Ehci

open Heap.LinkedPath

variable {M : Mode} {hot : Ptr} {home : UtrId → Home}
  {s s' : Ehci} {v v' v'' : View} {m m' : Links} {a h q qh t : Addr} {u : UtrId} {e : EpId}

/-- The invariant between two calls, when no descriptor is in hand. -/
structure Good (M : Mode) (hot : Ptr) (home : UtrId → Home) (s : Ehci) (v : View) : Prop where
  inv : Inv M (fun _ => []) hot home s v
  tidy : Tidy s.toLinks v

/-- What a call of the interface leaves behind. -/
def ApiOk (M : Mode) (hot : Ptr) (s : Ehci) (v : View) (s' : Ehci) : Prop :=
  ∃ v' home', Good M hot home' s' v' ∧ Ext s v s' v' ∧ (Stale s.toLinks v → Stale s'.toLinks v')

/-! ## The endpoints after a submission -/

theorem role_ne_free (hs : Shape m v) {r : Role} (hr : r.listed = true) (ha : a ∈ v.list r) :
    v.role a ≠ .free := by
  rw [(hs.mem r a hr).mp ha]
  rintro rfl
  cases hr

/-- Roles other than `free` and `queued` are those from before the queue was filled. -/
theorem Filled.role_iff (hf : Filled v v' qh) {r : Role} (hr : r ≠ .free) (hq : r ≠ .queued qh) :
    v'.role a = r ↔ v.role a = r := by
  by_cases ha : v.role a = .free
  · rw [ha]
    refine ⟨fun he => ?_, fun he => absurd he.symm hr⟩
    rcases hf.fresh a ha with hfr | hfr
    · exact absurd (he.symm.trans hfr) hr
    · exact absurd (he.symm.trans hfr) hq
  · rw [hf.role a ha]

theorem Filled.intClass (hf : Filled v v' qh) (hu : m'.insertedUnder = m.insertedUnder)
    (h : IntClass m' v' a) : IntClass m v a := by
  rcases h with ⟨i, h⟩ | ⟨i, h⟩ | ⟨h, hn⟩
  · exact .inl ⟨i, (hf.role_iff Role.noConfusion Role.noConfusion).mp h⟩
  · exact .inr (.inl ⟨i, (hf.role_iff Role.noConfusion Role.noConfusion).mp h⟩)
  · exact .inr (.inr ⟨(hf.role_iff Role.noConfusion Role.noConfusion).mp h, by rw [← hu]; exact hn⟩)

/-- The queue of a linked QH was filled. -/
theorem Tidy.filled (ht : Tidy m v) (hf : Filled v v' qh) (hpipe : m'.hwPipe = m.hwPipe)
    (hep : m'.ep = m.ep) (hiso : m'.isoEpEp = m.isoEpEp) (hu : m'.insertedUnder = m.insertedUnder)
    (hq : IntClass m v qh → (v'.queued qh).length ≤ 1) : Tidy m' v' := by
  obtain ⟨hring, hunder, -, -, -, heps, -⟩ := hf.lists
  constructor
  · rw [hpipe, hep, hring, hunder]; exact ht.pipeQh
  · rw [hpipe]; exact ht.pipeInj
  · rw [hpipe, hring]; exact ht.ringPipe
  · rw [hpipe, hiso, heps]; exact ht.pipeIso
  · rw [hpipe]; exact ht.pipeEd
  · rw [hiso, hep, heps]; exact ht.isoType
  · rw [hep]; exact ht.ep0
  · intro h hc
    have hc' := hf.intClass hu hc
    by_cases hh : h = qh
    · subst hh; exact hq hc'
    · rw [hf.other h hh]; exact ht.single h hc'

/-- A new QH was linked for the endpoint `e`. -/
theorem Tidy.newQh (ht : Tidy m v) (hs : Shape m v) (hfree : v.role qh = .free)
    (hpipe : m'.hwPipe = Function.update m.hwPipe e (.qh qh)) (hnull : m.hwPipe e = .null)
    (hep : m'.ep = m.ep) (hiso : m'.isoEpEp = m.isoEpEp) (heps : v'.isoEps = v.isoEps)
    (hte : (m.ep e).xferType ≠ epAttrTtIso)
    (hring : ∀ q, q ∈ v'.ring ↔ q ∈ v.ring ∨ (q = qh ∧ (m.ep e).xferType ≠ epAttrTtInt))
    (hunder : ∀ q, (∃ i, q ∈ v'.under i) ↔
      (∃ i, q ∈ v.under i) ∨ (q = qh ∧ (m.ep e).xferType = epAttrTtInt))
    (hsingle : ∀ h, IntClass m' v' h → (v'.queued h).length ≤ 1) : Tidy m' v' := by
  have hself : m'.hwPipe e = .qh qh := by rw [hpipe, Function.update_self]
  have hne : ∀ e', e' ≠ e → m'.hwPipe e' = m.hwPipe e' := fun e' he => by
    rw [hpipe, Function.update_of_ne he]
  have hout : ∀ e', m.hwPipe e' ≠ .qh qh := by
    intro e' he
    rcases ht.pipeQh e' qh he with ⟨_, i, hm⟩ | ⟨_, _, hm⟩
    · exact role_ne_free hs (r := .intr i) rfl hm hfree
    · exact role_ne_free hs (r := .async) rfl hm hfree
  constructor
  · intro e' q he'
    rw [hep]
    by_cases hee : e' = e
    · subst hee
      rw [hself] at he'
      obtain rfl := HwPipe.qh.inj he'
      by_cases hti : (m.ep e').xferType = epAttrTtInt
      · exact .inl ⟨hti, (hunder _).mpr (.inr ⟨rfl, hti⟩)⟩
      · exact .inr ⟨hti, hte, (hring _).mpr (.inr ⟨rfl, hti⟩)⟩
    · rw [hne e' hee] at he'
      rcases ht.pipeQh e' q he' with ⟨h₁, h₂⟩ | ⟨h₁, h₂, h₃⟩
      · exact .inl ⟨h₁, (hunder q).mpr (.inl h₂)⟩
      · exact .inr ⟨h₁, h₂, (hring q).mpr (.inl h₃)⟩
  · intro e₁ e₂ q h₁ h₂
    by_cases h₁e : e₁ = e <;> by_cases h₂e : e₂ = e
    · rw [h₁e, h₂e]
    · subst h₁e
      rw [hself] at h₁
      rw [hne e₂ h₂e, ← h₁] at h₂
      exact absurd h₂ (hout e₂)
    · subst h₂e
      rw [hself] at h₂
      rw [hne e₁ h₁e, ← h₂] at h₁
      exact absurd h₁ (hout e₁)
    · rw [hne e₁ h₁e] at h₁
      rw [hne e₂ h₂e] at h₂
      exact ht.pipeInj e₁ e₂ q h₁ h₂
  · intro q hq
    rcases (hring q).mp hq with hq | ⟨rfl, _⟩
    · obtain ⟨e', he'⟩ := ht.ringPipe q hq
      have hee : e' ≠ e := by rintro rfl; rw [hnull] at he'; cases he'
      exact ⟨e', (hne e' hee).trans he'⟩
    · exact ⟨e, hself⟩
  · intro e' x
    rw [heps, hiso]
    by_cases hee : e' = e
    · subst hee
      rw [hself]
      refine ⟨HwPipe.noConfusion, fun hx => ?_⟩
      rw [(ht.pipeIso e' x).mpr hx] at hnull
      cases hnull
    · rw [hne e' hee]; exact ht.pipeIso e' x
  · intro e' b he'
    by_cases hee : e' = e
    · subst hee; rw [hself] at he'; cases he'
    · rw [hne e' hee] at he'; exact ht.pipeEd e' b he'
  · rw [heps, hiso, hep]; exact ht.isoType
  · rw [hep]; exact ht.ep0
  · exact hsingle

/-- The queue of a linked QH was filled: what stays in place. -/
theorem Ext.filled (hq : Quiet s s') (hf : Filled v v' qh) (hs : Shape s.toLinks v)
    (hqh : v.role qh ≠ .held .qh) : Ext s v s' v' := by
  have hused := fun a => hs.used_unit (a := a)
  obtain ⟨-, -, -, hdone, htds, heps, -⟩ := hf.lists
  refine Ext.of_grow hf.role (fun a ha k hk => ?_) (fun a _ => congrFun hq.insertedUnder a)
    (fun a ha => ?_) hq.hQh hq.iqh (fun a ha => ?_) (fun a ha => ?_) hq.bell
    (fun k x => ⟨[], ?_⟩) ⟨[], heps⟩ (fun e he => by rw [hq.trace]; exact he)
  · rcases hf.fresh a ha with hf | hf <;> rw [hf] at hk <;> cases hk
  · obtain ⟨k, hk⟩ := hused a (by rw [ha]; exact Role.noConfusion)
    exact (hq.used a k hk).2.1
  · have hne : a ≠ qh := fun he => hqh (he ▸ ha)
    exact ⟨hf.other a hne, congrFun hdone a⟩
  · obtain ⟨k, hk⟩ := hused a ha
    exact (hq.used a k hk).2.2
  · rw [List.append_nil]
    exact congrFun (congrFun htds k) x

/-- Nothing new on the remove list. -/
theorem Stale.same (hst : Stale s.toLinks v) (hx : Ext s v s' v') (hs : Shape s.toLinks v)
    (hr : v'.removed = v.removed) : Stale s'.toLinks v' :=
  hst.ext hx hs fun h hm hn => by
    rw [hr] at hm
    exact absurd (hs.role_removed hm) hn

/-! ## Submissions -/

/-- The request goes on record, with its home on `qh`. -/
theorem Inv.submit {hand : UtrId → List (List Nat)} (hi : Inv M hand hot home s v)
    (hu : M.own s.trace u) (qh : Addr) :
    Inv M hand hot (Function.update home u (.qh qh)) (s.log (.submit u false)) v := by
  have hnp : M.own = completed → ¬ Pending s.trace u := fun ho => by rw [ho] at hu; exact hu
  have hi' := hi.logSubmit hnp false hand (fun _ _ => rfl) (fun h => by cases h)
  refine hi'.setHome (fun ho => ⟨?_, .inl rfl⟩) qh
  by_contra hne
  exact hnp ho ((hi.acct ho).record.pending u hne)

/-- The queue of `qh` is empty, and `u` is about to fill it. -/
theorem Inv.startFill {hand : UtrId → List (List Nat)} (hi : Inv M hand hot home s v)
    (hunit : s.pool.unit qh = some .qh) (hempty : s.qtdList qh = none)
    (hp : M.psenKept → ∀ i, qh ∉ v.under i) (hhome : M.own = completed → home u = .qh qh) :
    Filling M hand hot home u qh [] s v ∧ v.queued qh = [] := by
  have hq : v.queued qh = [] := by
    have hpath := hi.shape.queued qh hunit
    rw [hempty] at hpath
    cases hv : v.queued qh with
    | nil => rfl
    | cons b l => rw [hv] at hpath; cases hpath.1
  have hno : ∀ b, b ∉ v.queued qh := fun b hb => by rw [hq] at hb; exact absurd hb List.not_mem_nil
  exact ⟨⟨hi, hunit, fun h => .inr (hp h), hhome, fun _ b hb => absurd hb (hno b),
    fun _ hb => absurd hb List.not_mem_nil, List.nodup_nil⟩, hq⟩

/-- A transfer was put on a QH in the ring. -/
theorem Good.onOld (hg : Good M hot home s v) {ev : Event} {s₁ : Ehci} {v₁ : View}
    {home' : UtrId → Home} (hm : qh ∈ v.ring)
    (hi : Inv M (fun _ => []) hot home' s₁ v₁) (hq : Quiet (s.log ev) s₁) (hf : Filled v v₁ qh) :
    ApiOk M hot s v (linkAsync qh false s₁) := by
  have hs := hg.inv.shape
  have hr := hs.role_async hm
  have hnc : ¬ IntClass s.toLinks v qh := by
    rintro (⟨i, h⟩ | ⟨i, h⟩ | ⟨h, _⟩) <;> rw [hr] at h <;> cases h
  have hi' : Inv M (fun _ => []) hot home' (linkAsync qh false s₁) v₁ := hi.scratch ..
  have hq' : Quiet (s.log ev) (linkAsync qh false s₁) := hq.trans (.scratch s₁ ..)
  have hx : Ext s v (linkAsync qh false s₁) v₁ := by
    have hx := Ext.filled hq' hf hs (by rw [hr]; exact Role.noConfusion)
    exact { hx with trace := fun e he => hx.trace e (List.mem_cons_of_mem _ he) }
  exact ⟨v₁, home', ⟨hi', hg.tidy.filled hf hq'.hwPipe hq'.ep hq'.isoEpEp hq'.insertedUnder
    fun h => absurd h hnc⟩, hx, fun hst => hst.same hx hs hf.lists.2.2.1⟩

/-- `s₃` and `v₃` put the new QH of `s₂` and `v₂` at its place, which gives it the role `r`. -/
structure Placed (qh : Addr) (r : Role) (s₂ : Ehci) (v₂ : View) (s₃ : Ehci) (v₃ : View) : Prop where
  role : v₃.role = Function.update v₂.role qh r
  listed : r = .async ∨ ∃ i, r = .intr i
  queued : v₃.queued = v₂.queued
  done : v₃.done = v₂.done
  tds : v₃.tds = v₂.tds
  isoEps : v₃.isoEps = v₂.isoEps
  removed : v₃.removed = v₂.removed
  hLink : ∀ a, v₂.role a = .removed → s₃.hLink a = s₂.hLink a
  insertedUnder : ∀ a, a ≠ qh → s₃.insertedUnder a = s₂.insertedUnder a
  hQh : s₃.hQh = s₂.hQh
  iqh : s₃.iqh = s₂.iqh
  bell : s₃.bell = s₂.bell
  hwPipe : s₃.hwPipe = s₂.hwPipe
  ep : s₃.ep = s₂.ep
  isoEpEp : s₃.isoEpEp = s₂.isoEpEp
  trace : s₃.trace = s₂.trace

/-- A transfer was put on a new QH, which then went to its place. -/
theorem Good.newQh (hg : Good M hot home s v) {ev : Event} {s₁ s₂ s₃ : Ehci} {v₂ v₃ : View}
    {home' : UtrId → Home} {r : Role} (hfree : v.role qh = .free) (hq₁ : Quiet (s.log ev) s₁)
    (hq₂ : Quiet (s₁.setHwPipe e (.qh qh)) s₂) (hf : Filled (v.become qh (.held .qh)) v₂ qh)
    (hp : Placed qh r s₂ v₂ s₃ v₃) (hi : Inv M (fun _ => []) hot home' s₃ v₃)
    (hnull : s.hwPipe e = .null) (hte : (s.ep e).xferType ≠ epAttrTtIso)
    (hring : ∀ q, q ∈ v₃.ring ↔ q ∈ v.ring ∨ (q = qh ∧ (s.ep e).xferType ≠ epAttrTtInt))
    (hunder : ∀ q, (∃ i, q ∈ v₃.under i) ↔
      (∃ i, q ∈ v.under i) ∨ (q = qh ∧ (s.ep e).xferType = epAttrTtInt))
    (hlen : (∃ i, r = .intr i) → (v₂.queued qh).length ≤ 1) : ApiOk M hot s v s₃ := by
  have hs := hg.inv.shape
  obtain ⟨-, -, hrem, hdone, htds, heps, -⟩ := hf.lists
  have hne : ∀ {a r}, r ≠ Role.free → v.role a = r → a ≠ qh := by
    rintro a r hr ha rfl
    exact hr (ha.symm.trans hfree)
  have hbec : ∀ a, a ≠ qh → (v.become qh (.held .qh)).role a = v.role a := fun a ha =>
    Function.update_of_ne ha ..
  have hrole₂ : ∀ a, v.role a ≠ .free → v₂.role a = v.role a := fun a ha => by
    have haq := hne ha rfl
    rw [hf.role a (by rw [hbec a haq]; exact ha), hbec a haq]
  have hrole₃ : ∀ a, a ≠ qh → v₃.role a = v₂.role a := fun a ha => by
    rw [hp.role, Function.update_of_ne ha]
  have hself : v₃.role qh = r := by rw [hp.role, Function.update_self]
  have hused := fun a => hs.used_unit (a := a)
  have hkeep : ∀ a, v.role a ≠ .free → s₂.hLink a = s.hLink a ∧
      s₂.bell.stamp a = s.bell.stamp a := fun a ha => by
    obtain ⟨k, hk⟩ := hused a ha
    obtain ⟨h₁, h₂, h₃⟩ := hq₁.used a k hk
    obtain ⟨_, h₂', h₃'⟩ := hq₂.used a k h₁
    exact ⟨h₂'.trans h₂, h₃'.trans h₃⟩
  have hiu : ∀ a, a ≠ qh → s₃.insertedUnder a = s.insertedUnder a := fun a ha => by
    rw [hp.insertedUnder a ha, hq₂.insertedUnder]
    exact congrFun hq₁.insertedUnder a
  have hx : Ext s v s₃ v₃ := by
    refine Ext.of_grow (fun a ha => (hrole₃ a (hne ha rfl)).trans (hrole₂ a ha))
      (fun a ha k hk => ?_) (fun a ha => hiu a (hne ha rfl)) (fun a ha => ?_)
      (hp.hQh.trans (hq₂.hQh.trans hq₁.hQh)) (hp.iqh.trans (hq₂.iqh.trans hq₁.iqh))
      (fun a ha => ?_) (fun a ha => by rw [hp.bell]; exact (hkeep a ha).2) ?_
      (fun k x => ⟨[], ?_⟩) ⟨[], hp.isoEps.trans heps⟩ (fun ev hev => ?_)
    · by_cases haq : a = qh
      · subst haq
        rw [hself] at hk
        rcases hp.listed with h | ⟨i, h⟩ <;> rw [h] at hk <;> cases hk
      · rw [hrole₃ a haq] at hk
        rcases hf.fresh a ((hbec a haq).trans ha) with hf | hf <;> rw [hf] at hk <;> cases hk
    · have ha' := hrole₂ a (by rw [ha]; exact Role.noConfusion)
      rw [hp.hLink a (ha'.trans ha)]
      exact (hkeep a (by rw [ha]; exact Role.noConfusion)).1
    · rw [hp.queued, hp.done]
      exact ⟨hf.other a (hne Role.noConfusion ha), congrFun hdone a⟩
    · obtain ⟨f, hf⟩ := hq₁.bell
      obtain ⟨g, hg⟩ := hq₂.bell
      refine ⟨g, ?_⟩
      rw [hp.bell, hg]
      show ({ s₁.bell with stamp := g } : Doorbell) = _
      rw [hf]
      rfl
    · rw [List.append_nil, hp.tds]; exact congrFun (congrFun htds k) x
    · rw [hp.trace, hq₂.trace, show (s₁.setHwPipe e (.qh qh)).trace = s₁.trace from rfl, hq₁.trace]
      exact List.mem_cons_of_mem _ hev
  refine ⟨v₃, home', ⟨hi, ?_⟩, hx, fun hst => hst.same hx hs (hp.removed.trans hrem)⟩
  refine hg.tidy.newQh hs hfree (e := e) ?_ hnull (hp.ep.trans (hq₂.ep.trans hq₁.ep))
    (hp.isoEpEp.trans (hq₂.isoEpEp.trans hq₁.isoEpEp)) (hp.isoEps.trans heps) hte hring hunder
    fun h hc => ?_
  · rw [hp.hwPipe, hq₂.hwPipe]
    show Function.update s₁.hwPipe e (.qh qh) = _
    rw [hq₁.hwPipe]
    rfl
  · rw [hp.queued]
    by_cases hhq : h = qh
    · subst hhq
      rcases hp.listed with hr | hr
      · rcases hc with ⟨i, hc⟩ | ⟨i, hc⟩ | ⟨hc, _⟩ <;> rw [hself, hr] at hc <;> cases hc
      · exact hlen hr
    · have hb : ∀ r, r ≠ .free → r ≠ .queued qh → v₃.role h = r → v.role h = r := by
        intro r hr₁ hr₂ he
        rw [← hbec h hhq]
        exact (hf.role_iff hr₁ hr₂).mp ((hrole₃ h hhq).symm.trans he)
      have hc' : IntClass s.toLinks v h := by
        rcases hc with ⟨i, hc⟩ | ⟨i, hc⟩ | ⟨hc, hn⟩
        · exact .inl ⟨i, hb _ Role.noConfusion Role.noConfusion hc⟩
        · exact .inr (.inl ⟨i, hb _ Role.noConfusion Role.noConfusion hc⟩)
        · exact .inr (.inr ⟨hb _ Role.noConfusion Role.noConfusion hc, by rw [← hiu h hhq]; exact hn⟩)
      rw [hf.other h hhq]
      exact hg.tidy.single h hc'

theorem linkAsync_placed (qh : Addr) (s : Ehci) (v : View) (hq : v.role s.hQh ≠ .removed)
    (hne : v.role qh ≠ .removed) :
    Placed qh .async s v (linkAsync qh true s) (v.putRing qh) where
  role := rfl
  listed := .inl rfl
  queued := rfl
  done := rfl
  tds := rfl
  isoEps := rfl
  removed := rfl
  hLink a ha := by
    have h₁ : a ≠ s.hQh := fun he => hq (he ▸ ha)
    have h₂ : a ≠ qh := fun he => hne (he ▸ ha)
    show Function.update (Function.update s.hLink qh (s.hLink s.hQh)) s.hQh (.qh qh) a = s.hLink a
    rw [Function.update_of_ne h₁, Function.update_of_ne h₂]
  insertedUnder a ha := Function.update_of_ne ha ..
  hQh := rfl
  iqh := rfl
  bell := rfl
  hwPipe := rfl
  ep := rfl
  isoEpEp := rfl
  trace := rfl

/-- A transfer was put on a new QH, which joins the ring. -/
theorem Good.onNew (hg : Good M hot home s v) {ev : Event} {s₁ s₂ : Ehci} {v₂ : View}
    {home' : UtrId → Home} (hfree : v.role qh = .free) (hq₁ : Quiet (s.log ev) s₁)
    (hi : Inv M (fun _ => []) hot home' s₂ v₂) (hq₂ : Quiet (s₁.setHwPipe e (.qh qh)) s₂)
    (hf : Filled (v.become qh (.held .qh)) v₂ qh) (hnull : s.hwPipe e = .null)
    (hti : (s.ep e).xferType ≠ epAttrTtInt) (hte : (s.ep e).xferType ≠ epAttrTtIso) :
    ApiOk M hot s v (linkAsync qh true s₂) := by
  obtain ⟨hring, hunder, -⟩ := hf.lists
  have hrqh : v₂.role qh = .held .qh := by
    have hr : (v.become qh (.held .qh)).role qh = .held .qh := Function.update_self ..
    rw [hf.role qh (by rw [hr]; exact Role.noConfusion), hr]
  have hi' : Inv M (fun _ => []) hot home' (linkAsync qh true s₂) (v₂.putRing qh) :=
    (hi.insertRing hrqh).scratch ..
  refine hg.newQh hfree hq₁ hq₂ hf (linkAsync_placed qh s₂ v₂ ?_ ?_) hi' hnull hte (fun q => ?_)
    (fun q => ?_) fun ⟨i, h⟩ => by cases h
  · rw [hi.shape.role_head]; exact Role.noConfusion
  · rw [hrqh]; exact Role.noConfusion
  · show q ∈ qh :: v₂.ring ↔ _
    rw [hring, List.mem_cons]
    exact ⟨fun h => h.elim (fun h => .inr ⟨h, hti⟩) .inl, fun h => h.elim .inr fun h => .inl h.1⟩
  · show (∃ i, q ∈ v₂.under i) ↔ _
    rw [hunder]
    exact ⟨.inl, fun h => h.elim id fun h => absurd h.2 hti⟩

/-- The new QH is about to be filled for `u`. -/
theorem Inv.startNew (hi : Inv M (fun _ => []) hot home s v) (hu : M.own s.trace u)
    (ha : (s.log (.submit u false)).allocEhciQh = some (qh, s')) (e : EpId) :
    v.role qh = .free ∧ Quiet (s.log (.submit u false)) s' ∧
      Filling M (fun _ => []) hot (Function.update home u (.qh qh)) u qh []
        (s'.setHwPipe e (.qh qh)) (v.become qh (.held .qh)) ∧ v.queued qh = [] := by
  obtain ⟨hi₁, hfree, hq, -⟩ := (hi.submit hu qh).allocQh ha
  have hself : (v.become qh (.held .qh)).role qh = .held .qh := Function.update_self ..
  have hunit : s'.pool.unit qh = some .qh := hi₁.shape.unit_of_role hself rfl
  have hoff : Off v qh := .inl hfree
  have hempty : v.queued qh = [] := by
    refine List.eq_nil_iff_forall_not_mem.mpr fun b hb => ?_
    have hk := hi.shape.unused qh hfree .qh (hi.shape.queuedQh qh b hb)
    cases hk
  refine ⟨hfree, hq, ⟨hi₁.setHwPipe e _, hunit, fun _ => .inr fun i => hoff.not_mem hi.shape (.intr i),
    fun _ => Function.update_self .., fun _ b hb => ?_, fun _ hb => absurd hb List.not_mem_nil,
    List.nodup_nil⟩, hempty⟩
  have hb' : b ∈ v.queued qh := hb
  rw [hempty] at hb'
  exact absurd hb' List.not_mem_nil

theorem Good.unit_ring (hg : Good M hot home s v) (hm : qh ∈ v.ring) :
    s.pool.unit qh = some .qh ∧ ∀ i, qh ∉ v.under i := by
  have hr := hg.inv.shape.role_async hm
  refine ⟨hg.inv.shape.unit_ring hm, fun i hi => ?_⟩
  rw [hg.inv.shape.role_intr hi] at hr
  cases hr

/-- The QH of an endpoint that is not an interrupt one. -/
theorem Good.ring_of_pipe (hg : Good M hot home s v) (hp : s.hwPipe e = .qh qh)
    (ht : (s.ep e).xferType ≠ epAttrTtInt) : qh ∈ v.ring := by
  rcases hg.tidy.pipeQh e qh hp with ⟨h, _⟩ | ⟨_, _, h⟩
  · exact absurd h ht
  · exact h

theorem Good.ctrl (hg : Good M hot home s v) (hu : M.own s.trace u)
    (h : ehciCtrlXfer u (s.log (.submit u false)) = some (0, s')) : ApiOk M hot s v s' := by
  unfold ehciCtrlXfer at h
  dsimp only at h
  have ht : (s.ep (.ep0 (s.utr u).udev)).xferType = epAttrTtCtrl := hg.tidy.ep0 _
  have hti : (s.ep (.ep0 (s.utr u).udev)).xferType ≠ epAttrTtInt := by rw [ht]; decide
  have hte : (s.ep (.ep0 (s.utr u).udev)).xferType ≠ epAttrTtIso := by rw [ht]; decide
  split at h
  · exact absurd (Prod.mk.inj (Option.some.inj h)).1 (by decide)
  split at h
  · rename_i qh hp
    split at h
    · exact absurd (Prod.mk.inj (Option.some.inj h)).1 (by decide)
    · rename_i hempty
      have hm := hg.ring_of_pipe (show s.hwPipe _ = .qh qh from hp) hti
      obtain ⟨hunit, hnu⟩ := hg.unit_ring hm
      have hf := ((hg.inv.submit hu qh).startFill hunit (not_not.mp hempty) (fun _ => hnu)
        fun _ => Function.update_self ..).1
      obtain ⟨s₁, v₁, hf₁, hq₁, hfill, rfl⟩ := ctrlOnQh_ok hf h
      exact hg.onOld hm hf₁.inv hq₁ hfill
  · rename_i hp
    split at h
    · exact absurd (Prod.mk.inj (Option.some.inj h)).1 (by decide)
    · rename_i qh s₁ ha
      obtain ⟨hfree, hq₁, hf, -⟩ := hg.inv.startNew hu ha (.ep0 (s.utr u).udev)
      obtain ⟨s₂, v₂, hf₂, hq₂, hfill, rfl⟩ := ctrlOnQh_ok hf h
      exact hg.onNew hfree hq₁ hf₂.inv hq₂ hfill (show s.hwPipe _ = .null from hp) hti hte
  · cases h

theorem Good.bulk (hg : Good M hot home s v) (hu : M.own s.trace u) (he : s.utrEp u = some e)
    (ht : (s.ep e).xferType = epAttrTtBulk)
    (h : ehciBulkXfer u (s.log (.submit u false)) = some (0, s')) : ApiOk M hot s v s' := by
  have hti : (s.ep e).xferType ≠ epAttrTtInt := by rw [ht]; decide
  have hte : (s.ep e).xferType ≠ epAttrTtIso := by rw [ht]; decide
  unfold ehciBulkXfer at h
  obtain ⟨e', he', h⟩ := Option.bind_eq_some_iff.mp h
  obtain rfl := Option.some.inj (he.symm.trans he')
  split at h
  · rename_i qh hp
    split at h
    · exact absurd (Prod.mk.inj (Option.some.inj h)).1 (by decide)
    · rename_i hempty
      have hm := hg.ring_of_pipe (show s.hwPipe _ = .qh qh from hp) hti
      obtain ⟨hunit, hnu⟩ := hg.unit_ring hm
      have hf := ((hg.inv.submit hu qh).startFill hunit (not_not.mp hempty) (fun _ => hnu)
        fun _ => Function.update_self ..).1
      obtain ⟨s₁, v₁, hf₁, hq₁, hfill, rfl⟩ := bulkOnQh_ok hf h
      exact hg.onOld hm hf₁.inv hq₁ hfill
  · rename_i hp
    split at h
    · exact absurd (Prod.mk.inj (Option.some.inj h)).1 (by decide)
    · rename_i qh s₁ ha
      obtain ⟨hfree, hq₁, hf, -⟩ := hg.inv.startNew hu ha e
      obtain ⟨sw, hw, h⟩ := Option.bind_eq_some_iff.mp h
      obtain ⟨f, g, rfl⟩ := writeQh_eq hw
      have hf' : Filling M (fun _ => []) hot (Function.update home u (.qh qh)) u qh []
          (({ s₁ with udev := f, qhHw := g } : Ehci).setHwPipe e (.qh qh))
          (v.become qh (.held .qh)) :=
        ⟨hf.inv.scratch .., hf.unit, hf.psen, hf.home, hf.same, hf.held, hf.nodup⟩
      obtain ⟨s₂, v₂, hf₂, hq₂, hfill, rfl⟩ := bulkOnQh_ok hf' h
      exact hg.onNew hfree hq₁ hf₂.inv ((Quiet.scratch (s₁.setHwPipe e (.qh qh)) ..).trans hq₂) hfill
        (show s.hwPipe _ = .null from hp) hti hte
  · cases h

/-! ## Interrupt transfers -/

theorem intTreeHeadIndex_le (n i interval : Nat) : intTreeHeadIndex n i interval ≤ i + n := by
  induction n generalizing i interval with
  | zero => exact Nat.le_refl i
  | succ n ih =>
    rw [intTreeHeadIndex]
    split
    · omega
    · have := ih (i + 1) (interval >>> 1)
      omega

/-- `get_int_tree_head_node` returns an interval head. -/
theorem linkIntQh_eq (d : DevId) (e : EpId) (qh qtd : Addr) (s : Ehci) :
    ∃ i < numIqh, ∃ f, linkIntQh d e qh qtd s = insertQh (s.iqh i) qh (some i) { s with qhHw := f } := by
  refine ⟨_, Nat.lt_succ_of_le ?_, _, rfl⟩
  have h := intTreeHeadIndex_le (numIqh - 1) 0
    ((if (s.udev d).speed = .high then (s.ep e).bInterval else (s.ep e).bInterval * 8) / 8)
  rwa [Nat.zero_add] at h

theorem insertUnder_placed (s : Ehci) (v : View) (i : Nat) (f : Addr → QhHw)
    (hq : v.role (s.iqh i) ≠ .removed) (hne : v.role qh ≠ .removed) :
    Placed qh (.intr i) s v
      { insertQh (s.iqh i) qh (some i) { s with qhHw := f } with psen := true }
      (v.putUnder i qh) where
  role := rfl
  listed := .inr ⟨i, rfl⟩
  queued := rfl
  done := rfl
  tds := rfl
  isoEps := rfl
  removed := rfl
  hLink a ha := by
    have h₁ : a ≠ s.iqh i := fun he => hq (he ▸ ha)
    have h₂ : a ≠ qh := fun he => hne (he ▸ ha)
    show Function.update (Function.update s.hLink qh (s.hLink (s.iqh i))) (s.iqh i) (.qh qh) a = _
    rw [Function.update_of_ne h₁, Function.update_of_ne h₂]
  insertedUnder a ha := Function.update_of_ne ha ..
  hQh := rfl
  iqh := rfl
  bell := rfl
  hwPipe := rfl
  ep := rfl
  isoEpEp := rfl
  trace := rfl

/-- `relax` before the queue is filled, for the schedule is switched on at the end. -/
theorem Filling.relax {hand : UtrId → List (List Nat)} {l : List Addr}
    (hf : Filling M hand hot home u qh l s v) :
    Filling M.relaxed hand hot home u qh l s v :=
  ⟨hf.inv.relax, hf.unit, False.elim, hf.home, hf.same, hf.held, hf.nodup⟩

theorem Good.int (hg : Good M hot home s v) (hu : M.own s.trace u) (he : s.utrEp u = some e)
    (ht : (s.ep e).xferType = epAttrTtInt)
    (h : ehciIntXfer u (s.log (.submit u false)) = some (0, s')) : ApiOk M hot s v s' := by
  have hs := hg.inv.shape
  have hte : (s.ep e).xferType ≠ epAttrTtIso := by rw [ht]; decide
  unfold ehciIntXfer at h
  obtain ⟨e', he', h⟩ := Option.bind_eq_some_iff.mp h
  obtain rfl := Option.some.inj (he.symm.trans he')
  split at h
  · rename_i qh hp
    split at h
    · exact absurd (Prod.mk.inj (Option.some.inj h)).1 (by decide)
    · rename_i hempty
      obtain ⟨i, hm⟩ : ∃ i, qh ∈ v.under i := by
        rcases hg.tidy.pipeQh e qh hp with ⟨_, h⟩ | ⟨h, _⟩
        · exact h
        · exact absurd ht h
      have hr := hs.role_intr hm
      have hunit := hs.unit_of_role hr (k := .qh) rfl
      obtain ⟨hf, hnil⟩ := (hg.inv.submit hu qh).relax.startFill hunit (not_not.mp hempty)
        (fun h => h.elim) fun _ => Function.update_self ..
      obtain ⟨s₁, v₁, qtd, d, hf₁, hq₁, hfill, hlen, rfl⟩ := intOnQh_ok hf h
      rw [hnil] at hlen
      have hx : Ext s v { s₁ with psen := true } v₁ := by
        have hx := Ext.filled hq₁ hfill hs (by rw [hr]; exact Role.noConfusion)
        exact { hx with trace := fun e he => hx.trace e (List.mem_cons_of_mem _ he) }
      have hi' := hf₁.inv.psenOn
      exact ⟨v₁, _, ⟨hi', hg.tidy.filled hfill hq₁.hwPipe hq₁.ep hq₁.isoEpEp hq₁.insertedUnder
        fun _ => by rw [hlen]; exact Nat.le_refl 1⟩, hx,
        fun hst => hst.same hx hs hfill.lists.2.2.1⟩
  · rename_i hp
    split at h
    · exact absurd (Prod.mk.inj (Option.some.inj h)).1 (by decide)
    · rename_i qh s₁ ha
      obtain ⟨hfree, hq₁, hf, hnil⟩ := hg.inv.startNew hu ha e
      obtain ⟨sw, hw, h⟩ := Option.bind_eq_some_iff.mp h
      obtain ⟨f, g, rfl⟩ := writeQh_eq hw
      have hf' : Filling M.relaxed (fun _ => []) hot (Function.update home u (.qh qh)) u qh []
          ((writeIntQh (s₁.utr u).udev e qh { s₁ with udev := f, qhHw := g }).setHwPipe e (.qh qh))
          (v.become qh (.held .qh)) :=
        ⟨hf.relax.inv.scratch .., hf.unit, False.elim, hf.home, hf.same, hf.held, hf.nodup⟩
      obtain ⟨s₂, v₂, qtd, d, hf₂, hq₂, hfill, hlen, rfl⟩ := intOnQh_ok hf' h
      obtain ⟨i, hi, w, hlink⟩ := linkIntQh_eq d e qh qtd s₂
      rw [if_pos rfl, hlink]
      obtain ⟨hring, hunder, -⟩ := hfill.lists
      have hrqh : v₂.role qh = .held .qh := by
        have hr : (v.become qh (.held .qh)).role qh = .held .qh := Function.update_self ..
        rw [hfill.role qh (by rw [hr]; exact Role.noConfusion), hr]
      have hi₂ : Inv M.relaxed (fun _ => []) hot (Function.update home u (.qh qh))
          { s₂ with qhHw := w } v₂ := hf₂.inv.scratch ..
      refine hg.newQh hfree hq₁ ((Quiet.scratch (s₁.setHwPipe e (.qh qh)) ..).trans hq₂) hfill
        (insertUnder_placed s₂ v₂ i w ?_ ?_) (hi₂.insertUnder hrqh hi).psenOn
        (show s.hwPipe _ = .null from hp) hte (fun q => ?_) (fun q => ?_) fun _ => ?_
      · rw [hf₂.inv.shape.role_iqh hi]; exact Role.noConfusion
      · rw [hrqh]; exact Role.noConfusion
      · show q ∈ v₂.ring ↔ _
        rw [hring]
        exact ⟨.inl, fun h => h.elim id fun h => absurd ht h.2⟩
      · show (∃ j, q ∈ Function.update v₂.under i (qh :: v₂.under i) j) ↔ _
        rw [hunder]
        constructor
        · rintro ⟨j, hj⟩
          by_cases hji : j = i
          · subst hji
            rw [Function.update_self] at hj
            rcases List.mem_cons.mp hj with hq | hj
            · exact .inr ⟨hq, ht⟩
            · exact .inl ⟨j, hj⟩
          · rw [Function.update_of_ne hji] at hj
            exact .inl ⟨j, hj⟩
        · rintro (⟨j, hj⟩ | ⟨hq, _⟩)
          · refine ⟨j, ?_⟩
            by_cases hji : j = i
            · subst hji
              rw [Function.update_self]
              exact List.mem_cons_of_mem _ hj
            · rw [Function.update_of_ne hji]
              exact hj
          · exact ⟨i, by rw [hq, Function.update_self]; exact List.mem_cons_self⟩
      · rw [hlen]
        show (v.queued qh ++ [qtd]).length ≤ 1
        rw [hnil]
        exact Nat.le_refl 1
  · cases h

/-- A call that leaves every word the invariant reads as it found it. -/
theorem ApiOk.same (hg : Good M hot home s v) (hi : Inv M (fun _ => []) hot home s' v)
    (hpipe : s'.hwPipe = s.hwPipe) (hep : s'.ep = s.ep) (hiso : s'.isoEpEp = s.isoEpEp)
    (hu : s'.insertedUnder = s.insertedUnder) (hQh : s'.hQh = s.hQh) (hiqh : s'.iqh = s.iqh)
    (hl : ∀ a, v.role a = .removed → s'.hLink a = s.hLink a)
    (hst : ∀ a, v.role a ≠ .free → s'.bell.stamp a = s.bell.stamp a)
    (hb : ∃ f, s'.bell = { s.bell with stamp := f }) (htr : ∀ e ∈ s.trace, e ∈ s'.trace) :
    ApiOk M hot s v s' := by
  have hs := hg.inv.shape
  have hx : Ext s v s' v :=
    Ext.of_grow (fun _ _ => rfl) (fun a ha k hk => by rw [ha] at hk; cases hk)
      (fun a _ => congrFun hu a) hl hQh hiqh (fun _ _ => ⟨rfl, rfl⟩) hst hb
      (fun _ _ => ⟨[], (List.append_nil _).symm⟩) ⟨[], rfl⟩ htr
  refine ⟨v, home, ⟨hi, ?_⟩, hx, fun hst => hst.same hx hs rfl⟩
  have ht := hg.tidy
  exact
    { pipeQh := by rw [hpipe, hep]; exact ht.pipeQh
      pipeInj := by rw [hpipe]; exact ht.pipeInj
      ringPipe := by rw [hpipe]; exact ht.ringPipe
      pipeIso := by rw [hpipe, hiso]; exact ht.pipeIso
      pipeEd := by rw [hpipe]; exact ht.pipeEd
      isoType := by rw [hiso, hep]; exact ht.isoType
      ep0 := by rw [hep]; exact ht.ep0
      single := fun h hc => ht.single h (by
        rcases hc with hc | hc | ⟨hc, hn⟩
        · exact .inl hc
        · exact .inr (.inl hc)
        · exact .inr (.inr ⟨hc, by rw [← hu]; exact hn⟩)) }

theorem ApiOk.refl (hg : Good M hot home s v) : ApiOk M hot s v s :=
  ⟨v, home, hg, .refl s v, id⟩

/-- A refused interrupt transfer changes nothing but the order of the free units. -/
theorem Good.intFails (hg : Good M hot home s v) (he : s.utrEp u = some e) {r : Int} (hr : r ≠ 0)
    (h : ehciIntXfer u s = some (r, s')) : ApiOk M hot s v s' := by
  have hs := hg.inv.shape
  unfold ehciIntXfer at h
  obtain ⟨e', he', h⟩ := Option.bind_eq_some_iff.mp h
  obtain rfl := Option.some.inj (he.symm.trans he')
  have hstart : ∀ {b : Bool} {q qtd : Addr} {s₁ : Ehci},
      intStart u e q qtd b s₁ ≠ some (r, s') := by
    intro b q qtd s₁ h
    obtain ⟨_, _, he⟩ := Option.map_eq_some_iff.mp (show Option.map _ _ = _ from h)
    exact hr (Prod.mk.inj he).1.symm
  split at h
  · split at h
    · obtain rfl := (Prod.mk.inj (Option.some.inj h)).2
      exact .refl hg
    · unfold intOnQh at h
      split at h
      · obtain rfl := (Prod.mk.inj (Option.some.inj h)).2
        exact .refl hg
      · exact absurd h hstart
  · rename_i hp
    split at h
    · obtain rfl := (Prod.mk.inj (Option.some.inj h)).2
      exact .refl hg
    · rename_i qh s₁ ha
      obtain ⟨hi₁, hfree, hq₁, hst, -⟩ := hg.inv.allocQh ha
      obtain ⟨sw, hw, h⟩ := Option.bind_eq_some_iff.mp h
      obtain ⟨f, g, rfl⟩ := writeQh_eq hw
      unfold intOnQh at h
      split at h
      · obtain rfl := (Prod.mk.inj (Option.some.inj h)).2
        have hself : (v.become qh (.held .qh)).role qh = .held .qh := Function.update_self ..
        have hback : (v.become qh (.held .qh)).become qh .free = v := by
          show ({ v with
            role := Function.update (Function.update v.role qh (.held .qh)) qh .free } : View) = v
          rw [Function.update_idem, ← hfree, Function.update_eq_self]
        have hempty : v.queued qh = [] ∧ v.done qh = [] := by
          constructor <;> refine List.eq_nil_iff_forall_not_mem.mpr fun b hb => ?_
          · cases hs.unused qh hfree .qh (hs.queuedQh qh b hb)
          · cases hs.unused qh hfree .qh (hs.doneQh qh b hb)
        have hi₂ : Inv M (fun _ => []) hot home ((writeIntQh (s₁.utr u).udev e qh
            { s₁ with udev := f, qhHw := g }).setHwPipe e (.qh qh)) (v.become qh (.held .qh)) :=
          (hi₁.setHwPipe e (.qh qh)).scratch ..
        have hi₃ := (hi₂.freeHeld hself (fun _ => hempty) fun _ _ _ r hr => by
          rw [show ((writeIntQh (s₁.utr u).udev e qh
            { s₁ with udev := f, qhHw := g }).setHwPipe e (.qh qh)).bell = s₁.bell from rfl, hst] at hr
          cases hr).setHwPipe e .null
        rw [hback] at hi₃
        have hused := fun a => hs.used_unit (a := a)
        refine ApiOk.same hg hi₃ ?_ hq₁.ep hq₁.isoEpEp hq₁.insertedUnder hq₁.hQh hq₁.iqh
          (fun a ha => ?_) (fun a ha => ?_) hq₁.bell fun e he => ?_
        · show Function.update (Function.update s₁.hwPipe e (.qh qh)) e .null = _
          rw [Function.update_idem, hq₁.hwPipe, ← hp, Function.update_eq_self]
        · obtain ⟨k, hk⟩ := hused a (by rw [ha]; exact Role.noConfusion)
          exact (hq₁.used a k hk).2.1
        · obtain ⟨k, hk⟩ := hused a ha
          exact (hq₁.used a k hk).2.2
        · refine List.mem_cons_of_mem _ (show e ∈ s₁.trace from ?_)
          rw [hq₁.trace]
          exact he
      · exact absurd h hstart
  · cases h

end Ma35d1.UsbHost.Ehci
