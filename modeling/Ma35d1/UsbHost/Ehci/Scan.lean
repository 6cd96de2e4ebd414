import Ma35d1.UsbHost.Ehci.Progress

/-!
# The scans of the asynchronous and the interrupt QHs

A scan moves retired qTDs from the `qtd_list` of a QH to its `done_list` and
completes the request when the list is empty. While a callback runs, the QH the
scan stands at may be quit, or other QHs may be linked behind it; the scan goes on
from a QH of the same class.
-/

namespace Ma35d1.UsbHost.Ehci

open Heap.LinkedPath Heap.IntervalTree Relation

variable {M : Mode} {hand : UtrId → List (List Nat)} {hot : Ptr} {home : UtrId → Home}
  {s s' s₁ s₂ : Ehci} {v v' v₁ v₂ : View} {m : Links} {a b h qh t : Addr} {u : UtrId} {env : Env}
  {n : Nat}

/-! ## The next QH -/

/-- Behind a QH of the asynchronous schedule comes one of that schedule. -/
theorem AsyncClass.next (hc : AsyncClass m v qh) (hs : Shape m v) (hst : Stale m v)
    (hne : qh ≠ m.hQh) (hn : (m.hLink qh).ptr = some b) : AsyncClass m v b := by
  rcases hc with hr | hr | ⟨hr, hu⟩
  · exact absurd ((hs.head qh).mp hr) hne
  · have hm : qh ∈ v.ring := (hs.mem .async qh rfl).mpr hr
    rcases hs.ring.next_eq (List.mem_cons_of_mem _ hm) with ⟨c, hc, he⟩ | he <;> rw [he] at hn <;>
      obtain rfl := Option.some.inj hn
    · exact .inr (.inl (hs.role_async hc))
    · exact .inl hs.role_head
  · obtain ⟨c, he, hc⟩ := hst.async qh ((hs.mem .removed qh rfl).mpr hr) hu
    rw [he] at hn
    obtain rfl := Option.some.inj hn
    exact hc

theorem intClass_of_chain (hs : Shape m v) (ha : a ∈ chainFrom m.iqh v.under numIqh) :
    IntClass m v a := by
  obtain ⟨i, -, hr | hr⟩ := hs.role_chain ha
  · exact .inl ⟨i, hr⟩
  · exact .inr (.inl ⟨i, hr⟩)

/-- Behind a QH of the periodic schedule comes one of that schedule. -/
theorem IntClass.next (hc : IntClass m v qh) (hs : Shape m v) (hst : Stale m v)
    (hn : (m.hLink qh).ptr = some b) : IntClass m v b := by
  have hchain : qh ∈ chainFrom m.iqh v.under numIqh → IntClass m v b := by
    intro hm
    rcases hs.chain.next_eq hm with ⟨c, hc, he⟩ | he <;> rw [he] at hn
    · obtain rfl := Option.some.inj hn
      exact intClass_of_chain hs (List.mem_of_mem_tail hc)
    · cases hn
  rcases hc with ⟨i, hr⟩ | ⟨i, hr⟩ | ⟨hr, hu⟩
  · obtain ⟨hi, rfl⟩ := (hs.iqhRole i qh).mp hr
    exact hchain (mem_chainFrom.mpr ⟨i, hi, .inl rfl⟩)
  · have hm : qh ∈ v.under i := (hs.mem (.intr i) qh rfl).mpr hr
    exact hchain (mem_chainFrom.mpr ⟨i, hs.intrLt i qh hm, .inr hm⟩)
  · rcases hst.intr qh ((hs.mem .removed qh rfl).mpr hr) hu with he | ⟨c, he, hc⟩ <;> rw [he] at hn
    · cases hn
    · obtain rfl := Option.some.inj hn
      exact hc

theorem AsyncClass.unit (hc : AsyncClass m v qh) (hs : Shape m v) : m.pool.unit qh = some .qh := by
  rcases hc with h | h | ⟨h, _⟩ <;> exact hs.unit_of_role h rfl

theorem IntClass.unit (hc : IntClass m v qh) (hs : Shape m v) : m.pool.unit qh = some .qh := by
  rcases hc with ⟨i, h⟩ | ⟨i, h⟩ | ⟨h, _⟩ <;> exact hs.unit_of_role h rfl

/-! ## What reclaiming leaves in place -/

/-- qTDs of `qh` went to its done list or became free, and nothing else moved. -/
structure Reclaimed (qh : Addr) (s : Ehci) (v : View) (s' : Ehci) (v' : View) : Prop where
  role : ∀ a, v'.role a = v.role a ∨
    ((v.role a = .queued qh ∨ v.role a = .done qh) ∧ (v'.role a = .done qh ∨ v'.role a = .free))
  lists : v'.ring = v.ring ∧ v'.under = v.under ∧ v'.removed = v.removed ∧ v'.isoEps = v.isoEps
  other : ∀ h, h ≠ qh → v'.queued h = v.queued h
  length : (v'.queued qh).length ≤ (v.queued qh).length
  links : s'.hLink = s.hLink ∧ s'.insertedUnder = s.insertedUnder ∧ s'.hQh = s.hQh ∧ s'.iqh = s.iqh
  words : s'.hwPipe = s.hwPipe ∧ s'.ep = s.ep ∧ s'.isoEpEp = s.isoEpEp
  serving : s'.bell.serving = s.bell.serving

theorem Reclaimed.of_links (hl : s'.toLinks = s.toLinks) (hs : s'.bell.serving = s.bell.serving) :
    Reclaimed qh s v s' v where
  role _ := .inl rfl
  lists := ⟨rfl, rfl, rfl, rfl⟩
  other _ _ := rfl
  length := Nat.le_refl _
  links := by rw [hl]; exact ⟨rfl, rfl, rfl, rfl⟩
  words := by rw [hl]; exact ⟨rfl, rfl, rfl⟩
  serving := hs

theorem Reclaimed.trans (h : Reclaimed qh s v s₁ v₁) (h' : Reclaimed qh s₁ v₁ s₂ v₂) :
    Reclaimed qh s v s₂ v₂ where
  role a := by
    rcases h.role a with hr | ⟨hr, hr'⟩
    · rw [← hr]; exact h'.role a
    · rcases h'.role a with hr₂ | ⟨_, hr₂⟩
      · exact .inr ⟨hr, by rw [hr₂]; exact hr'⟩
      · exact .inr ⟨hr, hr₂⟩
  lists := by
    obtain ⟨h₁, h₂, h₃, h₄⟩ := h.lists
    obtain ⟨h₁', h₂', h₃', h₄'⟩ := h'.lists
    exact ⟨h₁'.trans h₁, h₂'.trans h₂, h₃'.trans h₃, h₄'.trans h₄⟩
  other b hb := (h'.other b hb).trans (h.other b hb)
  length := Nat.le_trans h'.length h.length
  links := by
    obtain ⟨h₁, h₂, h₃, h₄⟩ := h.links
    obtain ⟨h₁', h₂', h₃', h₄'⟩ := h'.links
    exact ⟨h₁'.trans h₁, h₂'.trans h₂, h₃'.trans h₃, h₄'.trans h₄⟩
  words := by
    obtain ⟨h₁, h₂, h₃⟩ := h.words
    obtain ⟨h₁', h₂', h₃'⟩ := h'.words
    exact ⟨h₁'.trans h₁, h₂'.trans h₂, h₃'.trans h₃⟩
  serving := h'.serving.trans h.serving

theorem Reclaimed.role_iff (h : Reclaimed qh s v s' v') {r : Role} (hq : r ≠ .queued qh)
    (hd : r ≠ .done qh) (hf : r ≠ .free) : v'.role a = r ↔ v.role a = r := by
  rcases h.role a with he | ⟨he, he'⟩
  · rw [he]
  · constructor
    · rintro rfl
      rcases he' with he' | he'
      · exact absurd he' hd
      · exact absurd he' hf
    · rintro rfl
      rcases he with he | he
      · exact absurd he hq
      · exact absurd he hd

theorem Reclaimed.asyncClass (h : Reclaimed qh s v s' v') :
    AsyncClass s'.toLinks v' a ↔ AsyncClass s.toLinks v a := by
  unfold AsyncClass
  rw [h.role_iff Role.noConfusion Role.noConfusion Role.noConfusion,
    h.role_iff Role.noConfusion Role.noConfusion Role.noConfusion,
    h.role_iff Role.noConfusion Role.noConfusion Role.noConfusion, h.links.2.1]

theorem Reclaimed.intClass (h : Reclaimed qh s v s' v') :
    IntClass s'.toLinks v' a ↔ IntClass s.toLinks v a := by
  have h₁ : ∀ i, v'.role a = .iqh i ↔ v.role a = .iqh i := fun i =>
    h.role_iff Role.noConfusion Role.noConfusion Role.noConfusion
  have h₂ : ∀ i, v'.role a = .intr i ↔ v.role a = .intr i := fun i =>
    h.role_iff Role.noConfusion Role.noConfusion Role.noConfusion
  have h₃ : v'.role a = .removed ↔ v.role a = .removed :=
    h.role_iff Role.noConfusion Role.noConfusion Role.noConfusion
  unfold IntClass
  simp only [h₁, h₂, h₃, h.links.2.1]

theorem Reclaimed.tidy (h : Reclaimed qh s v s' v') (ht : Tidy s.toLinks v) :
    Tidy s'.toLinks v' := by
  obtain ⟨hring, hunder, -, heps⟩ := h.lists
  obtain ⟨hpipe, hep, hiso⟩ := h.words
  exact
    { pipeQh := by rw [hpipe, hep, hring, hunder]; exact ht.pipeQh
      pipeInj := by rw [hpipe]; exact ht.pipeInj
      ringPipe := by rw [hpipe, hring]; exact ht.ringPipe
      pipeIso := by rw [hpipe, hiso, heps]; exact ht.pipeIso
      pipeEd := by rw [hpipe]; exact ht.pipeEd
      isoType := by rw [hiso, hep, heps]; exact ht.isoType
      ep0 := by rw [hep]; exact ht.ep0
      single := fun b hb => by
        have hb' := ht.single b (h.intClass.mp hb)
        by_cases hbq : b = qh
        · subst hbq; exact Nat.le_trans h.length hb'
        · rw [h.other b hbq]; exact hb' }

theorem Reclaimed.stale (h : Reclaimed qh s v s' v') (hst : Stale s.toLinks v) :
    Stale s'.toLinks v' := by
  obtain ⟨-, -, hrem, -⟩ := h.lists
  obtain ⟨hl, hu, -, -⟩ := h.links
  constructor
  · intro b hb hn
    rw [hrem] at hb
    rw [hu] at hn
    obtain ⟨c, hc, hcl⟩ := hst.async b hb hn
    exact ⟨c, by rw [hl]; exact hc, h.asyncClass.mpr hcl⟩
  · intro b hb hn
    rw [hrem] at hb
    rw [hu] at hn
    rw [hl]
    exact (hst.intr b hb hn).imp_right fun ⟨c, hc, hcl⟩ => ⟨c, hc, h.intClass.mpr hcl⟩

theorem Reclaimed.held (h : Reclaimed qh s v s' v') (hh : ∀ a k, v.role a ≠ .held k) :
    ∀ a k, v'.role a ≠ .held k := fun a k he =>
  hh a k ((h.role_iff Role.noConfusion Role.noConfusion Role.noConfusion).mp he)

/-- A qTD leaves the queue of `qh` for its done list. -/
theorem reclaimed_move (ht : t ∈ v.queued qh) (hs : Shape s.toLinks v)
    (hl : s₁.hLink = s.hLink ∧ s₁.insertedUnder = s.insertedUnder ∧ s₁.hQh = s.hQh ∧ s₁.iqh = s.iqh)
    (hw : s₁.hwPipe = s.hwPipe ∧ s₁.ep = s.ep ∧ s₁.isoEpEp = s.isoEpEp)
    (hb : s₁.bell.serving = s.bell.serving) :
    Reclaimed qh s v s₁ ((v.takeQueued qh t).putDone qh t) where
  role a := by
    have hrole : ((v.takeQueued qh t).putDone qh t).role = Function.update v.role t (.done qh) :=
      Function.update_idem ..
    rw [hrole]
    by_cases hat : a = t
    · subst hat
      exact .inr ⟨.inl (hs.role_queued ht), .inl (Function.update_self ..)⟩
    · exact .inl (Function.update_of_ne hat ..)
  lists := ⟨rfl, rfl, rfl, rfl⟩
  other h hh := Function.update_of_ne hh ..
  length := by
    show (Function.update v.queued qh ((v.queued qh).erase t) qh).length ≤ _
    rw [Function.update_self]
    exact List.length_erase_le
  links := hl
  words := hw
  serving := hb

/-! ## Reclaiming the qTDs of a QH -/

theorem visitQtd_utr {ok : Bool} (h : visitQtd t s = some (ok, s')) :
    ∃ f, s' = { s with utr := f } := by
  unfold visitQtd at h
  dsimp only at h
  split at h
  · rw [← (Prod.mk.inj (Option.some.inj h)).2]; exact ⟨_, rfl⟩
  split at h
  · obtain ⟨w, -, h⟩ := Option.bind_eq_some_iff.mp h
    rw [← (Prod.mk.inj (Option.some.inj h)).2]
    split
    · exact ⟨_, rfl⟩
    · exact ⟨_, rfl⟩
  split at h
  · obtain ⟨w, -, h⟩ := Option.bind_eq_some_iff.mp h
    rw [← (Prod.mk.inj (Option.some.inj h)).2]
    exact ⟨_, rfl⟩
  · rw [← (Prod.mk.inj (Option.some.inj h)).2]; exact ⟨_, rfl⟩

/-- The loop over the queue of one QH; `l₁` is what it left behind, `l₂` what is to come. -/
theorem reclaimQtds_ok {l₁ l₂ : List Addr} {w w' : Option UtrId}
    (hc : ∀ s, ReflTransGen HcStep s (env.hc s)) (hi : Inv M hand hot home s v)
    (hl : v.queued qh = l₁ ++ l₂) (hunit : s.pool.unit qh = some .qh)
    (hw : ∀ u, w = some u → M.own = completed → home u = .qh qh)
    (h : reclaimQtds env qh n l₂.head? l₁.getLast? w s = some (w', s')) :
    ∃ v', Inv M hand hot home s' v' ∧ Reclaimed qh s v s' v' ∧
      (∀ u, w' = some u → M.own = completed → home u = .qh qh) ∧
      (s'.qtdList qh = none → v'.queued qh = []) := by
  induction l₂ generalizing n l₁ w s v with
  | nil =>
    cases n with
    | zero => cases h
    | succ n =>
      obtain ⟨rfl, rfl⟩ := Prod.mk.inj (Option.some.inj h)
      refine ⟨v, hi, .of_links rfl rfl, hw, fun hnone => ?_⟩
      have hp := hi.shape.queued qh hunit
      rw [hnone] at hp
      cases hq : v.queued qh with
      | nil => rfl
      | cons b l => rw [hq] at hp; cases hp.1
  | cons t l₂ ih =>
    cases n with
    | zero => cases h
    | succ n =>
      obtain ⟨⟨ok, s₁⟩, hv, h⟩ := Option.bind_eq_some_iff.mp (show Option.bind _ _ = _ from h)
      obtain ⟨f, rfl⟩ := visitQtd_utr hv
      obtain ⟨hi₁, hst⟩ := hi.hcSteps (hc s)
      have hi₂ : Inv M hand hot home { env.hc s with utr := f } v := hi₁.scratch ..
      have hr₂ : Reclaimed qh s v { env.hc s with utr := f } v := .of_links hst.links hst.serving
      have hunit₂ : ({ env.hc s with utr := f } : Ehci).pool.unit qh = some .qh := by
        rw [show ({ env.hc s with utr := f } : Ehci).pool = s.pool by
          rw [show ({ env.hc s with utr := f } : Ehci).toLinks = s.toLinks from hst.links]]
        exact hunit
      have hnext : (env.hc s).qtdNext t = l₂.head? := by
        have hp := hi₂.shape.queued qh hunit₂
        rw [hl] at hp
        have hp₂ := hp.start_eq.2
        cases l₂ with
        | nil => exact hp₂
        | cons b l => exact hp₂.1
      cases ok with
      | false =>
        have h' : reclaimQtds env qh n ((env.hc s).qtdNext t) (some t) w
            { env.hc s with utr := f } = some (w', s') := h
        rw [hnext, show some t = (l₁ ++ [t]).getLast? by simp] at h'
        obtain ⟨v', hi', hr', hw', hq'⟩ := ih hi₂ (by rw [hl]; simp) hunit₂ hw h'
        exact ⟨v', hi', hr₂.trans hr', hw', hq'⟩
      | true =>
        obtain ⟨s₃, hun, hi₃, heq, hnx, -⟩ := hi₂.reclaimQtd hl
        obtain ⟨s₄, hun', h⟩ := Option.bind_eq_some_iff.mp (show Option.bind _ _ = _ from h)
        obtain rfl := Option.some.inj (hun'.symm.trans hun)
        have htm : t ∈ v.queued qh := by rw [hl]; simp
        have hmove : Reclaimed qh { env.hc s with utr := f } v (pushDone qh t s₄)
            ((v.takeQueued qh t).putDone qh t) := by
          refine reclaimed_move htm hi₂.shape ?_ ?_ ?_
          · rw [heq]; exact ⟨rfl, rfl, rfl, rfl⟩
          · rw [heq]; exact ⟨rfl, rfl, rfl⟩
          · rw [heq]; rfl
        rw [hnx, show ({ env.hc s with utr := f } : Ehci).qtdNext t = l₂.head? from hnext] at h
        have hl₃ : ((v.takeQueued qh t).putDone qh t).queued qh = l₁ ++ l₂ := by
          show Function.update v.queued qh ((v.queued qh).erase t) qh = _
          have hnd := hi.shape.queued_nodup qh
          rw [hl] at hnd
          have hnm : t ∉ l₁ := fun hm => (List.nodup_append.mp hnd).2.2 t hm t (by simp) rfl
          rw [Function.update_self, hl, List.erase_append_right _ hnm, List.erase_cons_head]
        have hunit₃ : (pushDone qh t s₄).pool.unit qh = some .qh := by
          rw [show (pushDone qh t s₄).pool = s₄.pool from rfl, heq]
          exact hunit₂
        have hw₃ : ∀ u, s₄.qtdUtr t = some u → M.own = completed → home u = .qh qh := by
          intro u hu ho
          obtain ⟨w, hcw, hhome⟩ := (hi₂.acct ho).qtds.carried qh t htm
          rw [heq] at hu
          obtain rfl := Option.some.inj (hu.symm.trans hcw)
          exact hhome
        obtain ⟨v', hi', hr', hw', hq'⟩ := ih hi₃ hl₃ hunit₃ hw₃ h
        exact ⟨v', hi', (hr₂.trans hmove).trans hr', hw', hq'⟩

/-! ## Completing the request -/

theorem ApiOk.ring (h : ApiOk M hot s v s') : ApiOk M hot s v s'.ringDoorbell := by
  obtain ⟨v', home', hg, hx, hs⟩ := h
  have hl : s'.ringDoorbell.toLinks = s'.toLinks := ringDoorbell_toLinks s'
  refine ⟨v', home', ⟨hg.inv.ringDoorbell, by rw [hl]; exact hg.tidy⟩, ?_, fun hst => by
    rw [hl]; exact hs hst⟩
  have hserv : s'.ringDoorbell.bell.serving = s'.bell.serving := by
    unfold ringDoorbell
    split <;> rfl
  have htr : s'.ringDoorbell.trace = s'.trace := by
    unfold ringDoorbell
    split <;> rfl
  exact
    { held := hx.held, head := hx.head, iqhRole := hx.iqhRole
      async := by rw [hl]; exact hx.async
      intr := by rw [hl]; exact hx.intr
      removed := by rw [hl]; exact hx.removed
      hQh := by rw [hl]; exact hx.hQh
      iqh := by rw [hl]; exact hx.iqh
      lists := hx.lists
      stamp := fun a k ha hst => (hx.stamp a k ha hst).ring
      serving := hserv.trans hx.serving, tds := hx.tds, isoEps := hx.isoEps
      trace := by rw [htr]; exact hx.trace }

/-- The completion of a request whose qTDs are all reclaimed. -/
theorem Good.completeScan (hg : Good M hot home s v) (hh : HeldQh v) (he : EnvKeeps M env)
    (hu : M.own = completed → home u = .qh qh ∧ v.queued qh = [])
    (h : completeScan env qh u s = some s') : ApiOk M hot s v s' := by
  obtain ⟨s₁, hsave, rfl⟩ := Option.map_eq_some_iff.mp (show Option.map _ _ = _ from h)
  obtain ⟨e, -, rfl⟩ := Option.map_eq_some_iff.mp (show Option.map _ _ = _ from hsave)
  have hi : Inv M (fun _ => []) hot home { s with
      bToggle := Function.update s.bToggle e ((s.qhHw qh).olToken &&& qtdDt != 0#32) } v :=
    hg.inv.scratch ..
  have hok := hi.complete (u := u) hg.tidy hh he (fun _ _ => rfl) rfl (fun ho => by
    obtain ⟨hq, hnil⟩ := hu ho
    refine ⟨by rw [hq]; exact Home.noConfusion, fun h he' => ?_, fun k x he' => ?_, fun h => absurd rfl h⟩
    · rw [hq] at he'
      rw [← Home.qh.inj he', hnil]
    · rw [hq] at he'
      cases he') (s.tdCnt u)
  rw [Function.update_eq_self] at hok
  obtain ⟨v', home', hg', hx, hst⟩ := hok.ring
  exact ⟨v', home', hg', { hx with }, hst⟩

/-! ## The scans -/

theorem scanQhs_ok (he : EnvKeeps M env) (hd : Idle M none s v)
    (hc : AsyncClass s.toLinks v qh) (h : scanQhs env n qh s = some s') :
    ∃ v', Idle M none s' v' ∧ s'.bell.serving = s.bell.serving := by
  induction n generalizing qh s v with
  | zero => cases h
  | succ n ih =>
    rw [scanQhs] at h
    split at h
    · rw [← Option.some.inj h]
      exact ⟨v, hd, rfl⟩
    rename_i hne
    obtain ⟨⟨w, s₁⟩, hrec, h⟩ := Option.bind_eq_some_iff.mp h
    obtain ⟨home, hg⟩ := hd.good
    have hunit := hc.unit hd.shape
    have hhead : s.qtdList qh = (v.queued qh).head? := by
      have hp := hd.shape.queued qh hunit
      cases hq : v.queued qh with
      | nil => rw [hq] at hp; exact hp
      | cons b l => rw [hq] at hp; exact hp.1
    rw [hhead] at hrec
    obtain ⟨v₁, hi₁, hr₁, hw₁, hq₁⟩ := reclaimQtds_ok he.hc hg.inv (List.nil_append _).symm hunit
      (fun u hu => by cases hu) hrec
    have hd₁ : Idle M none s₁ v₁ :=
      ⟨⟨home, hi₁, hr₁.tidy hg.tidy⟩, hr₁.stale hd.stale, hr₁.held hd.held⟩
    have hc₁ := hr₁.asyncClass.mpr hc
    obtain ⟨s₂, hcomp, h⟩ := Option.bind_eq_some_iff.mp h
    obtain ⟨b, hb, h⟩ := Option.bind_eq_some_iff.mp h
    have hnext := hc₁.next hd₁.shape hd₁.stale (by rw [hr₁.links.2.2.1]; exact hne) hb
    obtain ⟨v₂, hd₂, hx₂⟩ : ∃ v₂, Idle M none s₂ v₂ ∧ Ext s₁ v₁ s₂ v₂ := by
      unfold finishQh at hcomp
      split at hcomp
      · rename_i u hnone hw
        have hok := Good.completeScan ⟨hi₁, hd₁.tidy⟩ hd₁.heldQh he
          (fun ho => ⟨hw₁ u hw ho, hq₁ hnone⟩) hcomp
        exact hok.idle hd₁.stale hd₁.held
      · rw [← Option.some.inj hcomp]
        exact ⟨v₁, hd₁, .refl s₁ v₁⟩
    obtain ⟨v', hd', hs'⟩ := ih hd₂ (hx₂.asyncClass hd₁.shape hnext) h
    exact ⟨v', hd', hs'.trans (hx₂.serving.trans hr₁.serving)⟩

theorem scanAsynchronousList_ok (he : EnvKeeps M env) (hd : Idle M none s v)
    (h : scanAsynchronousList env n s = some s') :
    ∃ v', Idle M none s' v' ∧ s'.bell.serving = s.bell.serving := by
  obtain ⟨b, hb, h⟩ := Option.bind_eq_some_iff.mp (show Option.bind _ _ = _ from h)
  refine scanQhs_ok he hd ?_ h
  rcases hd.shape.ring.next_eq List.mem_cons_self with ⟨c, hc, hl⟩ | hl <;> rw [hl] at hb <;>
    obtain rfl := Option.some.inj hb
  · exact .inr (.inl (hd.shape.role_async hc))
  · exact .inl hd.shape.role_head

theorem scanIntQhs_ok {cur : Ptr} (he : EnvKeeps M env) (hd : Idle M none s v)
    (hc : ∀ q, cur = some q → IntClass s.toLinks v q) (h : scanIntQhs env n cur s = some s') :
    ∃ v', Idle M none s' v' ∧ s'.bell.serving = s.bell.serving := by
  induction n generalizing cur s v with
  | zero => cases h
  | succ n ih =>
    cases cur with
    | none =>
      rw [← Option.some.inj h]
      exact ⟨v, hd, rfl⟩
    | some qh =>
      have hc' := hc qh rfl
      have hunit := hc'.unit hd.shape
      rw [scanIntQhs] at h
      split at h
      · exact ih hd (fun q hq => hc'.next hd.shape hd.stale hq) h
      rename_i qtd hqtd
      obtain ⟨⟨ok, s₁⟩, hv, hrest⟩ := Option.bind_eq_some_iff.mp h
      obtain ⟨s₂, hcomp, hloop⟩ := Option.bind_eq_some_iff.mp hrest
      obtain ⟨f, rfl⟩ := visitQtd_utr hv
      obtain ⟨hd₀, hst⟩ := hd.hcSteps (he.hc s)
      obtain ⟨home, hg⟩ := hd₀.good
      have hi₁ : Inv M (fun _ => []) none home { env.hc s with utr := f } v := hg.inv.scratch ..
      have hd₁ : Idle M none { env.hc s with utr := f } v :=
        ⟨⟨home, hi₁, hg.tidy⟩, hd₀.stale, hd₀.held⟩
      have hc₁ : IntClass ({ env.hc s with utr := f } : Ehci).toLinks v qh := by
        rw [show ({ env.hc s with utr := f } : Ehci).toLinks = s.toLinks from hst.links]
        exact hc'
      have hq : v.queued qh = [qtd] := by
        have hp := hd.shape.queued qh hunit
        have hlen := hd.tidy.single qh hc'
        rw [hqtd] at hp
        cases hl : v.queued qh with
        | nil => rw [hl] at hp; cases hp
        | cons c l =>
          rw [hl] at hp hlen
          rw [show l = [] from List.length_eq_zero_iff.mp (by simpa using hlen), ← Option.some.inj hp.1]
      -- where the scan stands when the callback, if any, has returned
      obtain ⟨v₂, hd₂, hc₂, hs₂⟩ : ∃ v₂, Idle M none s₂ v₂ ∧ IntClass s₂.toLinks v₂ qh ∧
          s₂.bell.serving = (env.hc s).bell.serving := by
        cases ok with
        | false =>
          have hcomp' : finishIntQh env qh { env.hc s with utr := f } = some s₂ := hcomp
          unfold finishIntQh at hcomp'
          split at hcomp'
          · rename_i hnone
            rw [show ({ env.hc s with utr := f } : Ehci).toLinks = s.toLinks from hst.links,
              hqtd] at hnone
            cases hnone
          · rw [← Option.some.inj hcomp']
            exact ⟨v, hd₁, hc₁, rfl⟩
        | true =>
          have ht : qtd ∈ v.queued qh := by rw [hq]; exact List.mem_singleton.mpr rfl
          have hi₂ := hi₁.takeInt hq
          have hmove : Reclaimed qh { env.hc s with utr := f } v
              (takeIntQtd qh qtd { env.hc s with utr := f }) ((v.takeQueued qh qtd).putDone qh qtd) :=
            reclaimed_move ht hi₁.shape ⟨rfl, rfl, rfl, rfl⟩ ⟨rfl, rfl, rfl⟩ rfl
          have hd₂ : Idle M none (takeIntQtd qh qtd { env.hc s with utr := f })
              ((v.takeQueued qh qtd).putDone qh qtd) :=
            ⟨⟨home, hi₂, hmove.tidy hg.tidy⟩, hmove.stale hd₁.stale, hmove.held hd₁.held⟩
          have hempty : ((v.takeQueued qh qtd).putDone qh qtd).queued qh = [] := by
            show Function.update v.queued qh ((v.queued qh).erase qtd) qh = []
            rw [Function.update_self, hq]
            exact List.erase_cons_head ..
          have hcomp' : finishIntQh env qh (takeIntQtd qh qtd { env.hc s with utr := f }) =
            some s₂ := hcomp
          unfold finishIntQh at hcomp'
          split at hcomp'
          · rename_i q hdone hnone
            obtain ⟨u, hu, hcomp⟩ := Option.bind_eq_some_iff.mp hcomp'
            have hqq : q = qtd := by
              have hself : (takeIntQtd qh qtd { env.hc s with utr := f }).doneList qh = some qtd :=
                Function.update_self ..
              exact Option.some.inj (hdone.symm.trans hself)
            subst hqq
            obtain ⟨v₃, hd₃, hx₃⟩ := (Good.completeScan (u := u) ⟨hi₂, hd₂.tidy⟩ hd₂.heldQh he
              (fun ho => by
                obtain ⟨w, hw, hhome⟩ := (hi₁.acct ho).qtds.carried qh q ht
                obtain rfl := Option.some.inj (hu.symm.trans hw)
                exact ⟨hhome, hempty⟩) hcomp).idle hd₂.stale hd₂.held
            exact ⟨v₃, hd₃, hx₃.intClass hd₂.shape (hmove.intClass.mpr hc₁), hx₃.serving⟩
          · rw [← Option.some.inj hcomp']
            exact ⟨_, hd₂, hmove.intClass.mpr hc₁, rfl⟩
      obtain ⟨v', hd', hs'⟩ := ih hd₂ (fun q hq => hc₂.next hd₂.shape hd₂.stale hq) hloop
      exact ⟨v', hd', hs'.trans (hs₂.trans hst.serving)⟩

end Ma35d1.UsbHost.Ehci
