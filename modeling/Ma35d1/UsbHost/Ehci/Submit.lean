import Ma35d1.UsbHost.Ehci.Boundary

/-!
# Control, bulk and interrupt submissions keep the invariant

An accepted submission fills the empty queue of one QH with qTDs that were free,
and links the QH if it is new.
-/

namespace Ma35d1.UsbHost.Ehci

open Heap.LinkedPath

variable {M : Mode} {hand : UtrId → List (List Nat)} {hot : Ptr} {home : UtrId → Home}
  {s s' : Ehci} {v v' v'' : View} {a h qh t : Addr} {u : UtrId} {l : List Addr}

/-! ## Filling a queue -/

/-- Free units have joined the queue of `h`, and nothing else has changed. -/
structure Filled (v v' : View) (h : Addr) : Prop where
  role : ∀ a, v.role a ≠ .free → v'.role a = v.role a
  fresh : ∀ a, v.role a = .free → v'.role a = .free ∨ v'.role a = .queued h
  other : ∀ b, b ≠ h → v'.queued b = v.queued b
  same : v' = { v with role := v'.role, queued := v'.queued }

theorem Filled.lists (hf : Filled v v' h) :
    v'.ring = v.ring ∧ v'.under = v.under ∧ v'.removed = v.removed ∧ v'.done = v.done ∧
      v'.tds = v.tds ∧ v'.isoEps = v.isoEps ∧ v'.frame = v.frame := by
  have hv := hf.same
  exact ⟨by rw [hv], by rw [hv], by rw [hv], by rw [hv], by rw [hv], by rw [hv], by rw [hv]⟩

theorem Filled.refl (v : View) (h : Addr) : Filled v v h :=
  ⟨fun _ _ => rfl, fun _ hf => .inl hf, fun _ _ => rfl, rfl⟩

theorem Filled.trans (h₁ : Filled v v' h) (h₂ : Filled v' v'' h) : Filled v v'' h where
  role a ha := by rw [h₂.role a (by rw [h₁.role a ha]; exact ha), h₁.role a ha]
  fresh a ha := by
    rcases h₁.fresh a ha with hf | hq
    · exact h₂.fresh a hf
    · exact .inr (by rw [h₂.role a (by rw [hq]; exact Role.noConfusion)]; exact hq)
  other b hb := (h₂.other b hb).trans (h₁.other b hb)
  same := by rw [h₂.same, h₁.same]

/-- One free unit, taken and put into the queue. -/
theorem Filled.one (hf : v.role t = .free) (h : Addr) :
    Filled v ((v.become t (.held .qtd)).putQueued h t) h where
  role a ha := by
    have hne : a ≠ t := fun he => ha (he ▸ hf)
    show Function.update (Function.update v.role t _) t _ a = _
    rw [Function.update_of_ne hne, Function.update_of_ne hne]
  fresh a ha := by
    by_cases hne : a = t
    · subst hne; exact .inr (Function.update_self ..)
    · refine .inl ?_
      show Function.update (Function.update v.role t _) t _ a = _
      rw [Function.update_of_ne hne, Function.update_of_ne hne]
      exact ha
  other b hb := Function.update_of_ne hb ..
  same := rfl

/-- What joining the units `l` to the queue of `h` in order does. -/
theorem putAll_spec (v : View) (h : Addr) (l : List Addr) :
    (∀ a, a ∈ l → (l.foldl (·.putQueued h ·) v).role a = .queued h) ∧
      (∀ a, a ∉ l → (l.foldl (·.putQueued h ·) v).role a = v.role a) ∧
      (l.foldl (·.putQueued h ·) v).queued = Function.update v.queued h (v.queued h ++ l) ∧
      l.foldl (·.putQueued h ·) v = { v with
        role := (l.foldl (·.putQueued h ·) v).role
        queued := (l.foldl (·.putQueued h ·) v).queued } := by
  induction l generalizing v with
  | nil => exact ⟨fun _ ha => absurd ha List.not_mem_nil, fun _ _ => rfl, by simp, rfl⟩
  | cons t l ih =>
    obtain ⟨h₁, h₂, h₃, h₄⟩ := ih (v.putQueued h t)
    refine ⟨fun a ha => ?_, fun a ha => ?_, ?_, h₄⟩
    · by_cases hal : a ∈ l
      · exact h₁ a hal
      · have hat : a = t := (List.mem_cons.mp ha).resolve_right hal
        rw [List.foldl_cons, h₂ a hal, hat]
        exact Function.update_self ..
    · obtain ⟨hat, hal⟩ := not_or.mp (mt List.mem_cons.mpr ha)
      rw [List.foldl_cons, h₂ a hal]
      exact Function.update_of_ne hat ..
    · rw [List.foldl_cons, h₃]
      show Function.update (Function.update v.queued h (v.queued h ++ [t])) h
        (Function.update v.queued h (v.queued h ++ [t]) h ++ l) = _
      simp

/-- Free units, taken one after the other and then put into the queue. -/
theorem Filled.all {v₁ : View} (hrole : ∀ a, a ∉ l → v₁.role a = v.role a)
    (hl : ∀ a ∈ l, v.role a = .free) (hv : v₁ = { v with role := v₁.role }) :
    Filled v (l.foldl (·.putQueued h ·) v₁) h := by
  obtain ⟨h₁, h₂, h₃, h₄⟩ := putAll_spec v₁ h l
  refine ⟨fun a ha => ?_, fun a ha => ?_, fun b hb => ?_, ?_⟩
  · have hal : a ∉ l := fun hm => ha (hl a hm)
    rw [h₂ a hal, hrole a hal]
  · by_cases hal : a ∈ l
    · exact .inr (h₁ a hal)
    · exact .inl (by rw [h₂ a hal, hrole a hal]; exact ha)
  · rw [h₃, Function.update_of_ne hb, hv]
  · rw [h₄, hv]

/-- The words of a QH that `write_qh` fills in, and the packet size it may guess. -/
theorem writeQh_eq {d : DevId} {ep : Option EpId} (h : writeQh d ep qh s = some s') :
    ∃ f g, s' = { s with udev := f, qhHw := g } := by
  unfold writeQh at h
  obtain ⟨cap, _, rfl⟩ := Option.map_eq_some_iff.mp h
  unfold guessMaxPacketSize0
  split <;> exact ⟨_, _, rfl⟩

/-- The qTDs `rest` of `u` are about to join the queue of `qh`, which holds qTDs of `u` only. -/
structure Filling (M : Mode) (hand : UtrId → List (List Nat)) (hot : Ptr) (home : UtrId → Home)
    (u : UtrId) (qh : Addr) (rest : List Addr) (s : Ehci) (v : View) : Prop where
  inv : Inv M hand hot home s v
  unit : s.pool.unit qh = some .qh
  psen : M.psenKept → s.psen = true ∨ ∀ i, qh ∉ v.under i
  home : M.own = completed → home u = .qh qh
  same : M.own = completed → ∀ q ∈ v.queued qh, s.qtdUtr q = some u
  held : ∀ t ∈ rest, v.role t = .held .qtd ∧ s.qtdNext t = none ∧ s.qtdUtr t = some u
  nodup : rest.Nodup

/-- The next qTD joins the queue. -/
theorem Filling.append (hf : Filling M hand hot home u qh (t :: l) s v) (tok : BitVec 32) :
    ∃ s', appendQtd qh t tok s = some s' ∧
      Filling M hand hot home u qh l s' (v.putQueued qh t) ∧ Quiet s s' ∧
      (s'.ghostQtd = s.ghostQtd ∧ s'.utr = s.utr ∧ s'.qtdHw = s.qtdHw ∧ s'.udev = s.udev) ∧
      s'.token t = tok ∧ (∀ b, b ≠ qh → s'.qtdList b = s.qtdList b) ∧ s'.qtdList qh ≠ none := by
  obtain ⟨ht, hn, hu⟩ := hf.held t List.mem_cons_self
  obtain ⟨hnm, hnd⟩ := List.nodup_cons.mp hf.nodup
  obtain ⟨ql, n, he, hi, hl, hlh, hnext⟩ := hf.inv.appendQtd (u := u) ht hf.unit hn
    (fun ho => ⟨hu, hf.home ho, hf.same ho⟩) hf.psen tok
  refine ⟨_, he, ⟨hi, hf.unit, hf.psen, hf.home, fun ho q hq => ?_, fun b hb => ?_, hnd⟩,
    ⟨fun _ _ h => ⟨h, rfl, rfl⟩, ⟨_, rfl⟩, rfl, rfl, rfl, rfl, rfl, rfl, rfl, rfl⟩,
    ⟨rfl, rfl, rfl, rfl⟩, Function.update_self .., hl, hlh⟩
  · have hq' : q ∈ Function.update v.queued qh (v.queued qh ++ [t]) qh := hq
    rw [Function.update_self] at hq'
    rcases List.mem_append.mp hq' with hq' | hq'
    · exact hf.same ho q hq'
    · rw [List.mem_singleton.mp hq']; exact hu
  · obtain ⟨hb₁, hb₂, hb₃⟩ := hf.held b (List.mem_cons_of_mem _ hb)
    have hne : b ≠ t := ne_of_mem_of_not_mem hb hnm
    have hoff : Off v b := .inr ⟨_, hb₁⟩
    exact ⟨(Function.update_of_ne hne ..).trans hb₁,
      (hnext b (hoff.not_mem hf.inv.shape (.queued qh))).trans hb₂, hb₃⟩

/-- Words of the descriptors are filled in. -/
theorem Filling.scratch (hf : Filling M hand hot home u qh l s v) (qhHw : Addr → QhHw)
    (qtdHw : Addr → QtdHw) (qtdXferLen : Addr → BitVec 32) (asen : Bool) :
    Filling M hand hot home u qh l
      { s with qhHw := qhHw, qtdHw := qtdHw, qtdXferLen := qtdXferLen, asen := asen } v :=
  ⟨hf.inv.scratch .., hf.unit, hf.psen, hf.home, hf.same, hf.held, hf.nodup⟩

theorem Quiet.scratch (s : Ehci) (qhHw : Addr → QhHw) (qtdHw : Addr → QtdHw)
    (qtdXferLen : Addr → BitVec 32) (udev : DevId → Udev) (utrEp : UtrId → Option EpId)
    (asen : Bool) :
    Quiet s { s with
      qhHw := qhHw, qtdHw := qtdHw, qtdXferLen := qtdXferLen, udev := udev, utrEp := utrEp
      asen := asen } :=
  ⟨fun _ _ h => ⟨h, rfl, rfl⟩, ⟨_, rfl⟩, rfl, rfl, rfl, rfl, rfl, rfl, rfl, rfl⟩

/-- One more qTD is allocated for `u`. -/
theorem Filling.alloc (hf : Filling M hand hot home u qh l s v)
    (h : s.allocEhciQtd (some u) = some (t, s')) :
    Filling M hand hot home u qh (l ++ [t]) s' (v.become t (.held .qtd)) ∧ v.role t = .free ∧
      Quiet s s' ∧ s'.utr = s.utr ∧ s'.qtdList = s.qtdList := by
  obtain ⟨hi, hfree, hq, hn, hu, hutr, hnext, hlist⟩ := hf.inv.allocQtd h
  have hoff : Off v t := .inl hfree
  have hlt : ∀ b ∈ l, b ≠ t := by
    rintro b hb rfl
    have hr := (hf.held b hb).1
    rw [hfree] at hr
    cases hr
  refine ⟨⟨hi, (hq.used qh .qh hf.unit).1, ?_, hf.home, fun ho q hm => ?_, fun b hb => ?_, ?_⟩,
    hfree, hq, hutr, hlist⟩
  · rw [hq.psen]; exact hf.psen
  · have hne := ne_of_mem_of_not_mem hm (hoff.not_mem hf.inv.shape (.queued qh))
    rw [hu, Function.update_of_ne hne]
    exact hf.same ho q hm
  · rcases List.mem_append.mp hb with hb | hb
    · obtain ⟨h₁, h₂, h₃⟩ := hf.held b hb
      have hne := hlt b hb
      exact ⟨(Function.update_of_ne hne ..).trans h₁, (hnext b hne).trans h₂, by
        rw [hu, Function.update_of_ne hne]; exact h₃⟩
    · obtain rfl := List.mem_singleton.mp hb
      exact ⟨Function.update_self .., hn, by rw [hu, Function.update_self]⟩
  · refine List.nodup_append.mpr ⟨hf.nodup, List.nodup_singleton t, fun b hb c hc => ?_⟩
    rw [List.mem_singleton.mp hc]
    exact hlt b hb

/-! ## Control transfers -/

/-- The stages of a control transfer go into the queue of their QH. -/
theorem ctrlStages_ok {setup status : Addr} {data : Option Addr}
    (hf : Filling M hand hot home u qh (setup :: (data.toList ++ [status])) s v) :
    ∃ s', ctrlStages u qh setup data status s = some s' ∧
      Filling M hand hot home u qh [] s'
        ((setup :: (data.toList ++ [status])).foldl (·.putQueued qh ·) v) ∧ Quiet s s' := by
  have hf₀ : Filling M hand hot home u qh (setup :: (data.toList ++ [status]))
    (writeQtdBptr setup (s.utr u).setupAddr 8 s) v := hf.scratch ..
  obtain ⟨s₁, he₁, hf₁, hq₁, -⟩ := hf₀.append
    ((8#32 <<< 16) ||| qtdErrCounter ||| qtdPidSetup ||| qtdStsActive)
  have hq₀ : Quiet s s₁ := (Quiet.scratch s ..).trans hq₁
  unfold ctrlStages
  dsimp only
  rw [he₁]
  cases data with
  | none =>
    have hf₂ : Filling M hand hot home u qh [status] (setAltNextQtd status .listEnd
      (setNextQtd status (.qtd s₁.ghostQtd) (setNextQtd setup (.qtd status) s₁)))
      (v.putQueued qh setup) := hf₁.scratch ..
    obtain ⟨s₂, he₂, hf₃, hq₂, -⟩ := hf₂.append (qtdDt ||| qtdIoc ||| (qtdErrCounter |||
      (if (s.utr u).setup.bmRequestType &&& 0x80#8 == 0#8 then qtdPidIn else qtdPidOut) |||
        qtdStsActive))
    simp only [Option.bind_eq_bind, Option.bind_some]
    rw [show (setNextQtd setup (.qtd status) s₁).ghostQtd = s₁.ghostQtd from rfl, he₂]
    exact ⟨_, rfl, hf₃.scratch .., (hq₀.trans (.scratch s₁ ..)).trans (hq₂.trans (.scratch s₂ ..))⟩
  | some d =>
    have hf₂ : Filling M hand hot home u qh [d, status] (writeQtdBptr d (s.utr u).buff
      (s.utr u).dataLen (setNextQtd d (.qtd status) (setNextQtd setup (.qtd d) s₁)))
      (v.putQueued qh setup) := hf₁.scratch ..
    obtain ⟨s₂, he₂, hf₃, hq₂, -⟩ := hf₂.append (qtdDt ||| ((s.utr u).dataLen <<< 16) |||
      (qtdErrCounter |||
        (if (s.utr u).setup.bmRequestType &&& 0x80#8 == 0#8 then qtdPidOut else qtdPidIn) |||
        qtdStsActive))
    have hf₄ : Filling M hand hot home u qh [status] (setAltNextQtd status .listEnd
      (setNextQtd status (.qtd s₂.ghostQtd) s₂)) ((v.putQueued qh setup).putQueued qh d) :=
      hf₃.scratch ..
    obtain ⟨s₃, he₃, hf₅, hq₃, -⟩ := hf₄.append (qtdDt ||| qtdIoc ||| (qtdErrCounter |||
      (if (s.utr u).setup.bmRequestType &&& 0x80#8 == 0#8 then qtdPidIn else qtdPidOut) |||
        qtdStsActive))
    simp only [Option.bind_eq_bind, Option.bind_some]
    rw [he₂, Option.bind_some, he₃]
    exact ⟨_, rfl, hf₅.scratch .., ((hq₀.trans (.scratch s₁ ..)).trans hq₂).trans
      ((Quiet.scratch s₂ ..).trans (hq₃.trans (.scratch s₃ ..)))⟩

/-- An allocation that is tested later. -/
theorem Filling.tryAlloc (hf : Filling M hand hot home u qh l s v) :
    ∃ v', Filling M hand hot home u qh (l ++ (tryAllocQtd u s).1.toList) (tryAllocQtd u s).2 v' ∧
      Quiet s (tryAllocQtd u s).2 ∧ (∀ a, a ∉ (tryAllocQtd u s).1.toList → v'.role a = v.role a) ∧
      (∀ a ∈ (tryAllocQtd u s).1.toList, v.role a = .free) ∧ v' = { v with role := v'.role } := by
  unfold tryAllocQtd
  cases h : s.allocEhciQtd (some u) with
  | none =>
    exact ⟨v, by simpa using hf, .refl s, fun _ _ => rfl, fun _ ha => absurd ha List.not_mem_nil, rfl⟩
  | some r =>
    obtain ⟨t, s'⟩ := r
    obtain ⟨hf', hfree, hq, -⟩ := hf.alloc h
    refine ⟨_, hf', hq, fun a ha => ?_, fun a ha => ?_, rfl⟩
    · exact Function.update_of_ne (fun he => ha (by simp [he])) ..
    · obtain rfl : a = t := by simpa using ha
      exact hfree

/-- An accepted control transfer, behind the choice of its QH. -/
theorem ctrlOnQh_ok {isNewQh : Bool} (hf : Filling M hand hot home u qh [] s v)
    (h : ctrlOnQh u qh isNewQh s = some (0, s')) :
    ∃ s₁ v₁, Filling M hand hot home u qh [] s₁ v₁ ∧ Quiet s s₁ ∧ Filled v v₁ qh ∧
      s' = linkAsync qh isNewQh s₁ := by
  unfold ctrlOnQh at h
  obtain ⟨sw, hw, h⟩ := Option.bind_eq_some_iff.mp h
  obtain ⟨f, g, rfl⟩ := writeQh_eq hw
  dsimp only at h
  generalize hs₀ : ({ s with qhHw := g, udev := f, utrEp := _ } : Ehci) = s₀ at h
  have hf₀ : Filling M hand hot home u qh [] s₀ v := by
    have hi := hf.inv.setUtrEp (u := u) (some (.ep0 (s.utr u).udev)) fun ho k x => by
      rw [hf.home ho]
      exact Home.noConfusion
    rw [← hs₀]
    exact ⟨hi.scratch .., hf.unit, hf.psen, hf.home, hf.same, hf.held, hf.nodup⟩
  have hq₀ : Quiet s s₀ := by rw [← hs₀]; exact .scratch s ..
  obtain ⟨v₁, hf₁, hq₁, hr₁, hfree₁, hv₁⟩ := hf₀.tryAlloc
  generalize tryAllocQtd u s₀ = setup at h hf₁ hq₁ hr₁ hfree₁
  -- the qTD of the data stage
  obtain ⟨data, hdata, v₂, hf₂, hq₂, hr₂, hfree₂, hv₂⟩ : ∃ data : Ptr × Ehci,
      (if decide (0 < (s.utr u).dataLen) = true then tryAllocQtd u setup.2 else (none, setup.2)) = data ∧
      ∃ v₂, Filling M hand hot home u qh ([] ++ setup.1.toList ++ data.1.toList) data.2 v₂ ∧
        Quiet setup.2 data.2 ∧ (∀ a, a ∉ data.1.toList → v₂.role a = v₁.role a) ∧
        (∀ a ∈ data.1.toList, v₁.role a = .free) ∧ v₂ = { v₁ with role := v₂.role } := by
    refine ⟨_, rfl, ?_⟩
    split
    · exact hf₁.tryAlloc
    · exact ⟨v₁, by simpa using hf₁, .refl _, fun _ _ => rfl,
        fun _ ha => absurd ha List.not_mem_nil, rfl⟩
  rw [hdata] at h
  cases hst : data.2.allocEhciQtd (some u) with
  | none => rw [hst] at h; simp [usbhErrMemoryOut] at h
  | some r =>
    obtain ⟨status, s₃⟩ := r
    rw [hst] at h
    obtain ⟨hf₃, hfree₃, hq₃, -⟩ := hf₂.alloc hst
    simp only [ctrlFill] at h
    cases hsetup : setup.1 with
    | none => rw [hsetup] at h; cases h
    | some setupQtd =>
      rw [hsetup] at h
      dsimp only at h
      split at h
      · cases h
      · obtain ⟨s₄, hs₄, he⟩ := Option.map_eq_some_iff.mp h
        have hl : [] ++ setup.1.toList ++ data.1.toList ++ [status] =
            setupQtd :: (data.1.toList ++ [status]) := by rw [hsetup]; rfl
        rw [hl] at hf₃
        obtain ⟨s₅, hs₅, hf₅, hq₅⟩ := ctrlStages_ok hf₃
        obtain rfl := Option.some.inj (hs₄.symm.trans hs₅)
        refine ⟨_, _, hf₅, ((hq₀.trans hq₁).trans (hq₂.trans hq₃)).trans hq₅, ?_, (Prod.mk.inj he).2.symm⟩
        have hs1 : ∀ a, a ∈ setup.1.toList ↔ a = setupQtd := fun a => by
          rw [hsetup]; simp [eq_comm]
        refine Filled.all (fun a ha => ?_) (fun a ha => ?_) ?_
        · simp only [List.mem_cons, List.mem_append, List.not_mem_nil, or_false, not_or] at ha
          rw [show (v₂.become status (.held .qtd)).role a = v₂.role a from
            Function.update_of_ne ha.2.2 .., hr₂ a ha.2.1, hr₁ a (mt (hs1 a).mp ha.1)]
        · simp only [List.mem_cons, List.mem_append, List.not_mem_nil, or_false] at ha
          have h₁ : ∀ b, v₁.role b = .free → v.role b = .free := fun b hb => by
            by_cases hbs : b ∈ setup.1.toList
            · exact hfree₁ b hbs
            · rw [← hr₁ b hbs]; exact hb
          have h₂ : ∀ b, v₂.role b = .free → v₁.role b = .free := fun b hb => by
            by_cases hbs : b ∈ data.1.toList
            · exact hfree₂ b hbs
            · rw [← hr₂ b hbs]; exact hb
          rcases ha with ha | ha | ha
          · exact hfree₁ a ((hs1 a).mpr ha)
          · exact h₁ a (hfree₂ a ha)
          · exact h₁ a (h₂ a (ha ▸ hfree₃))
        · show ({ v₂ with role := _ } : View) = _
          rw [hv₂, hv₁]
          rfl

/-! ## Bulk transfers -/

theorem Filling.setToken (hf : Filling M hand hot home u qh l s v) (ht : t ∈ v.queued qh)
    (tok : BitVec 32) : Filling M hand hot home u qh l (Ehci.setToken t tok s) v := by
  refine ⟨hf.inv.setToken tok fun hp => (hf.psen hp).imp id fun hn i b hb hm => ?_, hf.unit, hf.psen,
    hf.home, hf.same, hf.held, hf.nodup⟩
  have hr := hf.inv.shape.role_queued ht
  rw [hf.inv.shape.role_queued hm] at hr
  cases hr
  exact hn i hb

theorem bulkSlice_ok {e : EpId} {buff dataLen : BitVec 32} {qtdPre : Ptr}
    (hf : Filling M hand hot home u qh [t] s v) :
    ∃ s', bulkSlice e qh t buff dataLen qtdPre s = some s' ∧
      Filling M hand hot home u qh [] s' (v.putQueued qh t) ∧ Quiet s s' ∧ s'.utr = s.utr ∧
      s'.qtdList qh ≠ none := by
  unfold bulkSlice
  dsimp only
  generalize (if 0x4000#32 < dataLen then 0x4000#32 else dataLen) = xferLen
  have hf₀ : Filling M hand hot home u qh [t] (writeQtdBptr t buff xferLen
    (setAltNextQtd t .listEnd (setNextQtd t (.qtd s.ghostQtd) s))) v := hf.scratch ..
  obtain ⟨s₁, he₁, hf₁, hq₁, ⟨-, hutr, -, -⟩, -, -, hlist⟩ := hf₀.append ((xferLen <<< 16) |||
    (qtdErrCounter ||| (if (s.ep e).isOut then qtdPidOut else qtdPidIn) ||| qtdStsActive))
  have hq : Quiet s s₁ := (Quiet.scratch s ..).trans hq₁
  have hmem : t ∈ (v.putQueued qh t).queued qh := by
    show t ∈ Function.update v.queued qh (v.queued qh ++ [t]) qh
    rw [Function.update_self]
    simp
  -- the last slice raises the interrupt
  obtain ⟨s₂, hs₂, hf₂, hq₂, hutr₂, hlist₂⟩ : ∃ s₂,
      (if dataLen - xferLen = 0 then
        setNextQtd t (.qtd s₁.ghostQtd) (setToken t (s₁.token t ||| qtdIoc) s₁) else s₁) = s₂ ∧
      Filling M hand hot home u qh [] s₂ (v.putQueued qh t) ∧ Quiet s₁ s₂ ∧ s₂.utr = s₁.utr ∧
      s₂.qtdList = s₁.qtdList := by
    refine ⟨_, rfl, ?_⟩
    split
    · exact ⟨(hf₁.setToken hmem _).scratch .., ⟨fun _ _ h => ⟨h, rfl, rfl⟩, ⟨_, rfl⟩, rfl, rfl, rfl,
        rfl, rfl, rfl, rfl, rfl⟩, rfl, rfl⟩
    · exact ⟨hf₁, .refl s₁, rfl, rfl⟩
  rw [he₁, Option.map_some]
  refine ⟨_, rfl, ?_⟩
  rw [hs₂]
  cases qtdPre with
  | none => exact ⟨hf₂, hq.trans hq₂, hutr₂.trans hutr, by rw [hlist₂]; exact hlist⟩
  | some p =>
    exact ⟨hf₂.scratch .., (hq.trans hq₂).trans (.scratch s₂ ..), hutr₂.trans hutr, by
      show s₂.qtdList qh ≠ none; rw [hlist₂]; exact hlist⟩

/-- The qTDs of an accepted bulk transfer. -/
theorem bulkQtds_ok {e : EpId} {n : Nat} {buff dataLen : BitVec 32} {qtdPre : Ptr}
    (hf : Filling M hand hot home u qh [] s v)
    (h : bulkQtds u e qh n buff dataLen qtdPre s = some (true, s')) :
    ∃ v', Filling M hand hot home u qh [] s' v' ∧ Quiet s s' ∧ Filled v v' qh := by
  induction n generalizing buff dataLen qtdPre s v with
  | zero =>
    obtain rfl := (Prod.mk.inj (Option.some.inj h)).2
    exact ⟨v, hf, .refl s, .refl v qh⟩
  | succ n ih =>
    rw [bulkQtds] at h
    split at h
    · obtain rfl := (Prod.mk.inj (Option.some.inj h)).2
      exact ⟨v, hf, .refl s, .refl v qh⟩
    · cases ha : s.allocEhciQtd (some u) with
      | none => rw [ha] at h; cases h
      | some r =>
        obtain ⟨qtd, s₁⟩ := r
        rw [ha] at h
        obtain ⟨s₂, hs₂, h⟩ := Option.bind_eq_some_iff.mp h
        obtain ⟨hf₁, hfree, hq₁, -⟩ := hf.alloc ha
        obtain ⟨s₂', hs₂', hf₂, hq₂, -⟩ := bulkSlice_ok hf₁
        obtain rfl := Option.some.inj (hs₂.symm.trans hs₂')
        obtain ⟨v', hf', hq', hfill⟩ := ih hf₂ h
        exact ⟨v', hf', (hq₁.trans hq₂).trans hq', (Filled.one hfree qh).trans hfill⟩

/-- An accepted bulk transfer, behind the choice of its QH. -/
theorem bulkOnQh_ok {e : EpId} {isNewQh : Bool} (hf : Filling M hand hot home u qh [] s v)
    (h : bulkOnQh u e qh isNewQh s = some (0, s')) :
    ∃ s₁ v₁, Filling M hand hot home u qh [] s₁ v₁ ∧ Quiet s s₁ ∧ Filled v v₁ qh ∧
      s' = linkAsync qh isNewQh s₁ := by
  unfold bulkOnQh at h
  obtain ⟨⟨ok, s₁⟩, hs₁, h⟩ := Option.bind_eq_some_iff.mp h
  cases ok with
  | false =>
    have h' : bulkFail e qh isNewQh s₁ = some (0, s') := h
    obtain ⟨_, _, he⟩ := Option.map_eq_some_iff.mp h'
    exact absurd (Prod.mk.inj he).1 (by decide)
  | true =>
    obtain ⟨v₁, hf₁, hq₁, hfill⟩ := bulkQtds_ok hf hs₁
    have h' : bulkStart e qh isNewQh s₁ = some (0, s') := h
    unfold bulkStart at h'
    cases isNewQh with
    | false =>
      obtain rfl := (Prod.mk.inj (Option.some.inj h')).2
      exact ⟨_, v₁, hf₁.scratch .., hq₁.trans (.scratch s₁ ..), hfill, rfl⟩
    | true =>
      obtain ⟨q, _, he⟩ := Option.map_eq_some_iff.mp h'
      obtain rfl := (Prod.mk.inj he).2
      exact ⟨_, v₁, hf₁.scratch .., hq₁.trans (.scratch s₁ ..), hfill, rfl⟩

/-! ## Interrupt transfers -/

/-- An accepted interrupt transfer, behind the choice of its QH, up to the link of the QH. -/
theorem intOnQh_ok {e : EpId} {isNewQh : Bool} (hf : Filling M hand hot home u qh [] s v)
    (h : intOnQh u e qh isNewQh s = some (0, s')) :
    ∃ s₁ v₁ qtd d, Filling M hand hot home u qh [] s₁ v₁ ∧ Quiet s s₁ ∧ Filled v v₁ qh ∧
      v₁.queued qh = v.queued qh ++ [qtd] ∧
      s' = { (if isNewQh then linkIntQh d e qh qtd s₁ else s₁) with psen := true } := by
  unfold intOnQh at h
  cases ha : s.allocEhciQtd (some u) with
  | none =>
    rw [ha] at h
    exact absurd (Prod.mk.inj (Option.some.inj h)).1 (by decide)
  | some r =>
    obtain ⟨qtd, s₁⟩ := r
    rw [ha] at h
    obtain ⟨hf₁, hfree, hq₁, -⟩ := hf.alloc ha
    have h' : intStart u e qh qtd isNewQh s₁ = some (0, s') := h
    unfold intStart at h'
    have hf₂ : Filling M hand hot home u qh [qtd] (writeQtdBptr qtd (s₁.utr u).buff (s₁.utr u).dataLen
      (setAltNextQtd qtd .listEnd (setNextQtd qtd .listEnd s₁))) (v.become qtd (.held .qtd)) :=
      hf₁.scratch ..
    obtain ⟨s₂, he₂, hf₃, hq₂, -⟩ := hf₂.append (qtdIoc ||| ((s₁.utr u).dataLen <<< 16) |||
      (qtdErrCounter ||| (if (s₁.ep e).isOut then qtdPidOut else qtdPidIn) ||| qtdStsActive))
    dsimp only at h'
    rw [he₂, Option.map_some] at h'
    obtain rfl := (Prod.mk.inj (Option.some.inj h')).2
    exact ⟨_, _, qtd, (s₁.utr u).udev, hf₃.scratch .., (hq₁.trans (.scratch s₁ ..)).trans
      (hq₂.trans (.scratch s₂ ..)), .one hfree qh, Function.update_self .., rfl⟩

end Ma35d1.UsbHost.Ehci
