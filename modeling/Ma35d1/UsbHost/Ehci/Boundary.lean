import Ma35d1.UsbHost.Ehci.InvMoves

/-!
# Between two calls of the driver

`Tidy` relates the endpoints to the lists while no function of the driver runs.
`Ext` says what calls of the interface leave in place for a function of the driver
that is waiting for a callback to return, and `Stale` that a QH on the remove list
still leads back to the schedule it was taken from.
-/

namespace Ma35d1.UsbHost.Ehci

open Heap.LinkedPath

/-! ## The two classes of QHs -/

/-- The head of the ring, a QH in the ring, or one unlinked from it. -/
def AsyncClass (m : Links) (v : View) (h : Addr) : Prop :=
  v.role h = .head ∨ v.role h = .async ∨ (v.role h = .removed ∧ m.insertedUnder h = none)

/-- An interval head, an interrupt QH, or one unlinked from the periodic schedule. -/
def IntClass (m : Links) (v : View) (h : Addr) : Prop :=
  (∃ i, v.role h = .iqh i) ∨ (∃ i, v.role h = .intr i) ∨
    (v.role h = .removed ∧ m.insertedUnder h ≠ none)

/-- The endpoints and the lists agree. -/
structure Tidy (m : Links) (v : View) : Prop where
  pipeQh : ∀ e q, m.hwPipe e = .qh q →
    ((m.ep e).xferType = epAttrTtInt ∧ ∃ i, q ∈ v.under i) ∨
      ((m.ep e).xferType ≠ epAttrTtInt ∧ (m.ep e).xferType ≠ epAttrTtIso ∧ q ∈ v.ring)
  pipeInj : ∀ e e' q, m.hwPipe e = .qh q → m.hwPipe e' = .qh q → e = e'
  ringPipe : ∀ q ∈ v.ring, ∃ e, m.hwPipe e = .qh q
  pipeIso : ∀ e x, m.hwPipe e = .isoEp x ↔ x ∈ v.isoEps ∧ m.isoEpEp x = e
  pipeEd : ∀ e a, m.hwPipe e ≠ .ed a
  isoType : ∀ x ∈ v.isoEps, (m.ep (m.isoEpEp x)).xferType = epAttrTtIso
  ep0 : ∀ d, (m.ep (.ep0 d)).xferType = epAttrTtCtrl
  /-- there is only one qTD in the list of an interrupt QH at most -/
  single : ∀ h, IntClass m v h → (v.queued h).length ≤ 1

/-- A removed QH leads back to its schedule. -/
structure Stale (m : Links) (v : View) : Prop where
  async : ∀ h ∈ v.removed, m.insertedUnder h = none → ∃ b, m.hLink h = .qh b ∧ AsyncClass m v b
  intr : ∀ h ∈ v.removed, m.insertedUnder h ≠ none →
    m.hLink h = .terminate ∨ ∃ b, m.hLink h = .qh b ∧ IntClass m v b

/-- What calls of the interface leave in place. -/
structure Ext (s : Ehci) (v : View) (s' : Ehci) (v' : View) : Prop where
  held : ∀ a k, v'.role a = .held k ↔ v.role a = .held k
  head : ∀ a, v.role a = .head → v'.role a = .head
  iqhRole : ∀ a i, v.role a = .iqh i → v'.role a = .iqh i
  async : ∀ a, v.role a = .async →
    (v'.role a = .async ∨ v'.role a = .removed) ∧ s'.insertedUnder a = s.insertedUnder a
  intr : ∀ a i, v.role a = .intr i →
    (v'.role a = .intr i ∨ v'.role a = .removed) ∧ s'.insertedUnder a = s.insertedUnder a
  removed : ∀ a, v.role a = .removed →
    v'.role a = .removed ∧ s'.insertedUnder a = s.insertedUnder a ∧ s'.hLink a = s.hLink a
  hQh : s'.hQh = s.hQh
  iqh : s'.iqh = s.iqh
  lists : ∀ a, v.role a = .held .qh → v'.queued a = v.queued a ∧ v'.done a = v.done a
  stamp : ∀ a k, v.role a = .held k → Stamped s.bell a → Stamped s'.bell a
  serving : s'.bell.serving = s.bell.serving
  tds : ∀ k x, ∃ l, v'.tds k x = v.tds k x ++ l
  isoEps : ∃ l, v'.isoEps = l ++ v.isoEps
  trace : ∀ e ∈ s.trace, e ∈ s'.trace

variable {M : Mode} {hand : UtrId → List (List Nat)} {hot : Ptr} {home : UtrId → Home}
  {s s' s'' : Ehci} {v v' v'' : View} {a h q t : Addr} {u : UtrId}

theorem Ext.refl (s : Ehci) (v : View) : Ext s v s v where
  held _ _ := Iff.rfl
  head _ h := h
  iqhRole _ _ h := h
  async _ h := ⟨.inl h, rfl⟩
  intr _ _ h := ⟨.inl h, rfl⟩
  removed _ h := ⟨h, rfl, rfl⟩
  hQh := rfl
  iqh := rfl
  lists _ _ := ⟨rfl, rfl⟩
  stamp _ _ _ h := h
  serving := rfl
  tds _ _ := ⟨[], (List.append_nil _).symm⟩
  isoEps := ⟨[], rfl⟩
  trace _ h := h

theorem Ext.trans (h : Ext s v s' v') (h' : Ext s' v' s'' v'') : Ext s v s'' v'' where
  held a k := (h'.held a k).trans (h.held a k)
  head a ha := h'.head a (h.head a ha)
  iqhRole a i ha := h'.iqhRole a i (h.iqhRole a i ha)
  async a ha := by
    obtain ⟨hr, hu⟩ := h.async a ha
    rcases hr with hr | hr
    · exact ⟨(h'.async a hr).1, (h'.async a hr).2.trans hu⟩
    · exact ⟨.inr (h'.removed a hr).1, (h'.removed a hr).2.1.trans hu⟩
  intr a i ha := by
    obtain ⟨hr, hu⟩ := h.intr a i ha
    rcases hr with hr | hr
    · exact ⟨(h'.intr a i hr).1, (h'.intr a i hr).2.trans hu⟩
    · exact ⟨.inr (h'.removed a hr).1, (h'.removed a hr).2.1.trans hu⟩
  removed a ha := by
    obtain ⟨hr, hu, hl⟩ := h.removed a ha
    obtain ⟨hr', hu', hl'⟩ := h'.removed a hr
    exact ⟨hr', hu'.trans hu, hl'.trans hl⟩
  hQh := h'.hQh.trans h.hQh
  iqh := h'.iqh.trans h.iqh
  lists a ha := by
    obtain ⟨h₁, h₂⟩ := h.lists a ha
    obtain ⟨h₁', h₂'⟩ := h'.lists a ((h.held a _).mpr ha)
    exact ⟨h₁'.trans h₁, h₂'.trans h₂⟩
  stamp a k ha hst := h'.stamp a k ((h.held a k).mpr ha) (h.stamp a k ha hst)
  serving := h'.serving.trans h.serving
  tds k x := by
    obtain ⟨l, hl⟩ := h.tds k x
    obtain ⟨l', hl'⟩ := h'.tds k x
    exact ⟨l ++ l', by rw [hl', hl, List.append_assoc]⟩
  isoEps := by
    obtain ⟨l, hl⟩ := h.isoEps
    obtain ⟨l', hl'⟩ := h'.isoEps
    exact ⟨l' ++ l, by rw [hl', hl, List.append_assoc]⟩
  trace e he := h'.trace e (h.trace e he)

theorem Ext.asyncClass (h : Ext s v s' v') (hs : Shape s.toLinks v) (ha : AsyncClass s.toLinks v a) :
    AsyncClass s'.toLinks v' a := by
  rcases ha with ha | ha | ⟨ha, hu⟩
  · exact .inl (h.head a ha)
  · obtain ⟨hr | hr, hu⟩ := h.async a ha
    · exact .inr (.inl hr)
    · exact .inr (.inr ⟨hr, hu.trans (hs.asyncUnder a ((hs.mem .async a rfl).mpr ha))⟩)
  · obtain ⟨hr, hu', _⟩ := h.removed a ha
    exact .inr (.inr ⟨hr, hu'.trans hu⟩)

theorem Ext.intClass (h : Ext s v s' v') (hs : Shape s.toLinks v) (ha : IntClass s.toLinks v a) :
    IntClass s'.toLinks v' a := by
  rcases ha with ⟨i, ha⟩ | ⟨i, ha⟩ | ⟨ha, hu⟩
  · exact .inl ⟨i, h.iqhRole a i ha⟩
  · obtain ⟨hr | hr, hu⟩ := h.intr a i ha
    · exact .inr (.inl ⟨i, hr⟩)
    · refine .inr (.inr ⟨hr, ?_⟩)
      rw [hu, hs.intrUnder i a ((hs.mem (.intr i) a rfl).mpr ha)]
      exact Option.some_ne_none i
  · obtain ⟨hr, hu', _⟩ := h.removed a ha
    exact .inr (.inr ⟨hr, by rw [hu']; exact hu⟩)

/-- Removed QHs keep leading back if the newly removed ones do. -/
theorem Stale.ext (hst : Stale s.toLinks v) (hx : Ext s v s' v') (hs : Shape s.toLinks v)
    (hnew : ∀ h ∈ v'.removed, v.role h ≠ .removed →
      (s'.insertedUnder h = none → ∃ b, s'.hLink h = .qh b ∧ AsyncClass s'.toLinks v' b) ∧
      (s'.insertedUnder h ≠ none →
        s'.hLink h = .terminate ∨ ∃ b, s'.hLink h = .qh b ∧ IntClass s'.toLinks v' b)) :
    Stale s'.toLinks v' := by
  constructor
  · intro h hm hu
    by_cases hr : v.role h = .removed
    · obtain ⟨_, hu', hl⟩ := hx.removed h hr
      obtain ⟨b, hb, hc⟩ := hst.async h ((hs.mem .removed h rfl).mpr hr) (hu'.symm.trans hu)
      exact ⟨b, hl.trans hb, hx.asyncClass hs hc⟩
    · exact (hnew h hm hr).1 hu
  · intro h hm hu
    by_cases hr : v.role h = .removed
    · obtain ⟨_, hu', hl⟩ := hx.removed h hr
      rcases hst.intr h ((hs.mem .removed h rfl).mpr hr) (by rw [← hu']; exact hu) with hb | ⟨b, hb, hc⟩
      · exact .inl (hl.trans hb)
      · exact .inr ⟨b, hl.trans hb, hx.intClass hs hc⟩
    · exact (hnew h hm hr).2 hu

/-- A call that moves nothing but free units. -/
theorem Ext.of_grow (hrole : ∀ a, v.role a ≠ .free → v'.role a = v.role a)
    (hfresh : ∀ a, v.role a = .free → ∀ k, v'.role a ≠ .held k)
    (hu : ∀ a, v.role a ≠ .free → s'.insertedUnder a = s.insertedUnder a)
    (hl : ∀ a, v.role a = .removed → s'.hLink a = s.hLink a)
    (hQh : s'.hQh = s.hQh) (hiqh : s'.iqh = s.iqh)
    (hlists : ∀ a, v.role a = .held .qh → v'.queued a = v.queued a ∧ v'.done a = v.done a)
    (hst : ∀ a, v.role a ≠ .free → s'.bell.stamp a = s.bell.stamp a)
    (hb : ∃ f, s'.bell = { s.bell with stamp := f })
    (htds : ∀ k x, ∃ l, v'.tds k x = v.tds k x ++ l) (hiso : ∃ l, v'.isoEps = l ++ v.isoEps)
    (htr : ∀ e ∈ s.trace, e ∈ s'.trace) : Ext s v s' v' := by
  have hr : ∀ a r, r ≠ Role.free → v.role a = r → v'.role a = r := fun a r hne ha => by
    rw [hrole a (by rw [ha]; exact hne)]; exact ha
  refine
    { held := fun a k => ⟨fun ha => ?_, hr a _ Role.noConfusion⟩
      head := fun a => hr a _ Role.noConfusion
      iqhRole := fun a i => hr a _ Role.noConfusion
      async := fun a ha => ⟨.inl (hr a _ Role.noConfusion ha), hu a (by rw [ha]; exact Role.noConfusion)⟩
      intr := fun a i ha => ⟨.inl (hr a _ Role.noConfusion ha), hu a (by rw [ha]; exact Role.noConfusion)⟩
      removed := fun a ha => ⟨hr a _ Role.noConfusion ha, hu a (by rw [ha]; exact Role.noConfusion), hl a ha⟩
      hQh := hQh, iqh := hiqh, lists := hlists
      stamp := fun a k ha h => h.congr hb (hst a (by rw [ha]; exact Role.noConfusion))
      serving := ?_, tds := htds, isoEps := hiso, trace := htr }
  · by_cases hf : v.role a = .free
    · exact absurd ha (hfresh a hf k)
    · rw [← hrole a hf]; exact ha
  · obtain ⟨f, hf⟩ := hb
    rw [hf]

end Ma35d1.UsbHost.Ehci
