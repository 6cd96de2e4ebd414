import Ma35d1.UsbHost.Ehci.Quit

/-!
# Isochronous submissions keep the invariant

The descriptors of a transfer are allocated onto a chain of their own. From the
moment `td_cnt` is set the request has them in hand; filling and linking them one
by one moves them from the hand to the lists of the endpoint.
-/

namespace Ma35d1.UsbHost.Ehci

open Heap.LinkedPath

variable {M : Mode} {hand hand' : UtrId → List (List Nat)} {hot : Ptr} {home : UtrId → Home}
  {s s' s₁ : Ehci} {v v' v₁ : View} {a t : Addr} {u : UtrId} {e : EpId} {k : IsoKind} {x : IsoId}
  {lst : Ptr} {L : List Addr} {n : Nat}

/-! ## The chain of new descriptors -/

/-- `lst` leads along the held units `L`, which were free in the view `v`. -/
structure Chained (k : IsoKind) (lst : Ptr) (L : List Addr) (s : Ehci) (v v' : View) : Prop where
  path : Path some (s.tdNext k) lst L none
  fresh : ∀ a ∈ L, v.role a = .free
  held : ∀ a ∈ L, v'.role a = .held k.hw
  rest : ∀ a, a ∉ L → v'.role a = v.role a
  same : v' = { v with role := v'.role }

theorem Chained.nil (k : IsoKind) (s : Ehci) (v : View) : Chained k none [] s v v :=
  ⟨rfl, fun _ h => absurd h List.not_mem_nil, fun _ h => absurd h List.not_mem_nil, fun _ _ => rfl,
    rfl⟩

theorem allocTds_ok {ok : Bool} {lst' : Ptr} (hi : Inv M hand hot home s v₁)
    (hc : Chained k lst L s v v₁) (h : allocTds k n lst s = (ok, lst', s')) :
    ∃ L' v', Chained k lst' L' s' v v' ∧ Inv M hand hot home s' v' ∧ Quiet s s' ∧
      s'.tdCnt = s.tdCnt ∧ s'.nextFrame = s.nextFrame ∧ s'.utrEp = s.utrEp ∧
      (ok = true → L'.length = n + L.length) := by
  induction n generalizing lst L s v₁ with
  | zero =>
    obtain ⟨rfl, rfl, rfl⟩ := by simpa [allocTds] using h
    exact ⟨L, v₁, hc, hi, .refl s, rfl, rfl, rfl, fun _ => (Nat.zero_add _).symm⟩
  | succ n ih =>
    rw [allocTds] at h
    split at h
    · obtain ⟨rfl, rfl, rfl⟩ := by simpa using h
      exact ⟨L, v₁, hc, hi, .refl s, rfl, rfl, rfl, fun h => by cases h⟩
    · rename_i td s₂ ha
      obtain ⟨hi₂, hf, hq, hcnt, hnf, hutr, hnext⟩ := hi.allocTd ha
      have hself : (v₁.become td (.held k.hw)).role td = .held k.hw := Function.update_self ..
      have htd : td ∉ L := fun hm => by rw [hc.held td hm] at hf; cases hf
      have hi₃ : Inv M hand hot home (s₂.setLinks { s₂.toLinks with
          tdNext := Links.setTd s₂.tdNext k td lst }) (v₁.become td (.held k.hw)) :=
        hi₂.words ⟨rfl, rfl, rfl, rfl, rfl, rfl, rfl, rfl, rfl, fun _ => rfl, rfl⟩
          (hi₂.shape.off_tdNext (.inr ⟨_, hself⟩) k lst)
      have hc₃ : Chained k (some td) (td :: L) (s₂.setLinks { s₂.toLinks with
          tdNext := Links.setTd s₂.tdNext k td lst }) v (v₁.become td (.held k.hw)) := by
        refine ⟨⟨rfl, ?_⟩, fun a ha => ?_, fun a ha => ?_, fun a ha => ?_, ?_⟩
        · show Path some (Links.setTd s₂.tdNext k td lst k) (Links.setTd s₂.tdNext k td lst k td) L none
          rw [Links.setTd_self]
          refine hc.path.congr (fun _ _ => rfl) fun b hb => ?_
          have hne : b ≠ td := fun he => htd (he ▸ hb)
          rw [Links.setTd_of_ne fun h => hne h.2, hnext b hne]
        · rcases List.mem_cons.mp ha with rfl | ha
          · rw [← hc.rest a htd]; exact hf
          · exact hc.fresh a ha
        · rcases List.mem_cons.mp ha with rfl | ha
          · exact hself
          · have hne : a ≠ td := fun he => htd (by rw [← he]; exact ha)
            rw [show (v₁.become td (.held k.hw)).role a = v₁.role a from
              Function.update_of_ne hne ..]
            exact hc.held a ha
        · obtain ⟨hne, ha⟩ := not_or.mp (fun h => ha (List.mem_cons.mpr h))
          rw [show (v₁.become td (.held k.hw)).role a = v₁.role a from Function.update_of_ne hne ..]
          exact hc.rest a ha
        · rw [hc.same]
          rfl
      obtain ⟨L', v', hc', hi', hq', hcnt', hnf', hutr', hlen⟩ := ih hi₃ hc₃ h
      refine ⟨L', v', hc', hi', hq.trans (Quiet.trans ?_ hq'), hcnt'.trans hcnt, hnf'.trans hnf,
        hutr'.trans hutr, fun hok => ?_⟩
      · exact ⟨fun _ _ h => ⟨h, rfl, rfl⟩, ⟨_, rfl⟩, rfl, rfl, rfl, rfl, rfl, rfl, rfl, rfl⟩
      · rw [hlen hok, List.length_cons]
        omega

/-- Giving the chain back restores the view. -/
theorem freeTds_ok (hi : Inv M hand hot home s v') (hc : Chained k lst L s v v')
    (h : freeTds k n lst s = some s') :
    Inv M hand hot home s' v ∧ ∃ p t, s' = { s with pool := p, trace := t } ∧
      ∀ e ∈ s.trace, e ∈ t := by
  induction L generalizing lst n s v' with
  | nil =>
    have hl : lst = none := path_nil.mp hc.path
    have hv : v' = v := by
      rw [hc.same, show v'.role = v.role from funext fun a => hc.rest a List.not_mem_nil]
    subst hl hv
    cases n with
    | zero => cases h
    | succ n => rw [← Option.some.inj h]; exact ⟨hi, _, _, rfl, fun _ h => h⟩
  | cons b L ih =>
    obtain ⟨rfl, hp⟩ := hc.path
    have hb : b ∉ L := (List.nodup_cons.mp hc.path.nodup_none).1
    cases n with
    | zero => cases h
    | succ n =>
      have hr := hc.held b List.mem_cons_self
      have hi₁ := hi.freeHeld hr (fun hk => by cases k <;> cases hk) fun _ _ hk => by
        cases k <;> simp [IsoKind.hw] at hk
      have hne : ∀ a, a ≠ b → (v'.become b .free).role a = v'.role a := fun a ha =>
        Function.update_of_ne ha ..
      have hc₁ : Chained k (s.tdNext k b) L (s.free k.hw b) v (v'.become b .free) := by
        refine ⟨hp, fun a ha => hc.fresh a (List.mem_cons_of_mem _ ha), fun a ha => ?_,
          fun a ha => ?_, ?_⟩
        · rw [hne a fun he => hb (he ▸ ha)]
          exact hc.held a (List.mem_cons_of_mem _ ha)
        · by_cases hab : a = b
          · subst hab
            rw [hc.fresh a List.mem_cons_self]
            exact Function.update_self ..
          · rw [hne a hab]
            exact hc.rest a fun hm => (List.mem_cons.mp hm).elim hab ha
        · rw [hc.same]
          rfl
      obtain ⟨hi', p, tr, rfl, htr⟩ := ih hi₁ hc₁ h
      exact ⟨hi', p, tr, rfl, fun e he => htr e (List.mem_cons_of_mem _ he)⟩

/-! ## From the hand to the lists -/

/-- The descriptors of `w` when `t` joins the lists of `x`. -/
theorem mine_putTd (hr : v.role t = .held k.hw) (hi : ∀ b, hot = some b → ∃ j y, b ∈ v.tds j y)
    (hs : Shape s.toLinks v) (hu : s'.tdUtr = s.tdUtr) (idx : Nat) (j : IsoKind) (y : IsoId)
    (w : UtrId) :
    mine s' (v.putTd k x t idx) hot j y w =
      mine s v hot j y w ++ if (j = k ∧ y = x) ∧ s.tdUtr k t = some w then [t] else [] := by
  have hhot : hot ≠ some t := by
    rintro rfl
    obtain ⟨j, y, hm⟩ := hi t rfl
    rw [hs.role_td hm] at hr
    cases hr
  have htds : (v.putTd k x t idx).tds j y =
      if j = k ∧ y = x then v.tds k x ++ [t] else v.tds j y := Links.setTd_apply ..
  unfold mine
  rw [htds, hu]
  by_cases hjy : j = k ∧ y = x
  · obtain ⟨rfl, rfl⟩ := hjy
    rw [if_pos ⟨rfl, rfl⟩, List.filter_append]
    by_cases hw : s.tdUtr j t = some w
    · simp [hw, hhot]
    · simp [hw]
  · simp [hjy]

/-- A descriptor in hand, filled for `u`, is linked. -/
theorem Inv.linkTd (hi : Inv M.relaxed hand hot home s v) (hand' : UtrId → List (List Nat))
    (ht : v.role t = .held k.hw)
    (hx : x ∈ v.isoEps) (hne : ∀ w, w ≠ u → hand' w = hand w)
    (hu : M.own = completed → home u = .iso k x ∧ s.tdUtr k t = some u ∧
      hand u = tdSlots s k t :: hand' u) (interval : Nat) :
    ∃ m, s.toLinks.linkTd k x t interval = some m ∧
      Inv M.relaxed hand' hot home (s.setLinks m) (v.putTd k x t (s.nextFrame x)) ∧
      m = { s.toLinks with
        schedFrnidx := m.schedFrnidx, tdNext := m.tdNext, tdList := m.tdList
        hLink := m.hLink, pfList := m.pfList, nextFrame := m.nextFrame } ∧
      (∀ b, b ≠ t → m.hLink b = s.hLink b) ∧
      ∀ j b, b ≠ t → b ∉ v.tds k x → m.tdNext j b = s.tdNext j b := by
  have hs := hi.shape
  obtain ⟨m, he, hs', hm, hl, hnext⟩ := hs.putTd ht hx interval
  have hiso : m.isoEpEp = s.isoEpEp := by rw [hm]
  have hmine : ∀ j y w, mine (s.setLinks m) (v.putTd k x t (s.nextFrame x)) hot j y w =
      mine s v hot j y w ++ if (j = k ∧ y = x) ∧ s.tdUtr k t = some w then [t] else [] :=
    fun j y w => mine_putTd ht hi.hotTd hs rfl ..
  have hsl : ∀ j, tdSlots (s.setLinks m) j = tdSlots s j := fun j => by cases j <;> rfl
  have htds : ∀ j y b, b ∈ (v.putTd k x t (s.nextFrame x)).tds j y ↔
      b ∈ v.tds j y ∨ (b = t ∧ j = k ∧ y = x) := by
    intro j y b
    rw [show (v.putTd k x t (s.nextFrame x)).tds j y =
      if j = k ∧ y = x then v.tds k x ++ [t] else v.tds j y from Links.setTd_apply ..]
    by_cases hjy : j = k ∧ y = x
    · obtain ⟨rfl, rfl⟩ := hjy; simp
    · simp [hjy]
  refine ⟨m, he, ⟨hs', hi.frees, fun ho => ?_, fun hd a hg => hi.bells hd a ?_, hi.answered,
    False.elim, fun b hb => ?_⟩, hm, hl, hnext⟩
  · have ha := hi.acct ho
    obtain ⟨hhome, htu, hhand⟩ := hu ho
    have hw : ∀ w j y, home w = .iso j y → w ≠ u → hand' w = hand w ∧
        mine (s.setLinks m) (v.putTd k x t (s.nextFrame x)) hot j y w = mine s v hot j y w := by
      intro w j y _ hwu
      refine ⟨hne w hwu, ?_⟩
      rw [hmine, if_neg, List.append_nil]
      rintro ⟨_, h⟩
      exact hwu (Option.some.inj (h.symm.trans htu))
    have hself : mine (s.setLinks m) (v.putTd k x t (s.nextFrame x)) hot k x u =
        mine s v hot k x u ++ [t] := by
      rw [hmine, if_pos ⟨⟨rfl, rfl⟩, htu⟩]
    have hcase : ∀ w j y, home w = .iso j y → w = u → j = k ∧ y = x := by
      rintro w j y he rfl
      obtain ⟨rfl, rfl⟩ := Home.iso.inj (he.symm.trans hhome)
      exact ⟨rfl, rfl⟩
    refine ⟨ha.qtds, ⟨fun j y b hb hhot => ?_, fun w j y he => ?_, fun w j y he => ?_,
      fun hnq w j y he => ?_, ha.tds.orphans, fun hnq w j y he => ?_⟩, ?_⟩
    · rcases (htds j y b).mp hb with hb | ⟨rfl, rfl, rfl⟩
      · exact ha.tds.carried j y b hb hhot
      · exact ⟨u, htu, hhome⟩
    · have hc := ha.tds.cnt w j y he
      by_cases hwu : w = u
      · obtain ⟨rfl, rfl⟩ := hcase w j y he hwu
        subst hwu
        show s.tdCnt w = _
        rw [hself, hc, hhand, List.length_append, List.length_cons, List.length_singleton]
        omega
      · rw [(hw w j y he hwu).1, (hw w j y he hwu).2]
        exact hc
    · by_cases hwu : w = u
      · obtain ⟨rfl, rfl⟩ := hcase w j y he hwu
        subst hwu
        rw [hself]
        exact .inl (by simp)
      · rw [(hw w j y he hwu).1, (hw w j y he hwu).2]
        exact ha.tds.pos w j y he
    · rw [setLinks_toLinks, hiso]
      exact ha.tds.ep hnq w j y he
    · have hp := ha.tds.slots hnq w j y he
      rw [hsl]
      by_cases hwu : w = u
      · obtain ⟨rfl, rfl⟩ := hcase w j y he hwu
        subst hwu
        rw [hhand, List.flatten_cons] at hp
        rw [hself, List.flatMap_append, List.flatMap_singleton]
        show (slotsSince s.trace w ++ _ ++ _).Perm _
        simpa only [List.append_assoc] using hp
      · rw [(hw w j y he hwu).1, (hw w j y he hwu).2]
        exact hp
    · refine ⟨ha.record.alternates, ha.record.slotsOk, ha.record.pending, fun hnq w hp => ?_⟩
      by_cases hwu : w = u
      · exact .inl ⟨k, x, by rw [hwu]; exact hhome⟩
      · rw [hne w hwu]
        exact ha.record.kept hnq w hp
  · exact (gone_become Role.noConfusion (fun _ => Role.noConfusion)
      (show (v.putTd k x t (s.nextFrame x)).role = Function.update v.role t (.td k x) from rfl)
      hg).2
  · obtain ⟨j, y, hm⟩ := hi.hotTd b hb
    exact ⟨j, y, (htds j y b).mpr (.inl hm)⟩

/-- The request takes its descriptors in hand. -/
theorem Inv.takeHand (hi : Inv M hand hot home s v) (hand' : UtrId → List (List Nat))
    (hne : ∀ w, w ≠ u → hand' w = hand w)
    (hu : M.own = completed → home u = .none ∧ Pending s.trace u ∧ slotsSince s.trace u = [])
    (hhand : hand' u ≠ []) (hperm : (hand' u).flatten.Perm (List.range ifPerUtr)) (k : IsoKind)
    (x : IsoId) (hep : s.utrEp u = some (s.isoEpEp x)) :
    Inv M hand' hot (Function.update home u (.iso k x))
      { s with tdCnt := Function.update s.tdCnt u ((hand' u).length : Int) } v :=
  { hi with
    acct := fun ho => by
      have ha := hi.acct ho
      obtain ⟨hn, hpend, hslots⟩ := hu ho
      have hself : Function.update home u (.iso k x) u = .iso k x := Function.update_self ..
      have hw : ∀ w, w ≠ u → Function.update home u (.iso k x) w = home w := fun w hw =>
        Function.update_of_ne hw ..
      have hwu : ∀ w j y, home w = .iso j y → w ≠ u := by
        rintro w j y he rfl
        rw [hn] at he
        cases he
      have hmine : ∀ j y, mine s v hot j y u = [] := by
        refine fun j y => List.eq_nil_iff_forall_not_mem.mpr fun b hb => ?_
        obtain ⟨hm, hhot, hu'⟩ := mem_mine.mp hb
        obtain ⟨w, hw', he⟩ := ha.tds.carried j y b hm hhot
        exact hwu w j y he (Option.some.inj (hw'.symm.trans hu'))
      refine ⟨ha.qtds.rehome hw (fun h he => by rw [hn] at he; cases he),
        ⟨fun j y b hb hhot => ?_, fun w j y he => ?_, fun w j y he => ?_, fun hnq w j y he => ?_,
          ha.tds.orphans, fun hnq w j y he => ?_⟩, ?_⟩
      · obtain ⟨w, hw', he⟩ := ha.tds.carried j y b hb hhot
        exact ⟨w, hw', by rw [hw w (hwu w j y he)]; exact he⟩
      · by_cases hc : w = u
        · subst hc
          show Function.update s.tdCnt w _ w = _
          rw [Function.update_self]
          show _ = (((mine s v hot j y w).length + _ : Nat) : Int)
          rw [hmine, List.length_nil, Nat.zero_add]
        · rw [hw w hc] at he
          show Function.update s.tdCnt u _ w = _
          rw [Function.update_of_ne hc, hne w hc]
          exact ha.tds.cnt w j y he
      · by_cases hc : w = u
        · exact .inr (by rw [hc]; exact hhand)
        · rw [hw w hc] at he
          rw [hne w hc]
          exact ha.tds.pos w j y he
      · by_cases hc : w = u
        · subst hc
          obtain ⟨rfl, rfl⟩ := Home.iso.inj (hself.symm.trans he)
          exact hep
        · rw [hw w hc] at he
          exact ha.tds.ep hnq w j y he
      · by_cases hc : w = u
        · subst hc
          show (slotsSince s.trace w ++ (mine s v hot j y w).flatMap _ ++ _).Perm _
          rw [hmine, hslots]
          exact hperm
        · rw [hw w hc] at he
          rw [hne w hc]
          have hf : (mine s v hot j y w).flatMap (tdSlots { s with
              tdCnt := Function.update s.tdCnt u ((hand' u).length : Int) } j) =
              (mine s v hot j y w).flatMap (tdSlots s j) := by cases j <;> rfl
          show (slotsSince s.trace w ++ (mine s v hot j y w).flatMap _ ++ _).Perm _
          rw [hf]
          exact ha.tds.slots hnq w j y he
      · refine ⟨ha.record.alternates, ha.record.slotsOk, fun w hne' => ?_, fun hnq w hp => ?_⟩
        · by_cases hc : w = u
          · rw [hc]; exact hpend
          · rw [hw w hc] at hne'
            exact ha.record.pending w hne'
        · by_cases hc : w = u
          · exact .inl ⟨k, x, by rw [hc]; exact hself⟩
          · rw [hw w hc, hne w hc]
            exact ha.record.kept hnq w hp }

/-! ## Filling a descriptor -/

/-- Only the words of the descriptor `t` differ. -/
structure OnTd (t : Addr) (s s' : Ehci) : Prop where
  eq : s' = { s with
    tdUtr := s'.tdUtr, tdFidx := s'.tdFidx, itdHw := s'.itdHw, sitdHw := s'.sitdHw }
  tdUtr : ∀ k b, b ≠ t → s'.tdUtr k b = s.tdUtr k b
  tdFidx : ∀ k b, b ≠ t → s'.tdFidx k b = s.tdFidx k b
  itdHw : ∀ b, b ≠ t → s'.itdHw b = s.itdHw b

theorem OnTd.trans {s₂ : Ehci} (h : OnTd t s s₁) (h' : OnTd t s₁ s₂) : OnTd t s s₂ where
  eq := by rw [h'.eq, h.eq]
  tdUtr k b hb := (h'.tdUtr k b hb).trans (h.tdUtr k b hb)
  tdFidx k b hb := (h'.tdFidx k b hb).trans (h.tdFidx k b hb)
  itdHw b hb := (h'.itdHw b hb).trans (h.itdHw b hb)

theorem OnTd.setItdHw (t : Addr) (s : Ehci) (f : ItdHw → ItdHw) : OnTd t s (s.setItdHw t f) :=
  ⟨rfl, fun _ _ _ => rfl, fun _ _ _ => rfl, fun _ hb => Function.update_of_ne hb ..⟩

theorem OnTd.setTdUtr (k : IsoKind) (t : Addr) (u : UtrId) (fidx : Nat) (s : Ehci) :
    OnTd t s (setTdUtr k t u fidx s) :=
  ⟨rfl, fun _ _ hb => Links.setTd_of_ne fun h => hb h.2, fun _ _ hb =>
    Links.setTd_of_ne fun h => hb h.2, fun _ _ => rfl⟩

theorem Inv.onTd {j : HwKind} (hi : Inv M hand hot home s v) (ht : v.role t = .held j)
    (h : OnTd t s s') : Inv M hand hot home s' v := by
  have hne : ∀ k x, ∀ b ∈ v.tds k x, b ≠ t := by
    rintro k x b hb rfl
    rw [hi.shape.role_td hb] at ht
    cases ht
  obtain ⟨heq, h₁, h₂, h₃⟩ := h
  refine hi.unseen ⟨by rw [heq], by rw [heq], by rw [heq], by rw [heq], by rw [heq], rfl, rfl, rfl, rfl, rfl,
    fun _ q _ => by rw [heq], fun _ q _ => by rw [heq], fun k x b hb => h₁ k b (hne k x b hb),
    fun k x b hb => ?_, fun b hg => ⟨hg, fun hst => by rw [heq]; exact hst⟩⟩ (by rw [heq]; exact hi.shape)
  cases k
  · simp only [tdSlots, h₂ .itd b (hne _ x b hb), h₃ b (hne _ x b hb)]
  · simp only [tdSlots, h₂ .sitd b (hne _ x b hb)]

/-- The slots that one request spreads over `n` descriptors, `c` for each, from `fidx` on. -/
def slotsFrom (c : Nat) : Nat → Nat → List (List Nat)
  | 0, _ => []
  | n + 1, fidx => List.range' fidx c :: slotsFrom c n (fidx + c)

theorem slotsFrom_length (c n fidx : Nat) : (slotsFrom c n fidx).length = n := by
  induction n generalizing fidx with
  | zero => rfl
  | succ n ih => rw [slotsFrom, List.length_cons, ih]

theorem slotsFrom_flatten (c n fidx : Nat) :
    (slotsFrom c n fidx).flatten = List.range' fidx (n * c) := by
  induction n generalizing fidx with
  | zero => simp [slotsFrom]
  | succ n ih =>
    rw [slotsFrom, List.flatten_cons, ih, Nat.succ_mul, Nat.add_comm (n * c), List.range'_append_1]

theorem fillMicroFrames_ok {mask : BitVec 8} {l : List Nat} {fidx : Nat}
    (h : fidx + l.countP (inMask mask) ≤ ifPerUtr) :
    (fillMicroFrames u t mask l fidx s).1 = fidx + l.countP (inMask mask) ∧
      OnTd t s (fillMicroFrames u t mask l fidx s).2 ∧
      ((fillMicroFrames u t mask l fidx s).2.itdHw t).transMask = (s.itdHw t).transMask ∧
      (fillMicroFrames u t mask l fidx s).2.tdUtr = s.tdUtr ∧
      (fillMicroFrames u t mask l fidx s).2.tdFidx = s.tdFidx := by
  have hmask : ∀ (s : Ehci) (f : ItdHw → ItdHw), (∀ w, (f w).transMask = w.transMask) →
      ((s.setItdHw t f).itdHw t).transMask = (s.itdHw t).transMask := fun s f hf => by
    show (Function.update s.itdHw t (f (s.itdHw t)) t).transMask = _
    rw [Function.update_self, hf]
  induction l generalizing fidx s with
  | nil => exact ⟨rfl, ⟨rfl, fun _ _ _ => rfl, fun _ _ _ => rfl, fun _ _ => rfl⟩, rfl, rfl, rfl⟩
  | cons i l ih =>
    rw [List.countP_cons] at h ⊢
    rw [fillMicroFrames]
    by_cases hm : inMask mask i = true
    · rw [if_pos hm] at h ⊢
      rw [if_pos hm]
      have hw : OnTd t s (writeItdMicroFrame u fidx t i s) := by
        unfold writeItdMicroFrame; exact .setItdHw ..
      have hwm : ((writeItdMicroFrame u fidx t i s).itdHw t).transMask = (s.itdHw t).transMask := by
        unfold writeItdMicroFrame; exact hmask _ _ fun _ => rfl
      dsimp only
      split
      · rename_i hlast
        dsimp only
        refine ⟨by omega, hw.trans (.setItdHw ..), Eq.trans ?_ hwm, rfl, rfl⟩
        exact hmask _ _ fun _ => rfl
      · obtain ⟨h₁, h₂, h₃, h₄, h₅⟩ := @ih (writeItdMicroFrame u fidx t i s) (fidx + 1)
          (by omega)
        exact ⟨by rw [h₁]; omega, hw.trans h₂, h₃.trans hwm, h₄, h₅⟩
    · rw [if_neg hm] at h ⊢
      rw [if_neg hm]
      obtain ⟨h₁, h₂, h₃, h₄, h₅⟩ := @ih (s.setItdHw t fun t => { t with
        transaction := Function.update t.transaction i 0 }) fidx h
      exact ⟨h₁, (OnTd.setItdHw ..).trans h₂, h₃.trans (hmask _ _ fun _ => rfl), h₄, h₅⟩

/-! ## What a submission leaves in place -/

/-- From `s` and `v`, descriptors were added at the end of the lists of `x`; those in
`L` are held, and the rest is as it was. -/
structure Grown (k : IsoKind) (x : IsoId) (L : List Addr) (s : Ehci) (v : View) (s' : Ehci)
    (v' : View) : Prop where
  role : ∀ a, v.role a ≠ .free → v'.role a = v.role a
  fresh : ∀ a, v.role a = .free → v'.role a = .free ∨ v'.role a = .td k x ∨ a ∈ L
  held : ∀ a ∈ L, v.role a = .free ∧ v'.role a = .held k.hw
  tds : ∀ j y, ∃ l, v'.tds j y = v.tds j y ++ l
  lists : v'.ring = v.ring ∧ v'.under = v.under ∧ v'.removed = v.removed ∧ v'.queued = v.queued ∧
    v'.done = v.done ∧ v'.isoEps = v.isoEps
  keeps : ∀ a, v.role a ≠ .free → s'.hLink a = s.hLink a ∧ s'.bell.stamp a = s.bell.stamp a
  bell : ∃ f, s'.bell = { s.bell with stamp := f }
  words : s'.ep = s.ep ∧ s'.hwPipe = s.hwPipe ∧ s'.isoEpEp = s.isoEpEp ∧
    s'.insertedUnder = s.insertedUnder ∧ s'.hQh = s.hQh ∧ s'.iqh = s.iqh
  trace : ∀ e ∈ s.trace, e ∈ s'.trace

theorem Chained.grown {s₀ : Ehci} (hc : Chained k lst L s v v') (hq : Quiet s₀ s)
    (hs : Shape s₀.toLinks v) : Grown k x L s₀ v s v' where
  role a ha := hc.rest a fun hm => ha (hc.fresh a hm)
  fresh a ha := by
    by_cases hm : a ∈ L
    · exact .inr (.inr hm)
    · exact .inl ((hc.rest a hm).trans ha)
  held a ha := ⟨hc.fresh a ha, hc.held a ha⟩
  tds _ _ := ⟨[], by rw [hc.same, List.append_nil]⟩
  lists := by rw [hc.same]; exact ⟨rfl, rfl, rfl, rfl, rfl, rfl⟩
  keeps a ha := by
    obtain ⟨k, hk⟩ := hs.used_unit ha
    exact (hq.used a k hk).2
  bell := hq.bell
  words := ⟨hq.ep, hq.hwPipe, hq.isoEpEp, hq.insertedUnder, hq.hQh, hq.iqh⟩
  trace e he := by rw [hq.trace]; exact he

/-- Links and doorbell are the same. -/
theorem Grown.congr {s₀ : Ehci} (hg : Grown k x L s₀ v s v') (hl : s'.toLinks = s.toLinks)
    (hb : s'.bell = s.bell) (ht : s'.trace = s.trace) : Grown k x L s₀ v s' v' :=
  { hg with
    trace := by rw [ht]; exact hg.trace
    keeps := fun a ha => by rw [hl, hb]; exact hg.keeps a ha
    bell := by rw [hb]; exact hg.bell
    words := by rw [hl]; exact hg.words }

theorem Grown.link {s₀ : Ehci} {m : Links} {idx : Nat} (hg : Grown k x (t :: L) s₀ v s v')
    (hnd : t ∉ L)
    (hm : m = { s.toLinks with
      schedFrnidx := m.schedFrnidx, tdNext := m.tdNext, tdList := m.tdList
      hLink := m.hLink, pfList := m.pfList, nextFrame := m.nextFrame })
    (hl : ∀ b, b ≠ t → m.hLink b = s.hLink b) :
    Grown k x L s₀ v (s.setLinks m) (v'.putTd k x t idx) := by
  obtain ⟨htf, hth⟩ := hg.held t List.mem_cons_self
  have hne : ∀ a, a ≠ t → (v'.putTd k x t idx).role a = v'.role a := fun a ha =>
    Function.update_of_ne ha ..
  have hnf : ∀ a, v.role a ≠ .free → a ≠ t := by
    rintro a ha rfl
    exact ha htf
  refine ⟨fun a ha => (hne a (hnf a ha)).trans (hg.role a ha), fun a ha => ?_, fun a ha => ?_,
    fun j y => ?_, hg.lists, fun a ha => ?_, hg.bell, ?_, hg.trace⟩
  · by_cases hat : a = t
    · subst hat
      exact .inr (.inl (Function.update_self ..))
    · rw [hne a hat]
      rcases hg.fresh a ha with h | h | h
      · exact .inl h
      · exact .inr (.inl h)
      · exact .inr (.inr ((List.mem_cons.mp h).resolve_left hat))
  · rw [hne a fun he => hnd (he ▸ ha)]
    exact hg.held a (List.mem_cons_of_mem _ ha)
  · obtain ⟨l, hl⟩ := hg.tds j y
    rw [show (v'.putTd k x t idx).tds j y = if j = k ∧ y = x then v'.tds k x ++ [t] else v'.tds j y
      from Links.setTd_apply ..]
    split
    · rename_i h
      obtain ⟨rfl, rfl⟩ := h
      exact ⟨l ++ [t], by rw [hl, List.append_assoc]⟩
    · exact ⟨l, hl⟩
  · show m.hLink a = _ ∧ _
    rw [hl a (hnf a ha)]
    exact hg.keeps a ha
  · rw [show (s.setLinks m).toLinks = m from rfl, hm]
    exact hg.words

theorem Grown.ext {s₀ : Ehci} (hg : Grown k x [] s₀ v s v') : Ext s₀ v s v' := by
  obtain ⟨-, -, -, hqu, hdo, hiso⟩ := hg.lists
  obtain ⟨-, -, -, hiu, hQh, hiqh⟩ := hg.words
  refine Ext.of_grow hg.role (fun a ha j hj => ?_) (fun a _ => congrFun hiu a)
    (fun a ha => (hg.keeps a (by rw [ha]; exact Role.noConfusion)).1) hQh hiqh
    (fun a _ => ⟨congrFun hqu a, congrFun hdo a⟩) (fun a ha => (hg.keeps a ha).2) hg.bell hg.tds
    ⟨[], hiso⟩ hg.trace
  rcases hg.fresh a ha with h | h | h
  · rw [h] at hj; cases hj
  · rw [h] at hj; cases hj
  · exact absurd h List.not_mem_nil

theorem Grown.tidy {s₀ : Ehci} (hg : Grown k x [] s₀ v s v') (ht : Tidy s₀.toLinks v) :
    Tidy s.toLinks v' := by
  obtain ⟨hring, hunder, -, hqu, -, heps⟩ := hg.lists
  obtain ⟨hep, hpipe, hiso, hiu, -, -⟩ := hg.words
  have hback : ∀ a r, r ≠ Role.free → (∀ k x, r ≠ .td k x) → v'.role a = r → v.role a = r := by
    intro a r hr hr' ha
    by_cases hf : v.role a = .free
    · rcases hg.fresh a hf with h | h | h
      · exact absurd (ha.symm.trans h) hr
      · exact absurd (ha.symm.trans h) (hr' k x)
      · exact absurd h List.not_mem_nil
    · rw [← hg.role a hf]; exact ha
  exact
    { pipeQh := by rw [hpipe, hep, hring, hunder]; exact ht.pipeQh
      pipeInj := by rw [hpipe]; exact ht.pipeInj
      ringPipe := by rw [hpipe, hring]; exact ht.ringPipe
      pipeIso := by rw [hpipe, hiso, heps]; exact ht.pipeIso
      pipeEd := by rw [hpipe]; exact ht.pipeEd
      isoType := by rw [hiso, hep, heps]; exact ht.isoType
      ep0 := by rw [hep]; exact ht.ep0
      single := fun h hc => by
        rw [hqu]
        refine ht.single h ?_
        rcases hc with ⟨i, hc⟩ | ⟨i, hc⟩ | ⟨hc, hn⟩
        · exact .inl ⟨i, hback h _ Role.noConfusion (fun _ _ => Role.noConfusion) hc⟩
        · exact .inr (.inl ⟨i, hback h _ Role.noConfusion (fun _ _ => Role.noConfusion) hc⟩)
        · exact .inr (.inr ⟨hback h _ Role.noConfusion (fun _ _ => Role.noConfusion) hc,
            by rw [← hiu]; exact hn⟩) }

/-! ## Filling and linking the chain -/

theorem writeItdInfo_onTd (s : Ehci) :
    OnTd t s (writeItdInfo u e t s) ∧
      ((writeItdInfo u e t s).itdHw t).transMask = (s.itdHw t).transMask ∧
      (writeItdInfo u e t s).tdUtr = s.tdUtr ∧ (writeItdInfo u e t s).tdFidx = s.tdFidx := by
  unfold writeItdInfo
  refine ⟨.setItdHw .., ?_, rfl, rfl⟩
  show (Function.update s.itdHw t _ t).transMask = _
  rw [Function.update_self]

/-- What one pass of the loop writes into an iTD before it links it. -/
def fillItd (u : UtrId) (e : EpId) (td : Addr) (mask : BitVec 8) (fidx : Nat) (s : Ehci) :
    Nat × Ehci :=
  fillMicroFrames u td mask (List.range 8) fidx (writeItdInfo u e td
    ((setTdUtr .itd td u fidx s).setItdHw td
      ({ · with buffBase := (s.utr u).isoBuff fidx, transMask := mask })))

theorem fillItd_ok (mask : BitVec 8) (fidx : Nat)
    (h : fidx + (List.range 8).countP (inMask mask) ≤ ifPerUtr) :
    (fillItd u e t mask fidx s).1 = fidx + (List.range 8).countP (inMask mask) ∧
      OnTd t s (fillItd u e t mask fidx s).2 ∧
      tdSlots (fillItd u e t mask fidx s).2 .itd t =
        List.range' fidx ((List.range 8).countP (inMask mask)) ∧
      (fillItd u e t mask fidx s).2.tdUtr .itd t = some u := by
  have hlt : fidx < 256 := by
    have : ifPerUtr = 8 := rfl
    omega
  obtain ⟨hw, hwm, hwu, hwf⟩ := writeItdInfo_onTd (t := t) (u := u) (e := e)
    ((setTdUtr .itd t u fidx s).setItdHw t
      ({ · with buffBase := (s.utr u).isoBuff fidx, transMask := mask }))
  obtain ⟨h₁, h₂, h₃, h₄, h₅⟩ := fillMicroFrames_ok (u := u) (t := t) (s := writeItdInfo u e t
    ((setTdUtr .itd t u fidx s).setItdHw t
      ({ · with buffBase := (s.utr u).isoBuff fidx, transMask := mask }))) h
  refine ⟨h₁, ((OnTd.setTdUtr ..).trans (.setItdHw ..)).trans (hw.trans h₂), ?_, ?_⟩
  · have hmask := h₃.trans hwm
    have hfidx := congrFun (congrFun (h₅.trans hwf) .itd) t
    simp only [tdSlots, fillItd]
    rw [hmask, hfidx]
    show List.range' (Links.setTd s.tdFidx .itd t (fidx % 256) .itd t) ((List.range 8).countP
      (inMask (Function.update s.itdHw t _ t).transMask)) = _
    rw [Links.setTd_self, Function.update_self, Nat.mod_eq_of_lt hlt]
  · have hutr := congrFun (congrFun (h₄.trans hwu) .itd) t
    simp only [fillItd]
    rw [hutr]
    show Links.setTd s.tdUtr .itd t (some u) .itd t = _
    exact Links.setTd_self ..

/-- A filled descriptor is linked, and the rest of the chain stays. -/
theorem Grown.linkNext {s₀ : Ehci} {sl : List Nat} {rest : List (List Nat)} {interval : Nat}
    (hi : Inv M.relaxed (Function.update hand u (sl :: rest)) hot home s v')
    (hg : Grown k x (t :: L) s₀ v s v') (hx : x ∈ v.isoEps)
    (hp : Path some (s.tdNext k) (some t) (t :: L) none)
    (hu : M.own = completed → home u = .iso k x) (hs : OnTd t s s₁)
    (hsl : tdSlots s₁ k t = sl) (htu : s₁.tdUtr k t = some u) :
    ∃ s₂ v₂, Ehci.linkTd k x t interval s₁ = some s₂ ∧
      Inv M.relaxed (Function.update hand u rest) hot home s₂ v₂ ∧ Grown k x L s₀ v s₂ v₂ ∧
      Path some (s₂.tdNext k) (s₁.tdNext k t) L none := by
  obtain ⟨-, hth⟩ := hg.held t List.mem_cons_self
  have hnd := hp.nodup_none
  have hi₁ := hi.onTd hth hs
  have hl : s₁.toLinks = s.toLinks := by rw [hs.eq]
  obtain ⟨m, he, hi₂, hm, hhl, hnext⟩ := hi₁.linkTd (Function.update hand u rest) (u := u)
    hth (by rw [hg.lists.2.2.2.2.2]; exact hx)
    (fun w hw => by rw [Function.update_of_ne hw, Function.update_of_ne hw])
    (fun ho => ⟨hu ho, htu, by rw [Function.update_self, Function.update_self, hsl]⟩) interval
  refine ⟨_, _, by rw [Ehci.linkTd, he]; rfl, hi₂, (hg.congr hl (by rw [hs.eq]) (by rw [hs.eq])).link
    (List.nodup_cons.mp hnd).1 hm hhl, ?_⟩
  have hrest : Path some (s₁.tdNext k) (s₁.tdNext k t) L none := by rw [hl]; exact hp.2
  refine hrest.congr (fun _ _ => rfl) fun b hb => (hnext k b ?_ fun hbt => ?_).symm
  · rintro rfl
    exact (List.nodup_cons.mp hnd).1 hb
  · have hr := (hg.held b (List.mem_cons_of_mem _ hb)).2
    rw [hi₁.shape.role_td hbt] at hr
    cases hr

theorem fillItds_ok {mask : BitVec 8} {interval fidx c : Nat} {ok : Bool} {s₀ : Ehci}
    (hc : (List.range 8).countP (inMask mask) = c) (hpos : 0 < c)
    (hi : Inv M.relaxed (Function.update hand u (slotsFrom c L.length fidx)) hot home s v')
    (hg : Grown .itd x L s₀ v s v') (hx : x ∈ v.isoEps)
    (hp : Path some (s.tdNext .itd) lst L none) (hu : M.own = completed → home u = .iso .itd x)
    (hlen : fidx + L.length * c = ifPerUtr)
    (h : fillItds u e x mask interval n lst fidx s = some (ok, s')) :
    ok = true ∧ ∃ v₂, Inv M.relaxed (Function.update hand u []) hot home s' v₂ ∧
      Grown .itd x [] s₀ v s' v₂ := by
  induction L generalizing n lst fidx s v' with
  | nil =>
    have hl : lst = none := path_nil.mp hp
    subst hl
    cases n with
    | zero => cases h
    | succ n =>
      obtain ⟨rfl, rfl⟩ := Prod.mk.inj (Option.some.inj h)
      exact ⟨rfl, v', hi, hg⟩
  | cons t L ih =>
    obtain rfl : lst = some t := hp.1
    rw [List.length_cons, Nat.succ_mul] at hlen
    cases n with
    | zero => cases h
    | succ n =>
      rw [fillItds, if_neg (by omega)] at h
      obtain ⟨s₂, hlink, h⟩ := Option.bind_eq_some_iff.mp h
      obtain ⟨h₁, h₂, h₃, h₄⟩ := fillItd_ok (u := u) (e := e) (t := t) (s := s) mask fidx
        (by omega)
      rw [hc] at h₁ h₃
      obtain ⟨s₃, v₃, hlink', hi₃, hg₃, hp₃⟩ := Grown.linkNext hi hg hx hp hu h₂ h₃ h₄
      obtain rfl := Option.some.inj (hlink'.symm.trans hlink)
      have h' : fillItds u e x mask interval n ((fillItd u e t mask fidx s).2.tdNext .itd t)
          (fillItd u e t mask fidx s).1 s₃ = some (ok, s') := h
      rw [h₁] at h'
      exact ih hi₃ hg₃ hp₃ (by omega) h'

theorem OnTd.setSitdHw (t : Addr) (s : Ehci) (f : SitdHw → SitdHw) : OnTd t s (s.setSitdHw t f) :=
  ⟨rfl, fun _ _ _ => rfl, fun _ _ _ => rfl, fun _ _ => rfl⟩

theorem writeSitdInfo_onTd (h : writeSitdInfo u e t s = some s') :
    OnTd t s s' ∧ s'.tdUtr = s.tdUtr ∧ s'.tdFidx = s.tdFidx := by
  unfold writeSitdInfo at h
  simp only [Option.bind_eq_bind] at h
  obtain ⟨hub, -, h⟩ := Option.bind_eq_some_iff.mp h
  split at h
  · rw [← Option.some.inj h]
    exact ⟨.setSitdHw .., rfl, rfl⟩
  · split at h
    · cases h
    · obtain ⟨smask, -, h⟩ := Option.bind_eq_some_iff.mp h
      rw [← Option.some.inj h]
      exact ⟨.setSitdHw .., rfl, rfl⟩

/-- `sched_frnidx` is set before the schedule of the siTD is adjusted, and again when it is
linked. -/
theorem linkTd_preset (interval : Nat) (s : Ehci) :
    ∃ g, OnTd t s { s with sitdHw := g } ∧
      Ehci.linkTd .sitd x t interval (ehciSitdAdjustSchedule t (s.setLinks { s.toLinks with
        schedFrnidx := Links.setTd s.schedFrnidx .sitd t (s.nextFrame x) })) =
      Ehci.linkTd .sitd x t interval { s with sitdHw := g } := by
  refine ⟨(ehciSitdAdjustSchedule t (s.setLinks { s.toLinks with
      schedFrnidx := Links.setTd s.schedFrnidx .sitd t (s.nextFrame x) })).sitdHw,
    ⟨rfl, fun _ _ _ => rfl, fun _ _ _ => rfl, fun _ _ => rfl⟩, ?_⟩
  have hidem : Links.setTd (Links.setTd s.schedFrnidx .sitd t (s.nextFrame x)) .sitd t
      (s.nextFrame x) = Links.setTd s.schedFrnidx .sitd t (s.nextFrame x) := by
    funext j b
    rw [Links.setTd_apply]
    split
    · rename_i h
      rw [h.1, h.2, Links.setTd_self]
    · rfl
  have hlink : ({ s.toLinks with
      schedFrnidx := Links.setTd s.schedFrnidx .sitd t (s.nextFrame x) } : Links).linkTd .sitd x t
        interval = s.toLinks.linkTd .sitd x t interval := by
    unfold Links.linkTd
    simp only [hidem]
  show Option.map _ (({ s.toLinks with
    schedFrnidx := Links.setTd s.schedFrnidx .sitd t (s.nextFrame x) } : Links).linkTd ..) = _
  rw [hlink]
  rfl

theorem fillSitds_ok {fidx : Nat} {ok : Bool} {s₀ : Ehci}
    (hi : Inv M.relaxed (Function.update hand u (slotsFrom 1 L.length fidx)) hot home s v')
    (hg : Grown .sitd x L s₀ v s v') (hx : x ∈ v.isoEps)
    (hp : Path some (s.tdNext .sitd) lst L none) (hu : M.own = completed → home u = .iso .sitd x)
    (hlen : fidx + L.length = ifPerUtr) (h : fillSitds u e x n lst fidx s = some (ok, s')) :
    ok = true ∧ ∃ v₂, Inv M.relaxed (Function.update hand u []) hot home s' v₂ ∧
      Grown .sitd x [] s₀ v s' v₂ := by
  induction L generalizing n lst fidx s v' with
  | nil =>
    have hl : lst = none := path_nil.mp hp
    subst hl
    cases n with
    | zero => cases h
    | succ n =>
      obtain ⟨rfl, rfl⟩ := Prod.mk.inj (Option.some.inj h)
      exact ⟨rfl, v', hi, hg⟩
  | cons t L ih =>
    obtain rfl : lst = some t := hp.1
    rw [List.length_cons] at hlen
    have h8 : ifPerUtr = 8 := rfl
    cases n with
    | zero => cases h
    | succ n =>
      rw [fillSitds, if_neg (by omega)] at h
      obtain ⟨s₁, hw, h⟩ := Option.bind_eq_some_iff.mp h
      obtain ⟨s₂, hlink, h⟩ := Option.bind_eq_some_iff.mp h
      obtain ⟨hon, hwu, hwf⟩ := writeSitdInfo_onTd hw
      obtain ⟨g, hon', hpre⟩ := linkTd_preset (x := x) (t := t)
        (((ehciSitdAdjustSchedule t (s₁.setLinks { s₁.toLinks with
          schedFrnidx := Links.setTd s₁.schedFrnidx .sitd t (s₁.nextFrame x) })).ep e).bInterval) s₁
      rw [hpre] at hlink
      have hsl : tdSlots { s₁ with sitdHw := g } .sitd t = List.range' fidx 1 := by
        show [s₁.tdFidx .sitd t] = _
        rw [hwf]
        show [Links.setTd s.tdFidx .sitd t (fidx % 256) .sitd t] = _
        rw [Links.setTd_self, Nat.mod_eq_of_lt (by omega)]
        rfl
      have htu : s₁.tdUtr .sitd t = some u := by
        rw [hwu]
        show Links.setTd s.tdUtr .sitd t (some u) .sitd t = _
        exact Links.setTd_self ..
      obtain ⟨s₃, v₃, hlink', hi₃, hg₃, hp₃⟩ := Grown.linkNext hi hg hx hp hu
        (((OnTd.setTdUtr ..).trans hon).trans hon') hsl htu
      obtain rfl := Option.some.inj (hlink'.symm.trans hlink)
      exact ih hi₃ hg₃ hp₃ (by omega) h

end Ma35d1.UsbHost.Ehci
