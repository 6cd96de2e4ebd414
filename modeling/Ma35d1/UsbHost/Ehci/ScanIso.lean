import Ma35d1.UsbHost.Ehci.Scan

/-!
# The scan of the isochronous endpoints

Reviewing a descriptor takes it in hand, moves its slots from the hand to the
request, counts it down, and completes the request with the last one. While the
callback runs, the descriptor is still linked but accounted for: it is hot. Then it
is unlinked and freed.
-/

namespace Ma35d1.UsbHost.Ehci

open Heap.LinkedPath Relation

variable {M : Mode} {hand : UtrId → List (List Nat)} {hot : Ptr} {home : UtrId → Home}
  {s s' s₁ s₂ : Ehci} {v v' v₁ v₂ : View} {m : Links} {a b t : Addr} {u : UtrId} {env : Env}
  {n : Nat} {k : IsoKind} {x : IsoId}

/-! ## Taking a descriptor in hand -/

/-- The hot descriptor does not count. -/
theorem mine_hot (hs : Shape s.toLinks v) (ht : t ∈ v.tds k x) (hu : s.tdUtr k t = some u) :
    (mine s v none k x u).Perm (t :: mine s v (some t) k x u) := by
  have hnd := hs.tds_nodup k x
  have hp := (List.perm_cons_erase ht).filter fun b =>
    decide ((none : Ptr) ≠ some b ∧ s.tdUtr k b = some u)
  rw [List.filter_cons_of_pos (by simp [hu])] at hp
  refine hp.trans (List.Perm.of_eq (congrArg _ ?_))
  rw [hnd.erase_eq_filter, List.filter_filter, mine]
  refine List.filter_congr fun b _ => ?_
  by_cases hb : b = t
  · simp [hb]
  · simp [hb, Ne.symm hb]

theorem mine_hot_other (hs : Shape s.toLinks v) (ht : t ∈ v.tds k x) (hu : s.tdUtr k t = some u)
    {j : IsoKind} {y : IsoId} {w : UtrId} (hw : w ≠ u ∨ ¬ (j = k ∧ y = x)) :
    mine s v (some t) j y w = mine s v none j y w := by
  unfold mine
  refine List.filter_congr fun b hb => ?_
  by_cases hbt : b = t
  · subst hbt
    have hr := (hs.role_td hb).symm.trans (hs.role_td ht)
    obtain ⟨rfl, rfl⟩ := Role.td.inj hr
    have hwu : w ≠ u := hw.resolve_right fun h => h ⟨rfl, rfl⟩
    have hne : s.tdUtr j b ≠ some w := by
      rw [hu]
      exact fun h => hwu (Option.some.inj h).symm
    simp [hne]
  · simp [Ne.symm hbt]

theorem Inv.heat (hi : Inv M (fun _ => []) none home s v) (ht : t ∈ v.tds k x)
    (hu : s.tdUtr k t = some u) :
    Inv M (Function.update (fun _ => []) u [tdSlots s k t]) (some t) home s v :=
  { hi with
    acct := fun ho => by
      have ha := hi.acct ho
      have hs := hi.shape
      obtain ⟨w, hw, hhome⟩ := ha.tds.carried k x t ht (fun h => by cases h)
      obtain rfl := Option.some.inj (hu.symm.trans hw)
      have hself : Function.update (fun _ => []) u [tdSlots s k t] u = [tdSlots s k t] :=
        Function.update_self ..
      have hne : ∀ w, w ≠ u → Function.update (fun _ => []) u [tdSlots s k t] w = [] := fun w hw =>
        Function.update_of_ne hw ..
      have hp := mine_hot hs ht hu
      have hcase : ∀ w j y, home w = .iso j y → w = u → j = k ∧ y = x := by
        rintro w j y he rfl
        obtain ⟨rfl, rfl⟩ := Home.iso.inj (he.symm.trans hhome)
        exact ⟨rfl, rfl⟩
      refine ⟨ha.qtds, ⟨fun j y b hb _ => ha.tds.carried j y b hb (fun h => by cases h),
        fun w j y he => ?_, fun w j y he => ?_, ha.tds.ep, ha.tds.orphans, fun hnq w j y he => ?_⟩,
        ⟨ha.record.alternates, ha.record.slotsOk, ha.record.pending, fun hnq w hp => ?_⟩⟩
      · by_cases hwu : w = u
        · obtain ⟨rfl, rfl⟩ := hcase w j y he hwu
          subst hwu
          rw [ha.tds.cnt w j y he, hself, hp.length_eq]
          simp
        · rw [hne w hwu, mine_hot_other hs ht hu (.inl hwu)]
          exact ha.tds.cnt w j y he
      · by_cases hwu : w = u
        · rw [hwu, hself]
          exact .inr (List.cons_ne_nil _ _)
        · rw [hne w hwu, mine_hot_other hs ht hu (.inl hwu)]
          exact ha.tds.pos w j y he
      · by_cases hwu : w = u
        · obtain ⟨rfl, rfl⟩ := hcase w j y he hwu
          subst hwu
          refine List.Perm.trans ?_ (ha.tds.slots hnq w j y he)
          rw [hself, List.flatten_singleton, List.flatten_nil, List.append_nil, List.append_assoc]
          refine List.Perm.append_left _ (List.Perm.trans ?_ (hp.flatMap_right _).symm)
          exact List.perm_append_comm
        · rw [hne w hwu, mine_hot_other hs ht hu (.inl hwu)]
          exact ha.tds.slots hnq w j y he
      · exact .inl ((ha.record.kept hnq w hp).resolve_right fun h => h rfl)
    hotTd := fun b hb => ⟨k, x, by rw [← Option.some.inj hb]; exact ht⟩ }

/-! ## Collecting the results -/

/-- A slot goes from the hand to the request. -/
theorem Inv.writeSlot {i : Nat} {l : List Nat} (hi : Inv M (Function.update hand u [i :: l]) hot home s v)
    (f : Utr → Utr) :
    Inv M (Function.update hand u [l]) hot home (writeSlot u a i f s) v where
  shape := hi.shape
  frees e he := by
    rcases List.mem_cons.mp he with rfl | he
    · exact trivial
    · exact hi.frees e he
  acct ho := by
    have ha := hi.acct ho
    have hself : ∀ l : List (List Nat), Function.update hand u l u = l := fun _ =>
      Function.update_self ..
    have hne : ∀ w, w ≠ u → ∀ l, Function.update hand u l w = hand w := fun w hw _ =>
      Function.update_of_ne hw ..
    refine ⟨ha.qtds, ⟨ha.tds.carried, fun w k x he => ?_, fun w k x he => ?_, ha.tds.ep, ha.tds.orphans,
      fun hnq w k x he => ?_⟩,
      ⟨ha.record.alternates, ha.record.slotsOk, ha.record.pending, fun hnq w hp => ?_⟩⟩
    · have hc := ha.tds.cnt w k x he
      by_cases hwu : w = u
      · subst hwu
        rw [hself] at hc ⊢
        exact hc
      · rw [hne w hwu] at hc ⊢
        exact hc
    · by_cases hwu : w = u
      · subst hwu
        rw [hself]
        exact .inr (List.cons_ne_nil _ _)
      · rw [hne w hwu]
        have hp := ha.tds.pos w k x he
        rw [hne w hwu] at hp
        exact hp
    · have hp := ha.tds.slots hnq w k x he
      have hf : (mine s v hot k x w).flatMap (tdSlots (Ehci.writeSlot u a i f s) k) =
          (mine s v hot k x w).flatMap (tdSlots s k) := by cases k <;> rfl
      show (slotsSince (.slot u i a :: s.trace) w ++ (mine s v hot k x w).flatMap _ ++ _).Perm _
      rw [hf]
      by_cases hwu : w = u
      · subst hwu
        rw [hself] at hp ⊢
        rw [show slotsSince (.slot w i a :: s.trace) w = i :: slotsSince s.trace w from if_pos rfl]
        refine List.Perm.trans ?_ hp
        rw [List.flatten_singleton, List.flatten_singleton]
        exact List.perm_middle.symm
      · rw [hne w hwu] at hp ⊢
        rw [show slotsSince (.slot u i a :: s.trace) w = slotsSince s.trace w from
          if_neg (Ne.symm hwu)]
        exact hp
    · rcases ha.record.kept hnq w hp with h | h
      · exact .inl h
      · refine .inr ?_
        by_cases hwu : w = u
        · subst hwu
          rw [hself]
          exact List.cons_ne_nil _ _
        · rw [hne w hwu] at h ⊢
          exact h
  bells hd a hg := hi.bells (fun e he => hd e (List.mem_cons_of_mem _ he)) a hg
  answered hh hd e he := by
    rcases List.mem_cons.mp he with rfl | he
    · exact trivial
    · exact hi.answered hh (fun e he => hd e (List.mem_cons_of_mem _ he)) e he
  psen hp := (hi.psen hp).congr rfl (fun _ _ h => h) (fun _ _ h => h) (fun _ _ _ => rfl)
    fun _ _ h => h
  hotTd := hi.hotTd

/-- Only requests and the record differ. -/
structure OnUtrs (s s' : Ehci) : Prop where
  eq : s' = { s with utr := s'.utr, trace := s'.trace }
  trace : ∀ e ∈ s.trace, e ∈ s'.trace

theorem OnUtrs.refl (s : Ehci) : OnUtrs s s := ⟨rfl, fun _ h => h⟩

theorem OnUtrs.trans (h : OnUtrs s s₁) (h' : OnUtrs s₁ s₂) : OnUtrs s s₂ :=
  ⟨by rw [h'.eq, h.eq], fun e he => h'.trace e (h.trace e he)⟩

theorem collectItd_ok {t : BitVec 32} {i : Nat} {l : List Nat}
    (hi : Inv M (Function.update hand u [i :: l]) hot home s v) :
    Inv M (Function.update hand u [l]) hot home (collectItd u a t i s) v ∧
      OnUtrs s (collectItd u a t i s) := by
  unfold collectItd
  dsimp only
  repeat' split
  all_goals exact ⟨hi.writeSlot _, rfl, fun _ h => List.mem_cons_of_mem _ h⟩

theorem collectItds_ok {l : List Nat} {fidx : Nat}
    (hi : Inv M (Function.update hand u
      [List.range' fidx (l.countP (inMask (s.itdHw a).transMask))]) hot home s v) :
    Inv M (Function.update hand u [[]]) hot home (collectItds u a l fidx s) v ∧
      OnUtrs s (collectItds u a l fidx s) := by
  induction l generalizing fidx s with
  | nil => exact ⟨hi, .refl s⟩
  | cons i l ih =>
    rw [List.countP_cons] at hi
    rw [collectItds]
    by_cases hm : inMask (s.itdHw a).transMask i = true
    · rw [if_pos hm] at hi ⊢
      rw [List.range'_succ] at hi
      obtain ⟨hi₁, h₁⟩ := collectItd_ok (a := a) (t := (s.itdHw a).transaction i) hi
      have hw : ((collectItd u a ((s.itdHw a).transaction i) fidx s).itdHw a) = s.itdHw a := by
        rw [h₁.eq]
      obtain ⟨hi₂, h₂⟩ := @ih _ (fidx + 1) (by rw [hw]; exact hi₁)
      exact ⟨hi₂, h₁.trans h₂⟩
    · rw [if_neg hm] at hi ⊢
      exact ih hi

theorem collectSitd_ok {t : BitVec 32} {i : Nat}
    (hi : Inv M (Function.update hand u [[i]]) hot home s v) :
    Inv M (Function.update hand u [[]]) hot home (collectSitd u a t i s) v ∧
      OnUtrs s (collectSitd u a t i s) := by
  unfold collectSitd
  dsimp only
  repeat' split
  all_goals exact ⟨hi.writeSlot _, rfl, fun _ h => List.mem_cons_of_mem _ h⟩

/-! ## Counting down -/

/-- The request has one descriptor less to wait for, or completes. -/
theorem Inv.countDownCall (hi : Inv M (Function.update (fun _ => []) u [[]]) hot home s v)
    (ht : Tidy s.toLinks v) (env : Env) (hu : M.own = completed → home u = .iso k x) :
    ∃ home' s₁, Good M hot home' s₁ v ∧ Ext s v s₁ v ∧ s₁.toLinks = s.toLinks ∧
      (countDown env u s = s₁ ∨ countDown env u s = env.func u s₁) := by
  have hself : Function.update (fun _ : UtrId => ([] : List (List Nat))) u [[]] u = [[]] :=
    Function.update_self ..
  have hne : ∀ w, w ≠ u → Function.update (fun _ : UtrId => ([] : List (List Nat))) u [[]] w = [] :=
    fun w hw => Function.update_of_ne hw ..
  have hcnt : Function.update s.tdCnt u (s.tdCnt u - 1) u = s.tdCnt u - 1 := Function.update_self ..
  unfold Ehci.countDown
  dsimp only
  split
  · rename_i hz'
    have hz : s.tdCnt u - 1 = 0 := hcnt.symm.trans hz'
    refine hi.completeCall ht env hne (by rw [hself]; rfl) (fun ho => ?_) _
    have hhome := hu ho
    refine ⟨by rw [hhome]; exact Home.noConfusion, fun h he' => ?_, fun j y he' => ?_,
      fun _ => ⟨k, x, hhome⟩⟩
    · rw [hhome] at he'
      cases he'
    have hc := (hi.acct ho).tds.cnt u j y he'
    rw [hself] at hc
    refine List.length_eq_zero_iff.mp ?_
    simp only [List.length_cons, List.length_nil] at hc
    omega
  · rename_i hz'
    have hz : s.tdCnt u - 1 ≠ 0 := fun h => hz' (hcnt.trans h)
    have hi' : Inv M (fun _ => []) hot home
        { s with tdCnt := Function.update s.tdCnt u (s.tdCnt u - 1) } v :=
      { hi with
        acct := fun ho => by
          have ha := hi.acct ho
          refine ⟨ha.qtds, ⟨ha.tds.carried, fun w j y he' => ?_, fun w j y he' => ?_, ha.tds.ep, ha.tds.orphans,
            fun hnq w j y he' => ?_⟩, ⟨ha.record.alternates, ha.record.slotsOk, ha.record.pending,
            fun hnq w hp => ?_⟩⟩
          · have hc := ha.tds.cnt w j y he'
            by_cases hwu : w = u
            · subst hwu
              rw [hself] at hc
              show Function.update s.tdCnt w _ w = (((mine s v hot j y w).length + 0 : Nat) : Int)
              rw [Function.update_self]
              simp only [List.length_cons, List.length_nil] at hc
              omega
            · rw [hne w hwu] at hc
              show Function.update s.tdCnt u _ w = _
              rw [Function.update_of_ne hwu]
              exact hc
          · have hp := ha.tds.pos w j y he'
            by_cases hwu : w = u
            · subst hwu
              have hc := ha.tds.cnt w j y he'
              rw [hself] at hc
              refine .inl fun hnil => hz ?_
              have hnil' : mine s v hot j y w = [] := hnil
              rw [hnil'] at hc
              simp only [List.length_cons, List.length_nil] at hc
              omega
            · rw [hne w hwu] at hp
              exact hp
          · have hp := ha.tds.slots hnq w j y he'
            have hf : (mine s v hot j y w).flatMap (tdSlots { s with
                tdCnt := Function.update s.tdCnt u (s.tdCnt u - 1) } j) =
                (mine s v hot j y w).flatMap (tdSlots s j) := by cases j <;> rfl
            show (slotsSince s.trace w ++ (mine s v hot j y w).flatMap _ ++ _).Perm _
            rw [hf]
            by_cases hwu : w = u
            · subst hwu
              rw [hself] at hp
              exact hp
            · rw [hne w hwu] at hp
              exact hp
          · rcases ha.record.kept hnq w hp with h | h
            · exact .inl h
            · by_cases hwu : w = u
              · exact .inl ⟨k, x, by rw [hwu]; exact hu ho⟩
              · rw [hne w hwu] at h
                exact .inr h }
    exact ⟨home, _, ⟨hi', ht⟩, { Ext.refl s v with }, rfl, .inl rfl⟩

theorem Inv.countDown (hi : Inv M (Function.update (fun _ => []) u [[]]) hot home s v)
    (ht : Tidy s.toLinks v) (hh : HeldQh v) (he : EnvKeeps M env)
    (hu : M.own = completed → home u = .iso k x) : ApiOk M hot s v (countDown env u s) := by
  obtain ⟨home', s₁, hg, hx, hl, hs⟩ := hi.countDownCall ht env hu
  exact hg.called hx hl hh he hs

/-! ## Reviewing a descriptor -/

/-- A descriptor that is reviewed is left alone, or accounted for and hot. -/
theorem reviewTd_ok {ok : Bool} (he : EnvKeeps M env) (hd : Idle M none s v)
    (ht : t ∈ v.tds k x) (h : reviewTd env k t s = some (ok, s')) :
    (ok = false ∧ s' = s) ∨
      (ok = true ∧ ∃ v', Idle M (some t) s' v' ∧ Ext s v s' v') := by
  obtain ⟨home, hg⟩ := hd.good
  have hfin : ∀ u s₁, s.tdUtr k t = some u → OnUtrs s s₁ →
      Inv M (Function.update (fun _ => []) u [[]]) (some t) home s₁ v →
      ∃ v', Idle M (some t) (countDown env u s₁) v' ∧ Ext s v (countDown env u s₁) v' := by
    intro u s₁ hu hs₁ hi₁
    have hl : s₁.toLinks = s.toLinks := by rw [hs₁.eq]
    have hok := hi₁.countDown (k := k) (x := x) (by rw [hl]; exact hg.tidy) hd.heldQh he fun ho => by
      obtain ⟨w, hw, hhome⟩ := (hg.inv.acct ho).tds.carried k x t ht (fun h => by cases h)
      obtain rfl := Option.some.inj (hu.symm.trans hw)
      exact hhome
    obtain ⟨v', hd', hx'⟩ := hok.idle (by rw [hl]; exact hd.stale) hd.held
    have hx₁ : Ext s v s₁ v := by
      rw [hs₁.eq]
      exact { Ext.refl s v with trace := hs₁.trace }
    exact ⟨v', hd', hx₁.trans hx'⟩
  cases k with
  | itd =>
    have h' : reviewItd env t s = some (ok, s') := h
    unfold reviewItd at h'
    dsimp only at h'
    split at h'
    · obtain ⟨rfl, rfl⟩ := Prod.mk.inj (Option.some.inj h')
      exact .inl ⟨rfl, rfl⟩
    · obtain ⟨u, hu, h'⟩ := Option.bind_eq_some_iff.mp h'
      obtain ⟨rfl, rfl⟩ := Prod.mk.inj (Option.some.inj h')
      obtain ⟨hi₁, hs₁⟩ := collectItds_ok (hg.inv.heat ht hu)
      exact .inr ⟨rfl, hfin u _ hu hs₁ hi₁⟩
  | sitd =>
    have h' : reviewSitd env t s = some (ok, s') := h
    unfold reviewSitd at h'
    dsimp only at h'
    split at h'
    · obtain ⟨rfl, rfl⟩ := Prod.mk.inj (Option.some.inj h')
      exact .inl ⟨rfl, rfl⟩
    · obtain ⟨u, hu, h'⟩ := Option.bind_eq_some_iff.mp h'
      obtain ⟨rfl, rfl⟩ := Prod.mk.inj (Option.some.inj h')
      obtain ⟨hi₁, hs₁⟩ := collectSitd_ok (hg.inv.heat ht hu)
      exact .inr ⟨rfl, hfin u _ hu hs₁ hi₁⟩

/-! ## Unlinking and freeing it -/

/-- The hot descriptor leaves its lists. -/
theorem Inv.takeTd {m : Links} {idx : Nat} (hi : Inv M hand (some t) home s v) (ht : t ∈ v.tds k x)
    (hs : Shape m (v.takeTd k x t idx)) (hiso : m.isoEpEp = s.isoEpEp) :
    Inv M hand none home (s.setLinks m) (v.takeTd k x t idx) := by
  have hnd := hi.shape.tds_nodup k x
  have htds : ∀ j y, (v.takeTd k x t idx).tds j y =
      if j = k ∧ y = x then (v.tds k x).erase t else v.tds j y := fun _ _ => Links.setTd_apply ..
  have hmem : ∀ j y b, b ∈ (v.takeTd k x t idx).tds j y → b ∈ v.tds j y ∧ b ≠ t := by
    intro j y b hb
    rw [htds] at hb
    split at hb
    · rename_i h
      rw [h.1, h.2]
      exact ((hnd.mem_erase_iff).mp hb).symm
    · rename_i hjy
      refine ⟨hb, ?_⟩
      rintro rfl
      obtain ⟨rfl, rfl⟩ := Role.td.inj ((hi.shape.role_td hb).symm.trans (hi.shape.role_td ht))
      exact hjy ⟨rfl, rfl⟩
  have hmine : ∀ j y w, mine (s.setLinks m) (v.takeTd k x t idx) none j y w =
      mine s v (some t) j y w := by
    intro j y w
    unfold mine
    rw [htds]
    split
    · rename_i h
      obtain ⟨rfl, rfl⟩ := h
      rw [hnd.erase_eq_filter, List.filter_filter]
      refine List.filter_congr fun b _ => ?_
      by_cases hb : b = t
      · simp [hb]
      · simp [hb, Ne.symm hb, setLinks]
    · rename_i hjy
      refine List.filter_congr fun b hb => ?_
      have hbt : b ≠ t := by
        rintro rfl
        obtain ⟨rfl, rfl⟩ := Role.td.inj ((hi.shape.role_td hb).symm.trans (hi.shape.role_td ht))
        exact hjy ⟨rfl, rfl⟩
      simp [Ne.symm hbt, setLinks]
  refine ⟨hs, hi.frees, fun ho => ?_, fun hd a hg => hi.bells hd a ?_, hi.answered, fun hp => ?_,
    fun b hb => by cases hb⟩
  · have ha := hi.acct ho
    refine ⟨ha.qtds, ⟨fun j y b hb _ => ?_, fun w j y he => ?_, fun w j y he => ?_,
      fun hnq w j y he => ?_, ha.tds.orphans, fun hnq w j y he => ?_⟩, ha.record⟩
    · obtain ⟨hb', hbt⟩ := hmem j y b hb
      exact ha.tds.carried j y b hb' fun h => hbt (Option.some.inj h).symm
    · rw [hmine]; exact ha.tds.cnt w j y he
    · rw [hmine]; exact ha.tds.pos w j y he
    · rw [setLinks_toLinks, hiso]; exact ha.tds.ep hnq w j y he
    · have hf : (mine s v (some t) j y w).flatMap (tdSlots (s.setLinks m) j) =
          (mine s v (some t) j y w).flatMap (tdSlots s j) := by cases j <;> rfl
      rw [hmine, hf]
      exact ha.tds.slots hnq w j y he
  · exact (gone_become Role.noConfusion (fun _ => Role.noConfusion)
      (show (v.takeTd k x t idx).role = Function.update v.role t (.held k.hw) from rfl) hg).2
  · refine (hi.psen hp).congr rfl (fun _ _ h => h) (fun _ _ h => h) (fun _ _ _ => rfl)
      fun i _ hnil => ?_
    show Function.update v.frame idx ((v.frame idx).erase t) i = []
    by_cases hidx : i = idx
    · subst hidx
      rw [Function.update_self, hnil]
      rfl
    · rw [Function.update_of_ne hidx]
      exact hnil

/-- The end of a pass over a reclaimed descriptor. -/
theorem Idle.dropTd {l₁ l₂ : List Addr} (hd : Idle M (some t) s v) (hl : v.tds k x = l₁ ++ t :: l₂) :
    ∃ m, s.unlinkFromFrame k t = some m ∧
      Idle M none ((s.setLinks (unlinkFromIsoEp k x t l₁.getLast? m)).free k.hw t)
        ((v.takeTd k x t (s.schedFrnidx k t)).become t .free) ∧
      (v.takeTd k x t (s.schedFrnidx k t)).tds k x = l₁ ++ l₂ ∧
      (s.setLinks (unlinkFromIsoEp k x t l₁.getLast? m)).tdNext k t = l₂.head? := by
  obtain ⟨home, hg⟩ := hd.good
  have hs := hg.inv.shape
  have ht : t ∈ v.tds k x := by rw [hl]; simp
  have hx := hs.tdEp k x t ht
  have hnd := hs.tds_nodup k x
  obtain ⟨m, hm, heq, hs', hlink⟩ := hs.takeTd ht hl
  have hiso : (unlinkFromIsoEp k x t l₁.getLast? m).isoEpEp = s.isoEpEp := by
    unfold unlinkFromIsoEp
    split <;> rw [heq]
  have hi₁ := hg.inv.takeTd ht hs' hiso
  have hself : (v.takeTd k x t (s.schedFrnidx k t)).role t = .held k.hw := Function.update_self ..
  have hi₂ := hi₁.freeHeld hself (fun h => by cases k <;> cases h) (fun _ _ h => by
    cases k <;> simp [IsoKind.hw] at h)
  have hnm : t ∉ l₁ := by
    rw [hl] at hnd
    exact fun hm => (List.nodup_append.mp hnd).2.2 t hm t (by simp) rfl
  -- the view and the links in which the pass ends
  have hrole : ((v.takeTd k x t (s.schedFrnidx k t)).become t .free).role =
      Function.update v.role t .free := Function.update_idem ..
  have hne : ∀ b, b ≠ t →
      ((v.takeTd k x t (s.schedFrnidx k t)).become t .free).role b = v.role b := fun b hb => by
    rw [hrole, Function.update_of_ne hb]
  have hback : ∀ b r, r ≠ Role.free →
      ((v.takeTd k x t (s.schedFrnidx k t)).become t .free).role b = r → v.role b = r := by
    intro b r hr hb
    by_cases hbt : b = t
    · rw [hrole, hbt, Function.update_self] at hb
      exact absurd hb.symm hr
    · rw [← hne b hbt]; exact hb
  have hfwd : ∀ b r, (∀ j y, r ≠ Role.td j y) → v.role b = r →
      ((v.takeTd k x t (s.schedFrnidx k t)).become t .free).role b = r := by
    intro b r hr hb
    rw [hne b ?_, hb]
    rintro rfl
    exact hr k x (hb.symm.trans (hs.role_td ht))
  have hml : (unlinkFromIsoEp k x t l₁.getLast? m) = { s.toLinks with
      hLink := m.hLink, pfList := m.pfList
      tdList := (unlinkFromIsoEp k x t l₁.getLast? m).tdList
      tdNext := (unlinkFromIsoEp k x t l₁.getLast? m).tdNext } := by
    unfold unlinkFromIsoEp
    split <;> rw [heq]
  have hfl : ((s.setLinks (unlinkFromIsoEp k x t l₁.getLast? m)).free k.hw t).toLinks =
      { unlinkFromIsoEp k x t l₁.getLast? m with
        pool := (unlinkFromIsoEp k x t l₁.getLast? m).pool.free k.hw t } := rfl
  refine ⟨m, hm, ⟨⟨home, hi₂, ?_⟩, ?_, fun b j hb => ?_⟩, ?_, ?_⟩
  · rw [hfl, hml]
    have htd := hg.tidy
    exact
      { pipeQh := htd.pipeQh, pipeInj := htd.pipeInj, ringPipe := htd.ringPipe
        pipeIso := htd.pipeIso, pipeEd := htd.pipeEd, isoType := htd.isoType, ep0 := htd.ep0
        single := fun h hc => htd.single h (by
          rcases hc with ⟨i, hc⟩ | ⟨i, hc⟩ | ⟨hc, hn⟩
          · exact .inl ⟨i, hback h _ Role.noConfusion hc⟩
          · exact .inr (.inl ⟨i, hback h _ Role.noConfusion hc⟩)
          · exact .inr (.inr ⟨hback h _ Role.noConfusion hc, hn⟩)) }
  · rw [hfl, hml]
    have hrem : ∀ b, b ∈ v.removed → m.hLink b = s.hLink b := fun b hb =>
      hlink b (fun j y h => by rw [hs.role_removed hb] at h; cases h)
        (by rw [hs.role_removed hb]; exact Role.noConfusion)
    constructor
    · intro b hb hn
      obtain ⟨c, hc, hcl⟩ := hd.stale.async b hb hn
      refine ⟨c, (hrem b hb).trans hc, ?_⟩
      rcases hcl with h | h | ⟨h, hn⟩
      · exact .inl (hfwd c _ (fun _ _ => Role.noConfusion) h)
      · exact .inr (.inl (hfwd c _ (fun _ _ => Role.noConfusion) h))
      · exact .inr (.inr ⟨hfwd c _ (fun _ _ => Role.noConfusion) h, hn⟩)
    · intro b hb hn
      rcases hd.stale.intr b hb hn with hc | ⟨c, hc, hcl⟩
      · exact .inl ((hrem b hb).trans hc)
      · refine .inr ⟨c, (hrem b hb).trans hc, ?_⟩
        rcases hcl with ⟨i, h⟩ | ⟨i, h⟩ | ⟨h, hn⟩
        · exact .inl ⟨i, hfwd c _ (fun _ _ => Role.noConfusion) h⟩
        · exact .inr (.inl ⟨i, hfwd c _ (fun _ _ => Role.noConfusion) h⟩)
        · exact .inr (.inr ⟨hfwd c _ (fun _ _ => Role.noConfusion) h, hn⟩)
  · exact hd.held b j (hback b _ Role.noConfusion hb)
  · show Links.setTd v.tds k x ((v.tds k x).erase t) k x = _
    rw [Links.setTd_self, hl, List.erase_append_right _ hnm, List.erase_cons_head]
  · have hp := hs.tds k x hx
    rw [hl] at hp
    have hnext : s.tdNext k t = l₂.head? := by
      have hp₂ := hp.start_eq.2
      cases l₂ with
      | nil => exact hp₂
      | cons b l => exact hp₂.1
    rw [← hnext]
    show (unlinkFromIsoEp k x t l₁.getLast? m).tdNext k t = _
    unfold unlinkFromIsoEp
    split
    · rw [heq]
    · rename_i p hp'
      show Links.setTd m.tdNext k p _ k t = _
      rw [Links.setTd_of_ne ?_, heq]
      rintro ⟨_, rfl⟩
      exact hnm (List.mem_of_getLast? hp')

/-! ## The loops -/

/-- The hot descriptor stays where it is while the callback runs. -/
theorem Ext.split {l₁ l₂ : List Addr} (h : Ext s v s' v') (hl : v.tds k x = l₁ ++ t :: l₂) :
    ∃ l, v'.tds k x = l₁ ++ t :: (l₂ ++ l) := by
  obtain ⟨l, he⟩ := h.tds k x
  exact ⟨l, by rw [he, hl]; simp⟩

/-- The loop over the descriptors of one endpoint; `l₁` is what it left behind. -/
theorem scanTds_ok {l₁ l₂ : List Addr} (he : EnvKeeps M env) (hd : Idle M none s v)
    (hx : x ∈ v.isoEps) (hl : v.tds k x = l₁ ++ l₂)
    (h : scanTds env k x n l₂.head? l₁.getLast? s = some s') :
    ∃ v', Idle M none s' v' ∧ x ∈ v'.isoEps ∧ s'.bell.serving = s.bell.serving := by
  induction n generalizing l₁ l₂ s v with
  | zero => cases h
  | succ n ih =>
    cases l₂ with
    | nil =>
      rw [← Option.some.inj h]
      exact ⟨v, hd, hx, rfl⟩
    | cons t l₂ =>
      obtain ⟨⟨ok, s₁⟩, hr, hrest⟩ := Option.bind_eq_some_iff.mp (show Option.bind _ _ = _ from h)
      obtain ⟨hd₀, hst⟩ := hd.hcSteps (he.hc s)
      have ht : t ∈ v.tds k x := by rw [hl]; simp
      rcases reviewTd_ok he hd₀ ht hr with ⟨rfl, rfl⟩ | ⟨rfl, v₁, hd₁, hx₁⟩
      · have h' : scanTds env k x n ((env.hc s).tdNext k t) (some t) (env.hc s) = some s' := hrest
        have hnext : (env.hc s).tdNext k t = l₂.head? := by
          have hp := hd₀.shape.tds k x hx
          rw [hl] at hp
          have hp₂ := hp.start_eq.2
          cases l₂ with
          | nil => exact hp₂
          | cons b l => exact hp₂.1
        rw [hnext, show some t = (l₁ ++ [t]).getLast? by simp] at h'
        obtain ⟨v', hd', hx', hs'⟩ := ih hd₀ hx (by rw [hl]; simp) h'
        exact ⟨v', hd', hx', hs'.trans hst.serving⟩
      · obtain ⟨l, hl₁⟩ := hx₁.split hl
        have hx₁' : x ∈ v₁.isoEps := by
          obtain ⟨l', he'⟩ := hx₁.isoEps
          rw [he']
          exact List.mem_append_right _ hx
        obtain ⟨m, hm, hd₂, hl₂, hnext⟩ := hd₁.dropTd hl₁
        obtain ⟨m', hm', h'⟩ := Option.bind_eq_some_iff.mp (show Option.bind _ _ = _ from hrest)
        obtain rfl := Option.some.inj (hm'.symm.trans hm)
        dsimp only at h'
        rw [hnext] at h'
        obtain ⟨v', hd', hx', hs'⟩ := ih hd₂ hx₁' hl₂ h'
        exact ⟨v', hd', hx', hs'.trans (hx₁.serving.trans hst.serving)⟩

theorem Shape.tdList_eq (hs : Shape m v) (hx : x ∈ v.isoEps) :
    m.tdList k x = (v.tds k x).head? := by
  have hp := hs.tds k x hx
  cases hl : v.tds k x with
  | nil => rw [hl] at hp; exact hp
  | cons b l => rw [hl] at hp; exact hp.1

theorem scanIsoEps_ok {cur : Option IsoId} (he : EnvKeeps M env) (hd : Idle M none s v)
    (hc : ∀ x, cur = some x → x ∈ v.isoEps) (h : scanIsoEps env n cur s = some s') :
    ∃ v', Idle M none s' v' ∧ s'.bell.serving = s.bell.serving := by
  induction n generalizing cur s v with
  | zero => cases h
  | succ n ih =>
    cases cur with
    | none =>
      rw [← Option.some.inj h]
      exact ⟨v, hd, rfl⟩
    | some x =>
      have hx := hc x rfl
      obtain ⟨s₁, h₁, hrest⟩ := Option.bind_eq_some_iff.mp (show Option.bind _ _ = _ from h)
      obtain ⟨s₂, h₂, h₃⟩ := Option.bind_eq_some_iff.mp hrest
      rw [hd.shape.tdList_eq hx] at h₁
      obtain ⟨v₁, hd₁, hx₁, hs₁⟩ := scanTds_ok he hd hx (List.nil_append _).symm h₁
      rw [hd₁.shape.tdList_eq hx₁] at h₂
      obtain ⟨v₂, hd₂, hx₂, hs₂⟩ := scanTds_ok he hd₁ hx₁ (List.nil_append _).symm h₂
      obtain ⟨v', hd', hs'⟩ := ih hd₂ (fun y hy => by
        rcases hd₂.shape.isoEps.next_eq hx₂ with ⟨z, hz, he'⟩ | he' <;> rw [hy] at he'
        · rw [Option.some.inj he']
          exact List.mem_of_mem_tail hz
        · cases he') h₃
      exact ⟨v', hd', hs'.trans (hs₂.trans hs₁)⟩

theorem scanIsochronousList_ok (he : EnvKeeps M env) (hd : Idle M none s v)
    (h : scanIsochronousList env n s = some s') :
    ∃ v', Idle M none s' v' ∧ s'.bell.serving = s.bell.serving := by
  refine scanIsoEps_ok he hd (fun x hx => ?_) h
  have hp := hd.shape.isoEps
  rw [hx] at hp
  cases hl : v.isoEps with
  | nil => rw [hl] at hp; cases hp
  | cons y l =>
    rw [hl] at hp
    rw [Option.some.inj hp.1]
    exact List.mem_cons_self

theorem scanPeriodicFrameList_ok (he : EnvKeeps M env) (hd : Idle M none s v)
    (h : scanPeriodicFrameList env n s = some s') :
    ∃ v', Idle M none s' v' ∧ s'.bell.serving = s.bell.serving := by
  obtain ⟨s₁, h₁, h₂⟩ := Option.bind_eq_some_iff.mp (show Option.bind _ _ = _ from h)
  obtain ⟨v₁, hd₁, hs₁⟩ := scanIntQhs_ok he hd (fun q hq => by
    rw [← Option.some.inj hq]
    exact .inl ⟨_, hd.shape.role_iqh (by decide)⟩) h₁
  obtain ⟨v', hd', hs'⟩ := scanIsochronousList_ok he hd₁ h₂
  exact ⟨v', hd', hs'.trans hs₁⟩

end Ma35d1.UsbHost.Ehci
