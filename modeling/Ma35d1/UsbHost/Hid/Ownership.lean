import Ma35d1.Machine.Trace
import Ma35d1.UsbHost.Hid.Account

/-!
# Who frees the UTRs of a HID device

The LED report and the completions move blocks between the call under way, the slots and the
controller. A run keeps every block owned exactly while each of its steps does.
-/

namespace Ma35d1.UsbHost.Hid

open Machine.Trace

namespace Transfers

variable {s t : Transfers} {b : Blk} {u n : Nat}

/-! ## The LEDs -/

section

variable {o : Transfers} {c : LedCall} {ret : Int}

/-- A UTR for the LEDs with a new buffer. -/
structure LedReady (s o : Transfers) (u : UtrId) (bs : List Blk) : Prop where
  utr : .utr u ∈ .buff s.next :: bs ++ s.allocated
  which : bs = [] ∨ bs = [.utr s.next]
  allocated : o.allocated = bs ++ .buff s.next :: s.allocated
  freed : o.freed = s.freed
  owned : o.owned = s.owned
  misfreed : o.misfreed = s.misfreed
  next : o.next = s.next + 1
  size : o.size s.next = configHidRtpMaxLen
  record : o.utr = s.utr
  held : ∀ b, o.held.count b = s.held.count b + bs.count b

/-- An update of the LEDs does nothing, loses its buffer, or sends it. -/
theorem setReport_cases (hw : Wf s) (c : LedCall) :
    (c.allocBuff = false ∧ (s.usbhHidSetReportNonBlocking c).2 = s) ∨
    (c.allocBuff = true ∧ ¬ ((s.utrLed = none → c.allocUtr = true) ∧
        (s.utrLed ≠ none → s.ledDone = true)) ∧
      (s.usbhHidSetReportNonBlocking c).2 = s.newBuff s.next configHidRtpMaxLen) ∨
    (c.allocBuff = true ∧ ((s.utrLed = none → c.allocUtr = true) ∧
        (s.utrLed ≠ none → s.ledDone = true)) ∧
      ∃ u o bs, LedReady s o u bs ∧
        (s.usbhHidSetReportNonBlocking c).2 = (o.sendLed u s.next c.ret).2) := by
  unfold usbhHidSetReportNonBlocking
  cases hb : c.allocBuff with
  | false => exact .inl ⟨rfl, rfl⟩
  | true =>
    rw [if_neg (by decide)]
    dsimp only
    have hsize : Function.update s.size s.next configHidRtpMaxLen s.next = configHidRtpMaxLen :=
      Function.update_self ..
    refine .inr ?_
    cases hl : s.utrLed with
    | none =>
      rw [show (s.newBuff s.next configHidRtpMaxLen).utrLed = none from hl]
      dsimp only
      by_cases ha : c.allocUtr = false
      · rw [if_pos ha]
        exact .inl ⟨rfl, fun h => absurd (ha.symm.trans (h.1 rfl)) (by decide), rfl⟩
      · rw [if_neg ha]
        refine .inr ⟨rfl, ⟨fun _ => eq_true_of_ne_false ha, fun h => absurd rfl h⟩, s.next,
          { (s.newBuff s.next configHidRtpMaxLen).newUtr s.next with utrLed := some s.next },
          [.utr s.next], ⟨List.mem_cons_of_mem _ List.mem_cons_self, .inr rfl, rfl, rfl, rfl, rfl,
            rfl, hsize, rfl, fun b => ?_⟩, rfl⟩
        rw [held_count, held_count, hl]
        show (s.utrList.flatMap slotBlks).count b + ([Blk.utr s.next].count b +
          (s.hand.flatMap InHand.blks).count b) = _
        have h0 : ((none : Option UtrId).toList.map Blk.utr).count b = 0 := rfl
        rw [h0]
        omega
    | some u =>
      rw [show (s.newBuff s.next configHidRtpMaxLen).utrLed = some u from hl]
      dsimp only
      have hu : .utr u ∈ s.held := by
        unfold held
        rw [hl]
        exact List.mem_append_right _ List.mem_cons_self
      by_cases hd : s.ledDone = false
      · rw [if_pos (show (s.newBuff s.next configHidRtpMaxLen).ledDone = false from hd)]
        exact .inl ⟨rfl, fun h => absurd (hd.symm.trans (h.2 nofun)) (by decide), rfl⟩
      · rw [if_neg (show ¬ (s.newBuff s.next configHidRtpMaxLen).ledDone = false from hd)]
        exact .inr ⟨rfl, ⟨nofun, fun _ => eq_true_of_ne_false hd⟩, u,
          s.newBuff s.next configHidRtpMaxLen, [], ⟨List.mem_cons_of_mem _ (hw.held hu), .inl rfl,
            rfl, rfl, rfl, rfl, rfl, hsize, rfl, fun b => rfl⟩, rfl⟩

theorem newBuff_wf (hw : Wf s) (size : Nat) : Wf (s.newBuff s.next size) := by
  refine Grows.wf [.buff s.next] hw ⟨rfl, fun b hb => ?_, Nat.le_succ _, fun b hb => .inl hb,
    fun b hb => hb, fun x hx => .inl hx, fun u r hr hf => .inl ⟨r, hr, hf⟩⟩
  rw [List.mem_singleton.mp hb]
  exact Nat.lt_succ_self _

/-- A buffer that is lost. -/
theorem newBuff_not_owned (hw : Wf s) (size : Nat) : ¬ Owned (s.newBuff s.next size) := by
  intro h
  have hb := h.balanced (.buff s.next) List.mem_cons_self
  have h0 : (s.newBuff s.next size).mass (.buff s.next) = 0 := hw.mass_fresh (Nat.le_refl _)
  omega

theorem sendLed_rest (o : Transfers) (u n : Nat) (ret : Int) :
    (o.sendLed u n ret).2.allocated = o.allocated ∧
      (o.sendLed u n ret).2.next = o.next ∧
      (o.sendLed u n ret).2.freed = .buff n :: o.freed ∧
      (o.sendLed u n ret).2.owned = (if ret < 0 then o.owned else (u, n) :: o.owned) ∧
      (o.sendLed u n ret).2.held = o.held ∧
      (o.size n = configHidRtpMaxLen → (o.sendLed u n ret).2.misfreed = o.misfreed) ∧
      (o.sendLed u n ret).2.utr = Function.update o.utr u (some ⟨.ledCtrlIrq, none, 1⟩) := by
  unfold sendLed
  dsimp only
  split
  · exact ⟨rfl, rfl, rfl, rfl, rfl, fun hs => if_pos (by rw [← hs]; rfl), rfl⟩
  · exact ⟨rfl, rfl, rfl, rfl, rfl, fun hs => if_pos (by rw [← hs]; rfl), rfl⟩

theorem sendLed_mass {bs : List Blk} (ho : LedReady s o u bs) (ret : Int) (b : Blk) :
    (o.sendLed u s.next ret).2.mass b = s.mass b + (.buff s.next :: bs).count b := by
  obtain ⟨-, -, hf, -, hh, -, -⟩ := sendLed_rest o u s.next ret
  rw [mass, mass, hf, hh, ho.held, ho.freed, List.count_cons, List.count_cons]
  omega

theorem sendLed_wf {bs : List Blk} (hw : Wf s) (ho : LedReady s o u bs) :
    Wf (o.sendLed u s.next ret).2 := by
  have hmass := sendLed_mass ho ret
  obtain ⟨ha, hn, hf, hq, -, -, hrec⟩ := sendLed_rest o u s.next ret
  have hall : (o.sendLed u s.next ret).2.allocated = (bs ++ [.buff s.next]) ++ s.allocated := by
    rw [ha, ho.allocated, List.append_assoc]
    rfl
  have hmem : ∀ b, b ∈ Blk.buff s.next :: bs → b ∈ bs ++ [.buff s.next] := fun b hb => by
    rcases List.mem_cons.mp hb with rfl | hb
    · exact List.mem_append_right _ List.mem_cons_self
    · exact List.mem_append_left _ hb
  refine Grows.wf (bs ++ [.buff s.next]) hw ⟨hall, fun b hb => ?_, ?_, fun b hb => ?_,
    fun b hb => ?_, fun x hx => ?_, fun v r hr hled => ?_⟩
  · rw [hn, ho.next]
    rcases List.mem_append.mp hb with hb | hb
    · rcases ho.which with rfl | rfl
      · cases hb
      · rw [List.mem_singleton.mp hb]
        exact Nat.lt_succ_self _
    · rw [List.mem_singleton.mp hb]
      exact Nat.lt_succ_self _
  · rw [hn, ho.next]
    exact Nat.le_succ _
  · rw [hmass] at hb
    by_cases h0 : s.mass b = 0
    · exact .inr (hmem b (List.count_pos_iff.mp
        (Nat.pos_of_ne_zero fun h => hb (by rw [h0, h]))))
    · exact .inl h0
  · rw [hf, ho.freed]
    exact List.mem_cons_of_mem _ hb
  · rw [hq, ho.owned] at hx
    have hnew : x = (u, s.next) → .utr x.1 ∈ (o.sendLed u s.next ret).2.allocated ∧
        .buff x.2 ∈ (o.sendLed u s.next ret).2.allocated ∧
        (x.2 = x.1 ∨ .buff x.2 ∈ (o.sendLed u s.next ret).2.freed) := by
      rintro rfl
      rw [hall, hf]
      refine ⟨?_, List.mem_append_left _ (hmem _ List.mem_cons_self), .inr List.mem_cons_self⟩
      rcases List.mem_append.mp ho.utr with hu | hu
      · exact List.mem_append_left _ (hmem _ hu)
      · exact List.mem_append_right _ hu
    split at hx
    · exact .inl hx
    · rcases List.mem_cons.mp hx with hx | hx
      · exact .inr (hnew hx)
      · exact .inl hx
  · rw [hrec, ho.record] at hr
    by_cases hv : v = u
    · rw [hv, Function.update_self] at hr
      obtain rfl := Option.some.inj hr
      exact absurd rfl hled
    · rw [Function.update_of_ne hv] at hr
      exact .inl ⟨r, hr, hled⟩

/-- The accounts are kept exactly where the controller does not take the transfer: its buffer
is freed at once. -/
theorem sendLed_owned_iff {bs : List Blk} (hw : Wf s) (hs : Owned s) (ho : LedReady s o u bs) :
    Owned (o.sendLed u s.next ret).2 ↔ ret < 0 := by
  have hmass := sendLed_mass ho ret
  obtain ⟨ha, -, hf, hq, -, hm, -⟩ := sendLed_rest o u s.next ret
  constructor
  · intro ht
    by_contra hr
    have hl := (ht.live (u, s.next) (by rw [hq, if_neg hr]; exact List.mem_cons_self)).2
    rw [hf] at hl
    exact List.count_eq_zero.mp hl List.mem_cons_self
  · intro hr
    refine ⟨fun b hb => ?_, ?_, fun x hx => ?_⟩
    · rw [ha, ho.allocated] at hb
      rw [hmass]
      by_cases hold : b ∈ s.allocated
      · have hne : b.num ≠ s.next := Nat.ne_of_lt (hw.fresh b hold)
        have h0 : (Blk.buff s.next :: bs).count b = 0 := by
          refine List.count_eq_zero.mpr fun h => hne ?_
          rcases List.mem_cons.mp h with rfl | h
          · rfl
          rcases ho.which with rfl | rfl
          · cases h
          · rw [List.mem_singleton.mp h]
            rfl
        rw [h0, hs.balanced b hold]
      · have hnew : b.num = s.next ∧ (Blk.buff s.next :: bs).count b = 1 := by
          rcases List.mem_append.mp hb with hb | hb
          · rcases ho.which with rfl | rfl
            · cases hb
            · rw [List.mem_singleton.mp hb]
              exact ⟨rfl, by simp⟩
          · rcases List.mem_cons.mp hb with rfl | hb
            · refine ⟨rfl, ?_⟩
              rcases ho.which with rfl | rfl
              · simp
              · simp
            · exact absurd hb hold
        rw [hnew.2, hw.mass_fresh (Nat.le_of_eq hnew.1.symm)]
    · rw [hm ho.size, ho.misfreed]
      exact hs.whole
    · rw [hq, if_pos hr, ho.owned] at hx
      obtain ⟨h₁, h₂⟩ := hs.live x hx
      have hne : x.2 ≠ s.next := Nat.ne_of_lt (hw.fresh _ (hw.owned x hx).2)
      rw [hf, ho.freed]
      exact ⟨(List.count_cons_of_ne (by simp)).trans h₁,
        (List.count_cons_of_ne (by simpa using Ne.symm hne)).trans h₂⟩

theorem setReport_wf (hw : Wf s) (c : LedCall) : Wf (s.usbhHidSetReportNonBlocking c).2 := by
  rcases setReport_cases hw c with ⟨-, he⟩ | ⟨-, -, he⟩ | ⟨-, -, u, o, bs, ho, he⟩
  · rwa [he]
  · rw [he]
    exact newBuff_wf hw _
  · rw [he]
    exact sendLed_wf hw ho

theorem setReport_owned_iff (hw : Wf s) (hs : Owned s) (c : LedCall) :
    Owned (s.usbhHidSetReportNonBlocking c).2 ↔ s.LedKeeps c := by
  unfold LedKeeps
  rcases setReport_cases hw c with ⟨hb, he⟩ | ⟨hb, hn, he⟩ | ⟨hb, hy, u, o, bs, ho, he⟩
  · rw [he]
    exact iff_of_true hs fun h => absurd (hb.symm.trans h) (by decide)
  · rw [he]
    exact iff_of_false (newBuff_not_owned hw _) fun h => hn (h hb).1
  · rw [he, sendLed_owned_iff hw hs ho]
    exact ⟨fun hr _ => ⟨hy, hr⟩, fun h => (h hb).2⟩

/-- The accounts of what was there before do not change, and it is still held. -/
theorem setReport_old (hw : Wf s) (c : LedCall) (hb : b.num < s.next) :
    (s.usbhHidSetReportNonBlocking c).2.freed.count b = s.freed.count b ∧
      (s.usbhHidSetReportNonBlocking c).2.held.count b = s.held.count b := by
  rcases setReport_cases hw c with ⟨-, he⟩ | ⟨-, -, he⟩ | ⟨-, -, u, o, bs, ho, he⟩
  · rw [he]
    exact ⟨rfl, rfl⟩
  · rw [he]
    exact ⟨rfl, rfl⟩
  · obtain ⟨-, -, hf, -, hh, -, -⟩ := sendLed_rest o u s.next c.ret
    have hne : Blk.buff s.next ≠ b := fun h => Nat.lt_irrefl _ (show s.next < s.next from by
      rw [← h] at hb
      exact hb)
    have h0 : bs.count b = 0 := by
      rcases ho.which with rfl | rfl
      · rfl
      · refine List.count_eq_zero.mpr fun h => ?_
        rw [List.mem_singleton.mp h] at hb
        exact Nat.lt_irrefl _ hb
    rw [he, hf, hh, ho.held, ho.freed, h0, List.count_cons_of_ne hne]
    exact ⟨rfl, rfl⟩

end

/-! ## Completions -/

/-- The controller lets go of a transfer. -/
def letGo (s : Transfers) (x : UtrId × Nat) : Transfers := { s with owned := s.owned.erase x }

theorem letGo_wf (hw : Wf s) (x : UtrId × Nat) : Wf (s.letGo x) :=
  ⟨hw.known, hw.fresh, fun y hy => hw.owned y (List.mem_of_mem_erase hy),
    fun y hy => hw.pair y (List.mem_of_mem_erase hy), hw.int⟩

theorem letGo_owned (hs : Owned s) (x : UtrId × Nat) : Owned (s.letGo x) :=
  ⟨hs.balanced, hs.whole, fun y hy => hs.live y (List.mem_of_mem_erase hy)⟩

theorem queue_wf (hw : Wf s) (ha : .utr u ∈ s.allocated ∧ .buff u ∈ s.allocated) :
    Wf (s.queue u u) := by
  refine Grows.wf [] hw ⟨rfl, nofun, Nat.le_refl _, fun b hb => .inl hb, fun b hb => hb,
    fun x hx => ?_, fun v r hr hf => .inl ⟨r, hr, hf⟩⟩
  rcases List.mem_cons.mp hx with rfl | hx
  · exact .inr ⟨ha.1, ha.2, .inl rfl⟩
  · exact .inl hx

theorem queue_owned_iff (hl : s.freed.count (.utr u) = 0 ∧ s.freed.count (.buff u) = 0) :
    Owned (s.queue u u) ↔ Owned s := by
  constructor
  · intro h
    exact ⟨h.balanced, h.whole, fun x hx => h.live x (List.mem_cons_of_mem _ hx)⟩
  · intro h
    refine ⟨h.balanced, h.whole, fun x hx => ?_⟩
    rcases List.mem_cons.mp hx with rfl | hx
    · exact hl
    · exact h.live x hx

theorem freeUtr_wf (hw : Wf s) (ha : .utr u ∈ s.allocated) : Wf (s.freeUtr u) := by
  refine ⟨fun b hb => ?_, hw.fresh, hw.owned,
    fun x hx => (hw.pair x hx).imp_right (List.mem_cons_of_mem _), hw.int⟩
  rcases mass_ne_zero.mp hb with hb | hb
  · rcases List.mem_cons.mp hb with rfl | hb
    · exact ha
    · exact hw.freed hb
  · exact hw.held hb

theorem freeBuff_wf (hw : Wf s) (ha : .buff u ∈ s.allocated) (size : Nat) :
    Wf (s.freeBuff u size) := by
  refine ⟨fun b hb => ?_, hw.fresh, hw.owned,
    fun x hx => (hw.pair x hx).imp_right (List.mem_cons_of_mem _), hw.int⟩
  rcases mass_ne_zero.mp hb with hb | hb
  · rcases List.mem_cons.mp hb with rfl | hb
    · exact ha
    · exact hw.freed hb
  · exact hw.held hb

/-- A UTR that is freed while it is held. -/
theorem freeUtr_not_owned (hw : Wf s) (hh : s.held.count (.utr u) = 1) : ¬ Owned (s.freeUtr u) := by
  intro h
  have hmem : .utr u ∈ s.held := List.count_pos_iff.mp (by rw [hh]; exact Nat.one_pos)
  have hb := h.balanced _ (hw.held hmem)
  have hm : (s.freeUtr u).mass (.utr u) = s.freed.count (.utr u) + 1 + s.held.count (.utr u) := by
    show (Blk.utr u :: s.freed).count (.utr u) + s.held.count (.utr u) = _
    rw [List.count_cons_self]
  omega

/-- The transfer of a UTR that the controller has is with its own buffer, and both are held. -/
theorem Owned.int_live {r : HidUtr} (hw : Wf s) (hs : Owned s) (hu : (u, n) ∈ s.owned)
    (hr : s.utr u = some r) (hf : r.func ≠ .ledCtrlIrq) :
    (s.freed.count (.utr u) = 0 ∧ s.freed.count (.buff u) = 0) ∧
      s.held.count (.utr u) = 1 := by
  obtain ⟨h₁, h₂⟩ := hs.live _ hu
  obtain ⟨ha, -⟩ := hw.int u r hr hf
  have hn : n = u := (hw.pair _ hu).resolve_right (List.count_eq_zero.mp h₂)
  rw [hn] at h₂
  exact ⟨⟨h₁, h₂⟩, hs.held_of_live ha h₁⟩

/-- `hid_read_irq` before the transfer is submitted again. -/
def reported (s : Transfers) (led : Option LedCall) : Transfers :=
  match s.keyboard, led with
  | true, some c => (usbhHidSetReportNonBlocking s c).2
  | _, _ => s

theorem reported_wf (hw : Wf s) (led : Option LedCall) : Wf (s.reported led) := by
  unfold reported
  split
  · exact setReport_wf hw _
  · exact hw

theorem reported_owned_iff (hw : Wf s) (hs : Owned s) (led : Option LedCall) :
    Owned (s.reported led) ↔ (s.keyboard = true → ∀ c ∈ led, s.LedKeeps c) := by
  unfold reported
  split
  · rename_i c hk
    rw [setReport_owned_iff hw hs]
    exact ⟨fun h _ c' hc' => Option.some.inj hc' ▸ h, fun h => h hk c rfl⟩
  · rename_i hno
    exact iff_of_true hs fun hk c hc => absurd hc (hno c hk)

theorem reported_old (hw : Wf s) (led : Option LedCall) (hb : b.num < s.next) :
    (s.reported led).freed.count b = s.freed.count b ∧
      (s.reported led).held.count b = s.held.count b := by
  unfold reported
  split
  · exact setReport_old hw _ hb
  · exact ⟨rfl, rfl⟩

theorem reported_allocated (hw : Wf s) (led : Option LedCall) (hb : b ∈ s.allocated) :
    b ∈ (s.reported led).allocated := by
  unfold reported
  split
  · rename_i c _
    rcases setReport_cases hw c with ⟨-, he⟩ | ⟨-, -, he⟩ | ⟨-, -, u, o, bs, ho, he⟩
    · rwa [he]
    · rw [he]
      exact List.mem_cons_of_mem _ hb
    · rw [he, (sendLed_rest o u s.next c.ret).1, ho.allocated]
      exact List.mem_append_right _ (List.mem_cons_of_mem _ hb)
  · exact hb

theorem hidReadIrq_error {status : Int} (h : status ≠ 0) (led : Option LedCall) (ret : Int) :
    s.hidReadIrq u status led ret = s := if_pos h

theorem hidReadIrq_ok (s : Transfers) (u : UtrId) (led : Option LedCall) (ret : Int) :
    s.hidReadIrq u 0 led ret =
      if ret ≠ 0 then ((s.reported led).freeBuff u ((s.reported led).dataLen u)).freeUtr u
      else (s.reported led).queue u u := rfl

theorem hidReadIrq_wf (hw : Wf s) (ha : .utr u ∈ s.allocated ∧ .buff u ∈ s.allocated) (status : Int)
    (led : Option LedCall) (ret : Int) : Wf (s.hidReadIrq u status led ret) := by
  by_cases h0 : status = 0
  · have hw' := reported_wf hw led
    have ha' := And.intro (reported_allocated hw led ha.1) (reported_allocated hw led ha.2)
    rw [h0, hidReadIrq_ok]
    split
    · exact freeUtr_wf (freeBuff_wf hw' ha'.2 _) ha'.1
    · exact queue_wf hw' ha'
  · rw [hidReadIrq_error h0]
    exact hw

theorem hidReadIrq_owned_iff (hw : Wf s) (hs : Owned s)
    (ha : .utr u ∈ s.allocated ∧ .buff u ∈ s.allocated)
    (hl : s.freed.count (.utr u) = 0 ∧ s.freed.count (.buff u) = 0)
    (hh : s.held.count (.utr u) = 1) (status : Int) (led : Option LedCall) (ret : Int) :
    Owned (s.hidReadIrq u status led ret) ↔
      (status = 0 → (s.keyboard = true → ∀ c ∈ led, s.LedKeeps c) ∧ ret = 0) := by
  by_cases h0 : status = 0
  · have hold := reported_old hw led (hw.fresh _ ha.1)
    have holdb := reported_old hw led (hw.fresh _ ha.2)
    rw [h0, hidReadIrq_ok]
    by_cases hr : ret = 0
    · rw [if_neg (not_not.mpr hr), queue_owned_iff ⟨hold.1.trans hl.1, holdb.1.trans hl.2⟩,
        reported_owned_iff hw hs]
      exact ⟨fun h _ => ⟨h, hr⟩, fun h => (h rfl).1⟩
    · rw [if_pos hr]
      have hw' := freeBuff_wf (reported_wf hw led) (reported_allocated hw led ha.2)
        ((s.reported led).dataLen u)
      refine iff_of_false (freeUtr_not_owned hw' ?_) fun h => hr (h rfl).2
      exact hold.2.trans hh
  · rw [hidReadIrq_error h0]
    exact iff_of_true hs fun h => absurd h h0

/-- `hid_write_irq` before the transfer is submitted again. -/
def written (s : Transfers) (u : UtrId) (dataLen : Nat) : Transfers :=
  match s.writeFunc, s.utr u with
  | some _, some r => s.setUtr u { r with dataLen := dataLen }
  | _, _ => s

theorem hidWriteIrq_error {status : Int} (h : status ≠ 0) (dataLen : Nat) (ret : Int) :
    s.hidWriteIrq u status dataLen ret = s := if_pos h

theorem hidWriteIrq_ok (s : Transfers) (u : UtrId) (dataLen : Nat) (ret : Int) :
    s.hidWriteIrq u 0 dataLen ret =
      if ret ≠ 0 then (s.written u dataLen).freeUtr u else (s.written u dataLen).queue u u := rfl

/-- The length alone is changed. -/
theorem written_eq (s : Transfers) (u : UtrId) (dataLen : Nat) : s.written u dataLen = s ∨
    ∃ r, s.utr u = some r ∧ s.written u dataLen = s.setUtr u { r with dataLen := dataLen } := by
  unfold written
  split
  · rename_i r _ hr
    exact .inr ⟨r, hr, rfl⟩
  · exact .inl rfl

theorem written_wf (hw : Wf s) (u : UtrId) (dataLen : Nat) : Wf (s.written u dataLen) := by
  rcases written_eq s u dataLen with he | ⟨r, hr, he⟩
  · rwa [he]
  · rw [he]
    refine ⟨hw.known, hw.fresh, hw.owned, hw.pair, fun v r' hr' hf => ?_⟩
    by_cases hv : v = u
    · have hr' : Function.update s.utr u (some { r with dataLen := dataLen }) v = some r' := hr'
      rw [hv, Function.update_self] at hr'
      obtain rfl := Option.some.inj hr'
      rw [hv]
      exact hw.int u r hr hf
    · have hr' : Function.update s.utr u (some { r with dataLen := dataLen }) v = some r' := hr'
      rw [Function.update_of_ne hv] at hr'
      exact hw.int v r' hr' hf

theorem written_same (s : Transfers) (u : UtrId) (dataLen : Nat) :
    (s.written u dataLen).freed = s.freed ∧ (s.written u dataLen).held = s.held ∧
      (s.written u dataLen).allocated = s.allocated ∧
      (s.written u dataLen).owned = s.owned ∧ (s.written u dataLen).misfreed = s.misfreed := by
  rcases written_eq s u dataLen with he | ⟨r, -, he⟩
  · rw [he]
    exact ⟨rfl, rfl, rfl, rfl, rfl⟩
  · rw [he]
    exact ⟨rfl, rfl, rfl, rfl, rfl⟩

theorem written_owned (hs : Owned s) (u : UtrId) (dataLen : Nat) : Owned (s.written u dataLen) := by
  rcases written_eq s u dataLen with he | ⟨r, -, he⟩
  · rwa [he]
  · rw [he]
    exact ⟨hs.balanced, hs.whole, hs.live⟩

theorem hidWriteIrq_wf (hw : Wf s) (ha : .utr u ∈ s.allocated ∧ .buff u ∈ s.allocated)
    (status : Int) (dataLen : Nat) (ret : Int) : Wf (s.hidWriteIrq u status dataLen ret) := by
  by_cases h0 : status = 0
  · obtain ⟨-, -, hal, -, -⟩ := written_same s u dataLen
    have hw' := written_wf hw u dataLen
    rw [h0, hidWriteIrq_ok]
    split
    · exact freeUtr_wf hw' (by rw [hal]; exact ha.1)
    · exact queue_wf hw' (by rw [hal]; exact ha)
  · rw [hidWriteIrq_error h0]
    exact hw

theorem hidWriteIrq_owned_iff (hw : Wf s) (hs : Owned s)
    (hl : s.freed.count (.utr u) = 0 ∧ s.freed.count (.buff u) = 0)
    (hh : s.held.count (.utr u) = 1) (status : Int) (dataLen : Nat) (ret : Int) :
    Owned (s.hidWriteIrq u status dataLen ret) ↔ (status = 0 → ret = 0) := by
  by_cases h0 : status = 0
  · obtain ⟨hf, hheld, -, -, -⟩ := written_same s u dataLen
    rw [h0, hidWriteIrq_ok]
    by_cases hr : ret = 0
    · rw [if_neg (not_not.mpr hr), queue_owned_iff (by rw [hf]; exact hl)]
      exact iff_of_true (written_owned hs u dataLen) fun _ => hr
    · rw [if_pos hr]
      refine iff_of_false (freeUtr_not_owned (written_wf hw u dataLen) ?_) fun h => hr (h rfl)
      rw [hheld]
      exact hh
  · rw [hidWriteIrq_error h0]
    exact iff_of_true hs fun h => absurd h h0

/-! ## Steps and runs -/

theorem call_some {t' : Transfers} (h : s.call t = some t') : t' = t ∧ s.hand = [] := by
  unfold call at h
  obtain ⟨hi, h⟩ := Option.ite_none_right_eq_some.mp h
  refine ⟨(Option.some.inj h).symm, ?_⟩
  unfold idle at hi
  exact (of_decide_eq_true hi).2

theorem readFunc_set : ∀ (f : FuncId) (s : Transfers), ∃ r w,
    ({ s with readFunc := some f } : Transfers) = { s with readFunc := r, writeFunc := w } :=
  fun f s => ⟨some f, s.writeFunc, rfl⟩

theorem writeFunc_set : ∀ (f : FuncId) (s : Transfers), ∃ r w,
    ({ s with writeFunc := some f } : Transfers) = { s with readFunc := r, writeFunc := w } :=
  fun f s => ⟨s.readFunc, some f, rfl⟩

/-- A completion is of a transfer that the controller has, and goes to the handler of its
UTR. -/
theorem complete_some {status ret : Int} {led : Option LedCall} {dataLen : Nat}
    (h : s.step (.complete u n status led dataLen ret) = some t) :
    (u, n) ∈ s.owned ∧ ∃ r, s.utr u = some r ∧
      t = (s.letGo (u, n)).irq u status led dataLen ret r.func := by
  obtain ⟨hu, h⟩ := Option.ite_none_right_eq_some.mp h
  obtain ⟨r, hr, rfl⟩ := Option.map_eq_some_iff.mp h
  exact ⟨hu, r, hr, rfl⟩

theorem free_some (h : s.step .free = some t) :
    ∃ x hs, s.hand = x :: hs ∧ t = { s with hand := hs }.freeHand x := by
  unfold step at h
  cases hh : s.hand with
  | nil =>
    simp only [hh] at h
    cases h
  | cons x hs =>
    simp only [hh] at h
    exact ⟨x, hs, rfl, (Option.some.inj h).symm⟩

theorem quitLed_some (h : s.step .quitLed = some t) : s.hand = [] ∧ t = { s with
    phase := .led
    utrLed := none
    hand := s.utrLed.toList.map fun u => ⟨u, none⟩ } := by
  obtain ⟨hp, h⟩ := Option.ite_none_right_eq_some.mp h
  exact ⟨hp.2, (Option.some.inj h).symm⟩

theorem step_wf {e : Event} (hw : Wf s) (h : s.step e = some t) : Wf t := by
  cases e with
  | startRead c =>
    obtain ⟨rfl, hh⟩ := call_some h
    exact startInt_wf readFunc_set hw hh
  | startWrite c =>
    obtain ⟨rfl, hh⟩ := call_some h
    exact startInt_wf writeFunc_set hw hh
  | stopRead epAddr quit =>
    obtain ⟨rfl, hh⟩ := call_some h
    exact (stopInt_moves _ _ _ hh).wf hw
  | stopWrite epAddr quit =>
    obtain ⟨rfl, hh⟩ := call_some h
    exact (stopInt_moves _ _ _ hh).wf hw
  | free =>
    obtain ⟨x, hs, hh, rfl⟩ := free_some h
    exact free_wf hw hh
  | complete u n status led dataLen ret =>
    obtain ⟨-, r, hr, rfl⟩ := complete_some h
    have hw' := letGo_wf hw (u, n)
    have ha : r.func ≠ .ledCtrlIrq → .utr u ∈ (s.letGo (u, n)).allocated ∧
        .buff u ∈ (s.letGo (u, n)).allocated := hw.int u r hr
    cases hf : r.func with
    | hidReadIrq => exact hidReadIrq_wf hw' (ha (by rw [hf]; decide)) status led ret
    | hidWriteIrq => exact hidWriteIrq_wf hw' (ha (by rw [hf]; decide)) status dataLen ret
    | ledCtrlIrq => exact ⟨hw'.known, hw'.fresh, hw'.owned, hw'.pair, hw'.int⟩
  | disconnect =>
    obtain ⟨rfl, hh⟩ := call_some h
    exact (hidDisconnect_moves hh).wf hw
  | quitLed =>
    obtain ⟨hh, rfl⟩ := quitLed_some h
    exact (quitLed_moves hh).wf hw

theorem step_owned_iff {e : Event} (hw : Wf s) (hs : Owned s) (h : s.step e = some t) :
    Owned t ↔ s.Keeps e := by
  cases e with
  | startRead c =>
    obtain ⟨rfl, hh⟩ := call_some h
    exact iff_of_true ((startInt_owned_iff readFunc_set hw hs hh).mpr fun _ _ _ => rfl) trivial
  | startWrite c =>
    obtain ⟨rfl, hh⟩ := call_some h
    exact startInt_owned_iff writeFunc_set hw hs hh
  | stopRead epAddr quit =>
    obtain ⟨rfl, hh⟩ := call_some h
    exact iff_of_true ((stopInt_moves _ _ _ hh).owns hs) trivial
  | stopWrite epAddr quit =>
    obtain ⟨rfl, hh⟩ := call_some h
    exact iff_of_true ((stopInt_moves _ _ _ hh).owns hs) trivial
  | free =>
    obtain ⟨x, xs, hh, rfl⟩ := free_some h
    exact free_owned_iff hw hs hh
  | complete u n status led dataLen ret =>
    obtain ⟨hu, r, hr, rfl⟩ := complete_some h
    have hw' := letGo_wf hw (u, n)
    have hs' := letGo_owned hs (u, n)
    unfold Keeps
    simp only [hr, Option.some.injEq, forall_eq']
    cases hf : r.func with
    | hidReadIrq =>
      have hne : r.func ≠ .ledCtrlIrq := by rw [hf]; decide
      obtain ⟨hl, hh⟩ := hs.int_live hw hu hr hne
      exact hidReadIrq_owned_iff hw' hs' (hw.int u r hr hne) hl hh status led ret
    | hidWriteIrq =>
      have hne : r.func ≠ .ledCtrlIrq := by rw [hf]; decide
      obtain ⟨hl, hh⟩ := hs.int_live hw hu hr hne
      exact hidWriteIrq_owned_iff hw' hs' hl hh status dataLen ret
    | ledCtrlIrq => exact iff_of_true ⟨hs'.balanced, hs'.whole, hs'.live⟩ fun _ => trivial
  | disconnect =>
    obtain ⟨rfl, hh⟩ := call_some h
    exact iff_of_true ((hidDisconnect_moves hh).owns hs) trivial
  | quitLed =>
    obtain ⟨hh, rfl⟩ := quitLed_some h
    exact iff_of_true ((quitLed_moves hh).owns hs) trivial

theorem init_wf (eps : List EpInfo) (keyboard : Bool) : Wf (init eps keyboard) where
  known := fun b hb => absurd (show (init eps keyboard).mass b = 0 from rfl) hb
  fresh := nofun
  owned := nofun
  pair := nofun
  int := nofun

theorem init_owned (eps : List EpInfo) (keyboard : Bool) : Owned (init eps keyboard) :=
  ⟨nofun, rfl, nofun⟩

/-- An interrupt-in endpoint. -/
def interruptIn : EpInfo := ⟨0x81, 0x03, 10, 8⟩

/-- A report arrives, and the transfer cannot be submitted again. -/
def unsubmitted : List Event :=
  [.startRead ⟨0, some 0, true, true, 0, 0⟩, .complete 0 0 0 none 0 (-10)]

end Transfers

end Ma35d1.UsbHost.Hid
