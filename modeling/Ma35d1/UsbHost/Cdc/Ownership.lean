import Ma35d1.Machine.Trace
import Ma35d1.UsbHost.Cdc.Receive

/-!
# Who owns the receive UTR

`rx_busy` and `utr_rx` are meant to say which UTR the controller has. A submission sets both
and the completion clears both, whatever happened in between: one UTR at a time, armed
outside the callback, keeps them true.
-/

namespace Ma35d1.UsbHost.Cdc

open Machine.Trace

variable {s t : Receive} {c : StartCall} {cs : List StartCall} {u h : UtrId}

/-- `rx_busy` and `utr_rx` name the UTR on the controller, and every other one was freed
exactly once. -/
structure Owned (s : Receive) : Prop where
  rxBusy : s.cdev.rxBusy = true ↔ s.queued ≠ []
  utrRx : ∀ u, s.cdev.utrRx = some u ↔ u ∈ s.queued
  freed : ∀ u < s.next, s.freed.count u = if u ∈ s.queued then 0 else 1

/-- What holds in every run. -/
structure Wf (s : Receive) : Prop where
  queued : ∀ u ∈ s.queued, u < s.next
  freed : ∀ u ∈ s.freed, u < s.next
  nodup : s.queued.Nodup
  rxFunc : s.queued ≠ [] → s.cdev.rxFunc ≠ none
  dataLen : ∀ u r, s.utr u = some r → r.dataLen ≤ cdcRxBuffSize

/-- A call reaches `usbh_bulk_xfer`. -/
def Submits (s : Receive) (c : StartCall) : Prop :=
  (∃ eps, s.cdev.ifaceData = some eps ∧ s.rxEp eps ≠ none) ∧ c.func ≠ none ∧ c.alloc = true

/-- What the handler and its callers have to keep to: reception is armed only while no
receive UTR is on the controller, which it still is not inside the callback of the last one
unless that callback arms the next, and no transfer fails. -/
def Keeps (s : Receive) : Event → Prop
  | .start c => Submits s c → s.queued = []
  | .complete _ status _ cs => status = 0 ∧ ∀ c ∈ cs, Submits s c → c.ret < 0

/-! ## One call -/

/-- A call returns early, with nothing changed but the endpoint remembered, or submits. -/
theorem startToReceiveData_cases (s : Receive) (c : StartCall) :
    (¬ Submits s c ∧ ∃ epRx, (startToReceiveData s c).2 =
        { s with cdev := { s.cdev with epRx := epRx } } ∧
        ∀ eps, s.cdev.ifaceData = some eps →
          (Receive.rxEp { s with cdev := { s.cdev with epRx := epRx } } eps = none ↔
            s.rxEp eps = none)) ∨
    (Submits s c ∧ ∃ ep f, c.func = some f ∧ (startToReceiveData s c).2 =
        (Receive.submit { s with cdev := { s.cdev with epRx := some ep } } ep f c.ret).2) := by
  unfold Submits
  cases hif : s.cdev.ifaceData with
  | none =>
    refine .inl ⟨?_, s.cdev.epRx, ?_, fun eps he => absurd he nofun⟩
    · rintro ⟨⟨eps, he, -⟩, -⟩
      cases he
    · rw [startToReceiveData, hif]
  | some eps =>
    cases hf : c.func with
    | none =>
      refine .inl ⟨fun h => h.2.1 rfl, s.cdev.epRx, ?_, fun _ _ => Iff.rfl⟩
      simp only [startToReceiveData, hif, hf]
      rw [← hif]
    | some func =>
      cases hep : s.rxEp eps with
      | none =>
        refine .inl ⟨?_, s.cdev.epRx, ?_, fun _ _ => Iff.rfl⟩
        · rintro ⟨⟨eps', he, hne⟩, -⟩
          cases he
          exact hne hep
        · simp only [startToReceiveData, hif, hf, hep]
          rw [← hif]
      | some ep =>
        cases ha : c.alloc with
        | false =>
          refine .inl ⟨fun h => absurd h.2.2 nofun, some ep, ?_, fun eps' he => ?_⟩
          · simp only [startToReceiveData, hif, hf, hep, ha, if_pos]
          · cases he
            rw [hep]
            exact ⟨nofun, nofun⟩
        | true =>
          refine .inr ⟨⟨⟨eps, rfl, ?_⟩, nofun, rfl⟩, ep, func, rfl, ?_⟩
          · rw [hep]
            nofun
          · simp [startToReceiveData, hif, hf, hep, ha]

theorem rxUtr_dataLen (ep : EpInfo) : (rxUtr ep).dataLen ≤ cdcRxBuffSize := by
  simp only [rxUtr]
  split <;> omega

/-- Whether a call submits does not change. -/
theorem submits_start (s : Receive) (c c' : StartCall) :
    Submits (startToReceiveData s c).2 c' ↔ Submits s c' := by
  rcases startToReceiveData_cases s c with ⟨-, epRx, he, hep⟩ | ⟨hs, ep, f, -, he⟩
  · rw [he]
    unfold Submits
    constructor
    · rintro ⟨⟨eps, hif, hne⟩, hrest⟩
      exact ⟨⟨eps, hif, fun h => hne ((hep eps hif).2 h)⟩, hrest⟩
    · rintro ⟨⟨eps, hif, hne⟩, hrest⟩
      exact ⟨⟨eps, hif, fun h => hne ((hep eps hif).1 h)⟩, hrest⟩
  · obtain ⟨⟨eps, hif, hne⟩, -, -⟩ := hs
    rw [he]
    unfold Receive.submit Submits
    have hne' : s.rxEp eps ≠ none := hne
    split
    all_goals
      constructor
      · rintro ⟨-, hrest⟩
        exact ⟨⟨eps, hif, hne'⟩, hrest⟩
      · rintro ⟨-, hrest⟩
        exact ⟨⟨eps, hif, nofun⟩, hrest⟩

theorem start_wf (hw : Wf s) (c : StartCall) : Wf (startToReceiveData s c).2 := by
  rcases startToReceiveData_cases s c with ⟨-, epRx, he, -⟩ | ⟨-, ep, f, -, he⟩
  · rw [he]
    exact ⟨hw.queued, hw.freed, hw.nodup, hw.rxFunc, hw.dataLen⟩
  · have hdata : ∀ u r, Function.update s.utr s.next (some (rxUtr ep)) u = some r →
        r.dataLen ≤ cdcRxBuffSize := by
      intro u r hr
      by_cases hu : u = s.next
      · rw [hu, Function.update_self] at hr
        exact Option.some.inj hr ▸ rxUtr_dataLen ep
      · rw [Function.update_of_ne hu] at hr
        exact hw.dataLen u r hr
    rw [he]
    unfold Receive.submit
    dsimp only
    split
    · refine ⟨fun u hu => Nat.lt_succ_of_lt (hw.queued u hu), fun u hu => ?_, hw.nodup,
        fun _ => nofun, hdata⟩
      rcases List.mem_cons.1 hu with rfl | hu
      · exact Nat.lt_succ_self _
      · exact Nat.lt_succ_of_lt (hw.freed u hu)
    · refine ⟨fun u hu => ?_, fun u hu => Nat.lt_succ_of_lt (hw.freed u hu), ?_,
        fun _ => nofun, hdata⟩
      · rcases List.mem_cons.1 hu with rfl | hu
        · exact Nat.lt_succ_self _
        · exact Nat.lt_succ_of_lt (hw.queued u hu)
      · exact List.nodup_cons.2 ⟨fun hu => Nat.lt_irrefl _ (hw.queued _ hu), hw.nodup⟩

/-- Every UTR allocated is in the hands of its completion, on the controller, or freed once. -/
def Acct (held : List UtrId) (s : Receive) : Prop :=
  ∀ u < s.next, s.freed.count u = if u ∈ held ++ s.queued then 0 else 1

theorem start_acct {held : List UtrId} (hw : Wf s) (hheld : ∀ u ∈ held, u < s.next)
    (ha : Acct held s) (c : StartCall) : Acct held (startToReceiveData s c).2 := by
  rcases startToReceiveData_cases s c with ⟨-, epRx, he, -⟩ | ⟨-, ep, f, -, he⟩
  · rw [he]
    exact ha
  · have hnew : s.freed.count s.next = 0 :=
      List.count_eq_zero.2 fun h => Nat.lt_irrefl _ (hw.freed _ h)
    have hnq : s.next ∉ held ++ s.queued := by
      intro h
      rcases List.mem_append.1 h with h | h
      · exact Nat.lt_irrefl _ (hheld _ h)
      · exact Nat.lt_irrefl _ (hw.queued _ h)
    rw [he]
    unfold Receive.submit
    dsimp only
    split
    · intro u hu
      show (s.next :: s.freed).count u = if u ∈ held ++ s.queued then 0 else 1
      by_cases hn : u = s.next
      · rw [hn, List.count_cons_self, hnew, if_neg hnq]
      · rw [List.count_cons_of_ne (Ne.symm hn)]
        exact ha u (lt_of_le_of_ne (Nat.le_of_lt_succ hu) hn)
    · intro u hu
      show s.freed.count u = if u ∈ held ++ s.next :: s.queued then 0 else 1
      by_cases hn : u = s.next
      · rw [hn, hnew, if_pos (List.mem_append_right _ List.mem_cons_self)]
      · rw [ha u (lt_of_le_of_ne (Nat.le_of_lt_succ hu) hn)]
        simp [hn]

/-- The controller is left without a receive UTR. -/
theorem start_queued (s : Receive) (c : StartCall) :
    (startToReceiveData s c).2.queued = [] ↔ s.queued = [] ∧ (Submits s c → c.ret < 0) := by
  rcases startToReceiveData_cases s c with ⟨hs, epRx, he, -⟩ | ⟨hs, ep, f, -, he⟩
  · rw [he]
    exact ⟨fun h => ⟨h, fun h' => absurd h' hs⟩, fun h => h.1⟩
  · rw [he]
    unfold Receive.submit
    dsimp only
    split
    · rename_i hr
      exact ⟨fun h => ⟨h, fun _ => hr⟩, fun h => h.1⟩
    · rename_i hr
      exact ⟨nofun, fun h => absurd (h.2 hs) hr⟩

theorem start_next (s : Receive) (c : StartCall) : s.next ≤ (startToReceiveData s c).2.next := by
  rcases startToReceiveData_cases s c with ⟨-, epRx, he, -⟩ | ⟨-, ep, f, -, he⟩
  · rw [he]
  · rw [he]
    unfold Receive.submit
    dsimp only
    split <;> exact Nat.le_succ _

/-! ## The callback -/

/-- The calls of the callback, one after the other. -/
theorem calls_spec {held : List UtrId} (hw : Wf s) (hheld : ∀ u ∈ held, u < s.next)
    (ha : Acct held s) (cs : List StartCall) :
    Acct held (s.calls cs) ∧
      ((s.calls cs).queued = [] ↔ s.queued = [] ∧ ∀ c ∈ cs, Submits s c → c.ret < 0) := by
  induction cs generalizing s with
  | nil => exact ⟨ha, fun h => ⟨h, nofun⟩, fun h => h.1⟩
  | cons c cs ih =>
    obtain ⟨ha', hq⟩ := ih (start_wf hw c)
      (fun u hu => Nat.lt_of_lt_of_le (hheld u hu) (start_next s c)) (start_acct hw hheld ha c)
    refine ⟨ha', hq.trans ?_⟩
    rw [start_queued, List.forall_mem_cons, and_assoc]
    simp only [submits_start]

theorem calls_wf (hw : Wf s) (cs : List StartCall) :
    Wf (s.calls cs) ∧ s.next ≤ (s.calls cs).next := by
  induction cs generalizing s with
  | nil => exact ⟨hw, Nat.le_refl _⟩
  | cons c cs ih =>
    obtain ⟨hw', hn⟩ := ih (start_wf hw c)
    exact ⟨hw', Nat.le_trans (start_next s c) hn⟩

/-- The completion handler keeps what holds in every run. -/
theorem bulkInIrq_wf {status : Int} {len : Nat} (hw : Wf s) (hu : u < s.next) (cs : List StartCall) :
    Wf (bulkInIrq s u status len cs) := by
  unfold bulkInIrq
  split
  · exact hw
  · have hfree : ∀ {s' : Receive}, Wf s' → u < s'.next → Wf { s' with
        freed := u :: s'.freed
        cdev := { s'.cdev with utrRx := none, rxBusy := false } } := by
      intro s' h hlt
      refine ⟨h.queued, fun v hv => ?_, h.nodup, h.rxFunc, h.dataLen⟩
      rcases List.mem_cons.1 hv with rfl | hv
      · exact hlt
      · exact h.freed v hv
    dsimp only
    split
    · exact hfree hw hu
    · rename_i f _
      have hw' : Wf { s with received := (f, len) :: s.received } :=
        ⟨hw.queued, hw.freed, hw.nodup, hw.rxFunc, hw.dataLen⟩
      obtain ⟨hwc, hn⟩ := calls_wf hw' cs
      exact hfree hwc (Nat.lt_of_lt_of_le hu hn)

/-! ## A step -/

theorem wf_erase (hw : Wf s) (u : UtrId) : Wf { s with queued := s.queued.erase u } :=
  ⟨fun v hv => hw.queued v (List.mem_of_mem_erase hv), hw.freed, hw.nodup.erase u,
    fun h => hw.rxFunc fun h' => h (by rw [h']; rfl), hw.dataLen⟩

theorem step_wf {e : Event} (hw : Wf s) (h : step s e = some t) : Wf t := by
  cases e with
  | start c =>
    obtain rfl := Option.some.inj h
    exact start_wf hw c
  | complete u status len cs =>
    obtain ⟨hu, h⟩ := Option.ite_none_right_eq_some.1 h
    obtain rfl := Option.some.inj h
    exact bulkInIrq_wf (wf_erase hw u) (hw.queued u hu) cs

theorem Owned.acct (ho : Owned s) : Acct [] s := ho.freed

/-- A call keeps ownership unless it submits a second UTR. -/
theorem start_owned_iff (hw : Wf s) (ho : Owned s) (c : StartCall) :
    Owned (startToReceiveData s c).2 ↔ Keeps s (.start c) := by
  have hfreed := start_acct hw (List.forall_mem_nil _) ho.acct c
  rcases startToReceiveData_cases s c with ⟨hs, epRx, he, -⟩ | ⟨hs, ep, f, -, he⟩
  · rw [he]
    exact iff_of_true ⟨ho.rxBusy, ho.utrRx, ho.freed⟩ fun h => absurd h hs
  · rw [he] at hfreed ⊢
    have hkeeps : Keeps s (.start c) ↔ s.queued = [] := ⟨fun h => h hs, fun h _ => h⟩
    rw [hkeeps]
    unfold Receive.submit at hfreed ⊢
    dsimp only at hfreed ⊢
    split at hfreed
    · rename_i hr
      rw [if_pos hr]
      constructor
      · intro h
        by_contra hq
        exact absurd (h.rxBusy.2 hq) nofun
      · intro hq
        refine ⟨⟨nofun, fun h => absurd hq h⟩, fun u => ⟨nofun, fun h => ?_⟩,
          hfreed⟩
        have hmem : u ∈ s.queued := h
        rw [hq] at hmem
        exact absurd hmem List.not_mem_nil
    · rename_i hr
      rw [if_neg hr]
      constructor
      · intro h
        by_contra hq
        obtain ⟨v, hv⟩ := List.exists_mem_of_ne_nil _ hq
        -- the field names the UTR queued last, not the one there before
        have hname := (h.utrRx v).2 (List.mem_cons_of_mem _ hv)
        obtain rfl := Option.some.inj hname
        exact Nat.lt_irrefl _ (hw.queued _ hv)
      · intro hq
        refine ⟨⟨fun _ => nofun, fun _ => rfl⟩, fun u => ?_, hfreed⟩
        show some s.next = some u ↔ u ∈ s.next :: s.queued
        rw [hq, List.mem_singleton, Option.some.injEq]
        exact eq_comm

/-- With the UTR of the completion in hand the accounts are what they were. -/
theorem Owned.held (ho : Owned s) (hu : u ∈ s.queued) :
    Acct [u] { s with queued := s.queued.erase u } := by
  intro v hv
  have hmem : v ∈ [u] ++ s.queued.erase u ↔ v ∈ s.queued :=
    (List.perm_cons_erase hu).symm.mem_iff
  rw [ho.freed v hv]
  exact if_congr hmem.symm rfl rfl

/-- The last UTR of the controller. -/
theorem Owned.erase_eq_nil (hw : Wf s) (ho : Owned s) (hu : u ∈ s.queued) :
    s.queued.erase u = [] := by
  rw [List.eq_nil_iff_forall_not_mem]
  intro v hv
  obtain ⟨hne, hv⟩ := hw.nodup.mem_erase_iff.1 hv
  have hname := ((ho.utrRx u).2 hu).symm.trans ((ho.utrRx v).2 hv)
  exact hne (Option.some.inj hname).symm

/-- The end of the completion handler: the shared fields are cleared and `u` is freed. -/
theorem cleared_owned_iff (ha : Acct [u] s) :
    Owned { s with
        freed := u :: s.freed
        cdev := { s.cdev with utrRx := none, rxBusy := false } } ↔ s.queued = [] := by
  constructor
  · intro h
    by_contra hq
    exact absurd (h.rxBusy.2 hq) nofun
  · intro hq
    refine ⟨⟨nofun, fun h => absurd hq h⟩, fun v => ⟨nofun, fun h => ?_⟩, fun v hv => ?_⟩
    · have hmem : v ∈ s.queued := h
      rw [hq] at hmem
      exact absurd hmem List.not_mem_nil
    · show (u :: s.freed).count v = if v ∈ s.queued then 0 else 1
      have hv := ha v hv
      rw [hq] at hv ⊢
      by_cases hvu : v = u
      · rw [hvu] at hv ⊢
        rw [List.count_cons_self, hv]
        simp
      · rw [List.count_cons_of_ne (Ne.symm hvu), hv]
        simp [hvu]

/-- A completion keeps ownership exactly when it reports success and its callback leaves the
controller without a new UTR. -/
theorem complete_owned_iff {status : Int} {len : Nat} (hw : Wf s) (ho : Owned s)
    (hu : u ∈ s.queued) (cs : List StartCall) :
    Owned (bulkInIrq { s with queued := s.queued.erase u } u status len cs) ↔
      Keeps s (.complete u status len cs) := by
  have hone := ho.erase_eq_nil hw hu
  unfold bulkInIrq
  by_cases hstatus : status = 0
  · obtain ⟨f, hf⟩ := Option.ne_none_iff_exists'.1 (hw.rxFunc (List.ne_nil_of_mem hu))
    rw [if_neg (not_not.2 hstatus)]
    simp only [hf]
    have hw' := wf_erase hw u
    have hw' : Wf { s with queued := s.queued.erase u, received := (f, len) :: s.received } :=
      ⟨hw'.queued, hw'.freed, hw'.nodup, hw'.rxFunc, hw'.dataLen⟩
    have hheld : ∀ v ∈ [u], v < s.next := fun v hv => List.mem_singleton.1 hv ▸ hw.queued u hu
    obtain ⟨ha, hq⟩ := calls_spec hw' hheld (ho.held hu) cs
    rw [cleared_owned_iff ha, hq]
    exact ⟨fun h => ⟨hstatus, h.2⟩, fun h => ⟨hone, h.2⟩⟩
  · rw [if_pos hstatus]
    refine iff_of_false (fun h => ?_) fun h => hstatus h.1
    -- the UTR is neither on the controller any more nor freed
    have hcount : s.freed.count u = 0 := by rw [ho.freed u (hw.queued u hu), if_pos hu]
    have hcount' : s.freed.count u = if u ∈ s.queued.erase u then 0 else 1 :=
      h.freed u (hw.queued u hu)
    rw [hone, hcount] at hcount'
    exact absurd hcount' (by simp)

theorem step_owned_iff {e : Event} (hw : Wf s) (ho : Owned s) (h : step s e = some t) :
    Owned t ↔ Keeps s e := by
  cases e with
  | start c =>
    obtain rfl := Option.some.inj h
    exact start_owned_iff hw ho c
  | complete u status len cs =>
    obtain ⟨hu, h⟩ := Option.ite_none_right_eq_some.1 h
    obtain rfl := Option.some.inj h
    exact complete_owned_iff hw ho hu cs

/-! ## Runs -/

theorem init_wf (eps : Option (List EpInfo)) : Wf (Receive.init eps) :=
  ⟨nofun, nofun, List.nodup_nil, fun h => absurd rfl h, nofun⟩

theorem init_owned (eps : Option (List EpInfo)) : Owned (Receive.init eps) :=
  ⟨⟨nofun, fun h => absurd rfl h⟩, fun _ => ⟨nofun, nofun⟩, nofun⟩

/-- The receive UTR has its owner throughout a run exactly when every step of it keeps to the
rule. -/
theorem run_owned_iff (eps : Option (List EpInfo)) (es : List Event) :
    Always step Owned (Receive.init eps) es ↔ EachStep step Keeps (Receive.init eps) es :=
  always_iff_eachStep (fun _ _ _ hw h => step_wf hw h)
    (fun _ _ _ hw ho h => step_owned_iff hw ho h) (init_wf eps) (init_owned eps)

/-- A bulk-in endpoint. -/
def bulkIn : EpInfo := ⟨0x81, 0x02, 0, 64⟩

/-- A callback that arms the next reception, as it is received. -/
def rearming : List Event :=
  [.start ⟨some 0, true, 0⟩, .complete 0 0 64 [⟨some 0, true, 0⟩]]

/-- After it the UTR of the second reception is on the controller, and nothing says so. -/
theorem rearming_not_owned : ¬ Always step Owned (Receive.init (some [bulkIn])) rearming := by
  intro h
  have hlast := h.last (t := ((run step (Receive.init (some [bulkIn])) rearming).get rfl)) rfl
  exact absurd (hlast.rxBusy.2 (by decide)) (by decide)

end Ma35d1.UsbHost.Cdc
