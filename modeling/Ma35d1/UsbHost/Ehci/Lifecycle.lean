import Ma35d1.UsbHost.Ehci.Boot

/-!
# Requests, descriptors and doorbells over whole runs

Every accepted request completes once at most and every descriptor is freed once at
most, off every list. A descriptor that leaves its schedule while no doorbell is
under way is freed in answer to a doorbell rung after it left. A doorbell that was
pending, latched or being answered when the descriptor left serves it too early.
-/

namespace Ma35d1.UsbHost.Ehci

open Relation

variable {own : Owner} {s₀ s : Ehci}

/-! ## Requests and descriptors -/

/-- A request completes once at most for each submission; a unit of the pool is freed
once at most each time it is taken, when no list leads to it. -/
theorem reachable_lifecycle (h : Reachable completed s) :
    Alternates s.trace ∧ ∀ e ∈ s.trace, FreeOk e := by
  obtain ⟨s₀, h₀, hrun⟩ := h
  obtain ⟨v, hd⟩ := idle_run ⟨completed, False, False, False⟩
    (fun hd hs => hd.step (fun h => h) (fun h => h) (fun h => h) hs) h₀ hrun
  obtain ⟨home, hg⟩ := hd.good
  exact ⟨(hg.inv.acct rfl).record.alternates, hg.inv.frees⟩

/-! A run: a bulk transfer completes, its endpoint is quit, and the doorbell is answered. -/

def lifecycleSent : Ehci :=
  callResult (r := 0) (ehciBulkXfer 0
    ((prepared 0 (sampleUtr 0 8) (some (.alt 0)) sampleStart).log (.submit 0 false))) (by decide)

/-- The qTD of the transfer is retired. -/
def lifecycleRetired : Ehci := setToken 15 0x80000000#32 lifecycleSent

def lifecycleScanned : Ehci :=
  (scanAsynchronousList idleEnv 3 lifecycleRetired).get (by decide)

def lifecycleQuit : Ehci :=
  callResult (r := 0) (ehciQuitXfer idleEnv none (some (.alt 0)) lifecycleScanned) (by decide)

def lifecycleEnd : Ehci := (iaadRemoveQh idleEnv 3 lifecycleQuit).get (by decide)

theorem lifecycleEnd_reachable : Reachable completed lifecycleEnd := by
  have hidle := idleEnv_ok completed
  refine ⟨sampleStart, sampleStart_initial, ?_⟩
  refine .tail (.tail (.tail (.tail (.tail (.tail .refl (.core (.api (.prepare 0 (sampleUtr 0 8)
    (some (.alt 0)) 0 ?_)))) (.core (.api (.bulk 0 (.alt 0) ?_ rfl ?_ (callResult_eq _)))))
    (.core (.hc (.token 15 0x80000000#32 ?_)))) (.core (.scanAsync idleEnv hidle 3
    (Option.some_get _).symm))) (.core (.api (.quit none (some (.alt 0)) 0 ?_ (callResult_eq _)))))
    (.core (.iaad idleEnv hidle 3 (Option.some_get _).symm))
  · exact (by decide : ¬ Pending sampleStart.trace 0)
  · exact (by decide +kernel :
      ¬ Pending (prepared 0 (sampleUtr 0 8) (some (.alt 0)) sampleStart).trace 0)
  · exact (by decide :
      ((prepared 0 (sampleUtr 0 8) (some (.alt 0)) sampleStart).ep (.alt 0)).xferType = epAttrTtBulk)
  · exact (by decide : lifecycleSent.token 15 &&& qtdStsActive ≠ 0)
  · rintro e he
    obtain rfl := Option.some.inj he
    exact (by decide : (lifecycleScanned.ep (.alt 0)).xferType ≠ epAttrTtIso)

theorem reachable_lifecycle_run :
    Alternates lifecycleEnd.trace ∧ ∀ e ∈ lifecycleEnd.trace, FreeOk e :=
  reachable_lifecycle lifecycleEnd_reachable

/-! ## Doorbells -/

/-- When every QH and qTD leaves its schedule with no doorbell under way, each is freed in
answer to a doorbell rung after that. -/
theorem idle_detach_answered (h₀ : Initial s₀) (h : ReflTransGen (HandlerStep own) s₀ s)
    (hidle : ∀ e ∈ s.trace, IdleDetach e) : ∀ e ∈ s.trace, Answered e := by
  obtain ⟨v, hd⟩ := idle_run ⟨own, True, False, False⟩
    (fun hd hs => hd.handlerStep (fun h => h) (fun h => h) hs) h₀ h
  obtain ⟨home, hg⟩ := hd.good
  exact hg.inv.answered trivial hidle

instance decidableIdleDetach : DecidablePred IdleDetach
  | .detach _ b => inferInstanceAs (Decidable (b.iaad = false ∧ b.iaa = false ∧ b.serving = none))
  | .submit .. => .isTrue trivial
  | .done .. => .isTrue trivial
  | .free .. => .isTrue trivial
  | .slot .. => .isTrue trivial

/-- The doorbell being answered is later than the stamp. -/
def stampAnswered : Option Nat → Option Nat → Bool
  | some r, some n => r < n
  | some _, none => false
  | none, _ => true

theorem stampAnswered_iff {stamp serving : Option Nat} :
    stampAnswered stamp serving = true ↔ ∀ r, stamp = some r → ∃ n, serving = some n ∧ r < n := by
  cases stamp with
  | none => exact ⟨fun _ _ h => (by cases h), fun _ => rfl⟩
  | some r =>
    cases serving with
    | none =>
      refine ⟨fun h => (by cases h), fun h => ?_⟩
      obtain ⟨n, hn, -⟩ := h r rfl
      cases hn
    | some n =>
      refine ⟨fun h q hq => ⟨n, rfl, ?_⟩, fun h => ?_⟩
      · rw [← Option.some.inj hq]
        exact of_decide_eq_true h
      · obtain ⟨m, hm, hlt⟩ := h r rfl
        rw [← Option.some.inj hm] at hlt
        exact decide_eq_true hlt

instance decidableAnswered : DecidablePred Answered
  | .free k a _ b =>
    decidable_of_iff (k = .qh ∨ k = .qtd → stampAnswered (b.stamp a) b.serving = true)
      (imp_congr_right fun _ => stampAnswered_iff)
  | .detach .. => .isTrue trivial
  | .submit .. => .isTrue trivial
  | .done .. => .isTrue trivial
  | .slot .. => .isTrue trivial

/-! Two bulk endpoints are quit one after the other; the first doorbell has been answered,
but not served, when the second one is quit. -/

def firstSent : Ehci :=
  callResult (r := 0) (ehciBulkXfer 0
    ((prepared 0 (sampleUtr 0 8) (some (.alt 0)) sampleStart).log (.submit 0 false))) (by decide)

def secondSent : Ehci :=
  callResult (r := 0) (ehciBulkXfer 1
    ((prepared 1 (sampleUtr 0 8) (some (.alt 1)) firstSent).log (.submit 1 false))) (by decide)

def firstQuit : Ehci :=
  callResult (r := 0) (ehciQuitXfer idleEnv none (some (.alt 0)) secondSent) (by decide)

def firstAnswered : Ehci :=
  { firstQuit with
    bell := { firstQuit.bell with iaad := false, iaa := true, latched := firstQuit.bell.rung } }

def firstServed : Ehci := (ehciIrqHandler idleEnv 3 firstAnswered).get (by decide)

def secondQuit : Ehci :=
  callResult (r := 0) (ehciQuitXfer idleEnv none (some (.alt 1)) firstAnswered) (by decide)

def bothServed : Ehci := (ehciIrqHandler idleEnv 3 secondQuit).get (by decide)

theorem firstAnswered_run : ReflTransGen (HandlerStep completed) sampleStart firstAnswered := by
  refine .tail (.tail (.tail (.tail (.tail (.tail .refl (.api (.prepare 0 (sampleUtr 0 8)
    (some (.alt 0)) 0 ?_))) (.api (.bulk 0 (.alt 0) ?_ rfl ?_ (callResult_eq _))))
    (.api (.prepare 1 (sampleUtr 0 8) (some (.alt 1)) 0 ?_)))
    (.api (.bulk 1 (.alt 1) ?_ rfl ?_ (callResult_eq _))))
    (.api (.quit none (some (.alt 0)) 0 ?_ (callResult_eq _)))) (.hc (.answer ?_ ?_))
  · exact (by decide : ¬ Pending sampleStart.trace 0)
  · exact (by decide :
      ¬ Pending (prepared 0 (sampleUtr 0 8) (some (.alt 0)) sampleStart).trace 0)
  · exact (by decide :
      ((prepared 0 (sampleUtr 0 8) (some (.alt 0)) sampleStart).ep (.alt 0)).xferType = epAttrTtBulk)
  · exact (by decide : ¬ Pending firstSent.trace 1)
  · exact (by decide :
      ¬ Pending (prepared 1 (sampleUtr 0 8) (some (.alt 1)) firstSent).trace 1)
  · exact (by decide :
      ((prepared 1 (sampleUtr 0 8) (some (.alt 1)) firstSent).ep (.alt 1)).xferType = epAttrTtBulk)
  · rintro e he
    obtain rfl := Option.some.inj he
    exact (by decide : (secondSent.ep (.alt 0)).xferType ≠ epAttrTtIso)
  · exact (by decide : firstQuit.bell.iaad = true)
  · intro a _ _ _ _
    have hc : firstQuit.bell.cached = sampleStart.bell.cached := rfl
    exact congrFun hc a

theorem firstServed_run : ReflTransGen (HandlerStep completed) sampleStart firstServed :=
  firstAnswered_run.tail (.irq idleEnv (idleEnv_ok _) 3 (Option.some_get _).symm)

theorem idle_detach_answered_served :
    firstServed.trace ≠ [] ∧ ∀ e ∈ firstServed.trace, Answered e := by
  refine ⟨by decide, ?_⟩
  exact idle_detach_answered sampleStart_initial firstServed_run (by decide)

theorem bothServed_run : ReflTransGen (HandlerStep completed) sampleStart bothServed := by
  refine .tail (.tail firstAnswered_run (.api (.quit none (some (.alt 1)) 0 ?_ (callResult_eq _))))
    (.irq idleEnv (idleEnv_ok _) 3 (Option.some_get _).symm)
  rintro e he
  obtain rfl := Option.some.inj he
  exact (by decide : (firstAnswered.ep (.alt 1)).xferType ≠ epAttrTtIso)

/-- The second QH is freed in answer to the doorbell rung before it was unlinked. -/
theorem not_always_answered : ¬ ∀ s₀ s, Initial s₀ →
    ReflTransGen (HandlerStep completed) s₀ s → ∀ e ∈ s.trace, Answered e := fun h =>
  absurd (h _ _ sampleStart_initial bothServed_run) (by decide)

end Ma35d1.UsbHost.Ehci
