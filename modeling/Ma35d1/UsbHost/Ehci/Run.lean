import Ma35d1.UsbHost.Ehci.Iaad
import Ma35d1.UsbHost.Ehci.InitShape
import Ma35d1.UsbHost.Ehci.QuitIso

/-!
# Whole runs

The invariant holds behind `ehci_init` and each step of a run keeps it.
-/

namespace Ma35d1.UsbHost.Ehci

open Heap.LinkedPath Relation

variable {M : Mode} {hand : UtrId → List (List Nat)} {hot : Ptr} {home : UtrId → Home}
  {s s' s₁ : Ehci} {v v' : View} {a : Addr} {env : Env} {n : Nat}

/-! ## Behind `ehci_init` -/

theorem Initial.idle (M : Mode) (h : Initial s) : ∃ v, Idle M none s v := by
  obtain ⟨s₀, hb, hinit⟩ := h
  obtain ⟨hbt, hep, hpipe, htr, -, -, -, -⟩ := ehciInit_booted hinit
  have hs := bootView_shape hbt hb.unit
  have htrace : s.trace = [] := htr.trans hb.trace
  have hnull : ∀ e, s.hwPipe e = .null := fun e => (congrFun hpipe e).trans (hb.pipe e)
  have hrole : ∀ a r, (bootView s.toLinks).role a = r → r ≠ .removed ∧ (∀ h, r ≠ .done h) ∧
      ∀ k, r ≠ .held k := by
    rintro a r rfl
    rcases bootView_cases hbt a with ⟨_, h⟩ | ⟨_, h⟩ | ⟨i, _, _, h⟩ | ⟨_, _, h⟩ <;> rw [h] <;>
      exact ⟨Role.noConfusion, fun _ => Role.noConfusion, fun _ => Role.noConfusion⟩
  refine ⟨bootView s.toLinks, ⟨⟨fun _ => .none, ⟨hs, ?_, fun _ => ?_, fun _ a hg => ?_, ?_,
    fun _ => .inr ⟨fun _ _ h => absurd h List.not_mem_nil, fun _ _ => rfl⟩, fun _ h => by cases h⟩,
    ?_⟩, ⟨fun _ h => absurd h List.not_mem_nil, fun _ h => absurd h List.not_mem_nil⟩,
    fun a k h => (hrole a _ h).2.2 k rfl⟩⟩
  · rw [htrace]
    exact fun _ h => absurd h List.not_mem_nil
  · refine ⟨⟨fun _ _ h => absurd h List.not_mem_nil, fun _ _ h => absurd h List.not_mem_nil⟩,
      ⟨fun _ _ _ h => absurd h List.not_mem_nil, fun _ _ _ h => (by cases h),
        fun _ _ _ h => (by cases h), fun _ _ _ _ h => (by cases h),
        fun _ => rfl, fun _ _ _ _ h => (by cases h)⟩, ?_⟩
    rw [htrace]
    exact ⟨trivial, fun _ => trivial, fun _ h => absurd rfl h, fun _ _ h => h.elim⟩
  · rcases hg with hg | ⟨h, hg⟩
    · exact absurd rfl (hrole a _ hg).1
    · exact absurd rfl ((hrole a _ hg).2.1 h)
  · rw [htrace]
    exact fun _ _ _ h => absurd h List.not_mem_nil
  · exact
      { pipeQh := fun e q h => by rw [hnull] at h; cases h
        pipeInj := fun e _ q h => by rw [hnull] at h; cases h
        ringPipe := fun _ h => absurd h List.not_mem_nil
        pipeIso := fun e x => by
          rw [hnull]
          exact ⟨fun h => (by cases h), fun h => absurd h.1 List.not_mem_nil⟩
        pipeEd := fun e b h => by rw [hnull] at h; cases h
        isoType := fun _ h => absurd h List.not_mem_nil
        ep0 := fun d => by rw [hep]; exact hb.ep0 d
        single := fun _ _ => Nat.zero_le _ }

/-! ## The interrupt handler -/

theorem Idle.takeStatus (hd : Idle M hot s v) : Idle M hot (takeStatus s) v := by
  obtain ⟨home, hg⟩ := hd.good
  refine ⟨⟨home, ?_, hg.tidy⟩, hd.stale, hd.held⟩
  have hi : Inv M (fun _ => []) hot home { s with usbint := false } v := hg.inv.scratch ..
  refine hi.setBell fun a _ ⟨r, hr, hle, hiaad, hiaa, hserv⟩ => ⟨r, hr, hle, hiaad, ?_, ?_⟩
  · rintro ⟨⟩
  · intro m hm
    dsimp only at hm
    split at hm
    · rename_i hlat
      rw [← Option.some.inj hm]
      exact hiaa hlat
    · cases hm

theorem Idle.endService (hd : Idle M hot s v) : Idle M hot (endService s) v := by
  obtain ⟨home, hg⟩ := hd.good
  refine ⟨⟨home, hg.inv.setBell fun a _ ⟨r, hr, hle, hiaad, hiaa, _⟩ => ?_, hg.tidy⟩, hd.stale,
    hd.held⟩
  exact ⟨r, hr, hle, hiaad, hiaa, fun m hm => by cases hm⟩

theorem ehciIrqHandler_ok (he : EnvKeeps M env) (hd : Idle M none s v)
    (h : ehciIrqHandler env n s = some s') : ∃ v', Idle M none s' v' := by
  obtain ⟨s₂, hboth, rfl⟩ := Option.map_eq_some_iff.mp h
  obtain ⟨s₁, hscan, hiaad⟩ := Option.bind_eq_some_iff.mp hboth
  obtain ⟨v₁, hd₁, hs₁⟩ : ∃ v', Idle M none s₁ v' ∧ s₁.bell.serving = (takeStatus s).bell.serving := by
    have ht := hd.takeStatus
    unfold serveUsbint at hscan
    split at hscan
    · obtain ⟨s₃, h₃, h₁⟩ := Option.bind_eq_some_iff.mp hscan
      obtain ⟨v₃, hd₃, hs₃⟩ := scanAsynchronousList_ok he ht h₃
      obtain ⟨v₁, hd₁, hs₁⟩ := scanPeriodicFrameList_ok he hd₃ h₁
      exact ⟨v₁, hd₁, hs₁.trans hs₃⟩
    · obtain rfl := Option.some.inj hscan
      exact ⟨v, ht, rfl⟩
  obtain ⟨v₂, hd₂⟩ : ∃ v', Idle M none s₂ v' := by
    unfold serveIaa at hiaad
    split at hiaad
    · rename_i hiaa
      obtain ⟨v₂, hd₂, -⟩ := iaadRemoveQh_ok he hd₁ (fun _ => by
        rw [hs₁]
        show (if s.bell.iaa = true then some s.bell.latched else none) ≠ none
        rw [if_pos hiaa]
        exact Option.some_ne_none _) hiaad
      exact ⟨v₂, hd₂⟩
    · obtain rfl := Option.some.inj hiaad
      exact ⟨v₁, hd₁⟩
  exact ⟨v₂, hd₂.endService⟩

/-! ## Steps and runs -/

theorem Idle.apiStep (hd : Idle M none s v) (h : ApiStep M.own s s') : ∃ v', Idle M none s' v' := by
  obtain ⟨home, hg⟩ := hd.good
  obtain ⟨v', hd', -⟩ := (hg.apiStep hd.heldQh h).idle hd.stale hd.held
  exact ⟨v', hd'⟩

theorem Idle.hcStep (hd : Idle M none s v) (h : HcStep s s') : ∃ v', Idle M none s' v' :=
  ⟨v, (hd.hcSteps (.single h)).1⟩

/-- A function of the driver that scans its lists, with the callbacks of `env`. -/
inductive ScanStep (env : Env) : Ehci → Ehci → Prop
  | async {s s' : Ehci} (fuel : Nat) (h : scanAsynchronousList env fuel s = some s') :
      ScanStep env s s'
  | periodic {s s' : Ehci} (fuel : Nat) (h : scanPeriodicFrameList env fuel s = some s') :
      ScanStep env s s'
  | iso {s s' : Ehci} (fuel : Nat) (h : scanIsochronousList env fuel s = some s') : ScanStep env s s'
  | iaad {s s' : Ehci} (fuel : Nat) (h : iaadRemoveQh env fuel s = some s') : ScanStep env s s'
  | irq {s s' : Ehci} (fuel : Nat) (h : ehciIrqHandler env fuel s = some s') : ScanStep env s s'

theorem Idle.scanStep (hm : ¬ M.handler) (he : EnvKeeps M env) (hd : Idle M none s v)
    (h : ScanStep env s s') : ∃ v', Idle M none s' v' := by
  cases h with
  | async fuel h =>
    obtain ⟨v', hd', -⟩ := scanAsynchronousList_ok he hd h
    exact ⟨v', hd'⟩
  | periodic fuel h =>
    obtain ⟨v', hd', -⟩ := scanPeriodicFrameList_ok he hd h
    exact ⟨v', hd'⟩
  | iso fuel h =>
    obtain ⟨v', hd', -⟩ := scanIsochronousList_ok he hd h
    exact ⟨v', hd'⟩
  | iaad fuel h =>
    obtain ⟨v', hd', -⟩ := iaadRemoveQh_ok he hd (fun hh => absurd hh hm) h
    exact ⟨v', hd'⟩
  | irq fuel h => exact ehciIrqHandler_ok he hd h

theorem Idle.coreStep (hm : ¬ M.handler) (hd : Idle M none s v) (h : CoreStep M.own s s') :
    ∃ v', Idle M none s' v' := by
  cases h with
  | api h => exact hd.apiStep h
  | hc h => exact hd.hcStep h
  | scanAsync env he fuel h => exact hd.scanStep hm he.keeps (.async fuel h)
  | scanPeriodic env he fuel h => exact hd.scanStep hm he.keeps (.periodic fuel h)
  | scanIso env he fuel h => exact hd.scanStep hm he.keeps (.iso fuel h)
  | iaad env he fuel h => exact hd.scanStep hm he.keeps (.iaad fuel h)
  | irq env he fuel h => exact hd.scanStep hm he.keeps (.irq fuel h)

/-- A step of a run; what it asks of the mode is what the mode promises about the run. -/
theorem Idle.step (hm : ¬ M.handler) (hnq : ¬ M.noQuit) (hps : ¬ M.psenKept) (hd : Idle M none s v)
    (h : Step M.own s s') : ∃ v', Idle M none s' v' := by
  cases h with
  | core h => exact hd.coreStep hm h
  | quitIso env he utr ep r h =>
    obtain ⟨v', hd', -⟩ := hd.quitXfer he hnq (fun h => absurd h hps) h
    exact ⟨v', hd'⟩

theorem Idle.handlerStep (hnq : ¬ M.noQuit) (hps : ¬ M.psenKept) (hd : Idle M none s v)
    (h : HandlerStep M.own s s') : ∃ v', Idle M none s' v' := by
  cases h with
  | api h => exact hd.apiStep h
  | hc h => exact hd.hcStep h
  | irq env he fuel h => exact ehciIrqHandler_ok he.keeps hd h
  | quitIso env he utr ep r h =>
    obtain ⟨v', hd', -⟩ := hd.quitXfer he hnq (fun h => absurd h hps) h
    exact ⟨v', hd'⟩

/-- What every step keeps holds at the end of a run. -/
theorem idle_run {R : Ehci → Ehci → Prop} (M : Mode)
    (hstep : ∀ {s s' v}, Idle M none s v → R s s' → ∃ v', Idle M none s' v')
    (h₀ : Initial s) (h : ReflTransGen R s s') : ∃ v', Idle M none s' v' := by
  induction h with
  | refl => exact h₀.idle M
  | tail _ hr ih =>
    obtain ⟨v, hd⟩ := ih
    exact hstep hd hr

end Ma35d1.UsbHost.Ehci
