import Ma35d1.UsbHost.Ehci.Boot
import Ma35d1.UsbHost.Ehci.Rollback

/-!
# When a failed submission changes nothing

`ehci_int_xfer` undoes what it did. `ehci_ctrl_xfer` returns its qTDs but leaves a new QH in
`hw_pipe`, linked into no list; `ehci_bulk_xfer` returns its qTDs but leaves them on the
`qtd_list` of a QH that was there before.
-/

namespace Ma35d1.UsbHost.Ehci

open Heap.LinkedPath Relation

variable {M : Mode} {own : Owner} {hot : Ptr} {home : UtrId → Home} {s s' : Ehci} {v : View}
  {qh t : Addr} {u : UtrId} {e : EpId} {r : Int}

/-! ## The calls -/

inductive Call
  | ctrl | bulk | int
  deriving DecidableEq, Repr

def submit : Call → UtrId → Ehci → Option (Int × Ehci)
  | .ctrl => ehciCtrlXfer
  | .bulk => ehciBulkXfer
  | .int => ehciIntXfer

/-- The search of the EHCI allocators finds no unit. -/
def Exhausted (p : HwPool) : Prop :=
  p.rotFree hwMemUnitNum ((p.sidx + 1) % hwMemUnitNum) = none

instance (p : HwPool) : Decidable (Exhausted p) := inferInstanceAs (Decidable (_ = none))

theorem allocEhci_eq_none_iff {p : HwPool} {k : HwKind} : p.allocEhci k = none ↔ Exhausted p :=
  Option.map_eq_none_iff

/-- Whether a submission that fails from here undoes what it did. -/
def Undoes (c : Call) (u : UtrId) (s : Ehci) : Prop :=
  match c with
  | .ctrl => buffOverrun (s.utr u) ∨ s.hwPipe (.ep0 (s.utr u).udev) ≠ .null ∨ Exhausted s.pool
  | .bulk => ∀ e qh, s.utrEp u = some e → s.hwPipe e = .qh qh →
      s.qtdList qh ≠ none ∨ Exhausted s.pool
  | .int => True

/-- What a submission that fails must leave alone: the number of used units and which they
are, the pipes, the queues of their QHs, the ring of `_H_qh` and the chain of `_Iqh`. -/
structure Unchanged (s s' : Ehci) : Prop where
  unit : s'.pool.unit = s.pool.unit
  memCnt : s'.pool.hwMemUsedCnt = s.pool.hwMemUsedCnt
  hwPipe : s'.hwPipe = s.hwPipe
  qtdList : ∀ e qh, s.hwPipe e = .qh qh → s'.qtdList qh = s.qtdList qh
  hQh : s'.hQh = s.hQh
  iqh : s'.iqh = s.iqh
  ring : ∀ a, Reach (hNext s.toLinks) (some s.hQh) a → s'.hLink a = s.hLink a
  chain : ∀ a, Reach (hNext s.toLinks) (some (s.iqh (numIqh - 1))) a → s'.hLink a = s.hLink a

/-- A call that holds nothing any more has changed nothing. -/
theorem Good.unchanged (hg : Good M hot home s v) (h : Holds s s.hwPipe [] s') :
    Unchanged s s' := by
  have hs := hg.inv.shape
  have hsame : ∀ a, v.role a ≠ .free → SameAt s s' a := fun a ha => h.same a fun hn => by
    obtain ⟨k, hk⟩ := hs.used_unit ha
    rw [hn] at hk
    cases hk
  have hl := h.roots.links
  constructor
  · exact h.pool.unit_eq
  · simpa using h.pool.memCnt
  · exact h.hwPipe
  · intro e qh hp
    refine (hsame qh ?_).qtdList
    rcases hg.tidy.pipeQh e qh hp with ⟨-, i, hm⟩ | ⟨-, -, hm⟩
    · exact role_ne_free hs (r := .intr i) rfl hm
    · exact role_ne_free hs (r := .async) rfl hm
  · rw [hl]
  · rw [hl]
  · intro a ha
    refine (hsame a fun hf => ?_).hLink
    exact Off.not_mem_ring hs (.inl hf) (List.mem_cons.mpr (hs.reach_ring.mp ha))
  · intro a ha
    refine (hsame a fun hf => ?_).hLink
    exact Off.not_mem_chain hs (.inl hf) (hs.reach_chain.mp ha)

/-! ## Calls that undo what they did -/

theorem allocEhciQh_none (h : s.allocEhciQh = none) : Exhausted s.pool := by
  have h' := Option.map_eq_none_iff.mp h
  exact allocEhci_eq_none_iff.mp (Option.map_eq_none_iff.mp h')

theorem allocEhciQh_qtdList (h : s.allocEhciQh = some (qh, s')) : s'.qtdList qh = none := by
  obtain ⟨⟨b, m⟩, hm, he⟩ := Option.map_eq_some_iff.mp h
  obtain ⟨rfl, rfl⟩ := Prod.mk.inj he
  obtain ⟨-, -, rfl⟩ := allocEhciQh_some hm
  exact Function.update_self ..

theorem not_exhausted_of_allocQh (h : s.allocEhciQh = some (qh, s')) : ¬ Exhausted s.pool := by
  intro he
  have hn : s.allocEhciQh = none := by
    rw [Ehci.allocEhciQh, Links.allocEhciQh, allocEhci_eq_none_iff.mpr he]
    rfl
  rw [hn] at h
  cases h

theorem ctrl_holds (hg : Good M hot home s v) (h : ehciCtrlXfer u s = some (r, s')) (hr : r < 0)
    (hu : Undoes .ctrl u s) : Holds s s.hwPipe [] s' := by
  have hrefl := Holds.refl hg.inv.shape.sidx
  unfold ehciCtrlXfer at h
  dsimp only at h
  split at h
  · obtain ⟨-, rfl⟩ := Prod.mk.inj (Option.some.inj h)
    exact hrefl
  · rename_i hover
    split at h
    · split at h
      · obtain ⟨-, rfl⟩ := Prod.mk.inj (Option.some.inj h)
        exact hrefl
      · exact ctrlOnQh_holds hrefl h hr
    · rename_i hp
      split at h
      · obtain ⟨-, rfl⟩ := Prod.mk.inj (Option.some.inj h)
        exact hrefl
      · rename_i qh s₁ ha
        rcases hu with hu | hu | hu
        · exact absurd hu hover
        · exact absurd hp hu
        · exact absurd hu (not_exhausted_of_allocQh ha)
    · cases h

theorem allocEhciQtd_eq_none_iff {w : Option UtrId} :
    s.allocEhciQtd w = none ↔ Exhausted s.pool := by
  rw [Ehci.allocEhciQtd, Links.allocEhciQtd, Option.map_eq_none_iff, Option.map_eq_none_iff,
    allocEhci_eq_none_iff]

/-- A failed bulk transfer ran out of units after some slices. -/
theorem bulkOnQh_neg {isNewQh : Bool} (h : bulkOnQh u e qh isNewQh s = some (r, s')) (hr : r < 0) :
    ∃ s₁, bulkQtds u e qh (bulkSlices (s.utr u).dataLen) (s.utr u).buff (s.utr u).dataLen none s =
        some (false, s₁) ∧ bulkFail e qh isNewQh s₁ = some (r, s') := by
  obtain ⟨⟨b, s₁⟩, hs₁, h⟩ := Option.bind_eq_some_iff.mp h
  cases b with
  | false => exact ⟨s₁, hs₁, h⟩
  | true =>
    have h : bulkStart e qh isNewQh s₁ = some (r, s') := h
    unfold bulkStart at h
    cases isNewQh with
    | false =>
      obtain ⟨rfl, -⟩ := Prod.mk.inj (Option.some.inj h)
      exact absurd hr (Int.lt_irrefl 0)
    | true =>
      obtain ⟨_, -, he⟩ := Option.map_eq_some_iff.mp h
      exact absurd hr (by rw [← (Prod.mk.inj he).1]; exact Int.lt_irrefl 0)

theorem bulkQtds_exhausted {n : Nat} {buff dataLen : BitVec 32} {pre : Ptr}
    (hex : Exhausted s.pool) (h : bulkQtds u e qh n buff dataLen pre s = some (false, s')) :
    s' = s := by
  cases n with
  | zero => cases h
  | succ n =>
    rw [bulkQtds, allocEhciQtd_eq_none_iff.mpr hex] at h
    split at h
    · cases h
    · exact (Prod.mk.inj (Option.some.inj h)).2.symm

theorem bulk_holds (hg : Good M hot home s v) (h : ehciBulkXfer u s = some (r, s')) (hr : r < 0)
    (hu : Undoes .bulk u s) : Holds s s.hwPipe [] s' := by
  have hrefl := Holds.refl hg.inv.shape.sidx
  unfold ehciBulkXfer at h
  obtain ⟨e, he, h⟩ := Option.bind_eq_some_iff.mp h
  split at h
  · rename_i qh hp
    split at h
    · obtain ⟨-, rfl⟩ := Prod.mk.inj (Option.some.inj h)
      exact hrefl
    · rename_i hidle
      have hex := (hu e qh he hp).resolve_left hidle
      obtain ⟨s₁, hs₁, hfail⟩ := bulkOnQh_neg h hr
      rw [bulkQtds_exhausted hex hs₁] at hfail
      obtain ⟨s₂, hs₂, he₂⟩ := Option.map_eq_some_iff.mp hfail
      obtain ⟨-, rfl⟩ := Prod.mk.inj he₂
      rw [not_not.mp hidle] at hs₂
      obtain rfl := Option.some.inj hs₂
      exact hrefl
  · rename_i hp
    split at h
    · obtain ⟨-, rfl⟩ := Prod.mk.inj (Option.some.inj h)
      exact hrefl
    · rename_i qh s₁ ha
      obtain ⟨sw, hw, h⟩ := Option.bind_eq_some_iff.mp h
      obtain ⟨f, g, rfl⟩ := writeQh_eq hw
      have h₁ := ((hrefl.allocQh ha).scratch g s₁.qtdHw s₁.qtdXferLen f s₁.utrEp).setHwPipe e (.qh qh)
      have hq : s₁.qtdList qh = none := allocEhciQh_qtdList ha
      have h₂ := bulkOnQh_holds h₁ hq h hr
      rwa [Function.update_idem, ← hp, Function.update_eq_self] at h₂
  · cases h

theorem int_holds (hg : Good M hot home s v) (h : ehciIntXfer u s = some (r, s')) (hr : r < 0) :
    Holds s s.hwPipe [] s' := by
  have hrefl := Holds.refl hg.inv.shape.sidx
  unfold ehciIntXfer at h
  obtain ⟨e, he, h⟩ := Option.bind_eq_some_iff.mp h
  split at h
  · split at h
    · obtain ⟨-, rfl⟩ := Prod.mk.inj (Option.some.inj h)
      exact hrefl
    · unfold intOnQh at h
      split at h
      · obtain ⟨-, rfl⟩ := Prod.mk.inj (Option.some.inj h)
        exact hrefl
      · obtain ⟨_, -, he⟩ := Option.map_eq_some_iff.mp (show Option.map _ _ = _ from h)
        exact absurd hr (by rw [← (Prod.mk.inj he).1]; exact Int.lt_irrefl 0)
  · rename_i hp
    split at h
    · obtain ⟨-, rfl⟩ := Prod.mk.inj (Option.some.inj h)
      exact hrefl
    · rename_i qh s₁ ha
      obtain ⟨sw, hw, h⟩ := Option.bind_eq_some_iff.mp h
      obtain ⟨f, g, rfl⟩ := writeQh_eq hw
      have h₁ := (hrefl.allocQh ha).scratch
        (writeIntQh (s₁.utr u).udev e qh { s₁ with udev := f, qhHw := g }).qhHw s₁.qtdHw
        s₁.qtdXferLen f s₁.utrEp
      have h₂ := intOnQh_holds (h₁.setHwPipe e (.qh qh)) h hr
      rwa [Function.update_idem, ← hp, Function.update_eq_self] at h₂
  · cases h

theorem submit_holds {c : Call} (hg : Good M hot home s v) (h : submit c u s = some (r, s'))
    (hr : r < 0) (hu : Undoes c u s) : Holds s s.hwPipe [] s' := by
  cases c with
  | ctrl => exact ctrl_holds hg h hr hu
  | bulk => exact bulk_holds hg h hr hu
  | int => exact int_holds hg h hr

/-! ## Calls that leave something behind -/

/-- The new QH stays in `hw_pipe`. -/
theorem ctrl_left (hsi : s.pool.sidx < hwMemUnitNum) (h : ehciCtrlXfer u s = some (r, s'))
    (hr : r < 0) (hu : ¬ Undoes .ctrl u s) : ¬ Unchanged s s' := by
  obtain ⟨hover, hu⟩ := not_or.mp hu
  obtain ⟨hp, hex⟩ := not_or.mp hu
  have hp := not_not.mp hp
  intro hun
  unfold ehciCtrlXfer at h
  dsimp only at h
  rw [if_neg hover, hp] at h
  dsimp only at h
  split at h
  · rename_i hn
    exact hex (allocEhciQh_none hn)
  · rename_i qh s₁ ha
    have h₁ := ctrlOnQh_holds (((Holds.refl hsi).allocQh ha).setHwPipe (.ep0 (s.utr u).udev)
      (.qh qh)) h hr
    have hpipe := congrFun (h₁.hwPipe.symm.trans hun.hwPipe) (.ep0 (s.utr u).udev)
    rw [Function.update_self, hp] at hpipe
    cases hpipe

theorem bulkSlice_qtdList {buff dataLen : BitVec 32} {pre : Ptr}
    (h : bulkSlice e qh t buff dataLen pre s = some s') : s'.qtdList qh ≠ none := by
  obtain ⟨s₁, s₂, tok, -, ha, hw⟩ := bulkSlice_eq h
  obtain ⟨m, hm, rfl⟩ := Option.map_eq_some_iff.mp ha
  rw [hw.toLinks]
  show m.qtdList qh ≠ none
  unfold Links.appendToQtdListOfQh at hm
  split at hm
  · obtain rfl := Option.some.inj hm
    show Function.update s₁.qtdList qh (some t) qh ≠ none
    rw [Function.update_self]
    exact Option.some_ne_none t
  · rename_i q hq
    obtain ⟨_, -, hm⟩ := Option.bind_eq_some_iff.mp hm
    obtain rfl := Option.some.inj hm
    rw [hq]
    exact Option.some_ne_none q

theorem bulkQtds_qtdList {n : Nat} {buff dataLen : BitVec 32} {pre : Ptr} {b : Bool}
    (hq : s.qtdList qh ≠ none) (h : bulkQtds u e qh n buff dataLen pre s = some (b, s')) :
    s'.qtdList qh ≠ none := by
  induction n generalizing buff dataLen pre s with
  | zero =>
    obtain rfl := (Prod.mk.inj (Option.some.inj h)).2
    exact hq
  | succ n ih =>
    rw [bulkQtds] at h
    split at h
    · obtain rfl := (Prod.mk.inj (Option.some.inj h)).2
      exact hq
    · split at h
      · obtain rfl := (Prod.mk.inj (Option.some.inj h)).2
        exact hq
      · obtain ⟨s₂, hs₂, h⟩ := Option.bind_eq_some_iff.mp h
        exact ih (bulkSlice_qtdList hs₂) h

theorem freeQtdChain_qtdList {n : Nat} {q : Ptr} (h : freeQtdChain n q s = some s') :
    s'.qtdList = s.qtdList := by
  induction n generalizing q s with
  | zero => cases h
  | succ n ih =>
    cases q with
    | none => exact congrArg (·.qtdList) (Option.some.inj h).symm
    | some a => exact (ih (show freeQtdChain n (s.qtdNext a) (s.free .qtd a) = _ from h)).trans rfl

/-- The freed qTDs stay on the `qtd_list` of the QH. -/
theorem bulk_left (h : ehciBulkXfer u s = some (r, s')) (hr : r < 0)
    (hu : ¬ Undoes .bulk u s) : ¬ Unchanged s s' := by
  obtain ⟨e, qh, he, hp, hidle, hex⟩ : ∃ e qh, s.utrEp u = some e ∧ s.hwPipe e = .qh qh ∧
      s.qtdList qh = none ∧ ¬ Exhausted s.pool := by
    unfold Undoes at hu
    push Not at hu
    exact hu
  intro hun
  have hkept := hun.qtdList e qh hp
  rw [hidle] at hkept
  refine absurd hkept ?_
  unfold ehciBulkXfer at h
  rw [he, Option.bind_eq_bind, Option.bind_some, hp] at h
  dsimp only at h
  rw [if_neg (not_not.mpr hidle)] at h
  obtain ⟨s₁, hs₁, h⟩ := bulkOnQh_neg h hr
  obtain ⟨s₂, hs₂, h⟩ := Option.map_eq_some_iff.mp h
  obtain ⟨-, rfl⟩ := Prod.mk.inj h
  show s₂.qtdList qh ≠ none
  rw [freeQtdChain_qtdList hs₂]
  cases hn : bulkSlices (s.utr u).dataLen with
  | zero => rw [hn] at hs₁; cases hs₁
  | succ n =>
    rw [hn, bulkQtds] at hs₁
    split at hs₁
    · cases hs₁
    · split at hs₁
      · rename_i hnone
        exact absurd (allocEhciQtd_eq_none_iff.mp hnone) hex
      · obtain ⟨s₃, hs₃, hs₁⟩ := Option.bind_eq_some_iff.mp hs₁
        exact bulkQtds_qtdList (bulkSlice_qtdList hs₃) hs₁

theorem Good.unchanged_iff {c : Call} (hg : Good M hot home s v)
    (h : submit c u s = some (r, s')) (hr : r < 0) : Unchanged s s' ↔ Undoes c u s := by
  refine ⟨fun hun => ?_, fun hu => hg.unchanged (submit_holds hg h hr hu)⟩
  by_contra hu
  cases c with
  | ctrl => exact ctrl_left hg.inv.shape.sidx h hr hu hun
  | bulk => exact bulk_left h hr hu hun
  | int => exact hu trivial

/-! ## Runs with failing calls -/

/-- A call of the interface, or one that fails and undoes what it did. -/
inductive TryStep (own : Owner) : Ehci → Ehci → Prop
  | api {s s' : Ehci} (h : ApiStep own s s') : TryStep own s s'
  | fails {s s' : Ehci} (c : Call) (u : UtrId) (r : Int) (hr : r < 0) (hu : Undoes c u s)
      (h : submit c u s = some (r, s')) : TryStep own s (offRecord s s')

/-- The callbacks make such calls. -/
structure TryEnv (own : Owner) (env : Env) : Prop where
  func : ∀ u s, ReflTransGen (TryStep own) s (env.func u s)
  hc : ∀ s, ReflTransGen HcStep s (env.hc s)

inductive TryRun (own : Owner) : Ehci → Ehci → Prop
  | call {s s' : Ehci} (h : TryStep own s s') : TryRun own s s'
  | hc {s s' : Ehci} (h : HcStep s s') : TryRun own s s'
  | scan {s s' : Ehci} (env : Env) (he : TryEnv own env) (h : ScanStep env s s') : TryRun own s s'
  | quitIso {s s' : Ehci} (env : Env) (he : QuietEnv env) (utr : Option UtrId) (ep : Option EpId)
      (r : Int) (h : ehciQuitXfer env utr ep s = some (r, s')) : TryRun own s s'

theorem Good.tryStep (hnq : ¬ M.noQuit) (hg : Good M hot home s v) (hh : HeldQh v)
    (h : TryStep M.own s s') : ApiOk M hot s v s' := by
  cases h with
  | api h => exact hg.apiStep hh h
  | fails c u r hr hu h => exact hg.rolledBack hnq (submit_holds hg h hr hu)

theorem TryEnv.keeps {env : Env} (hnq : ¬ M.noQuit) (he : TryEnv M.own env) : EnvKeeps M env :=
  ⟨fun u s _ _ _ hg hh => hg.calls (Good.tryStep hnq) hh (he.func u s), he.hc⟩

theorem Idle.tryRun (hm : ¬ M.handler) (hnq : ¬ M.noQuit) (hps : ¬ M.psenKept)
    (hd : Idle M none s v) (h : TryRun M.own s s') : ∃ v', Idle M none s' v' := by
  cases h with
  | call h =>
    obtain ⟨home, hg⟩ := hd.good
    obtain ⟨v', hd', -⟩ := (hg.tryStep hnq hd.heldQh h).idle hd.stale hd.held
    exact ⟨v', hd'⟩
  | hc h => exact hd.hcStep h
  | scan env he h => exact hd.scanStep hm (he.keeps hnq) h
  | quitIso env he utr ep r h =>
    obtain ⟨v', hd', -⟩ := hd.quitXfer he hnq (fun h => absurd h hps) h
    exact ⟨v', hd'⟩

/-- In a run whose failing calls all undo what they did, a call that fails leaves everything as
it was exactly where it undoes what it did. -/
theorem run_atomic_iff {s₀ : Ehci} {c : Call} (h₀ : Initial s₀)
    (hrun : ReflTransGen (TryRun own) s₀ s) (h : submit c u s = some (r, s')) (hr : r < 0) :
    Unchanged s s' ↔ Undoes c u s := by
  obtain ⟨v, hd⟩ := idle_run ⟨own, False, False, False⟩
    (fun hd hs => hd.tryRun (fun h => h) (fun h => h) (fun h => h) hs) h₀ hrun
  obtain ⟨home, hg⟩ := hd.good
  exact hg.unchanged_iff h hr

/-- The other host controllers leave the units of `keep` only. -/
def crowd (keep : List Addr) (s : Ehci) : Ehci :=
  { s with pool := { s.pool with
      unit := fun a => if s.pool.unit a = none ∧ a ∉ keep then some .other else s.pool.unit a } }

theorem crowd_step (keep : List Addr) (hs : s.pool.sidx < hwMemUnitNum) :
    ApiStep own s (crowd keep s) := by
  refine .foreign _ s.dma (fun a ha => ?_) hs fun _ _ => rfl
  have hif : s.pool.unit a = none ∧ a ∉ keep := by
    by_contra hn
    exact ha (if_neg hn)
  refine ⟨fun k hk => ?_, fun k hk => ?_⟩
  · have hk : (if s.pool.unit a = none ∧ a ∉ keep then some .other else s.pool.unit a) = some k := hk
    rw [if_pos hif] at hk
    obtain rfl := Option.some.inj hk
    rfl
  · rw [hif.1] at hk
    cases hk

/-- A request of each kind with one unit left. -/
def lastUnit (e : Option EpId) : Ehci := prepared 0 (sampleUtr 0 8) e (crowd [14] sampleStart)

theorem lastUnit_run (e : Option EpId) : ReflTransGen (TryRun completed) sampleStart (lastUnit e) := by
  refine .tail (.tail .refl (.call (.api (crowd_step [14] ?_)))) (.call (.api
    (.prepare 0 (sampleUtr 0 8) e 0 ?_)))
  · exact (by decide : sampleStart.pool.sidx < hwMemUnitNum)
  · exact (by decide : ¬ Pending (crowd [14] sampleStart).trace 0)

theorem lastUnit_int :
    (submit .int 0 (lastUnit (some (.alt 2)))).map (·.1) = some usbhErrMemoryOut := by
  decide +kernel

theorem lastUnit_ctrl : (submit .ctrl 0 (lastUnit none)).map (·.1) = some usbhErrMemoryOut := by
  decide +kernel

theorem run_atomic_iff_lastUnit :
    Unchanged (lastUnit (some (.alt 2))) (callResult _ lastUnit_int) ↔
      Undoes .int 0 (lastUnit (some (.alt 2))) :=
  run_atomic_iff sampleStart_initial (lastUnit_run _) (callResult_eq lastUnit_int) (by decide)

/-- `ehci_ctrl_xfer` takes the last unit for a QH, has none for the qTDs, and keeps the QH. -/
theorem ctrl_failed_keeps_qh : ∃ s₀ s s' : Ehci, Initial s₀ ∧
    ReflTransGen (TryRun completed) s₀ s ∧
    submit .ctrl 0 s = some (usbhErrMemoryOut, s') ∧ ¬ Unchanged s s' := by
  refine ⟨sampleStart, lastUnit none, callResult _ lastUnit_ctrl, sampleStart_initial,
    lastUnit_run none, callResult_eq lastUnit_ctrl, fun hun => ?_⟩
  have hu : (callResult _ lastUnit_ctrl).pool.unit 14 = some .qh := by decide +kernel
  rw [hun.unit] at hu
  exact absurd hu (by decide)

end Ma35d1.UsbHost.Ehci
