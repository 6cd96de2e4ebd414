import Ma35d1.UsbHost.Ehci.Boot

/-!
# The periodic schedule over whole runs

From every entry of the frame list the controller meets the descriptors of that
frame, then the interval heads whose interval divides the frame, each with the
interrupt QHs inserted under it, and then the end. The schedule is on while
something on it is pending, as long as a quit of the last isochronous endpoint
finds no other use of it.
-/

namespace Ma35d1.UsbHost.Ehci

open Heap.LinkedPath Heap.IntervalTree Relation

variable {own : Owner} {s₀ s s' : Ehci} {v : View} {m : Links} {a h : Addr} {idx : Nat}

/-! ## The chain of a frame -/

/-- The link word that leads to a unit in use. -/
def unitLink (m : Links) (a : Addr) : Link :=
  match m.pool.unit a with
  | some .itd => .itd a
  | some .sitd => .sitd a
  | _ => .qh a

def isHead (m : Links) (a : Addr) : Bool := (List.range numIqh).any fun i => m.iqh i == a

/-- The interval heads that a frame visits, in decreasing order. -/
def visitedHeads (idx : Nat) : List Nat :=
  (List.range numIqh).reverse.filter fun i => decide (2 ^ i ∣ idx + 1)

/-- `nodes` is what the controller meets from the entry `idx` of the frame list. -/
structure FrameChain (m : Links) (idx : Nat) (nodes : List Addr) : Prop where
  path : Path (unitLink m) m.hLink (m.pfList idx) nodes .terminate
  nodup : nodes.Nodup
  heads : nodes.filter (isHead m) = (visitedHeads idx).map m.iqh
  /-- a QH met on the way is a head or was inserted under a head that is met -/
  met : ∀ a ∈ nodes, m.pool.unit a = some .qh → isHead m a = false →
    ∃ i ∈ visitedHeads idx, m.insertedUnder a = some i
  /-- an interrupt QH on the periodic schedule is met exactly with its head -/
  intr : ∀ a i, Reach (hNext m) (some (m.iqh (numIqh - 1))) a → isHead m a = false →
    m.insertedUnder a = some i → (a ∈ nodes ↔ i ∈ visitedHeads idx)
  /-- the iTDs and siTDs in use are met in their own frame -/
  tds : ∀ k a, m.pool.unit a = some k.hw → (a ∈ nodes ↔ m.schedFrnidx k a = idx)

theorem mem_visitedHeads {i : Nat} : i ∈ visitedHeads idx ↔ i ≤ level idx := by
  unfold visitedHeads
  rw [List.mem_filter, List.mem_reverse, List.mem_range, decide_eq_true_iff]
  constructor
  · rintro ⟨hi, hd⟩
    exact (le_level_iff hi).mpr hd
  · intro hi
    have hlt := Nat.lt_of_le_of_lt hi (level_lt idx)
    exact ⟨hlt, (le_level_iff hlt).mp hi⟩

theorem filter_reverse_range {p : Nat → Bool} {n k : Nat} (hp : ∀ i < n, p i = true ↔ i < k) :
    (List.range n).reverse.filter p = (List.range (min n k)).reverse := by
  induction n with
  | zero => rw [Nat.zero_min]; rfl
  | succ n ih =>
    rw [List.range_succ, List.reverse_append, List.reverse_singleton, List.singleton_append,
      List.filter_cons, ih fun i hi => hp i (Nat.lt_succ_of_lt hi)]
    by_cases hn : n < k
    · rw [if_pos ((hp n (Nat.lt_succ_self n)).mpr hn), Nat.min_eq_left hn,
        Nat.min_eq_left (Nat.le_of_lt hn), List.range_succ]
      simp
    · rw [if_neg (fun h => hn ((hp n (Nat.lt_succ_self n)).mp h)), Nat.min_eq_right (by omega),
        Nat.min_eq_right (by omega)]

theorem visitedHeads_eq : visitedHeads idx = (List.range (level idx + 1)).reverse := by
  have hlt := level_lt idx
  rw [visitedHeads, filter_reverse_range (k := level idx + 1), Nat.min_eq_right hlt]
  intro i hi
  rw [decide_eq_true_iff, ← le_level_iff hi, Nat.lt_succ_iff]

theorem isHead_iff : isHead m a = true ↔ ∃ i < numIqh, a = m.iqh i := by
  unfold isHead
  rw [List.any_eq_true]
  constructor
  · rintro ⟨i, hi, he⟩
    exact ⟨i, List.mem_range.mp hi, (eq_of_beq he).symm⟩
  · rintro ⟨i, hi, rfl⟩
    exact ⟨i, List.mem_range.mpr hi, beq_self_eq_true _⟩

theorem Shape.isHead_eq (hs : Shape m v) : isHead m a = true ↔ ∃ i, v.role a = .iqh i := by
  rw [isHead_iff]
  constructor
  · rintro ⟨i, hi, rfl⟩
    exact ⟨i, hs.role_iqh hi⟩
  · rintro ⟨i, hr⟩
    obtain ⟨hi, he⟩ := (hs.iqhRole i a).mp hr
    exact ⟨i, hi, he⟩

/-- Of the chain from `_Iqh[n-1]` on, the heads are `_Iqh[n-1]`, …, `_Iqh[0]`. -/
theorem Shape.filter_chain (hs : Shape m v) {n : Nat} (hn : n ≤ numIqh) :
    (chainFrom m.iqh v.under n).filter (isHead m) = (List.range n).reverse.map m.iqh := by
  induction n with
  | zero => rfl
  | succ n ih =>
    have hunder : (v.under n).filter (isHead m) = [] := by
      rw [List.filter_eq_nil_iff]
      intro b hb hh
      obtain ⟨i, hi⟩ := hs.isHead_eq.mp hh
      rw [hs.role_intr hb] at hi
      cases hi
    rw [chainFrom, List.filter_cons_of_pos (isHead_iff.mpr ⟨n, hn, rfl⟩), List.filter_append, hunder,
      List.nil_append, ih (Nat.le_of_succ_le hn), List.range_succ]
    simp

theorem Shape.unitLink_qh (hs : Shape m v) (ha : a ∈ chainFrom m.iqh v.under numIqh) :
    unitLink m a = .qh a := by
  unfold unitLink
  rw [hs.unit_chain ha]

theorem Shape.unitLink_td (hs : Shape m v) (hi : idx < flSize) (ha : a ∈ v.frame idx) :
    unitLink m a = tdLink m a := by
  unfold unitLink tdLink
  rcases hs.role_frame hi ha with ⟨k, x, hr⟩ | hr
  · have hu := hs.unit_of_role hr rfl
    cases k <;> rw [hu] <;> rfl
  · rw [hs.unit_of_role hr rfl]
    rfl

/-- An iTD or siTD in use lies in its frame, if no function of the driver holds it. -/
theorem Shape.mem_frame_iff (hs : Shape m v) (hh : ∀ a k, v.role a ≠ .held k) {k : IsoKind}
    (ha : m.pool.unit a = some k.hw) (hi : idx < flSize) :
    a ∈ v.frame idx ↔ m.schedFrnidx k a = idx := by
  rw [hs.frameMem idx hi]
  have hne : v.role a ≠ .free := fun hf => by
    have := hs.unused a hf k.hw ha
    cases k <;> cases this
  have hk := (hs.used a hne).2
  rw [ha] at hk
  cases hr : v.role a with
  | td j x =>
    rw [hr] at hk
    obtain rfl : j = k := by cases j <;> cases k <;> first | rfl | cases hk
    have hm := (hs.mem (.td j x) a rfl).mpr hr
    constructor
    · rintro (⟨i, y, hm', he⟩ | ⟨hm', _⟩)
      · obtain ⟨rfl, rfl⟩ := Role.td.inj ((hs.role_td hm').symm.trans hr)
        exact he
      · rw [hs.role_orphan hm'] at hr
        cases hr
    · exact fun he => .inl ⟨j, x, hm, he⟩
  | orphan =>
    rw [hr] at hk
    obtain rfl : k = .sitd := by cases k <;> first | rfl | cases hk
    have hm := (hs.mem .orphan a rfl).mpr hr
    constructor
    · rintro (⟨i, y, hm', _⟩ | ⟨_, he⟩)
      · rw [hs.role_td hm'] at hr
        cases hr
      · exact he
    · exact fun he => .inr ⟨hm, he⟩
  | held j => exact absurd hr (hh a j)
  | _ => rw [hr] at hk; cases k <;> cases hk

theorem mem_frameNodes : a ∈ frameNodes m v idx ↔
    a ∈ v.frame idx ∨ ∃ i ≤ level idx, a = m.iqh i ∨ a ∈ v.under i := by
  unfold frameNodes
  rw [List.mem_append, mem_chainFrom]
  simp only [Nat.lt_succ_iff]

theorem Shape.frameChain (hs : Shape m v) (hh : ∀ a k, v.role a ≠ .held k) (hi : idx < flSize) :
    FrameChain m idx (frameNodes m v idx) := by
  obtain ⟨pre, hpre⟩ := chainFrom_suffix m.iqh v.under (Nat.succ_le_of_lt (level_lt idx))
  have hsub : ∀ a ∈ chainFrom m.iqh v.under (level idx + 1),
      a ∈ chainFrom m.iqh v.under numIqh := fun a ha => by
    rw [hpre]; exact List.mem_append_right _ ha
  have hframe : ∀ a, a ∈ v.frame idx → (∃ k x, v.role a = .td k x) ∨ v.role a = .orphan :=
    fun a => hs.role_frame hi
  refine ⟨path_append.mpr ⟨_, (hs.frame idx hi).congr (fun a ha => (hs.unitLink_td hi ha).symm)
    fun _ _ => rfl, (hs.chain_from (level_lt idx)).congr
    (fun a ha => (hs.unitLink_qh (hsub a ha)).symm) fun _ _ => rfl⟩, ?_, ?_, ?_, ?_, ?_⟩
  · refine List.nodup_append.mpr ⟨hs.frame_nodup hi, ?_, ?_⟩
    · have hnd := hs.chain_nodup
      rw [hpre] at hnd
      exact (List.nodup_append.mp hnd).2.1
    · rintro a ha b hb rfl
      exact hs.not_mem_frame_of_chain hi (hsub a hb) ha
  · have hnil : (v.frame idx).filter (isHead m) = [] := by
      rw [List.filter_eq_nil_iff]
      intro a ha hhead
      obtain ⟨i, hr⟩ := hs.isHead_eq.mp hhead
      rcases hframe a ha with ⟨k, x, hr'⟩ | hr' <;> rw [hr] at hr' <;> cases hr'
    rw [frameNodes, List.filter_append, hnil, List.nil_append,
      hs.filter_chain (Nat.succ_le_of_lt (level_lt idx)), visitedHeads_eq]
  · intro a ha hu hnot
    rcases mem_frameNodes.mp ha with hm | ⟨i, hle, rfl | hm⟩
    · rcases hframe a hm with ⟨k, x, hr⟩ | hr
      · rw [hs.unit_of_role hr rfl] at hu
        cases k <;> cases hu
      · rw [hs.unit_of_role hr rfl] at hu
        cases hu
    · rw [isHead_iff.mpr ⟨i, Nat.lt_of_le_of_lt hle (level_lt idx), rfl⟩] at hnot
      cases hnot
    · exact ⟨i, mem_visitedHeads.mpr hle, hs.intrUnder i a hm⟩
  · intro a i hr hnot hins
    obtain ⟨j, hj, rfl | hm⟩ := mem_chainFrom.mp (hs.reach_chain.mp hr)
    · rw [isHead_iff.mpr ⟨j, hj, rfl⟩] at hnot
      cases hnot
    obtain rfl : j = i := Option.some.inj ((hs.intrUnder j a hm).symm.trans hins)
    rw [mem_frameNodes, mem_visitedHeads]
    have hrole := hs.role_intr hm
    constructor
    · rintro (hf | ⟨k, hle, rfl | hk⟩)
      · rcases hframe a hf with ⟨k, x, hr'⟩ | hr' <;> rw [hrole] at hr' <;> cases hr'
      · rw [isHead_iff.mpr ⟨k, Nat.lt_of_le_of_lt hle (level_lt idx), rfl⟩] at hnot
        cases hnot
      · rw [Role.intr.inj (hrole.symm.trans (hs.role_intr hk))]
        exact hle
    · exact fun hle => .inr ⟨j, hle, .inr hm⟩
  · intro k a hu
    rw [← hs.mem_frame_iff hh hu hi, mem_frameNodes]
    refine ⟨fun ha => ha.resolve_right ?_, .inl⟩
    rintro ⟨i, hle, ha⟩
    have hc := hsub a (mem_chainFrom.mpr ⟨i, Nat.lt_succ_of_le hle, ha⟩)
    rw [hs.unit_chain hc] at hu
    cases k <;> cases hu

/-- Every frame's chain, and the QHs of the interrupt endpoints, in every state of every run. -/
theorem reachable_frameChain (h : Reachable own s) :
    (∀ idx < flSize, ∃ nodes, FrameChain s.toLinks idx nodes) ∧
      ∀ e q, s.hwPipe e = .qh q → (s.ep e).xferType = epAttrTtInt →
        Reach (hNext s.toLinks) (some (s.iqh (numIqh - 1))) q ∧ isHead s.toLinks q = false ∧
          ∃ i < numIqh, s.insertedUnder q = some i := by
  obtain ⟨s₀, h₀, hrun⟩ := h
  obtain ⟨v, hd⟩ := idle_run ⟨own, False, False, False⟩
    (fun hd hs => hd.step (fun h => h) (fun h => h) (fun h => h) hs) h₀ hrun
  have hs := hd.shape
  refine ⟨fun idx hi => ⟨_, hs.frameChain hd.held hi⟩, fun e q hq ht => ?_⟩
  rcases hd.tidy.pipeQh e q hq with ⟨-, i, hm⟩ | ⟨hne, -⟩
  · have hlt := hs.intrLt i q hm
    refine ⟨hs.reach_chain.mpr (mem_chainFrom.mpr ⟨i, hlt, .inr hm⟩), ?_, i, hlt, hs.intrUnder i q hm⟩
    refine Bool.eq_false_iff.mpr fun hhead => ?_
    obtain ⟨j, hj⟩ := hs.isHead_eq.mp hhead
    rw [hs.role_intr hm] at hj
    cases hj
  · exact absurd ht hne

/-! An interrupt transfer is queued. -/

def intSent : Ehci :=
  callResult (r := 0) (ehciIntXfer 0
    ((prepared 0 (sampleUtr 0 8) (some (.alt 2)) sampleStart).log (.submit 0 false))) (by decide)

theorem intSent_run : ReflTransGen (CoreStep completed) sampleStart intSent := by
  refine .tail (.tail .refl (.api (.prepare 0 (sampleUtr 0 8) (some (.alt 2)) 0 ?_)))
    (.api (.int 0 (.alt 2) ?_ rfl ?_ (callResult_eq _)))
  · exact (by decide : ¬ Pending sampleStart.trace 0)
  · exact (by decide :
      ¬ Pending (prepared 0 (sampleUtr 0 8) (some (.alt 2)) sampleStart).trace 0)
  · exact (by decide :
      ((prepared 0 (sampleUtr 0 8) (some (.alt 2)) sampleStart).ep (.alt 2)).xferType = epAttrTtInt)

theorem intSent_reachable : Reachable completed intSent :=
  ⟨_, sampleStart_initial, ReflTransGen.mono (fun _ _ h => .core h) _ _ intSent_run⟩

theorem reachable_frameChain_intSent :
    (∀ idx < flSize, ∃ nodes, FrameChain intSent.toLinks idx nodes) ∧
      ∀ e q, intSent.hwPipe e = .qh q → (intSent.ep e).xferType = epAttrTtInt →
        Reach (hNext intSent.toLinks) (some (intSent.iqh (numIqh - 1))) q ∧
          isHead intSent.toLinks q = false ∧ ∃ i < numIqh, intSent.insertedUnder q = some i :=
  reachable_frameChain intSent_reachable

/-! ## The schedule is on while it is in use -/

/-- Something on the periodic schedule is pending. -/
def PeriodicUse (s : Ehci) : Prop :=
  ¬ IntIdle s ∨ ∃ idx < flSize, ∃ t k, Reach (hNext s.toLinks) (s.pfList idx).ptr t ∧
    s.pool.unit t = some (IsoKind.hw k)

/-- A step in which a quit of the last isochronous endpoint finds no other use. -/
inductive SparingStep (own : Owner) : Ehci → Ehci → Prop
  | core {s s' : Ehci} (h : CoreStep own s s') : SparingStep own s s'
  | quitIso {s s' : Ehci} (env : Env) (he : QuietEnv env) (utr : Option UtrId) (ep : Option EpId)
      (r : Int) (hq : QuitSpares s utr ep) (h : ehciQuitXfer env utr ep s = some (r, s')) :
      SparingStep own s s'

theorem Idle.sparingStep {M : Mode} (hm : ¬ M.handler) (hnq : ¬ M.noQuit) (hd : Idle M none s v)
    (h : SparingStep M.own s s') : ∃ v', Idle M none s' v' := by
  cases h with
  | core h => exact hd.coreStep hm h
  | quitIso env he utr ep r hq h =>
    obtain ⟨v', hd', -⟩ := hd.quitXfer he hnq (fun _ => hq) h
    exact ⟨v', hd'⟩

/-- An active qTD at the front of a QH on the periodic schedule. -/
theorem not_intIdle {l : List Addr} {q : Addr}
    (hl : Path some (hNext s.toLinks) (some (s.iqh (numIqh - 1))) l none) (hm : h ∈ l)
    (hh : ∀ i < numIqh, h ≠ s.iqh i) (hq : s.qtdList h = some q)
    (ha : s.token q &&& qtdStsActive ≠ 0) : ¬ IntIdle s := fun hidle =>
  ha (hidle h (hl.reach_of_mem hm) hh q (by rw [hq]; exact .here q))

theorem intSent_use : PeriodicUse intSent :=
  .inl (not_intIdle (h := 14) (q := 15) (l := [3, 4, 5, 6, 7, 8, 9, 10, 11, 12, 13, 14])
    (by decide) (by decide) (by decide) (by decide) (by decide))

def streamSent : Ehci :=
  callResult (r := 0) (ehciIsoXfer 1
    ((prepared 1 (sampleUtr 0 1024) (some (.alt 3)) intSent).log (.submit 1 true))) (by decide +kernel)

def streamQuit : Ehci :=
  callResult (r := 0) (ehciQuitXfer idleEnv none (some (.alt 3)) streamSent) (by decide +kernel)

theorem streamQuit_reachable : Reachable completed streamQuit := by
  refine ⟨_, sampleStart_initial, .tail (.tail (.tail (ReflTransGen.mono (fun _ _ h => .core h) _ _ intSent_run)
    (.core (.api (.prepare 1 (sampleUtr 0 1024) (some (.alt 3)) 0 ?_))))
    (.core (.api (.iso 1 (.alt 3) ?_ rfl ?_ (callResult_eq _)))))
    (.quitIso idleEnv idleEnv_quiet none (some (.alt 3)) 0 (callResult_eq _))⟩
  · exact (by decide +kernel : ¬ Pending intSent.trace 1)
  · exact (by decide :
      ¬ Pending (prepared 1 (sampleUtr 0 1024) (some (.alt 3)) intSent).trace 1)
  · exact (by decide :
      ((prepared 1 (sampleUtr 0 1024) (some (.alt 3)) intSent).ep (.alt 3)).xferType = epAttrTtIso)

end Ma35d1.UsbHost.Ehci
