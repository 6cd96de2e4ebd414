import Ma35d1.UsbHost.Ehci.Schedule

/-!
# The account of the isochronous requests

Over runs of submissions, controller progress and scans: what `td_cnt` counts,
where the descriptors of a request are, and how its slots are written.
-/

namespace Ma35d1.UsbHost.Ehci

open Heap.LinkedPath Relation

variable {s₀ s : Ehci} {v : View} {u : UtrId} {k : IsoKind} {x : IsoId} {t : Addr}

/-- The descriptors of `u` among those of a list. -/
def tdsOf (s : Ehci) (k : IsoKind) (u : UtrId) (l : List Addr) : List Addr :=
  l.filter fun t => decide (s.tdUtr k t = some u)

/-- `x` is the `ISO_EP_T` of the endpoint `u` was submitted to. -/
def EpOf (s : Ehci) (u : UtrId) (x : IsoId) : Prop :=
  ∃ e, s.utrEp u = some e ∧ s.hwPipe e = .isoEp x

structure IsoAccount (s : Ehci) : Prop where
  /-- a request in flight counts its descriptors on the list of its endpoint -/
  counted : ∀ u, PendingIso s.trace u → ∃ k x, EpOf s u x ∧
    ∃ l, Path some (s.tdNext k) (s.tdList k x) l none ∧
      s.tdCnt u = ((tdsOf s k u l).length : Int) ∧ tdsOf s k u l ≠ []
  /-- a descriptor in use lies once on the list of the endpoint of a request in flight -/
  carried : ∀ k t, s.pool.unit t = some k.hw → ∃ u x, s.tdUtr k t = some u ∧ Pending s.trace u ∧
    EpOf s u x ∧ ∃ l, Path some (s.tdNext k) (s.tdList k x) l none ∧ l.count t = 1
  /-- it is linked once, in its frame -/
  linked : ∀ k t, s.pool.unit t = some k.hw → s.schedFrnidx k t < flSize ∧
    ∀ idx < flSize, ∃ nodes, FrameChain s.toLinks idx nodes ∧
      nodes.count t = if s.schedFrnidx k t = idx then 1 else 0
  frees : ∀ e ∈ s.trace, FreeOk e
  alternates : Alternates s.trace
  slots : SlotsOk s.trace

theorem EpOf.of_home {M : Mode} {home : UtrId → Home} (hg : Good M none home s v)
    (ho : M.own = completed) (hnq : M.noQuit) (hx : x ∈ v.isoEps) (hu : home u = .iso k x) :
    EpOf s u x :=
  ⟨_, (hg.inv.acct ho).tds.ep hnq u k x hu, (hg.tidy.pipeIso _ x).mpr ⟨hx, rfl⟩⟩

theorem mine_none (k : IsoKind) (x : IsoId) (u : UtrId) :
    mine s v none k x u = tdsOf s k u (v.tds k x) := by
  unfold mine tdsOf
  refine List.filter_congr fun t _ => ?_
  simp

/-- A unit in use as an iTD or siTD is a descriptor of an endpoint, where none is quit. -/
theorem Shape.role_of_unit {m : Links} (hs : Shape m v) (hh : ∀ a k, v.role a ≠ .held k)
    (ho : v.orphans = []) (hu : m.pool.unit t = some k.hw) : ∃ x, v.role t = .td k x := by
  have hne : v.role t ≠ .free := fun hf => by
    have := hs.unused t hf k.hw hu
    cases k <;> cases this
  have hk := (hs.used t hne).2
  rw [hu] at hk
  cases hr : v.role t with
  | td j x =>
    rw [hr] at hk
    obtain rfl : j = k := by cases j <;> cases k <;> first | rfl | cases hk
    exact ⟨x, rfl⟩
  | orphan =>
    have hm := (hs.mem .orphan t rfl).mpr hr
    rw [show v.list .orphan = v.orphans from rfl, ho] at hm
    cases hm
  | held j => exact absurd hr (hh t j)
  | _ => rw [hr] at hk; cases k <;> cases hk

theorem Idle.isoAccount {M : Mode} (ho : M.own = completed) (hnq : M.noQuit)
    (hd : Idle M none s v) : IsoAccount s := by
  obtain ⟨home, hg⟩ := hd.good
  have hs := hg.inv.shape
  have ha := hg.inv.acct ho
  have hrole : ∀ {k t}, s.pool.unit t = some k.hw → ∃ x, v.role t = .td k x := fun hu =>
    hs.role_of_unit hd.held (ha.tds.orphans hnq) hu
  constructor
  · intro u hu
    obtain ⟨k, x, hh⟩ := (ha.record.kept hnq u hu).resolve_right fun h => h rfl
    have hne : mine s v none k x u ≠ [] := (ha.tds.pos u k x hh).resolve_right fun h => h rfl
    have hcnt := ha.tds.cnt u k x hh
    rw [mine_none] at hne hcnt
    obtain ⟨t, ht⟩ := List.exists_mem_of_ne_nil _ hne
    have hx := hs.tdEp k x t (List.mem_of_mem_filter ht)
    exact ⟨k, x, .of_home hg ho hnq hx hh, v.tds k x, hs.tds k x hx, by simpa using hcnt, hne⟩
  · intro k t hu
    obtain ⟨x, hr⟩ := hrole hu
    have ht : t ∈ v.tds k x := (hs.mem (.td k x) t rfl).mpr hr
    have hx := hs.tdEp k x t ht
    obtain ⟨u, htu, hh⟩ := ha.tds.carried k x t ht (fun h => by cases h)
    refine ⟨u, x, htu, ha.record.pending u (by rw [hh]; exact Home.noConfusion),
      .of_home hg ho hnq hx hh, v.tds k x, hs.tds k x hx, ?_⟩
    exact List.count_eq_one_of_mem (hs.tds_nodup k x) ht
  · intro k t hu
    obtain ⟨x, hr⟩ := hrole hu
    have ht : t ∈ v.tds k x := (hs.mem (.td k x) t rfl).mpr hr
    refine ⟨hs.schedLt k x t ht, fun idx hi => ?_⟩
    have hc := hs.frameChain hd.held hi
    refine ⟨_, hc, ?_⟩
    rw [hc.nodup.count]
    exact if_congr (hc.tds k t hu) rfl rfl
  · exact hg.inv.frees
  · exact ha.record.alternates
  · exact ha.record.slotsOk hnq

theorem streamSent_run : ReflTransGen (CoreStep completed) sampleStart streamSent := by
  refine .tail (.tail intSent_run (.api (.prepare 1 (sampleUtr 0 1024) (some (.alt 3)) 0 ?_)))
    (.api (.iso 1 (.alt 3) ?_ rfl ?_ (callResult_eq _)))
  · exact (by decide : ¬ Pending intSent.trace 1)
  · exact (by decide +kernel :
      ¬ Pending (prepared 1 (sampleUtr 0 1024) (some (.alt 3)) intSent).trace 1)
  · exact (by decide :
      ((prepared 1 (sampleUtr 0 1024) (some (.alt 3)) intSent).ep (.alt 3)).xferType = epAttrTtIso)

end Ma35d1.UsbHost.Ehci
