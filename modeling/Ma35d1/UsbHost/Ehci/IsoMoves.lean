import Ma35d1.UsbHost.Ehci.ListMoves

/-!
# Linking and unlinking isochronous descriptors

An iTD or siTD lies on the list of its endpoint and in the chain of its frame.
Both are edited together, and nothing else of the shape changes.
-/

namespace Ma35d1.UsbHost.Ehci

open Heap.LinkedPath Heap.IntervalTree

namespace Shape

variable {m m' : Links} {v : View} {k : IsoKind} {x : IsoId} {t : Addr}

private theorem td_of_ne {l : List Addr} {r' : Role} {v' : View} (hv : v'.tds = Links.setTd v.tds k x l)
    (hv' : ∀ r, (∀ j y, r ≠ .td j y) → v'.list r = v.list r) (hr : r' ≠ .td k x) :
    v'.list r' = v.list r' := by
  cases r' with
  | td j y =>
    show v'.tds j y = v.tds j y
    rw [hv]
    exact Links.setTd_of_ne fun he => hr (by rw [he.1, he.2])
  | _ => exact hv' _ fun _ _ => Role.noConfusion

theorem roles_putTd (hs : Shape m v) (ht : v.role t = .held k.hw) (hx : x ∈ v.isoEps) (idx : Nat) :
    Roles m.pool.unit m.hQh m.ghostQtd m.iqh (v.putTd k x t idx) := by
  refine hs.toRoles.put (r := .td k x) ht rfl rfl rfl (fun r' hr => td_of_ne rfl ?_ hr)
    (fun y => ?_) rfl (fun _ => Role.noConfusion) (fun _ => Role.noConfusion)
    (fun _ => Role.noConfusion) (fun j y he => by cases he; exact hx)
  · intro r hr; cases r <;> first | rfl | exact absurd rfl (hr _ _)
  · show y ∈ Links.setTd v.tds k x (v.tds k x ++ [t]) k x ↔ _
    rw [Links.setTd_self]
    simp only [List.mem_append, List.mem_singleton, View.list]
    exact or_comm

/-- The end of an endpoint's list. -/
theorem addTd (hs : Shape m v) (ht : v.role t = .held k.hw) (hx : x ∈ v.isoEps) :
    ∃ m', m.addTdToIsoEp k x t = some m' ∧
      m' = { m with tdNext := m'.tdNext, tdList := m'.tdList } ∧
      (∀ j, ∀ y ∈ v.isoEps, Path some (m'.tdNext j) (m'.tdList j y)
        (Links.setTd v.tds k x (v.tds k x ++ [t]) j y) none) ∧
      ∀ j b, b ≠ t → b ∉ v.tds k x → m'.tdNext j b = m.tdNext j b := by
  have hoff : Off v t := .inr ⟨_, ht⟩
  have hs0 := hs.off_tdNext hoff k none
  have hp := hs0.tds k x hx
  have hnt : (Links.setTd m.tdNext k t none) k t = none := Links.setTd_self ..
  rcases List.eq_nil_or_concat (v.tds k x) with hq | ⟨l, last, hq⟩
  · rw [hq] at hp
    have hl : m.tdList k x = none := hp
    refine ⟨{ m with
        tdNext := Links.setTd m.tdNext k t none, tdList := Links.setTd m.tdList k x (some t) },
      by rw [Links.addTdToIsoEp]; simp only [hl], rfl, fun j y hy => ?_,
      fun j b hb _ => Links.setTd_of_ne fun h => hb h.2⟩
    show Path some (Links.setTd m.tdNext k t none j) (Links.setTd m.tdList k x (some t) j y) _ none
    by_cases hjy : j = k ∧ y = x
    · obtain ⟨rfl, rfl⟩ := hjy
      rw [Links.setTd_self, Links.setTd_self, hq]
      exact ⟨rfl, hnt⟩
    · rw [Links.setTd_of_ne hjy, Links.setTd_of_ne hjy]
      exact hs0.tds j y hy
  · rw [List.concat_eq_append] at hq
    have hlast : last ∈ v.tds k x := by rw [hq]; simp
    have hlr := hs.role_td hlast
    have hnd := hs.tds_nodup k x
    have hlen := hs.tds_lt k x
    rw [hq] at hp hnd hlen
    obtain ⟨q, hql⟩ : ∃ q, m.tdList k x = some q := by
      cases hl : m.tdList k x with
      | none =>
        have hp' : Path some (Links.setTd m.tdNext k t none k) (m.tdList k x) (l ++ [last]) none := hp
        rw [hl] at hp'
        cases l <;> cases hp'.1
      | some q => exact ⟨q, rfl⟩
    have hlt : l.length < walkFuel := by simp at hlen; omega
    have hw := lastFrom_eq hp hql hlt
    refine ⟨{ m with tdNext := Links.setTd (Links.setTd m.tdNext k t none) k last (some t) },
      ?_, rfl, fun j y hy => ?_, fun j b hb hm => ?_⟩
    · rw [Links.addTdToIsoEp]
      simp only [hql]
      show (lastFrom _ walkFuel q).bind _ = _
      rw [hw]
      rfl
    · show Path some (Links.setTd (Links.setTd m.tdNext k t none) k last (some t) j) (m.tdList j y)
        (Links.setTd v.tds k x (v.tds k x ++ [t]) j y) none
      by_cases hj : j = k
      · subst hj
        have hun : Links.setTd (Links.setTd m.tdNext j t none) j last (some t) j =
            Function.update (Links.setTd m.tdNext j t none j) last (some t) := by
          unfold Links.setTd; simp
        rw [hun]
        by_cases hy' : y = x
        · subst hy'
          rw [Links.setTd_self, hq, List.append_assoc]
          refine Path.snoc hp ?_ ?_ hnt
          · exact fun hm => (List.nodup_append.mp hnd).2.2 last hm last (by simp) rfl
          · rintro rfl; exact hoff.not_mem hs (.td j y) hlast
        · rw [Links.setTd_of_ne fun he => hy' he.2]
          refine (hs0.tds j y hy).update_of_not_mem fun hm => hy' ?_
          have hr := hs.role_td hm
          rw [hlr] at hr
          exact (Role.td.inj hr).2.symm
      · have hun : Links.setTd (Links.setTd m.tdNext k t none) k last (some t) j =
            Links.setTd m.tdNext k t none j := by
          unfold Links.setTd; rw [Function.update_of_ne hj, Function.update_of_ne hj]
        rw [hun, Links.setTd_of_ne fun he => hj he.1]
        exact hs0.tds j y hy
    · show Links.setTd (Links.setTd m.tdNext k t none) k last (some t) j b = _
      rw [Links.setTd_of_ne fun h => hm (by rw [h.2]; exact hlast),
        Links.setTd_of_ne fun h => hb h.2]

/-- A held descriptor goes to the end of its endpoint's list and to the front of its frame. -/
theorem putTd (hs : Shape m v) (ht : v.role t = .held k.hw) (hx : x ∈ v.isoEps) (interval : Nat) :
    ∃ m', m.linkTd k x t interval = some m' ∧ Shape m' (v.putTd k x t (m.nextFrame x)) ∧
      m' = { m with
        schedFrnidx := m'.schedFrnidx, tdNext := m'.tdNext, tdList := m'.tdList
        hLink := m'.hLink, pfList := m'.pfList, nextFrame := m'.nextFrame } ∧
      (∀ b, b ≠ t → m'.hLink b = m.hLink b) ∧
      ∀ j b, b ≠ t → b ∉ v.tds k x → m'.tdNext j b = m.tdNext j b := by
  have hoff : Off v t := .inr ⟨_, ht⟩
  have hlt := hs.nextLt x hx
  have hs1 := hs.off_schedFrnidx hoff k (m.nextFrame x)
  obtain ⟨m₂, he, hm₂, htds, hnext⟩ := hs1.addTd (t := t) ht hx
  have hu : m.pool.unit t = some k.hw := hs.unit_of_role ht rfl
  refine ⟨{ m₂ with
      hLink := Function.update m₂.hLink t (m₂.pfList (m.nextFrame x))
      pfList := Function.update m₂.pfList (m.nextFrame x) (k.link t)
      nextFrame := Function.update m₂.nextFrame x ((m.nextFrame x + interval) % flSize) },
    by rw [Links.linkTd]; simp only [he]; rfl, ?_, by rw [hm₂],
    fun b hb => by rw [hm₂]; exact Function.update_of_ne hb .., hnext⟩
  have hmemT : ∀ j y b, b ∈ Links.setTd v.tds k x (v.tds k x ++ [t]) j y ↔
      b ∈ v.tds j y ∨ (b = t ∧ j = k ∧ y = x) := by
    intro j y b
    by_cases hjy : j = k ∧ y = x
    · obtain ⟨rfl, rfl⟩ := hjy
      rw [Links.setTd_self]; simp
    · rw [Links.setTd_of_ne hjy]; simp [hjy]
  have hold : ∀ j y b, b ∈ v.tds j y → b ≠ t := fun j y b hb he =>
    hoff.not_mem hs (.td j y) (he ▸ hb)
  have hsched : ∀ j b, b ≠ t →
      Links.setTd m.schedFrnidx k t (m.nextFrame x) j b = m.schedFrnidx j b :=
    fun j b hb => Links.setTd_of_ne fun he => hb he.2
  rw [hm₂]
  refine { hs with
    toRoles := hs.roles_putTd ht hx _
    ring := hs.ring.update_of_not_mem (hoff.not_mem_ring hs)
    chain := hs.chain.update_of_not_mem (hoff.not_mem_chain hs)
    frame := fun idx hi => ?_, frameMem := fun idx hi b => ?_, schedLt := fun j y b hb => ?_
    orphanLt := fun b hb => ?_, nextLt := fun y hy => ?_, tds := htds }
  · show Path (tdLink m) (Function.update m.hLink t (m.pfList (m.nextFrame x)))
      (Function.update m.pfList (m.nextFrame x) (k.link t) idx)
      (Function.update v.frame (m.nextFrame x) (t :: v.frame (m.nextFrame x)) idx) _
    have hp := (hs.frame idx hi).update_of_not_mem
      (x := m.pfList (m.nextFrame x)) (hoff.not_mem_frame hs hi)
    by_cases hidx : idx = m.nextFrame x
    · rw [hidx] at hp ⊢
      rw [Function.update_self, Function.update_self]
      refine ⟨(tdLink_of_unit hu).symm, ?_⟩
      rw [Function.update_self]
      exact hp
    · rw [Function.update_of_ne hidx, Function.update_of_ne hidx]
      exact hp
  · show b ∈ Function.update v.frame (m.nextFrame x) (t :: v.frame (m.nextFrame x)) idx ↔
      (∃ j y, b ∈ Links.setTd v.tds k x (v.tds k x ++ [t]) j y ∧
        Links.setTd m.schedFrnidx k t (m.nextFrame x) j b = idx) ∨
        (b ∈ v.orphans ∧ Links.setTd m.schedFrnidx k t (m.nextFrame x) .sitd b = idx)
    have horp : b ∈ v.orphans → b ≠ t := fun hb he => hoff.not_mem hs .orphan (he ▸ hb)
    by_cases hbt : b = t
    · subst hbt
      constructor
      · intro hb
        by_cases hidx : idx = m.nextFrame x
        · exact .inl ⟨k, x, (hmemT k x b).mpr (.inr ⟨rfl, rfl, rfl⟩), (Links.setTd_self ..).trans hidx.symm⟩
        · rw [Function.update_of_ne hidx] at hb
          exact absurd hb (hoff.not_mem_frame hs hi)
      · rintro (⟨j, y, hb, he⟩ | ⟨hb, _⟩)
        · rcases (hmemT j y b).mp hb with hb | ⟨_, rfl, rfl⟩
          · exact absurd rfl (hold j y b hb)
          · rw [Links.setTd_self] at he
            rw [← he, Function.update_self]
            exact List.mem_cons_self
        · exact absurd rfl (horp hb)
    · have hframe : b ∈ Function.update v.frame (m.nextFrame x) (t :: v.frame (m.nextFrame x)) idx ↔
          b ∈ v.frame idx := by
        by_cases hidx : idx = m.nextFrame x
        · subst hidx; rw [Function.update_self]; simp [hbt]
        · rw [Function.update_of_ne hidx]
      rw [hframe, hs.frameMem idx hi b]
      simp only [hsched _ b hbt, hmemT, hbt, false_and, or_false]
  · show Links.setTd m.schedFrnidx k t (m.nextFrame x) j b < flSize
    rcases (hmemT j y b).mp hb with hb | ⟨rfl, rfl, rfl⟩
    · rw [hsched j b (hold j y b hb)]; exact hs.schedLt j y b hb
    · rw [Links.setTd_self]; exact hlt
  · show Links.setTd m.schedFrnidx k t (m.nextFrame x) .sitd b < flSize
    rw [hsched .sitd b fun he => hoff.not_mem hs .orphan (he ▸ hb)]
    exact hs.orphanLt b hb
  · show Function.update m.nextFrame x ((m.nextFrame x + interval) % flSize) y < flSize
    by_cases hyx : y = x
    · subst hyx; rw [Function.update_self]; exact Nat.mod_lt _ (by decide)
    · rw [Function.update_of_ne hyx]; exact hs.nextLt y hy

/-! ## Unlinking -/

theorem mem_frame_of_td (hs : Shape m v) (ht : t ∈ v.tds k x) :
    t ∈ v.frame (m.schedFrnidx k t) :=
  (hs.frameMem _ (hs.schedLt k x t ht) t).mpr (.inl ⟨k, x, ht, rfl⟩)

theorem not_mem_ring_of_frame (hs : Shape m v) {idx : Nat} (hi : idx < flSize) {b : Addr}
    (hb : b ∈ v.frame idx) : b ∉ m.hQh :: v.ring :=
  fun hm => hs.not_mem_frame_of_ring hi hm hb

theorem not_mem_chain_of_frame (hs : Shape m v) {idx : Nat} (hi : idx < flSize) {b : Addr}
    (hb : b ∈ v.frame idx) : b ∉ chainFrom m.iqh v.under numIqh :=
  fun hm => hs.not_mem_frame_of_chain hi hm hb

theorem not_mem_frame_of_ne (hs : Shape m v) {i j : Nat} (hi : i < flSize) (hj : j < flSize)
    {b : Addr} (hb : b ∈ v.frame i) (hij : j ≠ i) : b ∉ v.frame j := by
  intro hb'
  have hsch : ∀ idx < flSize, b ∈ v.frame idx →
      (∃ j y, v.role b = .td j y ∧ m.schedFrnidx j b = idx) ∨
        (v.role b = .orphan ∧ m.schedFrnidx .sitd b = idx) := by
    intro idx hidx hm
    rcases (hs.frameMem idx hidx b).mp hm with ⟨j, y, hb, he⟩ | ⟨hb, he⟩
    · exact .inl ⟨j, y, hs.role_td hb, he⟩
    · exact .inr ⟨hs.role_orphan hb, he⟩
  rcases hsch i hi hb with ⟨a, y, hr, he⟩ | ⟨hr, he⟩ <;>
    rcases hsch j hj hb' with ⟨a', y', hr', he'⟩ | ⟨hr', he'⟩ <;> rw [hr] at hr' <;>
    first
    | cases hr'; exact hij (he'.symm.trans he)
    | cases hr'

/-- The chain of a frame without one of its descriptors. -/
theorem cutFrame (hs : Shape m v) (ht : t ∈ v.tds k x) :
    ∃ m', m.unlinkFromFrame k t = some m' ∧ m' = { m with hLink := m'.hLink, pfList := m'.pfList } ∧
      Path Link.qh m'.hLink (.qh m.hQh) (m.hQh :: v.ring) (.qh m.hQh) ∧
      Path Link.qh m'.hLink (.qh (m.iqh (numIqh - 1))) (chainFrom m.iqh v.under numIqh) .terminate ∧
      (∀ idx < flSize, Path (tdLink m) m'.hLink (m'.pfList idx)
        (Function.update v.frame (m.schedFrnidx k t) ((v.frame (m.schedFrnidx k t)).erase t) idx)
        (.qh (m.iqh (level idx)))) ∧
      ∀ b, b ∉ v.frame (m.schedFrnidx k t) → m'.hLink b = m.hLink b := by
  have hi := hs.schedLt k x t ht
  have hm := hs.mem_frame_of_td ht
  have hu : m.pool.unit t = some k.hw := hs.unit_of_role (hs.role_td ht) rfl
  have hw : tdLink m t = k.link t := tdLink_of_unit hu
  have hnd := hs.frame_nodup hi
  generalize hidx : m.schedFrnidx k t = idx at hi hm hnd
  have hp := hs.frame idx hi
  cases hf : v.frame idx with
  | nil => rw [hf] at hm; cases hm
  | cons first rest =>
    by_cases hft : first = t
    · subst hft
      rw [hf] at hp
      have hpf : m.pfList idx = k.link first := hp.1.trans hw
      refine ⟨{ m with pfList := Function.update m.pfList idx (m.hLink first) }, ?_, rfl,
        hs.ring, hs.chain, fun i hi' => ?_, fun _ _ => rfl⟩
      · rw [Links.unlinkFromFrame]; simp only [hidx]; rw [if_pos hpf]
      · show Path _ m.hLink (Function.update m.pfList idx (m.hLink first) i) _ _
        by_cases hii : i = idx
        · subst hii
          rw [Function.update_self, Function.update_self]
          exact hp.erase_head
        · rw [Function.update_of_ne hii, Function.update_of_ne hii]
          exact hs.frame i hi'
    · have hrest : t ∈ rest := by
        rw [hf] at hm
        rcases List.mem_cons.mp hm with he | hm
        · exact absurd he.symm hft
        · exact hm
      obtain ⟨l₁, p, l₂, hl⟩ := exists_pred (a := first) hrest
      have hpf : m.pfList idx ≠ k.link t := by
        intro he
        have h1 : m.pfList idx = tdLink m first := by rw [hf] at hp; exact hp.1
        rw [← hw, h1] at he
        exact hft (tdLink_injective m he)
      have hptr : (m.pfList idx).ptr = some first := by
        have h1 : m.pfList idx = tdLink m first := by rw [hf] at hp; exact hp.1
        rw [h1, tdLink_ptr]
      have hfl : v.frame idx = l₁ ++ p :: t :: l₂ := hf.trans hl
      have hpm : p ∈ v.frame idx := by rw [hfl]; simp
      have hwalk : predFrom (fun a => (m.hLink a).ptr) (fun _ => false) t walkFuel first =
          some (some p) := by
        have hq := hp.map Link.ptr
        simp only [tdLink_ptr] at hq
        rw [hfl] at hq hnd
        have hsplit : l₁ ++ p :: t :: l₂ = (l₁ ++ [p]) ++ t :: l₂ := by simp
        rw [hsplit] at hq hnd
        have hlen := hs.frame_lt hi
        rw [hfl] at hlen
        refine predFrom_found hq.start_eq.1 hptr rfl (fun hx => ?_) (fun _ _ => rfl)
          (by simp at hlen; omega)
        have hx' := List.mem_of_mem_tail hx
        exact (List.nodup_append.mp hnd).2.2 t hx' t (by simp) rfl
      refine ⟨{ m with hLink := Function.update m.hLink p (m.hLink t) }, ?_, rfl, ?_, ?_, ?_, ?_⟩
      · rw [Links.unlinkFromFrame]; simp only [hidx]
        rw [if_neg hpf, hptr]
        show (predFrom _ _ t walkFuel first).bind _ = _
        rw [hwalk]
        rfl
      · exact hs.ring.update_of_not_mem (hs.not_mem_ring_of_frame hi hpm)
      · exact hs.chain.update_of_not_mem (hs.not_mem_chain_of_frame hi hpm)
      · intro i hi'
        show Path _ (Function.update m.hLink p (m.hLink t)) (m.pfList i) _ _
        by_cases hii : i = idx
        · subst hii
          rw [Function.update_self]
          rw [← hf]
          exact hp.erase_after hnd hfl
        · rw [Function.update_of_ne hii]
          exact (hs.frame i hi').update_of_not_mem (hs.not_mem_frame_of_ne hi hi' hpm hii)
      · intro b hb
        exact Function.update_of_ne (fun he => hb (by rw [he, ← hf]; exact hpm)) ..

theorem roles_takeTd (hs : Shape m v) (ht : t ∈ v.tds k x) (idx : Nat) :
    Roles m.pool.unit m.hQh m.ghostQtd m.iqh (v.takeTd k x t idx) := by
  refine hs.toRoles.take (r := .td k x) (hs.role_td ht) rfl rfl rfl
    (fun r' hr => td_of_ne rfl ?_ hr) (fun y => ?_) rfl
  · intro r hr; cases r <;> first | rfl | exact absurd rfl (hr _ _)
  · show y ∈ Links.setTd v.tds k x ((v.tds k x).erase t) k x ↔ _
    rw [Links.setTd_self]
    exact (hs.tds_nodup k x).mem_erase_iff

/-- A descriptor leaves its frame and its endpoint's list. -/
theorem takeTd (hs : Shape m v) (ht : t ∈ v.tds k x) {l₁ l₂ : List Addr}
    (hl : v.tds k x = l₁ ++ t :: l₂) :
    ∃ m', m.unlinkFromFrame k t = some m' ∧
      m' = { m with hLink := m'.hLink, pfList := m'.pfList } ∧
      Shape (unlinkFromIsoEp k x t l₁.getLast? m') (v.takeTd k x t (m.schedFrnidx k t)) ∧
      ∀ b, (∀ j y, v.role b ≠ .td j y) → v.role b ≠ .orphan → m'.hLink b = m.hLink b := by
  have hi := hs.schedLt k x t ht
  have hx := hs.tdEp k x t ht
  have htr := hs.role_td ht
  obtain ⟨m', he, hm', hring, hchain, hframe, hrest⟩ := hs.cutFrame ht
  have hnd := hs.tds_nodup k x
  refine ⟨m', he, hm', ?_, fun b hb hb' => hrest b fun hm => ?_⟩
  · have hsub : ∀ j y b, b ∈ Links.setTd v.tds k x ((v.tds k x).erase t) j y → b ∈ v.tds j y := by
      intro j y b hb
      by_cases hjy : j = k ∧ y = x
      · obtain ⟨rfl, rfl⟩ := hjy; rw [Links.setTd_self] at hb; exact List.mem_of_mem_erase hb
      · rwa [Links.setTd_of_ne hjy] at hb
    have hmemT : ∀ j y b, b ∈ Links.setTd v.tds k x ((v.tds k x).erase t) j y ↔
        b ∈ v.tds j y ∧ b ≠ t := by
      intro j y b
      by_cases hjy : j = k ∧ y = x
      · obtain ⟨rfl, rfl⟩ := hjy
        rw [Links.setTd_self, hnd.mem_erase_iff]
        exact and_comm
      · rw [Links.setTd_of_ne hjy]
        refine ⟨fun hb => ⟨hb, fun hbt => hjy ?_⟩, fun hb => hb.1⟩
        have hr := hs.role_td hb
        rw [hbt, htr] at hr
        obtain ⟨h1, h2⟩ := Role.td.inj hr
        exact ⟨h1.symm, h2.symm⟩
    have horp : ∀ b, b ∈ v.orphans → b ≠ t := by
      intro b hb hbt
      have hr := hs.role_orphan hb
      rw [hbt, htr] at hr
      cases hr
    have hframeMem : ∀ idx < flSize, ∀ b,
        b ∈ Function.update v.frame (m.schedFrnidx k t) ((v.frame (m.schedFrnidx k t)).erase t) idx ↔
        (∃ j y, b ∈ Links.setTd v.tds k x ((v.tds k x).erase t) j y ∧ m.schedFrnidx j b = idx) ∨
          (b ∈ v.orphans ∧ m.schedFrnidx .sitd b = idx) := by
      intro idx hidx b
      have hfr : b ∈ Function.update v.frame (m.schedFrnidx k t)
          ((v.frame (m.schedFrnidx k t)).erase t) idx ↔ b ∈ v.frame idx ∧ b ≠ t := by
        by_cases hii : idx = m.schedFrnidx k t
        · subst hii
          rw [Function.update_self, (hs.frame_nodup hi).mem_erase_iff]
          exact and_comm
        · rw [Function.update_of_ne hii]
          refine ⟨fun hb => ⟨hb, fun hbt => ?_⟩, fun hb => hb.1⟩
          exact hs.not_mem_frame_of_ne hi hidx (hs.mem_frame_of_td ht) hii (hbt ▸ hb)
      rw [hfr, hs.frameMem idx hidx b]
      constructor
      · rintro ⟨⟨j, y, hb, he⟩ | ⟨hb, he⟩, hbt⟩
        · exact .inl ⟨j, y, (hmemT j y b).mpr ⟨hb, hbt⟩, he⟩
        · exact .inr ⟨hb, he⟩
      · rintro (⟨j, y, hb, he⟩ | ⟨hb, he⟩)
        · exact ⟨.inl ⟨j, y, hsub j y b hb, he⟩, ((hmemT j y b).mp hb).2⟩
        · exact ⟨.inr ⟨hb, he⟩, horp b hb⟩
    rw [hm']
    rcases List.eq_nil_or_concat l₁ with rfl | ⟨l₁, p, rfl⟩
    · refine { hs with
        toRoles := hs.roles_takeTd ht _
        ring := hring, chain := hchain, frame := hframe, frameMem := hframeMem
        schedLt := fun j y b hb => hs.schedLt j y b (hsub j y b hb)
        tds := fun j y hy => ?_ }
      show Path some (m.tdNext j) (Links.setTd m.tdList k x (m.tdNext k t) j y)
        (Links.setTd v.tds k x ((v.tds k x).erase t) j y) none
      have hp := hs.tds j y hy
      by_cases hjy : j = k ∧ y = x
      · obtain ⟨rfl, rfl⟩ := hjy
        rw [Links.setTd_self, Links.setTd_self, hl]
        rw [hl] at hp
        exact hp.erase_head
      · rw [Links.setTd_of_ne hjy, Links.setTd_of_ne hjy]
        exact hp
    · rw [List.concat_eq_append] at hl ⊢
      have hlast : (l₁ ++ [p]).getLast? = some p := by simp
      rw [hlast]
      have hl' : v.tds k x = l₁ ++ p :: t :: l₂ := by rw [hl]; simp
      have hpm : p ∈ v.tds k x := by rw [hl']; simp
      have hpr := hs.role_td hpm
      refine { hs with
        toRoles := hs.roles_takeTd ht _
        ring := hring, chain := hchain, frame := hframe, frameMem := hframeMem
        schedLt := fun j y b hb => hs.schedLt j y b (hsub j y b hb)
        tds := fun j y hy => ?_ }
      show Path some (Links.setTd m.tdNext k p (m.tdNext k t) j) (m.tdList j y)
        (Links.setTd v.tds k x ((v.tds k x).erase t) j y) none
      have hpath := hs.tds j y hy
      by_cases hj : j = k
      · subst hj
        have hun : Links.setTd m.tdNext j p (m.tdNext j t) j =
            Function.update (m.tdNext j) p (m.tdNext j t) := by unfold Links.setTd; simp
        rw [hun]
        by_cases hyx : y = x
        · subst hyx
          rw [Links.setTd_self]
          exact hpath.erase_after hnd hl'
        · rw [Links.setTd_of_ne fun he => hyx he.2]
          refine hpath.update_of_not_mem fun hm => hyx ?_
          have hr := hs.role_td hm
          rw [hpr] at hr
          exact (Role.td.inj hr).2.symm
      · have hun : Links.setTd m.tdNext k p (m.tdNext k t) j = m.tdNext j := by
          unfold Links.setTd; rw [Function.update_of_ne hj]
        rw [hun, Links.setTd_of_ne fun he => hj he.1]
        exact hpath
  · rcases hs.role_frame hi hm with ⟨j, y, hr⟩ | hr
    · exact hb j y hr
    · exact hb' hr

/-! ## The endpoints -/

theorem tds_eq_nil (hs : Shape m v) (hx : x ∉ v.isoEps) : v.tds k x = [] :=
  List.eq_nil_iff_forall_not_mem.mpr fun a ha => hx (hs.tdEp k x a ha)

/-- A fresh endpoint goes to the head of `iso_ep_list`. -/
theorem consIso (hs : Shape m v) {n : Nat} (e : EpId) (p : EpId → HwPipe) {d : DmaPool}
    (hx : m.dma.used x = false) (hlt : x < dmaMemUnitNum) (hn : n < flSize)
    (hd : d.used = Function.update m.dma.used x true) :
    Shape { m with
      dma := d
      tdList := Links.setTd (Links.setTd m.tdList .itd x none) .sitd x none
      isoEpEp := Function.update m.isoEpEp x e
      nextFrame := Function.update m.nextFrame x n
      hwPipe := p
      isoEpNext := Function.update m.isoEpNext x m.isoEpList
      isoEpList := some x } (v.consIso x) := by
  have hxm : x ∉ v.isoEps := fun hm => by
    have hu := (hs.isoDma x hm).2
    rw [hx] at hu
    cases hu
  refine { hs with
    toRoles := { hs.toRoles with tdEp := fun j y a ha => List.mem_cons_of_mem _ (hs.tdEp j y a ha) }
    isoEps := ?_, isoDma := fun y hy => ?_, nextLt := fun y hy => ?_, tds := fun j y hy => ?_ }
  · refine ⟨rfl, ?_⟩
    show Path some (Function.update m.isoEpNext x m.isoEpList)
      (Function.update m.isoEpNext x m.isoEpList x) v.isoEps none
    rw [Function.update_self]
    exact hs.isoEps.update_of_not_mem hxm
  · show y < dmaMemUnitNum ∧ d.used y = true
    rw [hd]
    by_cases hyx : y = x
    · subst hyx; exact ⟨hlt, Function.update_self ..⟩
    · rw [Function.update_of_ne hyx]
      exact hs.isoDma y (List.mem_of_ne_of_mem hyx hy)
  · show Function.update m.nextFrame x n y < flSize
    by_cases hyx : y = x
    · subst hyx; rw [Function.update_self]; exact hn
    · rw [Function.update_of_ne hyx]; exact hs.nextLt y (List.mem_of_ne_of_mem hyx hy)
  · show Path some (m.tdNext j) (Links.setTd (Links.setTd m.tdList .itd x none) .sitd x none j y)
      (v.tds j y) none
    by_cases hyx : y = x
    · subst hyx
      rw [hs.tds_eq_nil hxm]
      cases j <;> simp [Links.setTd_apply]
    · rw [Links.setTd_of_ne fun he => hyx he.2, Links.setTd_of_ne fun he => hyx he.2]
      exact hs.tds j y (List.mem_of_ne_of_mem hyx hy)

/-- `next_frame` may be set anew. -/
theorem setNextFrame (hs : Shape m v) {n : Nat} (hn : n < flSize) :
    Shape { m with nextFrame := Function.update m.nextFrame x n } v := by
  refine { hs with nextLt := fun y hy => ?_ }
  show Function.update m.nextFrame x n y < flSize
  by_cases hyx : y = x
  · subst hyx; rw [Function.update_self]; exact hn
  · rw [Function.update_of_ne hyx]; exact hs.nextLt y hy

theorem roles_dropIso (hs : Shape m v) (hi : v.tds .itd x = []) :
    Roles m.pool.unit m.hQh m.ghostQtd m.iqh (v.dropIso x) := by
  have hrole : ∀ a, (v.dropIso x).role a = if v.role a = .td .sitd x then .orphan else v.role a :=
    fun _ => rfl
  have hspecial : ∀ r, r ≠ .orphan → r ≠ .td .sitd x → ∀ a, (v.dropIso x).role a = r ↔ v.role a = r := by
    intro r hr hr' a
    rw [hrole]
    split
    · rename_i ha
      rw [ha]
      exact ⟨fun he => absurd he.symm hr, fun he => absurd he.symm hr'⟩
    · rfl
  have htd : ∀ j y a, a ∈ (v.dropIso x).tds j y → a ∈ v.tds j y ∧ ¬ (j = .sitd ∧ y = x) := by
    intro j y a ha
    by_cases hjy : j = .sitd ∧ y = x
    · have ha' : a ∈ Links.setTd v.tds .sitd x [] j y := ha
      obtain ⟨rfl, rfl⟩ := hjy
      rw [Links.setTd_self] at ha'
      cases ha'
    · have ha' : a ∈ Links.setTd v.tds .sitd x [] j y := ha
      rw [Links.setTd_of_ne hjy] at ha'
      exact ⟨ha', hjy⟩
  constructor
  · intro a ha
    rw [hrole] at ha ⊢
    by_cases htr : v.role a = .td .sitd x
    · rw [if_pos htr]
      have hu := hs.used a (by rw [htr]; exact Role.noConfusion)
      rw [htr] at hu
      exact hu
    · rw [if_neg htr] at ha ⊢
      exact hs.used a ha
  · exact fun a ha => hs.unused a ((hspecial .free Role.noConfusion Role.noConfusion a).mp ha)
  · intro r a hr
    by_cases hor : r = .orphan
    · subst hor
      show a ∈ v.orphans ++ v.tds .sitd x ↔ _
      have h1 : a ∈ v.orphans ↔ v.role a = .orphan := hs.mem .orphan a rfl
      have h2 : a ∈ v.tds .sitd x ↔ v.role a = .td .sitd x := hs.mem (.td .sitd x) a rfl
      rw [List.mem_append, hrole, h1, h2]
      split
      · rename_i htr; simp [htr]
      · rename_i htr; simp [htr]
    · by_cases htr : r = .td .sitd x
      · subst htr
        show a ∈ Links.setTd v.tds .sitd x [] .sitd x ↔ _
        rw [Links.setTd_self, hrole]
        split
        · simp
        · rename_i hne; simp [hne]
      · rw [hspecial r hor htr a, ← hs.mem r a hr]
        cases r with
        | td j y =>
          show a ∈ Links.setTd v.tds .sitd x [] j y ↔ a ∈ v.tds j y
          rw [Links.setTd_of_ne fun he => htr (by rw [he.1, he.2])]
        | orphan => exact absurd rfl hor
        | _ => exact Iff.rfl
  · exact fun a => (hspecial .head Role.noConfusion Role.noConfusion a).trans (hs.head a)
  · exact fun a => (hspecial .ghost Role.noConfusion Role.noConfusion a).trans (hs.ghost a)
  · exact fun i a => (hspecial (.iqh i) Role.noConfusion Role.noConfusion a).trans (hs.iqhRole i a)
  · exact hs.intrLt
  · exact hs.queuedQh
  · exact hs.doneQh
  · intro j y a ha
    obtain ⟨ha, hne⟩ := htd j y a ha
    have hy := hs.tdEp j y a ha
    refine (List.mem_erase_of_ne fun he => ?_).mpr hy
    cases j with
    | itd => rw [he, hi] at ha; cases ha
    | sitd => exact hne ⟨rfl, he⟩

/-- An endpoint without iTDs leaves `iso_ep_list`. -/
theorem dropIso (hs : Shape m v) (hx : x ∈ v.isoEps) (hi : v.tds .itd x = []) {d : DmaPool}
    (p : EpId → HwPipe) (hd : ∀ y, y ≠ x → d.used y = m.dma.used y)
    {f : IsoKind → IsoId → Ptr} (hf : ∀ j y, y ≠ x → f j y = m.tdList j y) :
    ∃ m', m.removeIsoEpFromList x = some m' ∧
      m' = { m with isoEpList := m'.isoEpList, isoEpNext := m'.isoEpNext } ∧
      (m'.isoEpList = none ↔ v.isoEps.erase x = []) ∧
      Shape { m' with dma := d, hwPipe := p, tdList := f } (v.dropIso x) := by
  have hnd := hs.isoEps_nodup
  have hp := hs.isoEps
  obtain ⟨m', he, hm', hpath⟩ : ∃ m', m.removeIsoEpFromList x = some m' ∧
      m' = { m with isoEpList := m'.isoEpList, isoEpNext := m'.isoEpNext } ∧
      Path some m'.isoEpNext m'.isoEpList (v.isoEps.erase x) none := by
    cases hv : v.isoEps with
    | nil => rw [hv] at hx; cases hx
    | cons y l =>
      rw [hv] at hp
      by_cases hyx : y = x
      · subst hyx
        refine ⟨{ m with isoEpList := m.isoEpNext y }, ?_, rfl, hp.erase_head⟩
        rw [Links.removeIsoEpFromList, if_pos hp.1]
      · have hxl : x ∈ l := by
          rw [hv] at hx
          exact List.mem_of_ne_of_mem (Ne.symm hyx) hx
        obtain ⟨l₁, q, l₂, hl⟩ := exists_pred (a := y) hxl
        refine ⟨{ m with isoEpNext := Function.update m.isoEpNext q (m.isoEpNext x) }, ?_, rfl, ?_⟩
        · have hne : m.isoEpList ≠ some x := by
            rw [hp.1]; exact fun he => hyx (Option.some.inj he)
          rw [Links.removeIsoEpFromList, if_neg hne, hp.1]
          have hlen := hs.isoEps_lt
          have hsplit : l₁ ++ q :: x :: l₂ = (l₁ ++ [q]) ++ x :: l₂ := by simp
          have hpl := hp
          rw [hl, hsplit] at hpl
          rw [hv, hl] at hlen
          have hnd' : ((l₁ ++ [q]) ++ x :: l₂).Nodup := by rw [← hsplit, ← hl, ← hv]; exact hnd
          have hw : predFrom m.isoEpNext (fun p => (m.isoEpNext p).isNone) x walkFuel y =
              some (some q) := by
            refine predFrom_found hpl.start_eq.1 hp.1 rfl (fun hxt => ?_) (fun c hc => ?_)
              (by simp at hlen; omega)
            · exact (List.nodup_append.mp hnd').2.2 x (List.mem_of_mem_tail hxt) x (by simp) rfl
            · obtain ⟨s, r, hsr⟩ := List.append_of_mem hc
              have hpc := hpl
              rw [hsr, List.append_assoc] at hpc
              have hnext := hpc.start_eq.2
              cases r with
              | nil => have := hnext.1; simp [this]
              | cons d r => have := hnext.1; simp [this]
          show (predFrom m.isoEpNext _ x walkFuel y).bind _ = _
          rw [hw]
          rfl
        · rw [← hv]
          have hp' := hs.isoEps
          exact hp'.erase_after hnd (hv.trans hl)
  refine ⟨m', he, hm', ?_, ?_⟩
  · constructor
    · intro hnone
      rw [hnone] at hpath
      cases hl : v.isoEps.erase x with
      | nil => rfl
      | cons b l => rw [hl] at hpath; cases hpath.1
    · intro hnil
      rw [hnil] at hpath
      exact hpath
  · have hmem : ∀ y, y ∈ v.isoEps.erase x → y ∈ v.isoEps ∧ y ≠ x := fun y hy =>
      ⟨List.mem_of_mem_erase hy, (hnd.mem_erase_iff.mp hy).1⟩
    rw [hm']
    refine { hs with
      toRoles := hs.roles_dropIso hi
      frameMem := fun idx hidx b => ?_, schedLt := fun j y b hb => ?_
      orphanLt := fun b hb => ?_, isoEps := hpath, isoDma := fun y hy => ?_
      nextLt := fun y hy => hs.nextLt y (hmem y hy).1, tds := fun j y hy => ?_ }
    · show b ∈ v.frame idx ↔
        (∃ j y, b ∈ Links.setTd v.tds .sitd x [] j y ∧ m.schedFrnidx j b = idx) ∨
          (b ∈ v.orphans ++ v.tds .sitd x ∧ m.schedFrnidx .sitd b = idx)
      rw [hs.frameMem idx hidx b]
      constructor
      · rintro (⟨j, y, hb, hsc⟩ | ⟨hb, hsc⟩)
        · by_cases hjy : j = .sitd ∧ y = x
          · obtain ⟨rfl, rfl⟩ := hjy
            exact .inr ⟨List.mem_append_right _ hb, hsc⟩
          · exact .inl ⟨j, y, by rw [Links.setTd_of_ne hjy]; exact hb, hsc⟩
        · exact .inr ⟨List.mem_append_left _ hb, hsc⟩
      · rintro (⟨j, y, hb, hsc⟩ | ⟨hb, hsc⟩)
        · by_cases hjy : j = .sitd ∧ y = x
          · obtain ⟨rfl, rfl⟩ := hjy
            rw [Links.setTd_self] at hb
            cases hb
          · rw [Links.setTd_of_ne hjy] at hb
            exact .inl ⟨j, y, hb, hsc⟩
        · rcases List.mem_append.mp hb with hb | hb
          · exact .inr ⟨hb, hsc⟩
          · exact .inl ⟨.sitd, x, hb, hsc⟩
    · have hb' : b ∈ Links.setTd v.tds .sitd x [] j y := hb
      by_cases hjy : j = .sitd ∧ y = x
      · obtain ⟨rfl, rfl⟩ := hjy
        rw [Links.setTd_self] at hb'
        cases hb'
      · rw [Links.setTd_of_ne hjy] at hb'
        exact hs.schedLt j y b hb'
    · rcases List.mem_append.mp hb with hb | hb
      · exact hs.orphanLt b hb
      · exact hs.schedLt .sitd x b hb
    · obtain ⟨hy, hyx⟩ := hmem y hy
      exact ⟨(hs.isoDma y hy).1, (hd y hyx).trans (hs.isoDma y hy).2⟩
    · obtain ⟨hy, hyx⟩ := hmem y hy
      show Path some (m.tdNext j) (f j y) (Links.setTd v.tds .sitd x [] j y) none
      rw [hf j y hyx, Links.setTd_of_ne fun he => hyx he.2]
      exact hs.tds j y hy

end Shape

end Ma35d1.UsbHost.Ehci
