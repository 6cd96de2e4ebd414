import Ma35d1.UsbHost.Ehci.Shape

/-!
# What one edit of a list does to the shape

One lemma for every way the driver edits its lists: allocation and free, putting a
held unit onto a list, and taking one off. The functions of the driver are
sequences of these.
-/

namespace Ma35d1.UsbHost.Ehci

open Heap.LinkedPath Heap.IntervalTree

variable {m m' : Links} {v : View} {a b h q : Addr} {k : HwKind}

theorem Link.qh_injective : Function.Injective Link.qh := fun _ _ => Link.qh.inj

theorem tdLink_injective (m : Links) : Function.Injective (tdLink m) := by
  intro a b hab
  unfold tdLink at hab
  split at hab <;> split at hab <;> simp_all

theorem tdLink_ptr (m : Links) (a : Addr) : (tdLink m a).ptr = some a := by
  unfold tdLink; split <;> rfl

theorem tdLink_of_unit {i : IsoKind} (hu : m.pool.unit a = some i.hw) : tdLink m a = i.link a := by
  unfold tdLink
  rw [hu]
  cases i <;> rfl

/-! ## Levels of the frame list -/

theorem le_level_iff {i idx : Nat} (hi : i < numIqh) : i ≤ level idx ↔ 2 ^ i ∣ idx + 1 :=
  le_levelFrom_iff (Nat.le_pred_of_lt hi)

theorem level_lt (idx : Nat) : level idx < numIqh :=
  Nat.lt_of_le_of_lt (levelFrom_le _ idx) (by decide)

/-! ## Allocation -/

theorem allocEhciQh_some (he : m.allocEhciQh = some (a, m')) :
    a < hwMemUnitNum ∧ m.pool.unit a = none ∧
      m' = { m with
        pool := { m.pool.take .qh a with sidx := a }
        hLink := Function.update m.hLink a .null
        qtdList := Function.update m.qtdList a none
        doneList := Function.update m.doneList a none
        qhNext := Function.update m.qhNext a none } := by
  unfold Links.allocEhciQh at he
  rw [Option.map_eq_some_iff] at he
  obtain ⟨⟨b, p⟩, hp, he⟩ := he
  obtain ⟨rfl, rfl⟩ := Prod.mk.inj he
  obtain ⟨hlt, hu, rfl⟩ := HwPool.allocEhci_some hp
  exact ⟨hlt, hu, rfl⟩

theorem allocEhciQtd_some (he : m.allocEhciQtd = some (a, m')) :
    a < hwMemUnitNum ∧ m.pool.unit a = none ∧
      m' = { m with
        pool := { m.pool.take .qtd a with sidx := a }
        qtdNext := Function.update m.qtdNext a none } := by
  unfold Links.allocEhciQtd at he
  rw [Option.map_eq_some_iff] at he
  obtain ⟨⟨b, p⟩, hp, he⟩ := he
  obtain ⟨rfl, rfl⟩ := Prod.mk.inj he
  obtain ⟨hlt, hu, rfl⟩ := HwPool.allocEhci_some hp
  exact ⟨hlt, hu, rfl⟩

theorem allocEhciTd_some {i : IsoKind} (he : m.allocEhciTd i = some (a, m')) :
    a < hwMemUnitNum ∧ m.pool.unit a = none ∧
      m' = { m with
        pool := { m.pool.take i.hw a with sidx := a }
        hLink := Function.update m.hLink a .null
        tdNext := Links.setTd m.tdNext i a none
        schedFrnidx := Links.setTd m.schedFrnidx i a 0 } := by
  unfold Links.allocEhciTd at he
  rw [Option.map_eq_some_iff] at he
  obtain ⟨⟨b, p⟩, hp, he⟩ := he
  obtain ⟨rfl, rfl⟩ := Prod.mk.inj he
  obtain ⟨hlt, hu, rfl⟩ := HwPool.allocEhci_some hp
  exact ⟨hlt, hu, rfl⟩

/-! ## Where a unit can lie -/

/-- `a` is on no list and is no root. -/
def Off (v : View) (a : Addr) : Prop := v.role a = .free ∨ ∃ k, v.role a = .held k

theorem Off.unlisted (ha : Off v a) : (v.role a).listed = false := by
  rcases ha with he | ⟨k, he⟩ <;> rw [he] <;> rfl

theorem Off.not_mem (hs : Shape m v) (ha : Off v a) (r : Role) : a ∉ v.list r :=
  hs.toRoles.not_mem ha.unlisted r

theorem Off.ne_head (hs : Shape m v) (ha : Off v a) : a ≠ m.hQh := by
  intro he
  have hh := (hs.head a).mpr he
  rcases ha with ha | ⟨k, ha⟩ <;> rw [ha] at hh <;> cases hh

theorem Off.ne_iqh (hs : Shape m v) (ha : Off v a) {i : Nat} (hi : i < numIqh) : a ≠ m.iqh i := by
  intro he
  have hh := (hs.iqhRole i a).mpr ⟨hi, he⟩
  rcases ha with ha | ⟨k, ha⟩ <;> rw [ha] at hh <;> cases hh

theorem Off.not_mem_ring (hs : Shape m v) (ha : Off v a) : a ∉ m.hQh :: v.ring := by
  intro hm
  rcases List.mem_cons.mp hm with he | hm
  · exact ha.ne_head hs he
  · exact ha.not_mem hs .async hm

theorem Off.not_mem_chain (hs : Shape m v) (ha : Off v a) :
    a ∉ chainFrom m.iqh v.under numIqh := by
  rw [mem_chainFrom]
  rintro ⟨i, hi, he | hm⟩
  · exact ha.ne_iqh hs hi he
  · exact ha.not_mem hs (.intr i) hm

theorem Off.not_mem_frame (hs : Shape m v) (ha : Off v a) {idx : Nat} (hi : idx < flSize) :
    a ∉ v.frame idx := by
  rw [hs.frameMem idx hi]
  rintro (⟨k, x, hm, _⟩ | ⟨hm, _⟩)
  · exact ha.not_mem hs (.td k x) hm
  · exact ha.not_mem hs .orphan hm

namespace Shape

theorem role_td (hs : Shape m v) {i : IsoKind} {x : IsoId} (ha : a ∈ v.tds i x) :
    v.role a = .td i x := (hs.mem (.td i x) a rfl).mp ha

theorem role_orphan (hs : Shape m v) (ha : a ∈ v.orphans) : v.role a = .orphan :=
  (hs.mem .orphan a rfl).mp ha

theorem role_async (hs : Shape m v) (ha : a ∈ v.ring) : v.role a = .async :=
  (hs.mem .async a rfl).mp ha

theorem role_intr (hs : Shape m v) {i : Nat} (ha : a ∈ v.under i) : v.role a = .intr i :=
  (hs.mem (.intr i) a rfl).mp ha

theorem role_removed (hs : Shape m v) (ha : a ∈ v.removed) : v.role a = .removed :=
  (hs.mem .removed a rfl).mp ha

theorem role_queued (hs : Shape m v) (ha : a ∈ v.queued h) : v.role a = .queued h :=
  (hs.mem (.queued h) a rfl).mp ha

theorem role_done (hs : Shape m v) (ha : a ∈ v.done h) : v.role a = .done h :=
  (hs.mem (.done h) a rfl).mp ha

theorem role_iqh (hs : Shape m v) {i : Nat} (hi : i < numIqh) : v.role (m.iqh i) = .iqh i :=
  (hs.iqhRole i _).mpr ⟨hi, rfl⟩

theorem role_head (hs : Shape m v) : v.role m.hQh = .head := (hs.head _).mpr rfl

theorem unit_of_role (hs : Shape m v) {r : Role} (ha : v.role a = r) (hr : r.kind = some k) :
    m.pool.unit a = some k := by
  have hu := (hs.used a (by rw [ha]; rintro rfl; cases hr)).2
  rw [ha, hr] at hu
  exact hu

theorem used_unit (hs : Shape m v) (ha : v.role a ≠ .free) : ∃ k, m.pool.unit a = some k := by
  have hu := (hs.used a ha).2
  cases hr : v.role a <;> rw [hr] at hu ha <;> first | exact absurd rfl ha | exact ⟨_, hu⟩

/-- A unit of a frame is an iTD or siTD. -/
theorem role_frame (hs : Shape m v) {idx : Nat} (hi : idx < flSize) (ha : a ∈ v.frame idx) :
    (∃ i x, v.role a = .td i x) ∨ v.role a = .orphan := by
  rcases (hs.frameMem idx hi a).mp ha with ⟨i, x, hm, _⟩ | ⟨hm, _⟩
  · exact .inl ⟨i, x, hs.role_td hm⟩
  · exact .inr (hs.role_orphan hm)

theorem role_chain (hs : Shape m v) (ha : a ∈ chainFrom m.iqh v.under numIqh) :
    ∃ i < numIqh, v.role a = .iqh i ∨ v.role a = .intr i := by
  obtain ⟨i, hi, rfl | hm⟩ := mem_chainFrom.mp ha
  · exact ⟨i, hi, .inl (hs.role_iqh hi)⟩
  · exact ⟨i, hi, .inr (hs.role_intr hm)⟩

theorem unit_chain (hs : Shape m v) (ha : a ∈ chainFrom m.iqh v.under numIqh) :
    m.pool.unit a = some .qh := by
  obtain ⟨i, _, hr | hr⟩ := hs.role_chain ha <;> exact hs.unit_of_role hr rfl

theorem unit_ring (hs : Shape m v) (ha : a ∈ v.ring) : m.pool.unit a = some .qh :=
  hs.unit_of_role (hs.role_async ha) rfl

theorem lt_of_listed (hs : Shape m v) {r : Role} (hr : r.listed = true) (ha : a ∈ v.list r) :
    a < hwMemUnitNum := by
  have he := (hs.mem r a hr).mp ha
  exact (hs.used a (by rw [he]; rintro rfl; cases hr)).1

/-! ### No list meets a unit twice -/

theorem head_not_mem_ring (hs : Shape m v) : m.hQh ∉ v.ring := by
  intro hm
  have hr := hs.role_async hm
  rw [hs.role_head] at hr
  cases hr

theorem ring_nodup (hs : Shape m v) : (m.hQh :: v.ring).Nodup := by
  refine List.nodup_cons.mpr ⟨hs.head_not_mem_ring, ?_⟩
  refine Path.nodup Link.qh_injective hs.ring.2 fun b hb he => ?_
  exact hs.head_not_mem_ring (Link.qh.inj he ▸ hb)

theorem chain_nodup (hs : Shape m v) : (chainFrom m.iqh v.under numIqh).Nodup :=
  Path.nodup Link.qh_injective hs.chain fun _ _ => Link.noConfusion

theorem under_nodup (hs : Shape m v) {i : Nat} (hi : i < numIqh) : (v.under i).Nodup := by
  obtain ⟨pre, hpre⟩ := chainFrom_split m.iqh v.under hi
  have hd := hs.chain_nodup
  rw [← Function.update_eq_self i v.under, hpre] at hd
  have hd' := (List.nodup_cons.mp (List.nodup_append.mp hd).2.1).2
  exact (List.nodup_append.mp hd').1

theorem removed_nodup (hs : Shape m v) : v.removed.Nodup := hs.removed.nodup_none

theorem queued_nodup (hs : Shape m v) (h : Addr) : (v.queued h).Nodup := by
  cases hq : v.queued h with
  | nil => exact List.nodup_nil
  | cons a l =>
    rw [← hq]
    exact (hs.queued h (hs.queuedQh h a (by rw [hq]; exact List.mem_cons_self))).nodup_none

theorem done_nodup (hs : Shape m v) (h : Addr) : (v.done h).Nodup := by
  cases hq : v.done h with
  | nil => exact List.nodup_nil
  | cons a l =>
    rw [← hq]
    exact (hs.done h (hs.doneQh h a (by rw [hq]; exact List.mem_cons_self))).nodup_none

theorem tds_nodup (hs : Shape m v) (i : IsoKind) (x : IsoId) : (v.tds i x).Nodup := by
  cases hq : v.tds i x with
  | nil => exact List.nodup_nil
  | cons a l =>
    rw [← hq]
    exact (hs.tds i x (hs.tdEp i x a (by rw [hq]; exact List.mem_cons_self))).nodup_none

theorem frame_nodup (hs : Shape m v) {idx : Nat} (hi : idx < flSize) : (v.frame idx).Nodup := by
  refine Path.nodup (tdLink_injective m) (hs.frame idx hi) fun b _ he => ?_
  unfold tdLink at he
  split at he <;> cases he

theorem isoEps_nodup (hs : Shape m v) : v.isoEps.Nodup := hs.isoEps.nodup_none

theorem lt_walkFuel {l : List Addr} (hd : l.Nodup) (hl : ∀ a ∈ l, a < hwMemUnitNum) :
    l.length < walkFuel :=
  Nat.lt_succ_of_le (nodup_length_le hd hl)

theorem queued_lt (hs : Shape m v) (h : Addr) : (v.queued h).length < walkFuel :=
  lt_walkFuel (hs.queued_nodup h) fun _ ha => hs.lt_of_listed (r := .queued h) rfl ha

theorem removed_lt (hs : Shape m v) : v.removed.length < walkFuel :=
  lt_walkFuel hs.removed_nodup fun _ ha => hs.lt_of_listed (r := .removed) rfl ha

theorem tds_lt (hs : Shape m v) (i : IsoKind) (x : IsoId) : (v.tds i x).length < walkFuel :=
  lt_walkFuel (hs.tds_nodup i x) fun _ ha => hs.lt_of_listed (r := .td i x) rfl ha

theorem ring_lt (hs : Shape m v) : (m.hQh :: v.ring).length < walkFuel := by
  refine lt_walkFuel hs.ring_nodup fun a ha => ?_
  rcases List.mem_cons.mp ha with rfl | ha
  · exact (hs.used _ (by rw [hs.role_head]; exact Role.noConfusion)).1
  · exact hs.lt_of_listed (r := .async) rfl ha

theorem chain_lt (hs : Shape m v) : (chainFrom m.iqh v.under numIqh).length < walkFuel := by
  refine lt_walkFuel hs.chain_nodup fun a ha => ?_
  obtain ⟨i, _, hr | hr⟩ := hs.role_chain ha <;>
    exact (hs.used a (by rw [hr]; exact Role.noConfusion)).1

theorem frame_lt (hs : Shape m v) {idx : Nat} (hi : idx < flSize) :
    (v.frame idx).length < walkFuel := by
  refine lt_walkFuel (hs.frame_nodup hi) fun a ha => ?_
  rcases hs.role_frame hi ha with ⟨i, x, hr⟩ | hr <;>
    exact (hs.used a (by rw [hr]; exact Role.noConfusion)).1

theorem isoEps_lt (hs : Shape m v) : v.isoEps.length < walkFuel := by
  have hl := nodup_length_le hs.isoEps_nodup fun x hx => (hs.isoDma x hx).1
  have hn : dmaMemUnitNum < walkFuel := by decide
  omega

end Shape

/-! ## Writing to a unit on no list -/

namespace Shape

theorem off_hLink (hs : Shape m v) (ha : Off v a) (x : Link) :
    Shape { m with hLink := Function.update m.hLink a x } v :=
  { hs with
    ring := hs.ring.update_of_not_mem (ha.not_mem_ring hs)
    chain := hs.chain.update_of_not_mem (ha.not_mem_chain hs)
    frame := fun idx hi => (hs.frame idx hi).update_of_not_mem (ha.not_mem_frame hs hi) }

theorem off_qhNext (hs : Shape m v) (ha : Off v a) (x : Ptr) :
    Shape { m with qhNext := Function.update m.qhNext a x } v :=
  { hs with removed := hs.removed.update_of_not_mem (ha.not_mem hs .removed) }

theorem off_qtdNext (hs : Shape m v) (ha : Off v a) (x : Ptr) :
    Shape { m with qtdNext := Function.update m.qtdNext a x } v :=
  { hs with
    queued := fun h hh => (hs.queued h hh).update_of_not_mem (ha.not_mem hs (.queued h))
    done := fun h hh => (hs.done h hh).update_of_not_mem (ha.not_mem hs (.done h)) }

theorem off_tdNext (hs : Shape m v) (ha : Off v a) (i : IsoKind) (x : Ptr) :
    Shape { m with tdNext := Links.setTd m.tdNext i a x } v :=
  { hs with
    tds := fun j x hx => by
      by_cases hij : j = i
      · subst hij
        simp only [Links.setTd, Function.update_self]
        exact (hs.tds j x hx).update_of_not_mem (ha.not_mem hs (.td j x))
      · simp only [Links.setTd, Function.update_of_ne hij]
        exact hs.tds j x hx }

theorem off_schedFrnidx (hs : Shape m v) (ha : Off v a) (i : IsoKind) (x : Nat) :
    Shape { m with schedFrnidx := Links.setTd m.schedFrnidx i a x } v := by
  have htd : ∀ j y, ∀ b ∈ v.tds j y, Links.setTd m.schedFrnidx i a x j b = m.schedFrnidx j b :=
    fun j y b hb => Links.setTd_of_ne fun he => ha.not_mem hs (.td j y) (he.2 ▸ hb)
  have hor : ∀ b ∈ v.orphans, Links.setTd m.schedFrnidx i a x .sitd b = m.schedFrnidx .sitd b :=
    fun b hb => Links.setTd_of_ne fun he => ha.not_mem hs .orphan (he.2 ▸ hb)
  refine { hs with
    frameMem := fun idx hi b => ?_
    schedLt := fun j y b hb => Nat.lt_of_le_of_lt (Nat.le_of_eq (htd j y b hb)) (hs.schedLt j y b hb)
    orphanLt := fun b hb => Nat.lt_of_le_of_lt (Nat.le_of_eq (hor b hb)) (hs.orphanLt b hb) }
  rw [hs.frameMem idx hi b]
  constructor
  · rintro (⟨j, y, hb, he⟩ | ⟨hb, he⟩)
    · exact .inl ⟨j, y, hb, (htd j y b hb).trans he⟩
    · exact .inr ⟨hb, (hor b hb).trans he⟩
  · rintro (⟨j, y, hb, he⟩ | ⟨hb, he⟩)
    · exact .inl ⟨j, y, hb, (htd j y b hb).symm.trans he⟩
    · exact .inr ⟨hb, (hor b hb).symm.trans he⟩

/-- The lists of a QH on which no qTD lies may be cleared. -/
theorem off_qhLists (hs : Shape m v) (ha : m.pool.unit a ≠ some .qh) (x y : Ptr) :
    Shape { m with
      qtdList := Function.update m.qtdList a x, doneList := Function.update m.doneList a y } v := by
  refine { hs with queued := fun h hh => ?_, done := fun h hh => ?_ }
  all_goals
    have hne : h ≠ a := fun he => ha (he ▸ hh)
    simp only [Function.update_of_ne hne]
  · exact hs.queued h hh
  · exact hs.done h hh

/-! ### Allocation and free -/

theorem role_of_unit_none (hs : Shape m v) (hu : m.pool.unit a = none) : v.role a = .free := by
  by_contra hne
  have hk := (hs.used a hne).2
  rw [hu] at hk
  cases hr : v.role a <;> rw [hr] at hk <;> first | exact hne hr | cases hk

private theorem tdLink_congr {m' : Links} (hu : ∀ b, b ≠ a → m'.pool.unit b = m.pool.unit b)
    (hb : b ≠ a) : tdLink m b = tdLink m' b := by
  unfold tdLink; rw [hu b hb]

/-- A free unit is taken. -/
theorem hold (hs : Shape m v) {p : HwPool} (hu : m.pool.unit a = none) (ha : a < hwMemUnitNum)
    (hp : p.unit = Function.update m.pool.unit a (some k)) (hsi : p.sidx < hwMemUnitNum)
    (hl : k = .qh → m.qtdList a = none ∧ m.doneList a = none) :
    Shape { m with pool := p } (v.become a (.held k)) := by
  have hf := hs.role_of_unit_none hu
  have hoff : Off v a := .inl hf
  have hself : (v.become a (.held k)).role a = .held k := Function.update_self ..
  have hne : ∀ b, b ≠ a → (v.become a (.held k)).role b = v.role b :=
    fun b hb => Function.update_of_ne hb ..
  have hpa : p.unit a = some k := by rw [hp, Function.update_self]
  have hpne : ∀ b, b ≠ a → p.unit b = m.pool.unit b := fun b hb => by
    rw [hp, Function.update_of_ne hb]
  have hspecial : ∀ r, (∀ k, r ≠ .held k) → r ≠ .free →
      ∀ b, (v.become a (.held k)).role b = r ↔ v.role b = r := by
    intro r hr hrf b
    by_cases hb : b = a
    · subst hb
      rw [hself, hf]
      exact ⟨fun he => absurd he.symm (hr k), fun he => absurd he.symm hrf⟩
    · rw [hne b hb]
  have hqh : ∀ h, p.unit h = some .qh → h ≠ a → m.pool.unit h = some .qh := fun h hh hb => by
    rw [← hpne h hb]; exact hh
  have hempty : ∀ r : Role, (∀ b, b ∈ v.list r → m.pool.unit a = some .qh) → v.list r = [] := by
    intro r hr
    refine List.eq_nil_iff_forall_not_mem.mpr fun b hb => ?_
    have := hr b hb
    rw [hu] at this
    cases this
  refine { hs with
    toRoles := ?_, sidx := hsi, queued := fun h hh => ?_, done := fun h hh => ?_,
    frame := fun idx hi => ?_ }
  · constructor
    · intro b hb
      by_cases hba : b = a
      · subst hba; rw [hself]; exact ⟨ha, hpa⟩
      · rw [hne b hba] at hb ⊢
        exact ⟨(hs.used b hb).1, (hpne b hba).trans (hs.used b hb).2⟩
    · intro b hb
      by_cases hba : b = a
      · subst hba; rw [hself] at hb; cases hb
      · rw [hne b hba] at hb
        show ∀ k, p.unit b = some k → _
        rw [hpne b hba]
        exact hs.unused b hb
    · intro r b hr
      refine (hs.mem r b hr).trans (hspecial r ?_ ?_ b).symm
      · rintro k rfl; cases hr
      · rintro rfl; cases hr
    · exact fun b => (hspecial .head (fun _ => Role.noConfusion) Role.noConfusion b).trans (hs.head b)
    · exact fun b => (hspecial .ghost (fun _ => Role.noConfusion) Role.noConfusion b).trans (hs.ghost b)
    · exact fun i b => (hspecial (.iqh i) (fun _ => Role.noConfusion) Role.noConfusion b).trans
        (hs.iqhRole i b)
    · exact hs.intrLt
    · intro h b hb
      have hh := hs.queuedQh h b hb
      exact (hpne h fun he => by rw [he, hu] at hh; cases hh).trans hh
    · intro h b hb
      have hh := hs.doneQh h b hb
      exact (hpne h fun he => by rw [he, hu] at hh; cases hh).trans hh
    · exact hs.tdEp
  · by_cases hha : h = a
    · subst hha
      have hk : k = .qh := Option.some.inj (hpa.symm.trans hh)
      have hn : v.queued h = [] := hempty (.queued h) fun b hb => hs.queuedQh h b hb
      show Path some m.qtdNext (m.qtdList h) (v.queued h) none
      rw [hn]
      exact (hl hk).1
    · exact hs.queued h (hqh h hh hha)
  · by_cases hha : h = a
    · subst hha
      have hk : k = .qh := Option.some.inj (hpa.symm.trans hh)
      have hn : v.done h = [] := hempty (.done h) fun b hb => hs.doneQh h b hb
      show Path some m.qtdNext (m.doneList h) (v.done h) none
      rw [hn]
      exact (hl hk).2
    · exact hs.done h (hqh h hh hha)
  · exact (hs.frame idx hi).congr
      (fun b hb => tdLink_congr hpne fun he => hoff.not_mem_frame hs hi (he ▸ hb)) (fun _ _ => rfl)

/-- A held unit is given back. -/
theorem release (hs : Shape m v) {p : HwPool} (ha : v.role a = .held k)
    (hp : p.unit = Function.update m.pool.unit a none) (hsi : p.sidx = m.pool.sidx)
    (hl : k = .qh → v.queued a = [] ∧ v.done a = []) :
    Shape { m with pool := p } (v.become a .free) := by
  have hoff : Off v a := .inr ⟨k, ha⟩
  have hua : m.pool.unit a = some k := hs.unit_of_role ha rfl
  have hself : (v.become a .free).role a = .free := Function.update_self ..
  have hne : ∀ b, b ≠ a → (v.become a .free).role b = v.role b :=
    fun b hb => Function.update_of_ne hb ..
  have hpa : p.unit a = none := by rw [hp, Function.update_self]
  have hpne : ∀ b, b ≠ a → p.unit b = m.pool.unit b := fun b hb => by
    rw [hp, Function.update_of_ne hb]
  have hspecial : ∀ r, (∀ k, r ≠ .held k) → r ≠ .free →
      ∀ b, (v.become a .free).role b = r ↔ v.role b = r := by
    intro r hr hrf b
    by_cases hb : b = a
    · subst hb
      rw [hself, ha]
      exact ⟨fun he => absurd he.symm hrf, fun he => absurd he.symm (hr k)⟩
    · rw [hne b hb]
  have hqh : ∀ h, p.unit h = some .qh → m.pool.unit h = some .qh := fun h hh => by
    rw [← hpne h fun he => by rw [he, hpa] at hh; cases hh]
    exact hh
  refine { hs with
    toRoles := ?_, sidx := hsi ▸ hs.sidx, queued := fun h hh => hs.queued h (hqh h hh),
    done := fun h hh => hs.done h (hqh h hh), frame := fun idx hi => ?_ }
  · constructor
    · intro b hb
      by_cases hba : b = a
      · subst hba; exact absurd hself hb
      · rw [hne b hba] at hb ⊢
        exact ⟨(hs.used b hb).1, (hpne b hba).trans (hs.used b hb).2⟩
    · intro b hb
      by_cases hba : b = a
      · subst hba
        intro k' hk'
        have hk'' : p.unit b = some k' := hk'
        rw [hpa] at hk''
        cases hk''
      · rw [hne b hba] at hb
        show ∀ k, p.unit b = some k → _
        rw [hpne b hba]
        exact hs.unused b hb
    · intro r b hr
      refine (hs.mem r b hr).trans (hspecial r ?_ ?_ b).symm
      · rintro k rfl; cases hr
      · rintro rfl; cases hr
    · exact fun b => (hspecial .head (fun _ => Role.noConfusion) Role.noConfusion b).trans (hs.head b)
    · exact fun b => (hspecial .ghost (fun _ => Role.noConfusion) Role.noConfusion b).trans (hs.ghost b)
    · exact fun i b => (hspecial (.iqh i) (fun _ => Role.noConfusion) Role.noConfusion b).trans
        (hs.iqhRole i b)
    · exact hs.intrLt
    · intro h b hb
      have hh := hs.queuedQh h b hb
      refine (hpne h fun he => ?_).trans hh
      subst he
      have hk : k = .qh := Option.some.inj (hua.symm.trans hh)
      have hb' : b ∈ v.queued h := hb
      rw [(hl hk).1] at hb'
      cases hb'
    · intro h b hb
      have hh := hs.doneQh h b hb
      refine (hpne h fun he => ?_).trans hh
      subst he
      have hk : k = .qh := Option.some.inj (hua.symm.trans hh)
      have hb' : b ∈ v.done h := hb
      rw [(hl hk).2] at hb'
      cases hb'
    · exact hs.tdEp
  · exact (hs.frame idx hi).congr
      (fun b hb => tdLink_congr hpne fun he => hoff.not_mem_frame hs hi (he ▸ hb)) (fun _ _ => rfl)

/-! ### The allocators -/

theorem allocQh (hs : Shape m v) (he : m.allocEhciQh = some (a, m')) :
    Shape m' (v.become a (.held .qh)) ∧ v.role a = .free := by
  obtain ⟨hlt, hu, rfl⟩ := allocEhciQh_some he
  have hf := hs.role_of_unit_none hu
  have hoff : Off v a := .inl hf
  have hs₁ := (hs.off_hLink hoff .null).off_qhNext hoff none
  have hs₂ := hs₁.off_qhLists (a := a) (fun hq => by rw [hu] at hq; cases hq) none none
  refine ⟨hs₂.hold (p := { m.pool.take .qh a with sidx := a }) hu hlt rfl hlt fun _ => ?_, hf⟩
  exact ⟨Function.update_self .., Function.update_self ..⟩

theorem allocQtd (hs : Shape m v) (he : m.allocEhciQtd = some (a, m')) :
    Shape m' (v.become a (.held .qtd)) ∧ v.role a = .free ∧ m'.qtdNext a = none := by
  obtain ⟨hlt, hu, rfl⟩ := allocEhciQtd_some he
  have hf := hs.role_of_unit_none hu
  have hs₁ := hs.off_qtdNext (.inl hf) none
  exact ⟨hs₁.hold (p := { m.pool.take .qtd a with sidx := a }) hu hlt rfl hlt (fun hk => by cases hk),
    hf, Function.update_self ..⟩

theorem allocTd (hs : Shape m v) {i : IsoKind} (he : m.allocEhciTd i = some (a, m')) :
    Shape m' (v.become a (.held i.hw)) ∧ v.role a = .free := by
  obtain ⟨hlt, hu, rfl⟩ := allocEhciTd_some he
  have hf := hs.role_of_unit_none hu
  have hoff : Off v a := .inl hf
  have hs₁ := ((hs.off_hLink hoff .null).off_tdNext hoff i none).off_schedFrnidx hoff i 0
  exact ⟨hs₁.hold (p := { m.pool.take i.hw a with sidx := a }) hu hlt rfl hlt
    (fun hk => by cases i <;> cases hk), hf⟩

end Shape

end Ma35d1.UsbHost.Ehci
