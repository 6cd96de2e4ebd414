import Ma35d1.UsbHost.Ehci.ListOps

/-!
# Putting units onto the driver's lists and taking them off

For every list of the driver, what the view becomes when a held unit is linked
into it or one of its units is unlinked, and that the edit the driver makes
realises it.
-/

namespace Ma35d1.UsbHost.Ehci

open Heap.LinkedPath Heap.IntervalTree

namespace View

variable (v : View)

def putRing (q : Addr) : View := { v.become q .async with ring := q :: v.ring }

def takeRing (q : Addr) : View := { v.become q (.held .qh) with ring := v.ring.erase q }

def putUnder (i : Nat) (q : Addr) : View :=
  { v.become q (.intr i) with under := Function.update v.under i (q :: v.under i) }

def takeUnder (i : Nat) (q : Addr) : View :=
  { v.become q (.held .qh) with under := Function.update v.under i ((v.under i).erase q) }

def putRemoved (q : Addr) : View := { v.become q .removed with removed := q :: v.removed }

def takeRemoved (q : Addr) : View :=
  { v.become q (.held .qh) with removed := v.removed.erase q }

def putQueued (h t : Addr) : View :=
  { v.become t (.queued h) with queued := Function.update v.queued h (v.queued h ++ [t]) }

def takeQueued (h t : Addr) : View :=
  { v.become t (.held .qtd) with queued := Function.update v.queued h ((v.queued h).erase t) }

def putDone (h t : Addr) : View :=
  { v.become t (.done h) with done := Function.update v.done h (t :: v.done h) }

def takeDone (h t : Addr) : View :=
  { v.become t (.held .qtd) with done := Function.update v.done h ((v.done h).erase t) }

def putTd (k : IsoKind) (x : IsoId) (t : Addr) (idx : Nat) : View :=
  { v.become t (.td k x) with
    tds := Links.setTd v.tds k x (v.tds k x ++ [t])
    frame := Function.update v.frame idx (t :: v.frame idx) }

def takeTd (k : IsoKind) (x : IsoId) (t : Addr) (idx : Nat) : View :=
  { v.become t (.held k.hw) with
    tds := Links.setTd v.tds k x ((v.tds k x).erase t)
    frame := Function.update v.frame idx ((v.frame idx).erase t) }

def consIso (x : IsoId) : View := { v with isoEps := x :: v.isoEps }

/-- The endpoint goes; its siTDs stay behind in the frame list. -/
def dropIso (x : IsoId) : View :=
  { v with
    role := fun a => if v.role a = .td .sitd x then .orphan else v.role a
    tds := Links.setTd v.tds .sitd x []
    orphans := v.orphans ++ v.tds .sitd x
    isoEps := v.isoEps.erase x }

end View

namespace Shape

variable {m : Links} {v : View} {a h q t : Addr}

/-! ## QHs of the two schedules -/

theorem not_mem_ring_of_chain (hs : Shape m v) (ha : a ∈ chainFrom m.iqh v.under numIqh) :
    a ∉ m.hQh :: v.ring := by
  intro hm
  obtain ⟨i, _, hr | hr⟩ := hs.role_chain ha <;> rcases List.mem_cons.mp hm with rfl | hm
  all_goals first
    | rw [hs.role_head] at hr; cases hr
    | rw [hs.role_async hm] at hr; cases hr

theorem not_mem_frame_of_ring (hs : Shape m v) {idx : Nat} (hi : idx < flSize)
    (ha : a ∈ m.hQh :: v.ring) : a ∉ v.frame idx := by
  intro hm
  rcases hs.role_frame hi hm with ⟨i, x, hr⟩ | hr <;> rcases List.mem_cons.mp ha with rfl | ha
  all_goals first
    | rw [hs.role_head] at hr; cases hr
    | rw [hs.role_async ha] at hr; cases hr

theorem not_mem_frame_of_chain (hs : Shape m v) {idx : Nat} (hi : idx < flSize)
    (ha : a ∈ chainFrom m.iqh v.under numIqh) : a ∉ v.frame idx := by
  intro hm
  obtain ⟨i, _, hc | hc⟩ := hs.role_chain ha <;>
    rcases hs.role_frame hi hm with ⟨j, x, hr⟩ | hr <;> rw [hc] at hr <;> cases hr

/-- A held QH goes behind the head of the ring. -/
theorem putRing (hs : Shape m v) (hq : v.role q = .held .qh) :
    Shape { m with
      hLink := Function.update (Function.update m.hLink q (m.hLink m.hQh)) m.hQh (.qh q)
      insertedUnder := Function.update m.insertedUnder q none } (v.putRing q) := by
  have hoff : Off v q := .inr ⟨_, hq⟩
  have hne : q ≠ m.hQh := hoff.ne_head hs
  have hout : ∀ l : List Addr, q ∉ l → m.hQh ∉ l → ∀ b ∈ l,
      m.hLink b = Function.update (Function.update m.hLink q (m.hLink m.hQh)) m.hQh (.qh q) b := by
    intro l hql hhl b hb
    rw [Function.update_of_ne (ne_of_mem_of_not_mem hb hhl),
      Function.update_of_ne (ne_of_mem_of_not_mem hb hql)]
  refine { hs with
    toRoles := hs.toRoles.put (r := .async) hq rfl rfl rfl (fun r' hr => ?_) (fun x => List.mem_cons)
      rfl (fun _ => Role.noConfusion) (fun _ => Role.noConfusion) (fun _ => Role.noConfusion)
      (fun _ _ => Role.noConfusion)
    ring := ?_, chain := ?_, asyncUnder := ?_, intrUnder := ?_, frame := fun idx hi => ?_ }
  · cases r' <;> first | rfl | exact absurd rfl hr
  · refine Path.insert_after (l := []) hs.ring (hoff.not_mem_ring hs) hs.ring_nodup ?_ ?_ ?_
    · exact Function.update_self ..
    · show Function.update (Function.update m.hLink q (m.hLink m.hQh)) m.hQh (.qh q) q = m.hLink m.hQh
      rw [Function.update_of_ne hne, Function.update_self]
    · intro b hb hbq
      show Function.update (Function.update m.hLink q (m.hLink m.hQh)) m.hQh (.qh q) b = m.hLink b
      rw [Function.update_of_ne hb, Function.update_of_ne hbq]
  · exact hs.chain.congr (fun _ _ => rfl) (hout _ (hoff.not_mem_chain hs)
      fun hm => hs.not_mem_ring_of_chain hm List.mem_cons_self)
  · intro b hb
    show Function.update m.insertedUnder q none b = none
    rcases List.mem_cons.mp hb with rfl | hb
    · exact Function.update_self ..
    · rw [Function.update_of_ne (ne_of_mem_of_not_mem hb (hoff.not_mem hs .async))]
      exact hs.asyncUnder b hb
  · intro i b hb
    show Function.update m.insertedUnder q none b = some i
    rw [Function.update_of_ne (ne_of_mem_of_not_mem hb (hoff.not_mem hs (.intr i)))]
    exact hs.intrUnder i b hb
  · exact (hs.frame idx hi).congr (fun _ _ => rfl) (hout _ (hoff.not_mem_frame hs hi)
      (hs.not_mem_frame_of_ring hi List.mem_cons_self))

/-- A held QH goes behind an interval head. -/
theorem putUnder (hs : Shape m v) (hq : v.role q = .held .qh) {i : Nat} (hi : i < numIqh) :
    Shape { m with
      hLink := Function.update (Function.update m.hLink q (m.hLink (m.iqh i))) (m.iqh i) (.qh q)
      insertedUnder := Function.update m.insertedUnder q (some i) } (v.putUnder i q) := by
  have hoff : Off v q := .inr ⟨_, hq⟩
  have hne : q ≠ m.iqh i := hoff.ne_iqh hs hi
  have hmc : m.iqh i ∈ chainFrom m.iqh v.under numIqh := mem_chainFrom.mpr ⟨i, hi, .inl rfl⟩
  have hout : ∀ l : List Addr, q ∉ l → m.iqh i ∉ l → ∀ b ∈ l,
      m.hLink b =
        Function.update (Function.update m.hLink q (m.hLink (m.iqh i))) (m.iqh i) (.qh q) b := by
    intro l hql hhl b hb
    rw [Function.update_of_ne (ne_of_mem_of_not_mem hb hhl),
      Function.update_of_ne (ne_of_mem_of_not_mem hb hql)]
  refine { hs with
    toRoles := hs.toRoles.put (r := .intr i) hq rfl rfl rfl (fun r' hr => ?_) (fun x => ?_)
      rfl (fun j hj => ?_) (fun _ => Role.noConfusion) (fun _ => Role.noConfusion)
      (fun _ _ => Role.noConfusion)
    ring := ?_, chain := ?_, asyncUnder := ?_, intrUnder := ?_, frame := fun idx hi => ?_ }
  · cases r' with
    | intr j => exact Function.update_of_ne (fun he : j = i => hr (congrArg Role.intr he)) ..
    | _ => rfl
  · show x ∈ Function.update v.under i (q :: v.under i) i ↔ _
    rw [Function.update_self]
    exact List.mem_cons
  · cases hj; exact hi
  · exact hs.ring.congr (fun _ _ => rfl) (hout _ (hoff.not_mem_ring hs)
      (hs.not_mem_ring_of_chain hmc))
  · obtain ⟨pre, hpre⟩ := chainFrom_split m.iqh v.under hi
    have hold := hpre (v.under i)
    rw [Function.update_eq_self] at hold
    show Path Link.qh _ _ (chainFrom m.iqh (Function.update v.under i (q :: v.under i)) numIqh) _
    rw [hpre]
    have hc := hs.chain
    have hnd := hs.chain_nodup
    have hnm := hoff.not_mem_chain hs
    rw [hold] at hc hnd hnm
    refine Path.insert_after hc hnm hnd (Function.update_self ..) ?_ ?_
    · show Function.update (Function.update m.hLink q (m.hLink (m.iqh i))) (m.iqh i) (.qh q) q = _
      rw [Function.update_of_ne hne, Function.update_self]
    · intro b hb hbq
      show Function.update (Function.update m.hLink q (m.hLink (m.iqh i))) (m.iqh i) (.qh q) b = _
      rw [Function.update_of_ne hb, Function.update_of_ne hbq]
  · intro b hb
    show Function.update m.insertedUnder q (some i) b = none
    rw [Function.update_of_ne (ne_of_mem_of_not_mem hb (hoff.not_mem hs .async))]
    exact hs.asyncUnder b hb
  · intro j b hb
    show Function.update m.insertedUnder q (some i) b = some j
    have hb' : b ∈ Function.update v.under i (q :: v.under i) j := hb
    by_cases hji : j = i
    · subst hji
      rw [Function.update_self] at hb'
      rcases List.mem_cons.mp hb' with rfl | hb'
      · exact Function.update_self ..
      · rw [Function.update_of_ne (ne_of_mem_of_not_mem hb' (hoff.not_mem hs (.intr j)))]
        exact hs.intrUnder j b hb'
    · rw [Function.update_of_ne hji] at hb'
      rw [Function.update_of_ne (ne_of_mem_of_not_mem hb' (hoff.not_mem hs (.intr j)))]
      exact hs.intrUnder j b hb'
  · exact (hs.frame idx hi).congr (fun _ _ => rfl) (hout _ (hoff.not_mem_frame hs hi)
      (hs.not_mem_frame_of_chain hi hmc))

/-- A QH is unlinked from the ring. -/
theorem takeRing (hs : Shape m v) (hq : q ∈ v.ring) {p : Addr} {l₁ l₂ : List Addr}
    (hl : m.hQh :: v.ring = l₁ ++ p :: q :: l₂) :
    Shape { m with hLink := Function.update m.hLink p (m.hLink q) } (v.takeRing q) := by
  have hp : p ∈ m.hQh :: v.ring := by rw [hl]; simp
  have hne : m.hQh ≠ q := fun he => hs.head_not_mem_ring (he ▸ hq)
  have hd := hs.ring_nodup
  refine { hs with
    toRoles := hs.toRoles.take (r := .async) (hs.role_async hq) rfl rfl rfl (fun r' hr => ?_)
      (fun x => (List.nodup_cons.mp hd).2.mem_erase_iff) rfl
    ring := ?_, chain := ?_, asyncUnder := ?_, frame := fun idx hi => ?_ }
  · cases r' <;> first | rfl | exact absurd rfl hr
  · have hr := hs.ring.erase_after hd hl
    rwa [List.erase_cons_tail (by simpa using hne)] at hr
  · exact hs.chain.update_of_not_mem fun hm => hs.not_mem_ring_of_chain hm hp
  · exact fun b hb => hs.asyncUnder b (List.mem_of_mem_erase hb)
  · exact (hs.frame idx hi).update_of_not_mem (hs.not_mem_frame_of_ring hi hp)

theorem erase_chainFrom {iqh : Nat → Addr} {under : Nat → List Addr} {n i : Nat} {q : Addr}
    (hi : i < n) (hq : q ∈ under i) (hd : (chainFrom iqh under n).Nodup) :
    chainFrom iqh (Function.update under i ((under i).erase q)) n =
      (chainFrom iqh under n).erase q := by
  obtain ⟨pre, hpre⟩ := chainFrom_split iqh under hi
  have hold := hpre (under i)
  rw [Function.update_eq_self] at hold
  rw [hold] at hd
  have hdis := (List.nodup_append.mp hd).2.2
  have hqp : q ∉ pre := fun hm => hdis q hm q (by simp [hq]) rfl
  have hqi : iqh i ≠ q := by
    rintro rfl
    have := (List.nodup_cons.mp (List.nodup_append.mp hd).2.1).1
    exact this (by simp [hq])
  rw [hpre, hold, List.erase_append_right _ hqp, List.erase_cons_tail (by simpa using hqi),
    List.erase_append_left _ hq]

/-- A QH is unlinked from the periodic schedule. -/
theorem takeUnder (hs : Shape m v) {i : Nat} (hq : q ∈ v.under i) {p : Addr} {l₁ l₂ : List Addr}
    (hl : chainFrom m.iqh v.under numIqh = l₁ ++ p :: q :: l₂) :
    Shape { m with hLink := Function.update m.hLink p (m.hLink q) } (v.takeUnder i q) := by
  have hi := hs.intrLt i q hq
  have hp : p ∈ chainFrom m.iqh v.under numIqh := by rw [hl]; simp
  have hd := hs.chain_nodup
  have hu := hs.under_nodup hi
  have hsub : ∀ j b, b ∈ Function.update v.under i ((v.under i).erase q) j → b ∈ v.under j := by
    intro j b hb
    by_cases hji : j = i
    · subst hji; rw [Function.update_self] at hb; exact List.mem_of_mem_erase hb
    · rwa [Function.update_of_ne hji] at hb
  refine { hs with
    toRoles := hs.toRoles.take (r := .intr i) (hs.role_intr hq) rfl rfl rfl (fun r' hr => ?_)
      (fun x => ?_) rfl
    ring := ?_, chain := ?_, intrUnder := ?_, frame := fun idx hi => ?_ }
  · cases r' with
    | intr j => exact Function.update_of_ne (fun he : j = i => hr (congrArg Role.intr he)) ..
    | _ => rfl
  · show x ∈ Function.update v.under i ((v.under i).erase q) i ↔ _
    rw [Function.update_self]
    exact hu.mem_erase_iff
  · exact hs.ring.update_of_not_mem (hs.not_mem_ring_of_chain hp)
  · show Path Link.qh _ _ (chainFrom m.iqh (Function.update v.under i _) numIqh) _
    rw [erase_chainFrom hi hq hd]
    exact hs.chain.erase_after hd hl
  · exact fun j b hb => hs.intrUnder j b (hsub j b hb)
  · exact (hs.frame idx hi).update_of_not_mem (hs.not_mem_frame_of_chain hi hp)

/-! ## The remove list -/

theorem putRemoved (hs : Shape m v) (hq : v.role q = .held .qh) :
    Shape { m with
      qhNext := Function.update m.qhNext q m.qhRemoveList
      qhRemoveList := some q } (v.putRemoved q) := by
  have hoff : Off v q := .inr ⟨_, hq⟩
  refine { hs with
    toRoles := hs.toRoles.put (r := .removed) hq rfl rfl rfl (fun r' hr => ?_)
      (fun x => List.mem_cons) rfl (fun _ => Role.noConfusion) (fun _ => Role.noConfusion)
      (fun _ => Role.noConfusion) (fun _ _ => Role.noConfusion)
    removed := ?_ }
  · cases r' <;> first | rfl | exact absurd rfl hr
  · refine ⟨rfl, ?_⟩
    show Path some (Function.update m.qhNext q m.qhRemoveList)
      (Function.update m.qhNext q m.qhRemoveList q) v.removed none
    rw [Function.update_self]
    exact hs.removed.update_of_not_mem (hoff.not_mem hs .removed)

theorem takeRemoved (hs : Shape m v) (hq : m.qhRemoveList = some q) :
    Shape { m with qhRemoveList := m.qhNext q } (v.takeRemoved q) := by
  obtain ⟨l, hl⟩ : ∃ l, v.removed = q :: l := by
    have hp := hs.removed
    rw [hq] at hp
    cases hv : v.removed with
    | nil => rw [hv] at hp; cases hp
    | cons b l => rw [hv] at hp; exact ⟨l, by rw [Option.some.inj hp.1]⟩
  have hm : q ∈ v.removed := by rw [hl]; exact List.mem_cons_self
  refine { hs with
    toRoles := hs.toRoles.take (r := .removed) (hs.role_removed hm) rfl rfl rfl (fun r' hr => ?_)
      (fun x => hs.removed_nodup.mem_erase_iff) rfl
    removed := ?_ }
  · cases r' <;> first | rfl | exact absurd rfl hr
  · have hp := hs.removed
    show Path some m.qhNext (m.qhNext q) (v.removed.erase q) none
    rw [hl] at hp ⊢
    exact hp.erase_head

/-! ## The qTDs of a QH -/

private theorem queued_of_ne {f : Addr → List Addr} {l : List Addr} {r' : Role} {v' : View}
    (hv : v' = { v with queued := Function.update f h l, role := v'.role }) (hf : f = v.queued)
    (hr : r' ≠ .queued h) : v'.list r' = v.list r' := by
  subst hf
  rw [hv]
  cases r' with
  | queued b => exact Function.update_of_ne (fun he : b = h => hr (congrArg Role.queued he)) ..
  | _ => rfl

private theorem done_of_ne {f : Addr → List Addr} {l : List Addr} {r' : Role} {v' : View}
    (hv : v' = { v with done := Function.update f h l, role := v'.role }) (hf : f = v.done)
    (hr : r' ≠ .done h) : v'.list r' = v.list r' := by
  subst hf
  rw [hv]
  cases r' with
  | done b => exact Function.update_of_ne (fun he : b = h => hr (congrArg Role.done he)) ..
  | _ => rfl

/-- The roles after a qTD joins a `qtd_list`. -/
theorem roles_putQueued (hs : Shape m v) (ht : v.role t = .held .qtd)
    (hh : m.pool.unit h = some .qh) :
    Roles m.pool.unit m.hQh m.ghostQtd m.iqh (v.putQueued h t) := by
  refine hs.toRoles.put (r := .queued h) ht rfl rfl rfl (fun r' hr => queued_of_ne rfl rfl hr)
    (fun x => ?_) rfl (fun _ => Role.noConfusion) (fun b hb => by cases hb; exact hh)
    (fun _ => Role.noConfusion) (fun _ _ => Role.noConfusion)
  show x ∈ Function.update v.queued h (v.queued h ++ [t]) h ↔ _
  rw [Function.update_self]
  simp only [List.mem_append, List.mem_singleton, View.list]
  exact or_comm

/-- A qTD that ends its chain goes behind the last one of a `qtd_list`. -/
theorem putQueued (hs : Shape m v) (ht : v.role t = .held .qtd) (hh : m.pool.unit h = some .qh)
    (hn : m.qtdNext t = none) :
    ∃ m', m.appendToQtdListOfQh h t = some m' ∧ Shape m' (v.putQueued h t) ∧
      m' = { m with qtdList := m'.qtdList, qtdNext := m'.qtdNext } ∧
      (∀ b, b ≠ h → m'.qtdList b = m.qtdList b) ∧ m'.qtdList h ≠ none ∧
      ∀ b, b ∉ v.queued h → m'.qtdNext b = m.qtdNext b := by
  have hoff : Off v t := .inr ⟨_, ht⟩
  have hp := hs.queued h hh
  have hother : ∀ b, b ≠ h → Function.update v.queued h (v.queued h ++ [t]) b = v.queued b :=
    fun b hb => Function.update_of_ne hb ..
  rcases List.eq_nil_or_concat (v.queued h) with hq | ⟨l, last, hq⟩
  · rw [hq] at hp
    have hl : m.qtdList h = none := hp
    refine ⟨{ m with qtdList := Function.update m.qtdList h (some t) },
      by rw [Links.appendToQtdListOfQh, hl], ?_, rfl,
      fun b hb => Function.update_of_ne hb .., ?_, fun _ _ => rfl⟩
    swap
    · show Function.update m.qtdList h (some t) h ≠ none
      rw [Function.update_self]
      exact Option.some_ne_none t
    refine { hs with toRoles := hs.roles_putQueued ht hh, queued := fun b hb => ?_ }
    show Path some m.qtdNext (Function.update m.qtdList h (some t) b)
      (Function.update v.queued h (v.queued h ++ [t]) b) none
    by_cases hbh : b = h
    · subst hbh
      rw [Function.update_self, Function.update_self, hq]
      exact ⟨rfl, hn⟩
    · rw [Function.update_of_ne hbh, hother b hbh]
      exact hs.queued b hb
  · rw [List.concat_eq_append] at hq
    have hlast : last ∈ v.queued h := by rw [hq]; simp
    have hlr := hs.role_queued hlast
    obtain ⟨q, hql⟩ : ∃ q, m.qtdList h = some q := by
      rw [hq] at hp
      cases hl : m.qtdList h with
      | none => rw [hl] at hp; cases l <;> cases hp.1
      | some q => exact ⟨q, rfl⟩
    have hnd := hs.queued_nodup h
    have hlen := hs.queued_lt h
    rw [hq] at hp hnd hlen
    have hlt : l.length < walkFuel := by simp at hlen; omega
    have hw := lastFrom_eq hp hql hlt
    refine ⟨{ m with qtdNext := Function.update m.qtdNext last (some t) }, ?_, ?_, rfl,
      fun _ _ => rfl, by show m.qtdList h ≠ none; rw [hql]; exact Option.some_ne_none q,
      fun b hb => Function.update_of_ne (ne_of_mem_of_not_mem hlast hb).symm ..⟩
    · rw [Links.appendToQtdListOfQh, hql]
      show (lastFrom m.qtdNext walkFuel q).bind _ = _
      rw [hw]
      rfl
    · refine { hs with
        toRoles := hs.roles_putQueued ht hh, queued := fun b hb => ?_, done := fun b hb => ?_ }
      · show Path some (Function.update m.qtdNext last (some t)) (m.qtdList b)
          (Function.update v.queued h (v.queued h ++ [t]) b) none
        by_cases hbh : b = h
        · subst hbh
          rw [Function.update_self, hq, List.append_assoc]
          refine hp.snoc ?_ ?_ hn
          · have := List.nodup_append.mp hnd
            exact fun hm => this.2.2 last hm last (by simp) rfl
          · rintro rfl
            exact hoff.not_mem hs (.queued b) hlast
        · rw [hother b hbh]
          refine (hs.queued b hb).update_of_not_mem fun hm => hbh ?_
          have hr := hs.role_queued hm
          rw [hlr] at hr
          exact (Role.queued.inj hr).symm
      · refine (hs.done b hb).update_of_not_mem fun hm => ?_
        have hr := hs.role_done hm
        rw [hlr] at hr
        cases hr

theorem roles_takeQueued (hs : Shape m v) (ht : t ∈ v.queued h) :
    Roles m.pool.unit m.hQh m.ghostQtd m.iqh (v.takeQueued h t) := by
  refine hs.toRoles.take (r := .queued h) (hs.role_queued ht) rfl rfl rfl
    (fun r' hr => queued_of_ne rfl rfl hr) (fun x => ?_) rfl
  show x ∈ Function.update v.queued h ((v.queued h).erase t) h ↔ _
  rw [Function.update_self]
  exact (hs.queued_nodup h).mem_erase_iff

/-- The first qTD leaves a `qtd_list`. -/
theorem popQueued (hs : Shape m v) (ht : t ∈ v.queued h) (hl : m.qtdList h = some t) :
    Shape { m with qtdList := Function.update m.qtdList h (m.qtdNext t) } (v.takeQueued h t) := by
  have hh := hs.queuedQh h t ht
  refine { hs with toRoles := hs.roles_takeQueued ht, queued := fun b hb => ?_ }
  show Path some m.qtdNext (Function.update m.qtdList h (m.qtdNext t) b)
    (Function.update v.queued h ((v.queued h).erase t) b) none
  by_cases hbh : b = h
  · subst hbh
    rw [Function.update_self, Function.update_self]
    have hp := hs.queued b hh
    rw [hl] at hp
    cases hv : v.queued b with
    | nil => rw [hv] at ht; cases ht
    | cons c l =>
      rw [hv] at hp
      obtain rfl := Option.some.inj hp.1
      exact hp.erase_head
  · rw [Function.update_of_ne hbh, Function.update_of_ne hbh]
    exact hs.queued b hb

/-- A qTD behind another one leaves a `qtd_list`. -/
theorem cutQueued (hs : Shape m v) (ht : t ∈ v.queued h) {p : Addr} {l₁ l₂ : List Addr}
    (hl : v.queued h = l₁ ++ p :: t :: l₂) :
    Shape { m with qtdNext := Function.update m.qtdNext p (m.qtdNext t) } (v.takeQueued h t) := by
  have hh := hs.queuedQh h t ht
  have hp : p ∈ v.queued h := by rw [hl]; simp
  have hpr := hs.role_queued hp
  refine { hs with
    toRoles := hs.roles_takeQueued ht, queued := fun b hb => ?_, done := fun b hb => ?_ }
  · show Path some (Function.update m.qtdNext p (m.qtdNext t)) (m.qtdList b)
      (Function.update v.queued h ((v.queued h).erase t) b) none
    by_cases hbh : b = h
    · subst hbh
      rw [Function.update_self]
      exact (hs.queued b hh).erase_after (hs.queued_nodup b) hl
    · rw [Function.update_of_ne hbh]
      refine (hs.queued b hb).update_of_not_mem fun hm => hbh ?_
      have hr := hs.role_queued hm
      rw [hpr] at hr
      exact (Role.queued.inj hr).symm
  · refine (hs.done b hb).update_of_not_mem fun hm => ?_
    have hr := hs.role_done hm
    rw [hpr] at hr
    cases hr

theorem roles_putDone (hs : Shape m v) (ht : v.role t = .held .qtd)
    (hh : m.pool.unit h = some .qh) : Roles m.pool.unit m.hQh m.ghostQtd m.iqh (v.putDone h t) := by
  refine hs.toRoles.put (r := .done h) ht rfl rfl rfl (fun r' hr => done_of_ne rfl rfl hr)
    (fun x => ?_) rfl (fun _ => Role.noConfusion) (fun _ => Role.noConfusion)
    (fun b hb => by cases hb; exact hh) (fun _ _ => Role.noConfusion)
  show x ∈ Function.update v.done h (t :: v.done h) h ↔ _
  rw [Function.update_self]
  exact List.mem_cons

/-- A held qTD goes to the front of a `done_list`. -/
theorem putDone (hs : Shape m v) (ht : v.role t = .held .qtd) (hh : m.pool.unit h = some .qh) :
    Shape { m with
      qtdNext := Function.update m.qtdNext t (m.doneList h)
      doneList := Function.update m.doneList h (some t) } (v.putDone h t) := by
  have hoff : Off v t := .inr ⟨_, ht⟩
  refine { hs with toRoles := hs.roles_putDone ht hh, queued := fun b hb => ?_, done := fun b hb => ?_ }
  · exact (hs.queued b hb).update_of_not_mem (hoff.not_mem hs (.queued b))
  · show Path some (Function.update m.qtdNext t (m.doneList h))
      (Function.update m.doneList h (some t) b) (Function.update v.done h (t :: v.done h) b) none
    by_cases hbh : b = h
    · subst hbh
      rw [Function.update_self, Function.update_self]
      refine ⟨rfl, ?_⟩
      rw [Function.update_self]
      exact (hs.done b hb).update_of_not_mem (hoff.not_mem hs (.done b))
    · rw [Function.update_of_ne hbh, Function.update_of_ne hbh]
      exact (hs.done b hb).update_of_not_mem (hoff.not_mem hs (.done b))

theorem roles_takeDone (hs : Shape m v) (ht : t ∈ v.done h) :
    Roles m.pool.unit m.hQh m.ghostQtd m.iqh (v.takeDone h t) := by
  refine hs.toRoles.take (r := .done h) (hs.role_done ht) rfl rfl rfl
    (fun r' hr => done_of_ne rfl rfl hr) (fun x => ?_) rfl
  show x ∈ Function.update v.done h ((v.done h).erase t) h ↔ _
  rw [Function.update_self]
  exact (hs.done_nodup h).mem_erase_iff

/-- The first qTD leaves a `done_list`. -/
theorem popDone (hs : Shape m v) (ht : t ∈ v.done h) (hl : m.doneList h = some t) :
    Shape { m with doneList := Function.update m.doneList h (m.qtdNext t) } (v.takeDone h t) := by
  have hh := hs.doneQh h t ht
  refine { hs with toRoles := hs.roles_takeDone ht, done := fun b hb => ?_ }
  show Path some m.qtdNext (Function.update m.doneList h (m.qtdNext t) b)
    (Function.update v.done h ((v.done h).erase t) b) none
  by_cases hbh : b = h
  · subst hbh
    rw [Function.update_self, Function.update_self]
    have hp := hs.done b hh
    rw [hl] at hp
    cases hv : v.done b with
    | nil => rw [hv] at ht; cases ht
    | cons c l =>
      rw [hv] at hp
      obtain rfl := Option.some.inj hp.1
      exact hp.erase_head
  · rw [Function.update_of_ne hbh, Function.update_of_ne hbh]
    exact hs.done b hb

end Shape

end Ma35d1.UsbHost.Ehci
