import Ma35d1.Heap.IntervalTree
import Ma35d1.UsbHost.Ehci.Async

/-!
# The shape of the driver's lists

A `View` says what every unit of the descriptor pool is to the driver (its
`Role`) and which units lie on which list, in order. `Shape` relates a view to
the link fields. A unit has one role, so that two lists never share a unit.
-/

namespace Ma35d1.UsbHost.Ehci

open Heap.LinkedPath Heap.IntervalTree

/-! ## Roles -/

inductive Role
  | free
  | ghost
  | head
  | iqh (i : Nat)
  /-- a QH in the asynchronous ring -/
  | async
  /-- an interrupt QH under the head `_Iqh[i]` -/
  | intr (i : Nat)
  | removed
  | queued (h : Addr)
  | done (h : Addr)
  | td (k : IsoKind) (x : IsoId)
  /-- an siTD in the frame list whose endpoint is gone -/
  | orphan
  /-- allocated and on no list -/
  | held (k : HwKind)
  deriving DecidableEq

def Role.kind : Role → Option HwKind
  | .free => none
  | .ghost | .queued _ | .done _ => some .qtd
  | .head | .iqh _ | .async | .intr _ | .removed => some .qh
  | .td k _ => some k.hw
  | .orphan => some .sitd
  | .held k => some k

/-- The roles of the units on a list. -/
def Role.listed : Role → Bool
  | .free | .ghost | .head | .iqh _ | .held _ => false
  | .async | .intr _ | .removed | .queued _ | .done _ | .td .. | .orphan => true

structure View where
  role : Addr → Role
  ring : List Addr
  under : Nat → List Addr
  removed : List Addr
  queued : Addr → List Addr
  done : Addr → List Addr
  tds : IsoKind → IsoId → List Addr
  orphans : List Addr
  frame : Nat → List Addr
  isoEps : List IsoId

namespace View

def list (v : View) : Role → List Addr
  | .async => v.ring
  | .intr i => v.under i
  | .removed => v.removed
  | .queued h => v.queued h
  | .done h => v.done h
  | .td k x => v.tds k x
  | .orphan => v.orphans
  | _ => []

/-- `a` has the role `r` from now on. -/
def become (v : View) (a : Addr) (r : Role) : View :=
  { v with role := Function.update v.role a r }

end View

def level (idx : Nat) : Nat := levelFrom (numIqh - 1) idx

/-- The link word that leads to an iTD or siTD. -/
def tdLink (m : Links) (a : Addr) : Link :=
  if m.pool.unit a = some .itd then .itd a else .sitd a

/-- The roles agree with the pool, the roots and the lists. -/
structure Roles (unit : Addr → Option HwKind) (hQh ghostQtd : Addr) (iqh : Nat → Addr)
    (v : View) : Prop where
  used : ∀ a, v.role a ≠ .free → a < hwMemUnitNum ∧ unit a = (v.role a).kind
  unused : ∀ a, v.role a = .free → ∀ k, unit a = some k → k.isEhci = false
  mem : ∀ r a, r.listed = true → (a ∈ v.list r ↔ v.role a = r)
  head : ∀ a, v.role a = .head ↔ a = hQh
  ghost : ∀ a, v.role a = .ghost ↔ a = ghostQtd
  iqhRole : ∀ i a, v.role a = .iqh i ↔ i < numIqh ∧ a = iqh i
  intrLt : ∀ i a, a ∈ v.under i → i < numIqh
  queuedQh : ∀ h a, a ∈ v.queued h → unit h = some .qh
  doneQh : ∀ h a, a ∈ v.done h → unit h = some .qh
  tdEp : ∀ k x a, a ∈ v.tds k x → x ∈ v.isoEps

/-- The link fields spell out the lists of the view. -/
structure Shape (m : Links) (v : View) : Prop
    extends Roles m.pool.unit m.hQh m.ghostQtd m.iqh v where
  sidx : m.pool.sidx < hwMemUnitNum
  ring : Path Link.qh m.hLink (.qh m.hQh) (m.hQh :: v.ring) (.qh m.hQh)
  chain : Path Link.qh m.hLink (.qh (m.iqh (numIqh - 1))) (chainFrom m.iqh v.under numIqh) .terminate
  asyncUnder : ∀ a ∈ v.ring, m.insertedUnder a = none
  intrUnder : ∀ i, ∀ a ∈ v.under i, m.insertedUnder a = some i
  removed : Path some m.qhNext m.qhRemoveList v.removed none
  queued : ∀ h, m.pool.unit h = some .qh → Path some m.qtdNext (m.qtdList h) (v.queued h) none
  done : ∀ h, m.pool.unit h = some .qh → Path some m.qtdNext (m.doneList h) (v.done h) none
  frame : ∀ idx < flSize,
    Path (tdLink m) m.hLink (m.pfList idx) (v.frame idx) (.qh (m.iqh (level idx)))
  frameMem : ∀ idx < flSize, ∀ a, a ∈ v.frame idx ↔
    (∃ k x, a ∈ v.tds k x ∧ m.schedFrnidx k a = idx) ∨
      (a ∈ v.orphans ∧ m.schedFrnidx .sitd a = idx)
  schedLt : ∀ k x, ∀ a ∈ v.tds k x, m.schedFrnidx k a < flSize
  orphanLt : ∀ a ∈ v.orphans, m.schedFrnidx .sitd a < flSize
  isoEps : Path some m.isoEpNext m.isoEpList v.isoEps none
  isoDma : ∀ x ∈ v.isoEps, x < dmaMemUnitNum ∧ m.dma.used x = true
  nextLt : ∀ x ∈ v.isoEps, m.nextFrame x < flSize
  tds : ∀ k, ∀ x ∈ v.isoEps, Path some (m.tdNext k) (m.tdList k x) (v.tds k x) none

/-! ## Changing the role of one unit -/

section Move

variable {unit : Addr → Option HwKind} {hQh g : Addr} {iqh : Nat → Addr} {v v' : View}
  {a : Addr} {r : Role} {k : HwKind}

theorem Roles.not_mem (h : Roles unit hQh g iqh v) (ha : (v.role a).listed = false) (r : Role) :
    a ∉ v.list r := by
  intro hm
  cases hr : r.listed with
  | true =>
    have he := (h.mem r a hr).mp hm
    rw [he, hr] at ha
    cases ha
  | false => cases r <;> simp [Role.listed, View.list] at hr hm

/-- A held unit goes onto a list. -/
theorem Roles.put (h : Roles unit hQh g iqh v) (ha : v.role a = .held k) (hr : r.listed = true)
    (hk : r.kind = some k) (hrole : v'.role = Function.update v.role a r)
    (hl : ∀ r', r' ≠ r → v'.list r' = v.list r') (hin : ∀ x, x ∈ v'.list r ↔ x = a ∨ x ∈ v.list r)
    (hx : v'.isoEps = v.isoEps) (hi : ∀ i, r = .intr i → i < numIqh)
    (hq : ∀ b, r = .queued b → unit b = some .qh) (hd : ∀ b, r = .done b → unit b = some .qh)
    (ht : ∀ k x, r = .td k x → x ∈ v.isoEps) : Roles unit hQh g iqh v' := by
  have hself : v'.role a = r := by rw [hrole, Function.update_self]
  have hne : ∀ x, x ≠ a → v'.role x = v.role x := fun x hx => by rw [hrole, Function.update_of_ne hx]
  have hout : ∀ r', a ∉ v.list r' := h.not_mem (by rw [ha]; rfl)
  have hspecial : ∀ r', r'.listed = false → (∀ k, r' ≠ .held k) → ∀ x, v'.role x = r' ↔ v.role x = r' := by
    intro r' hr' hk' x
    by_cases hxa : x = a
    · subst hxa
      rw [hself, ha]
      constructor
      · rintro rfl; rw [hr] at hr'; cases hr'
      · rintro rfl; exact absurd rfl (hk' k)
    · rw [hne x hxa]
  have hsub : ∀ r' x, x ∈ v'.list r' → (x = a ∧ r' = r) ∨ x ∈ v.list r' := by
    intro r' x hm
    by_cases hrr : r' = r
    · subst hrr
      rcases (hin x).mp hm with hxa | hm
      · exact .inl ⟨hxa, rfl⟩
      · exact .inr hm
    · rw [hl r' hrr] at hm
      exact .inr hm
  constructor
  · intro x hxf
    by_cases hxa : x = a
    · subst hxa
      rw [hself, hk]
      have hu := h.used x (by rw [ha]; exact Role.noConfusion)
      rw [ha] at hu
      exact hu
    · rw [hne x hxa] at hxf ⊢
      exact h.used x hxf
  · intro x hxf
    exact h.unused x ((hspecial .free rfl (fun _ => Role.noConfusion) x).mp hxf)
  · intro r' x hr'
    by_cases hrr : r' = r
    · subst hrr
      rw [hin x]
      by_cases hxa : x = a
      · subst hxa; simp [hself]
      · rw [hne x hxa, h.mem r' x hr']; simp [hxa]
    · rw [hl r' hrr]
      by_cases hxa : x = a
      · subst hxa
        rw [hself]
        exact ⟨fun hm => absurd hm (hout r'), fun he => absurd he.symm hrr⟩
      · rw [hne x hxa]; exact h.mem r' x hr'
  · exact fun x => (hspecial .head rfl (fun _ => Role.noConfusion) x).trans (h.head x)
  · exact fun x => (hspecial .ghost rfl (fun _ => Role.noConfusion) x).trans (h.ghost x)
  · exact fun i x => (hspecial (.iqh i) rfl (fun _ => Role.noConfusion) x).trans (h.iqhRole i x)
  · intro i x hm
    rcases hsub (.intr i) x hm with ⟨_, he⟩ | hm
    · exact hi i he.symm
    · exact h.intrLt i x hm
  · intro b x hm
    rcases hsub (.queued b) x hm with ⟨_, he⟩ | hm
    · exact hq b he.symm
    · exact h.queuedQh b x hm
  · intro b x hm
    rcases hsub (.done b) x hm with ⟨_, he⟩ | hm
    · exact hd b he.symm
    · exact h.doneQh b x hm
  · intro k x y hm
    rw [hx]
    rcases hsub (.td k x) y hm with ⟨_, he⟩ | hm
    · exact ht k x he.symm
    · exact h.tdEp k x y hm

/-- A unit is taken off its list. -/
theorem Roles.take (h : Roles unit hQh g iqh v) (ha : v.role a = r) (hr : r.listed = true)
    (hk : r.kind = some k) (hrole : v'.role = Function.update v.role a (.held k))
    (hl : ∀ r', r' ≠ r → v'.list r' = v.list r') (hin : ∀ x, x ∈ v'.list r ↔ x ≠ a ∧ x ∈ v.list r)
    (hx : v'.isoEps = v.isoEps) : Roles unit hQh g iqh v' := by
  have hself : v'.role a = .held k := by rw [hrole, Function.update_self]
  have hne : ∀ x, x ≠ a → v'.role x = v.role x := fun x hx => by rw [hrole, Function.update_of_ne hx]
  have hspecial : ∀ r', r'.listed = false → (∀ k, r' ≠ .held k) → ∀ x, v'.role x = r' ↔ v.role x = r' := by
    intro r' hr' hk' x
    by_cases hxa : x = a
    · subst hxa
      rw [hself, ha]
      constructor
      · rintro rfl; exact absurd rfl (hk' k)
      · rintro rfl; rw [hr] at hr'; cases hr'
    · rw [hne x hxa]
  have hsub : ∀ r' x, x ∈ v'.list r' → x ∈ v.list r' := by
    intro r' x hm
    by_cases hrr : r' = r
    · subst hrr; exact ((hin x).mp hm).2
    · rw [hl r' hrr] at hm; exact hm
  constructor
  · intro x hxf
    by_cases hxa : x = a
    · subst hxa
      have hu := h.used x (by rw [ha]; rintro rfl; cases hr)
      rw [ha, hk] at hu
      rw [hself]
      exact hu
    · rw [hne x hxa] at hxf ⊢
      exact h.used x hxf
  · intro x hxf
    exact h.unused x ((hspecial .free rfl (fun _ => Role.noConfusion) x).mp hxf)
  · intro r' x hr'
    by_cases hrr : r' = r
    · subst hrr
      rw [hin x]
      by_cases hxa : x = a
      · subst hxa; rw [hself]; simp; rintro rfl; cases hr
      · rw [hne x hxa, h.mem r' x hr']; simp [hxa]
    · rw [hl r' hrr, h.mem r' x hr']
      by_cases hxa : x = a
      · subst hxa
        rw [hself, ha]
        constructor
        · exact fun he => absurd he.symm hrr
        · rintro rfl; cases hr'
      · rw [hne x hxa]
  · exact fun x => (hspecial .head rfl (fun _ => Role.noConfusion) x).trans (h.head x)
  · exact fun x => (hspecial .ghost rfl (fun _ => Role.noConfusion) x).trans (h.ghost x)
  · exact fun i x => (hspecial (.iqh i) rfl (fun _ => Role.noConfusion) x).trans (h.iqhRole i x)
  · exact fun i x hm => h.intrLt i x (hsub (.intr i) x hm)
  · exact fun b x hm => h.queuedQh b x (hsub (.queued b) x hm)
  · exact fun b x hm => h.doneQh b x (hsub (.done b) x hm)
  · intro k x y hm
    rw [hx]
    exact h.tdEp k x y (hsub (.td k x) y hm)

end Move

end Ma35d1.UsbHost.Ehci
