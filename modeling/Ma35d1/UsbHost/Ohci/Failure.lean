import Ma35d1.UsbHost.Ohci.Boot
import Ma35d1.UsbHost.Ohci.Rollback

/-!
# When a failed submission changes nothing

Each routine undoes a failed submission in its own way. `ohci_ctrl_xfer` returns what it
took. `ohci_bulk_xfer` frees its ED even where the ED was there before, and leaves
`hw_pipe` behind; `ohci_iso_xfer` frees its ED just so. `ohci_int_xfer` forgets the TD it
took first when no ED is left.
-/

namespace Ma35d1.UsbHost.Ohci

variable {s s' : Ohci} {u : UtrId} {e : EpId} {ed : Addr} {list : Ptr} {r : Int}

/-! ## Freeing an ED of a list -/

theorem findInfo_onList {m : Lists} {info : BitVec 32} {n : Nat} {p : Ptr}
    (hp : ∀ a, p = some a → OnList m a) (h : findInfo m info n p = some (some ed)) :
    OnList m ed := by
  induction n generalizing p with
  | zero => cases h
  | succ n ih =>
    cases p with
    | none => cases h
    | some a =>
      rw [findInfo] at h
      split at h
      · obtain rfl := Option.some.inj (Option.some.inj h)
        exact hp a rfl
      · exact ih (fun b hb => .next (hp a rfl) hb) h

theorem treeIndex_lt (interval : Nat) : treeIndex interval < numIed := by
  have hle (n i k : Nat) : intTreeHeadIndex n i k ≤ i + n := by
    induction n generalizing i k with
    | zero => exact Nat.le_refl i
    | succ n ih =>
      rw [intTreeHeadIndex]
      split
      · omega
      · exact (ih (i + 1) _).trans (by omega)
  exact Nat.lt_succ_of_le ((hle 5 0 interval).trans (by decide))

theorem trace_allocTd {v : Option UtrId} {a : Addr} (h : s.allocOhciTd v = some (a, s')) :
    s'.trace = s.trace := by
  obtain ⟨⟨i, pool⟩, -, he⟩ := Option.map_eq_some_iff.mp h
  obtain ⟨rfl, rfl⟩ := Prod.mk.inj he
  rfl

theorem chainTd_trace {td first : Addr} (h : chainTd list td s = some (first, s')) :
    s'.trace = s.trace := by
  cases list with
  | none =>
    obtain ⟨rfl, rfl⟩ := Prod.mk.inj (Option.some.inj h)
    rfl
  | some a =>
    obtain ⟨p, -, he⟩ := Option.map_eq_some_iff.mp h
    obtain ⟨rfl, rfl⟩ := Prod.mk.inj he
    rfl

theorem bulkTds_trace {n : Nat} {buff dataLen : BitVec 32} {b : Bool} {list' : Ptr}
    (h : bulkTds u e ed n buff dataLen list s = some (b, list', s')) : s'.trace = s.trace := by
  induction n generalizing buff dataLen list s with
  | zero => cases h
  | succ n ih =>
    rw [bulkTds] at h
    split at h
    · obtain ⟨-, he⟩ := Prod.mk.inj (Option.some.inj h)
      exact congrArg Ohci.trace (Prod.mk.inj he).2.symm
    · rename_i td s₁ ha
      obtain ⟨⟨first, s₂⟩, hc, h⟩ := Option.bind_eq_some_iff.mp h
      have ht : s₂.trace = s.trace := by
        rw [chainTd_trace hc, ← trace_allocTd ha]
        rfl
      split at h
      · obtain ⟨-, he⟩ := Prod.mk.inj (Option.some.inj h)
        exact (congrArg Ohci.trace (Prod.mk.inj he).2.symm).trans ht
      · exact (ih h).trans ht

theorem isoTds_trace {n i : Nat} {last : Ptr} :
    (isoTds u ed n i list last s).2.2.trace = s.trace := by
  induction n generalizing i list last s with
  | zero => rfl
  | succ n ih =>
    rw [isoTds]
    simp only
    split
    · rfl
    · rename_i td s₁ ha
      have ht := trace_allocTd ha
      rw [ih]
      split <;> exact ht

theorem freeTdChain_trace {n : Nat} (h : freeTdChain n list s = some s') :
    ∃ l, s'.trace = l ++ s.trace := by
  induction n generalizing list s with
  | zero => cases h
  | succ n ih =>
    cases list with
    | none => exact ⟨[], congrArg Ohci.trace (Option.some.inj h).symm⟩
    | some td =>
      obtain ⟨l, hl⟩ := ih h
      exact ⟨l ++ [.free .td td s.toLists], by rw [hl, List.append_assoc]; rfl⟩

/-- The label `mem_out` frees the ED, whichever it is. -/
theorem memOut_not_unchanged {s₀ : Ohci} (hed : OnList s₀.toLists ed) (ht : s.trace = s₀.trace)
    (h : memOut ed list s = some (r, s')) : ¬ Unchanged s₀ s' := by
  obtain ⟨s₁, hs₁, he⟩ := Option.map_eq_some_iff.mp h
  obtain ⟨-, rfl⟩ := Prod.mk.inj he
  obtain ⟨l, hl⟩ := freeTdChain_trace hs₁
  intro hun
  obtain ⟨l', hl', hf⟩ := hun.freed
  have heq : .free .ed ed s₁.toLists :: l ++ s₀.trace = l' ++ s₀.trace := by
    rw [← hl', ← ht, List.cons_append, ← hl]
    rfl
  rw [← List.append_cancel_right heq] at hf
  exact hf .ed ed s₁.toLists List.mem_cons_self hed

/-! ## The calls -/

inductive Call
  | ctrl | bulk | int | iso
  deriving DecidableEq, Repr

def submit : Call → UtrId → Ohci → Option (Int × Ohci)
  | .ctrl => ohciCtrlXfer
  | .bulk => ohciBulkXfer
  | .int => ohciIntXfer
  | .iso => ohciIsoXfer

/-- The word `ed_make_info` returns for the endpoint `e` of the request. -/
def infoOf (u : UtrId) (e : EpId) (s : Ohci) : BitVec 32 :=
  edMakeInfo (s.udev (s.utr u).udev) (some (s.ep e))

/-- The ED that `ohci_bulk_xfer` finds. -/
def bulkEd (u : UtrId) (s : Ohci) : Option Ptr :=
  (s.utrEp u).bind fun e => findInfo s.toLists (infoOf u e s) ohciFuel s.hcBulkHeadED

/-- The ED that `ohci_int_xfer` and `ohci_iso_xfer` find. -/
def periodicEd (u : UtrId) (s : Ohci) : Option Ptr :=
  (s.utrEp u).bind fun e => findInfo s.toLists (infoOf u e s) ohciFuel
    (some (getIntTreeHeadNode s.toLists (s.ep e).bInterval))

/-- Whether a submission that fails from here undoes what it did. -/
def Undoes (c : Call) (u : UtrId) (s : Ohci) : Prop :=
  match c with
  | .ctrl => True
  | .bulk =>
    (∃ ed, bulkEd u s = some (some ed) ∧ s.headP ed ≠ s.tailP ed) ∨
      (bulkEd u s = some none ∧ ∀ e ed, s.utrEp u = some e →
        s.pool.firstFree hwMemUnitNum 0 = some ed → s.hwPipe e = .ed ed)
  | .int => 64#32 < (s.utr u).dataLen ∨ s.pool.avail ≠ 1
  | .iso => periodicEd u s = some none

theorem bulk_unchanged_iff (hu : Undamaged s) (h : ohciBulkXfer u s = some (r, s'))
    (hr : r < 0) : Unchanged s s' ↔ Undoes .bulk u s := by
  obtain ⟨e, hep, h⟩ := Option.bind_eq_some_iff.mp h
  obtain ⟨found, hfind, h⟩ := Option.bind_eq_some_iff.mp h
  have hed : bulkEd u s = some found := by
    rw [bulkEd, hep]
    exact hfind
  cases found with
  | some ed =>
    simp only at h
    split at h
    · rename_i hbusy
      obtain ⟨rfl, rfl⟩ := Prod.mk.inj (Option.some.inj h)
      exact ⟨fun _ => .inl ⟨ed, hed, hbusy⟩, fun _ => .refl s⟩
    · rename_i hidle
      have hon : OnList s.toLists ed := findInfo_onList (fun a ha => .bulk ha) hfind
      obtain ⟨⟨b, list, s₁⟩, hb, h⟩ := Option.bind_eq_some_iff.mp h
      have hnot : ¬ Unchanged s s' := by
        cases b with
        | true =>
          obtain ⟨rfl, -⟩ := Prod.mk.inj (Option.some.inj h)
          exact absurd hr (Int.lt_irrefl 0)
        | false =>
          have ht := bulkTds_trace hb
          exact memOut_not_unchanged hon ht h
      refine ⟨fun hun => absurd hun hnot, fun hun => ?_⟩
      rcases hun with ⟨ed', he', hb'⟩ | ⟨hn, -⟩
      · rw [hed] at he'
        obtain rfl := Option.some.inj (Option.some.inj he')
        exact absurd hb' hidle
      · rw [hed] at hn
        cases hn
  | none =>
    simp only at h
    split at h
    · rename_i hnone
      obtain ⟨rfl, rfl⟩ := Prod.mk.inj (Option.some.inj h)
      refine ⟨fun _ => .inr ⟨hed, fun e' ed' _ hf => ?_⟩, fun _ => .refl s⟩
      rw [Ohci.allocOhciEd, Option.map_eq_none_iff, HwPool.allocOhci, hf] at hnone
      cases hnone
    · rename_i ed s₁ ha
      have hfree : s.pool.firstFree hwMemUnitNum 0 = some ed := by
        obtain ⟨⟨i, pool⟩, hp, he⟩ := Option.map_eq_some_iff.mp ha
        obtain ⟨rfl, -⟩ := Prod.mk.inj he
        obtain ⟨j, hj, he⟩ := Option.map_eq_some_iff.mp hp
        obtain ⟨rfl, -⟩ := Prod.mk.inj he
        exact hj
      have hnew : Holds s s.hwPipe [(ed, .ed)] { s₁ with
          edInfo := Function.update s₁.edInfo ed (infoOf u e s) } := by
        have ha' := (Holds.refl s).allocEd ha
        have := ha'.write (t := { s₁ with
            edInfo := Function.update s₁.edInfo ed (infoOf u e s) }) rfl ⟨rfl, rfl, rfl, rfl⟩ rfl
          fun b hb => by
            have hbe : b ≠ ed := fun he => hb (he ▸ List.mem_cons_self)
            exact ⟨Function.update_of_ne hbe .., rfl, rfl, rfl, rfl, rfl, rfl, rfl, rfl, rfl⟩
        exact ha'.hwPipe ▸ this
      have hholds := bulkOnEd_holds hnew h hr
      refine ⟨fun hun => .inr ⟨hed, fun e' ed' he' hf => ?_⟩, fun hun => ?_⟩
      · rw [hep] at he'
        rw [hfree] at hf
        obtain rfl := Option.some.inj he'
        obtain rfl := Option.some.inj hf
        rw [← hun.hwPipe, hholds.hwPipe, Function.update_self]
      · rcases hun with ⟨ed', he', -⟩ | ⟨-, hpipe⟩
        · rw [hed] at he'
          cases he'
        · refine hholds.unchanged hu ?_
          rw [← hpipe e ed hep hfree, Function.update_eq_self]

theorem int_unchanged_iff (hu : Undamaged s) (h : ohciIntXfer u s = some (r, s'))
    (hr : r < 0) : Unchanged s s' ↔ Undoes .int u s := by
  rw [ohciIntXfer] at h
  split at h
  · rename_i hlen
    obtain ⟨rfl, rfl⟩ := Prod.mk.inj (Option.some.inj h)
    exact ⟨fun _ => .inl hlen, fun _ => .refl s⟩
  · rename_i hlen
    split at h
    · rename_i hnone
      obtain ⟨rfl, rfl⟩ := Prod.mk.inj (Option.some.inj h)
      rw [Ohci.allocOhciTd, Option.map_eq_none_iff, HwPool.allocOhci_eq_none_iff] at hnone
      exact ⟨fun _ => .inr (by omega), fun _ => .refl s⟩
    · rename_i td s₁ ha
      obtain ⟨e, -, h⟩ := Option.bind_eq_some_iff.mp h
      obtain ⟨found, -, h⟩ := Option.bind_eq_some_iff.mp h
      have h₁ := (Holds.refl s).allocTd ha
      have hav : s₁.pool.avail + 1 = s.pool.avail := by
        obtain ⟨⟨i, pool⟩, hp, he⟩ := Option.map_eq_some_iff.mp ha
        obtain ⟨rfl, rfl⟩ := Prod.mk.inj he
        obtain ⟨hlt, hfree, rfl⟩ := HwPool.allocOhci_some hp
        exact HwPool.avail_take hlt hfree
      cases found with
      | some ed =>
        obtain ⟨t, -, h⟩ := Option.bind_eq_some_iff.mp h
        obtain ⟨rfl, -⟩ := Prod.mk.inj (Option.some.inj h)
        exact absurd hr (Int.lt_irrefl 0)
      | none =>
        have h := Option.some.inj h
        cases hed : s₁.allocOhciEd with
        | none =>
          rw [intNewEd, hed] at h
          obtain ⟨-, rfl⟩ := Prod.mk.inj h
          rw [Ohci.allocOhciEd, Option.map_eq_none_iff, HwPool.allocOhci_eq_none_iff] at hed
          refine ⟨fun hun => ?_, fun hun => ?_⟩
          · have hheld := h₁.held (td, .td) List.mem_cons_self
            rw [hun.pool, h₁.wasFree (td, .td) List.mem_cons_self] at hheld
            cases hheld
          · rcases hun with h64 | h1
            · exact absurd h64 hlen
            · omega
        | some x =>
          refine ⟨fun _ => .inr fun h1 => ?_, fun _ => (intNewEd_holds h₁ hed h hr).unchanged hu rfl⟩
          have hne : s₁.pool.allocOhci .ed ≠ none := fun hn => by
            rw [Ohci.allocOhciEd, hn] at hed
            cases hed
          exact hne (HwPool.allocOhci_eq_none_iff.mpr (by omega))

theorem iso_unchanged_iff (hu : Undamaged s) (h : ohciIsoXfer u s = some (r, s'))
    (hr : r < 0) : Unchanged s s' ↔ Undoes .iso u s := by
  obtain ⟨e, hep, h⟩ := Option.bind_eq_some_iff.mp h
  obtain ⟨found, hfind, h⟩ := Option.bind_eq_some_iff.mp h
  have hed : periodicEd u s = some found := by
    rw [periodicEd, hep]
    exact hfind
  cases found with
  | some ed =>
    have hon : OnList s.toLists ed := by
      refine findInfo_onList (fun a ha => ?_) hfind
      obtain rfl := Option.some.inj ha
      exact .head _ (treeIndex_lt _)
    obtain ⟨b, list, s₁, ht, hm⟩ := isoOnEd_neg h hr
    have htr : s₁.trace = s.trace := by
      have hloop : s₁ = (isoTds u ed ifPerUtr 0 none none
          (isoPrep u ed (s.setHwPipe e (.ed ed)))).2.2 := by rw [ht]
      rw [hloop, isoTds_trace, (isoPrep_toLists ..).2]
      rfl
    refine ⟨fun hun => absurd hun (memOut_not_unchanged hon htr hm), fun hun => ?_⟩
    change periodicEd u s = some none at hun
    rw [hed] at hun
    cases hun
  | none =>
    refine ⟨fun _ => hed, fun _ => ?_⟩
    simp only at h
    split at h
    · obtain ⟨rfl, rfl⟩ := Prod.mk.inj (Option.some.inj h)
      exact .refl s
    · rename_i ed s₁ ha
      have ha' := (Holds.refl s).allocEd ha
      refine (isoOnEd_holds (p := s.hwPipe) ?_ h hr).unchanged hu rfl
      have := ha'.write (t := newPeriodicEd e (edMakeInfo (s.udev (s.utr u).udev)
        (some (s.ep e))) ed s₁) rfl ⟨rfl, rfl, rfl, rfl⟩ rfl fun b hb => by
          have hbe : b ≠ ed := fun he => hb (he ▸ List.mem_cons_self)
          exact ⟨Function.update_of_ne hbe .., rfl, rfl, rfl, Function.update_of_ne hbe .., rfl,
            rfl, rfl, rfl, rfl⟩
      exact ha'.hwPipe ▸ this

/-- An interrupt transfer with one unit left. -/
def lastUnit : Ohci := prepared 0 (sampleUtr 0 8#32) (some (.alt 2)) (crowd [6] sampleStart)

theorem lastUnit_onList {a : Addr} (h : OnList lastUnit.toLists a) : a < 6 := by
  have hopt {p : Ptr} {b : Addr} (hp : p.all (· < 6) = true) (hb : p = some b) : b < 6 := by
    rw [hb] at hp
    exact of_decide_eq_true hp
  induction h with
  | control h => exact hopt (by decide) h
  | bulk h => exact hopt (by decide) h
  | table idx hi h =>
    have hall : ∀ idx < 32, (lastUnit.intTable idx).all (· < 6) = true := by decide
    exact hopt (hall idx hi) h
  | head i hi =>
    have hall : ∀ i < numIed, lastUnit.ied i < 6 := by decide
    exact hall i hi
  | @next a b _ h ih =>
    have hall : ∀ a < 6, (lastUnit.nextED a).all (· < 6) = true := by decide
    exact hopt (hall a ih) h

theorem lastUnit_undamaged : Undamaged lastUnit := by
  have hempty : ∀ a < 6, lastUnit.headP a = none ∧ lastUnit.tailP a = none := by decide
  have hqueue {t : Addr} (h : OnQueue lastUnit.toLists t) : False := by
    induction h with
    | first ha h => exact nomatch ((hempty _ (lastUnit_onList ha)).1.symm.trans h)
    | tail ha h => exact nomatch ((hempty _ (lastUnit_onList ha)).2.symm.trans h)
    | next _ _ ih => exact ih
  have hused : ∀ a < 6, lastUnit.pool.unit a ≠ none := by decide
  rintro a (ha | ha)
  · exact hused a (lastUnit_onList ha)
  · exact (hqueue ha).elim

theorem lastUnit_int : (submit .int 0 lastUnit).map (·.1) = some usbhErrMemoryOut := by
  decide +kernel

theorem lastUnit_iso : (submit .iso 0 lastUnit).map (·.1) = some usbhErrMemoryOut := by
  decide +kernel

end Ma35d1.UsbHost.Ohci
