import Mathlib.Data.List.Basic
import Mathlib.Data.Nat.Count
import Ma35d1.Gmac.Desc
import Ma35d1.Machine.Trace

/-!
# The receive ring

`GMAC_set_rx_qptr` adds a buffer to the ring and `GMAC_get_rx_qptr` takes the oldest frame.
The DMA stores frames in order into the descriptors it owns. `GMAC_get_rx_qptr` sets the OWN
bit of the descriptor it has just returned, so the buffer is with the software and with the
DMA at once.
-/

namespace Ma35d1.Gmac

open Ma35d1.Machine

def moduloInterrupt : BitVec 32 := 1
def descRxDisIntCompl : BitVec 32 := 0x80000000

/-- The fields of a `GMACdevice` that the receive ring uses, and its descriptors. -/
structure RxRing where
  desc : Nat → DmaDesc
  rxDescCount : Nat
  busyRxDesc : BitVec 32
  rxBusy : BitVec 32
  rxNext : BitVec 32
  rxBusyDesc : Nat
  rxNextDesc : Nat

/-- `GMAC_setup_rx_desc_queue`, with what the memory held before. -/
def setupRxDescQueue (mem : Nat → DmaDesc) (no_of_desc : BitVec 32) : RxRing :=
  { desc := fun i =>
      if i < no_of_desc.toNat then rxDescInitRing (mem i) (i + 1 = no_of_desc.toNat) else mem i
    rxDescCount := no_of_desc.toNat
    busyRxDesc := 0, rxBusy := 0, rxNext := 0, rxBusyDesc := 0, rxNextDesc := 0 }

/-- What `GMAC_set_rx_qptr` writes to the descriptor of index `rxnext`. -/
def rxFillDesc (rxdesc : DmaDesc) (rxnext Buffer1 Length1 : BitVec 32) : DmaDesc :=
  let length := rxdesc.length ||| ((Length1 <<< eDescSize1Shift) &&& eDescSize1Mask)
  { status := descOwnByDma
    length := if rxnext % moduloInterrupt ≠ 0 then length ||| descRxDisIntCompl else length
    buffer1 := Buffer1
    buffer2 := 0, extstatus := 0, reserved1 := 0, timestamplow := 0, timestamphigh := 0 }

/-- A buffer is added at `RxNextDesc`. -/
def RxRing.add (r : RxRing) (Buffer1 Length1 : BitVec 32) : RxRing :=
  let rxdesc := rxFillDesc (r.desc r.rxNextDesc) r.rxNext Buffer1 Length1
  { r with
    desc := Function.update r.desc r.rxNextDesc rxdesc
    rxNext := nextIdx rxdesc.isLastRx r.rxNext
    rxNextDesc := nextDesc rxdesc.isLastRx r.rxNextDesc
    busyRxDesc := r.busyRxDesc + 1 }

/-- `GMAC_set_rx_qptr`, or `none` for -1 -/
def RxRing.setRxQptr (r : RxRing) (Buffer1 Length1 : BitVec 32) : Option RxRing :=
  if (r.desc r.rxNextDesc).isEmpty = false then none else some (r.add Buffer1 Length1)

/-- What `GMAC_get_rx_qptr` reads from a descriptor. -/
structure RxQptr where
  Status : BitVec 32
  Length : BitVec 32
  Buffer1 : BitVec 32
  Buffer2 : BitVec 32
  ExtStatus : BitVec 32
  TSHigh : BitVec 32
  TSLow : BitVec 32

def readRxDesc (rxdesc : DmaDesc) : RxQptr :=
  { Status := rxdesc.status
    Length := (rxdesc.length &&& eDescSize1Mask) >>> eDescSize1Shift
    Buffer1 := rxdesc.buffer1
    Buffer2 := rxdesc.buffer2
    ExtStatus := rxdesc.extstatus
    TSHigh := rxdesc.timestamphigh
    TSLow := rxdesc.timestamplow }

/-- The ring after `GMAC_get_rx_qptr` has read the descriptor at `RxBusyDesc`. -/
def RxRing.rearm (r : RxRing) : RxRing :=
  let rxdesc := r.desc r.rxBusyDesc
  { r with
    rxBusy := nextIdx rxdesc.isLastRx r.rxBusy
    rxBusyDesc := nextDesc rxdesc.isLastRx r.rxBusyDesc
    desc := Function.update r.desc r.rxBusyDesc
      { rxdesc with status := descOwnByDma, extstatus := 0, reserved1 := 0, timestamplow := 0,
                    timestamphigh := 0 }
    busyRxDesc := r.busyRxDesc - 1 }

/-- `GMAC_get_rx_qptr`: the index and the descriptor's words, or `none` for -1. -/
def RxRing.getRxQptr (r : RxRing) : Option (BitVec 32 × RxQptr × RxRing) :=
  let rxdesc := r.desc r.rxBusyDesc
  if rxdesc.ownedByDma then none
  else if rxdesc.isEmpty then none
  else some (r.rxBusy, readRxDesc rxdesc, r.rearm)

/-! ## Runs -/

/-- A frame, as the DMA stores it. -/
structure RxFrame where
  status : BitVec 32
  extstatus : BitVec 32
  tsLow : BitVec 32
  tsHigh : BitVec 32
  data : List (BitVec 8)

/-- The ring, the DMA's own place, what the buffers of the descriptors hold, and what went in
and out. -/
structure RxState extends RxRing where
  dma : Nat
  data : Nat → List (BitVec 8)
  /-- the descriptors that hold a frame not yet taken -/
  holds : Nat → Bool
  /-- the descriptors whose buffer the software has and has not given back -/
  handed : Nat → Bool
  received : List RxFrame
  returned : List RxFrame

inductive RxEvent
  | set (Buffer1 Length1 : BitVec 32)
  /-- the DMA stores a frame -/
  | receive (f : RxFrame)
  | get

/-- A buffer is added, given back where the software had it. -/
def RxState.added (s : RxState) (Buffer1 Length1 : BitVec 32) : RxState :=
  { s with
    toRxRing := s.add Buffer1 Length1
    holds := Function.update s.holds s.rxNextDesc false
    handed := Function.update s.handed s.rxNextDesc false }

/-- A frame goes to the descriptor the DMA is at. -/
def RxState.store (s : RxState) (f : RxFrame) : RxState :=
  let d := s.desc s.dma
  { s with
    desc := Function.update s.desc s.dma
      { d with status := f.status, extstatus := f.extstatus, timestamplow := f.tsLow,
               timestamphigh := f.tsHigh }
    data := Function.update s.data s.dma f.data
    holds := Function.update s.holds s.dma true
    dma := nextDesc d.isLastRx s.dma
    received := s.received ++ [f] }

/-- A frame is taken. -/
def RxState.take (s : RxState) (out : RxQptr) (r : RxRing) : RxState :=
  { s with
    toRxRing := r
    holds := Function.update s.holds s.rxBusyDesc false
    handed := Function.update s.handed s.rxBusyDesc true
    returned := s.returned ++
      [⟨out.Status, out.ExtStatus, out.TSLow, out.TSHigh, s.data s.rxBusyDesc⟩] }

def rxStep (s : RxState) : RxEvent → Option RxState
  | .set Buffer1 Length1 =>
    match s.setRxQptr Buffer1 Length1 with
    | none => some s
    | some _ => some (s.added Buffer1 Length1)
  | .receive f =>
    if (s.desc s.dma).ownedByDma = true ∧
        ({ s.desc s.dma with status := f.status } : DmaDesc).ownedByDma = false then
      some (s.store f)
    else none
  | .get =>
    match s.getRxQptr with
    | none => some s
    | some (_, out, r) => some (s.take out r)

def rxStart (mem : Nat → DmaDesc) (no_of_desc : BitVec 32) : RxState :=
  { setupRxDescQueue mem no_of_desc with
    dma := 0, data := fun _ => [], holds := fun _ => false, handed := fun _ => false
    received := [], returned := [] }

/-- The descriptor is owned by the DMA or holds a frame not yet taken. -/
def RxState.occupied (s : RxState) (i : Nat) : Bool := (s.desc i).ownedByDma || s.holds i

/-- What the ring should promise in every state. -/
structure RxLaw (s : RxState) : Prop where
  inOrder : s.returned <+: s.received
  /-- the frames not yet returned are in the ring -/
  pending : s.received.length =
    s.returned.length + Nat.count (fun i => s.holds i = true) s.rxDescCount
  /-- a buffer that the software has is not the DMA's -/
  handedOver : ∀ i < s.rxDescCount, s.handed i = true → (s.desc i).ownedByDma = false
  busy : s.busyRxDesc.toNat = Nat.count (fun i => s.occupied i = true) s.rxDescCount

/-- No call takes a frame, and no buffer is added to a descriptor that has one. -/
def RxKept (s : RxState) : RxEvent → Prop
  | .set _ _ => (s.desc s.rxNextDesc).isEmpty = true → s.occupied s.rxNextDesc = false
  | .receive _ => True
  | .get => s.getRxQptr = none

/-! ## While no frame is taken -/

/-- The first `g` descriptors were added, and the first of these hold the frames. -/
structure RxInv (s : RxState) (g : Nat) : Prop where
  count_pos : 0 < s.rxDescCount
  count_lt : s.rxDescCount < 2 ^ 32
  added_le : g ≤ s.rxDescCount
  received_le : s.received.length ≤ g
  owned : ∀ i < s.rxDescCount,
    (s.desc i).ownedByDma = true ↔ s.received.length ≤ i ∧ i < g
  holds : ∀ i < s.rxDescCount, s.holds i = true ↔ i < s.received.length
  handed : ∀ i, s.handed i = false
  last : ∀ i < s.rxDescCount, (s.desc i).isLastRx = true ↔ i + 1 = s.rxDescCount
  dma : s.dma = s.received.length % s.rxDescCount
  nextDesc : s.rxNextDesc = g % s.rxDescCount
  nextIdx : s.rxNext.toNat = s.rxNextDesc
  busyDesc : s.rxBusyDesc = 0
  returned : s.returned = []
  busy : s.busyRxDesc.toNat = g

/-- As many numbers satisfy a predicate as lie below its bound. -/
theorem count_eq_of_lt {p : Nat → Prop} [DecidablePred p] {m n : Nat} (hm : m ≤ n)
    (h : ∀ i < n, p i ↔ i < m) : Nat.count p n = m := by
  induction n generalizing m with
  | zero =>
    rw [Nat.count_zero]
    omega
  | succ n ih =>
    rw [Nat.count_succ]
    by_cases hmn : m = n + 1
    · have hp : p n := (h n (Nat.lt_succ_self n)).2 (by omega)
      rw [if_pos hp, ih (Nat.le_refl n), hmn]
      intro i hi
      exact iff_of_true ((h i (by omega)).2 (by omega)) hi
    · have hp : ¬ p n := fun hp => absurd ((h n (Nat.lt_succ_self n)).1 hp) (by omega)
      rw [if_neg hp, Nat.add_zero]
      exact ih (by omega) fun i hi => h i (by omega)

section Steps

variable {s t : RxState} {e : RxEvent} {g : Nat} {d : DmaDesc} {f : RxFrame}
  {rxnext Buffer1 Length1 : BitVec 32}

theorem rxFill_owned : (rxFillDesc d rxnext Buffer1 Length1).ownedByDma = true := by
  rw [ownedByDma_eq]
  simp only [rxFillDesc]
  decide

/-- Adding a buffer leaves the end-of-ring bit as it is. -/
theorem rxFill_last : (rxFillDesc d rxnext Buffer1 Length1).isLastRx = d.isLastRx := by
  rw [isLastRx_eq, isLastRx_eq]
  have hmask : eDescSize1Mask.getLsbD 15 = false := by decide
  have hint : descRxDisIntCompl.getLsbD 15 = false := by decide
  simp only [rxFillDesc]
  split <;> simp only [BitVec.getLsbD_or, BitVec.getLsbD_and, hmask, hint, Bool.and_false,
    Bool.or_false]

theorem rxDescInitRing_owned {last : Bool} : (rxDescInitRing d last).ownedByDma = false := by
  rw [ownedByDma_eq]
  simp only [rxDescInitRing]
  decide

theorem rxDescInitRing_last {last : Bool} : (rxDescInitRing d last).isLastRx = last := by
  rw [isLastRx_eq]
  simp only [rxDescInitRing]
  cases last <;> decide

theorem RxInv.occupied_iff (h : RxInv s g) {i : Nat} (hi : i < s.rxDescCount) :
    s.occupied i = true ↔ i < g := by
  have hle := h.received_le
  unfold RxState.occupied
  rw [Bool.or_eq_true, h.owned i hi, h.holds i hi]
  omega

theorem RxInv.law (h : RxInv s g) : RxLaw s := by
  refine ⟨by rw [h.returned]; exact List.nil_prefix, ?_, fun i _ hi => ?_, ?_⟩
  · rw [count_eq_of_lt (h.received_le.trans h.added_le) h.holds, h.returned]
    exact (Nat.zero_add _).symm
  · rw [h.handed i] at hi
    exact absurd hi Bool.false_ne_true
  · rw [count_eq_of_lt h.added_le fun i hi => h.occupied_iff hi]
    exact h.busy

/-- There is room where the next descriptor is not occupied. -/
theorem RxInv.room_iff (h : RxInv s g) : s.occupied s.rxNextDesc = false ↔ g < s.rxDescCount := by
  have hle := h.added_le
  have hlt : s.rxNextDesc < s.rxDescCount := by
    rw [h.nextDesc]
    exact Nat.mod_lt _ h.count_pos
  rw [← Bool.not_eq_true, h.occupied_iff hlt, h.nextDesc]
  by_cases hg : g = s.rxDescCount
  · have hpos := h.count_pos
    rw [hg, Nat.mod_self]
    omega
  · rw [Nat.mod_eq_of_lt (by omega)]
    omega

theorem RxInv.added (h : RxInv s g) (hroom : g < s.rxDescCount) :
    RxInv (s.added Buffer1 Length1) (g + 1) := by
  have hdesc : s.rxNextDesc = g := by
    rw [h.nextDesc]
    exact Nat.mod_eq_of_lt hroom
  have hle := h.received_le
  have hlt := h.count_lt
  have hlast : (s.desc g).isLastRx = true ↔ g + 1 = s.rxDescCount := h.last g hroom
  refine ⟨h.count_pos, h.count_lt, hroom, by simp only [RxState.added]; omega, ?_, ?_, ?_, ?_,
    h.dma, ?_, ?_, h.busyDesc, h.returned, ?_⟩
  · intro i hi
    simp only [RxState.added, RxRing.add, hdesc]
    by_cases hig : i = g
    · rw [hig, Function.update_self, rxFill_owned]
      exact iff_of_true rfl ⟨hle, Nat.lt_succ_self g⟩
    · rw [Function.update_of_ne hig, h.owned i hi]
      omega
  · intro i hi
    simp only [RxState.added, hdesc]
    by_cases hig : i = g
    · rw [hig, Function.update_self]
      exact iff_of_false Bool.false_ne_true (by omega)
    · rw [Function.update_of_ne hig]
      exact h.holds i hi
  · intro i
    simp only [RxState.added]
    by_cases hin : i = s.rxNextDesc
    · rw [hin, Function.update_self]
    · rw [Function.update_of_ne hin]
      exact h.handed i
  · intro i hi
    simp only [RxState.added, RxRing.add, hdesc]
    by_cases hig : i = g
    · rw [hig, Function.update_self, rxFill_last]
      exact hlast
    · rw [Function.update_of_ne hig]
      exact h.last i hi
  · simp only [RxState.added, RxRing.add, rxFill_last, hdesc]
    rw [nextDesc_eq hlast, ← Ring.next_mod h.count_pos, Nat.mod_eq_of_lt hroom]
  · simp only [RxState.added, RxRing.add, rxFill_last, hdesc]
    rw [nextDesc_eq hlast]
    exact nextIdx_toNat h.count_lt (h.nextIdx.trans hdesc) hroom hlast
  · simp only [RxState.added, RxRing.add]
    rw [BitVec.toNat_add, h.busy, show (1 : BitVec 32).toNat = 1 from rfl]
    exact Nat.mod_eq_of_lt (by omega)

theorem RxInv.store (h : RxInv s g) (hown : (s.desc s.dma).ownedByDma = true)
    (hown' : ({ s.desc s.dma with status := f.status } : DmaDesc).ownedByDma = false) :
    RxInv (s.store f) g := by
  have hpos := h.count_pos
  have hadded := h.added_le
  have hreceived := h.received_le
  have hdma : s.dma = s.received.length ∧ s.received.length < g := by
    have hlt : s.dma < s.rxDescCount := by
      rw [h.dma]
      exact Nat.mod_lt _ hpos
    have hat := (h.owned s.dma hlt).1 hown
    by_cases hfull : s.received.length < s.rxDescCount
    · rw [h.dma, Nat.mod_eq_of_lt hfull] at hat ⊢
      exact ⟨rfl, hat.2⟩
    · omega
  have hlast := h.last s.received.length (by omega)
  refine ⟨h.count_pos, h.count_lt, h.added_le, ?_, ?_, ?_, h.handed, ?_, ?_, h.nextDesc,
    h.nextIdx, h.busyDesc, h.returned, h.busy⟩
  · simp only [RxState.store, List.length_append, List.length_singleton]
    omega
  · intro i hi
    simp only [RxState.store, List.length_append, List.length_singleton]
    by_cases hid : i = s.dma
    · rw [hid, Function.update_self]
      exact iff_of_false (fun ho => Bool.false_ne_true (hown'.symm.trans ho)) (by omega)
    · rw [Function.update_of_ne hid, h.owned i hi]
      omega
  · intro i hi
    simp only [RxState.store, List.length_append, List.length_singleton]
    by_cases hid : i = s.dma
    · rw [hid, Function.update_self]
      exact iff_of_true rfl (by omega)
    · rw [Function.update_of_ne hid, h.holds i hi]
      omega
  · intro i hi
    simp only [RxState.store]
    by_cases hid : i = s.dma
    · rw [hid, Function.update_self, ← hid]
      exact h.last i hi
    · rw [Function.update_of_ne hid]
      exact h.last i hi
  · simp only [RxState.store, List.length_append, List.length_singleton]
    rw [hdma.1, nextDesc_eq hlast, ← Ring.next_mod hpos, Nat.mod_eq_of_lt (by omega)]

theorem set_cases (h : rxStep s (.set Buffer1 Length1) = some t) :
    t = s ∨ ((s.desc s.rxNextDesc).isEmpty = true ∧ t = s.added Buffer1 Length1) := by
  simp only [rxStep, RxRing.setRxQptr] at h
  cases he : (s.desc s.rxNextDesc).isEmpty with
  | false =>
    simp only [he, if_true, Option.some.injEq] at h
    exact .inl h.symm
  | true =>
    simp only [he, Bool.true_eq_false, if_false, Option.some.injEq] at h
    exact .inr ⟨rfl, h.symm⟩

theorem rxStep_kept (h : RxInv s g) (hk : RxKept s e) (ht : rxStep s e = some t) :
    ∃ g, RxInv t g := by
  cases e with
  | set Buffer1 Length1 =>
    obtain rfl | ⟨he, rfl⟩ := set_cases ht
    · exact ⟨g, h⟩
    · exact ⟨g + 1, h.added (h.room_iff.1 (hk he))⟩
  | receive f =>
    simp only [rxStep, Option.ite_none_right_eq_some, Option.some.injEq] at ht
    obtain ⟨⟨hown, hown'⟩, rfl⟩ := ht
    exact ⟨g, h.store hown hown'⟩
  | get =>
    have hnone : s.getRxQptr = none := hk
    simp only [rxStep, hnone, Option.some.injEq] at ht
    exact ⟨g, ht ▸ h⟩

/-- A buffer added to an occupied descriptor is counted twice. -/
theorem RxInv.not_law_added (h : RxInv s g) (hfull : ¬ g < s.rxDescCount) :
    ¬ RxLaw (s.added Buffer1 Length1) := by
  intro hlaw
  have hg : g = s.rxDescCount := by
    have := h.added_le
    omega
  have hpos := h.count_pos
  have hlt := h.count_lt
  have hdesc : s.rxNextDesc = 0 := by
    rw [h.nextDesc, hg, Nat.mod_self]
  have hcount : Nat.count (fun i => (s.added Buffer1 Length1).occupied i = true) s.rxDescCount =
      s.rxDescCount := by
    apply count_eq_of_lt (Nat.le_refl _)
    intro i hi
    refine iff_of_true ?_ hi
    unfold RxState.occupied
    simp only [RxState.added, RxRing.add, hdesc]
    by_cases hi0 : i = 0
    · rw [hi0, Function.update_self, rxFill_owned, Bool.true_or]
    · rw [Function.update_of_ne hi0, Function.update_of_ne hi0]
      exact (h.occupied_iff hi).2 (by omega)
  have hbusy : (s.busyRxDesc + 1).toNat =
      Nat.count (fun i => (s.added Buffer1 Length1).occupied i = true) s.rxDescCount := hlaw.busy
  rw [hcount, BitVec.toNat_add, h.busy, hg, show (1 : BitVec 32).toNat = 1 from rfl] at hbusy
  omega

/-- A frame is taken with its buffer still the DMA's. -/
theorem RxInv.not_law_take (h : RxInv s g) {o : BitVec 32 × RxQptr × RxRing}
    (ho : s.getRxQptr = some o) : ¬ RxLaw (s.take o.2.1 o.2.2) := by
  intro hlaw
  have hring : o.2.2 = s.rearm := by
    unfold RxRing.getRxQptr at ho
    cases hown : (s.desc s.rxBusyDesc).ownedByDma with
    | true => simp [hown] at ho
    | false =>
      cases he : (s.desc s.rxBusyDesc).isEmpty with
      | true => simp [hown, he] at ho
      | false =>
        simp only [hown, he, Bool.false_eq_true, if_false, Option.some.injEq] at ho
        rw [← ho]
  have hhanded : (s.take o.2.1 o.2.2).handed s.rxBusyDesc = true := Function.update_self _ _ _
  have hcount : s.rxBusyDesc < (s.take o.2.1 o.2.2).rxDescCount := by
    rw [h.busyDesc]
    simp only [RxState.take, hring]
    exact h.count_pos
  have hfree := hlaw.handedOver _ hcount hhanded
  have howned : ((s.take o.2.1 o.2.2).desc s.rxBusyDesc).ownedByDma = true := by
    rw [ownedByDma_eq]
    simp only [RxState.take, hring, RxRing.rearm, Function.update_self]
    decide
  exact Bool.false_ne_true (hfree.symm.trans howned)

theorem rxStep_broken (h : RxInv s g) (ht : rxStep s e = some t) (hlaw : RxLaw t) :
    RxKept s e := by
  cases e with
  | set Buffer1 Length1 =>
    intro he
    rw [h.room_iff]
    by_contra hfull
    have hadd : t = s.added Buffer1 Length1 := by
      simp only [rxStep, RxRing.setRxQptr, he, Bool.true_eq_false, if_false,
        Option.some.injEq] at ht
      exact ht.symm
    rw [hadd] at hlaw
    exact h.not_law_added hfull hlaw
  | receive f => trivial
  | get =>
    unfold RxKept
    cases ho : s.getRxQptr with
    | none => rfl
    | some o =>
      simp only [rxStep, ho, Option.some.injEq] at ht
      rw [← ht] at hlaw
      exact absurd hlaw (h.not_law_take ho)

theorem rxStart_inv (mem : Nat → DmaDesc) {no_of_desc : BitVec 32} (hn : 1 ≤ no_of_desc.toNat) :
    RxInv (rxStart mem no_of_desc) 0 := by
  have hdesc : ∀ i < no_of_desc.toNat, (rxStart mem no_of_desc).desc i =
      rxDescInitRing (mem i) (i + 1 = no_of_desc.toNat) := fun i hi => if_pos hi
  refine ⟨hn, no_of_desc.isLt, Nat.zero_le _, Nat.le_refl _, fun i hi => ?_, fun i hi => ?_,
    fun _ => rfl, fun i hi => ?_, (Nat.zero_mod _).symm, (Nat.zero_mod _).symm, rfl, rfl, rfl, rfl⟩
  · rw [hdesc i hi, rxDescInitRing_owned]
    exact iff_of_false Bool.false_ne_true (by omega)
  · exact iff_of_false Bool.false_ne_true (Nat.not_lt_zero i)
  · rw [hdesc i hi, rxDescInitRing_last, decide_eq_true_iff]
    exact Iff.rfl

end Steps

/-- The receive ring keeps its law exactly in the runs in which no frame is taken and no buffer
is added to a descriptor that has one. -/
theorem run_rxLaw_iff (mem : Nat → DmaDesc) (no_of_desc : BitVec 32) (hn : 1 ≤ no_of_desc.toNat)
    (es : List RxEvent) :
    Trace.Always rxStep RxLaw (rxStart mem no_of_desc) es ↔
      Trace.EachStep rxStep RxKept (rxStart mem no_of_desc) es :=
  Trace.always_iff_of_kept (P := fun s => ∃ g, RxInv s g)
    (fun _ _ _ ⟨_, hs⟩ hk ht => rxStep_kept hs hk ht) (fun _ ⟨_, hs⟩ => hs.law)
    (fun _ _ _ ⟨_, hs⟩ ht hlaw => rxStep_broken hs ht hlaw) ⟨0, rxStart_inv mem hn⟩

/-- A frame of 64 bytes, whole and without an error. -/
def shortFrame : RxFrame := ⟨0x00400300, 0, 0, 0, List.replicate 64 0⟩

/-- A buffer is added and a frame received and taken. -/
def oneFrame : List RxEvent := [.set 0x1000 1536, .receive shortFrame, .get]

theorem run_rxLaw_iff_two :
    Trace.Always rxStep RxLaw (rxStart (fun _ => blankDesc) 2) oneFrame ↔
      Trace.EachStep rxStep RxKept (rxStart (fun _ => blankDesc) 2) oneFrame :=
  run_rxLaw_iff (fun _ => blankDesc) 2 (by decide) oneFrame

/-- The software has the buffer, and the DMA may store the next frame in it. -/
theorem not_rxLaw_oneFrame :
    ¬ Trace.Always rxStep RxLaw (rxStart (fun _ => blankDesc) 2) oneFrame := by
  intro h
  have hrun : (Trace.run rxStep (rxStart (fun _ => blankDesc) 2) oneFrame).map (fun t =>
      (t.rxDescCount, t.handed 0, (t.desc 0).ownedByDma)) = some (2, true, true) := by
    decide
  obtain ⟨t, ht, hvals⟩ := Option.map_eq_some_iff.mp hrun
  simp only [Prod.mk.injEq] at hvals
  have hfree := (h.last ht).handedOver 0 (by rw [hvals.1]; decide) hvals.2.1
  rw [hvals.2.2] at hfree
  exact Bool.false_ne_true hfree.symm

end Ma35d1.Gmac
