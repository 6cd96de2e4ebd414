import Ma35d1.Gmac.TxPath

/-!
# What the transmit buffers promise

Two windows of the ring are followed: the descriptors that the DMA was given and that are not taken
back, and those that are not blank. They differ by the one that is being filled. As long as the
handler does not take that one for a descriptor that was sent, every buffer has the frame of its
descriptor.
-/

namespace Ma35d1.Gmac

open Ma35d1.Machine
open Ma35d1.Machine.Copy
open Ma35d1.Machine.Ring (Window)

/-! ## The stores -/

section Stores

variable {w : TxStore} {Length Buffer1 offload_needed : BitVec 32} {d : DmaDesc}

/-- A store leaves the end-of-ring bit, and all but one the OWN bit. -/
theorem apply_bit {k : Nat} (hk : k = 21 ∨ k = 31) (hw : w = .own → k = 21) :
    (w.apply Length Buffer1 offload_needed d).status.getLsbD k = d.status.getLsbD k := by
  cases w with
  | flags =>
    have hflags : (eDescTxFirstSeg ||| eDescTxLastSeg ||| eDescTxIntOnCompl |||
        (if (0 : BitVec 32) = 1 then eDescTxTSEnable else 0)).getLsbD k = false := by
      rcases hk with rfl | rfl <;> decide
    simp only [TxStore.apply, BitVec.getLsbD_or, hflags, Bool.or_false]
  | offload =>
    have hmask : (~~~ eDescTxCisMask).getLsbD k = true := by
      rcases hk with rfl | rfl <;> decide
    have hpseudo : eDescTxCisTcpPseudoCs.getLsbD k = false := by
      rcases hk with rfl | rfl <;> decide
    simp only [TxStore.apply]
    split <;>
      simp only [BitVec.getLsbD_or, BitVec.getLsbD_and, hmask, hpseudo, Bool.or_false,
        Bool.and_true]
  | own =>
    obtain rfl := hw rfl
    have hown : descOwnByDma.getLsbD 21 = false := by decide
    simp only [TxStore.apply, BitVec.getLsbD_or, hown, Bool.or_false]
  | _ => rfl

theorem apply_last : (w.apply Length Buffer1 offload_needed d).isLastTx = d.isLastTx := by
  rw [isLastTx_eq, isLastTx_eq, apply_bit (.inl rfl) fun _ => rfl]

theorem apply_owned (hw : w ≠ .own) :
    (w.apply Length Buffer1 offload_needed d).ownedByDma = d.ownedByDma := by
  rw [ownedByDma_eq, ownedByDma_eq, apply_bit (.inr rfl) fun h => absurd h hw]

theorem apply_own_owned :
    (TxStore.own.apply Length Buffer1 offload_needed d).ownedByDma = true := by
  rw [ownedByDma_eq]
  simp only [TxStore.apply, BitVec.getLsbD_or, show descOwnByDma.getLsbD 31 = true by decide,
    Bool.or_true]

/-- The length field takes the length of any frame that fits. -/
theorem length_and_mask {n : Nat} (hn : n ≤ skbDataSize) :
    BitVec.ofNat 32 n &&& eDescSize1Mask = BitVec.ofNat 32 n := by
  unfold skbDataSize at hn
  apply BitVec.eq_of_toNat_eq
  rw [BitVec.toNat_and, show eDescSize1Mask.toNat = 2 ^ 13 - 1 from rfl,
    Nat.and_two_pow_sub_one_eq_mod, BitVec.toNat_ofNat]
  omega

/-- A store that belongs to the descriptor that is being filled -/
def TxStore.filling : TxStore → Bool
  | .next | .nextDesc => false
  | _ => true

/-- What the descriptor holds before the store `w` -/
def TxFilled (w : TxStore) (Length Buffer1 : BitVec 32) (d : DmaDesc) : Prop :=
  d.ownedByDma = false ∧
    match w with
    | .length => d.length = 0
    | .flags | .buffer => d.length = Length
    | .offload | .own => d.length = Length ∧ d.buffer1 = Buffer1
    | _ => True

/-- What each store finds, the one before has left. -/
theorem TxFilled.apply {n : Nat} (hn : n ≤ skbDataSize) (hL : Length = BitVec.ofNat 32 n)
    (hw : w ∈ [TxStore.length, .flags, .buffer, .offload]) (h : TxFilled w Length Buffer1 d) :
    TxFilled w.succ Length Buffer1 (w.apply Length Buffer1 offload_needed d) := by
  obtain ⟨hown, hrest⟩ := h
  have hne : w ≠ .own := by
    rintro rfl
    exact absurd hw (by decide)
  refine ⟨(apply_owned hne).trans hown, ?_⟩
  cases w with
  | length =>
    show d.length ||| ((Length <<< eDescSize1Shift) &&& eDescSize1Mask) = Length
    rw [show d.length = 0 from hrest, eDescSize1Shift, BitVec.shiftLeft_zero, hL,
      length_and_mask hn]
    exact BitVec.zero_or
  | flags => exact hrest
  | buffer => exact ⟨hrest, rfl⟩
  | offload => exact hrest
  | _ => exact absurd hw (by decide)

end Stores

/-! ## The invariant -/

/-- The descriptor that is being filled is not blank any more. -/
def TxPath.claimed (s : TxPath) : Nat :=
  match s.pc with
  | .store _ w _ _ _ _ => if w ∈ [TxStore.length, .flags, .buffer, .offload, .own] then 1 else 0
  | _ => 0

/-- Descriptor and buffer are those of the `k`-th frame queued. -/
def TxHeld (base : BitVec 32) (s : TxPath) (k : Nat) (d : DmaDesc) : Prop :=
  ∃ f, s.queued[k]? = some f ∧ f.length ≤ skbDataSize ∧ d.length = BitVec.ofNat 32 f.length ∧
    d.buffer1 = txBuf base (k % transmitDescSize) ∧
    (d.ownedByDma = true ↔ s.sent.length ≤ k) ∧
    copyFrom (s.mem (txBuf base (k % transmitDescSize))) 0 f.length = f

/-- The place of the frame to come -/
def TxPath.place (s : TxPath) : Nat := s.queued.length % transmitDescSize

/-- The software stands at the place of the frame to come. -/
def AtNext (s : TxPath) : Prop := s.txNext.toNat = s.place ∧ s.txNextDesc = s.place

/-- The place of the frame to come is free. -/
def Room (s : TxPath) : Prop := s.queued.length < s.taken + transmitDescSize

/-- The first bytes of the buffer there -/
def TxPath.copied (base : BitVec 32) (s : TxPath) (n : Nat) : Bytes :=
  copyFrom (s.mem (txBuf base s.place)) 0 n

/-- A descriptor is being filled, up to the store `w`. -/
def FillPlace (base : BitVec 32) (s : TxPath) (p : List Bytes) (w : TxStore)
    (Length Buffer1 txnext : BitVec 32) (txdesc : Nat) : Prop :=
  (AtNext s ∧ txnext = s.txNext ∧ Room s) ∧ txdesc = s.place ∧ Buffer1 = txBuf base s.place ∧
    s.copied base p.flatten.length = p.flatten ∧ TxFilled w Length Buffer1 (s.desc s.place)

/-- How far a call has come -/
def OutputPlace (base : BitVec 32) (s : TxPath) : Prop :=
  match s.pc with
  | .idle => AtNext s
  | .room _ tx_idx => AtNext s ∧ tx_idx = s.txNext
  | .copying p tx_idx len rest =>
    (AtNext s ∧ tx_idx = s.txNext ∧ Room s) ∧
      ∃ done, p = done ++ rest ∧ done.flatten.length = len ∧ s.copied base len = done.flatten
  | .test p tx_idx =>
    (AtNext s ∧ tx_idx = s.txNext ∧ Room s) ∧ s.copied base p.flatten.length = p.flatten ∧
      s.skbLen s.place = BitVec.ofNat 32 p.flatten.length
  | .store p w Length Buffer1 txnext txdesc =>
    Length = BitVec.ofNat 32 p.flatten.length ∧
      match w with
      | .next => ∃ k, k + 1 = s.queued.length ∧ txnext.toNat = k % transmitDescSize ∧
          txdesc = k % transmitDescSize
      | .nextDesc => s.txNext.toNat = s.place ∧
          ∃ k, k + 1 = s.queued.length ∧ txdesc = k % transmitDescSize
      | _ => FillPlace base s p w Length Buffer1 txnext txdesc

/-- The frame is one that fits a buffer. -/
def OutputPc.Fits : OutputPc → Prop
  | .idle => True
  | .room p _ | .copying p _ _ _ | .test p _ | .store p _ _ _ _ _ => p.flatten.length ≤ skbDataSize

/-- The frame that is queued and not yet accepted -/
def OutputPc.pending : OutputPc → List Bytes
  | .store p .next _ _ _ _ | .store p .nextDesc _ _ _ _ => [p.flatten]
  | _ => []

structure TxPathInv (base : BitVec 32) (s : TxPath) : Prop where
  last : ∀ i < transmitDescSize, (s.desc i).isLastTx = true ↔ i + 1 = transmitDescSize
  held : Window transmitDescSize s.taken s.queued.length (TxHeld base s) (·.ownedByDma = false)
    s.desc
  blank : Window transmitDescSize s.taken (s.queued.length + s.claimed) (fun _ _ => True)
    (·.length = 0) s.desc
  sent : s.sent <+: s.queued
  taken : s.taken ≤ s.sent.length
  dma : s.dma = s.sent.length % transmitDescSize
  busyDesc : s.txBusyDesc = s.taken % transmitDescSize
  busy : s.busyTxDesc.toNat + s.taken = s.queued.length + s.claimed
  accepted : s.queued = s.accepted ++ s.pc.pending
  fits : s.pc.Fits
  place : OutputPlace base s

section Steps

variable {base offload_needed : BitVec 32} {s t : TxPath} {e : TxPathEvent} {d d' : DmaDesc}

theorem place_store {p : List Bytes} {w : TxStore} {Length Buffer1 txnext : BitVec 32}
    {txdesc : Nat}
    (hpc : s.pc = .store p w Length Buffer1 txnext txdesc) (hw : w.filling = true) :
    OutputPlace base s ↔ Length = BitVec.ofNat 32 p.flatten.length ∧
      FillPlace base s p w Length Buffer1 txnext txdesc := by
  unfold OutputPlace
  rw [hpc]
  cases w <;> first | rfl | cases hw

theorem pending_store {p : List Bytes} {w : TxStore} {Length Buffer1 txnext : BitVec 32}
    {txdesc : Nat} (hw : w.filling = true) :
    (OutputPc.store p w Length Buffer1 txnext txdesc).pending = [] := by
  cases w <;> first | rfl | cases hw

theorem transmit_pos : 0 < transmitDescSize := by decide

theorem mod_lt (k : Nat) : k % transmitDescSize < transmitDescSize := Nat.mod_lt k transmit_pos

theorem txBuf_inj {i j : Nat} (hi : i < transmitDescSize) (hj : j < transmitDescSize)
    (h : txBuf base i = txBuf base j) : i = j := by
  unfold transmitDescSize at hi hj
  have hnat := congrArg BitVec.toNat ((BitVec.add_right_inj _).mp h)
  rw [BitVec.toNat_ofNat, BitVec.toNat_ofNat] at hnat
  omega

/-- The software moves on while the ring stays as it is. -/
theorem TxPathInv.move (h : TxPathInv base s) {mem : BitVec 32 → Nat → BitVec 8}
    {skbLen : Nat → BitVec 32} {pc : OutputPc} {returned : List (Bytes × Err)} {txNext : BitVec 32}
    {txNextDesc : Nat}
    (ht : t = { s with
      mem := mem, skbLen := skbLen, pc := pc, returned := returned, txNext := txNext
      txNextDesc := txNextDesc })
    (hclaimed : t.claimed = s.claimed)
    (hmem : ∀ k, s.taken ≤ k → k < s.queued.length →
      mem (txBuf base (k % transmitDescSize)) = s.mem (txBuf base (k % transmitDescSize)))
    (hacc : s.queued = t.accepted ++ pc.pending) (hfits : pc.Fits) (hplace : OutputPlace base t) :
    TxPathInv base t := by
  subst ht
  refine ⟨h.last, ⟨h.held.le, h.held.cap, fun k hk hkq => ?_, h.held.free⟩, ?_, h.sent, h.taken,
    h.dma, h.busyDesc, ?_, hacc, hfits, hplace⟩
  · obtain ⟨f, hf, hlen, hL, hbuf, hown, hdata⟩ := h.held.item k hk hkq
    refine ⟨f, hf, hlen, hL, hbuf, hown, ?_⟩
    exact (congrArg (fun m => copyFrom m 0 f.length) (hmem k hk hkq)).trans hdata
  · rw [hclaimed]
    exact h.blank
  · rw [hclaimed]
    exact h.busy

/-- The buffer of the frame to come is none of those in use. -/
theorem Room.buffer_ne (h : Room s) (hle : s.taken ≤ s.queued.length) {k : Nat} (hk : s.taken ≤ k)
    (hkq : k < s.queued.length) : txBuf base (k % transmitDescSize) ≠ txBuf base s.place := by
  intro heq
  have hmod := txBuf_inj (mod_lt _) (mod_lt _) heq
  unfold Room at h
  have hsame := Ring.mod_inj hk (by omega) hle h hmod
  omega

theorem accepted_ok {p : List Bytes} :
    (s.finish p .ok).accepted = s.accepted ++ [p.flatten] := by
  simp [TxPath.accepted, TxPath.finish]

theorem accepted_mem {p : List Bytes} : (s.finish p .mem).accepted = s.accepted := by
  simp [TxPath.accepted, TxPath.finish]

theorem TxPathInv.output (h : TxPathInv base s) {p : List Bytes} (hpc : s.pc = .idle)
    (hp : p.flatten.length ≤ skbDataSize) :
    TxPathInv base { s with pc := .room p s.txNext } := by
  have hplace := h.place
  have hacc := h.accepted
  unfold OutputPlace at hplace
  rw [hpc] at hplace hacc
  exact h.move rfl (by simp [TxPath.claimed, hpc]) (fun _ _ _ => rfl) hacc hp ⟨hplace, rfl⟩

/-- A call that finds the ring full -/
theorem TxPathInv.refuse (h : TxPathInv base s) {p : List Bytes} {tx_idx : BitVec 32}
    (hpc : s.pc = .room p tx_idx) : TxPathInv base (s.finish p .mem) := by
  have hplace := h.place
  have hacc := h.accepted
  unfold OutputPlace at hplace
  rw [hpc] at hplace hacc
  refine h.move rfl (by simp [TxPath.claimed, TxPath.finish, hpc]) (fun _ _ _ => rfl) ?_ trivial
    hplace.1
  exact hacc.trans (congrArg (· ++ []) accepted_mem.symm)

theorem TxPathInv.roomy (h : TxPathInv base s) {p : List Bytes} {tx_idx : BitVec 32}
    (hpc : s.pc = .room p tx_idx) (hfree : s.busyTxDesc.toNat < transmitDescSize) :
    TxPathInv base { s with pc := .copying p tx_idx 0 p } := by
  have hplace := h.place
  have hacc := h.accepted
  have hfits := h.fits
  have hbusy := h.busy
  have hclaimed : s.claimed = 0 := by rw [TxPath.claimed, hpc]
  unfold OutputPlace at hplace
  rw [hpc] at hplace hacc hfits
  refine h.move rfl (by simp [TxPath.claimed, hpc]) (fun _ _ _ => rfl) hacc hfits
    ⟨⟨hplace.1, hplace.2, ?_⟩, [], rfl, rfl, rfl⟩
  show s.queued.length < s.taken + transmitDescSize
  omega

/-- One pbuf is copied behind the others. -/
theorem TxPathInv.memcpy (h : TxPathInv base s) {p rest : List Bytes} {q : Bytes}
    {tx_idx : BitVec 32} {len : Nat} (hpc : s.pc = .copying p tx_idx len (q :: rest)) :
    TxPathInv base { s with
      mem := Function.update s.mem (txBuf base tx_idx.toNat)
        (copyTo (s.mem (txBuf base tx_idx.toNat)) len q)
      pc := .copying p tx_idx ((len + q.length) % 2 ^ 16) rest } := by
  have hplace := h.place
  have hacc := h.accepted
  have hfits := h.fits
  unfold OutputPlace at hplace
  rw [hpc] at hplace hacc hfits
  obtain ⟨⟨hnext, hidx, hroom⟩, done, hp, hlen, hdone⟩ := hplace
  have hat : txBuf base tx_idx.toNat = txBuf base s.place := by rw [hidx, hnext.1]
  have hsum : (len + q.length) % 2 ^ 16 = len + q.length := by
    have hall : p.flatten.length ≤ 2048 := hfits
    rw [hp, List.flatten_append, List.flatten_cons, List.length_append, List.length_append] at hall
    exact Nat.mod_eq_of_lt (by omega)
  refine h.move rfl (by simp [TxPath.claimed, hpc]) (fun k hk hkq => ?_) hacc hfits
    ⟨⟨hnext, hidx, hroom⟩, done ++ [q], ?_, ?_, ?_⟩
  · rw [hat]
    exact Function.update_of_ne (hroom.buffer_ne h.held.le hk hkq) _ _
  · rw [hp, List.append_assoc, List.singleton_append]
  · rw [hsum, List.flatten_append, List.length_append, hlen, List.flatten_singleton]
  · rw [hsum, List.flatten_append, List.flatten_singleton, ← hdone]
    show copyFrom (Function.update s.mem _ _ (txBuf base s.place)) 0 _ = _
    rw [hat, Function.update_self, copyFrom_add, Nat.zero_add, copyFrom_copyTo rfl,
      copyFrom_copyTo_of_disjoint (.inl (by omega))]
    rfl

theorem TxPathInv.setLen (h : TxPathInv base s) {p : List Bytes} {tx_idx : BitVec 32} {len : Nat}
    (hpc : s.pc = .copying p tx_idx len []) :
    TxPathInv base { s with
      skbLen := Function.update s.skbLen tx_idx.toNat (BitVec.ofNat 32 len)
      pc := .test p tx_idx } := by
  have hplace := h.place
  have hacc := h.accepted
  have hfits := h.fits
  unfold OutputPlace at hplace
  rw [hpc] at hplace hacc hfits
  obtain ⟨⟨hnext, hidx, hroom⟩, done, hp, hlen, hdone⟩ := hplace
  rw [List.append_nil] at hp
  subst hp
  refine h.move rfl (by simp [TxPath.claimed, hpc]) (fun _ _ _ => rfl) hacc hfits
    ⟨⟨hnext, hidx, hroom⟩, ?_, ?_⟩
  · rw [hlen]
    exact hdone
  · show Function.update s.skbLen _ _ s.place = _
    rw [hidx, hnext.1, Function.update_self, hlen]

/-- The descriptor at the place of the frame to come is blank. -/
theorem TxPathInv.empty (h : TxPathInv base s) (hclaimed : s.claimed = 0) (hroom : Room s) :
    (s.desc s.place).isEmpty = true := by
  have hfree := h.blank.free s.queued.length (by rw [hclaimed]; exact Nat.le_refl _) hroom
  exact isEmpty_of_length hfree

theorem TxPathInv.test (h : TxPathInv base s) {p : List Bytes} {tx_idx : BitVec 32}
    (hpc : s.pc = .test p tx_idx) :
    TxPathInv base { s with
      pc := .store p .count (s.skbLen tx_idx.toNat) (txBuf base tx_idx.toNat) s.txNext
        s.txNextDesc } := by
  have hplace := h.place
  have hacc := h.accepted
  have hfits := h.fits
  unfold OutputPlace at hplace
  rw [hpc] at hplace hacc hfits
  obtain ⟨⟨hnext, hidx, hroom⟩, hdata, hlen⟩ := hplace
  have hclaimed : s.claimed = 0 := by rw [TxPath.claimed, hpc]
  have hfree := h.held.free _ (Nat.le_refl _) hroom
  have hat : tx_idx.toNat = s.place := by rw [hidx, hnext.1]
  refine h.move rfl (by simp [TxPath.claimed, hpc]) (fun _ _ _ => rfl) hacc hfits
    ⟨?_, ⟨hnext, rfl, hroom⟩, hnext.2, ?_, hdata, hfree, trivial⟩
  · rw [hat]
    exact hlen
  · show txBuf base tx_idx.toNat = txBuf base s.place
    rw [hat]

/-- A descriptor is claimed. -/
theorem TxPathInv.count (h : TxPathInv base s) {p : List Bytes} {Length Buffer1 txnext : BitVec 32}
    {txdesc : Nat} (hpc : s.pc = .store p .count Length Buffer1 txnext txdesc) :
    TxPathInv base { s with
      busyTxDesc := s.busyTxDesc + 1, pc := .store p .length Length Buffer1 txnext txdesc } := by
  have hplace := h.place
  have hacc := h.accepted
  have hfits := h.fits
  have hbusy := h.busy
  have hclaimed : s.claimed = 0 := by simp [TxPath.claimed, hpc]
  unfold OutputPlace at hplace
  rw [hpc] at hplace hacc hfits
  obtain ⟨hL, ⟨hnext, htxnext, hroom⟩, hdesc, hB, hdata, hown, -⟩ := hplace
  have hblank := h.blank
  rw [hclaimed, Nat.add_zero] at hblank
  have hzero := hblank.free _ (Nat.le_refl _) hroom
  refine ⟨h.last, h.held, ?_, h.sent, h.taken, h.dma, h.busyDesc, ?_, hacc, hfits, hL,
    ⟨hnext, htxnext, hroom⟩, hdesc, hB, hdata, hown, hzero⟩
  · have hpush := hblank.push (Q := fun _ _ => True)
      (v := s.desc (s.queued.length % transmitDescSize)) hroom trivial fun _ _ _ _ => trivial
    rw [Function.update_eq_self] at hpush
    exact hpush
  · show (s.busyTxDesc + 1).toNat + s.taken = s.queued.length + 1
    rw [hclaimed] at hbusy
    have hcap : transmitDescSize = 32 := rfl
    unfold Room at hroom
    rw [BitVec.toNat_add, show (1 : BitVec 32).toNat = 1 from rfl, Nat.mod_eq_of_lt (by omega)]
    omega

/-- The descriptor is filled. -/
theorem TxPathInv.fill (h : TxPathInv base s) {p : List Bytes} {w : TxStore}
    {Length Buffer1 txnext : BitVec 32} {txdesc : Nat}
    (hw : w ∈ [TxStore.length, .flags, .buffer, .offload])
    (hpc : s.pc = .store p w Length Buffer1 txnext txdesc)
    (ht : t = { s with
      desc := Function.update s.desc txdesc (w.apply Length Buffer1 offload_needed (s.desc txdesc))
      pc := .store p w.succ Length Buffer1 txnext txdesc }) :
    TxPathInv base t := by
  have hw' : w.filling = true ∧ w.succ.filling = true ∧ w ≠ .own ∧
      w ∈ [TxStore.length, .flags, .buffer, .offload, .own] ∧
      w.succ ∈ [TxStore.length, .flags, .buffer, .offload, .own] := by
    revert hw
    cases w <;> decide
  obtain ⟨hfill, hsucc, hne, hin, hin'⟩ := hw'
  obtain ⟨hL, ⟨hnext, htxnext, hroom⟩, hdesc, hB, hdata, hfilled⟩ :=
    (place_store hpc hfill).1 h.place
  have hacc := h.accepted
  have hfits := h.fits
  rw [hpc] at hacc hfits
  rw [pending_store hfill] at hacc
  have hclaimed : s.claimed = 1 := by simp only [TxPath.claimed, hpc, if_pos hin]
  have hclaimed' : t.claimed = 1 := by simp only [ht, TxPath.claimed, if_pos hin']
  have hat : t.desc s.place = w.apply Length Buffer1 offload_needed (s.desc s.place) := by
    rw [ht, hdesc]
    exact Function.update_self ..
  have hblank := h.blank
  have hbusy := h.busy
  rw [hclaimed, ← hclaimed'] at hblank hbusy
  have hnew : TxFilled w.succ Length Buffer1
      (w.apply Length Buffer1 offload_needed (s.desc s.place)) := hfilled.apply hfits hL hw
  rw [← hat] at hnew
  have hplace : OutputPlace base t := by
    rw [place_store (by rw [ht]) hsucc]
    subst ht
    exact ⟨hL, ⟨hnext, htxnext, hroom⟩, hdesc, hB, hdata, hnew⟩
  have hacc' : t.queued = t.accepted ++ t.pc.pending := by
    subst ht
    exact hacc.trans (congrArg (s.accepted ++ ·) (pending_store hsucc).symm)
  subst ht
  refine ⟨last_update h.last apply_last, ?_, ?_, h.sent, h.taken, h.dma, h.busyDesc, hbusy, hacc',
    hfits, hplace⟩
  · rw [hdesc]
    exact h.held.touch (Nat.le_refl _) hroom ((apply_owned hne).trans hfilled.1)
  · rw [hclaimed', hdesc] at *
    exact hblank.change h.held.le (Nat.lt_succ_self _) trivial fun _ _ _ _ _ => trivial

/-- The descriptor is handed to the DMA. -/
theorem TxPathInv.own (h : TxPathInv base s) {p : List Bytes} {Length Buffer1 txnext : BitVec 32}
    {txdesc : Nat} (hpc : s.pc = .store p .own Length Buffer1 txnext txdesc) :
    TxPathInv base { s with
      desc := Function.update s.desc txdesc
        (TxStore.own.apply Length Buffer1 offload_needed (s.desc txdesc))
      queued := s.queued ++ [p.flatten]
      pc := .store p .next Length Buffer1 txnext txdesc } := by
  obtain ⟨hL, ⟨hnext, htxnext, hroom⟩, hdesc, hB, hdata, -, hlength, hbuffer⟩ :=
    (place_store hpc rfl).1 h.place
  have hacc := h.accepted
  have hfits := h.fits
  have hclaimed : s.claimed = 1 := by simp [TxPath.claimed, hpc]
  have hblank := h.blank
  have hbusy := h.busy
  rw [hclaimed] at hblank hbusy
  rw [hpc] at hacc hfits
  rw [pending_store rfl, List.append_nil] at hacc
  have hlen : (s.queued ++ [p.flatten]).length = s.queued.length + 1 := by simp
  refine ⟨last_update h.last apply_last, ?_, ?_, h.sent.trans (List.prefix_append _ _), h.taken,
    h.dma, h.busyDesc, ?_, congrArg (· ++ [p.flatten]) hacc, hfits, hL, s.queued.length, hlen.symm,
    ?_, hdesc⟩
  · rw [hlen, hdesc]
    refine h.held.push hroom ?_ fun k _ _ hitem => ?_
    · refine ⟨p.flatten, List.getElem?_concat_length, hfits, hlength.trans hL, hbuffer.trans hB,
        iff_of_true apply_own_owned h.sent.length_le, hdata⟩
    · obtain ⟨f, hf, hrest⟩ := hitem
      exact ⟨f, getElem?_concat hf, hrest⟩
  · rw [hlen, hdesc]
    exact hblank.change h.held.le (Nat.lt_succ_self _) trivial fun _ _ _ _ _ => trivial
  · rw [hlen]
    exact hbusy
  · rw [htxnext, hnext.1]
    rfl

theorem TxPathInv.next (h : TxPathInv base s) {p : List Bytes} {Length Buffer1 txnext : BitVec 32}
    {txdesc : Nat} (hpc : s.pc = .store p .next Length Buffer1 txnext txdesc) :
    TxPathInv base { s with
      txNext := nextIdx (s.desc txdesc).isLastTx txnext
      pc := .store p .nextDesc Length Buffer1 txnext txdesc } := by
  have hplace := h.place
  have hacc := h.accepted
  have hfits := h.fits
  unfold OutputPlace at hplace
  rw [hpc] at hplace hacc hfits
  obtain ⟨hL, k, hk, hidx, hdesc⟩ := hplace
  refine h.move rfl (by simp [TxPath.claimed, hpc]) (fun _ _ _ => rfl) hacc hfits
    ⟨hL, ?_, k, hk, hdesc⟩
  show (nextIdx _ _).toNat = s.queued.length % transmitDescSize
  rw [hdesc, nextIdx_toNat (by decide) hidx (mod_lt k) (h.last _ (mod_lt k)),
    Ring.next_mod transmit_pos, hk]

theorem TxPathInv.nextDesc (h : TxPathInv base s) {p : List Bytes}
    {Length Buffer1 txnext : BitVec 32} {txdesc : Nat}
    (hpc : s.pc = .store p .nextDesc Length Buffer1 txnext txdesc) :
    TxPathInv base
      ({ s with txNextDesc := nextDesc (s.desc txdesc).isLastTx txdesc }.finish p .ok) := by
  have hplace := h.place
  have hacc := h.accepted
  unfold OutputPlace at hplace
  rw [hpc] at hplace hacc
  obtain ⟨-, hidx, k, hk, hdesc⟩ := hplace
  refine h.move rfl (by simp [TxPath.claimed, TxPath.finish, hpc]) (fun _ _ _ => rfl) ?_ trivial
    ⟨hidx, ?_⟩
  · exact hacc.trans ((List.append_nil _).trans accepted_ok).symm
  · show Gmac.nextDesc _ _ = s.queued.length % transmitDescSize
    rw [hdesc, nextDesc_eq (h.last _ (mod_lt k)), Ring.next_mod transmit_pos, hk]

theorem TxPathInv.advance (h : TxPathInv base s) (ht : s.advance base offload_needed = some t) :
    TxPathInv base t := by
  unfold TxPath.advance at ht
  cases hpc : s.pc with
  | idle => simp only [hpc, reduceCtorEq] at ht
  | room p tx_idx =>
    simp only [hpc] at ht
    split at ht
    · obtain rfl := Option.some.inj ht
      exact h.refuse hpc
    · rename_i hfree
      obtain rfl := Option.some.inj ht
      exact h.roomy hpc (Nat.lt_of_not_le hfree)
  | copying p tx_idx len rest =>
    cases rest with
    | nil =>
      simp only [hpc] at ht
      obtain rfl := Option.some.inj ht
      exact h.setLen hpc
    | cons q rest =>
      simp only [hpc] at ht
      obtain rfl := Option.some.inj ht
      exact h.memcpy hpc
  | test p tx_idx =>
    have hplace := h.place
    unfold OutputPlace at hplace
    rw [hpc] at hplace
    have hempty := h.empty (by rw [TxPath.claimed, hpc]) hplace.1.2.2
    rw [← hplace.1.1.2] at hempty
    simp only [hpc, hempty, Bool.true_eq_false, if_false] at ht
    obtain rfl := Option.some.inj ht
    exact h.test hpc
  | store p w Length Buffer1 txnext txdesc =>
    simp only [hpc] at ht
    obtain rfl := Option.some.inj ht
    cases w with
    | count => exact h.count hpc
    | own => exact h.own hpc
    | next => exact h.next hpc
    | nextDesc => exact h.nextDesc hpc
    | length => exact h.fill (by decide) hpc rfl
    | flags => exact h.fill (by decide) hpc rfl
    | buffer => exact h.fill (by decide) hpc rfl
    | offload => exact h.fill (by decide) hpc rfl

/-- The DMA and the handler leave the call under way where it is. -/
theorem OutputPlace.frame (h : OutputPlace base s) {desc : Nat → DmaDesc}
    {dma taken txBusyDesc : Nat} {sent : List Bytes} {busyTxDesc txBusy : BitVec 32}
    (ht : t = { s with
      desc := desc, dma := dma, sent := sent, taken := taken, busyTxDesc := busyTxDesc
      txBusy := txBusy, txBusyDesc := txBusyDesc })
    (htaken : s.taken ≤ taken) (hdesc : Room s → desc s.place = s.desc s.place) :
    OutputPlace base t := by
  have hroom : Room s → Room t := fun hr => by
    subst ht
    exact Nat.lt_of_lt_of_le hr (Nat.add_le_add_right htaken _)
  have hplace : ∀ p w Length Buffer1 txnext txdesc,
      FillPlace base s p w Length Buffer1 txnext txdesc →
        FillPlace base t p w Length Buffer1 txnext txdesc := by
    rintro p w Length Buffer1 txnext txdesc ⟨⟨hnext, htx, hr⟩, hd, hB, hdata, hfilled⟩
    have hrt := hroom hr
    have heq := hdesc hr
    subst ht
    refine ⟨⟨hnext, htx, hrt⟩, hd, hB, hdata, ?_⟩
    show TxFilled w Length Buffer1 (desc s.place)
    rw [heq]
    exact hfilled
  have hpc : t.pc = s.pc := by rw [ht]
  unfold OutputPlace at h ⊢
  rw [hpc]
  cases hat : s.pc with
  | idle =>
    rw [hat] at h
    subst ht
    exact h
  | room p tx_idx =>
    rw [hat] at h
    subst ht
    exact h
  | copying p tx_idx len rest =>
    rw [hat] at h
    obtain ⟨⟨hnext, htx, hr⟩, hrest⟩ := h
    have hrt := hroom hr
    subst ht
    exact ⟨⟨hnext, htx, hrt⟩, hrest⟩
  | test p tx_idx =>
    rw [hat] at h
    obtain ⟨⟨hnext, htx, hr⟩, hrest⟩ := h
    have hrt := hroom hr
    subst ht
    exact ⟨⟨hnext, htx, hrt⟩, hrest⟩
  | store p w Length Buffer1 txnext txdesc =>
    rw [hat] at h
    refine ⟨h.1, ?_⟩
    have hstore := h.2
    cases w with
    | next =>
      subst ht
      exact hstore
    | nextDesc =>
      subst ht
      exact hstore
    | _ => exact hplace _ _ _ _ _ _ hstore

/-- A frame in the ring is not at the place of the frame to come. -/
theorem Room.place_ne (h : Room s) (hle : s.taken ≤ s.queued.length) {k : Nat} (hk : s.taken ≤ k)
    (hkq : k < s.queued.length) : s.place ≠ k % transmitDescSize := by
  intro heq
  unfold Room at h
  have hsame := Ring.mod_inj hle h hk (by omega) heq
  omega

/-- The DMA has the descriptor it is at only while a frame is still to be sent. -/
theorem TxPathInv.pending_of_owned (h : TxPathInv base s)
    (hown : (s.desc s.dma).ownedByDma = true) : s.sent.length < s.queued.length := by
  have hle := h.sent.length_le
  have hcap := h.held.cap
  have hpos := transmit_pos
  have htaken := h.taken
  by_contra hno
  have heq : s.sent.length = s.queued.length := by omega
  rw [h.dma, heq] at hown
  by_cases hroom : s.queued.length < s.taken + transmitDescSize
  · rw [h.held.free _ (Nat.le_refl _) hroom] at hown
    exact Bool.false_ne_true hown
  · have hq : s.queued.length = s.taken + transmitDescSize := by omega
    obtain ⟨f, -, -, -, -, howned, -⟩ := h.held.item s.taken (Nat.le_refl _) (by omega)
    rw [hq, Nat.add_mod_right, howned] at hown
    omega

/-- What the DMA finds through a descriptor in the ring is its frame. -/
theorem TxPathInv.found (h : TxPathInv base s) {k : Nat} (hk : s.taken ≤ k)
    (hkq : k < s.queued.length) : s.queued[k]? = some (s.found (k % transmitDescSize)) := by
  obtain ⟨f, hf, hlen, hL, hbuf, -, hdata⟩ := h.held.item k hk hkq
  have hn : f.length < 2 ^ 32 := Nat.lt_of_le_of_lt hlen (by decide)
  rw [hf, TxPath.found, hL, hbuf, length_and_mask hlen, BitVec.toNat_ofNat, Nat.mod_eq_of_lt hn,
    hdata]

theorem TxPathInv.complete (h : TxPathInv base s) {dnew : DmaDesc}
    (hown : (s.desc s.dma).ownedByDma = true) (hnot : dnew.ownedByDma = false)
    (hlast : dnew.isLastTx = (s.desc s.dma).isLastTx)
    (hlength : dnew.length = (s.desc s.dma).length)
    (hbuffer : dnew.buffer1 = (s.desc s.dma).buffer1) :
    TxPathInv base { s with
      desc := Function.update s.desc s.dma dnew
      dma := Gmac.nextDesc (s.desc s.dma).isLastTx s.dma
      sent := s.sent ++ [s.found s.dma] } := by
  have hpend := h.pending_of_owned hown
  have hfound := h.found h.taken hpend
  have hlen : (s.sent ++ [s.found s.dma]).length = s.sent.length + 1 := by simp
  rw [← h.dma] at hfound
  have hitem := h.held.item _ h.taken hpend
  rw [← h.dma] at hitem
  refine ⟨last_update h.last hlast, ?_, ?_, prefix_concat h.sent hfound, ?_, ?_, h.busyDesc,
    h.busy, h.accepted, h.fits, ?_⟩
  · have hchange := h.held.change (v := dnew)
      (Q := TxHeld base { s with sent := s.sent ++ [s.found s.dma] }) h.taken hpend ?_ ?_
    · rw [← h.dma] at hchange
      exact hchange
    · obtain ⟨f, hf, hfits, hL, hbuf, -, hdata⟩ := hitem
      refine ⟨f, hf, hfits, hlength.trans hL, ?_, ?_, hdata⟩
      · rw [hbuffer, hbuf]
      · rw [hnot, hlen]
        exact iff_of_false Bool.false_ne_true (by omega)
    · rintro k - - hne ⟨f, hf, hfits, hL, hbuf, howned, hdata⟩
      refine ⟨f, hf, hfits, hL, hbuf, howned.trans ?_, hdata⟩
      rw [hlen]
      omega
  · have hchange := h.blank.change (v := dnew) (Q := fun _ _ => True) h.taken (by omega) trivial
      fun _ _ _ _ _ => trivial
    rw [← h.dma] at hchange
    exact hchange
  · exact h.taken.trans (by rw [hlen]; exact Nat.le_succ _)
  · rw [hlen, ← Ring.next_mod transmit_pos, ← h.dma]
    exact nextDesc_eq (h.last _ (by rw [h.dma]; exact mod_lt _))
  · refine h.place.frame rfl (Nat.le_refl _) fun hroom => Function.update_of_ne ?_ _ _
    rw [h.dma]
    exact hroom.place_ne h.held.le h.taken hpend

/-- What the handler takes for a sent descriptor is one, unless it is the one being filled. -/
theorem TxPathInv.sent_of_reap (h : TxPathInv base s)
    (hkept : s.filling = some s.txBusyDesc → (s.desc s.txBusyDesc).isEmpty = true)
    (hown : (s.desc s.txBusyDesc).ownedByDma = false)
    (hne : (s.desc s.txBusyDesc).isEmpty = false) : s.taken < s.sent.length := by
  have hle := h.held.le
  have hpos := transmit_pos
  by_cases hq : s.taken < s.queued.length
  · obtain ⟨f, -, -, -, -, howned, -⟩ := h.held.item s.taken (Nat.le_refl _) hq
    rw [← h.busyDesc, hown] at howned
    by_contra hno
    exact absurd (howned.2 (by omega)) Bool.false_ne_true
  · exfalso
    have heq : s.queued.length = s.taken := by omega
    have hat : s.txBusyDesc = s.place := by rw [h.busyDesc, TxPath.place, heq]
    have hroom : Room s := by
      unfold Room
      omega
    have hnonzero : (s.desc s.place).length ≠ 0 := fun hzero => by
      rw [hat, isEmpty_of_length hzero] at hne
      cases hne
    have hzero : s.claimed = 0 → (s.desc s.place).length = 0 := fun hclaimed =>
      h.blank.free s.queued.length (by rw [hclaimed]; exact Nat.le_refl _) hroom
    rw [hat] at hkept hne
    cases hpc : s.pc with
    | store p w Length Buffer1 txnext txdesc =>
      by_cases hw : w.filling = true
      · obtain ⟨-, -, hdesc, -, -, hfilled⟩ := (place_store hpc hw).1 h.place
        by_cases hstored : s.filling = some txdesc
        · rw [hkept (by rw [hstored, hdesc])] at hne
          cases hne
        · cases w with
          | count => exact hnonzero (hzero (by simp [TxPath.claimed, hpc]))
          | length => exact hnonzero hfilled.2
          | next => cases hw
          | nextDesc => cases hw
          | _ => exact hstored (by simp only [TxPath.filling, hpc])
      · refine hnonzero (hzero ?_)
        cases w <;> first | exact absurd rfl hw | simp [TxPath.claimed, hpc]
    | _ => exact hnonzero (hzero (by simp [TxPath.claimed, hpc]))

theorem TxPathInv.reap (h : TxPathInv base s) {o : BitVec 32 × TxQptr × TxRing}
    (hkept : s.filling = some s.txBusyDesc → (s.desc s.txBusyDesc).isEmpty = true)
    (ho : s.getTxQptr = some o) :
    TxPathInv base { s with toTxRing := o.2.2, taken := s.taken + 1 } := by
  obtain ⟨⟨hown, hne⟩, -, hr⟩ := get_cases ho
  have hsent := h.sent_of_reap hkept hown hne
  have hle := h.sent.length_le
  have hbusy := h.busy
  have hlt := s.busyTxDesc.isLt
  rw [hr]
  refine ⟨last_update h.last txDescInitRing_last, ?_, ?_, h.sent, hsent, h.dma, ?_, ?_, h.accepted,
    h.fits, ?_⟩
  · rw [h.busyDesc]
    exact h.held.pop (by omega) txDescInitRing_owned
  · rw [h.busyDesc]
    exact h.blank.pop (by omega) rfl
  · show Gmac.nextDesc _ s.txBusyDesc = (s.taken + 1) % transmitDescSize
    rw [← Ring.next_mod transmit_pos, ← h.busyDesc]
    exact nextDesc_eq (h.last _ (by rw [h.busyDesc]; exact mod_lt _))
  · show (s.busyTxDesc - 1).toNat + (s.taken + 1) = s.queued.length + s.claimed
    rw [BitVec.toNat_sub, show (1 : BitVec 32).toNat = 1 from rfl]
    omega
  · refine h.place.frame rfl (Nat.le_succ _) fun hroom => Function.update_of_ne ?_ _ _
    rw [h.busyDesc]
    exact hroom.place_ne h.held.le (Nat.le_refl _) (by omega)

theorem txPathStep_kept (h : TxPathInv base s) (hk : BufferKept s e)
    (ht : txPathStep base offload_needed s e = some t) : TxPathInv base t := by
  cases e with
  | output p =>
    obtain ⟨⟨hpc, hp⟩, ht⟩ := Option.ite_none_right_eq_some.mp ht
    obtain rfl := Option.some.inj ht
    exact h.output hpc hp
  | advance => exact h.advance ht
  | complete status tsLow tsHigh =>
    obtain ⟨⟨hown, hnot, hlast⟩, ht⟩ := Option.ite_none_right_eq_some.mp ht
    obtain rfl := Option.some.inj ht
    exact h.complete hown hnot hlast rfl rfl
  | reap =>
    cases ho : s.getTxQptr with
    | none =>
      simp only [txPathStep, ho] at ht
      obtain rfl := Option.some.inj ht
      exact h
    | some o =>
      simp only [txPathStep, ho] at ht
      obtain rfl := Option.some.inj ht
      exact h.reap hk ho

theorem TxPathInv.law (h : TxPathInv base s) : BufferLaw s := by
  refine ⟨fun i hi => ?_, fun p tx_idx len rest hpc => ?_, fun hpc => ?_, fun k f hk hf => ?_,
    fun i hi hown => ?_, h.sent⟩
  · cases hpc : s.pc with
    | copying p tx_idx len rest =>
      have hplace := h.place
      unfold OutputPlace at hplace
      simp only [TxPath.writing, hpc, Option.some.injEq] at hi hplace
      obtain ⟨⟨hnext, hidx, hroom⟩, -⟩ := hplace
      rw [hidx, hnext.1] at hi
      subst hi
      exact ⟨h.held.free _ (Nat.le_refl _) hroom, fun k hk hkq =>
        (hroom.place_ne h.held.le hk hkq).symm⟩
    | _ => simp only [TxPath.writing, hpc, reduceCtorEq] at hi
  · have hplace := h.place
    have hfits := h.fits
    unfold OutputPlace at hplace
    rw [hpc] at hplace hfits
    obtain ⟨-, done, hp, hlen, -⟩ := hplace
    rw [← hlen, ← List.length_append, ← List.flatten_append, ← hp]
    exact hfits
  · have hacc := h.accepted
    rw [hpc] at hacc
    exact hacc.trans (List.append_nil _)
  · have hkq := (List.getElem?_eq_some_iff.mp hf).1
    have htaken := h.taken.trans hk
    obtain ⟨-, -, -, -, -, howned, -⟩ := h.held.item k htaken hkq
    exact ⟨howned.2 hk, Option.some.inj ((h.found htaken hkq).symm.trans hf)⟩
  · obtain ⟨k, hk, hkn, rfl⟩ := Ring.exists_mod s.taken hi
    by_cases hkq : k < s.queued.length
    · obtain ⟨-, -, -, -, -, howned, -⟩ := h.held.item k hk hkq
      exact ⟨k, howned.1 hown, hkq, rfl⟩
    · rw [h.held.free k (Nat.le_of_not_lt hkq) hkn] at hown
      cases hown

theorem txOpened_inv (descs : Nat → DmaDesc) (mem : BitVec 32 → Nat → BitVec 8)
    (skbLen : Nat → BitVec 32) : TxPathInv base (txOpened descs mem skbLen) := by
  have hdesc : ∀ i < transmitDescSize, (txOpened descs mem skbLen).desc i =
      txDescInitRing (descs i) (i + 1 = transmitDescSize) := fun i hi => if_pos hi
  refine ⟨fun i hi => ?_, Window.empty (fun i hi => ?_) transmit_pos,
    Window.empty (fun i hi => ?_) transmit_pos, List.prefix_rfl, Nat.le_refl _, rfl, rfl, rfl, rfl,
    trivial, rfl, rfl⟩
  · rw [hdesc i hi, txDescInitRing_last, decide_eq_true_iff]
  · rw [hdesc i hi]
    exact txDescInitRing_owned
  · rw [hdesc i hi]
    rfl

end Steps

/-- As long as the handler does not come to a descriptor that is being filled, the transmit buffers
keep their law whatever the order of calls, stores, completions and interrupts. -/
theorem run_bufferLaw (base offload_needed : BitVec 32) (descs : Nat → DmaDesc)
    (mem : BitVec 32 → Nat → BitVec 8) (skbLen : Nat → BitVec 32) (es : List TxPathEvent)
    (hkept : Trace.EachStep (txPathStep base offload_needed) BufferKept (txOpened descs mem skbLen)
      es) :
    Trace.Always (txPathStep base offload_needed) BufferLaw (txOpened descs mem skbLen) es :=
  (Trace.always_of_eachStep (fun _ _ _ hs hk ht => txPathStep_kept hs hk ht)
    (txOpened_inv descs mem skbLen) hkept).mono fun _ hs => hs.law

/-- A frame of two pbufs is queued and sent, and the handler comes between the calls. -/
theorem run_bufferLaw_between : Trace.Always (txPathStep 0x80000000 1) BufferLaw
    (txOpened (fun _ => blankDesc) (fun _ _ => 0) fun _ => 0)
    ([.output [[1, 2], [3]]] ++ List.replicate 13 .advance ++
      [.complete 0x30000000 0 0, .reap, .reap, .output [[4]]] ++ List.replicate 12 .advance) :=
  run_bufferLaw 0x80000000 1 (fun _ => blankDesc) (fun _ _ => 0) (fun _ => 0) _ (by decide)

/-- The handler comes for the first frame while the second has its length but not its OWN bit: it
takes both back, and the DMA is given a descriptor of length 0. -/
theorem not_bufferLaw_early : ¬ ∀ es, Trace.Always (txPathStep 0x80000000 1) BufferLaw
    (txOpened (fun _ => blankDesc) (fun _ _ => 0) fun _ => 0) es := by
  intro hall
  have hrun : (Trace.run (txPathStep 0x80000000 1)
      (txOpened (fun _ => blankDesc) (fun _ _ => 0) fun _ => 0)
      ([.output [[1, 2]]] ++ List.replicate 12 .advance ++
        [.complete 0x30000000 0 0, .output [[3, 4]]] ++ List.replicate 6 .advance ++
        [.reap, .reap] ++ List.replicate 4 .advance)).map
      (fun s => (s.sent.length, s.queued[1]?, s.found 1)) = some (1, some [3, 4], []) := by
    decide
  obtain ⟨t, ht, hval⟩ := Option.map_eq_some_iff.mp hrun
  obtain ⟨hsent, hqueued, hfound⟩ := by simpa only [Prod.mk.injEq] using hval
  have hlaw := ((hall _).last ht).contents 1 _ (by rw [hsent]) hqueued
  rw [show 1 % transmitDescSize = 1 from rfl, hfound] at hlaw
  exact absurd hlaw.2 (by decide)

end Ma35d1.Gmac
