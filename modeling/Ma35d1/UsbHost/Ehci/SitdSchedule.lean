import Ma35d1.UsbHost.Ehci.Boot
import Ma35d1.UsbHost.Ehci.SubmitIso

/-!
# The schedule of an siTD

`write_sitd_info` writes a start-split and a complete-split mask, and
`ehci_sitd_adjust_schedule` shifts both until they avoid the micro-frames in use. It shifts bits
out of the masks, and it looks at the first siTD of the frame only.
-/

namespace Ma35d1.UsbHost.Ehci

variable {x m : BitVec 32} {k n i : Nat}

/-! ## The masks of a schedule word -/

/-- The S-mask -/
def startMask (x : BitVec 32) : BitVec 8 := x.extractLsb' 0 8

/-- The C-mask -/
def completeMask (x : BitVec 32) : BitVec 8 := x.extractLsb' 8 8

def ones (m : BitVec 8) : Nat := (List.range 8).countP (m.getLsbD ·)

/-- The transactions of at most 188 bytes that `xlen` bytes take -/
def splits (xlen : Nat) : Nat := (xlen + 187) / 188

/-- A start-split, and complete-splits for `n` transactions that follow it by two micro-frames or
more; nothing is outside the two masks. -/
def EncodesIn (x : BitVec 32) (n : Nat) : Prop :=
  x.extractLsb' 16 16 = 0 ∧ ones (startMask x) = 1 ∧ n + 2 ≤ ones (completeMask x) ∧
    ∀ i < 8, (startMask x).getLsbD i → ∀ j < 8, (completeMask x).getLsbD j → i + 2 ≤ j

/-- A start-split for each of `n` transactions, and nothing else -/
def EncodesOut (x : BitVec 32) (n : Nat) : Prop :=
  x.extractLsb' 16 16 = 0 ∧ ones (startMask x) = n ∧ completeMask x = 0

instance (x : BitVec 32) (n : Nat) : Decidable (EncodesIn x n) :=
  inferInstanceAs (Decidable (_ ∧ _ ∧ _ ∧ _))

instance (x : BitVec 32) (n : Nat) : Decidable (EncodesOut x n) :=
  inferInstanceAs (Decidable (_ ∧ _ ∧ _))

/-- What `write_sitd_info` writes for IN -/
def schedIn (n : Nat) : BitVec 32 := (((1#32 <<< (n + 2)) - 1) <<< 10) ||| 0x1#32

/-- What `write_sitd_info` writes for OUT -/
def schedOut (n : Nat) : BitVec 32 := (1#32 <<< n) - 1

/-- The micro-frames of `n` transactions from micro-frame `k` on -/
def splitUframes (out : Bool) (n k : Nat) : BitVec 8 :=
  if out then ((1#8 <<< n) - 1) <<< k else (1#8 <<< k) ||| (((1#8 <<< (n + 2)) - 1) <<< (k + 2))

/-! ## The shift loop -/

/-- One pass of the loop -/
def shiftOne (x : BitVec 32) : BitVec 32 := (x &&& 0xFFFF0000#32) ||| ((x <<< 1) &&& 0xFFFF#32)

/-- With `n` passes at most: the loop has ended, or all of them are made. -/
theorem shiftSched_spec (m : BitVec 32) (n : Nat) (x : BitVec 32) :
    ∃ k ≤ n, shiftSched m n x = shiftOne^[k] x ∧ (∀ j < k, shiftOne^[j] x &&& m ≠ 0) ∧
      (k = n ∨ shiftOne^[k] x &&& m = 0) := by
  induction n generalizing x with
  | zero => exact ⟨0, Nat.le_refl 0, rfl, fun j hj => absurd hj (Nat.not_lt_zero j), .inl rfl⟩
  | succ n ih =>
    rw [shiftSched]
    by_cases hx : x &&& m = 0
    · rw [if_pos hx]
      exact ⟨0, Nat.zero_le _, rfl, fun j hj => absurd hj (Nat.not_lt_zero j), .inr hx⟩
    · rw [if_neg hx]
      obtain ⟨k, hk, heq, hbefore, hend⟩ := ih (shiftOne x)
      refine ⟨k + 1, by omega, heq, fun j hj => ?_, hend.imp (congrArg (· + 1)) id⟩
      cases j with
      | zero => exact hx
      | succ j => exact hbefore j (by omega)

/-- A shift moves the low half. -/
theorem shiftOne_getLsbD (x : BitVec 32) (hi : i < 16) :
    (shiftOne x).getLsbD i = (decide (1 ≤ i) && x.getLsbD (i - 1)) := by
  have hhigh : (0xFFFF0000#32).getLsbD i = false := by
    revert i
    decide
  have hlow : (0xFFFF#32).getLsbD i = true := by
    revert i
    decide
  rw [shiftOne, BitVec.getLsbD_or, BitVec.getLsbD_and, BitVec.getLsbD_and, hhigh, hlow,
    BitVec.getLsbD_shiftLeft]
  by_cases h : 1 ≤ i
  · simp [h, show ¬ i < 1 by omega, show i < 32 by omega]
  · simp [h, show i < 1 by omega]

theorem shiftOne_iterate_getLsbD (k : Nat) (x : BitVec 32) (hi : i < 16) :
    (shiftOne^[k] x).getLsbD i = (decide (k ≤ i) && x.getLsbD (i - k)) := by
  induction k generalizing i with
  | zero => simp
  | succ k ih =>
    rw [Function.iterate_succ_apply', shiftOne_getLsbD _ hi, ih (by omega)]
    by_cases h : k + 1 ≤ i
    · simp [h, show 1 ≤ i by omega, show k ≤ i - 1 by omega, show i - 1 - k = i - (k + 1) by omega]
    · by_cases h1 : 1 ≤ i
      · simp [h, show ¬ k ≤ i - 1 by omega]
      · simp [h, h1]

theorem eq_zero_of_getLsbD {w : Nat} {y : BitVec w} (h : ∀ i < w, y.getLsbD i = false) : y = 0 :=
  BitVec.eq_of_getLsbD_eq fun i hi => (h i hi).trans BitVec.getLsbD_zero.symm

/-- Micro-frames in both masks -/
def bothMasks (m : BitVec 8) : BitVec 32 := m.setWidth 32 ||| (m.setWidth 32 <<< 8)

theorem bothMasks_getLsbD (m : BitVec 8) (hi : i < 8) :
    (bothMasks m).getLsbD i = m.getLsbD i ∧ (bothMasks m).getLsbD (8 + i) = m.getLsbD i := by
  simp [bothMasks, hi, show i < 32 by omega, show 8 + i < 32 by omega]

theorem uframes_getLsbD (x : BitVec 32) (hi : i < 8) : (startMask x ||| completeMask x).getLsbD i =
    (x.getLsbD i || x.getLsbD (8 + i)) := by
  rw [BitVec.getLsbD_or, startMask, completeMask, BitVec.getLsbD_extractLsb',
    BitVec.getLsbD_extractLsb', Nat.zero_add]
  simp [hi]

theorem and_bothMasks_eq_zero (x : BitVec 32) (m : BitVec 8) :
    x &&& bothMasks m = 0 ↔ (startMask x ||| completeMask x) &&& m = 0 := by
  constructor
  · intro h
    refine eq_zero_of_getLsbD fun i hi => ?_
    obtain ⟨hlow, hhigh⟩ := bothMasks_getLsbD m hi
    have hl := congrArg (BitVec.getLsbD · i) h
    have hh := congrArg (BitVec.getLsbD · (8 + i)) h
    simp only [BitVec.getLsbD_and, hlow, hhigh, BitVec.ofNat_eq_ofNat, BitVec.getLsbD_zero] at hl hh
    rw [BitVec.getLsbD_and, uframes_getLsbD x hi, Bool.and_or_distrib_right, hl, hh]
    rfl
  · intro h
    refine eq_zero_of_getLsbD fun i hi => ?_
    have hbit : ∀ j < 8, (x.getLsbD j && m.getLsbD j) = false ∧
        (x.getLsbD (8 + j) && m.getLsbD j) = false := by
      intro j hj
      have hj' := congrArg (BitVec.getLsbD · j) h
      simp only [BitVec.getLsbD_and, uframes_getLsbD x hj, BitVec.ofNat_eq_ofNat,
        BitVec.getLsbD_zero, Bool.and_or_distrib_right, Bool.or_eq_false_iff] at hj'
      exact hj'
    rw [BitVec.getLsbD_and]
    obtain hlow | hmid | hhigh : i < 8 ∨ 8 ≤ i ∧ i < 16 ∨ 16 ≤ i := by omega
    · rw [(bothMasks_getLsbD m hlow).1]
      exact (hbit i hlow).1
    · have hsum : 8 + (i - 8) = i := by omega
      have hmask := (bothMasks_getLsbD m (show i - 8 < 8 by omega)).2
      have hboth := (hbit (i - 8) (by omega)).2
      rw [hsum] at hmask hboth
      rw [hmask]
      exact hboth
    · have hnone : (bothMasks m).getLsbD i = false := by
        rw [bothMasks, BitVec.getLsbD_or, BitVec.getLsbD_shiftLeft, BitVec.getLsbD_setWidth,
          BitVec.getLsbD_setWidth, BitVec.getLsbD_of_ge m i (by omega),
          BitVec.getLsbD_of_ge m (i - 8) (by omega)]
        simp
      rw [hnone, Bool.and_false]

/-- **The shift loop ends**, after at most sixteen passes and at the first place without a
conflict. -/
theorem shiftSched_ends (m : BitVec 8) (x : BitVec 32) : ∃ k ≤ 16,
    shiftSched (bothMasks m) 16 x = shiftOne^[k] x ∧
      (∀ j < k, shiftOne^[j] x &&& bothMasks m ≠ 0) ∧ shiftOne^[k] x &&& bothMasks m = 0 := by
  obtain ⟨k, hk, heq, hbefore, hend⟩ := shiftSched_spec (bothMasks m) 16 x
  refine ⟨k, hk, heq, hbefore, hend.elim (fun h16 => ?_) id⟩
  rw [h16, and_bothMasks_eq_zero]
  refine eq_zero_of_getLsbD fun i hi => ?_
  rw [BitVec.getLsbD_and, uframes_getLsbD _ hi, shiftOne_iterate_getLsbD 16 x (by omega),
    shiftOne_iterate_getLsbD 16 x (by omega)]
  simp [show ¬ 16 ≤ i by omega, show ¬ 16 ≤ 8 + i by omega]

/-! ## Where the masks fit -/

theorem encodesIn_iff : ∀ n < 7, ∀ k < 17, EncodesIn (shiftOne^[k] (schedIn n)) n ↔ k + n ≤ 4 := by
  decide

theorem encodesOut_iff : ∀ n < 7, 0 < n → ∀ k < 17,
    (EncodesOut (shiftOne^[k] (schedOut n)) n ↔ k + n ≤ 8) := by
  decide

theorem uframes_in : ∀ n < 7, ∀ k < 17, k + n ≤ 4 →
    startMask (shiftOne^[k] (schedIn n)) ||| completeMask (shiftOne^[k] (schedIn n)) =
      splitUframes false n k := by
  decide

theorem uframes_out : ∀ n < 7, ∀ k < 17, k + n ≤ 8 →
    startMask (shiftOne^[k] (schedOut n)) ||| completeMask (shiftOne^[k] (schedOut n)) =
      splitUframes true n k := by
  decide

/-! ## The siTDs of a frame -/

/-- From link `l`, link `l'` is met on the way through the frame. -/
inductive Follows (m : Links) : Link → Link → Prop
  | refl (l : Link) : Follows m l l
  | step {l l' : Link} {a : Addr} (hl : l.ptr = some a) (h : Follows m (m.hLink a) l') :
      Follows m l l'

/-- An siTD that is linked in frame `f` -/
def FrameSitd (m : Links) (f : Nat) (a : Addr) : Prop := Follows m (m.pfList f) (.sitd a)

/-- The micro-frames of an siTD: those of both masks for IN, of the S-mask for OUT -/
def usedBy (t : SitdHw) : BitVec 8 :=
  if t.chrst &&& 0x80000000#32 ≠ 0 then startMask t.sched ||| completeMask t.sched
  else startMask t.sched

/-- Those of the siTD that a frame begins with, if it does -/
def firstUsed (s : Ehci) (f : Nat) : BitVec 8 :=
  match s.pfList f with
  | .sitd a => usedBy (s.sitdHw a)
  | _ => 0

/-- What `ehci_iso_split_xfer` does with an siTD before it links it -/
def placeSitd (u : UtrId) (e : EpId) (x : IsoId) (td : Addr) (fidx : Nat) (s : Ehci) :
    Option Ehci := do
  let s ← writeSitdInfo u e td (setTdUtr .sitd td u fidx s)
  some (ehciSitdAdjustSchedule td (s.setLinks { s.toLinks with
    schedFrnidx := Links.setTd s.schedFrnidx .sitd td (s.nextFrame x) }))

/-- The siTD is written, its masks are those of `n` transactions, and no siTD of the frame has a
micro-frame in common with it. -/
structure LegalIn (s : Ehci) (f : Nat) (td : Addr) (out : Bool) (n : Nat) : Prop where
  masks : if out then EncodesOut (s.sitdHw td).sched n else EncodesIn (s.sitdHw td).sched n
  apart : ∀ a, FrameSitd s.toLinks f a →
    (startMask (s.sitdHw td).sched ||| completeMask (s.sitdHw td).sched) &&&
      usedBy (s.sitdHw a) = 0

variable {s s' : Ehci} {u : UtrId} {e : EpId} {y : IsoId} {td : Addr} {fidx f : Nat}

theorem Follows.congr {m m' : Links} {l l' : Link} (h : Follows m l l') (hm : m'.hLink = m.hLink) :
    Follows m' l l' := by
  induction h with
  | refl l => exact .refl l
  | step hl _ ih => exact .step hl (by rw [hm]; exact ih)

theorem firstUsed_congr (hp : s'.pfList = s.pfList) (hw : ∀ a, a ≠ td → s'.sitdHw a = s.sitdHw a)
    (htd : ¬ FrameSitd s.toLinks f td) : firstUsed s' f = firstUsed s f := by
  unfold firstUsed
  rw [hp]
  cases hl : s.pfList f with
  | sitd a =>
    have hne : a ≠ td := by
      rintro rfl
      exact htd (by rw [FrameSitd, hl]; exact .refl _)
    dsimp only
    rw [hw a hne]
  | _ => rfl

theorem mask_low (x : BitVec 32) : x &&& 0xFF#32 = (startMask x).setWidth 32 := by
  apply BitVec.eq_of_getLsbD_eq
  intro i hi
  have hmask : (0xFF#32).getLsbD i = decide (i < 8) := by
    revert i
    decide
  rw [BitVec.getLsbD_and, hmask, startMask, BitVec.getLsbD_setWidth, BitVec.getLsbD_extractLsb',
    Nat.zero_add]
  by_cases h : i < 8 <;> simp [h, hi]

theorem startMask_shift (x : BitVec 32) : startMask (x >>> 8) = completeMask x := by
  apply BitVec.eq_of_getLsbD_eq
  intro i hi
  rw [startMask, completeMask, BitVec.getLsbD_extractLsb', BitVec.getLsbD_extractLsb',
    BitVec.getLsbD_ushiftRight, Nat.zero_add]

theorem usedUframes_eq (hf : s.schedFrnidx .sitd td = f) (htd : ¬ FrameSitd s.toLinks f td) :
    s.usedUframes td = (firstUsed s f).setWidth 32 := by
  unfold usedUframes firstUsed
  rw [hf]
  cases hl : s.pfList f with
  | sitd a =>
    have hne : a ≠ td := by
      rintro rfl
      exact htd (by rw [FrameSitd, hl]; exact .refl _)
    dsimp only
    rw [if_neg hne, usedBy]
    split
    · rw [mask_low, mask_low, startMask_shift, BitVec.setWidth_or]
    · rw [mask_low]
  | _ => rfl

/-! ## What is written -/

/-- The schedule word that `write_sitd_info` writes for `xlen` bytes -/
def schedOf (out : Bool) (n : Nat) : BitVec 32 := if out then schedOut n else schedIn n

theorem splits_le (h : n ≤ 1023) : splits n ≤ 6 := by
  unfold splits
  omega

theorem sitdOutSmask_get : ∀ n < 7, 0 < n → sitdOutSmask[n - 1]? = some (schedOut n) := by
  decide

theorem writeSitdInfo_eq (hset : s.tdFidx .sitd td = fidx) (hfidx : fidx < ifPerUtr)
    (hpar : (s.udev (s.utr u).udev).parent ≠ []) (hlen : ((s.utr u).isoXlen fidx).toNat ≤ 1023)
    (hpos : (s.ep e).isOut → 0 < ((s.utr u).isoXlen fidx).toNat) :
    ∃ t : SitdHw,
      t.sched = schedOf (s.ep e).isOut (splits ((s.utr u).isoXlen fidx).toNat) ∧
      writeSitdInfo u e td s = some (s.setSitdHw td fun _ => t) := by
  subst hset
  obtain ⟨hub, rest, hhub⟩ := List.exists_cons_of_ne_nil hpar
  have hioc : (if s.tdFidx .sitd td = ifPerUtr then (0x80000000#32) else 0) = 0 :=
    if_neg (Nat.ne_of_lt hfidx)
  have hle := splits_le hlen
  unfold splits at *
  unfold writeSitdInfo
  dsimp only
  rw [hhub, hioc]
  simp only [List.head?_cons, Option.bind_eq_bind, Option.bind_some]
  cases hout : (s.ep e).isOut with
  | false =>
    rw [if_pos rfl]
    exact ⟨_, by exact BitVec.or_zero, rfl⟩
  | true =>
    have hn : 0 < (((s.utr u).isoXlen (s.tdFidx .sitd td)).toNat + 187) / 188 := by
      have := hpos hout
      omega
    rw [if_neg (by decide), if_neg (Nat.ne_of_gt hn), sitdOutSmask_get _ (by omega) hn]
    exact ⟨_, by exact BitVec.or_zero, rfl⟩

theorem writeSitdInfo_eq_none (hset : s.tdFidx .sitd td = fidx)
    (hpar : (s.udev (s.utr u).udev).parent ≠ []) (hout : (s.ep e).isOut = true)
    (hlen : ((s.utr u).isoXlen fidx).toNat = 0) : writeSitdInfo u e td s = none := by
  subst hset
  obtain ⟨hub, rest, hhub⟩ := List.exists_cons_of_ne_nil hpar
  unfold writeSitdInfo
  dsimp only
  rw [hhub, hlen, hout]
  rfl

theorem setTdUtr_tdFidx (s : Ehci) (u : UtrId) (td : Addr) (hfidx : fidx < ifPerUtr) :
    (setTdUtr .sitd td u fidx s).tdFidx .sitd td = fidx := by
  show Links.setTd s.tdFidx .sitd td (fidx % 256) .sitd td = fidx
  rw [Links.setTd_self, Nat.mod_eq_of_lt (hfidx.trans (by decide))]

theorem placeSitd_eq_none (hfidx : fidx < ifPerUtr) (hpar : (s.udev (s.utr u).udev).parent ≠ [])
    (hout : (s.ep e).isOut = true) (hlen : ((s.utr u).isoXlen fidx).toNat = 0) :
    placeSitd u e y td fidx s = none := by
  have hw := writeSitdInfo_eq_none (s := setTdUtr .sitd td u fidx s) (u := u) (e := e)
    (setTdUtr_tdFidx s u td hfidx) hpar hout hlen
  rw [placeSitd, hw]
  rfl

/-- What is written, and what is not touched -/
theorem placeSitd_spec (hfidx : fidx < ifPerUtr) (hpar : (s.udev (s.utr u).udev).parent ≠ [])
    (hlen : ((s.utr u).isoXlen fidx).toNat ≤ 1023)
    (hpos : (s.ep e).isOut → 0 < ((s.utr u).isoXlen fidx).toNat)
    (htd : ¬ FrameSitd s.toLinks (s.nextFrame y) td) :
    ∃ s', placeSitd u e y td fidx s = some s' ∧ s'.hLink = s.hLink ∧ s'.pfList = s.pfList ∧
      (∀ a, a ≠ td → s'.sitdHw a = s.sitdHw a) ∧
      (s'.sitdHw td).sched = shiftSched (bothMasks (firstUsed s (s.nextFrame y))) 16
        (schedOf (s.ep e).isOut (splits ((s.utr u).isoXlen fidx).toNat)) := by
  obtain ⟨t, ht, hw⟩ := writeSitdInfo_eq (s := setTdUtr .sitd td u fidx s) (u := u) (e := e)
    (setTdUtr_tdFidx s u td hfidx) hfidx hpar hlen hpos
  let s₁ := (setTdUtr .sitd td u fidx s).setSitdHw td fun _ => t
  let s₂ := s₁.setLinks { s₁.toLinks with
    schedFrnidx := Links.setTd s₁.schedFrnidx .sitd td (s₁.nextFrame y) }
  have hother : ∀ a, a ≠ td → s₂.sitdHw a = s.sitdHw a := fun a ha => Function.update_of_ne ha ..
  have hframe : s₂.schedFrnidx .sitd td = s.nextFrame y := by
    show Links.setTd s₁.schedFrnidx .sitd td (s.nextFrame y) .sitd td = _
    exact Links.setTd_self ..
  have htd₂ : ¬ FrameSitd s₂.toLinks (s.nextFrame y) td := fun h =>
    htd (h.congr rfl)
  have hused : s₂.usedUframes td = (firstUsed s (s.nextFrame y)).setWidth 32 := by
    have hfirst : firstUsed s₂ (s.nextFrame y) = firstUsed s (s.nextFrame y) :=
      firstUsed_congr rfl hother htd
    rw [usedUframes_eq hframe htd₂, hfirst]
  have hword : (s₂.sitdHw td).sched = schedOf (s.ep e).isOut
      (splits ((s.utr u).isoXlen fidx).toNat) := by
    show (Function.update s.sitdHw td t td).sched = _
    rw [Function.update_self]
    exact ht
  refine ⟨ehciSitdAdjustSchedule td s₂, ?_, rfl, rfl, fun a ha => ?_, ?_⟩
  · rw [placeSitd, hw]
    rfl
  · exact (Function.update_of_ne ha ..).trans (hother a ha)
  · rw [← hword]
    show (Function.update s₂.sitdHw td _ td).sched = _
    rw [Function.update_self, hused]
    rfl

/-! ## When the schedule is legal -/

/-- How far the masks of `n` transactions may be shifted -/
def room (out : Bool) : Nat := if out then 8 else 4

/-- Some shift keeps both masks whole, is the first one to avoid the siTD at the head of the frame,
and avoids the others too. -/
def HasPlace (s : Ehci) (f : Nat) (out : Bool) (n : Nat) : Prop :=
  ∃ k, k + n ≤ room out ∧ (∀ j < k, splitUframes out n j &&& firstUsed s f ≠ 0) ∧
    ∀ a, FrameSitd s.toLinks f a → splitUframes out n k &&& usedBy (s.sitdHw a) = 0

theorem encodes_iff {out : Bool} (hn : n < 7) (hpos : out → 0 < n) (hk : k < 17) :
    (if out then EncodesOut (shiftOne^[k] (schedOf out n)) n
      else EncodesIn (shiftOne^[k] (schedOf out n)) n) ↔ k + n ≤ room out := by
  cases out with
  | true => exact encodesOut_iff n hn (hpos rfl) k hk
  | false => exact encodesIn_iff n hn k hk

theorem uframes_eq {out : Bool} (hn : n < 7) (hk : k + n ≤ room out) :
    startMask (shiftOne^[k] (schedOf out n)) ||| completeMask (shiftOne^[k] (schedOf out n)) =
      splitUframes out n k := by
  have hroom : room out ≤ 8 := by cases out <;> decide
  cases out with
  | true => exact uframes_out n hn k (by omega) hk
  | false => exact uframes_in n hn k (by omega) hk

/-- What is free of all siTDs of a frame is free of the first. -/
theorem firstUsed_and {v : BitVec 8}
    (h : ∀ a, FrameSitd s.toLinks f a → v &&& usedBy (s.sitdHw a) = 0) :
    v &&& firstUsed s f = 0 := by
  unfold firstUsed
  cases hl : s.pfList f with
  | sitd a => exact h a (by rw [FrameSitd, hl]; exact .refl _)
  | _ => exact BitVec.and_zero

/-- **The schedule of an siTD.** For every endpoint, length, and set of siTDs in the frame it is
legal exactly if there is something to send, for OUT, and the first place that avoids the siTD at
the head of the frame keeps the masks whole and avoids all others. -/
theorem placeSitd_legal_iff (u : UtrId) (e : EpId) (y : IsoId) (td : Addr) (fidx : Nat) (s : Ehci)
    (hfidx : fidx < ifPerUtr) (hpar : (s.udev (s.utr u).udev).parent ≠ [])
    (hlen : ((s.utr u).isoXlen fidx).toNat ≤ 1023)
    (htd : ¬ FrameSitd s.toLinks (s.nextFrame y) td) :
    (∃ s', placeSitd u e y td fidx s = some s' ∧ LegalIn s' (s.nextFrame y) td (s.ep e).isOut
        (splits ((s.utr u).isoXlen fidx).toNat)) ↔
      ((s.ep e).isOut → 0 < ((s.utr u).isoXlen fidx).toNat) ∧
        HasPlace s (s.nextFrame y) (s.ep e).isOut (splits ((s.utr u).isoXlen fidx).toNat) := by
  have hn : splits ((s.utr u).isoXlen fidx).toNat < 7 := Nat.lt_succ_of_le (splits_le hlen)
  have hsplit : ((s.ep e).isOut → 0 < ((s.utr u).isoXlen fidx).toNat) →
      (s.ep e).isOut → 0 < splits ((s.utr u).isoXlen fidx).toNat := by
    intro hpos hout
    have := hpos hout
    unfold splits
    omega
  obtain ⟨k, hk, hword, hconf, hfree⟩ := shiftSched_ends (firstUsed s (s.nextFrame y))
    (schedOf (s.ep e).isOut (splits ((s.utr u).isoXlen fidx).toNat))
  constructor
  · rintro ⟨s', hp, hl⟩
    have hpos : (s.ep e).isOut → 0 < ((s.utr u).isoXlen fidx).toNat := by
      intro hout
      by_contra h0
      rw [placeSitd_eq_none hfidx hpar hout (by omega)] at hp
      cases hp
    obtain ⟨s₂, hp₂, hlink, hpf, hother, hsched⟩ := placeSitd_spec hfidx hpar hlen hpos htd
    obtain rfl := Option.some.inj (hp.symm.trans hp₂)
    rw [hword] at hsched
    have hroom := hl.masks
    rw [hsched, encodes_iff hn (hsplit hpos) (by omega)] at hroom
    refine ⟨hpos, k, hroom, fun j hj => ?_, fun a ha => ?_⟩
    · have hj' := hconf j hj
      rw [Ne, and_bothMasks_eq_zero, uframes_eq hn (by omega)] at hj'
      exact hj'
    · have hne : a ≠ td := by
        rintro rfl
        exact htd ha
      have hap := hl.apart a (by rw [FrameSitd, hpf]; exact ha.congr hlink)
      rw [hsched, uframes_eq hn hroom, hother a hne] at hap
      exact hap
  · rintro ⟨hpos, k₀, hroom, hbefore, hapart⟩
    -- the loop stops where the condition says
    have hk₀ : k = k₀ := by
      obtain hlt | heq | hgt := Nat.lt_trichotomy k k₀
      · rw [and_bothMasks_eq_zero, uframes_eq hn (by omega)] at hfree
        exact absurd hfree (hbefore k hlt)
      · exact heq
      · have hstop := hconf k₀ hgt
        rw [Ne, and_bothMasks_eq_zero, uframes_eq hn hroom] at hstop
        exact absurd (firstUsed_and hapart) hstop
    subst hk₀
    obtain ⟨s₂, hp₂, hlink, hpf, hother, hsched⟩ := placeSitd_spec hfidx hpar hlen hpos htd
    rw [hword] at hsched
    refine ⟨s₂, hp₂, ?_, fun a ha => ?_⟩
    · rw [hsched]
      exact (encodes_iff hn (hsplit hpos) (by omega)).mpr hroom
    · have ha' : FrameSitd s.toLinks (s.nextFrame y) a := by
        rw [FrameSitd, hpf] at ha
        exact ha.congr hlink.symm
      have hne : a ≠ td := by
        rintro rfl
        exact htd ha'
      rw [hsched, uframes_eq hn hroom, hother a hne]
      exact hapart a ha'

/-! ## A device behind a hub -/

/-- A request of eight packets of `xlen` bytes -/
def splitUtr (xlen : BitVec 16) : Utr :=
  { sampleUtr 0 0 with isoXlen := fun _ => xlen, isoBuff := fun _ => 0x80004000#32 }

/-- Endpoint `addr` of a full-speed device at port 2 of a hub; an OUT siTD in unit 7 has the first
micro-frame of each frame. -/
def splitStart (addr : BitVec 8) (xlen : BitVec 16) : Ehci :=
  { sampleStart with
    udev := fun _ => ⟨64#8, .full, 2#8, 3#8, [⟨.high, 1#8, 2#8⟩]⟩
    ep := fun _ => ⟨addr, 0x01#8, 1, 1023#16⟩
    utr := fun _ => splitUtr xlen
    pfList := fun _ => .sitd 7
    hLink := fun _ => .terminate
    sitdHw := fun _ => ⟨0x02020104#32, 0x1#32, 0, fun _ => 0, .terminate⟩ }

theorem Follows.eq_of_last {m : Links} {a b : Addr} (hlast : m.hLink a = .terminate)
    (h : Follows m (.sitd a) (.sitd b)) : b = a := by
  cases h with
  | refl => rfl
  | step hl h =>
    obtain rfl := Option.some.inj hl
    rw [hlast] at h
    cases h with
    | step hl _ => cases hl

/-- An OUT packet of 376 bytes takes the second and the third micro-frame. -/
theorem placeSitd_legal_iff_out : ∃ s',
    placeSitd 0 (.alt 3) 0 5 0 (splitStart 0x04#8 376) = some s' ∧
      LegalIn s' ((splitStart 0x04#8 376).nextFrame 0) 5 true 2 :=
  (placeSitd_legal_iff 0 (.alt 3) 0 5 0 (splitStart 0x04#8 376) (by decide) (by decide)
    (by decide) fun h => absurd (Follows.eq_of_last rfl h) (by decide)).mpr
    ⟨fun _ => by decide, 1, by decide, by decide,
      fun _ _ => (by decide : splitUframes true 2 1 &&&
        usedBy ⟨0x02020104#32, 0x1#32, 0, fun _ => 0, .terminate⟩ = 0)⟩

/-- The complete-splits of an IN packet of 1023 bytes do not fit into the C-mask. -/
theorem not_placeSitd_legal_in : ¬ ∃ s',
    placeSitd 0 (.alt 3) 0 5 0 (splitStart 0x84#8 1023) = some s' ∧
      LegalIn s' ((splitStart 0x84#8 1023).nextFrame 0) 5 false 6 := by
  rintro ⟨s', hp, hl⟩
  have hword : (placeSitd 0 (.alt 3) 0 5 0 (splitStart 0x84#8 1023)).map
      (fun s => (s.sitdHw 5).sched) = some 0x3F802#32 := by decide
  rw [hp] at hword
  have hmasks : EncodesIn (s'.sitdHw 5).sched 6 := hl.masks
  have hsched : (s'.sitdHw 5).sched = 0x3F802#32 := Option.some.inj hword
  rw [hsched] at hmasks
  exact absurd hmasks (by decide)

end Ma35d1.UsbHost.Ehci
