import Ma35d1.UsbHost.Ehci.Failure

/-!
# The qTDs of a bulk transfer

The controller takes the bytes of a qTD from the page offset in `Bptr[0]` on, through the pages of
the five pointers. The slices of `ehci_bulk_xfer` follow one another in the order of `Next_qTD` and
of the software links, and their bytes are those of the buffer.
-/

namespace Ma35d1.UsbHost.Ehci

open Heap.LinkedPath Relation

variable {M : Mode} {own : Owner} {hand : UtrId → List (List Nat)} {hot : Ptr} {home : UtrId → Home}
  {s s' s₁ s₂ : Ehci} {v : View} {a qh qtd : Addr} {u : UtrId} {e : EpId} {pre : Ptr}
  {buff dataLen len tok : BitVec 32} {l : List Addr}

/-! ## What the controller makes of a qTD -/

/-- The address of byte `i`: offset and page run on from `Bptr[0]`. -/
def byteAt (q : QtdHw) (i : Nat) : BitVec 32 :=
  (q.bptr (((q.bptr 0).toNat % 0x1000 + i) / 0x1000) &&& ~~~0xFFF#32) +
    BitVec.ofNat 32 (((q.bptr 0).toNat % 0x1000 + i) % 0x1000)

/-- The field Total Bytes of a token -/
def totalBytes (token : BitVec 32) : Nat := token.toNat / 0x10000 % 0x8000

/-- The bytes that a qTD addresses, in their order -/
def qtdBytes (s : Ehci) (a : Addr) : List (BitVec 32) :=
  (List.range (totalBytes (s.token a))).map (byteAt (s.qtdHw a))

/-- The addresses from `buff` on -/
def byteRange (buff : BitVec 32) (n : Nat) : List (BitVec 32) :=
  (List.range n).map fun i => buff + BitVec.ofNat 32 i

/-- A qTD fits its pointers and its field. -/
structure QtdFits (s : Ehci) (a : Addr) : Prop where
  pages : ((s.qtdHw a).bptr 0).toNat % 0x1000 + totalBytes (s.token a) ≤ 5 * 0x1000
  field : (s.qtdXferLen a).toNat = totalBytes (s.token a)
  pos : 0 < totalBytes (s.token a)

/-- The chain `l` of a QH covers a buffer. -/
structure ChainCovers (s : Ehci) (qh : Addr) (buff dataLen : BitVec 32) (l : List Addr) : Prop where
  next : Path some s.qtdNext (s.qtdList qh) l none
  nextQtd : Path QtdLink.qtd (fun a => (s.qtdHw a).nextQtd) (s.qhHw qh).olNextQtd l (.qtd s.ghostQtd)
  ghost : s.ghostQtd ∉ l
  nodup : l.Nodup
  bytes : l.flatMap (qtdBytes s) = byteRange buff dataLen.toNat
  disjoint : (l.flatMap (qtdBytes s)).Nodup
  fits : ∀ a ∈ l, QtdFits s a
  ioc : ∀ a ∈ l, (s.token a).getLsbD 15 = true ↔ l.getLast? = some a

/-! ## One qTD -/

theorem byteRange_add (buff : BitVec 32) (m n : Nat) :
    byteRange buff (m + n) = byteRange buff m ++ byteRange (buff + BitVec.ofNat 32 m) n := by
  unfold byteRange
  rw [List.range_add, List.map_append, List.map_map]
  congr 1
  refine List.map_congr_left fun i _ => ?_
  show buff + BitVec.ofNat 32 (m + i) = _
  rw [BitVec.ofNat_add, BitVec.add_assoc]

theorem byteRange_nodup (buff : BitVec 32) {n : Nat} (hn : n ≤ 0x100000000) :
    (byteRange buff n).Nodup := by
  refine List.Nodup.map_on (fun i hi j hj hij => ?_) List.nodup_range
  have hi := List.mem_range.mp hi
  have hj := List.mem_range.mp hj
  have h := congrArg BitVec.toNat (add_left_cancel hij)
  rw [BitVec.toNat_ofNat, BitVec.toNat_ofNat] at h
  omega

/-- The page of an address -/
theorem toNat_page (x : BitVec 32) : (x &&& ~~~0xFFF#32).toNat = x.toNat - x.toNat % 0x1000 := by
  have hsum : (x &&& 0xFFF#32) + (x &&& ~~~0xFFF#32) = x := by
    rw [BitVec.add_eq_or_of_and_eq_zero, ← BitVec.and_or_distrib_left]
    · exact BitVec.and_allOnes
    · rw [BitVec.and_assoc, ← BitVec.and_assoc 0xFFF#32, BitVec.and_comm 0xFFF#32 x, BitVec.and_assoc,
        show 0xFFF#32 &&& ~~~0xFFF#32 = 0#32 from rfl, BitVec.and_zero, BitVec.and_zero]
  have hoff : (x &&& 0xFFF#32).toNat = x.toNat % 0x1000 := by
    rw [BitVec.toNat_and]
    exact Nat.and_two_pow_sub_one_eq_mod x.toNat 12
  have hle : (x &&& ~~~0xFFF#32).toNat ≤ x.toNat := by
    rw [BitVec.toNat_and]
    exact Nat.and_le_left
  have h := congrArg BitVec.toNat hsum
  rw [BitVec.toNat_add, hoff] at h
  have := x.isLt
  have := (x &&& ~~~0xFFF#32).isLt
  omega

/-- The page pointers that `write_qtd_bptr` writes -/
def pagePtrs (buff : BitVec 32) (i : Nat) : BitVec 32 :=
  if i = 0 then buff
  else ((buff + 0x1000#32) &&& ~~~0xFFF#32) + BitVec.ofNat 32 (0x1000 * (i - 1))

theorem toNat_pagePtrs {i : Nat} (h0 : i ≠ 0) (hi : i < 0x1000) :
    (pagePtrs buff i).toNat = (buff.toNat / 0x1000 + i) * 0x1000 % 0x100000000 := by
  have hbuff := buff.isLt
  have hnext : (buff + 0x1000#32).toNat = (buff.toNat + 0x1000) % 0x100000000 := BitVec.toNat_add ..
  have hpage : (BitVec.ofNat 32 (0x1000 * (i - 1))).toNat = 0x1000 * (i - 1) := by
    rw [BitVec.toNat_ofNat]
    omega
  rw [pagePtrs, if_neg h0, BitVec.toNat_add, toNat_page, hnext, hpage]
  omega

theorem byteAt_pagePtrs {q : QtdHw} (hq : q.bptr = pagePtrs buff) {i : Nat} (hi : i < 0x4000) :
    byteAt q i = buff + BitVec.ofNat 32 i := by
  have hbuff := buff.isLt
  refine BitVec.eq_of_toNat_eq ?_
  rw [byteAt, hq, show pagePtrs buff 0 = buff from rfl, BitVec.toNat_add, toNat_page,
    BitVec.toNat_add, BitVec.toNat_ofNat, BitVec.toNat_ofNat]
  by_cases h0 : (buff.toNat % 0x1000 + i) / 0x1000 = 0
  · rw [h0, show pagePtrs buff 0 = buff from rfl]
    omega
  · rw [toNat_pagePtrs h0 (by omega)]
    omega

theorem token_parts {low : BitVec 32} (hlen : len.toNat ≤ 0x4000) (hlow : low.toNat < 0x10000) :
    totalBytes (len <<< 16 ||| low) = len.toNat ∧
      (len <<< 16 ||| low).getLsbD 15 = low.getLsbD 15 := by
  have hnat : (len <<< 16 ||| low).toNat = len.toNat * 0x10000 + low.toNat := by
    rw [BitVec.toNat_or, BitVec.toNat_shiftLeft, Nat.mod_eq_of_lt (by rw [Nat.shiftLeft_eq]; omega),
      ← Nat.shiftLeft_add_eq_or_of_lt hlow, Nat.shiftLeft_eq]
  refine ⟨?_, ?_⟩
  · rw [totalBytes, hnat]
    omega
  · rw [BitVec.getLsbD_or, BitVec.getLsbD_shiftLeft]
    rfl

/-! ## One slice -/

theorem appendQtd_words (h : appendQtd qh qtd tok s = some s') :
    s'.ghostQtd = s.ghostQtd ∧ s'.qtdHw = s.qtdHw ∧ s'.qtdXferLen = s.qtdXferLen ∧
      s'.token = Function.update s.token qtd tok := by
  obtain ⟨m, hm, rfl⟩ := Option.map_eq_some_iff.mp h
  have hghost : m.ghostQtd = s.ghostQtd := by
    unfold Links.appendToQtdListOfQh at hm
    split at hm
    · obtain rfl := Option.some.inj hm
      rfl
    · obtain ⟨last, -, hm⟩ := Option.bind_eq_some_iff.mp hm
      obtain rfl := Option.some.inj hm
      rfl
  exact ⟨hghost, rfl, rfl, rfl⟩

/-- `xfer_len` -/
def sliceLen (dataLen : BitVec 32) : BitVec 32 := if 0x4000#32 < dataLen then 0x4000#32 else dataLen

theorem sliceLen_le (dataLen : BitVec 32) :
    (sliceLen dataLen).toNat ≤ 0x4000 ∧ (sliceLen dataLen).toNat ≤ dataLen.toNat := by
  unfold sliceLen
  split
  case isTrue h => exact ⟨Nat.le_refl _, Nat.le_of_lt h⟩
  case isFalse h => exact ⟨Nat.le_of_not_lt h, Nat.le_refl _⟩

/-- A qTD holds a slice, the one before it leads there, and the words of the others are as they
were. -/
structure Sliced (s s' : Ehci) (qtd : Addr) (pre : Ptr) (buff len : BitVec 32) (last : Prop) :
    Prop where
  ghost : s'.ghostQtd = s.ghostQtd
  next : (s'.qtdHw qtd).nextQtd = .qtd s.ghostQtd
  bptr : (s'.qtdHw qtd).bptr = pagePtrs buff
  xferLen : s'.qtdXferLen qtd = len
  total : totalBytes (s'.token qtd) = len.toNat
  ioc : (s'.token qtd).getLsbD 15 = true ↔ last
  other : ∀ a ≠ qtd, s'.token a = s.token a ∧ (s'.qtdHw a).bptr = (s.qtdHw a).bptr ∧
    s'.qtdXferLen a = s.qtdXferLen a ∧
      (s'.qtdHw a).nextQtd = if pre = some a then .qtd qtd else (s.qtdHw a).nextQtd

/-- The token of a slice -/
theorem sliceToken (hlen : len.toNat ≤ 0x4000) (isOut : Bool) (ioc : BitVec 32)
    (hioc : ioc = 0#32 ∨ ioc = qtdIoc) :
    totalBytes ((len <<< 16 ||| (qtdErrCounter ||| (if isOut then qtdPidOut else qtdPidIn) |||
        qtdStsActive)) ||| ioc) = len.toNat ∧
      ((len <<< 16 ||| (qtdErrCounter ||| (if isOut then qtdPidOut else qtdPidIn) |||
        qtdStsActive)) ||| ioc).getLsbD 15 = decide (ioc = qtdIoc) := by
  rw [BitVec.or_assoc]
  rcases hioc with rfl | rfl <;> cases isOut <;> exact token_parts hlen (by decide)

/-- A qTD is filled in. -/
theorem fillQtd_words (s : Ehci) (qtd : Addr) (link : QtdLink) (buff len : BitVec 32) :
    (writeQtdBptr qtd buff len (setAltNextQtd qtd .listEnd (setNextQtd qtd link s))).qtdHw qtd =
        ⟨link, .listEnd, pagePtrs buff⟩ ∧
      ∀ a ≠ qtd, (writeQtdBptr qtd buff len
        (setAltNextQtd qtd .listEnd (setNextQtd qtd link s))).qtdHw a = s.qtdHw a := by
  unfold writeQtdBptr setAltNextQtd setNextQtd Ehci.setQtdHw
  refine ⟨?_, fun a ha => ?_⟩
  · simp only [Function.update_self]
    rfl
  · simp only [Function.update_of_ne ha]

/-- The words of a slice before the one in front of it is chained -/
theorem bulkSlice_words (h : bulkSlice e qh qtd buff dataLen none s = some s') :
    Sliced s s' qtd none buff (sliceLen dataLen) (dataLen - sliceLen dataLen = 0) := by
  obtain ⟨s₁, hs₁, rfl⟩ := Option.map_eq_some_iff.mp h
  obtain ⟨hghost, hhw, hlen, htok⟩ := appendQtd_words hs₁
  obtain ⟨hself, hother⟩ := fillQtd_words s qtd (.qtd s.ghostQtd) buff (sliceLen dataLen)
  have hself₁ : s₁.qtdHw qtd = ⟨.qtd s.ghostQtd, .listEnd, pagePtrs buff⟩ := hhw ▸ hself
  have hother₁ : ∀ a ≠ qtd, s₁.token a = s.token a ∧ (s₁.qtdHw a).bptr = (s.qtdHw a).bptr ∧
      s₁.qtdXferLen a = s.qtdXferLen a ∧ (s₁.qtdHw a).nextQtd = (s.qtdHw a).nextQtd := fun a ha => by
    have hw : s₁.qtdHw a = s.qtdHw a := hhw ▸ hother a ha
    exact ⟨by rw [htok]; exact Function.update_of_ne ha .., by rw [hw],
      by rw [hlen]; exact Function.update_of_ne ha .., by rw [hw]⟩
  have htok₁ : s₁.token qtd = sliceLen dataLen <<< 16 |||
      (qtdErrCounter ||| (if (s.ep e).isOut then qtdPidOut else qtdPidIn) ||| qtdStsActive) := by
    rw [htok]
    exact Function.update_self ..
  have hlen₁ : s₁.qtdXferLen qtd = sliceLen dataLen := by
    rw [hlen]
    exact Function.update_self ..
  have hparts := sliceToken (sliceLen_le dataLen).1 (s.ep e).isOut
  show Sliced s (if dataLen - sliceLen dataLen = 0 then setNextQtd qtd (.qtd s₁.ghostQtd)
    (setToken qtd (s₁.token qtd ||| qtdIoc) s₁) else s₁) qtd none buff _ _
  by_cases hlast : dataLen - sliceLen dataLen = 0
  · obtain ⟨htotal, hioc⟩ := hparts qtdIoc (.inr rfl)
    have hset : (setNextQtd qtd (.qtd s₁.ghostQtd) (setToken qtd (s₁.token qtd ||| qtdIoc) s₁)).qtdHw
        qtd = ⟨.qtd s₁.ghostQtd, .listEnd, pagePtrs buff⟩ := by
      refine (Function.update_self ..).trans ?_
      show { s₁.qtdHw qtd with nextQtd := QtdLink.qtd s₁.ghostQtd } = _
      rw [hself₁]
    have hmark : (setNextQtd qtd (.qtd s₁.ghostQtd) (setToken qtd (s₁.token qtd ||| qtdIoc) s₁)).token
        qtd = s₁.token qtd ||| qtdIoc := Function.update_self ..
    rw [if_pos hlast]
    refine ⟨hghost, by rw [hset, hghost]; rfl, by rw [hset], hlen₁, ?_, ?_, fun a ha => ?_⟩
    · rw [hmark, htok₁]
      exact htotal
    · rw [hmark, htok₁]
      exact iff_of_true hioc hlast
    · obtain ⟨ht, hb, hl, hn⟩ := hother₁ a ha
      have hne : (setNextQtd qtd (.qtd s₁.ghostQtd)
          (setToken qtd (s₁.token qtd ||| qtdIoc) s₁)).qtdHw a = s₁.qtdHw a :=
        Function.update_of_ne ha ..
      exact ⟨(Function.update_of_ne ha ..).trans ht, by rw [hne, hb], hl, by rw [hne, hn]; rfl⟩
  · obtain ⟨htotal, hioc⟩ := hparts 0#32 (.inl rfl)
    rw [BitVec.or_zero] at htotal hioc
    rw [if_neg hlast]
    refine ⟨hghost, by rw [hself₁], by rw [hself₁], hlen₁, ?_, ?_, fun a ha => ?_⟩
    · rw [htok₁]
      exact htotal
    · rw [htok₁, hioc]
      exact iff_of_false (by decide) hlast
    · obtain ⟨ht, hb, hl, hn⟩ := hother₁ a ha
      exact ⟨ht, hb, hl, by rw [hn]; rfl⟩

theorem bulkSlice_sliced (hne : pre ≠ some qtd)
    (h : bulkSlice e qh qtd buff dataLen pre s = some s') :
    Sliced s s' qtd pre buff (sliceLen dataLen) (dataLen - sliceLen dataLen = 0) := by
  cases pre with
  | none => exact bulkSlice_words h
  | some p =>
    obtain ⟨s₂, hs₂, rfl⟩ : ∃ s₂, bulkSlice e qh qtd buff dataLen none s = some s₂ ∧
        setNextQtd p (.qtd qtd) s₂ = s' := by
      obtain ⟨s₁, hs₁, rfl⟩ := Option.map_eq_some_iff.mp h
      exact ⟨_, Option.map_eq_some_iff.mpr ⟨s₁, hs₁, rfl⟩, rfl⟩
    have hsl := bulkSlice_words hs₂
    have hp : qtd ≠ p := fun he => hne (congrArg some he.symm)
    have hself : (setNextQtd p (.qtd qtd) s₂).qtdHw qtd = s₂.qtdHw qtd := Function.update_of_ne hp ..
    refine ⟨hsl.ghost, by rw [hself]; exact hsl.next, by rw [hself]; exact hsl.bptr, hsl.xferLen,
      hsl.total, hsl.ioc, fun a ha => ?_⟩
    obtain ⟨htok, hbptr, hlen, hnext⟩ := hsl.other a ha
    by_cases hap : a = p
    · subst hap
      have hset : (setNextQtd a (.qtd qtd) s₂).qtdHw a = { s₂.qtdHw a with nextQtd := .qtd qtd } :=
        Function.update_self ..
      exact ⟨htok, by rw [hset]; exact hbptr, hlen, by rw [hset, if_pos rfl]⟩
    · have hset : (setNextQtd p (.qtd qtd) s₂).qtdHw a = s₂.qtdHw a := Function.update_of_ne hap ..
      refine ⟨htok, by rw [hset]; exact hbptr, hlen, ?_⟩
      rw [hset, hnext, if_neg (fun h => Option.noConfusion rfl (heq_of_eq h)),
        if_neg fun h => hap (Option.some.inj h).symm]

/-! ## The loop over the slices -/

/-- The link to the first of the qTDs that follow -/
def firstLink (ghost : Addr) : List Addr → QtdLink
  | [] => .qtd ghost
  | a :: _ => .qtd a

/-- The new qTDs `l` follow `pre` and hold the rest of the buffer. -/
structure BulkChained (s s' : Ehci) (pre : Ptr) (buff dataLen : BitVec 32) (l : List Addr) : Prop where
  ghost : s'.ghostQtd = s.ghostQtd
  chain : Path QtdLink.qtd (fun a => (s'.qtdHw a).nextQtd) (firstLink s.ghostQtd l) l
    (.qtd s.ghostQtd)
  bytes : l.flatMap (qtdBytes s') = byteRange buff dataLen.toNat
  fits : ∀ a ∈ l, QtdFits s' a
  ioc : ∀ a ∈ l, (s'.token a).getLsbD 15 = true ↔ l.getLast? = some a
  before : ∀ p, pre = some p → (s'.qtdHw p).nextQtd = firstLink s.ghostQtd l
  other : ∀ a ∉ l, s'.token a = s.token a ∧ (s'.qtdHw a).bptr = (s.qtdHw a).bptr ∧
    s'.qtdXferLen a = s.qtdXferLen a ∧ (pre ≠ some a → (s'.qtdHw a).nextQtd = (s.qtdHw a).nextQtd)

theorem BulkChained.nil (hpre : ∀ p, pre = some p → (s.qtdHw p).nextQtd = .qtd s.ghostQtd)
    (hlen : dataLen = 0) : BulkChained s s pre buff dataLen [] := by
  subst hlen
  exact ⟨rfl, rfl, rfl, fun _ h => absurd h List.not_mem_nil, fun _ h => absurd h List.not_mem_nil,
    hpre, fun _ _ => ⟨rfl, rfl, rfl, fun _ => rfl⟩⟩

theorem BulkChained.nil_iff (h : BulkChained s s' pre buff dataLen l) : l = [] ↔ dataLen = 0 := by
  have hbytes := congrArg List.length h.bytes
  unfold byteRange at hbytes
  rw [List.length_map, List.length_range] at hbytes
  constructor
  · rintro rfl
    exact BitVec.eq_of_toNat_eq hbytes.symm
  · rintro rfl
    cases l with
    | nil => rfl
    | cons a l =>
      have hpos := (h.fits a List.mem_cons_self).pos
      rw [List.flatMap_cons, List.length_append, qtdBytes, List.length_map, List.length_range] at hbytes
      exact absurd hbytes (by show _ ≠ 0; omega)

theorem allocEhciQtd_others {w : Option UtrId} (h : s.allocEhciQtd w = some (qtd, s')) :
    s'.ghostQtd = s.ghostQtd ∧ ∀ a ≠ qtd, s'.token a = s.token a ∧ s'.qtdHw a = s.qtdHw a ∧
      s'.qtdXferLen a = s.qtdXferLen a := by
  obtain ⟨r, hr, he⟩ := Option.map_eq_some_iff.mp h
  obtain ⟨rfl, rfl⟩ := Prod.mk.inj he
  obtain ⟨-, -, hm⟩ := allocEhciQtd_some hr
  refine ⟨?_, fun a ha => ⟨Function.update_of_ne ha .., Function.update_of_ne ha ..,
    Function.update_of_ne ha ..⟩⟩
  show r.2.ghostQtd = s.ghostQtd
  rw [hm]

/-- The bytes of a slice -/
theorem Sliced.bytes {last : Prop} (h : Sliced s s' qtd pre buff len last) (hlen : len.toNat ≤ 0x4000) :
    (List.range (totalBytes (s'.token qtd))).map (byteAt (s'.qtdHw qtd)) =
      byteRange buff len.toNat := by
  rw [h.total]
  refine List.map_congr_left fun i hi => byteAt_pagePtrs h.bptr ?_
  exact Nat.lt_of_lt_of_le (List.mem_range.mp hi) hlen

/-- One more slice in front -/
theorem BulkChained.cons (ha : s.allocEhciQtd (some u) = some (qtd, s₁))
    (hs : Sliced s₁ s₂ qtd pre buff (sliceLen dataLen) (dataLen - sliceLen dataLen = 0))
    (h : BulkChained s₂ s' (some qtd) (buff + sliceLen dataLen) (dataLen - sliceLen dataLen) l)
    (hlen : dataLen ≠ 0) (hqtd : qtd ∉ l) (hpre : ∀ p, pre = some p → p ≠ qtd ∧ p ∉ l) :
    BulkChained s s' pre buff dataLen (qtd :: l) := by
  obtain ⟨hghost, hwords⟩ := allocEhciQtd_others ha
  obtain ⟨hmax, hle⟩ := sliceLen_le dataLen
  obtain ⟨htok, hbptr, hxfer, -⟩ := h.other qtd hqtd
  have hghost₂ : s₂.ghostQtd = s.ghostQtd := hs.ghost.trans hghost
  have hpos : 0 < (sliceLen dataLen).toNat := by
    have hne : dataLen.toNat ≠ 0 := fun h0 => hlen (BitVec.eq_of_toNat_eq h0)
    unfold sliceLen
    split
    · decide
    · omega
  have hbytes : qtdBytes s' qtd = byteRange buff (sliceLen dataLen).toNat := by
    rw [qtdBytes, htok]
    unfold byteAt
    rw [hbptr]
    exact hs.bytes hmax
  have hrest : dataLen.toNat = (sliceLen dataLen).toNat + (dataLen - sliceLen dataLen).toNat := by
    rw [BitVec.toNat_sub_of_le hle]
    omega
  refine ⟨h.ghost.trans hghost₂, ⟨rfl, ?_⟩, ?_, fun a hm => ?_, fun a hm => ?_, fun p hp => ?_,
    fun a hm => ?_⟩
  · show Path _ _ (s'.qtdHw qtd).nextQtd l _
    rw [h.before qtd rfl, ← hghost₂]
    exact h.chain
  · rw [List.flatMap_cons, hbytes, h.bytes, hrest, byteRange_add, BitVec.ofNat_toNat,
      BitVec.setWidth_eq]
  · rcases List.mem_cons.mp hm with rfl | hm
    · refine ⟨?_, ?_, ?_⟩
      · rw [htok, hs.total]
        omega
      · rw [hxfer, htok, hs.total, hs.xferLen]
      · rw [htok, hs.total]
        exact hpos
    · exact h.fits a hm
  · rcases List.mem_cons.mp hm with rfl | hm
    · rw [htok, hs.ioc, ← h.nil_iff]
      constructor
      · rintro rfl
        rfl
      · intro hlast
        cases l with
        | nil => rfl
        | cons b l =>
          rw [List.getLast?_cons_cons] at hlast
          exact absurd (List.mem_of_getLast? hlast) hqtd
    · rw [h.ioc a hm]
      cases l with
      | nil => exact absurd hm List.not_mem_nil
      | cons b l => rw [List.getLast?_cons_cons]
  · obtain ⟨hne, hp'⟩ := hpre p hp
    obtain ⟨-, -, -, hnext⟩ := h.other p hp'
    obtain ⟨-, -, -, hnext₂⟩ := hs.other p hne
    rw [hnext fun he => hne (Option.some.inj he).symm, hnext₂, if_pos hp]
    rfl
  · obtain ⟨hne, hm⟩ := not_or.mp (mt List.mem_cons.mpr hm)
    obtain ⟨htok', hbptr', hxfer', hnext'⟩ := h.other a hm
    obtain ⟨htok₂, hbptr₂, hxfer₂, hnext₂⟩ := hs.other a hne
    obtain ⟨htok₁, hhw₁, hxfer₁⟩ := hwords a hne
    refine ⟨htok'.trans (htok₂.trans htok₁), by rw [hbptr', hbptr₂, hhw₁],
      hxfer'.trans (hxfer₂.trans hxfer₁), fun hp => ?_⟩
    rw [hnext' fun he => hne (Option.some.inj he).symm, hnext₂, if_neg hp, hhw₁]

/-- The loop queues free units, and they hold the rest of the buffer. -/
theorem bulkQtds_chained {n : Nat} (hf : Filling M hand hot home u qh [] s v)
    (hn : dataLen.toNat ≤ n * 0x4000)
    (hpre : ∀ p, pre = some p → v.role p ≠ .free ∧ (s.qtdHw p).nextQtd = .qtd s.ghostQtd)
    (h : bulkQtds u e qh n buff dataLen pre s = some (true, s')) :
    ∃ v' l, Filling M hand hot home u qh [] s' v' ∧ v'.queued qh = v.queued qh ++ l ∧
      (∀ a ∈ l, v.role a = .free) ∧ BulkChained s s' pre buff dataLen l := by
  induction n generalizing buff dataLen pre s v with
  | zero =>
    obtain rfl := (Prod.mk.inj (Option.some.inj h)).2
    refine ⟨v, [], hf, (List.append_nil _).symm, fun _ ha => absurd ha List.not_mem_nil,
      .nil (fun p hp => (hpre p hp).2) (BitVec.eq_of_toNat_eq ?_)⟩
    exact Nat.eq_zero_of_le_zero (Nat.le_trans hn (Nat.le_of_eq (Nat.zero_mul _)))
  | succ n ih =>
    rw [bulkQtds] at h
    split at h
    case isTrue h0 =>
      obtain rfl := (Prod.mk.inj (Option.some.inj h)).2
      exact ⟨v, [], hf, (List.append_nil _).symm, fun _ ha => absurd ha List.not_mem_nil,
        .nil (fun p hp => (hpre p hp).2) h0⟩
    case isFalse h0 =>
      cases ha : s.allocEhciQtd (some u) with
      | none =>
        rw [ha] at h
        cases h
      | some r =>
        obtain ⟨qtd, s₁⟩ := r
        rw [ha] at h
        obtain ⟨s₂, hs₂, h⟩ := Option.bind_eq_some_iff.mp h
        obtain ⟨hf₁, hfree, -⟩ := hf.alloc ha
        obtain ⟨s₂', hs₂', hf₂, -⟩ := bulkSlice_ok hf₁
        obtain rfl := Option.some.inj (hs₂.symm.trans hs₂')
        have hne : ∀ p, pre = some p → p ≠ qtd := fun p hp he => (hpre p hp).1 (he ▸ hfree)
        have hsl := bulkSlice_sliced (fun hp => hne qtd hp rfl) hs₂
        have hrole : ∀ a, a ≠ qtd →
            ((v.become qtd (.held .qtd)).putQueued qh qtd).role a = v.role a := fun a hane =>
          (Function.update_of_ne hane ..).trans (Function.update_of_ne hane ..)
        have hqtd : ((v.become qtd (.held .qtd)).putQueued qh qtd).role qtd = .queued qh :=
          Function.update_self ..
        have hrest : (dataLen - sliceLen dataLen).toNat ≤ n * 0x4000 := by
          rw [BitVec.toNat_sub_of_le (sliceLen_le dataLen).2]
          unfold sliceLen
          split
          · show dataLen.toNat - 0x4000 ≤ _
            omega
          · omega
        have hpre' : ∀ p, some qtd = some p →
            ((v.become qtd (.held .qtd)).putQueued qh qtd).role p ≠ .free ∧
              (s₂.qtdHw p).nextQtd = .qtd s₂.ghostQtd := by
          rintro p ⟨⟩
          rw [hqtd, hsl.next, hsl.ghost]
          exact ⟨Role.noConfusion, rfl⟩
        obtain ⟨v', l, hf', hv', hl, hch⟩ := ih hf₂ hrest hpre' h
        have hfresh : ∀ a ∈ l, a ≠ qtd ∧ v.role a = .free := fun a hm => by
          have hne' : a ≠ qtd := fun he => by
            have hr := hl a hm
            rw [he, hqtd] at hr
            cases hr
          exact ⟨hne', by rw [← hrole a hne']; exact hl a hm⟩
        refine ⟨v', qtd :: l, hf', ?_, fun a hm => ?_, .cons ha hsl hch h0
          (fun hm => (hfresh qtd hm).1 rfl) fun p hp => ⟨hne p hp, fun hm => ?_⟩⟩
        · rw [hv']
          show Function.update v.queued qh (v.queued qh ++ [qtd]) qh ++ l = _
          rw [Function.update_self, List.append_assoc]
          rfl
        · rcases List.mem_cons.mp hm with rfl | hm
          · exact hfree
          · exact (hfresh a hm).2
        · exact (hpre p hp).1 (hfresh p hm).2

/-! ## The whole transfer -/

theorem bulkStart_words {isNewQh : Bool} (h : bulkStart e qh isNewQh s = some (0, s')) :
    s'.qtdHw = s.qtdHw ∧ s'.token = s.token ∧ s'.qtdXferLen = s.qtdXferLen ∧
      s'.ghostQtd = s.ghostQtd ∧ s'.qtdNext = s.qtdNext ∧ s'.qtdList = s.qtdList ∧
      s'.hwPipe = s.hwPipe ∧
      (s'.qhHw qh).olNextQtd = ((s.qtdList qh).map QtdLink.qtd).getD .null := by
  unfold bulkStart at h
  cases isNewQh with
  | false =>
    obtain rfl := (Prod.mk.inj (Option.some.inj h)).2
    refine ⟨rfl, rfl, rfl, rfl, rfl, rfl, rfl, ?_⟩
    show (Function.update s.qhHw qh _ qh).olNextQtd = _
    rw [Function.update_self]
  | true =>
    obtain ⟨q, -, he⟩ := Option.map_eq_some_iff.mp h
    obtain rfl := (Prod.mk.inj he).2
    refine ⟨rfl, rfl, rfl, rfl, rfl, rfl, rfl, ?_⟩
    show (Function.update (Function.update s.qhHw qh _) qh _ qh).olNextQtd = _
    rw [Function.update_self]
    show (Function.update s.qhHw qh _ qh).olNextQtd = _
    rw [Function.update_self]

theorem bulkOnQh_covers {isNewQh : Bool} (hf : Filling M hand hot home u qh [] s v)
    (hq : v.queued qh = []) (hlen : 0 < (s.utr u).dataLen)
    (h : bulkOnQh u e qh isNewQh s = some (0, s')) : s'.hwPipe = s.hwPipe ∧
      ∃ l, ChainCovers s' qh (s.utr u).buff (s.utr u).dataLen l := by
  unfold bulkOnQh at h
  obtain ⟨⟨ok, s₁⟩, hs₁, h⟩ := Option.bind_eq_some_iff.mp h
  cases ok with
  | false =>
    obtain ⟨_, -, he⟩ := Option.map_eq_some_iff.mp h
    exact absurd (Prod.mk.inj he).1 (by decide)
  | true =>
    obtain ⟨v₁, l, hf₁, hv₁, hfree, hch⟩ := bulkQtds_chained hf
      (by unfold bulkSlices; omega) (fun p hp => Option.noConfusion rfl (heq_of_eq hp)) hs₁
    obtain ⟨-, -, hq₁, -⟩ := bulkQtds_ok hf hs₁
    obtain ⟨hhw, htok, hxfer, hghost, hnext, hlist, hpipe, hol⟩ := bulkStart_words h
    rw [hq, List.nil_append] at hv₁
    have hpath : Path some s₁.qtdNext (s₁.qtdList qh) l none := hv₁ ▸ hf₁.inv.shape.queued qh hf₁.unit
    have hbytes : qtdBytes s' = qtdBytes s₁ := by
      funext a
      rw [qtdBytes, htok, hhw]
      rfl
    have hfirst : (s'.qhHw qh).olNextQtd = firstLink s.ghostQtd l := by
      cases l with
      | nil =>
        have hzero := hch.nil_iff.mp rfl
        rw [hzero] at hlen
        exact absurd hlen (by decide)
      | cons a l =>
        rw [hol, hpath.1]
        rfl
    refine ⟨hpipe.trans hq₁.hwPipe, l, ?_, ?_, fun hm => ?_, hpath.nodup_none, ?_, ?_, fun a hm => ?_,
      fun a hm => ?_⟩
    · rw [hnext, hlist]
      exact hpath
    · rw [hfirst, hghost, hch.ghost, hhw]
      exact hch.chain
    · rw [hghost, hch.ghost] at hm
      have hr := hfree _ hm
      rw [(hf.inv.shape.ghost _).mpr rfl] at hr
      cases hr
    · rw [hbytes]
      exact hch.bytes
    · rw [hbytes, hch.bytes]
      exact byteRange_nodup _ (Nat.le_of_lt (s.utr u).dataLen.isLt)
    · obtain ⟨hpages, hfield, hpos⟩ := hch.fits a hm
      exact ⟨by rw [hhw, htok]; exact hpages, by rw [hxfer, htok]; exact hfield,
        by rw [htok]; exact hpos⟩
    · rw [htok]
      exact hch.ioc a hm

/-! ## Submissions of any client -/

/-- A client that may submit any request at any time -/
def anyone : Owner := fun _ _ => True

theorem anyone_ne_completed : anyone ≠ completed := fun h => by
  have hpending : anyone [.submit 0 false] 0 = ¬ (0 = 0 ∨ Pending [] 0) := by rw [h]; rfl
  exact hpending.mp trivial (.inl rfl)

/-- Whoever submits, the lists keep their shape. -/
theorem Inv.anyOwner (hi : Inv ⟨own, False, False, False⟩ hand hot home s v) :
    Inv ⟨anyone, False, False, False⟩ hand hot home s v where
  shape := hi.shape
  frees := hi.frees
  acct ho := absurd ho anyone_ne_completed
  bells := hi.bells
  answered h := h.elim
  psen h := h.elim
  hotTd := hi.hotTd

/-- A QH without qTDs may be filled. -/
theorem Inv.fill (hi : Inv ⟨anyone, False, False, False⟩ hand hot home s v)
    (hunit : s.pool.unit qh = some .qh) (hempty : s.qtdList qh = none) :
    Filling ⟨anyone, False, False, False⟩ hand hot home u qh [] s v ∧ v.queued qh = [] :=
  hi.startFill hunit hempty False.elim fun ho => absurd ho anyone_ne_completed

/-- **The qTDs of a bulk transfer.** In every state of a run, the chain of an accepted transfer
covers its buffer. -/
theorem ehciBulkXfer_covers (hs : Reachable own s) (hlen : 0 < (s.utr u).dataLen)
    (h : ehciBulkXfer u s = some (0, s')) : ∃ e qh l, s.utrEp u = some e ∧ s'.hwPipe e = .qh qh ∧
      ChainCovers s' qh (s.utr u).buff (s.utr u).dataLen l := by
  obtain ⟨s₀, h₀, hrun⟩ := hs
  obtain ⟨v, hd⟩ := idle_run ⟨own, False, False, False⟩
    (fun hd hs => hd.step (fun h => h) (fun h => h) (fun h => h) hs) h₀ hrun
  obtain ⟨home, hg⟩ := hd.good
  have hi := hg.inv.anyOwner
  unfold ehciBulkXfer at h
  obtain ⟨e, he, h⟩ := Option.bind_eq_some_iff.mp h
  split at h
  case h_1 qh hp =>
    split at h
    · exact absurd (Prod.mk.inj (Option.some.inj h)).1 (by decide)
    · rename_i hempty
      have hunit : s.pool.unit qh = some .qh := by
        rcases hg.tidy.pipeQh e qh hp with ⟨-, i, hm⟩ | ⟨-, -, hm⟩
        · exact hi.shape.unit_of_role (hi.shape.role_intr hm) rfl
        · exact (hg.unit_ring hm).1
      obtain ⟨hf, hq⟩ := hi.fill hunit (not_not.mp hempty)
      obtain ⟨hpipe, l, hl⟩ := bulkOnQh_covers hf hq hlen h
      exact ⟨e, qh, l, he, by rw [hpipe]; exact hp, hl⟩
  case h_2 hp =>
    split at h
    · exact absurd (Prod.mk.inj (Option.some.inj h)).1 (by decide)
    · rename_i qh s₁ ha
      obtain ⟨hi₁, -, -, -, hutr⟩ := hi.allocQh ha
      obtain ⟨sw, hw, h⟩ := Option.bind_eq_some_iff.mp h
      obtain ⟨f, g, rfl⟩ := writeQh_eq hw
      have hheld : (v.become qh (.held .qh)).role qh = .held .qh := Function.update_self ..
      have hunit : s₁.pool.unit qh = some .qh := hi₁.shape.unit_of_role hheld rfl
      have hi₂ : Inv ⟨anyone, False, False, False⟩ (fun _ => []) none home
          (({ s₁ with udev := f, qhHw := g } : Ehci).setHwPipe e (.qh qh))
          (v.become qh (.held .qh)) := (hi₁.setHwPipe e _).scratch ..
      have hempty : s₁.qtdList qh = none := allocEhciQh_qtdList ha
      obtain ⟨hf, hq⟩ := hi₂.fill hunit hempty
      have hutr' : s₁.utr u = s.utr u := by rw [hutr]
      obtain ⟨hpipe, l, hl⟩ := bulkOnQh_covers hf hq (by rw [← hutr'] at hlen; exact hlen) h
      refine ⟨e, qh, l, he, ?_, hutr' ▸ hl⟩
      rw [hpipe]
      exact Function.update_self ..
  case h_3 => cases h

/-- 36 KB from an address inside a page -/
def unalignedUtr : Utr := { sampleUtr 0 0x9000#32 with buff := 0x80002ABC#32 }

theorem ehciBulkXfer_covers_unaligned :
    ∃ e qh l, (prepared 0 unalignedUtr (some (.alt 0)) sampleStart).utrEp 0 = some e ∧
      (callResult (r := 0) (ehciBulkXfer 0 (prepared 0 unalignedUtr (some (.alt 0)) sampleStart))
        (by decide)).hwPipe e = .qh qh ∧
      ChainCovers (callResult (r := 0) (ehciBulkXfer 0
        (prepared 0 unalignedUtr (some (.alt 0)) sampleStart)) (by decide))
        qh 0x80002ABC#32 0x9000#32 l := by
  have hs : Reachable completed (prepared 0 unalignedUtr (some (.alt 0)) sampleStart) :=
    ⟨sampleStart, sampleStart_initial, .tail .refl (.core (.api (.prepare 0 unalignedUtr
      (some (.alt 0)) 0 (by decide : ¬ Pending sampleStart.trace 0))))⟩
  exact ehciBulkXfer_covers hs (by decide : 0 < unalignedUtr.dataLen) (callResult_eq _)

end Ma35d1.UsbHost.Ehci
