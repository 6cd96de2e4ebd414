import Ma35d1.Tsi.AesModes

/-!
# Which splits of a message come out right

CBC takes the vector for the next call from the first block of its output or input, CFB128 and OFB
leave it as it was. A split comes out right only where that does not matter.
-/

namespace Ma35d1.Tsi

open Ma35d1.Machine.Chaining
open Ma35d1.Machine.Copy

/-! ## Splits that are kept -/

section Kept

variable {tsi : Engine} {E : Cipher} {m : Int} {s : Parts} {src dst : Nat} {blocks lens : List Nat}

theorem ran_cbc (h : Applies tsi E) (m : Int) : Ran (cbcCall m tsi) E (encDec m) aesModeCbc :=
  fun _ _ _ _ => cbc_ran h m

theorem ran_cfb128 (h : Applies tsi E) (m : Int) :
    Ran (cfb128Call m tsi) E (encDec m) aesModeCfb :=
  fun _ _ _ _ => cfb128_ran h m

theorem ran_ofb (h : Applies tsi E) : Ran (ofbCall tsi) E 1 aesModeOfb :=
  fun _ _ _ _ => ofb_ran h

theorem cipher_step_cbc {key iv b : Bytes} : E.step key (encDec m) aesModeCbc iv b =
    if m = mbedtlsAesEncrypt then cbcEncrypt xor (E.enc key) iv b
    else cbcDecrypt xor (E.dec key) iv b := by
  unfold Cipher.step encDec
  rw [if_pos rfl]
  by_cases hm : m = mbedtlsAesEncrypt
  · rw [if_pos hm, if_pos rfl, if_pos hm]
  · rw [if_neg hm, if_neg (by decide), if_neg hm]

/-- The vector for the next call is in `s_u8out`. -/
def Parts.Synced (s : Parts) : Prop := ∀ i : Fin 16, s.iv i = s.port.u8out i

theorem synced_next (h : Applies tsi E) (hm : m = mbedtlsAesEncrypt) (len : Nat) :
    (s.next (cbcCall m tsi) len src dst).Synced := by
  intro i
  have hiv := cbc_iv h m s src dst len i
  rw [if_pos hm] at hiv
  exact hiv

/-- After a block the vector is the one that the mode hands on. -/
theorem cbc_next_block (h : Applies tsi E) :
    List.ofFn (s.next (cbcCall m tsi) aesBlockSize src dst).iv =
      (E.step s.ctx.key (encDec m) aesModeCbc (List.ofFn s.iv)
        (copyFrom s.mem src aesBlockSize)).2 := by
  have hiv := cbc_iv h m s src dst aesBlockSize
  rw [cipher_step_cbc]
  by_cases hm : m = mbedtlsAesEncrypt
  · obtain ⟨hlen, hu8out, -⟩ := (ran_cbc h m s src dst aesBlockSize).out (Nat.le_refl _)
      fun _ => Nat.dvd_refl _
    rw [if_pos hm]
    show _ = (cbcEncrypt xor (E.enc s.ctx.key) (List.ofFn s.iv)
      (copyFrom s.mem src aesBlockSize)).1
    have hout : s.out E (encDec m) aesModeCbc src aesBlockSize =
        (E.step s.ctx.key (encDec m) aesModeCbc (List.ofFn s.iv)
          (copyFrom s.mem src aesBlockSize)).1 := out_block
    rw [cipher_step_cbc, if_pos hm] at hout
    rw [← hout]
    refine List.ext_getElem (by rw [List.length_ofFn, hlen]; rfl) fun i hi hi' => ?_
    rw [List.getElem_ofFn]
    show (cbcCall m tsi aesBlockSize s src dst).2.2 _ = _
    rw [hiv, if_pos hm, hu8out]
    exact (congrArg _ (Nat.zero_add i).symm).trans (copyTo_add hi')
  · rw [if_neg hm]
    show _ = copyFrom s.mem src aesBlockSize
    refine List.ext_getElem (by rw [List.length_ofFn, length_copyFrom]; rfl) fun i hi hi' => ?_
    rw [List.getElem_ofFn, getElem_copyFrom]
    show (cbcCall m tsi aesBlockSize s src dst).2.2 _ = _
    rw [hiv, if_neg hm]

theorem linked_of_synced (h : Applies tsi E) (hm : m = mbedtlsAesEncrypt)
    (hblocks : ∀ b ∈ blocks, b ≤ 1) (hs : s.Synced) :
    Linked (cbcCall m tsi) E (encDec m) aesModeCbc (blocks.map (aesBlockSize * ·)) s src dst := by
  induction blocks generalizing s src dst with
  | nil => trivial
  | cons b blocks ih =>
    have hrest : ∀ b ∈ blocks, b ≤ 1 := fun c hc => hblocks c (List.mem_cons_of_mem b hc)
    refine .inr ⟨?_, ih hrest (synced_next h hm _)⟩
    rcases Nat.le_one_iff_eq_zero_or_eq_one.mp (hblocks b List.mem_cons_self) with rfl | rfl
    · refine .inl ⟨rfl, funext fun i => ?_⟩
      obtain ⟨-, -, hu8out⟩ := mem_next_zero (ran_cbc h m) s src dst
      show (s.next (cbcCall m tsi) 0 src dst).iv i = s.iv i
      rw [synced_next h hm 0 i, hu8out, hs i]
    · exact .inr ⟨rfl, cbc_next_block h⟩

theorem sum_blocks_eq_zero (h : ∀ b ∈ blocks, b = 0) :
    (blocks.map (aesBlockSize * ·)).sum = 0 := by
  refine List.sum_eq_zero_iff_forall_eq_nat.mpr fun n hn => ?_
  obtain ⟨c, hc, rfl⟩ := List.mem_map.mp hn
  exact (congrArg (aesBlockSize * ·) (h c hc)).trans (Nat.mul_zero _)

theorem linked_cbc (h : Applies tsi E) (hkept : CbcKept m blocks) :
    Linked (cbcCall m tsi) E (encDec m) aesModeCbc (blocks.map (aesBlockSize * ·)) s src dst := by
  obtain ⟨hblocks, hkept⟩ := hkept
  by_cases hm : m = mbedtlsAesEncrypt
  · rw [if_pos hm] at hkept
    cases blocks with
    | nil => trivial
    | cons b blocks =>
      have hrest : ∀ b ∈ blocks, b ≤ 1 := fun c hc => hblocks c (List.mem_cons_of_mem b hc)
      rcases hkept with hzero | hhead
      · exact .inl (sum_blocks_eq_zero fun c hc => hzero c (List.mem_cons_of_mem b hc))
      · obtain rfl : b = 1 := Option.some.inj hhead
        exact .inr ⟨.inr ⟨rfl, cbc_next_block h⟩, linked_of_synced h hm hrest (synced_next h hm _)⟩
  · rw [if_neg hm] at hkept
    induction blocks generalizing s src dst with
    | nil => trivial
    | cons b blocks ih =>
      have hrest : ∀ b ∈ blocks, b ≤ 1 := fun c hc => hblocks c (List.mem_cons_of_mem b hc)
      obtain ⟨hfirst, hnext⟩ := List.pairwise_cons.mp hkept
      rcases Nat.le_one_iff_eq_zero_or_eq_one.mp (hblocks b List.mem_cons_self) with rfl | rfl
      · exact .inl (sum_blocks_eq_zero fun c hc => Nat.le_zero.mp (hfirst c hc))
      · exact .inr ⟨.inr ⟨rfl, cbc_next_block h⟩, ih hrest hnext⟩

/-- Where the vector stays as it was -/
theorem linked_stream {call : Nat → Parts → Nat → Nat → AesCall × (Nat → BitVec 8) × Block}
    {encrypt mode : Nat} (hiv : ∀ (s : Parts) src dst len, (s.next call len src dst).iv = s.iv)
    (hkept : StreamKept lens) : Linked call E encrypt mode lens s src dst := by
  obtain ⟨hle, hone⟩ := hkept
  induction lens generalizing s src dst with
  | nil => trivial
  | cons len lens ih =>
    by_cases hlen : len = 0
    · subst hlen
      rw [List.filter_cons_of_neg (by simp)] at hone
      exact .inr ⟨.inl ⟨rfl, hiv s src dst 0⟩,
        ih (fun n hn => hle n (List.mem_cons_of_mem 0 hn)) hone⟩
    · rw [List.filter_cons_of_pos (by simpa using hlen), List.length_cons] at hone
      have hnone := List.filter_eq_nil_iff.mp
        (List.length_eq_zero_iff.mp (Nat.le_zero.mp (Nat.le_of_succ_le_succ hone)))
      exact .inl (List.sum_eq_zero_iff_forall_eq_nat.mpr fun n hn => by simpa using hnone n hn)

end Kept

/-! ## A TSI that applies the mode -/

/-- The cipher that counts every byte up by one -/
def plusOne : Cipher where
  enc _ b := b.map (· + 1)
  dec _ b := b.map (· - 1)
  length_enc _ _ h := (List.length_map _).trans h
  length_dec _ _ h := (List.length_map _).trans h
  dec_enc _ b _ := by
    rw [List.map_map]
    exact (List.map_congr_left fun x _ => BitVec.add_sub_cancel x 1).trans (List.map_id b)
  enc_dec _ b _ := by
    rw [List.map_map]
    exact (List.map_congr_left fun x _ => BitVec.sub_add_cancel x 1).trans (List.map_id b)

def modeTsi (E : Cipher) : Engine where
  answer log cmd :=
    match cmd with
    | .aesRun sid cnt src =>
      ⟨0, 0, (E.apply (settings log sid) src ++ List.replicate cnt.toNat 0).take cnt.toNat⟩
    | .shaFinish _ wcnt _ _ => ⟨0, 0, List.replicate (4 * wcnt) 0⟩
    | _ => ⟨0, 0, []⟩
  run_length log sid n src _ := by
    rw [List.length_take, List.length_append, List.length_replicate]
    omega
  finish_length log sid wcnt n src _ := List.length_replicate
  uninit _ := 0

section Length

variable {E : Cipher} {key iv b src : Bytes} {encrypt mode : Nat} {t : Settings}

theorem whole_cbc : Whole aesModeCbc := ⟨by decide, by decide⟩

theorem length_zipWith_of_le {a : Bytes} (ha : a.length = aesBlockSize)
    (hle : b.length ≤ aesBlockSize) : (List.zipWith xor a b).length = b.length := by
  rw [List.length_zipWith, ha, Nat.min_eq_right hle]

theorem length_step_out (hiv : iv.length = aesBlockSize) (hle : b.length ≤ aesBlockSize)
    (hwhole : Whole mode → b.length = aesBlockSize) :
    (E.step key encrypt mode iv b).1.length = b.length := by
  have henc : (E.enc key iv).length = aesBlockSize := E.length_enc key iv hiv
  unfold Cipher.step
  split_ifs with hcbc _ hcfb _ hofb hdir
  · have hb := hwhole (hcbc ▸ whole_cbc)
    exact (E.length_enc key _ ((length_zipWith_of_le hiv hle).trans hb)).trans hb.symm
  · have hb := hwhole (hcbc ▸ whole_cbc)
    exact (length_zipWith_of_le (E.length_dec key b hb) hiv.le).trans (hiv.trans hb.symm)
  · exact length_zipWith_of_le henc hle
  · exact length_zipWith_of_le henc hle
  · exact length_zipWith_of_le henc hle
  · have hb := hwhole ⟨hcfb, hofb⟩
    exact (E.length_enc key b hb).trans hb.symm
  · have hb := hwhole ⟨hcfb, hofb⟩
    exact (E.length_dec key b hb).trans hb.symm

theorem length_step_next (hiv : iv.length = aesBlockSize) (hb : b.length = aesBlockSize) :
    (E.step key encrypt mode iv b).2.length = aesBlockSize := by
  have henc : (E.enc key iv).length = aesBlockSize := E.length_enc key iv hiv
  unfold Cipher.step
  split_ifs
  · exact E.length_enc key _ ((length_zipWith_of_le hiv hb.le).trans hb)
  · exact hb
  · exact (length_zipWith_of_le henc hb.le).trans hb
  · exact hb
  · exact henc
  · exact hiv
  · exact hiv

/-- A mode keeps the length. -/
theorem length_apply (hiv : t.iv.length = aesBlockSize)
    (hwhole : Whole t.mode → aesBlockSize ∣ src.length) :
    (E.apply t src).length = src.length :=
  length_chain (by decide) (fun _ _ => length_step_out) (fun _ _ => length_step_next) hiv hwhole

end Length

theorem applies_modeTsi (E : Cipher) : Applies (modeTsi E) E where
  ok log cmd := by cases cmd <;> rfl
  run log sid cnt src hcnt hiv hwhole := by
    have hlen : (E.apply (settings log sid) src).length = cnt.toNat := by
      rw [length_apply hiv hwhole]
      omega
    exact List.take_left' hlen

/-! ## Splits that are not -/

def plusOneHead (encrypt mode : Nat) (x d : BitVec 8) : BitVec 8 :=
  if mode = aesModeCbc then if encrypt = 1 then xor x d + 1 else xor (d - 1) x else xor (x + 1) d

/-- The modes that the functions use -/
def Chained (mode : Nat) : Prop := mode = aesModeCbc ∨ mode = aesModeCfb ∨ mode = aesModeOfb

section Head

variable {key iv l : Bytes} {encrypt mode : Nat} {x d : BitVec 8}

/-- The first byte of a block -/
theorem head?_step (hmode : Chained mode) (hx : iv.head? = some x) (hd : l.head? = some d) :
    (plusOne.step key encrypt mode iv l).1.head? = some (plusOneHead encrypt mode x d) := by
  obtain ⟨iv, rfl⟩ := List.head?_eq_some_iff.mp hx
  obtain ⟨l, rfl⟩ := List.head?_eq_some_iff.mp hd
  rcases hmode with rfl | rfl | rfl <;> unfold Cipher.step plusOneHead <;>
    by_cases he : encrypt = 1 <;>
    simp [he, aesModeCbc, aesModeCfb, aesModeOfb, cbcEncrypt, cbcDecrypt, cfbEncrypt, cfbDecrypt,
      ofb, plusOne]

/-- The first byte of a message -/
theorem head?_chain (hmode : Chained mode) (hx : iv.head? = some x) (hd : l.head? = some d) :
    (chain aesBlockSize (plusOne.step key encrypt mode) iv l).head? =
      some (plusOneHead encrypt mode x d) := by
  obtain ⟨l, rfl⟩ := List.head?_eq_some_iff.mp hd
  rw [chain_of_ne_nil (List.cons_ne_nil d l) (by decide), List.head?_append,
    head?_step hmode hx rfl]
  rfl

theorem head?_copyFrom {mem : Nat → BitVec 8} {i n : Nat} (hn : 0 < n) :
    (copyFrom mem i n).head? = some (mem i) := by
  obtain ⟨n, rfl⟩ := Nat.exists_eq_succ_of_ne_zero hn.ne'
  simp [copyFrom, List.range_succ_eq_map]

theorem head?_out {s : Parts} {src n : Nat} (hmode : Chained mode) (hn : 0 < n) :
    (s.out plusOne encrypt mode src n).head? =
      some (plusOneHead encrypt mode (s.iv 0) (s.mem src)) :=
  head?_chain hmode (by rw [List.ofFn_succ]; rfl) (head?_copyFrom hn)

end Head

section Stream

variable {key iv b : Bytes} {encrypt mode dst n a : Nat} {s : Parts}

theorem stream_step (hmode : mode = aesModeCfb ∨ mode = aesModeOfb) :
    (plusOne.step key encrypt mode iv b).1 = List.zipWith xor (iv.map (· + 1)) b := by
  rcases hmode with rfl | rfl <;> unfold Cipher.step <;> by_cases he : encrypt = 1 <;>
    simp [he, aesModeCbc, aesModeCfb, aesModeOfb, cfbEncrypt, cfbDecrypt, ofb, plusOne]

theorem stream_next (key : Bytes) (encrypt : Nat) (hmode : mode = aesModeCfb ∨ mode = aesModeOfb)
    (hiv : iv.head? = some 0) (hb : b.head? = some 5) :
    ∃ x, x ≠ 0 ∧ (plusOne.step key encrypt mode iv b).2.head? = some x := by
  obtain ⟨iv, rfl⟩ := List.head?_eq_some_iff.mp hiv
  obtain ⟨b, rfl⟩ := List.head?_eq_some_iff.mp hb
  rcases hmode with rfl | rfl
  · by_cases he : encrypt = 1
    · exact ⟨4, by decide, by subst he; rfl⟩
    · refine ⟨5, by decide, ?_⟩
      simp [Cipher.step, he, aesModeCbc, aesModeCfb, cfbDecrypt]
  · exact ⟨1, by decide, rfl⟩

/-- No byte but the first is `1 ^^^ 5`. -/
theorem stream_byte (hmode : mode = aesModeCfb ∨ mode = aesModeOfb)
    (hvec : ∀ i, s.iv i = BitVec.ofNat 8 i) (hdata : ∀ k, dst ≤ k → s.mem k = 5) (hpos : 0 < a)
    (ha : a ≤ aesBlockSize) (hn : a < n) :
    (s.out plusOne encrypt mode dst n)[a]? ≠ some (xor 1 5) := by
  have hbytes : ∀ i n, dst ≤ i → copyFrom s.mem i n = List.replicate n 5 := fun i n hi =>
    List.eq_replicate_iff.mpr ⟨length_copyFrom, fun x hx => by
      obtain ⟨j, -, rfl⟩ := List.mem_map.mp hx
      exact hdata _ (Nat.le_trans hi (Nat.le_add_right _ _))⟩
  rw [Parts.out]
  rcases Nat.lt_or_eq_of_le ha with hlt | rfl
  · have ha16 : a < 16 := hlt
    have hmin : a < min aesBlockSize n := Nat.lt_min.mpr ⟨hlt, hn⟩
    rw [hbytes dst n (Nat.le_refl _), chain_of_ne_nil (by
        rw [← List.length_pos_iff, List.length_replicate]
        omega) (by decide), stream_step hmode, List.take_replicate,
      List.getElem?_append_left (by
        rw [List.length_zipWith, List.length_map, List.length_ofFn, List.length_replicate]
        exact Nat.lt_min.mpr ⟨ha16, hmin⟩),
      List.getElem?_zipWith, List.getElem?_map, List.getElem?_ofFn, dif_pos ha16,
      List.getElem?_replicate, if_pos hmin]
    show some (xor (s.iv ⟨a, hlt⟩ + 1) 5) ≠ some (xor 1 5)
    rw [hvec]
    intro heq
    have hone := congrArg BitVec.toNat ((BitVec.xor_left_inj _).mp (Option.some.inj heq))
    rw [BitVec.toNat_add, BitVec.toNat_ofNat] at hone
    change (a % 2 ^ 8 + 1) % 2 ^ 8 = 1 at hone
    omega
  · obtain ⟨n, rfl⟩ := Nat.exists_eq_add_of_lt hn
    have hhead : ∀ i k, dst ≤ i → 0 < k → (copyFrom s.mem i k).head? = some 5 :=
      fun i k hi hk => by rw [head?_copyFrom hk, hdata i hi]
    have hiv0 : (List.ofFn s.iv).head? = some 0 := by
      rw [List.ofFn_succ, hvec]
      rfl
    obtain ⟨x, hx, hnext⟩ := stream_next s.ctx.key encrypt hmode hiv0
      (hhead dst aesBlockSize (Nat.le_refl _) hpos)
    have hblock : (plusOne.step s.ctx.key encrypt mode (List.ofFn s.iv)
        (copyFrom s.mem dst aesBlockSize)).1.length = aesBlockSize :=
      (length_step_out List.length_ofFn length_copyFrom.le fun _ => length_copyFrom).trans
        length_copyFrom
    rw [Nat.add_assoc, copyFrom_add, chain_append length_copyFrom (by decide),
      List.getElem?_append_right hblock.le, hblock, Nat.sub_self, ← List.head?_eq_getElem?,
      head?_chain (.inr hmode) hnext (hhead _ (n + 1) (Nat.le_add_right _ _) (Nat.succ_pos n)),
      plusOneHead, if_neg (by rcases hmode with rfl | rfl <;> decide)]
    intro heq
    have hone := (BitVec.xor_left_inj _).mp (Option.some.inj heq)
    exact hx (BitVec.add_left_eq_self.mp hone)

end Stream

section Broken

variable {call : Nat → Parts → Nat → Nat → AesCall × (Nat → BitVec 8) × Block}
  {encrypt mode : Nat} {lens : List Nat} {s : Parts} {src dst : Nat}

/-- The first byte that is put out comes from the vector that the calls of no length in front of it
leave. -/
theorem first_out (h : Ran call plusOne encrypt mode) (hmode : Chained mode)
    (P : Parts → Nat → Prop) (s : Parts) (src dst : Nat)
    (hP : ∀ s src dst, P s src →
      P (s.next call 0 src dst) src ∧ (s.next call 0 src dst).iv = s.iv)
    (hs : P s src) (hshort : Short mode lens) (hpos : 0 < lens.sum) :
    (inParts call lens s src dst).mem dst = plusOneHead encrypt mode (s.iv 0) (s.mem src) := by
  induction lens generalizing s with
  | nil => exact absurd hpos (Nat.lt_irrefl 0)
  | cons len lens ih =>
    by_cases hlen : len = 0
    · subst hlen
      obtain ⟨hnext, hiv⟩ := hP s src dst hs
      obtain ⟨hmem, -, -⟩ := mem_next_zero h s src dst
      rw [List.sum_cons, Nat.zero_add] at hpos
      rw [inParts_cons, Nat.add_zero, Nat.add_zero,
        ih _ hnext (fun n hn => hshort n (List.mem_cons_of_mem 0 hn)) hpos, hiv, hmem]
    · have hcopied : copyFrom (inParts call (len :: lens) s src dst).mem dst len =
          s.out plusOne encrypt mode src len := copyFrom_inParts_cons h hshort
      have hout := congrArg List.head? hcopied
      rw [head?_copyFrom (Nat.pos_of_ne_zero hlen),
        head?_out hmode (Nat.pos_of_ne_zero hlen)] at hout
      exact Option.some.inj hout

theorem short_blocks {blocks : List Nat} (hblocks : ∀ b ∈ blocks, b ≤ 1) :
    Short mode (blocks.map (aesBlockSize * ·)) := by
  intro n hn
  obtain ⟨b, hb, rfl⟩ := List.mem_map.mp hn
  have hle := Nat.mul_le_mul_left aesBlockSize (hblocks b hb)
  exact ⟨hle, fun _ => Nat.dvd_mul_right _ _⟩

theorem sum_blocks_pos {blocks : List Nat} (h : ¬ ∀ b ∈ blocks, b = 0) :
    0 < (blocks.map (aesBlockSize * ·)).sum := by
  refine Nat.pos_of_ne_zero fun h0 => h fun b hb => ?_
  have hzero := List.sum_eq_zero_iff_forall_eq_nat.mp h0 _ (List.mem_map_of_mem hb)
  exact (Nat.mul_eq_zero.mp hzero).resolve_left (by decide)

/-- When encrypting, a first call of no length has the next take what it finds in `s_u8out`. -/
theorem cbcEncrypt_broken {tsi : Engine} {m : Int} {blocks : List Nat} (s : Parts) (dst : Nat)
    (h : Applies tsi plusOne) (hm : m = mbedtlsAesEncrypt) (hblocks : ∀ b ∈ blocks, b ≤ 1)
    (hstale : s.port.u8out 0 ≠ s.iv 0) (hpos : 0 < (blocks.map (aesBlockSize * ·)).sum) :
    copyFrom (inParts (cbcCall m tsi) (0 :: blocks.map (aesBlockSize * ·)) s dst dst).mem dst
        (0 :: blocks.map (aesBlockSize * ·)).sum ≠
      s.out plusOne (encDec m) aesModeCbc dst (0 :: blocks.map (aesBlockSize * ·)).sum := by
  obtain ⟨hmem, -, hu8out⟩ := mem_next_zero (ran_cbc h m) s dst dst
  have hfirst := first_out (ran_cbc h m) (.inl rfl) (fun s _ => s.Synced)
    (s.next (cbcCall m tsi) 0 dst dst) dst dst
    (fun s src dst hs => by
      obtain ⟨-, -, hu8out⟩ := mem_next_zero (ran_cbc h m) s src dst
      refine ⟨synced_next h hm 0, funext fun i => ?_⟩
      rw [synced_next h hm 0 i, hu8out, hs i])
    (synced_next h hm 0) (short_blocks hblocks) hpos
  rw [synced_next h hm 0 0, hu8out, hmem] at hfirst
  intro heq
  have hhead := congrArg List.head? heq
  rw [List.sum_cons, Nat.zero_add, inParts_cons, Nat.add_zero, head?_copyFrom hpos,
    head?_out (.inl rfl) hpos, hfirst, encDec, if_pos hm] at hhead
  simp only [plusOneHead, if_true, xor, Option.some.injEq] at hhead
  exact hstale ((BitVec.xor_left_inj _).mp ((BitVec.add_left_inj _).mp hhead))

/-- No block starts like the one behind it, and the first not like the vector. -/
def Parts.Fresh (s : Parts) (place : Nat) : Prop :=
  s.iv 0 ≠ s.mem place ∧
    ∀ j, s.mem (place + aesBlockSize * j) ≠ s.mem (place + aesBlockSize * (j + 1))

/-- When decrypting, a call of no length in front of a block makes the block its own vector. -/
theorem cbcDecrypt_broken {tsi : Engine} {m : Int} {blocks : List Nat}
    (h : Applies tsi plusOne) (hm : m ≠ mbedtlsAesEncrypt) (hblocks : ∀ b ∈ blocks, b ≤ 1)
    (hfresh : s.Fresh dst) (hnot : ¬ blocks.Pairwise (· ≥ ·)) :
    copyFrom (inParts (cbcCall m tsi) (blocks.map (aesBlockSize * ·)) s dst dst).mem dst
        (blocks.map (aesBlockSize * ·)).sum ≠
      s.out plusOne (encDec m) aesModeCbc dst (blocks.map (aesBlockSize * ·)).sum := by
  induction blocks generalizing s dst with
  | nil => exact absurd List.Pairwise.nil hnot
  | cons b blocks ih =>
    have hrest : ∀ b ∈ blocks, b ≤ 1 := fun c hc => hblocks c (List.mem_cons_of_mem b hc)
    have hiv := cbc_iv h m
    simp only [if_neg hm] at hiv
    rcases Nat.le_one_iff_eq_zero_or_eq_one.mp (hblocks b List.mem_cons_self) with rfl | rfl
    · have hpos : 0 < (blocks.map (aesBlockSize * ·)).sum := by
        refine sum_blocks_pos fun hzero => hnot (List.pairwise_of_forall_mem_list ?_)
        intro c hc d hd
        rcases List.mem_cons.mp hd with rfl | hd
        · exact Nat.zero_le c
        · rw [hzero d hd]
          exact Nat.zero_le c
      obtain ⟨hmem, -, -⟩ := mem_next_zero (ran_cbc h m) s dst dst
      have hfirst := first_out (ran_cbc h m) (.inl rfl)
        (fun s src => ∀ i : Fin 16, s.iv i = s.mem (src + i))
        (s.next (cbcCall m tsi) 0 dst dst) dst dst
        (fun s src dst hs => by
          obtain ⟨hmem, -, -⟩ := mem_next_zero (ran_cbc h m) s src dst
          refine ⟨fun i => (hiv s src dst 0 i).trans ?_, funext fun i => ?_⟩
          · rw [hmem]
          · exact (hiv s src dst 0 i).trans (hs i).symm)
        (fun i => (hiv s dst dst 0 i).trans (by rw [hmem])) (short_blocks hrest) hpos
      have hzero : (s.next (cbcCall m tsi) 0 dst dst).iv 0 = s.mem dst := hiv s dst dst 0 0
      rw [hmem, hzero] at hfirst
      intro heq
      have hhead := congrArg List.head? heq
      rw [List.map_cons, List.sum_cons, Nat.mul_zero, Nat.zero_add, inParts_cons,
        Nat.add_zero, head?_copyFrom hpos, head?_out (.inl rfl) hpos, hfirst] at hhead
      have hne : encDec m ≠ 1 := by
        rw [encDec, if_neg hm]
        decide
      simp only [plusOneHead, if_true, if_neg hne, xor, Option.some.injEq] at hhead
      exact hfresh.1 ((BitVec.xor_right_inj _).mp hhead).symm
    · have hshort : Short aesModeCbc (aesBlockSize :: blocks.map (aesBlockSize * ·)) :=
        short_blocks (show ∀ b ∈ 1 :: blocks, b ≤ 1 from hblocks)
      show ¬ copyFrom (inParts _ (aesBlockSize :: _) s dst dst).mem dst (aesBlockSize :: _).sum =
        s.out _ _ _ dst (aesBlockSize :: _).sum
      rw [inParts_block (ran_cbc h m) hshort (Or.inl rfl) (cbc_next_block h)]
      obtain ⟨hlen, -, hmem⟩ := (ran_cbc h m s dst dst aesBlockSize).out (Nat.le_refl _)
        fun _ => Nat.dvd_refl _
      have hnext : ∀ k, aesBlockSize ≤ k →
          (s.next (cbcCall m tsi) aesBlockSize dst dst).mem (dst + k) = s.mem (dst + k) := by
        intro k hk
        show (cbcCall m tsi aesBlockSize s dst dst).2.1 (dst + k) = _
        rw [hmem, copyTo_of_not (by omega)]
      refine ih hrest ⟨?_, fun j => ?_⟩ fun hpair => hnot (List.pairwise_cons.mpr ⟨hrest, hpair⟩)
      · rw [hnext _ (Nat.le_refl _)]
        have hvec : (s.next (cbcCall m tsi) aesBlockSize dst dst).iv 0 = s.mem dst :=
          hiv s dst dst aesBlockSize 0
        rw [hvec]
        exact hfresh.2 0
      · have hplace : ∀ j, aesBlockSize + aesBlockSize * j = aesBlockSize * (j + 1) := fun j => by
          rw [Nat.mul_succ, Nat.add_comm]
        rw [Nat.add_assoc, Nat.add_assoc, hnext _ (Nat.le_add_right _ _),
          hnext _ (Nat.le_add_right _ _), hplace, hplace]
        exact hfresh.2 (j + 1)

/-- With the vector as it was, a part with data is not what it should be behind another. -/
theorem stream_broken (s : Parts) (dst : Nat) (h : Ran call plusOne encrypt mode)
    (hmode : mode = aesModeCfb ∨ mode = aesModeOfb)
    (hiv : ∀ (s : Parts) src dst len, (s.next call len src dst).iv = s.iv)
    (hvec : ∀ i, s.iv i = BitVec.ofNat 8 i) (hdata : ∀ k, dst ≤ k → s.mem k = 5)
    (hle : ∀ n ∈ lens, n ≤ aesBlockSize) (hnot : 1 < (lens.filter (· ≠ 0)).length) :
    copyFrom (inParts call lens s dst dst).mem dst lens.sum ≠
      s.out plusOne encrypt mode dst lens.sum := by
  have hno : ¬ Whole mode := fun hw => hmode.elim hw.1 hw.2
  have hcbc : mode ≠ aesModeCbc := by
    rcases hmode with rfl | rfl <;> decide
  induction lens generalizing s with
  | nil => exact absurd hnot (by decide)
  | cons len lens ih =>
    have hrest : ∀ n ∈ lens, n ≤ aesBlockSize := fun n hn => hle n (List.mem_cons_of_mem len hn)
    have hshort : Short mode (len :: lens) := fun n hn => ⟨hle n hn, fun hw => absurd hw hno⟩
    by_cases hlen : len = 0
    · subst hlen
      rw [List.filter_cons_of_neg (by simp)] at hnot
      obtain ⟨hmem, -, -⟩ := mem_next_zero h s dst dst
      rw [Ne, inParts_zero h (hiv s dst dst 0)]
      refine ih _ (fun i => ?_) (fun k hk => ?_) hrest hnot
      · rw [hiv, hvec]
      · rw [hmem, hdata k hk]
    · rw [List.filter_cons_of_pos (by simpa using hlen), List.length_cons] at hnot
      have hpos : 0 < lens.sum := by
        refine Nat.pos_of_ne_zero fun h0 => ?_
        rw [List.filter_eq_nil_iff.mpr fun n hn => by
          simpa using List.sum_eq_zero_iff_forall_eq_nat.mp h0 n hn] at hnot
        exact absurd hnot (by decide)
      -- the first byte behind the first part with data
      have hfirst := first_out h (.inr hmode) (fun _ _ => True) (s.next call len dst dst)
        (dst + len) (dst + len) (fun s src dst _ => ⟨trivial, hiv s src dst 0⟩) trivial
        (fun n hn => hshort n (List.mem_cons_of_mem len hn)) hpos
      obtain ⟨hout, -, hmem⟩ := (h s dst dst len).out (hle len List.mem_cons_self)
        fun hw => absurd hw hno
      have hbehind : (s.next call len dst dst).mem (dst + len) = 5 := by
        show (call len s dst dst).2.1 (dst + len) = 5
        rw [hmem, copyTo_of_not (by omega)]
        exact hdata _ (Nat.le_add_right _ _)
      rw [hiv, hbehind, hvec, plusOneHead, if_neg hcbc] at hfirst
      rw [List.sum_cons]
      intro heq
      have hbyte := congrArg (fun l : Bytes => l[len]?) heq
      have hlt : len < (copyFrom (inParts call (len :: lens) s dst dst).mem dst
          (len + lens.sum)).length := by
        rw [length_copyFrom]
        omega
      simp only [List.getElem?_eq_getElem hlt, getElem_copyFrom] at hbyte
      rw [inParts_cons, hfirst] at hbyte
      exact stream_byte hmode hvec hdata (Nat.pos_of_ne_zero hlen) (hle len List.mem_cons_self)
        (by omega) hbyte.symm

/-- What the calls start from: `s_u8out` holds ones. -/
def start (iv : Block) (mem : Nat → BitVec 8) : Parts :=
  ⟨⟨[], fun _ => 0, fun _ => 1, fun _ => 0, false⟩, ⟨0, 0, 0, fun _ => 0, fun _ => 0⟩, iv, mem⟩

end Broken

/-! ## The splits -/

section Splits

variable {call : Engine → Nat → Parts → Nat → Nat → AesCall × (Nat → BitVec 8) × Block}
  {encrypt mode : Nat} {lens blocks : List Nat} {m : Int}

theorem le_of_composes (h : Ran (call (modeTsi plusOne)) plusOne encrypt mode)
    (hc : Composes call encrypt mode lens) : ∀ n ∈ lens, n ≤ aesBlockSize := by
  have hstray := (hc plusOne (modeTsi plusOne) (applies_modeTsi plusOne)
    (start (fun _ => 0) fun _ => 0) rfl 0 0 (Or.inl rfl)).2
  rw [stray_inParts h] at hstray
  intro n hn
  have hshort := List.any_eq_false.mp (Bool.or_eq_false_iff.mp hstray).2 n hn
  exact Nat.not_lt.mp fun hlt => hshort (decide_eq_true hlt)

theorem composes_of_linked
    (h : ∀ tsi E, Applies tsi E → Ran (call tsi) E encrypt mode)
    (hshort : Short mode lens)
    (hlinked : ∀ tsi E, Applies tsi E → ∀ s src dst,
      Linked (call tsi) E encrypt mode lens s src dst) :
    Composes call encrypt mode lens := by
  intro E tsi happlies s hs src dst hplace
  refine ⟨inParts_of_linked (h tsi E happlies) hshort hplace (hlinked tsi E happlies s src dst), ?_⟩
  rw [stray_inParts (h tsi E happlies), hs, Bool.false_or, List.any_eq_false]
  exact fun n hn => by simpa using (hshort n hn).1

theorem cbcKept_of_composes
    (hc : Composes (cbcCall m) (encDec m) aesModeCbc (blocks.map (aesBlockSize * ·))) :
    CbcKept m blocks := by
  have happlies := applies_modeTsi plusOne
  have hblocks : ∀ b ∈ blocks, b ≤ 1 := fun b hb => by
    have hle := le_of_composes (ran_cbc happlies m) hc _ (List.mem_map_of_mem hb)
    exact Nat.le_of_mul_le_mul_left (hle.trans_eq (Nat.mul_one _).symm) (by decide)
  refine ⟨hblocks, ?_⟩
  by_cases hm : m = mbedtlsAesEncrypt
  · rw [if_pos hm]
    cases blocks with
    | nil => exact .inl fun b hb => absurd hb List.not_mem_nil
    | cons b blocks =>
      rcases Nat.le_one_iff_eq_zero_or_eq_one.mp (hblocks b List.mem_cons_self) with rfl | rfl
      · refine .inl (by_contra fun hnot => ?_)
        have hpos : 0 < (blocks.map (aesBlockSize * ·)).sum := sum_blocks_pos fun hzero =>
          hnot fun c hc => (List.mem_cons.mp hc).elim id (hzero c)
        exact cbcEncrypt_broken (start (fun _ => 0) fun _ => 0) 0 happlies hm
          (fun c hc => hblocks c (List.mem_cons_of_mem 0 hc)) (by decide) hpos
          (hc plusOne _ happlies _ rfl 0 0 (Or.inl rfl)).1
      · exact .inr rfl
  · rw [if_neg hm]
    refine by_contra fun hnot => ?_
    -- block `j` consists of bytes `j + 1`
    let mem : Nat → BitVec 8 := fun k => BitVec.ofNat 8 (k / aesBlockSize + 1)
    have hfresh : (start (fun _ => 0) mem).Fresh 0 := by
      refine ⟨by decide, fun j heq => ?_⟩
      have hnat : ((0 + aesBlockSize * j) / aesBlockSize + 1) % 2 ^ 8 =
          ((0 + aesBlockSize * (j + 1)) / aesBlockSize + 1) % 2 ^ 8 := congrArg BitVec.toNat heq
      unfold aesBlockSize at hnat
      omega
    exact cbcDecrypt_broken happlies hm hblocks hfresh hnot
      (hc plusOne _ happlies _ rfl 0 0 (Or.inl rfl)).1

theorem streamKept_of_composes (hmode : mode = aesModeCfb ∨ mode = aesModeOfb)
    (hran : Ran (call (modeTsi plusOne)) plusOne encrypt mode)
    (hiv : ∀ (s : Parts) src dst len, (s.next (call (modeTsi plusOne)) len src dst).iv = s.iv)
    (hc : Composes call encrypt mode lens) : StreamKept lens := by
  have hle := le_of_composes hran hc
  refine ⟨hle, Nat.not_lt.mp fun hnot => ?_⟩
  exact stream_broken (start (fun i => BitVec.ofNat 8 i) fun _ => 5) 0 hran hmode hiv (fun _ => rfl) (fun _ _ => rfl) hle hnot
    (hc plusOne _ (applies_modeTsi plusOne) _ rfl 0 0 (Or.inl rfl)).1

theorem short_stream (hmode : mode = aesModeCfb ∨ mode = aesModeOfb) (hkept : StreamKept lens) :
    Short mode lens :=
  fun n hn => ⟨hkept.1 n hn, fun hw => (hmode.elim hw.1 hw.2).elim⟩

/-- CBC composes where no call has more than a block and the vector is never taken from a call
without one; CFB128 and OFB where there are data in one call only, and no more than a block. -/
theorem composes_iff (m : Int) (blocks lens : List Nat) :
    (Composes (cbcCall m) (encDec m) aesModeCbc (blocks.map (aesBlockSize * ·)) ↔
      CbcKept m blocks) ∧
    (Composes (cfb128Call m) (encDec m) aesModeCfb lens ↔ StreamKept lens) ∧
      (Composes ofbCall 1 aesModeOfb lens ↔ StreamKept lens) := by
  have happlies := applies_modeTsi plusOne
  refine ⟨⟨cbcKept_of_composes, fun hkept => ?_⟩, ⟨?_, fun hkept => ?_⟩, ⟨?_, fun hkept => ?_⟩⟩
  · exact composes_of_linked (fun _ _ h => ran_cbc h m) (short_blocks hkept.1)
      fun _ _ h _ _ _ => linked_cbc h hkept
  · exact streamKept_of_composes (.inl rfl) (ran_cfb128 happlies m) fun _ _ _ _ => cfb128_iv m
  · exact composes_of_linked (fun _ _ h => ran_cfb128 h m) (short_stream (.inl rfl) hkept)
      fun _ _ _ _ _ _ => linked_stream (fun _ _ _ _ => cfb128_iv m) hkept
  · exact streamKept_of_composes (.inr rfl) (ran_ofb happlies) fun _ _ _ _ => ofb_iv
  · exact composes_of_linked (fun _ _ h => ran_ofb h) (short_stream (.inr rfl) hkept)
      fun _ _ _ _ _ _ => linked_stream (fun _ _ _ _ => ofb_iv) hkept

/-- A message of two blocks goes over the end of `s_u8in` in one call, and in two calls of eight
bytes CFB128 uses the first bytes of the key stream twice. -/
theorem not_composes_twoBlocks :
    ¬ Composes (cbcCall mbedtlsAesEncrypt) 1 aesModeCbc [32] ∧
      ¬ Composes (cfb128Call mbedtlsAesEncrypt) 1 aesModeCfb [8, 8] := by
  have happlies := applies_modeTsi plusOne
  refine ⟨fun hc => ?_, fun hc => ?_⟩
  · have hle := le_of_composes (ran_cbc happlies mbedtlsAesEncrypt) hc 32
      (List.mem_singleton_self 32)
    exact absurd hle (by decide)
  · have hkept := streamKept_of_composes (.inl rfl) (ran_cfb128 happlies mbedtlsAesEncrypt)
      (fun _ _ _ _ => cfb128_iv mbedtlsAesEncrypt) hc
    exact absurd hkept.2 (by decide)

end Splits

end Ma35d1.Tsi
