import Ma35d1.Machine.BigEndian
import Ma35d1.Machine.Streams
import Ma35d1.Tsi.AesErrors
import Ma35d1.Tsi.AesSplits

/-!
# CTR and CFB8

The two modes that the driver makes itself, byte for byte, of single blocks in ECB. What they carry
from byte to byte is what the caller carries from call to call, so that a message in parts is a
message in one.
-/

namespace Ma35d1.Tsi

open Ma35d1.Machine.BigEndian
open Ma35d1.Machine.Chaining
open Ma35d1.Machine.Copy
open Ma35d1.Machine.Streams

/-- `MBEDTLS_AES_DECRYPT` -/
def mbedtlsAesDecrypt : Int := 0

/-! ## The code, in memory -/

/-- The part of `mbedtls_aes_crypt_ctr` at `n == 0` -/
def CtrState.refill (tsi : Engine) (p : Port) (ctx : AesContext) (s : CtrState) :
    Port × AesContext × CtrState :=
  if s.ncOff = 0 then
    let r := mbedtlsAesCryptEcb tsi p ctx mbedtlsAesEncrypt s.nonceCounter s.streamBlock
    (r.1.port, r.1.ctx, { s with nonceCounter := countUp s.nonceCounter 16, streamBlock := r.2 })
  else (p, ctx, s)

/-- `mbedtls_aes_crypt_ctr` on the memory that `input` and `output` point into -/
def mbedtlsAesCryptCtrMem (tsi : Engine) : Nat → Port → AesContext → CtrState →
    (Nat → BitVec 8) → Nat → Nat → AesCall × (Nat → BitVec 8) × CtrState
  | 0, p, ctx, s, mem, _, _ => (⟨0, ctx, p⟩, mem, s)
  | length + 1, p, ctx, s, mem, input, output =>
    let r := s.refill tsi p ctx
    mbedtlsAesCryptCtrMem tsi length r.1 r.2.1 { r.2.2 with ncOff := s.ncOff + 1 }
      (Function.update mem output (mem input ^^^ r.2.2.streamBlock s.ncOff)) (input + 1)
      (output + 1)

/-- The register with a byte shifted in, by way of `ov` -/
def shiftIn (iv : Block) (b : BitVec 8) : Block := fun i =>
  (Fin.snoc (α := fun _ => BitVec 8) iv b : Fin 17 → BitVec 8) i.succ

/-- `mbedtls_aes_crypt_cfb8` on the memory that `input` and `output` point into -/
def mbedtlsAesCryptCfb8Mem (tsi : Engine) (mode : Int) : Nat → Port → AesContext → Block →
    (Nat → BitVec 8) → Nat → Nat → AesCall × (Nat → BitVec 8) × Block
  | 0, p, ctx, iv, mem, _, _ => (⟨0, ctx, p⟩, mem, iv)
  | length + 1, p, ctx, iv, mem, input, output =>
    let r := mbedtlsAesCryptEcb tsi p ctx mbedtlsAesEncrypt iv iv
    let c := r.2 0 ^^^ mem input
    mbedtlsAesCryptCfb8Mem tsi mode length r.1.port r.1.ctx
      (shiftIn iv (if mode = mbedtlsAesEncrypt then c else mem input))
      (Function.update mem output c) (input + 1) (output + 1)

/-- What a caller has between two calls: what it passes back in, and the memory -/
structure Between (σ : Type) where
  port : Port
  ctx : AesContext
  carried : σ
  mem : Nat → BitVec 8

/-- A call of a function on so many bytes at two places -/
abbrev StreamCall (σ : Type) :=
  Nat → Port → AesContext → σ → (Nat → BitVec 8) → Nat → Nat → AesCall × (Nat → BitVec 8) × σ

/-- One call for each part of the message, the next behind it -/
def inCalls {σ : Type} (call : StreamCall σ) : List Nat → Between σ → Nat → Nat → Between σ
  | [], s, _, _ => s
  | len :: lens, s, src, dst =>
    let r := call len s.port s.ctx s.carried s.mem src dst
    inCalls call lens ⟨r.1.port, r.1.ctx, r.2.2, r.2.1⟩ (src + len) (dst + len)

/-! ## The reference -/

/-- The TSI carries out every command, and a run in ECB mode on one block is the block function. -/
structure Enciphers (tsi : Engine) (E : Cipher) : Prop where
  ok : ∀ log cmd, (tsi.answer log cmd).ret = 0
  run : ∀ log sid cnt src, (src.length : Int) = cnt → src.length = aesBlockSize →
    (settings log sid).mode = aesModeEcb → (settings log sid).encrypt = 1 →
    (tsi.answer log (.aesRun sid cnt src)).data = E.enc (settings log sid).key src

/-- Byte `j` of the key stream: the counter goes up by one with each block. -/
def Cipher.ctrByte (E : Cipher) (key : Bytes) (nonce : Block) (j : Nat) : BitVec 8 :=
  (E.enc key (List.ofFn (digits 16 8 (value nonce + j / 16)))).getD (j % 16) 0

def Cipher.ctr (E : Cipher) (key : Bytes) (nonce : Block) (l : Bytes) : Bytes :=
  mask xor (E.ctrByte key nonce) 0 l

/-- Cipher feedback with segments of one byte -/
def Cipher.cfb8 (E : Cipher) (key : Bytes) (mode : Int) (iv : Block) (l : Bytes) : Bytes :=
  chain 1 ((if mode = mbedtlsAesEncrypt then segmentEncrypt else segmentDecrypt) xor (E.enc key))
    (List.ofFn iv) l

/-- In place, or from one buffer to another -/
def Placed (src dst n : Nat) : Prop := src = dst ∨ src + n ≤ dst ∨ dst + n ≤ src

/-- The two modes are those of the reference, whatever the calls that a message is given in, and
what is encrypted in calls is decrypted in calls. -/
structure StreamLaw (tsi : Engine) (E : Cipher) : Prop where
  ctr : ∀ p ctx nonce streamBlock mem lens src dst, Placed src dst lens.sum →
    (inCalls (mbedtlsAesCryptCtrMem tsi) lens ⟨p, ctx, ⟨0, nonce, streamBlock⟩, mem⟩ src dst).mem =
      copyTo mem dst (E.ctr ctx.key nonce (copyFrom mem src lens.sum))
  cfb8 : ∀ p ctx mode iv mem lens src dst, mode = mbedtlsAesEncrypt ∨ mode = mbedtlsAesDecrypt →
    Placed src dst lens.sum →
    (inCalls (mbedtlsAesCryptCfb8Mem tsi mode) lens ⟨p, ctx, iv, mem⟩ src dst).mem =
      copyTo mem dst (E.cfb8 ctx.key mode iv (copyFrom mem src lens.sum))
  ctr_undo : ∀ p ctx q ctx' nonce sb sb' mem lens lens' src dst dst', ctx'.key = ctx.key →
    lens'.sum = lens.sum → Placed src dst lens.sum → Placed dst dst' lens.sum →
    let t := inCalls (mbedtlsAesCryptCtrMem tsi) lens ⟨p, ctx, ⟨0, nonce, sb⟩, mem⟩ src dst
    let u := inCalls (mbedtlsAesCryptCtrMem tsi) lens' ⟨q, ctx', ⟨0, nonce, sb'⟩, t.mem⟩ dst dst'
    copyFrom u.mem dst' lens.sum = copyFrom mem src lens.sum
  cfb8_undo : ∀ p ctx q ctx' iv mem lens lens' src dst dst', ctx'.key = ctx.key →
    lens'.sum = lens.sum → Placed src dst lens.sum → Placed dst dst' lens.sum →
    let t := inCalls (mbedtlsAesCryptCfb8Mem tsi mbedtlsAesEncrypt) lens ⟨p, ctx, iv, mem⟩ src dst
    let u := inCalls (mbedtlsAesCryptCfb8Mem tsi mbedtlsAesDecrypt) lens' ⟨q, ctx', iv, t.mem⟩
      dst dst'
    copyFrom u.mem dst' lens.sum = copyFrom mem src lens.sum

/-! ## One block -/

section Block

variable {tsi : Engine} {E : Cipher} {ctx : AesContext} {p : Port} {input output : Block}

theorem ecb_enciphers (h : Enciphers tsi E) :
    List.ofFn (mbedtlsAesCryptEcb tsi p ctx mbedtlsAesEncrypt input output).2 =
      E.enc ctx.key (List.ofFn input) := by
  have hask : ∀ q cmd, (tsi.ask q cmd).ret = 0 := fun q cmd => h.ok q.log cmd
  have hlen : (List.ofFn input).length = aesBlockSize := List.length_ofFn
  have hcnt : (toInt32 aesBlockSize).toNat = aesBlockSize := by decide
  have hsrc : copyFrom (copyTo p.u8in 0 (List.ofFn input)) 0 (toInt32 aesBlockSize).toNat =
      List.ofFn input := by
    rw [hcnt]
    exact copyFrom_copyTo hlen
  unfold mbedtlsAesCryptEcb nvtAesCrypt Engine.aesSession Engine.aesRun
  simp only [hask, ne_eq, not_true_eq_false, if_false, AesContext.setup, Engine.sendAll, id,
    if_true]
  refine (ofFn_copyTo (tsi.run_length _ _ _ _ (h.ok _ _))).trans ?_
  generalize (tsi.ask (p.load (List.ofFn input)) (.openSession cCodeAes)).sid = sid
  show (tsi.answer ((((p.log ++ [_]) ++ [_]) ++ [_]) ++ [_])
    (.aesRun sid _ (copyFrom (copyTo p.u8in 0 (List.ofFn input)) 0 _))).data = _
  rw [hsrc]
  simp only [List.append_assoc, List.cons_append, List.nil_append]
  rw [h.run _ sid _ _ (by rw [hlen]; decide) hlen (by rw [settings_setup]) (by rw [settings_setup]),
    settings_setup]
  rfl

end Block

/-! ## Calls -/

section Calls

variable {σ : Type} {call : StreamCall σ} {src dst n : Nat} {mem : Nat → BitVec 8}

/-- Everything that is carried from byte to byte is carried from call to call. -/
structure Carries (call : StreamCall σ) : Prop where
  zero : ∀ p ctx s mem src dst, call 0 p ctx s mem src dst = (⟨0, ctx, p⟩, mem, s)
  add : ∀ m n p ctx s mem src dst, call (m + n) p ctx s mem src dst =
    let r := call m p ctx s mem src dst
    call n r.1.port r.1.ctx r.2.2 r.2.1 (src + m) (dst + m)

/-- A message in parts is a message in one. -/
theorem Carries.inCalls_mem (h : Carries call) (lens : List Nat) (s : Between σ) (src dst : Nat) :
    (inCalls call lens s src dst).mem =
      (call lens.sum s.port s.ctx s.carried s.mem src dst).2.1 := by
  induction lens generalizing s src dst with
  | nil => rw [List.sum_nil, h.zero, inCalls]
  | cons len lens ih => rw [inCalls, ih, List.sum_cons, h.add]

theorem ctrMem_carries (tsi : Engine) : Carries (mbedtlsAesCryptCtrMem tsi) where
  zero _ _ _ _ _ _ := rfl
  add m n p ctx s mem src dst := by
    induction m generalizing p ctx s mem src dst with
    | zero => rw [Nat.zero_add]; rfl
    | succ m ih =>
      rw [Nat.add_right_comm, mbedtlsAesCryptCtrMem, ih]
      simp only [mbedtlsAesCryptCtrMem, Nat.add_assoc, Nat.add_comm 1 m]

theorem cfb8Mem_carries (tsi : Engine) (mode : Int) :
    Carries (mbedtlsAesCryptCfb8Mem tsi mode) where
  zero _ _ _ _ _ _ := rfl
  add m n p ctx s mem src dst := by
    induction m generalizing p ctx s mem src dst with
    | zero => rw [Nat.zero_add]; rfl
    | succ m ih =>
      rw [Nat.add_right_comm, mbedtlsAesCryptCfb8Mem, ih]
      simp only [mbedtlsAesCryptCfb8Mem, Nat.add_assoc, Nat.add_comm 1 m]

theorem Placed.next (h : Placed src dst (n + 1)) : Placed (src + 1) (dst + 1) n := by
  unfold Placed at *
  omega

/-- A byte that is written does not touch those that are still to be read. -/
theorem Placed.copyFrom_update (h : Placed src dst (n + 1)) (c : BitVec 8) :
    copyFrom (Function.update mem dst c) (src + 1) n = copyFrom mem (src + 1) n := by
  rw [← copyTo_singleton]
  refine copyFrom_copyTo_of_disjoint ?_
  rw [List.length_singleton]
  unfold Placed at h
  omega

theorem copyTo_update (c : BitVec 8) (l : Bytes) :
    copyTo (Function.update mem dst c) (dst + 1) l = copyTo mem dst (c :: l) := by
  rw [← copyTo_singleton]
  exact copyTo_append mem dst [c] l

/-- The function on a memory is the one on a list of bytes, read and then written. -/
theorem ctrMem_eq {tsi : Engine} {p : Port} {ctx : AesContext} {s : CtrState}
    (h : Placed src dst n) : mbedtlsAesCryptCtrMem tsi n p ctx s mem src dst =
      ((mbedtlsAesCryptCtr tsi p ctx s (copyFrom mem src n)).1,
        copyTo mem dst (mbedtlsAesCryptCtr tsi p ctx s (copyFrom mem src n)).2.1,
        (mbedtlsAesCryptCtr tsi p ctx s (copyFrom mem src n)).2.2) := by
  induction n generalizing p ctx s mem src dst with
  | zero => exact Prod.ext rfl (Prod.ext copyTo_nil.symm rfl)
  | succ n ih =>
    rw [mbedtlsAesCryptCtrMem, ih h.next, h.copyFrom_update, copyTo_update, copyFrom_succ]
    rfl

theorem cfb8Mem_eq {tsi : Engine} {mode : Int} {p : Port} {ctx : AesContext} {iv : Block}
    (h : Placed src dst n) : mbedtlsAesCryptCfb8Mem tsi mode n p ctx iv mem src dst =
      ((mbedtlsAesCryptCfb8 tsi mode p ctx iv (copyFrom mem src n)).1,
        copyTo mem dst (mbedtlsAesCryptCfb8 tsi mode p ctx iv (copyFrom mem src n)).2.1,
        (mbedtlsAesCryptCfb8 tsi mode p ctx iv (copyFrom mem src n)).2.2) := by
  induction n generalizing p ctx iv mem src dst with
  | zero => exact Prod.ext rfl (Prod.ext copyTo_nil.symm rfl)
  | succ n ih =>
    rw [mbedtlsAesCryptCfb8Mem, ih h.next, h.copyFrom_update, copyTo_update, copyFrom_succ]
    rfl

end Calls

/-! ## The counter -/

section Counter

variable {b : Block} {i v : Nat}

theorem countUp_succ (hi : i < 16) : countUp b (i + 1) =
    if b ⟨i, hi⟩ + 1 ≠ 0 then Function.update b ⟨i, hi⟩ (b ⟨i, hi⟩ + 1)
    else countUp (Function.update b ⟨i, hi⟩ (b ⟨i, hi⟩ + 1)) i := by
  rw [countUp, dif_pos hi]
  simp only [Function.update_self]

/-- The first `i` bytes stand for one more, and the others stay. -/
theorem countUp_spec (hi : i ≤ 16) : leading (countUp b i) i = (leading b i + 1) % 2 ^ (8 * i) ∧
    ∀ j : Fin 16, i ≤ j → countUp b i j = b j := by
  induction i generalizing b with
  | zero => exact ⟨by simp [leading], fun j _ => rfl⟩
  | succ i ih =>
    have hne (j : Fin 16) (hj : i + 1 ≤ j) : j ≠ ⟨i, hi⟩ := fun he => by
      rw [he] at hj
      exact Nat.lt_irrefl i hj
    rw [countUp_succ hi]
    by_cases hz : b ⟨i, hi⟩ + 1 = 0
    · rw [if_neg (not_not.mpr hz)]
      obtain ⟨hfront, hrest⟩ := @ih (Function.update b ⟨i, hi⟩ (b ⟨i, hi⟩ + 1)) (by omega)
      rw [leading_update hi] at hfront
      refine ⟨leading_carry hi hz hfront ?_, fun j hj => ?_⟩
      · rw [hrest ⟨i, hi⟩ (Nat.le_refl i), Function.update_self, hz]
      · rw [hrest j (by omega), Function.update_of_ne (hne j hj)]
    · rw [if_pos hz]
      refine ⟨?_, fun j hj => Function.update_of_ne (hne j hj) _ _⟩
      rw [← leading_up hi hz, Nat.mod_eq_of_lt (leading_lt hi)]

/-- The counter goes up by one, and from all ones to zero. -/
theorem countUp_digits (v : Nat) : countUp (digits 16 8 v) 16 = digits 16 8 (v + 1) := by
  refine eq_of_value_eq ?_
  rw [value_digits, value, (countUp_spec (Nat.le_refl 16)).1]
  show (value (digits 16 8 v) + 1) % 2 ^ (8 * 16) = _
  rw [value_digits, Nat.mod_add_mod]

end Counter

/-! ## CTR -/

/-- With `n` bytes of the stream used, the offset is that in the block, the counter is that of the
next block, and inside a block the stream block is that of the block. -/
structure CtrState.At (s : CtrState) (E : Cipher) (key : Bytes) (nonce : Block) (n : Nat) :
    Prop where
  off : s.ncOff.val = n % 16
  counter : s.nonceCounter = digits 16 8 (value nonce + (n + 15) / 16)
  block : n % 16 ≠ 0 →
    List.ofFn s.streamBlock = E.enc key (List.ofFn (digits 16 8 (value nonce + n / 16)))

section Ctr

variable {tsi : Engine} {E : Cipher} {p : Port} {ctx : AesContext} {s : CtrState} {nonce : Block}
  {n : Nat}

theorem getD_ofFn (b : Block) (i : Fin 16) : (List.ofFn b).getD i 0 = b i := by
  rw [List.getD_eq_getElem?_getD, List.getElem?_eq_getElem (by rw [List.length_ofFn]; exact i.isLt),
    Option.getD_some, List.getElem_ofFn]

/-- The stream block is that of byte `n`. -/
theorem CtrState.At.refill (hs : s.At E ctx.key nonce n) (h : Enciphers tsi E) :
    (s.refill tsi p ctx).2.1.key = ctx.key ∧
      (s.refill tsi p ctx).2.2.streamBlock s.ncOff = E.ctrByte ctx.key nonce n ∧
      CtrState.At { (s.refill tsi p ctx).2.2 with ncOff := s.ncOff + 1 } E ctx.key nonce
        (n + 1) := by
  have hoff : (s.ncOff + 1).val = (n + 1) % 16 := by
    rw [Fin.val_add, hs.off]
    show (n % 16 + 1) % 16 = _
    omega
  have hkey : (s.refill tsi p ctx).2.1.key = ctx.key := by
    unfold CtrState.refill
    split <;> rfl
  have hblock : List.ofFn (s.refill tsi p ctx).2.2.streamBlock =
      E.enc ctx.key (List.ofFn (digits 16 8 (value nonce + n / 16))) := by
    unfold CtrState.refill
    by_cases h0 : s.ncOff = 0
    · have hmod : n % 16 = 0 := by rw [← hs.off, h0]; rfl
      rw [if_pos h0]
      refine (ecb_enciphers h).trans ?_
      rw [hs.counter]
      congr 4
      omega
    · have hmod : n % 16 ≠ 0 := fun hz => h0 (Fin.ext (hs.off.trans hz))
      rw [if_neg h0]
      exact hs.block hmod
  have hcounter : (s.refill tsi p ctx).2.2.nonceCounter =
      digits 16 8 (value nonce + (n + 1 + 15) / 16) := by
    unfold CtrState.refill
    by_cases h0 : s.ncOff = 0
    · have hmod : n % 16 = 0 := by rw [← hs.off, h0]; rfl
      rw [if_pos h0]
      show countUp s.nonceCounter 16 = _
      rw [hs.counter, countUp_digits]
      congr 1
      omega
    · have hmod : n % 16 ≠ 0 := fun hz => h0 (Fin.ext (hs.off.trans hz))
      rw [if_neg h0]
      show s.nonceCounter = _
      rw [hs.counter]
      congr 1
      omega
  refine ⟨hkey, ?_, hoff, hcounter, fun hne => ?_⟩
  · rw [Cipher.ctrByte, ← hblock, ← hs.off, getD_ofFn]
  · show List.ofFn (s.refill tsi p ctx).2.2.streamBlock = _
    rw [hblock]
    congr 4
    omega

theorem CtrState.At.first {streamBlock : Block} (E : Cipher) (key : Bytes) :
    CtrState.At ⟨0, nonce, streamBlock⟩ E key nonce 0 :=
  ⟨rfl, digits_value.symm, fun h => absurd rfl h⟩

theorem ctr_cons (b : BitVec 8) (data : Bytes) : (mbedtlsAesCryptCtr tsi p ctx s (b :: data)).2.1 =
    (b ^^^ (s.refill tsi p ctx).2.2.streamBlock s.ncOff) ::
      (mbedtlsAesCryptCtr tsi (s.refill tsi p ctx).1 (s.refill tsi p ctx).2.1
        { (s.refill tsi p ctx).2.2 with ncOff := s.ncOff + 1 } data).2.1 := rfl

/-- A call from byte `n` of the stream on -/
theorem CtrState.At.ctr (hs : s.At E ctx.key nonce n) (h : Enciphers tsi E) (data : Bytes) :
    (mbedtlsAesCryptCtr tsi p ctx s data).2.1 = mask xor (E.ctrByte ctx.key nonce) n data := by
  induction data generalizing p ctx s n with
  | nil => rfl
  | cons b data ih =>
    obtain ⟨hkey, hbyte, hnext⟩ := hs.refill (p := p) h
    rw [← hkey] at hnext
    rw [ctr_cons, hbyte, mask, xor, BitVec.xor_comm]
    exact congrArg _ ((ih hnext).trans (by rw [hkey]))

end Ctr

/-! ## CFB8 -/

section Cfb8

variable {tsi : Engine} {E : Cipher} {p : Port} {ctx : AesContext} {iv : Block} {mode : Int}

/-- The register is a list that a byte is put behind. -/
theorem ofFn_shiftIn (iv : Block) (b : BitVec 8) :
    List.ofFn (shiftIn iv b) = (List.ofFn iv).drop 1 ++ [b] := by
  refine List.ext_getElem (by simp) fun i hi _ => ?_
  rw [List.length_ofFn] at hi
  rw [List.getElem_ofFn, shiftIn]
  by_cases hlast : i = 15
  · subst hlast
    rw [List.getElem_append_right (by simp)]
    simp [Fin.snoc]
  · have hlt : i + 1 < 16 := by omega
    rw [List.getElem_append_left (by rw [List.length_drop, List.length_ofFn]; omega),
      List.getElem_drop, List.getElem_ofFn]
    refine (dif_pos hlt).trans (congrArg iv (Fin.ext ?_))
    exact Nat.add_comm i 1

/-- One byte, and the register behind it -/
theorem cfb8_cons {key : Bytes} {block : Block}
    (hblock : List.ofFn block = E.enc key (List.ofFn iv)) (b : BitVec 8) (l : Bytes) :
    E.cfb8 key mode iv (b :: l) = (block 0 ^^^ b) ::
      E.cfb8 key mode (shiftIn iv (if mode = mbedtlsAesEncrypt then block 0 ^^^ b else b)) l := by
  have hfirst : List.zipWith xor (E.enc key (List.ofFn iv)) [b] = [block 0 ^^^ b] := by
    rw [← hblock, List.ofFn_succ]
    rfl
  unfold Cipher.cfb8
  rw [chain_one, ofFn_shiftIn]
  by_cases hmode : mode = mbedtlsAesEncrypt
  · simp only [if_pos hmode, segmentEncrypt, hfirst]
    rfl
  · simp only [if_neg hmode, segmentDecrypt, hfirst]
    rfl

/-- A call with the register at `iv` -/
theorem cfb8_enciphers (h : Enciphers tsi E) (data : Bytes) :
    (mbedtlsAesCryptCfb8 tsi mode p ctx iv data).2.1 = E.cfb8 ctx.key mode iv data := by
  induction data generalizing p ctx iv with
  | nil => exact chain_nil.symm
  | cons b data ih =>
    have hblock : List.ofFn (mbedtlsAesCryptEcb tsi p ctx mbedtlsAesEncrypt iv iv).2 =
      E.enc ctx.key (List.ofFn iv) := ecb_enciphers h
    rw [cfb8_cons hblock]
    exact congrArg _ ih

theorem exists_block (E : Cipher) (key : Bytes) (iv : Block) :
    ∃ block : Block, List.ofFn block = E.enc key (List.ofFn iv) := by
  have hlen : (E.enc key (List.ofFn iv)).length = 16 := E.length_enc key _ List.length_ofFn
  refine ⟨fun i => (E.enc key (List.ofFn iv)).get (i.cast hlen.symm), ?_⟩
  refine List.ext_getElem (by rw [List.length_ofFn, hlen]) fun i hi _ => ?_
  rw [List.getElem_ofFn]
  rfl

theorem length_cfb8 (E : Cipher) (key : Bytes) (mode : Int) (iv : Block) (l : Bytes) :
    (E.cfb8 key mode iv l).length = l.length := by
  induction l generalizing iv with
  | nil => exact congrArg List.length chain_nil
  | cons b l ih =>
    obtain ⟨block, hblock⟩ := exists_block E key iv
    rw [cfb8_cons hblock, List.length_cons, ih, List.length_cons]

end Cfb8

/-! ## Both -/

theorem xor_xor (a b : BitVec 8) : xor a (xor a b) = b := by
  rw [xor, xor, ← BitVec.xor_assoc, BitVec.xor_self, BitVec.zero_xor]

theorem cfb8_cfb8 (E : Cipher) (key : Bytes) (iv : Block) (l : Bytes) :
    E.cfb8 key mbedtlsAesDecrypt iv (E.cfb8 key mbedtlsAesEncrypt iv l) = l := by
  unfold Cipher.cfb8
  rw [if_pos rfl, if_neg (by decide)]
  exact segment_chain (k := 16) (by decide) (by decide) xor_xor (E.length_enc key) List.length_ofFn

theorem ctr_ctr (E : Cipher) (key : Bytes) (nonce : Block) (l : Bytes) :
    E.ctr key nonce (E.ctr key nonce l) = l :=
  mask_mask xor_xor

/-- What is written and read back and written again -/
theorem copyFrom_twice {f g : Bytes → Bytes} {mem : Nat → BitVec 8} {src dst dst' n : Nat}
    (hlen : ∀ l, (f l).length = l.length) (hundo : ∀ l, g (f l) = l) :
    copyFrom (copyTo (copyTo mem dst (f (copyFrom mem src n))) dst'
        (g (copyFrom (copyTo mem dst (f (copyFrom mem src n))) dst n))) dst' n =
      copyFrom mem src n := by
  rw [copyFrom_copyTo ((hlen _).trans length_copyFrom), hundo, copyFrom_copyTo length_copyFrom]

theorem streams_law {tsi : Engine} {E : Cipher} (h : Enciphers tsi E) : StreamLaw tsi E := by
  have hctr : ∀ p ctx nonce streamBlock mem lens src dst, Placed src dst lens.sum →
      (inCalls (mbedtlsAesCryptCtrMem tsi) lens ⟨p, ctx, ⟨0, nonce, streamBlock⟩, mem⟩ src
        dst).mem = copyTo mem dst (E.ctr ctx.key nonce (copyFrom mem src lens.sum)) := by
    intro p ctx nonce streamBlock mem lens src dst hplace
    rw [(ctrMem_carries tsi).inCalls_mem, ctrMem_eq hplace]
    exact congrArg (copyTo mem dst) ((CtrState.At.first E ctx.key).ctr h _)
  have hcfb8 : ∀ p ctx mode iv mem lens src dst, Placed src dst lens.sum →
      (inCalls (mbedtlsAesCryptCfb8Mem tsi mode) lens ⟨p, ctx, iv, mem⟩ src dst).mem =
        copyTo mem dst (E.cfb8 ctx.key mode iv (copyFrom mem src lens.sum)) := by
    intro p ctx mode iv mem lens src dst hplace
    rw [(cfb8Mem_carries tsi mode).inCalls_mem, cfb8Mem_eq hplace]
    exact congrArg (copyTo mem dst) (cfb8_enciphers h _)
  refine ⟨hctr, fun p ctx mode iv mem lens src dst _ => hcfb8 p ctx mode iv mem lens src dst, ?_,
    ?_⟩
  · intro p ctx q ctx' nonce sb sb' mem lens lens' src dst dst' hkey hsum hplace hplace' t u
    have ht : t.mem = _ := hctr p ctx nonce sb mem lens src dst hplace
    have hu : u.mem = _ := hctr q ctx' nonce sb' t.mem lens' dst dst' (by rw [hsum]; exact hplace')
    rw [hu, hkey, hsum, ht]
    exact copyFrom_twice (fun _ => length_mask) (ctr_ctr E ctx.key nonce)
  · intro p ctx q ctx' iv mem lens lens' src dst dst' hkey hsum hplace hplace' t u
    have ht : t.mem = _ := hcfb8 p ctx _ iv mem lens src dst hplace
    have hu : u.mem = _ := hcfb8 q ctx' _ iv t.mem lens' dst dst' (by rw [hsum]; exact hplace')
    rw [hu, hkey, hsum, ht]
    exact copyFrom_twice (length_cfb8 E ctx.key _ iv) (cfb8_cfb8 E ctx.key iv)

theorem enciphers_modeTsi (E : Cipher) : Enciphers (modeTsi E) E where
  ok := (applies_modeTsi E).ok
  run log sid cnt src hcnt hlen hmode henc := by
    have hout : E.apply (settings log sid) src = E.enc (settings log sid).key src := by
      have hne : src ≠ [] := List.length_pos_iff.mp (by rw [hlen]; decide)
      rw [Cipher.apply, chain_of_le (Nat.le_of_eq hlen) hne, Cipher.step, hmode, henc]
      rfl
    show (E.apply (settings log sid) src ++ _).take cnt.toNat = _
    rw [hout]
    exact List.take_left' (by rw [E.length_enc _ src hlen]; unfold aesBlockSize at hlen; omega)

theorem streams_law_plusOne : StreamLaw (modeTsi plusOne) plusOne :=
  streams_law (enciphers_modeTsi plusOne)

end Ma35d1.Tsi
