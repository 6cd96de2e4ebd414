import Ma35d1.Machine.Chaining
import Ma35d1.Tsi.Aes

/-!
# The chaining modes over several calls

Where the TSI applies the mode that a session is set to, the calls for the parts of a message are
compared with the mode applied to the whole message.
-/

namespace Ma35d1.Tsi

open Ma35d1.Machine.Chaining
open Ma35d1.Machine.Copy

/-- A block cipher, for every key -/
structure Cipher where
  enc : Bytes → Bytes → Bytes
  dec : Bytes → Bytes → Bytes
  length_enc : ∀ key b, b.length = 16 → (enc key b).length = 16
  length_dec : ∀ key b, b.length = 16 → (dec key b).length = 16
  dec_enc : ∀ key b, b.length = 16 → dec key (enc key b) = b
  enc_dec : ∀ key b, b.length = 16 → enc key (dec key b) = b

/-- What a session is set to -/
structure Settings where
  iv : Bytes
  key : Bytes
  encrypt : Nat
  mode : Nat

def Settings.set (sid : Nat) (s : Settings) (e : Issued) : Settings :=
  match e.cmd with
  | .aesSetIv sid' iv => if sid' = sid then { s with iv := iv } else s
  | .aesSetKey sid' _ key => if sid' = sid then { s with key := key } else s
  | .aesSetMode sid' _ encrypt mode _ =>
    if sid' = sid then { s with encrypt := encrypt, mode := mode } else s
  | _ => s

/-- The settings of session `sid` after the commands -/
def settings (log : List Issued) (sid : Nat) : Settings :=
  log.foldl (Settings.set sid) ⟨[], [], 0, 0⟩

def xor (a b : BitVec 8) : BitVec 8 := a ^^^ b

/-- The mode as it is put through a block -/
def Cipher.step (E : Cipher) (key : Bytes) (encrypt mode : Nat) : Bytes → Bytes → Bytes × Bytes :=
  if mode = aesModeCbc then
    if encrypt = 1 then cbcEncrypt xor (E.enc key) else cbcDecrypt xor (E.dec key)
  else if mode = aesModeCfb then
    if encrypt = 1 then cfbEncrypt xor (E.enc key) else cfbDecrypt xor (E.enc key)
  else if mode = aesModeOfb then ofb xor (E.enc key)
  else fun iv b => (if encrypt = 1 then E.enc key b else E.dec key b, iv)

def Cipher.apply (E : Cipher) (s : Settings) (src : Bytes) : Bytes :=
  chain aesBlockSize (E.step s.key s.encrypt s.mode) s.iv src

/-- The modes that take whole blocks only -/
def Whole (mode : Nat) : Prop := mode ≠ aesModeCfb ∧ mode ≠ aesModeOfb

/-- The TSI carries out every command, and a run applies the mode that its session is set to. -/
structure Applies (tsi : Engine) (E : Cipher) : Prop where
  ok : ∀ log cmd, (tsi.answer log cmd).ret = 0
  run : ∀ log sid cnt src, (src.length : Int) = cnt →
    (settings log sid).iv.length = aesBlockSize →
    (Whole (settings log sid).mode → aesBlockSize ∣ src.length) →
    (tsi.answer log (.aesRun sid cnt src)).data = E.apply (settings log sid) src

/-- What the calls for the parts of a message leave behind -/
structure Parts where
  port : Port
  ctx : AesContext
  iv : Block
  mem : Nat → BitVec 8

/-- One call for each part, the next behind it, with `iv` passed back in -/
def inParts (call : Nat → Parts → Nat → Nat → AesCall × (Nat → BitVec 8) × Block) :
    List Nat → Parts → Nat → Nat → Parts
  | [], s, _, _ => s
  | len :: lens, s, src, dst =>
    let r := call len s src dst
    inParts call lens ⟨r.1.port, r.1.ctx, r.2.2, r.2.1⟩ (src + len) (dst + len)

/-- The parts together are the mode applied to the whole, in place or from one buffer to another,
and nothing is written behind the buffers of one block. -/
def Composes (call : Engine → Nat → Parts → Nat → Nat → AesCall × (Nat → BitVec 8) × Block)
    (encrypt mode : Nat) (lens : List Nat) : Prop :=
  ∀ E tsi, Applies tsi E → ∀ s : Parts, s.port.stray = false → ∀ src dst,
    (src = dst ∨ src + lens.sum ≤ dst ∨ dst + lens.sum ≤ src) →
    let t := inParts (call tsi) lens s src dst
    copyFrom t.mem dst lens.sum = chain aesBlockSize (E.step s.ctx.key encrypt mode)
      (List.ofFn s.iv) (copyFrom s.mem src lens.sum) ∧ t.port.stray = false

def cbcCall (mode : Int) (tsi : Engine) (len : Nat) (s : Parts) (src dst : Nat) :
    AesCall × (Nat → BitVec 8) × Block :=
  mbedtlsAesCryptCbc tsi s.port s.ctx mode len s.iv s.mem src dst

def cfb128Call (mode : Int) (tsi : Engine) (len : Nat) (s : Parts) (src dst : Nat) :
    AesCall × (Nat → BitVec 8) × Block :=
  mbedtlsAesCryptCfb128 tsi s.port s.ctx mode len s.iv s.mem src dst

/-- with `iv_off` 0 -/
def ofbCall (tsi : Engine) (len : Nat) (s : Parts) (src dst : Nat) :
    AesCall × (Nat → BitVec 8) × Block :=
  mbedtlsAesCryptOfb tsi s.port s.ctx len 0 s.iv s.mem src dst

def encDec (mode : Int) : Nat := if mode = mbedtlsAesEncrypt then 1 else 0

/-- No part is longer than a block; and when encrypting there is a block in the first part, if in
any, and when decrypting no empty part in front of a block. -/
def CbcKept (mode : Int) (blocks : List Nat) : Prop :=
  (∀ b ∈ blocks, b ≤ 1) ∧
    if mode = mbedtlsAesEncrypt then (∀ b ∈ blocks, b = 0) ∨ blocks.head? = some 1
    else blocks.Pairwise (· ≥ ·)

/-- There are data in one part only, and no more than a block. -/
def StreamKept (lens : List Nat) : Prop :=
  (∀ n ∈ lens, n ≤ aesBlockSize) ∧ (lens.filter (· ≠ 0)).length ≤ 1

/-! ## One call -/

section Call

variable {tsi : Engine} {E : Cipher} {ctx : AesContext} {len : Nat} {s : Parts}
  {encrypt mode src dst : Nat}

/-- The settings are those that were set last. -/
theorem settings_setup {log : List Issued} {o : Issued} {a b c : Answer} {iv key : Bytes}
    {keysz keysz' koutswap sid : Nat} :
    settings (log ++ [o, ⟨.aesSetIv sid iv, a⟩, ⟨.aesSetKey sid keysz key, b⟩,
      ⟨.aesSetMode sid koutswap encrypt mode keysz', c⟩]) sid = ⟨iv, key, encrypt, mode⟩ := by
  rw [settings, List.foldl_append]
  simp [Settings.set]

/-- A session in which the TSI does what it is told -/
theorem session_applies (h : Applies tsi E) (p : Port) (ctx : AesContext) (data : Bytes) :
    ∃ out q, tsi.aesSession p ctx 1 (fun p => p.load data) data.length = (0, q) ∧
      q.u8out = copyTo p.u8out 0 out ∧ out.length = (toInt32 data.length).toNat ∧
      q.stray = (p.stray || decide (aesBlockSize < data.length) ||
        decide (aesBlockSize < out.length)) ∧
      (data.length ≤ aesBlockSize → (Whole ctx.opMode → aesBlockSize ∣ data.length) →
        out = E.apply ⟨List.ofFn ctx.iv, ctx.key, ctx.encDec, ctx.opMode⟩ data) := by
  have hask : ∀ q cmd, (tsi.ask q cmd).ret = 0 := fun q cmd => h.ok q.log cmd
  unfold Engine.aesSession Engine.aesRun
  simp only [hask, ne_eq, not_true_eq_false, if_false, AesContext.setup, Engine.sendAll]
  refine ⟨_, _, rfl, rfl, tsi.run_length _ _ _ _ (h.ok _ _), rfl, fun hle hwhole => ?_⟩
  have hlt : data.length < 2 ^ 31 := by
    unfold aesBlockSize at hle
    omega
  have hsrc : copyFrom (copyTo p.u8in 0 data) 0 (toInt32 data.length).toNat = data :=
    copyFrom_copyTo (toNat_toInt32.mpr hlt).symm
  generalize (tsi.ask p (.openSession cCodeAes)).sid = sid
  show (tsi.answer ((((p.log ++ [_]) ++ [_]) ++ [_]) ++ [_])
    (.aesRun sid _ (copyFrom (copyTo p.u8in 0 data) 0 _))).data = _
  rw [hsrc]
  simp only [List.append_assoc, List.cons_append, List.nil_append]
  rw [h.run _ sid _ data (toInt32_of_lt hlt).symm, settings_setup]
  · rw [settings_setup]
    exact List.length_ofFn
  · rw [settings_setup]
    exact hwhole

/-- What a call puts out, where the TSI does what it is told -/
def Parts.out (s : Parts) (E : Cipher) (encrypt mode src len : Nat) : Bytes :=
  chain aesBlockSize (E.step s.ctx.key encrypt mode) (List.ofFn s.iv) (copyFrom s.mem src len)

structure CallRan (E : Cipher) (encrypt mode : Nat) (s : Parts) (src dst len : Nat)
    (r : AesCall × (Nat → BitVec 8) × Block) : Prop where
  key : r.1.ctx.key = s.ctx.key
  stray : r.1.port.stray = (s.port.stray || decide (aesBlockSize < len))
  out : len ≤ aesBlockSize → (Whole mode → aesBlockSize ∣ len) →
    (s.out E encrypt mode src len).length = len ∧
      r.1.port.u8out = copyTo s.port.u8out 0 (s.out E encrypt mode src len) ∧
      r.2.1 = copyTo s.mem dst (s.out E encrypt mode src len)

theorem le_of_toInt32 : (toInt32 len).toNat ≤ len := by
  rw [toInt32, BitVec.toInt_eq_toNat_cond, BitVec.toNat_ofNat]
  split <;> omega

theorem ran_of_session (h : Applies tsi E) {iv iv' : Block} :
    let ctx := s.ctx.chained mode encrypt s.iv
    let r := tsi.aesSession s.port ctx 1 (fun p => p.load (copyFrom s.mem src len)) len
    CallRan E encrypt mode s src dst len
      (if r.1 = 0 then (⟨0, ctx, r.2⟩, copyTo s.mem dst (copyFrom r.2.u8out 0 len), iv)
      else (⟨-1, ctx, r.2⟩, s.mem, iv')) := by
  intro ctx r
  obtain ⟨out, q, hr, hu8out, hlen, hstray, hout⟩ :=
    session_applies h s.port ctx (copyFrom s.mem src len)
  rw [length_copyFrom] at hr hlen hstray hout
  have hle : out.length ≤ len := by
    rw [hlen]
    exact le_of_toInt32
  have hr' : r = (0, q) := hr
  rw [hr', if_pos rfl]
  refine ⟨rfl, ?_, fun hshort hwhole => ?_⟩
  · show q.stray = _
    rw [hstray]
    by_cases hlong : aesBlockSize < len
    · simp [hlong]
    · simp [hlong, show ¬ aesBlockSize < out.length by omega]
  · have hsame : out = s.out E encrypt mode src len := hout hshort hwhole
    have hlen' : out.length = len := by
      rw [hlen]
      exact toNat_toInt32.mpr (by unfold aesBlockSize at hshort; omega)
    rw [← hsame]
    refine ⟨hlen', hu8out, ?_⟩
    show copyTo s.mem dst (copyFrom q.u8out 0 len) = _
    rw [hu8out, copyFrom_copyTo hlen']

theorem cbc_ran (h : Applies tsi E) (m : Int) :
    CallRan E (encDec m) aesModeCbc s src dst len (cbcCall m tsi len s src dst) :=
  ran_of_session h

/-- What CBC takes as the vector for the next call -/
theorem cbc_iv (h : Applies tsi E) (m : Int) (s : Parts) (src dst len : Nat) (i : Fin 16) :
    (cbcCall m tsi len s src dst).2.2 i =
    if m = mbedtlsAesEncrypt then (cbcCall m tsi len s src dst).1.port.u8out i
    else s.mem (src + i) := by
  obtain ⟨out, q, hr, -⟩ := session_applies h s.port (s.ctx.chained aesModeCbc (encDec m) s.iv)
    (copyFrom s.mem src len)
  rw [length_copyFrom] at hr
  unfold cbcCall mbedtlsAesCryptCbc
  unfold encDec at hr
  simp only [hr, if_true]
  split <;> rfl

theorem cfb128_ran (h : Applies tsi E) (m : Int) :
    CallRan E (encDec m) aesModeCfb s src dst len (cfb128Call m tsi len s src dst) :=
  ran_of_session h

theorem ite_iv {c : Prop} [Decidable c] {a b : AesCall} {mem mem' : Nat → BitVec 8} {iv : Block} :
    (if c then (a, mem, iv) else (b, mem', iv)).2.2 = iv := by
  split <;> rfl

theorem cfb128_iv (m : Int) : (cfb128Call m tsi len s src dst).2.2 = s.iv := ite_iv

theorem ofb_ran (h : Applies tsi E) :
    CallRan E 1 aesModeOfb s src dst len (ofbCall tsi len s src dst) := by
  unfold ofbCall mbedtlsAesCryptOfb
  split
  · rename_i h0
    subst h0
    refine ⟨rfl, by simp, fun _ _ => ?_⟩
    have hnil : s.out E 1 aesModeOfb src 0 = [] := chain_nil
    rw [hnil, copyTo_nil, copyTo_nil]
    exact ⟨rfl, rfl, rfl⟩
  · rw [if_neg (not_not.mpr rfl)]
    exact ran_of_session h

theorem ofb_iv : (ofbCall tsi len s src dst).2.2 = s.iv := by
  unfold ofbCall mbedtlsAesCryptOfb
  split
  · rfl
  rw [if_neg (not_not.mpr rfl)]
  exact ite_iv

end Call

/-! ## A call for each part -/

section Run

variable {call : Nat → Parts → Nat → Nat → AesCall × (Nat → BitVec 8) × Block} {E : Cipher}
  {encrypt mode : Nat} {lens : List Nat} {s : Parts} {src dst : Nat}

theorem out_block : s.out E encrypt mode src aesBlockSize =
    (E.step s.ctx.key encrypt mode (List.ofFn s.iv) (copyFrom s.mem src aesBlockSize)).1 := by
  rw [Parts.out, chain_of_le (by rw [length_copyFrom])]
  rw [← List.length_pos_iff, length_copyFrom]
  decide

/-- What is left after a call -/
def Parts.next (call : Nat → Parts → Nat → Nat → AesCall × (Nat → BitVec 8) × Block) (len : Nat)
    (s : Parts) (src dst : Nat) : Parts :=
  let r := call len s src dst
  ⟨r.1.port, r.1.ctx, r.2.2, r.2.1⟩

/-- Every call is one in which the TSI does what it is told. -/
def Ran (call : Nat → Parts → Nat → Nat → AesCall × (Nat → BitVec 8) × Block) (E : Cipher)
    (encrypt mode : Nat) : Prop :=
  ∀ s src dst len, CallRan E encrypt mode s src dst len (call len s src dst)

/-- The parts are no longer than a block, and are whole where they have to be. -/
def Short (mode : Nat) (lens : List Nat) : Prop :=
  ∀ n ∈ lens, n ≤ aesBlockSize ∧ (Whole mode → aesBlockSize ∣ n)

theorem inParts_cons (len : Nat) : inParts call (len :: lens) s src dst =
    inParts call lens (s.next call len src dst) (src + len) (dst + len) := rfl

theorem stray_inParts (h : Ran call E encrypt mode) : (inParts call lens s src dst).port.stray =
    (s.port.stray || lens.any fun n => decide (aesBlockSize < n)) := by
  induction lens generalizing s src dst with
  | nil => rw [List.any_nil, Bool.or_false, inParts]
  | cons len lens ih =>
    rw [inParts_cons, ih, List.any_cons, ← Bool.or_assoc]
    congr 1
    exact (h s src dst len).stray

/-- A call of no length leaves the memory as it was. -/
theorem mem_next_zero (h : Ran call E encrypt mode) (s : Parts) (src dst : Nat) :
    (s.next call 0 src dst).mem = s.mem ∧ (s.next call 0 src dst).ctx.key = s.ctx.key ∧
      (s.next call 0 src dst).port.u8out = s.port.u8out := by
  have hr := h s src dst 0
  obtain ⟨-, hu, hm⟩ := hr.out (Nat.zero_le _) fun _ => Nat.dvd_zero _
  have hnil : s.out E encrypt mode src 0 = [] := chain_nil
  rw [hnil, copyTo_nil] at hu hm
  exact ⟨hm, hr.key, hu⟩

/-- Nothing is written beside the place of the output. -/
theorem copyFrom_inParts (h : Ran call E encrypt mode) (hshort : Short mode lens) {j n : Nat}
    (hj : j + n ≤ dst ∨ dst + lens.sum ≤ j) :
    copyFrom (inParts call lens s src dst).mem j n = copyFrom s.mem j n := by
  induction lens generalizing s src dst with
  | nil => rfl
  | cons len lens ih =>
    obtain ⟨hle, hwhole⟩ := hshort len List.mem_cons_self
    obtain ⟨hlen, -, hmem⟩ := (h s src dst len).out hle hwhole
    rw [List.sum_cons] at hj
    rw [inParts_cons, ih (fun n hn => hshort n (List.mem_cons_of_mem len hn)) (by omega)]
    show copyFrom (call len s src dst).2.1 j n = _
    rw [hmem, copyFrom_copyTo_of_disjoint (by omega)]

/-- What a part puts out stays. -/
theorem copyFrom_inParts_cons (h : Ran call E encrypt mode) {len : Nat}
    (hshort : Short mode (len :: lens)) :
    copyFrom (inParts call (len :: lens) s src dst).mem dst len = s.out E encrypt mode src len := by
  obtain ⟨hle, hwhole⟩ := hshort len List.mem_cons_self
  obtain ⟨hlen, -, hmem⟩ := (h s src dst len).out hle hwhole
  rw [inParts_cons,
    copyFrom_inParts h (fun n hn => hshort n (List.mem_cons_of_mem len hn))
      (Or.inl (Nat.le_refl _))]
  show copyFrom (call len s src dst).2.1 dst len = _
  rw [hmem, copyFrom_copyTo hlen]

/-- Each call hands the vector on as the mode does, up to the last that has data. -/
def Linked (call : Nat → Parts → Nat → Nat → AesCall × (Nat → BitVec 8) × Block) (E : Cipher)
    (encrypt mode : Nat) : List Nat → Parts → Nat → Nat → Prop
  | [], _, _, _ => True
  | len :: lens, s, src, dst =>
    lens.sum = 0 ∨
      ((len = 0 ∧ (s.next call len src dst).iv = s.iv) ∨
        (len = aesBlockSize ∧ List.ofFn (s.next call len src dst).iv =
          (E.step s.ctx.key encrypt mode (List.ofFn s.iv) (copyFrom s.mem src aesBlockSize)).2)) ∧
      Linked call E encrypt mode lens (s.next call len src dst) (src + len) (dst + len)

/-- A call of no length changes nothing, where it leaves the vector. -/
theorem inParts_zero (h : Ran call E encrypt mode) (hiv : (s.next call 0 src dst).iv = s.iv) :
    copyFrom (inParts call (0 :: lens) s src dst).mem dst (0 :: lens).sum =
        s.out E encrypt mode src (0 :: lens).sum ↔
      copyFrom (inParts call lens (s.next call 0 src dst) src dst).mem dst lens.sum =
        (s.next call 0 src dst).out E encrypt mode src lens.sum := by
  obtain ⟨hmem, hkey, -⟩ := mem_next_zero h s src dst
  rw [inParts_cons, List.sum_cons, Nat.zero_add, Nat.add_zero, Nat.add_zero]
  simp only [Parts.out, hmem, hkey, hiv]

/-- After a block the rest has to come out right, where the vector is the one that is handed on. -/
theorem inParts_block (h : Ran call E encrypt mode) (hshort : Short mode (aesBlockSize :: lens))
    (hplace : src = dst ∨ src + (aesBlockSize :: lens).sum ≤ dst ∨
      dst + (aesBlockSize :: lens).sum ≤ src)
    (hiv : List.ofFn (s.next call aesBlockSize src dst).iv =
      (E.step s.ctx.key encrypt mode (List.ofFn s.iv) (copyFrom s.mem src aesBlockSize)).2) :
    copyFrom (inParts call (aesBlockSize :: lens) s src dst).mem dst (aesBlockSize :: lens).sum =
        s.out E encrypt mode src (aesBlockSize :: lens).sum ↔
      copyFrom (inParts call lens (s.next call aesBlockSize src dst) (src + aesBlockSize)
          (dst + aesBlockSize)).mem (dst + aesBlockSize) lens.sum =
        (s.next call aesBlockSize src dst).out E encrypt mode (src + aesBlockSize) lens.sum := by
  obtain ⟨hle, hwhole⟩ := hshort aesBlockSize List.mem_cons_self
  obtain ⟨hlen, -, hmem⟩ := (h s src dst aesBlockSize).out hle hwhole
  rw [List.sum_cons] at hplace ⊢
  have hkey : (s.next call aesBlockSize src dst).ctx.key = s.ctx.key :=
    (h s src dst aesBlockSize).key
  have hdata : copyFrom (s.next call aesBlockSize src dst).mem (src + aesBlockSize) lens.sum =
      copyFrom s.mem (src + aesBlockSize) lens.sum := by
    show copyFrom (call aesBlockSize s src dst).2.1 (src + aesBlockSize) lens.sum = _
    rw [hmem, copyFrom_copyTo_of_disjoint (by omega)]
  have hout : s.out E encrypt mode src (aesBlockSize + lens.sum) =
      s.out E encrypt mode src aesBlockSize ++
        (s.next call aesBlockSize src dst).out E encrypt mode (src + aesBlockSize) lens.sum := by
    rw [Parts.out, copyFrom_add, chain_append length_copyFrom (by decide), ← out_block, Parts.out,
      Parts.out, hkey, hdata, hiv]
  rw [copyFrom_add, copyFrom_inParts_cons h hshort, inParts_cons, hout]
  exact List.append_right_inj _

/-- Parts that are linked are the whole. -/
theorem inParts_of_linked (h : Ran call E encrypt mode) (hshort : Short mode lens)
    (hplace : src = dst ∨ src + lens.sum ≤ dst ∨ dst + lens.sum ≤ src)
    (hlinked : Linked call E encrypt mode lens s src dst) :
    copyFrom (inParts call lens s src dst).mem dst lens.sum =
      s.out E encrypt mode src lens.sum := by
  induction lens generalizing s src dst with
  | nil => exact chain_nil.symm
  | cons len lens ih =>
    have hrest : Short mode lens := fun n hn => hshort n (List.mem_cons_of_mem len hn)
    rcases hlinked with h0 | ⟨⟨rfl, hiv⟩ | ⟨rfl, hiv⟩, hlinked⟩
    · rw [List.sum_cons, h0, Nat.add_zero]
      exact copyFrom_inParts_cons h hshort
    · rw [inParts_zero h hiv]
      rw [List.sum_cons, Nat.zero_add] at hplace
      exact ih hrest hplace hlinked
    · rw [inParts_block h hshort hplace hiv]
      rw [List.sum_cons] at hplace
      exact ih hrest (by omega) hlinked

end Run

end Ma35d1.Tsi
