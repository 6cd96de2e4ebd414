import Mathlib.Data.List.OfFn
import Ma35d1.Machine.Copy
import Ma35d1.Tsi.Session

/-!
# AES

The AES functions of the accelerator each do their work in a session of the TSI, by way of two
buffers of one block. Data are in a memory `mem`, at the places `input` and `output`.
-/

namespace Ma35d1.Tsi

open Ma35d1.Machine.Copy

/-- `AES_BLOCK_SIZE` -/
def aesBlockSize : Nat := 16

abbrev Block := Fin 16 → BitVec 8

scoped instance neZeroBlock : NeZero 16 := ⟨by decide⟩

/-- `AES_MODE_ECB`, `AES_MODE_CBC`, `AES_MODE_CFB` and `AES_MODE_OFB` -/
def aesModeEcb : Nat := 0
def aesModeCbc : Nat := 1
def aesModeCfb : Nat := 2
def aesModeOfb : Nat := 3

/-- `MBEDTLS_AES_ENCRYPT` -/
def mbedtlsAesEncrypt : Int := 1

/-- `MBEDTLS_ERR_AES_INVALID_INPUT_LENGTH` -/
def mbedtlsErrAesInvalidInputLength : Int := -0x0022

structure AesContext where
  keySizeOp : Nat
  encDec : Nat
  opMode : Nat
  /-- the words, byte for byte as they stand in memory, which is the order `nu_get32_le` reads -/
  iv : Block
  keys : Fin 32 → BitVec 8

/-- `n` as an `int` -/
def toInt32 (n : Nat) : Int := (BitVec.ofNat 32 n).toInt

theorem toNat_toInt32 {n : Nat} : (toInt32 n).toNat = n ↔ n < 2 ^ 31 := by
  rw [toInt32, BitVec.toInt_eq_toNat_cond, BitVec.toNat_ofNat]
  split <;> omega

theorem toInt32_of_lt {n : Nat} (h : n < 2 ^ 31) : toInt32 n = n := by
  rw [toInt32, BitVec.toInt_eq_toNat_cond, BitVec.toNat_ofNat]
  split <;> omega

/-- The data are copied to `s_u8in`. -/
def Port.load (p : Port) (data : Bytes) : Port :=
  { p with
    u8in := copyTo p.u8in 0 data
    stray := p.stray || decide (aesBlockSize < data.length) }

/-- `TSI_AES_Run`, from `s_u8in` to `s_u8out` -/
def Engine.aesRun (tsi : Engine) (p : Port) (sid : Nat) (dataCnt : Int) : Int × Port :=
  let cmd := .aesRun sid dataCnt (copyFrom p.u8in 0 dataCnt.toNat)
  let ans := tsi.ask p cmd
  (ans.ret,
    { tsi.send p cmd with
      u8out := copyTo p.u8out 0 ans.data
      stray := p.stray || decide (aesBlockSize < ans.data.length) })

/-- How many bytes of a key `TSI_AES_Set_Key` has the TSI read -/
def keyBytes (keysz : Nat) : Nat := if keysz = 0 then 16 else if keysz = 1 then 24 else 32

/-- The key that a context has the TSI use -/
def AesContext.key (ctx : AesContext) : Bytes := (List.ofFn ctx.keys).take (keyBytes ctx.keySizeOp)

/-- The commands that set up the session `sid` -/
def AesContext.setup (ctx : AesContext) (koutswap sid : Nat) : List TsiCmd :=
  [.aesSetIv sid (List.ofFn ctx.iv),
    .aesSetKey sid ctx.keySizeOp ctx.key,
    .aesSetMode sid koutswap ctx.encDec ctx.opMode ctx.keySizeOp]

/-- The part that all the functions share: the session is opened, set up, used on `len` bytes and
closed. The data are brought to `s_u8in` before the run. -/
def Engine.aesSession (tsi : Engine) (p : Port) (ctx : AesContext) (koutswap : Nat)
    (load : Port → Port) (len : Nat) : Int × Port :=
  let opened := tsi.send p (.openSession cCodeAes)
  let ans := tsi.ask p (.openSession cCodeAes)
  if ans.ret ≠ 0 then
    -- `sid` has not been set
    (-1, tsi.send opened (.closeSession cCodeAes (tsi.uninit p.log)))
  else
    let set := tsi.sendAll opened (ctx.setup koutswap ans.sid)
    if set.1 ≠ 0 then (-1, tsi.send set.2 (.closeSession cCodeAes ans.sid))
    else
      let ran := tsi.aesRun (load set.2) ans.sid (toInt32 len)
      if ran.1 ≠ 0 then (-1, tsi.send ran.2 (.closeSession cCodeAes ans.sid))
      else (0, tsi.send ran.2 (.closeSession cCodeAes ans.sid))

/-- `__nvt_aes_crypt`, whose `dataSize` is always that of a block -/
def nvtAesCrypt (tsi : Engine) (p : Port) (ctx : AesContext) (input output : Block) :
    Int × Port × Block :=
  let r := tsi.aesSession (p.load (List.ofFn input)) ctx 0 id aesBlockSize
  (r.1, r.2, if r.1 = 0 then fun i => r.2.u8out i else output)

/-- What a function returns and leaves behind, apart from the memory -/
structure AesCall where
  ret : Int
  ctx : AesContext
  port : Port

/-- `mbedtls_aes_crypt_ecb`; the result of `__nvt_aes_crypt` gets lost in `mbedtls_aes_encrypt` and
`mbedtls_aes_decrypt`. -/
def mbedtlsAesCryptEcb (tsi : Engine) (p : Port) (ctx : AesContext) (mode : Int)
    (input output : Block) : AesCall × Block :=
  let ctx := { ctx with
    opMode := aesModeEcb
    encDec := if mode = mbedtlsAesEncrypt then 1 else 0 }
  let r := nvtAesCrypt tsi p ctx input output
  (⟨0, ctx, r.2.1⟩, r.2.2)

/-- The context that the chaining modes work with -/
def AesContext.chained (ctx : AesContext) (opMode encDec : Nat) (iv : Block) : AesContext :=
  { ctx with opMode := opMode, encDec := encDec, iv := iv }

/-- `mbedtls_aes_crypt_cbc`, with the memory and `iv` afterwards -/
def mbedtlsAesCryptCbc (tsi : Engine) (p : Port) (ctx : AesContext) (mode : Int) (len : Nat)
    (iv : Block) (mem : Nat → BitVec 8) (input output : Nat) :
    AesCall × (Nat → BitVec 8) × Block :=
  let ctx := ctx.chained aesModeCbc (if mode = mbedtlsAesEncrypt then 1 else 0) iv
  let r := tsi.aesSession p ctx 1 (fun p => p.load (copyFrom mem input len)) len
  if r.1 = 0 then
    (⟨0, ctx, r.2⟩, copyTo mem output (copyFrom r.2.u8out 0 len),
      if mode = mbedtlsAesEncrypt then fun i => r.2.u8out i else fun i => mem (input + i))
  else (⟨-1, ctx, r.2⟩, mem, iv)

/-- `mbedtls_aes_crypt_cfb128`; `iv_off` is neither read nor written. -/
def mbedtlsAesCryptCfb128 (tsi : Engine) (p : Port) (ctx : AesContext) (mode : Int) (length : Nat)
    (iv : Block) (mem : Nat → BitVec 8) (input output : Nat) : AesCall × (Nat → BitVec 8) × Block :=
  let ctx := ctx.chained aesModeCfb (if mode = mbedtlsAesEncrypt then 1 else 0) iv
  let r := tsi.aesSession p ctx 1 (fun p => p.load (copyFrom mem input length)) length
  if r.1 = 0 then (⟨0, ctx, r.2⟩, copyTo mem output (copyFrom r.2.u8out 0 length), iv)
  else (⟨-1, ctx, r.2⟩, mem, iv)

/-- `mbedtls_aes_crypt_ofb` -/
def mbedtlsAesCryptOfb (tsi : Engine) (p : Port) (ctx : AesContext) (length ivOff : Nat)
    (iv : Block) (mem : Nat → BitVec 8) (input output : Nat) : AesCall × (Nat → BitVec 8) × Block :=
  if length = 0 then (⟨0, ctx, p⟩, mem, iv)
  else if ivOff ≠ 0 then (⟨mbedtlsErrAesInvalidInputLength, ctx, p⟩, mem, iv)
  else
    let ctx := ctx.chained aesModeOfb 1 iv
    let r := tsi.aesSession p ctx 1 (fun p => p.load (copyFrom mem input length)) length
    if r.1 = 0 then (⟨0, ctx, r.2⟩, copyTo mem output (copyFrom r.2.u8out 0 length), iv)
    else (⟨-1, ctx, r.2⟩, mem, iv)

/-- `mbedtls_aes_crypt_cfb8` on the bytes of `input`, with the bytes put out and `iv` afterwards -/
def mbedtlsAesCryptCfb8 (tsi : Engine) (mode : Int) :
    Port → AesContext → Block → Bytes → AesCall × Bytes × Block
  | p, ctx, iv, [] => (⟨0, ctx, p⟩, [], iv)
  | p, ctx, iv, b :: input =>
    let r := mbedtlsAesCryptEcb tsi p ctx mbedtlsAesEncrypt iv iv
    let c := r.2 0 ^^^ b
    -- `ov`, of which the last byte is the one that goes into the register
    let ov : Fin 17 → BitVec 8 :=
      Fin.snoc (α := fun _ => BitVec 8) iv (if mode = mbedtlsAesEncrypt then c else b)
    let rest := mbedtlsAesCryptCfb8 tsi mode r.1.port r.1.ctx (fun i => ov i.succ) input
    (rest.1, c :: rest.2.1, rest.2.2)

/-- `++nonce_counter[i - 1]` from the last byte on, up to the first that does not become zero -/
def countUp (nonceCounter : Block) : Nat → Block
  | 0 => nonceCounter
  | i + 1 =>
    if h : i < 16 then
      let next := Function.update nonceCounter ⟨i, h⟩ (nonceCounter ⟨i, h⟩ + 1)
      if next ⟨i, h⟩ ≠ 0 then next else countUp next i
    else nonceCounter

/-- What `mbedtls_aes_crypt_ctr` carries from byte to byte, and from call to call -/
structure CtrState where
  ncOff : Fin 16
  nonceCounter : Block
  streamBlock : Block

/-- `mbedtls_aes_crypt_ctr` on the bytes of `input`, with the bytes put out -/
def mbedtlsAesCryptCtr (tsi : Engine) :
    Port → AesContext → CtrState → Bytes → AesCall × Bytes × CtrState
  | p, ctx, s, [] => (⟨0, ctx, p⟩, [], s)
  | p, ctx, s, b :: input =>
    let r := if s.ncOff = 0 then
        let r := mbedtlsAesCryptEcb tsi p ctx mbedtlsAesEncrypt s.nonceCounter s.streamBlock
        (r.1.port, r.1.ctx,
          { s with nonceCounter := countUp s.nonceCounter 16, streamBlock := r.2 })
      else (p, ctx, s)
    let rest := mbedtlsAesCryptCtr tsi r.1 r.2.1 { r.2.2 with ncOff := s.ncOff + 1 } input
    (rest.1, (b ^^^ r.2.2.streamBlock s.ncOff) :: rest.2.1, rest.2.2)

end Ma35d1.Tsi
