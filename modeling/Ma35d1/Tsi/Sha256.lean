import Ma35d1.Machine.Copy
import Ma35d1.Tsi.Session

/-!
# SHA-256

The functions of `sha256_alt`, which collect what they are given in a buffer of 4096 bytes and hand
a full one to the TSI when more comes.
-/

namespace Ma35d1.Tsi

open Ma35d1.Machine.Copy

/-- `NU_SHA256_BLOCK_SIZE` -/
def nuSha256BlockSize : Nat := 4096

/-- `SHA_MODE_SHA224` and `SHA_MODE_SHA256` -/
def shaModeSha224 : Nat := 5
def shaModeSha256 : Nat := 4

/-- `MBEDTLS_ERR_PLATFORM_HW_ACCEL_FAILED` -/
def mbedtlsErrPlatformHwAccelFailed : Int := -0x0070

theorem accelFailed_ne : mbedtlsErrPlatformHwAccelFailed ≠ 0 := by decide

/-- `buffer` is the part in use, the first `buffer_len` bytes. -/
structure Sha256Context where
  is224 : Bool
  buffer : Bytes
  first : Nat
  sid : Nat
  buffer_le : buffer.length ≤ nuSha256BlockSize

/-- `mbedtls_sha256_init` -/
def mbedtlsSha256Init : Sha256Context where
  is224 := false
  buffer := []
  first := 0
  sid := 0
  buffer_le := Nat.zero_le _

/-- `mbedtls_sha256_starts` -/
def mbedtlsSha256Starts (tsi : Engine) (p : Port) (ctx : Sha256Context) (is224 : Bool) :
    Int × Port × Sha256Context :=
  let ctx := { ctx with is224 := is224, first := 1 }
  let opMode := if ctx.is224 then shaModeSha224 else shaModeSha256
  let opened := tsi.send p (.openSession cCodeSha)
  let ans := tsi.ask p (.openSession cCodeSha)
  if ans.ret ≠ 0 then (-1, tsi.send opened (.closeSession cCodeSha ctx.sid), ctx)
  else
    let cmd := .shaStart ans.sid opMode
    ((tsi.ask opened cmd).ret, tsi.send opened cmd, { ctx with sid := ans.sid })

/-- The `n` bytes from `ofs` on are copied behind those in the buffer. -/
def Sha256Context.fill (ctx : Sha256Context) (input : Bytes) (ofs n : Nat)
    (h : ctx.buffer.length + n ≤ nuSha256BlockSize) : Sha256Context :=
  { ctx with
    buffer := ctx.buffer ++ (input.drop ofs).take n
    buffer_le := by
      rw [List.length_append, List.length_take]
      omega }

/-- The buffer is taken as empty. -/
def Sha256Context.clear (ctx : Sha256Context) : Sha256Context :=
  { ctx with buffer := [], buffer_le := Nat.zero_le _ }

/-- The commands that hand over the buffer, a full one and the last -/
def Sha256Context.updateCmd (ctx : Sha256Context) : TsiCmd :=
  .shaUpdate ctx.sid nuSha256BlockSize ctx.buffer

def Sha256Context.finishCmd (ctx : Sha256Context) : TsiCmd :=
  .shaFinish ctx.sid 8 ctx.buffer.length ctx.buffer

/-- The loop of `mbedtls_sha256_update`; `ofs` is a `uint32_t`. -/
def sha256UpdateLoop (tsi : Engine) (input : Bytes) (p : Port) (ctx : Sha256Context)
    (ofs ilen : Nat) : Int × Port × Sha256Context :=
  if h0 : ilen = 0 then (0, p, ctx)
  else if hfull : nuSha256BlockSize ≤ ctx.buffer.length then
    if (tsi.ask p ctx.updateCmd).ret ≠ 0 then
      (mbedtlsErrPlatformHwAccelFailed, tsi.send p ctx.updateCmd, ctx)
    else sha256UpdateLoop tsi input (tsi.send p ctx.updateCmd) ctx.clear ofs ilen
  else if hmore : nuSha256BlockSize - ctx.buffer.length < ilen then
    let n := nuSha256BlockSize - ctx.buffer.length
    sha256UpdateLoop tsi input p (ctx.fill input ofs n (by omega)) ((ofs + n) % 2 ^ 32) (ilen - n)
  else (0, p, ctx.fill input ofs ilen (by omega))
termination_by 2 * ilen + if nuSha256BlockSize ≤ ctx.buffer.length then 1 else 0
decreasing_by
  · have hclear : ¬ nuSha256BlockSize ≤ ctx.clear.buffer.length := of_decide_eq_true rfl
    rw [if_pos hfull, if_neg hclear]
    omega
  · split <;> omega

/-- `mbedtls_sha256_update` -/
def mbedtlsSha256Update (tsi : Engine) (p : Port) (ctx : Sha256Context) (input : Bytes) :
    Int × Port × Sha256Context :=
  sha256UpdateLoop tsi input p ctx 0 input.length

/-- `mbedtls_sha256_finish`, with the memory that holds `output` -/
def mbedtlsSha256Finish (tsi : Engine) (p : Port) (ctx : Sha256Context) (mem : Nat → BitVec 8)
    (output : Nat) : Int × Port × Sha256Context × (Nat → BitVec 8) :=
  if 0 < ctx.buffer.length then
    let ans := tsi.ask p ctx.finishCmd
    let p := { tsi.send p ctx.finishCmd with sha256DmaBuff := copyTo p.sha256DmaBuff 0 ans.data }
    if ans.ret ≠ 0 then (mbedtlsErrPlatformHwAccelFailed, p, ctx, mem)
    else
      (0, tsi.send p (.closeSession cCodeSha ctx.sid), ctx.clear,
        copyTo mem output (copyFrom p.sha256DmaBuff 0 32))
  else (0, p, ctx, mem)

section Update

variable {tsi : Engine} {input : Bytes} {p : Port} {ctx : Sha256Context} {ofs ilen : Nat}

theorem updateLoop_zero : sha256UpdateLoop tsi input p ctx ofs 0 = (0, p, ctx) := by
  rw [sha256UpdateLoop, dif_pos rfl]

theorem updateLoop_fail (h0 : ilen ≠ 0) (hfull : nuSha256BlockSize ≤ ctx.buffer.length)
    (hfail : (tsi.ask p ctx.updateCmd).ret ≠ 0) :
    sha256UpdateLoop tsi input p ctx ofs ilen =
      (mbedtlsErrPlatformHwAccelFailed, tsi.send p ctx.updateCmd, ctx) := by
  rw [sha256UpdateLoop, dif_neg h0, dif_pos hfull]
  exact if_pos hfail

theorem updateLoop_flush (h0 : ilen ≠ 0) (hfull : nuSha256BlockSize ≤ ctx.buffer.length)
    (hok : (tsi.ask p ctx.updateCmd).ret = 0) :
    sha256UpdateLoop tsi input p ctx ofs ilen =
      sha256UpdateLoop tsi input (tsi.send p ctx.updateCmd) ctx.clear ofs ilen := by
  rw [sha256UpdateLoop, dif_neg h0, dif_pos hfull]
  exact if_neg (not_not.mpr hok)

theorem updateLoop_fill (hfull : ctx.buffer.length < nuSha256BlockSize)
    (hmore : nuSha256BlockSize - ctx.buffer.length < ilen) :
    sha256UpdateLoop tsi input p ctx ofs ilen = sha256UpdateLoop tsi input p
      (ctx.fill input ofs (nuSha256BlockSize - ctx.buffer.length) (by omega))
      ((ofs + (nuSha256BlockSize - ctx.buffer.length)) % 2 ^ 32)
      (ilen - (nuSha256BlockSize - ctx.buffer.length)) := by
  rw [sha256UpdateLoop, dif_neg (by omega), dif_neg (Nat.not_le.mpr hfull), dif_pos hmore]

theorem updateLoop_rest (h0 : ilen ≠ 0) (hfull : ctx.buffer.length < nuSha256BlockSize)
    (hmore : ilen ≤ nuSha256BlockSize - ctx.buffer.length) :
    sha256UpdateLoop tsi input p ctx ofs ilen = (0, p, ctx.fill input ofs ilen (by omega)) := by
  rw [sha256UpdateLoop, dif_neg h0, dif_neg (Nat.not_le.mpr hfull),
    dif_neg (Nat.not_lt.mpr hmore)]

theorem length_fill {n : Nat} (h : ctx.buffer.length + n ≤ nuSha256BlockSize)
    (hn : ofs + n ≤ input.length) :
    (ctx.fill input ofs n h).buffer.length = ctx.buffer.length + n := by
  show (ctx.buffer ++ (input.drop ofs).take n).length = _
  rw [List.length_append, List.length_take, List.length_drop]
  omega

end Update

/-! ## Runs -/

inductive Sha256Op
  | starts (is224 : Bool)
  | update (input : Bytes)
  | finish

structure Sha256State where
  port : Port
  ctx : Sha256Context
  mem : Nat → BitVec 8

def Sha256Op.call (op : Sha256Op) (tsi : Engine) (output : Nat) (s : Sha256State) :
    Int × Sha256State :=
  match op with
  | .starts is224 =>
    let r := mbedtlsSha256Starts tsi s.port s.ctx is224
    (r.1, ⟨r.2.1, r.2.2, s.mem⟩)
  | .update input =>
    let r := mbedtlsSha256Update tsi s.port s.ctx input
    (r.1, ⟨r.2.1, r.2.2, s.mem⟩)
  | .finish =>
    let r := mbedtlsSha256Finish tsi s.port s.ctx s.mem output
    (r.1, ⟨r.2.1, r.2.2.1, r.2.2.2⟩)

/-- The functions are called up to the first that fails; each call with its result and the commands
it issued. -/
def sha256Run (tsi : Engine) (output : Nat) :
    Sha256State → List Sha256Op → List (Int × List Issued) × Sha256State
  | s, [] => ([], s)
  | s, op :: ops =>
    let r := op.call tsi output s
    let call := (r.1, r.2.port.issuedSince s.port)
    if r.1 ≠ 0 then ([call], r.2)
    else
      let rest := sha256Run tsi output r.2 ops
      (call :: rest.1, rest.2)

/-- A whole digest -/
def sha256Digest (is224 : Bool) (inputs : List Bytes) : List Sha256Op :=
  .starts is224 :: (inputs.map .update ++ [.finish])

end Ma35d1.Tsi
