import Mathlib.Algebra.Order.BigOperators.Group.List
import Mathlib.Algebra.Order.Ring.Nat
import Ma35d1.Tsi.Errors

/-!
# Digests of messages in parts

Where the TSI hashes what its sessions are handed, the digest that the functions write is compared
with the hash of the whole message.
-/

namespace Ma35d1.Tsi

open Ma35d1.Machine.Copy

/-- A hash and its shorter variant -/
structure Hash where
  digest : Bool → Bytes → Bytes
  length_digest : ∀ is224 m, (digest is224 m).length = if is224 then 28 else 32

/-- What a session has been handed -/
structure ShaSession where
  is224 : Bool
  absorbed : Bytes

def shaSessionStep (sid : Nat) (s : Option ShaSession) (e : Issued) : Option ShaSession :=
  match e.cmd with
  | .openSession _ => if e.Ok ∧ e.ans.sid = sid then some ⟨false, []⟩ else s
  | .closeSession _ sid' => if sid' = sid then none else s
  | .shaStart sid' mode =>
    if sid' = sid then s.map fun _ => ⟨decide (mode = shaModeSha224), []⟩ else s
  | .shaUpdate sid' _ src =>
    if sid' = sid then s.map fun t => { t with absorbed := t.absorbed ++ src } else s
  | _ => s

/-- The session `sid` after the commands, if it is open -/
def shaSession (log : List Issued) (sid : Nat) : Option ShaSession :=
  log.foldl (shaSessionStep sid) none

/-- The TSI opens sessions, hashes full blocks and the last bytes in the mode that a session was
started with, and takes nothing for a session that is not open. -/
structure Hashes (tsi : Engine) (H : Hash) : Prop where
  opens : ∀ log, (tsi.answer log (.openSession cCodeSha)).ret = 0 ∧
    shaSession log (tsi.answer log (.openSession cCodeSha)).sid = none
  start : ∀ log sid mode, (shaSession log sid).isSome →
    (tsi.answer log (.shaStart sid mode)).ret = 0
  update : ∀ log sid src, (shaSession log sid).isSome → 64 ∣ src.length →
    (tsi.answer log (.shaUpdate sid src.length src)).ret = 0
  finish : ∀ log sid src t, shaSession log sid = some t →
    (tsi.answer log (.shaFinish sid 8 src.length src)).ret = 0 ∧
      H.digest t.is224 (t.absorbed ++ src) <+:
        (tsi.answer log (.shaFinish sid 8 src.length src)).data
  closed : ∀ log sid n src, shaSession log sid = none →
    (tsi.answer log (.shaFinish sid 8 n src)).ret ≠ 0

/-- On a context as it is, all the functions return 0 and what is written is the digest of the
message. -/
def Streams (ctx : Sha256Context) (is224 : Bool) (inputs : List Bytes) : Prop :=
  ∀ H tsi, Hashes tsi H → ∀ p mem output,
    let r := sha256Run tsi output ⟨p, ctx, mem⟩ (sha256Digest is224 inputs)
    (∀ c ∈ r.1, c.1 = 0) ∧ r.2.mem = copyTo mem output (H.digest is224 inputs.flatten)

/-- No update comes so long that `ofs` starts again from 0 while there is more to copy; `gathered`
is what has come before. -/
def NoWrap : Nat → List Nat → Prop
  | _, [] => True
  | gathered, len :: lens =>
    len ≤ 2 ^ 32 + (nuSha256BlockSize - gathered % nuSha256BlockSize) % nuSha256BlockSize ∧
      NoWrap (gathered + len) lens

/-! ## What is gathered -/

/-- What the loop of `mbedtls_sha256_update` copies, where there is room for `room` bytes -/
def readBack (input : Bytes) (ofs ilen room : Nat) : Bytes :=
  if _h : ilen ≤ room ∨ room = 0 then (input.drop ofs).take ilen
  else (input.drop ofs).take room ++
    readBack input ((ofs + room) % 2 ^ 32) (ilen - room) nuSha256BlockSize
termination_by ilen

/-- What the updates gather behind `gathered` bytes -/
def collect : Nat → List Bytes → Bytes
  | _, [] => []
  | gathered, input :: inputs =>
    readBack input 0 input.length (nuSha256BlockSize - gathered % nuSha256BlockSize) ++
      collect (gathered + input.length) inputs

section ReadBack

variable {input : Bytes} {ofs ilen room : Nat}

theorem readBack_of_le (h : ilen ≤ room) :
    readBack input ofs ilen room = (input.drop ofs).take ilen := by
  rw [readBack, dif_pos (Or.inl h)]

theorem readBack_of_lt (h : room < ilen) (h0 : 0 < room) :
    readBack input ofs ilen room = (input.drop ofs).take room ++
      readBack input ((ofs + room) % 2 ^ 32) (ilen - room) nuSha256BlockSize := by
  rw [readBack, dif_neg (by omega)]

theorem length_readBack (h0 : 0 < room) (h : ofs + ilen ≤ input.length) :
    (readBack input ofs ilen room).length = ilen := by
  induction ilen using Nat.strong_induction_on generalizing ofs room with
  | _ ilen ih =>
    by_cases hle : ilen ≤ room
    · rw [readBack_of_le hle, List.length_take, List.length_drop]
      omega
    · have hmod := Nat.mod_le (ofs + room) (2 ^ 32)
      rw [readBack_of_lt (Nat.not_le.mp hle) h0, List.length_append,
        ih (ilen - room) (by omega) (by decide) (by omega), List.length_take, List.length_drop]
      omega

/-- What is copied is the input, as long as `ofs` does not start again. -/
theorem readBack_eq (h0 : 0 < room) (hroom : room ≤ nuSha256BlockSize) (hofs : ofs < 2 ^ 32)
    (h : ofs + ilen ≤ 2 ^ 32 + (ofs + room) % nuSha256BlockSize) :
    readBack input ofs ilen room = (input.drop ofs).take ilen := by
  induction ilen using Nat.strong_induction_on generalizing ofs room with
  | _ ilen ih =>
    by_cases hle : ilen ≤ room
    · exact readBack_of_le hle
    · unfold nuSha256BlockSize at hroom h
      have hlt : ofs + room < 2 ^ 32 := by omega
      rw [readBack_of_lt (Nat.not_le.mp hle) h0, Nat.mod_eq_of_lt hlt,
        ih (ilen - room) (by omega) (by decide) (Nat.le_refl _) hlt
          (by unfold nuSha256BlockSize; omega), ← List.drop_drop, ← List.take_add]
      congr 1
      omega

theorem readBack_zero (h : 0 < ilen) (h0 : 0 < room) (hofs : ofs < input.length) :
    (readBack input ofs ilen room)[0]? = input[ofs]? := by
  have hpiece : ∀ n, 0 < n → ((input.drop ofs).take n)[0]? = input[ofs]? := fun n hn => by
    rw [List.getElem?_take_of_lt hn, List.getElem?_drop, Nat.add_zero]
  by_cases hle : ilen ≤ room
  · rw [readBack_of_le hle, hpiece ilen h]
  · rw [readBack_of_lt (Nat.not_le.mp hle) h0, List.getElem?_append_left, hpiece room h0]
    rw [List.length_take, List.length_drop]
    omega

/-- Where `ofs` starts again, the input's beginning is copied a second time. -/
theorem readBack_wrapped (input : Bytes) (ofs ilen : Nat) (h0 : 0 < room)
    (hroom : room ≤ nuSha256BlockSize) (hofs : ofs < 2 ^ 32)
    (hin : ofs + ilen ≤ input.length)
    (h : 2 ^ 32 + (ofs + room) % nuSha256BlockSize < ofs + ilen) :
    (readBack input ofs ilen room)[2 ^ 32 + (ofs + room) % nuSha256BlockSize - ofs]? =
      input[(ofs + room) % nuSha256BlockSize]? := by
  induction ilen using Nat.strong_induction_on generalizing ofs room with
  | _ ilen ih =>
    unfold nuSha256BlockSize at *
    have hgt : room < ilen := by omega
    have hfirst : ((input.drop ofs).take room).length = room := by
      rw [List.length_take, List.length_drop]
      omega
    rw [readBack_of_lt hgt h0, List.getElem?_append_right (by omega), hfirst]
    unfold nuSha256BlockSize
    by_cases hlt : ofs + room < 2 ^ 32
    · have hsame : (ofs + room + 4096) % 4096 = (ofs + room) % 4096 := Nat.add_mod_right _ _
      have hih := ih (ilen - room) (by omega) (ofs + room) (by decide) (Nat.le_refl 4096) hlt
        (by omega) (by omega)
      rw [hsame] at hih
      rw [Nat.mod_eq_of_lt hlt, Nat.sub_sub]
      exact hih
    · have hwrap : (ofs + room) % 2 ^ 32 = (ofs + room) % 4096 := by omega
      have hpos : 2 ^ 32 + (ofs + room) % 4096 - ofs - room = 0 := by omega
      rw [hwrap, hpos]
      exact readBack_zero (by omega) (by decide) (by omega)

end ReadBack

/-! ## A digest -/

/-- The session has been handed whole blocks, which with the buffer are the bytes gathered. -/
def Holds (p : Port) (ctx : Sha256Context) (is224 : Bool) (gathered : Bytes) : Prop :=
  ∃ absorbed, shaSession p.log ctx.sid = some ⟨is224, absorbed⟩ ∧
    absorbed ++ ctx.buffer = gathered ∧ nuSha256BlockSize ∣ absorbed.length

/-- Where anything has been gathered, there is something in the buffer. -/
structure Gathered (p : Port) (ctx : Sha256Context) (is224 : Bool) (gathered : Bytes) : Prop where
  holds : Holds p ctx is224 gathered
  rest : ctx.buffer = [] → gathered = []

/-- What the memory is after `mbedtls_sha256_finish` -/
def Written (tsi : Engine) (output : Nat) (is224 : Bool) (mem : Nat → BitVec 8) (gathered : Bytes)
    (mem' : Nat → BitVec 8) : Prop :=
  if gathered = [] then mem' = mem
  else ∃ log sid src absorbed, shaSession log sid = some ⟨is224, absorbed⟩ ∧
    absorbed ++ src = gathered ∧
    mem' = copyTo mem output (tsi.answer log (.shaFinish sid 8 src.length src)).data

section Gather

variable {tsi : Engine} {H : Hash} {p : Port} {ctx : Sha256Context} {is224 : Bool}
  {gathered input : Bytes} {inputs : List Bytes} {ofs ilen output : Nat} {mem : Nat → BitVec 8}

theorem shaSession_append {log : List Issued} {e : Issued} {sid : Nat} :
    shaSession (log ++ [e]) sid = shaSessionStep sid (shaSession log sid) e := by
  rw [shaSession, List.foldl_append]
  rfl

theorem mod_length_of_holds (h : Holds p ctx is224 gathered) :
    gathered.length % nuSha256BlockSize = ctx.buffer.length % nuSha256BlockSize := by
  obtain ⟨absorbed, -, rfl, k, hk⟩ := h
  rw [List.length_append, hk, Nat.mul_add_mod]

theorem room_of_lt (h : ctx.buffer.length < nuSha256BlockSize) :
    nuSha256BlockSize - ctx.buffer.length % nuSha256BlockSize =
      nuSha256BlockSize - ctx.buffer.length := by
  rw [Nat.mod_eq_of_lt h]

theorem updateLoop_holds (h : Hashes tsi H) (hin : ofs + ilen ≤ input.length)
    (hholds : Holds p ctx is224 gathered) :
    let r := sha256UpdateLoop tsi input p ctx ofs ilen
    r.1 = 0 ∧ Holds r.2.1 r.2.2 is224 (gathered ++ readBack input ofs ilen
      (nuSha256BlockSize - ctx.buffer.length % nuSha256BlockSize)) := by
  induction p, ctx, ofs, ilen using sha256UpdateLoop.induct tsi input generalizing gathered with
  | case1 p ctx ofs =>
    rw [updateLoop_zero, readBack_of_le (Nat.zero_le _), List.take_zero, List.append_nil]
    exact ⟨rfl, hholds⟩
  | case2 p ctx ofs ilen h0 hfull hfail =>
    obtain ⟨absorbed, hses, -⟩ := hholds
    have hlen : ctx.buffer.length = nuSha256BlockSize := Nat.le_antisymm ctx.buffer_le hfull
    have hok := h.update p.log ctx.sid ctx.buffer (by rw [hses]; rfl) (by rw [hlen]; decide)
    rw [hlen] at hok
    exact absurd hok hfail
  | case3 p ctx ofs ilen h0 hfull hok ih =>
    rw [updateLoop_flush h0 hfull (not_not.mp hok)]
    have hlen : ctx.buffer.length = nuSha256BlockSize := Nat.le_antisymm ctx.buffer_le hfull
    obtain ⟨absorbed, hses, rfl, hdvd⟩ := hholds
    have hnext := @ih (absorbed ++ ctx.buffer) hin ⟨absorbed ++ ctx.buffer, ?_, ?_, ?_⟩
    · rw [hlen, Nat.mod_self]
      exact hnext
    · have hsid : ctx.clear.sid = ctx.sid := rfl
      rw [log_send, shaSession_append, hsid, hses]
      exact if_pos rfl
    · exact List.append_nil _
    · rw [List.length_append, hlen]
      exact Nat.dvd_add hdvd (Nat.dvd_refl _)
  | case4 p ctx ofs ilen h0 hfull hmore n =>
    rename_i ih
    have hlt := Nat.not_le.mp hfull
    have hmod := Nat.mod_le (ofs + n) (2 ^ 32)
    have hlen := length_fill (show ctx.buffer.length + n ≤ _ by omega)
      (show ofs + n ≤ input.length by omega)
    rw [updateLoop_fill hlt hmore, room_of_lt hlt, readBack_of_lt hmore (by omega)]
    obtain ⟨absorbed, hses, rfl, hdvd⟩ := hholds
    have hnext := @ih (absorbed ++ ctx.buffer ++ (input.drop ofs).take n) (by omega)
      ⟨absorbed, hses, (List.append_assoc ..).symm, hdvd⟩
    rw [hlen, show ctx.buffer.length + n = nuSha256BlockSize by omega, Nat.mod_self] at hnext
    rw [← List.append_assoc]
    exact hnext
  | case5 p ctx ofs ilen h0 hfull hmore =>
    have hlt := Nat.not_le.mp hfull
    rw [updateLoop_rest h0 hlt (Nat.not_lt.mp hmore), room_of_lt hlt,
      readBack_of_le (Nat.not_lt.mp hmore)]
    obtain ⟨absorbed, hses, rfl, hdvd⟩ := hholds
    exact ⟨rfl, absorbed, hses, (List.append_assoc ..).symm, hdvd⟩

theorem update_gathered (h : Hashes tsi H) (input : Bytes) (hg : Gathered p ctx is224 gathered) :
    let r := mbedtlsSha256Update tsi p ctx input
    r.1 = 0 ∧ Gathered r.2.1 r.2.2 is224 (gathered ++ readBack input 0 input.length
      (nuSha256BlockSize - gathered.length % nuSha256BlockSize)) := by
  have hin : 0 + input.length ≤ input.length := Nat.le_of_eq (Nat.zero_add _)
  obtain ⟨hret, hholds⟩ := updateLoop_holds h hin hg.holds
  obtain ⟨new, hran⟩ := update_ran tsi p ctx input
  rw [mod_length_of_holds hg.holds]
  refine ⟨hret, hholds, fun hnil => ?_⟩
  obtain ⟨hbuffer, hlen⟩ := (hran.filled hret).mp hnil
  rw [hg.rest hbuffer, hlen, readBack_of_le (Nat.zero_le _), List.take_zero]
  rfl

theorem finish_nil (hnil : ctx.buffer = []) :
    mbedtlsSha256Finish tsi p ctx mem output = (0, p, ctx, mem) := by
  rw [mbedtlsSha256Finish, if_neg (by rw [hnil]; decide)]

theorem finish_fail (hne : ctx.buffer ≠ []) (hfail : (tsi.ask p ctx.finishCmd).ret ≠ 0) :
    (mbedtlsSha256Finish tsi p ctx mem output).1 ≠ 0 := by
  rw [mbedtlsSha256Finish, if_pos (List.length_pos_iff.mpr hne)]
  simp only [if_pos hfail]
  exact accelFailed_ne

theorem finish_ok (mem : Nat → BitVec 8) (output : Nat) (hne : ctx.buffer ≠ [])
    (hok : (tsi.ask p ctx.finishCmd).ret = 0) :
    ∃ q a, q.log = p.log ++ [⟨ctx.finishCmd, tsi.ask p ctx.finishCmd⟩] ++
        [⟨.closeSession cCodeSha ctx.sid, a⟩] ∧
      mbedtlsSha256Finish tsi p ctx mem output =
        (0, q, ctx.clear, copyTo mem output (tsi.ask p ctx.finishCmd).data) := by
  have hdata : (tsi.ask p ctx.finishCmd).data.length = 32 := tsi.finish_length _ _ 8 _ _ hok
  rw [mbedtlsSha256Finish, if_pos (List.length_pos_iff.mpr hne)]
  simp only [if_neg (not_not.mpr hok)]
  refine ⟨_, _, log_send, Prod.ext rfl (Prod.ext rfl (Prod.ext rfl ?_))⟩
  show copyTo mem output (copyFrom (copyTo _ 0 _) 0 32) = _
  rw [copyFrom_copyTo hdata]

theorem finish_written (h : Hashes tsi H) (mem : Nat → BitVec 8) (output : Nat)
    (hg : Gathered p ctx is224 gathered) :
    let r := mbedtlsSha256Finish tsi p ctx mem output
    r.1 = 0 ∧ Written tsi output is224 mem gathered r.2.2.2 := by
  by_cases hnil : ctx.buffer = []
  · rw [finish_nil hnil]
    exact ⟨rfl, (if_pos (hg.rest hnil)).mpr rfl⟩
  · obtain ⟨absorbed, hses, rfl, -⟩ := hg.holds
    obtain ⟨q, a, -, heq⟩ := finish_ok mem output hnil
      (h.finish p.log ctx.sid ctx.buffer _ hses).1
    rw [heq]
    refine ⟨rfl, ?_⟩
    rw [Written, if_neg fun happ => hnil (List.append_eq_nil_iff.mp happ).2]
    exact ⟨p.log, ctx.sid, ctx.buffer, absorbed, hses, rfl, rfl⟩

/-- The updates and `mbedtls_sha256_finish` -/
theorem updates_written (h : Hashes tsi H) (output : Nat) (inputs : List Bytes)
    (s : Sha256State)
    (hg : Gathered s.port s.ctx is224 gathered) :
    let r := sha256Run tsi output s (inputs.map .update ++ [.finish])
    (∀ c ∈ r.1, c.1 = 0) ∧
      Written tsi output is224 s.mem (gathered ++ collect gathered.length inputs) r.2.mem := by
  induction inputs generalizing s gathered with
  | nil =>
    obtain ⟨hret, hw⟩ := finish_written h s.mem output hg
    obtain ⟨new, hlog⟩ := log_call tsi output s .finish
    have hret : (Sha256Op.finish.call tsi output s).1 = 0 := hret
    rw [List.map_nil, List.nil_append, sha256Run_cons .finish hret hlog, collect, List.append_nil]
    exact ⟨List.forall_mem_singleton.mpr rfl, hw⟩
  | cons input inputs ih =>
    obtain ⟨hret, hnext⟩ := update_gathered h input hg
    obtain ⟨new, hlog⟩ := log_call tsi output s (.update input)
    have hret : ((Sha256Op.update input).call tsi output s).1 = 0 := hret
    have hlen : (readBack input 0 input.length
        (nuSha256BlockSize - gathered.length % nuSha256BlockSize)).length = input.length :=
      length_readBack (Nat.sub_pos_of_lt (Nat.mod_lt _ (by decide)))
        (Nat.le_of_eq (Nat.zero_add _))
    obtain ⟨hall, hw⟩ := ih ((Sha256Op.update input).call tsi output s).2 hnext
    rw [List.map_cons, List.cons_append, sha256Run_cons (.update input) hret hlog, collect,
      ← List.append_assoc]
    rw [List.length_append, hlen] at hw
    exact ⟨List.forall_mem_cons.mpr ⟨rfl, hall⟩, hw⟩

theorem starts_gathered (h : Hashes tsi H) (p : Port) (ctx : Sha256Context) (is224 : Bool) :
    let r := mbedtlsSha256Starts tsi p ctx is224
    r.1 = 0 ∧ Gathered r.2.1 r.2.2 is224 ctx.buffer := by
  obtain ⟨hopen, hnone⟩ := h.opens p.log
  have hask : (tsi.ask p (.openSession cCodeSha)).ret = 0 := hopen
  unfold mbedtlsSha256Starts
  simp only [hask, ne_eq, not_true_eq_false, if_false]
  generalize hsid : (tsi.ask p (.openSession cCodeSha)).sid = sid
  generalize hcmd :
    TsiCmd.shaStart sid (if is224 = true then shaModeSha224 else shaModeSha256) = cmd
  have hopened : shaSession (tsi.send p (.openSession cCodeSha)).log sid = some ⟨false, []⟩ := by
    rw [log_send, shaSession_append]
    exact if_pos ⟨hopen, hsid⟩
  have hok : (tsi.ask (tsi.send p (.openSession cCodeSha)) cmd).ret = 0 := by
    rw [← hcmd]
    exact h.start _ sid _ (by rw [hopened]; rfl)
  refine ⟨hok, ⟨[], ?_, List.nil_append _, Nat.dvd_zero _⟩, id⟩
  show shaSession (tsi.send (tsi.send p (.openSession cCodeSha)) cmd).log sid = _
  rw [log_send, shaSession_append, hopened, ← hcmd]
  cases is224 <;> exact if_pos rfl

/-- What was left in the buffer comes in front of the message. -/
theorem digest_written (h : Hashes tsi H) (p : Port) (ctx : Sha256Context)
    (mem : Nat → BitVec 8) (output : Nat) (is224 : Bool) (inputs : List Bytes) :
    let r := sha256Run tsi output ⟨p, ctx, mem⟩ (sha256Digest is224 inputs)
    (∀ c ∈ r.1, c.1 = 0) ∧
      Written tsi output is224 mem (ctx.buffer ++ collect ctx.buffer.length inputs) r.2.mem := by
  obtain ⟨hret, hg⟩ := starts_gathered h p ctx is224
  obtain ⟨new, hlog⟩ := log_call tsi output ⟨p, ctx, mem⟩ (.starts is224)
  have hret : ((Sha256Op.starts is224).call tsi output ⟨p, ctx, mem⟩).1 = 0 := hret
  obtain ⟨hall, hw⟩ := updates_written h output inputs
    ((Sha256Op.starts is224).call tsi output ⟨p, ctx, mem⟩).2 hg
  rw [sha256Digest, sha256Run_cons (.starts is224) hret hlog]
  exact ⟨List.forall_mem_cons.mpr ⟨rfl, hall⟩, hw⟩

end Gather

/-! ## A TSI that hashes -/

/-- A hash that tells one message from the others -/
def markHash (target : Bytes) : Hash where
  digest is224 m := List.replicate (if is224 then 28 else 32) (if m = target then 2 else 3)
  length_digest _ _ := List.length_replicate

/-- A session id that has not been given out -/
def freshSid (log : List Issued) : Nat := (log.map (·.ans.sid)).sum + 1

/-- `ST_INVALID_SESSION_ID` -/
def stInvalidSession : Int := 0x13

/-- The digest, filled up to as many words as are asked for -/
def shaFinishAnswer (H : Hash) (wcnt : Nat) (src : Bytes) : Option ShaSession → Answer
  | none => ⟨stInvalidSession, 0, []⟩
  | some t => ⟨0, 0,
    (H.digest t.is224 (t.absorbed ++ src) ++ List.replicate (4 * wcnt) 0).take (4 * wcnt)⟩

def shaTsi (H : Hash) : Engine where
  answer log cmd :=
    match cmd with
    | .openSession _ => ⟨0, freshSid log, []⟩
    | .aesRun _ n _ => ⟨0, 0, List.replicate n.toNat 0⟩
    | .shaFinish sid wcnt _ src => shaFinishAnswer H wcnt src (shaSession log sid)
    | _ => ⟨0, 0, []⟩
  run_length _ _ _ _ _ := List.length_replicate
  finish_length log sid wcnt n src h := by
    change (shaFinishAnswer H wcnt src (shaSession log sid)).ret = 0 at h
    show (shaFinishAnswer H wcnt src (shaSession log sid)).data.length = 4 * wcnt
    cases hses : shaSession log sid with
    | none =>
      rw [hses] at h
      exact absurd h (show stInvalidSession ≠ 0 by decide)
    | some t =>
      rw [shaFinishAnswer, List.length_take, List.length_append, List.length_replicate]
      omega
  uninit _ := 0

section Engine

variable {H : Hash} {log new : List Issued} {sid : Nat}

/-- The command has opened the session. -/
def Issued.Opens (e : Issued) (sid : Nat) : Prop :=
  (∃ c, e.cmd = .openSession c) ∧ e.ans.sid = sid

/-- A session that is not open stays so until it is opened. -/
theorem shaSession_none (h : shaSession log sid = none) (hnew : ∀ e ∈ new, ¬ e.Opens sid) :
    shaSession (log ++ new) sid = none := by
  induction new generalizing log with
  | nil => rwa [List.append_nil]
  | cons e new ih =>
    rw [List.append_cons]
    refine ih ?_ fun f hf => hnew f (List.mem_cons_of_mem e hf)
    have he := hnew e List.mem_cons_self
    rw [shaSession_append, h]
    unfold shaSessionStep
    split
    · rename_i c hcmd
      exact if_neg fun hopen => he ⟨⟨c, hcmd⟩, hopen.2⟩
    all_goals first | rfl | exact ite_self none

theorem shaSession_freshSid : shaSession log (freshSid log) = none := by
  refine shaSession_none (show shaSession [] (freshSid log) = none from rfl) fun e he hopen => ?_
  have hle := List.le_sum_of_mem (List.mem_map_of_mem (f := (·.ans.sid)) he)
  rw [hopen.2, freshSid] at hle
  exact Nat.not_succ_le_self _ hle

theorem finish_shaTsi {t : ShaSession} {src : Bytes} {n : Nat} (h : shaSession log sid = some t) :
    (shaTsi H).answer log (.shaFinish sid 8 n src) = ⟨0, 0,
      H.digest t.is224 (t.absorbed ++ src) ++ List.replicate (if t.is224 then 4 else 0) 0⟩ := by
  show shaFinishAnswer H 8 src (shaSession log sid) = _
  rw [h, shaFinishAnswer]
  have hlen := H.length_digest t.is224 (t.absorbed ++ src)
  cases ht : t.is224
  · rw [ht] at hlen
    rw [show 4 * 8 = (H.digest false (t.absorbed ++ src)).length from hlen.symm, List.take_left]
    exact congrArg _ (List.append_nil _).symm
  · rw [ht] at hlen
    rw [List.take_append, List.take_of_length_le (by rw [hlen]; decide), hlen]
    rfl

theorem hashes_shaTsi (H : Hash) : Hashes (shaTsi H) H where
  opens log := ⟨rfl, shaSession_freshSid⟩
  start _ _ _ _ := rfl
  update _ _ _ _ _ := rfl
  finish log sid src t h := by
    rw [finish_shaTsi h]
    exact ⟨rfl, List.prefix_append _ _⟩
  closed log sid n src h := by
    show (shaFinishAnswer H 8 src (shaSession log sid)).ret ≠ 0
    rw [h, shaFinishAnswer]
    decide

end Engine

/-! ## Exact conditions -/

section Exact

variable {ctx : Sha256Context} {is224 : Bool} {inputs : List Bytes} {lens : List Nat} {g : Nat}

theorem length_collect : (collect g inputs).length = inputs.flatten.length := by
  induction inputs generalizing g with
  | nil => rfl
  | cons input inputs ih =>
    rw [collect, List.length_append, ih, List.flatten_cons, List.length_append,
      length_readBack (Nat.sub_pos_of_lt (Nat.mod_lt _ (by decide)))
        (Nat.le_of_eq (Nat.zero_add _))]

theorem streams_of_collect (hbuffer : ctx.buffer = []) (hne : inputs.flatten ≠ [])
    (hcollect : collect 0 inputs = inputs.flatten) : Streams ctx false inputs := by
  intro H tsi h p mem output
  obtain ⟨hall, hw⟩ := digest_written h p ctx mem output false inputs
  refine ⟨hall, ?_⟩
  rw [hbuffer, List.nil_append, List.length_nil, hcollect, Written, if_neg hne] at hw
  obtain ⟨log, sid, src, absorbed, hses, heq, hmem⟩ := hw
  obtain ⟨hok, hprefix⟩ := h.finish log sid src _ hses
  have hdata := tsi.finish_length log sid 8 src.length src hok
  have hlen := H.length_digest false (absorbed ++ src)
  have hsame := hprefix.eq_of_length (hlen.trans hdata.symm)
  rw [hmem, ← hsame, heq]

theorem collect_of_streams (h : Streams ctx is224 inputs) :
    is224 = false ∧ ctx.buffer = [] ∧ inputs.flatten ≠ [] ∧
      collect 0 inputs = inputs.flatten := by
  -- the memory holds ones, the digest of the message consists of twos, and zeros fill it up
  let H := markHash inputs.flatten
  let p : Port := ⟨[], fun _ => 0, fun _ => 0, fun _ => 0, false⟩
  obtain ⟨-, hmem⟩ := h H (shaTsi H) (hashes_shaTsi H) p (fun _ => 1) 0
  obtain ⟨-, hw⟩ := digest_written (hashes_shaTsi H) p ctx (fun _ => 1) 0 is224 inputs
  rw [hmem, Written] at hw
  have hbyte : copyTo (fun _ => 1) 0 (H.digest is224 inputs.flatten) 0 = 2 := by
    show copyTo _ 0 (List.replicate _ (if inputs.flatten = inputs.flatten then 2 else 3)) 0 = 2
    rw [if_pos rfl]
    cases is224 <;> rfl
  split at hw
  · rw [hw] at hbyte
    exact absurd hbyte (by decide)
  · rename_i hne
    obtain ⟨log, sid, src, absorbed, hses, heq, hdata⟩ := hw
    rw [finish_shaTsi hses, heq] at hdata
    have hfirst : copyTo (fun _ => 1) 0 (H.digest is224 (ctx.buffer ++
        collect ctx.buffer.length inputs) ++ List.replicate (if is224 then 4 else 0) 0) 0 =
        if ctx.buffer ++ collect ctx.buffer.length inputs = inputs.flatten then 2 else 3 := by
      cases is224 <;> rfl
    rw [← hdata, hbyte] at hfirst
    have hsame : ctx.buffer ++ collect ctx.buffer.length inputs = inputs.flatten := by
      by_contra hnot
      rw [if_neg hnot] at hfirst
      exact absurd hfirst (by decide)
    have hlen := congrArg List.length hsame
    rw [List.length_append, length_collect] at hlen
    have hbuffer : ctx.buffer = [] := List.eq_nil_of_length_eq_zero (by omega)
    refine ⟨?_, hbuffer, hsame ▸ hne, ?_⟩
    · cases is224 with
      | false => rfl
      | true => exact absurd (congrFun hdata 28) (by decide : (1 : BitVec 8) ≠ 0)
    · rwa [hbuffer] at hsame

theorem collect_eq_flatten (h : NoWrap g (inputs.map List.length)) :
    collect g inputs = inputs.flatten := by
  induction inputs generalizing g with
  | nil => rfl
  | cons input inputs ih =>
    obtain ⟨hfits, hrest⟩ := h
    have hpos : 0 < nuSha256BlockSize - g % nuSha256BlockSize :=
      Nat.sub_pos_of_lt (Nat.mod_lt _ (by decide))
    rw [collect, ih hrest, readBack_eq hpos (Nat.sub_le _ _) (by decide) (by
      rw [Nat.zero_add, Nat.zero_add]
      exact hfits), List.drop_zero, List.take_length, List.flatten_cons]

/-- Parts of any lengths -/
theorem map_length_zeros (lens : List Nat) :
    (lens.map fun n => List.replicate n (0 : BitVec 8)).map List.length = lens := by
  rw [List.map_map]
  exact (List.map_congr_left fun n _ => List.length_replicate).trans (List.map_id lens)

/-- Where it holds of all messages in parts of these lengths, no part is too long. -/
theorem noWrap_of_collect (h : ∀ inputs : List Bytes, inputs.map List.length = lens →
    collect g inputs = inputs.flatten) : NoWrap g lens := by
  induction lens generalizing g with
  | nil => trivial
  | cons len lens ih =>
    have hpos : 0 < nuSha256BlockSize - g % nuSha256BlockSize :=
      Nat.sub_pos_of_lt (Nat.mod_lt _ (by decide))
    have hsplit : ∀ (input : Bytes) (inputs : List Bytes), input.length = len →
        inputs.map List.length = lens →
        readBack input 0 input.length (nuSha256BlockSize - g % nuSha256BlockSize) = input ∧
          collect (g + len) inputs = inputs.flatten := by
      intro input inputs hinput hinputs
      have heq := h (input :: inputs) (by rw [List.map_cons, hinput, hinputs])
      rw [collect, List.flatten_cons] at heq
      rw [← hinput]
      exact List.append_inj heq (length_readBack hpos (Nat.le_of_eq (Nat.zero_add _)))
    have hzeros := map_length_zeros lens
    refine ⟨Nat.not_lt.mp fun hlong => ?_, ih fun inputs hinputs =>
      (hsplit (List.replicate len 0) inputs List.length_replicate hinputs).2⟩
    -- the byte that is copied twice is the only one that is not zero
    obtain ⟨c, hc⟩ : ∃ c, c = (nuSha256BlockSize - g % nuSha256BlockSize) % nuSha256BlockSize :=
      ⟨_, rfl⟩
    let input : Bytes := (List.range len).map fun i => if i = c then 1 else 0
    have hinput : input.length = len := by rw [List.length_map, List.length_range]
    have hget : ∀ i, i < len → input[i]? = some (if i = c then 1 else 0) := fun i hi => by
      rw [List.getElem?_map, List.getElem?_range hi]
      rfl
    have heq := (hsplit input _ hinput hzeros).1
    have hwrap := readBack_wrapped input 0 input.length hpos
      (Nat.sub_le _ _) (by decide) (Nat.le_of_eq (Nat.zero_add _)) (by
        rw [hinput, Nat.zero_add, Nat.zero_add]
        exact hlong)
    rw [heq, Nat.zero_add, Nat.sub_zero, ← hc, hget _ (by omega), hget c (by omega), if_pos rfl,
      if_neg (by omega)] at hwrap
    exact absurd hwrap (by decide)

theorem streams_iff : (∀ inputs, inputs.map List.length = lens → Streams ctx is224 inputs) ↔
    is224 = false ∧ ctx.buffer = [] ∧ 0 < lens.sum ∧ NoWrap 0 lens := by
  constructor
  · intro h
    have hexact := fun inputs hlens => collect_of_streams (h inputs hlens)
    have hzeros := map_length_zeros lens
    obtain ⟨h224, hbuffer, hne, -⟩ := hexact _ hzeros
    refine ⟨h224, hbuffer, ?_, noWrap_of_collect fun inputs hlens => (hexact inputs hlens).2.2.2⟩
    rw [← List.length_pos_iff, List.length_flatten, hzeros] at hne
    exact hne
  · rintro ⟨rfl, hbuffer, hsum, hwrap⟩ inputs rfl
    refine streams_of_collect hbuffer ?_ (collect_eq_flatten hwrap)
    rwa [← List.length_pos_iff, List.length_flatten]

end Exact

/-! ## Clones -/

/-- `mbedtls_sha256_clone` -/
def mbedtlsSha256Clone (src : Sha256Context) : Sha256Context := src

structure CloneState where
  port : Port
  ctx : Bool → Sha256Context
  mem : Nat → BitVec 8

/-- A call on one of the two contexts -/
def CloneState.call (tsi : Engine) (output : Bool → Nat) (s : CloneState) (b : Bool)
    (op : Sha256Op) : Int × CloneState :=
  let r := op.call tsi (output b) ⟨s.port, s.ctx b, s.mem⟩
  (r.1, ⟨r.2.port, Function.update s.ctx b r.2.ctx, r.2.mem⟩)

/-- The functions are called up to the first that fails, each on one of the two contexts. -/
def cloneRun (tsi : Engine) (output : Bool → Nat) :
    CloneState → List (Bool × Sha256Op) → List Int × CloneState
  | s, [] => ([], s)
  | s, (b, op) :: ops =>
    let r := s.call tsi output b op
    if r.1 ≠ 0 then ([r.1], r.2)
    else
      let rest := cloneRun tsi output r.2 ops
      (r.1 :: rest.1, rest.2)

/-- Each of the two messages is continued and finished, in any order. -/
def Continues (ops : List (Bool × Sha256Op)) (inputs : Bool → List Bytes) : Prop :=
  ∀ b, (ops.filter fun op => op.1 = b).map (·.2) = (inputs b).map .update ++ [.finish]

/-- All the functions return 0, and what is written are the digests of the two messages. -/
def ClonesStream (is224 : Bool) (inputs : List Bytes) (ops : List (Bool × Sha256Op))
    (rest : Bool → List Bytes) : Prop :=
  ∀ H tsi, Hashes tsi H → ∀ p ctx mem, ctx.buffer = [] → ∀ output : Bool → Nat,
    (output false + 32 ≤ output true ∨ output true + 32 ≤ output false) →
    let r := sha256Run tsi (output false) ⟨p, ctx, mem⟩ (.starts is224 :: inputs.map .update)
    let t := cloneRun tsi output ⟨r.2.port,
      fun b => if b then mbedtlsSha256Clone r.2.ctx else r.2.ctx, r.2.mem⟩ ops
    (∀ c ∈ r.1, c.1 = 0) ∧ (∀ ret ∈ t.1, ret = 0) ∧
      t.2.mem = copyTo (copyTo mem (output false)
        (H.digest is224 (inputs ++ rest false).flatten)) (output true)
        (H.digest is224 (inputs ++ rest true).flatten)

section Clones

variable {tsi : Engine} {H : Hash} {output : Bool → Nat} {s : CloneState} {b : Bool}
  {op : Sha256Op} {ops : List (Bool × Sha256Op)} {sid : Nat}

theorem cloneRun_cons (h : ∀ ret ∈ (cloneRun tsi output s ((b, op) :: ops)).1, ret = 0) :
    (s.call tsi output b op).1 = 0 ∧
      (∀ ret ∈ (cloneRun tsi output (s.call tsi output b op).2 ops).1, ret = 0) ∧
      (cloneRun tsi output s ((b, op) :: ops)).2 =
        (cloneRun tsi output (s.call tsi output b op).2 ops).2 := by
  rw [cloneRun] at h ⊢
  simp only at h ⊢
  split at h
  · rename_i hret
    exact absurd (h _ (List.mem_singleton_self _)) hret
  · rename_i hret
    rw [if_neg hret]
    exact ⟨not_not.mp hret, fun ret hmem => h ret (List.mem_cons_of_mem _ hmem), rfl⟩

/-- Both contexts are in session `sid`. -/
def CloneState.In (s : CloneState) (sid : Nat) : Prop := ∀ b, (s.ctx b).sid = sid

/-- Updates and the end of a message -/
def Sha256Op.Goes : Sha256Op → Prop
  | .starts _ => False
  | _ => True

/-- What a call does, as long as it returns 0 -/
structure Stepped (output : Bool → Nat) (sid : Nat) (b : Bool) (s s' : CloneState) : Prop where
  same : s'.In sid
  closed : shaSession s.port.log sid = none →
    shaSession s'.port.log sid = none ∧ s'.mem = s.mem
  wrote : s'.mem = s.mem ∨ shaSession s'.port.log sid = none ∧
    ∀ k, ¬ (output b ≤ k ∧ k < output b + 32) → s'.mem k = s.mem k

theorem in_update {ctx : Sha256Context} {p : Port} {mem : Nat → BitVec 8} (hs : s.In sid)
    (h : ctx.sid = sid) : (CloneState.mk p (Function.update s.ctx b ctx) mem).In sid := by
  intro c
  show (Function.update s.ctx b ctx c).sid = sid
  by_cases hc : c = b
  · rw [hc, Function.update_self, h]
  · rw [Function.update_of_ne hc, hs c]

theorem inner_not_opens {e : Issued} (h : e.cmd.Inner) : ¬ e.Opens sid := by
  rintro ⟨⟨c, hcmd⟩, -⟩
  rw [hcmd] at h
  exact h

theorem call_stepped (h : Hashes tsi H) (hs : s.In sid) (hop : op.Goes)
    (hret : (s.call tsi output b op).1 = 0) :
    Stepped output sid b s (s.call tsi output b op).2 := by
  cases op with
  | starts is224 => exact hop.elim
  | update input =>
    obtain ⟨new, hran⟩ := update_ran tsi s.port (s.ctx b) input
    have hlog : (s.call tsi output b (.update input)).2.port.log = s.port.log ++ new := hran.log
    refine ⟨in_update hs (hran.sid.trans (hs b)), fun hclosed => ⟨?_, rfl⟩, .inl rfl⟩
    rw [hlog]
    exact shaSession_none hclosed fun e he => inner_not_opens (hran.inner e he)
  | finish =>
    by_cases hnil : (s.ctx b).buffer = []
    · unfold CloneState.call Sha256Op.call
      rw [finish_nil hnil]
      exact ⟨in_update hs (hs b), fun hclosed => ⟨hclosed, rfl⟩, .inl rfl⟩
    · by_cases hok : (tsi.ask s.port (s.ctx b).finishCmd).ret = 0
      · have hdata := tsi.finish_length _ _ 8 _ _ hok
        obtain ⟨q, a, hlog, heq⟩ := finish_ok s.mem (output b) hnil hok
        have hq : shaSession q.log sid = none := by
          rw [hlog, shaSession_append]
          exact if_pos (hs b)
        unfold CloneState.call Sha256Op.call
        rw [heq]
        refine ⟨in_update hs (hs b), fun hclosed => ?_, .inr ⟨hq, fun k hk => ?_⟩⟩
        · rw [← hs b] at hclosed
          exact absurd hok (h.closed s.port.log _ _ _ hclosed)
        · exact copyTo_of_not fun hin => hk ⟨hin.1, hin.2.trans_eq (by
            rw [show (tsi.ask s.port (s.ctx b).finishCmd).data.length = 32 from hdata])⟩
      · exact absurd hret (finish_fail hnil hok)

/-- Once the session is closed nothing more is written. -/
theorem mem_of_closed (h : Hashes tsi H) (hs : s.In sid) (hops : ∀ op ∈ ops, op.2.Goes)
    (hclosed : shaSession s.port.log sid = none)
    (hall : ∀ ret ∈ (cloneRun tsi output s ops).1, ret = 0) :
    (cloneRun tsi output s ops).2.mem = s.mem := by
  induction ops generalizing s with
  | nil => rfl
  | cons op ops ih =>
    obtain ⟨hret, hrest, heq⟩ := cloneRun_cons hall
    have hstep := call_stepped h hs (hops op List.mem_cons_self) hret
    obtain ⟨hnext, hmem⟩ := hstep.closed hclosed
    rw [heq, ih hstep.same (fun f hf => hops f (List.mem_cons_of_mem op hf)) hnext hrest, hmem]

/-- One of the two digests is not written. -/
theorem one_unwritten (h : Hashes tsi H) (hs : s.In sid) (hops : ∀ op ∈ ops, op.2.Goes)
    (hapart : output false + 32 ≤ output true ∨ output true + 32 ≤ output false)
    (hall : ∀ ret ∈ (cloneRun tsi output s ops).1, ret = 0) :
    ∃ b, (cloneRun tsi output s ops).2.mem (output b) = s.mem (output b) := by
  induction ops generalizing s with
  | nil => exact ⟨false, rfl⟩
  | cons op ops ih =>
    obtain ⟨hret, hrest, heq⟩ := cloneRun_cons hall
    have hstep := call_stepped h hs (hops op List.mem_cons_self) hret
    have hops' : ∀ op ∈ ops, op.2.Goes := fun f hf => hops f (List.mem_cons_of_mem op hf)
    rcases hstep.wrote with hmem | ⟨hclosed, hmem⟩
    · obtain ⟨b, hb⟩ := ih hstep.same hops' hrest
      exact ⟨b, by rw [heq, hb, hmem]⟩
    · refine ⟨!op.1, ?_⟩
      rw [heq, mem_of_closed h hstep.same hops' hclosed hrest]
      refine hmem _ ?_
      cases op.1 <;> simp only [Bool.not_true, Bool.not_false] <;> omega

/-- Nothing is written before `mbedtls_sha256_finish`. -/
theorem mem_sha256Run (tsi : Engine) (output : Nat) (s : Sha256State) {calls : List Sha256Op}
    (h : Sha256Op.finish ∉ calls) : (sha256Run tsi output s calls).2.mem = s.mem := by
  induction calls generalizing s with
  | nil => rfl
  | cons op calls ih =>
    have hrest : Sha256Op.finish ∉ calls := fun hin => h (List.mem_cons_of_mem op hin)
    have hmem : (op.call tsi output s).2.mem = s.mem := by
      cases op with
      | starts is224 => rfl
      | update input => rfl
      | finish => exact absurd List.mem_cons_self h
    rw [sha256Run]
    simp only
    split
    · exact hmem
    · exact (ih _ hrest).trans hmem

theorem not_clonesStream {is224 : Bool} {inputs : List Bytes} {rest : Bool → List Bytes}
    (hcont : Continues ops rest) : ¬ ClonesStream is224 inputs ops rest := by
  intro h
  have hops : ∀ op ∈ ops, op.2.Goes := by
    intro op hop
    have hmem : op.2 ∈ (ops.filter fun f => f.1 = op.1).map (·.2) :=
      List.mem_map_of_mem (List.mem_filter.mpr ⟨hop, decide_eq_true rfl⟩)
    rw [hcont op.1, List.mem_append, List.mem_map, List.mem_singleton] at hmem
    rcases hmem with ⟨input, -, hinput⟩ | hfinish
    · rw [← hinput]
      trivial
    · rw [hfinish]
      trivial
  -- the memory holds ones, and the digests consist of twos or threes
  let output : Bool → Nat := fun b => if b then 32 else 0
  let H := markHash []
  let p : Port := ⟨[], fun _ => 0, fun _ => 0, fun _ => 0, false⟩
  obtain ⟨-, hall, hmem⟩ := h H (shaTsi H) (hashes_shaTsi H) p mbedtlsSha256Init (fun _ => 1) rfl
    output (.inl (Nat.le_refl _))
  have hstart := mem_sha256Run (shaTsi H) (output false) ⟨p, mbedtlsSha256Init, fun _ => 1⟩
    (show Sha256Op.finish ∉ .starts is224 :: inputs.map .update by simp)
  generalize sha256Run (shaTsi H) (output false) ⟨p, mbedtlsSha256Init, fun _ => 1⟩
    (.starts is224 :: inputs.map .update) = r at hall hmem hstart
  have hin : CloneState.In ⟨r.2.port, fun b => if b then mbedtlsSha256Clone r.2.ctx else r.2.ctx,
      r.2.mem⟩ r.2.ctx.sid := fun b => by cases b <;> rfl
  obtain ⟨b, hb⟩ := one_unwritten (hashes_shaTsi H) hin hops (.inl (Nat.le_refl _)) hall
  have hdigest : ∀ m mem i, copyTo mem i (H.digest is224 m) i ≠ 1 := by
    intro m mem i
    have hpos : 0 < (H.digest is224 m).length := by
      rw [H.length_digest]
      cases is224 <;> decide
    have hget : copyTo mem i (H.digest is224 m) (i + 0) = (H.digest is224 m)[0] := copyTo_add hpos
    have hval : (H.digest is224 m)[0] = if m = [] then 2 else 3 :=
      List.eq_of_mem_replicate (List.getElem_mem hpos)
    rw [Nat.add_zero] at hget
    rw [hget, hval]
    split <;> decide
  have hb := hb.trans (congrFun hstart (output b))
  rw [hmem] at hb
  cases b with
  | false =>
    rw [copyTo_of_not (by simp [output])] at hb
    exact hdigest _ _ _ hb
  | true => exact hdigest _ _ _ hb

end Clones

/-! ## Streams and clones -/

/-- A message comes out right exactly with SHA-256, on a context with nothing in its buffer, where
the message is not empty and no part too long; and after a clone it never does for both
contexts. -/
theorem streams_iff_clones (ctx : Sha256Context) (is224 : Bool) (lens : List Nat) :
    ((∀ inputs, inputs.map List.length = lens → Streams ctx is224 inputs) ↔
      is224 = false ∧ ctx.buffer = [] ∧ 0 < lens.sum ∧ NoWrap 0 lens) ∧
    ∀ inputs ops rest, Continues ops rest → ¬ ClonesStream is224 inputs ops rest :=
  ⟨streams_iff, fun _ _ _ => not_clonesStream⟩

/-- There is no digest of the empty message. -/
theorem not_streams_empty : ¬ Streams mbedtlsSha256Init false [] :=
  fun h => (collect_of_streams h).2.2.1 rfl

end Ma35d1.Tsi
