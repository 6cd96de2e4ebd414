import Ma35d1.Tsi.Aes

/-!
# Errors of the AES functions

Which commands may fail without a function of `aes_alt` reporting success, presenting data that no
run has written, or leaving its session open.
-/

namespace Ma35d1.Tsi

open Ma35d1.Machine.Copy

/-- What the AES runs have written -/
def made (issued : List Issued) : Bytes :=
  issued.flatMap fun e =>
    match e.cmd with
    | .aesRun _ _ _ => e.ans.data
    | _ => []

/-- The first byte of what each AES run has written -/
def firsts (issued : List Issued) : Bytes :=
  issued.filterMap fun e =>
    match e.cmd with
    | .aesRun _ _ _ => e.ans.data.head?
    | _ => none

def NoneFails (issued : List Issued) : Prop := ∀ e ∈ issued, e.Ok

instance (issued : List Issued) : Decidable (NoneFails issued) :=
  inferInstanceAs (Decidable (∀ e ∈ issued, e.Ok))

/-- A function that issued the commands says what became of them; `written` is what it has put out,
and `kept` that it has put out nothing. -/
structure Honest (ret : Int) (issued : List Issued) (written kept : Prop) : Prop where
  reported : ret = 0 → NoneFails issued
  output : ret = 0 → written
  error : ret ≠ 0 → kept
  balanced : Balanced issued

def EcbHonest (tsi : Engine) (p : Port) (ctx : AesContext) (mode : Int) (input output : Block) :
    Prop :=
  let r := mbedtlsAesCryptEcb tsi p ctx mode input output
  let issued := r.1.port.issuedSince p
  Honest r.1.ret issued (List.ofFn r.2 = made issued) (r.2 = output)

/-- The `len` bytes at `output` are those that the run has written. -/
def ChainedHonest (p : Port) (r : AesCall × (Nat → BitVec 8) × Block) (len : Nat)
    (mem : Nat → BitVec 8) (output : Nat) : Prop :=
  let issued := r.1.port.issuedSince p
  Honest r.1.ret issued
    (r.2.1 = copyTo mem output (made issued) ∧ (made issued).length = len) (r.2.1 = mem)

def Cfb8Honest (tsi : Engine) (p : Port) (ctx : AesContext) (mode : Int) (iv : Block)
    (input : Bytes) : Prop :=
  let r := mbedtlsAesCryptCfb8 tsi mode p ctx iv input
  let issued := r.1.port.issuedSince p
  Honest r.1.ret issued
    (r.2.1 = List.zipWith (· ^^^ ·) (firsts issued) input ∧ r.2.1.length = input.length)
    (r.2.1 = [])

/-- The key stream that is left over in the stream block -/
def CtrState.carried (s : CtrState) : Bytes :=
  if s.ncOff = 0 then [] else (List.ofFn s.streamBlock).drop s.ncOff

def CtrHonest (tsi : Engine) (p : Port) (ctx : AesContext) (s : CtrState) (input : Bytes) : Prop :=
  let r := mbedtlsAesCryptCtr tsi p ctx s input
  let issued := r.1.port.issuedSince p
  Honest r.1.ret issued
    (r.2.1 = List.zipWith (· ^^^ ·) input (s.carried ++ made issued) ∧
      r.2.1.length = input.length)
    (r.2.1 = [])

/-- The session is opened; and where nothing fails before it is closed, closing it does not fail,
and `TSI_AES_Run` was asked for all the bytes. -/
def SessionKept (issued : List Issued) (len : Nat) : Prop :=
  (∀ e ∈ issued.head?, e.Ok) ∧
    (NoneFails issued.dropLast → NoneFails issued ∧ (issued ≠ [] → len < 2 ^ 31))

/-! ## A session -/

/-- How a session ends -/
inductive SessionRan (p : Port) (len : Nat) (r : Int × Port) : Prop
  | notOpened (a b : Answer) (sid : Nat) (ha : a.ret ≠ 0) (hret : r.1 = -1)
    (hlog : r.2.log = p.log ++
      [⟨.openSession cCodeAes, a⟩, ⟨.closeSession cCodeAes sid, b⟩])
  | failed (a b : Answer) (mid : List Issued) (ha : a.ret = 0) (hinner : ∀ e ∈ mid, e.cmd.Inner)
    (hfail : ∃ e ∈ mid, ¬ e.Ok) (hret : r.1 = -1)
    (hlog : r.2.log = p.log ++
      (⟨.openSession cCodeAes, a⟩ :: (mid ++ [⟨.closeSession cCodeAes a.sid, b⟩])))
  | done (a b : Answer) (mid : List Issued) (data : Bytes) (ha : a.ret = 0)
    (hinner : ∀ e ∈ mid, e.cmd.Inner) (hall : NoneFails mid) (hret : r.1 = 0)
    (hlog : r.2.log = p.log ++
      (⟨.openSession cCodeAes, a⟩ :: (mid ++ [⟨.closeSession cCodeAes a.sid, b⟩])))
    (hmade : made mid = data) (hfirst : firsts mid = data.head?.toList)
    (hlen : data.length = (toInt32 len).toNat) (hout : r.2.u8out = copyTo p.u8out 0 data)

section Session

variable {tsi : Engine} {p : Port} {ctx : AesContext} {koutswap sid len n : Nat}
  {load : Port → Port} {r : Int × Port} {new rest : List Issued}

theorem made_append : made (new ++ rest) = made new ++ made rest := List.flatMap_append ..

theorem firsts_append : firsts (new ++ rest) = firsts new ++ firsts rest := List.filterMap_append ..

theorem setup_inner : ∀ cmd ∈ ctx.setup koutswap sid,
    cmd.Inner ∧ ∀ a, made [⟨cmd, a⟩] = [] ∧ firsts [⟨cmd, a⟩] = [] := by
  intro cmd hcmd
  simp only [AesContext.setup, List.mem_cons, List.not_mem_nil, or_false] at hcmd
  rcases hcmd with rfl | rfl | rfl
  · exact ⟨trivial, fun _ => ⟨rfl, rfl⟩⟩
  · exact ⟨trivial, fun _ => ⟨rfl, rfl⟩⟩
  · exact ⟨trivial, fun _ => ⟨rfl, rfl⟩⟩

/-- Setting up writes nothing. -/
theorem made_setup (h : ∀ e ∈ new, e.cmd ∈ ctx.setup koutswap sid) :
    made new = [] ∧ firsts new = [] := by
  induction new with
  | nil => exact ⟨rfl, rfl⟩
  | cons e new ih =>
    obtain ⟨hmade, hfirsts⟩ := ih fun f hf => h f (List.mem_cons_of_mem e hf)
    obtain ⟨he, he'⟩ := (setup_inner e.cmd (h e List.mem_cons_self)).2 e.ans
    rw [← List.singleton_append, made_append, firsts_append, hmade, hfirsts]
    exact ⟨by rw [he, List.append_nil], by rw [he', List.append_nil]⟩

/-- What a run adds to the log, and where it writes -/
theorem aesRun_ran (tsi : Engine) (q : Port) (sid : Nat) (cnt : Int) : ∃ src a,
    (tsi.aesRun q sid cnt).1 = a.ret ∧
      (tsi.aesRun q sid cnt).2.log = q.log ++ [⟨.aesRun sid cnt src, a⟩] ∧
      (tsi.aesRun q sid cnt).2.u8out = copyTo q.u8out 0 a.data ∧
      (a.ret = 0 → a.data.length = cnt.toNat) :=
  ⟨_, _, rfl, rfl, rfl, tsi.run_length _ _ _ _⟩

theorem aesSession_ran (tsi : Engine) (p : Port) (ctx : AesContext) (koutswap len : Nat)
    (hload : ∀ q, (load q).log = q.log ∧ (load q).u8out = q.u8out) :
    SessionRan p len (tsi.aesSession p ctx koutswap load len) := by
  unfold Engine.aesSession
  simp only
  split
  · rename_i ha
    refine .notOpened (tsi.ask p (.openSession cCodeAes)) (tsi.ask
      (tsi.send p (.openSession cCodeAes)) (.closeSession cCodeAes (tsi.uninit p.log)))
      (tsi.uninit p.log) ha rfl ?_
    rw [log_send, log_send, List.append_assoc]
    rfl
  rename_i ha
  have ha := not_not.mp ha
  obtain ⟨new, hset, hmem, hends⟩ := log_sendAll tsi (tsi.send p (.openSession cCodeAes))
    (ctx.setup koutswap (tsi.ask p (.openSession cCodeAes)).sid)
  have hinner : ∀ e ∈ new, e.cmd.Inner := fun e he => (setup_inner e.cmd (hmem e he)).1
  obtain ⟨hmade, hfirsts⟩ := made_setup hmem
  generalize hsid : (tsi.ask p (.openSession cCodeAes)).sid = sid at *
  generalize hq : tsi.sendAll (tsi.send p (.openSession cCodeAes)) (ctx.setup koutswap sid) = q at *
  have hlogq : q.2.log =
      p.log ++ ⟨.openSession cCodeAes, tsi.ask p (.openSession cCodeAes)⟩ :: new := by
    rw [hset, log_send, List.append_assoc]
    rfl
  have houtq : q.2.u8out = p.u8out := by rw [hset, u8out_send]
  split
  · rename_i hfail
    obtain ⟨-, hno⟩ := hends.resolve_left fun h => hfail h.1
    refine .failed (tsi.ask p (.openSession cCodeAes))
      (tsi.ask q.2 (.closeSession cCodeAes sid)) new ha hinner hno rfl ?_
    rw [log_send, hlogq, hsid]
    simp
  rename_i hset0
  obtain ⟨-, hall⟩ := hends.resolve_right fun h => hset0 h.1
  obtain ⟨src, a, hret, hlog, hout, hlen⟩ := aesRun_ran tsi (load q.2) sid (toInt32 len)
  rw [(hload q.2).1, hlogq] at hlog
  rw [(hload q.2).2, houtq] at hout
  generalize tsi.aesRun (load q.2) sid (toInt32 len) = ran at *
  have hmid : ∀ e ∈ new ++ [⟨.aesRun sid (toInt32 len) src, a⟩], e.cmd.Inner := by
    intro e he
    rcases List.mem_append.mp he with he | he
    · exact hinner e he
    · rw [List.mem_singleton.mp he]
      trivial
  split
  · rename_i hfail
    refine .failed (tsi.ask p (.openSession cCodeAes))
      (tsi.ask ran.2 (.closeSession cCodeAes sid)) (new ++ [⟨.aesRun sid (toInt32 len) src, a⟩]) ha
      hmid ⟨_, List.mem_append_right _ (List.mem_singleton_self _), ?_⟩ rfl ?_
    · rw [hret] at hfail
      exact hfail
    · rw [log_send, hlog, hsid]
      simp
  · rename_i hran
    rw [hret, not_not] at hran
    refine .done (tsi.ask p (.openSession cCodeAes))
      (tsi.ask ran.2 (.closeSession cCodeAes sid)) (new ++ [⟨.aesRun sid (toInt32 len) src, a⟩])
      a.data ha hmid (fun e he => ?_) rfl ?_ ?_ ?_ (hlen hran) hout
    · rcases List.mem_append.mp he with he | he
      · exact hall e he
      · rw [List.mem_singleton.mp he]
        exact hran
    · rw [log_send, hlog, hsid]
      simp
    · rw [made_append, hmade]
      simp [made]
    · rw [firsts_append, hfirsts]
      cases hdata : a.data <;> simp [firsts, hdata]

/-- Where the session was closed after something had failed in it, or not -/
theorem noneFails_dropLast {a b : Issued} :
    NoneFails (a :: (new ++ [b])).dropLast ↔ a.Ok ∧ NoneFails new := by
  rw [← List.cons_append, List.dropLast_concat]
  exact List.forall_mem_cons

theorem noneFails_session {a b : Issued} :
    NoneFails (a :: (new ++ [b])) ↔ (a.Ok ∧ NoneFails new) ∧ b.Ok := by
  unfold NoneFails
  rw [List.forall_mem_cons, List.forall_mem_append, List.forall_mem_singleton, and_assoc]

theorem made_session {classCode classCode' sid' : Nat} {a b : Answer} :
    made (⟨.openSession classCode, a⟩ :: (new ++ [⟨.closeSession classCode' sid', b⟩])) =
      made new := by
  simp [made]

theorem firsts_session {classCode classCode' sid' : Nat} {a b : Answer} :
    firsts (⟨.openSession classCode, a⟩ :: (new ++ [⟨.closeSession classCode' sid', b⟩])) =
      firsts new := by
  simp [firsts]

/-- What a chaining mode makes of its session is honest exactly where the session is kept. -/
theorem SessionRan.honest_iff (h : SessionRan p len r) {mem : Nat → BitVec 8} {output : Nat}
    {c : AesCall × (Nat → BitVec 8) × Block} (hport : c.1.port = r.2) (hret : c.1.ret = r.1)
    (hdone : r.1 = 0 → c.2.1 = copyTo mem output (copyFrom r.2.u8out 0 len))
    (hfailed : r.1 ≠ 0 → c.2.1 = mem) :
    ChainedHonest p c len mem output ↔ SessionKept (c.1.port.issuedSince p) len := by
  unfold ChainedHonest
  rw [hport, hret]
  cases h with
  | notOpened a b sid ha hr hlog =>
    rw [issuedSince_eq hlog]
    constructor
    · exact fun hh => absurd hh.balanced (not_balanced_close ha)
    · exact fun hk => absurd (hk.1 _ rfl) ha
  | failed a b mid ha hinner hfail hr hlog =>
    rw [issuedSince_eq hlog]
    have hne : r.1 ≠ 0 := by
      rw [hr]
      decide
    refine iff_of_true ⟨fun h0 => absurd h0 hne, fun h0 => absurd h0 hne, fun _ => hfailed hne,
      balanced_session cCodeAes ha rfl hinner⟩ ⟨?_, fun hall => ?_⟩
    · rintro e ⟨⟩
      exact ha
    · obtain ⟨e, he, hno⟩ := hfail
      exact absurd ((noneFails_dropLast.mp hall).2 e he) hno
  | done a b mid data ha hinner hall hr hlog hmade hfirst hlen hout =>
    rw [issuedSince_eq hlog]
    constructor
    · intro hh
      refine ⟨?_, fun _ => ⟨hh.reported hr, fun _ => ?_⟩⟩
      · rintro e ⟨⟩
        exact ha
      · have hwritten := (hh.output hr).2
        rw [made_session, hmade, hlen] at hwritten
        exact toNat_toInt32.mp hwritten
    · rintro ⟨-, hkept⟩
      obtain ⟨hnone, hlt⟩ := hkept (noneFails_dropLast.mpr ⟨ha, hall⟩)
      have hdata : data.length = len := by
        rw [hlen]
        exact toNat_toInt32.mpr (hlt (List.cons_ne_nil _ _))
      refine ⟨fun _ => hnone, fun _ => ?_, fun hne => absurd hr hne,
        balanced_session cCodeAes ha rfl hinner⟩
      rw [made_session, hmade, hdone hr, hout, copyFrom_copyTo hdata]
      exact ⟨rfl, hdata⟩

theorem SessionRan.honest_ite (h : SessionRan p len r) {mem : Nat → BitVec 8} {output : Nat}
    {iv iv' : Block} :
    let c : AesCall × (Nat → BitVec 8) × Block :=
      if r.1 = 0 then (⟨0, ctx, r.2⟩, copyTo mem output (copyFrom r.2.u8out 0 len), iv')
      else (⟨-1, ctx, r.2⟩, mem, iv)
    ChainedHonest p c len mem output ↔ SessionKept (c.1.port.issuedSince p) len := by
  intro c
  by_cases h0 : r.1 = 0
  · have hc : c = (⟨0, ctx, r.2⟩, copyTo mem output (copyFrom r.2.u8out 0 len), iv') := if_pos h0
    exact h.honest_iff (by rw [hc]) (by rw [hc, h0]) (fun _ => by rw [hc]) fun hne => absurd h0 hne
  · have hc : c = (⟨-1, ctx, r.2⟩, mem, iv) := if_neg h0
    have hret : r.1 = -1 := by
      cases h with
      | notOpened _ _ _ _ hr => exact hr
      | failed _ _ _ _ _ _ hr => exact hr
      | done _ _ _ _ _ _ _ hr => exact absurd hr h0
    exact h.honest_iff (by rw [hc]) (by rw [hc, hret]) (fun h1 => absurd h1 h0) fun _ => by rw [hc]

end Session

/-! ## The functions -/

section Functions

variable {tsi : Engine} {p : Port} {ctx : AesContext} {mode : Int} {len ivOff : Nat}
  {iv input output : Block} {mem : Nat → BitVec 8} {src dst : Nat} {data : Bytes} {s : CtrState}

theorem load_ran (bytes : Bytes) (q : Port) :
    (q.load bytes).log = q.log ∧ (q.load bytes).u8out = q.u8out := ⟨rfl, rfl⟩

theorem cbc_honest_iff :
    let r := mbedtlsAesCryptCbc tsi p ctx mode len iv mem src dst
    ChainedHonest p r len mem dst ↔ SessionKept (r.1.port.issuedSince p) len := by
  intro r
  have hran := aesSession_ran tsi p
    (ctx.chained aesModeCbc (if mode = mbedtlsAesEncrypt then 1 else 0) iv) 1 len
    (load_ran (copyFrom mem src len))
  exact hran.honest_ite

theorem cfb128_honest_iff :
    let r := mbedtlsAesCryptCfb128 tsi p ctx mode len iv mem src dst
    ChainedHonest p r len mem dst ↔ SessionKept (r.1.port.issuedSince p) len := by
  intro r
  have hran := aesSession_ran tsi p
    (ctx.chained aesModeCfb (if mode = mbedtlsAesEncrypt then 1 else 0) iv) 1 len
    (load_ran (copyFrom mem src len))
  exact hran.honest_ite

/-- A call that issues nothing -/
theorem honest_nothing {c : AesCall × (Nat → BitVec 8) × Block} (hport : c.1.port = p)
    (hmem : c.2.1 = mem) (hret : c.1.ret = 0 → len = 0) :
    ChainedHonest p c len mem dst ↔ SessionKept (c.1.port.issuedSince p) len := by
  unfold ChainedHonest
  rw [hport, hmem, issuedSince_self]
  refine iff_of_true ⟨fun _ _ he => absurd he List.not_mem_nil, fun h0 => ⟨?_, (hret h0).symm⟩,
    fun _ => rfl, rfl⟩ ⟨fun _ he => absurd he (by simp), fun _ => ?_⟩
  · funext k
    rw [copyTo_of_not]
    simp [made]
  · exact ⟨fun _ he => absurd he List.not_mem_nil, fun hne => absurd rfl hne⟩

theorem ofb_honest_iff :
    let r := mbedtlsAesCryptOfb tsi p ctx len ivOff iv mem src dst
    ChainedHonest p r len mem dst ↔ SessionKept (r.1.port.issuedSince p) len := by
  intro r
  have hran := aesSession_ran tsi p (ctx.chained aesModeOfb 1 iv) 1 len
    (load_ran (copyFrom mem src len))
  show ChainedHonest p (mbedtlsAesCryptOfb tsi p ctx len ivOff iv mem src dst) len mem dst ↔
    SessionKept ((mbedtlsAesCryptOfb tsi p ctx len ivOff iv mem src dst).1.port.issuedSince p) len
  unfold mbedtlsAesCryptOfb
  split
  · rename_i hlen
    exact honest_nothing rfl rfl fun _ => hlen
  split
  · refine honest_nothing rfl rfl fun h0 => ?_
    have hret : mbedtlsErrAesInvalidInputLength = 0 := h0
    exact absurd hret (by decide)
  · exact hran.honest_ite

theorem ofFn_copyTo (h : data.length = 16) :
    List.ofFn (fun i : Fin 16 => copyTo mem 0 data i) = data := by
  refine List.ext_getElem (by rw [List.length_ofFn, h]) fun i hi hi' => ?_
  have hcell : copyTo mem 0 data (0 + i) = data[i] := copyTo_add hi'
  rw [Nat.zero_add] at hcell
  rw [List.getElem_ofFn, hcell]

theorem head?_copyTo (h : data.length = 16) :
    data.head?.toList = [copyTo mem 0 data 0] := by
  cases data with
  | nil => cases h
  | cons b rest => rfl

/-- What `mbedtls_aes_crypt_ecb` issues, and what it puts out where no command of it fails -/
theorem ecb_ran (tsi : Engine) (p : Port) (ctx : AesContext) (mode : Int) (input output : Block) :
    ∃ new, (mbedtlsAesCryptEcb tsi p ctx mode input output).1.port.log = p.log ++ new ∧
    (NoneFails new → Balanced new ∧
      List.ofFn (mbedtlsAesCryptEcb tsi p ctx mode input output).2 = made new ∧
      firsts new = [(mbedtlsAesCryptEcb tsi p ctx mode input output).2 0]) := by
  have hran := aesSession_ran tsi (p.load (List.ofFn input))
    { ctx with opMode := aesModeEcb, encDec := if mode = mbedtlsAesEncrypt then 1 else 0 } 0
    aesBlockSize (show ∀ q : Port, (id q).log = q.log ∧ (id q).u8out = q.u8out from
      fun _ => ⟨rfl, rfl⟩)
  unfold mbedtlsAesCryptEcb nvtAesCrypt
  simp only
  generalize tsi.aesSession (p.load (List.ofFn input)) _ 0 id aesBlockSize = r at *
  cases hran with
  | notOpened a b sid ha hr hlog =>
    exact ⟨_, hlog, fun hall => absurd (hall _ List.mem_cons_self) ha⟩
  | failed a b mid ha hinner hfail hr hlog =>
    obtain ⟨e, he, hno⟩ := hfail
    exact ⟨_, hlog, fun hall => absurd ((noneFails_session.mp hall).1.2 e he) hno⟩
  | done a b mid data ha hinner hall hr hlog hmade hfirst hlen hout =>
    refine ⟨_, hlog, fun _ => ⟨balanced_session cCodeAes ha rfl hinner, ?_, ?_⟩⟩
    · rw [made_session, hmade, if_pos hr, hout]
      exact ofFn_copyTo hlen
    · rw [firsts_session, hfirst, if_pos hr, hout]
      exact head?_copyTo hlen

theorem ecb_honest_iff :
    EcbHonest tsi p ctx mode input output ↔
      NoneFails ((mbedtlsAesCryptEcb tsi p ctx mode input output).1.port.issuedSince p) := by
  obtain ⟨new, hlog, hnone⟩ := ecb_ran tsi p ctx mode input output
  unfold EcbHonest
  simp only
  rw [issuedSince_eq hlog]
  refine ⟨fun h => h.reported rfl, fun hall => ?_⟩
  obtain ⟨hbalanced, hmade, -⟩ := hnone hall
  exact ⟨fun _ => hall, fun _ => hmade, fun hne => absurd rfl hne, hbalanced⟩

theorem cfb8_ran (tsi : Engine) (mode : Int) (p : Port) (ctx : AesContext) (iv : Block)
    (data : Bytes) :
    ∃ new, (mbedtlsAesCryptCfb8 tsi mode p ctx iv data).1.port.log = p.log ++ new ∧
      (mbedtlsAesCryptCfb8 tsi mode p ctx iv data).1.ret = 0 ∧
      (mbedtlsAesCryptCfb8 tsi mode p ctx iv data).2.1.length = data.length ∧
      (NoneFails new → Balanced new ∧ (mbedtlsAesCryptCfb8 tsi mode p ctx iv data).2.1 =
        List.zipWith (· ^^^ ·) (firsts new) data) := by
  induction data generalizing p ctx iv with
  | nil => exact ⟨[], (List.append_nil _).symm, rfl, rfl, fun _ => ⟨rfl, rfl⟩⟩
  | cons b data ih =>
    obtain ⟨block, hblock, hnone⟩ := ecb_ran tsi p ctx mbedtlsAesEncrypt iv iv
    unfold mbedtlsAesCryptCfb8
    simp only
    generalize mbedtlsAesCryptEcb tsi p ctx mbedtlsAesEncrypt iv iv = r at *
    obtain ⟨new, hlog, hret, hlen, hrest⟩ := ih r.1.port r.1.ctx _
    refine ⟨block ++ new, ?_, hret, ?_, fun hall => ?_⟩
    · rw [hlog, hblock, List.append_assoc]
    · rw [List.length_cons, hlen, List.length_cons]
    · obtain ⟨hall, hall'⟩ := List.forall_mem_append.mp hall
      obtain ⟨hbalanced, -, hfirst⟩ := hnone hall
      obtain ⟨hbalanced', hout⟩ := hrest hall'
      refine ⟨hbalanced.append hbalanced', ?_⟩
      rw [firsts_append, hfirst, hout]
      rfl

theorem cfb8_honest_iff :
    Cfb8Honest tsi p ctx mode iv data ↔
      NoneFails ((mbedtlsAesCryptCfb8 tsi mode p ctx iv data).1.port.issuedSince p) := by
  obtain ⟨new, hlog, hret, hlen, hnone⟩ := cfb8_ran tsi mode p ctx iv data
  unfold Cfb8Honest
  simp only
  rw [issuedSince_eq hlog]
  refine ⟨fun h => h.reported hret, fun hall => ?_⟩
  obtain ⟨hbalanced, hout⟩ := hnone hall
  exact ⟨fun _ => hall, fun _ => ⟨hout, hlen⟩, fun hne => absurd hret hne, hbalanced⟩

/-- The byte of a block that comes next, and what is left over behind it -/
theorem drop_ofFn (s : CtrState) (block : Block) (n : Fin 16) :
    (List.ofFn block).drop n =
      block n :: { s with ncOff := n + 1, streamBlock := block }.carried := by
  have hsucc : (n + 1).val = (n.val + 1) % 16 := Fin.val_add n 1
  rw [List.drop_eq_getElem_cons (by rw [List.length_ofFn]; exact n.isLt), List.getElem_ofFn]
  refine congrArg _ ?_
  unfold CtrState.carried
  simp only
  split
  · rename_i h0
    rw [h0] at hsucc
    have hzero : (0 : Fin 16).val = 0 := rfl
    refine List.drop_of_length_le ?_
    rw [List.length_ofFn]
    omega
  · rename_i h0
    have hne : (n + 1).val ≠ 0 := fun hz => h0 (Fin.ext hz)
    have hlt := n.isLt
    rw [show n.val + 1 = (n + 1).val by omega]

theorem ctr_ran (tsi : Engine) (p : Port) (ctx : AesContext) (s : CtrState) (data : Bytes) :
    ∃ new, (mbedtlsAesCryptCtr tsi p ctx s data).1.port.log = p.log ++ new ∧
      (mbedtlsAesCryptCtr tsi p ctx s data).1.ret = 0 ∧
      (mbedtlsAesCryptCtr tsi p ctx s data).2.1.length = data.length ∧
      (NoneFails new → Balanced new ∧ (mbedtlsAesCryptCtr tsi p ctx s data).2.1 =
        List.zipWith (· ^^^ ·) data (s.carried ++ made new)) := by
  induction data generalizing p ctx s with
  | nil => exact ⟨[], (List.append_nil _).symm, rfl, rfl, fun _ => ⟨rfl, rfl⟩⟩
  | cons b data ih =>
    unfold mbedtlsAesCryptCtr
    simp only
    by_cases hn : s.ncOff = 0
    · -- a block of key stream is made
      simp only [hn, if_true]
      obtain ⟨block, hblock, hnone⟩ := ecb_ran tsi p ctx mbedtlsAesEncrypt s.nonceCounter
        s.streamBlock
      generalize mbedtlsAesCryptEcb tsi p ctx mbedtlsAesEncrypt s.nonceCounter s.streamBlock = r
        at *
      obtain ⟨new, hlog, hret, hlen, hrest⟩ := ih r.1.port r.1.ctx
        ⟨0 + 1, countUp s.nonceCounter 16, r.2⟩
      refine ⟨block ++ new, ?_, hret, ?_, fun hall => ?_⟩
      · rw [hlog, hblock, List.append_assoc]
      · rw [List.length_cons, hlen, List.length_cons]
      · obtain ⟨hall, hall'⟩ := List.forall_mem_append.mp hall
        obtain ⟨hbalanced, hmade, -⟩ := hnone hall
        obtain ⟨hbalanced', hout⟩ := hrest hall'
        have hcarried : s.carried = [] := if_pos hn
        have hnext := drop_ofFn ⟨0, countUp s.nonceCounter 16, r.2⟩ r.2 0
        refine ⟨hbalanced.append hbalanced', ?_⟩
        rw [hcarried, made_append, ← hmade, hout, List.nil_append]
        rw [show List.ofFn r.2 = _ from hnext]
        rfl
    · simp only [hn, if_false]
      obtain ⟨new, hlog, hret, hlen, hrest⟩ := ih p ctx { s with ncOff := s.ncOff + 1 }
      refine ⟨new, hlog, hret, ?_, fun hall => ?_⟩
      · rw [List.length_cons, hlen, List.length_cons]
      · obtain ⟨hbalanced, hout⟩ := hrest hall
        have hcarried : s.carried = (List.ofFn s.streamBlock).drop s.ncOff := if_neg hn
        refine ⟨hbalanced, ?_⟩
        rw [hout, hcarried, drop_ofFn s]
        rfl

theorem ctr_honest_iff :
    CtrHonest tsi p ctx s data ↔
      NoneFails ((mbedtlsAesCryptCtr tsi p ctx s data).1.port.issuedSince p) := by
  obtain ⟨new, hlog, hret, hlen, hnone⟩ := ctr_ran tsi p ctx s data
  unfold CtrHonest
  simp only
  rw [issuedSince_eq hlog]
  refine ⟨fun h => h.reported hret, fun hall => ?_⟩
  obtain ⟨hbalanced, hout⟩ := hnone hall
  exact ⟨fun _ => hall, fun _ => ⟨hout, hlen⟩, fun hne => absurd hret hne, hbalanced⟩

end Functions

end Ma35d1.Tsi
