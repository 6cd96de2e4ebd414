import Ma35d1.Tsi.AesErrors
import Ma35d1.Tsi.Sha256

/-!
# Errors of the AES and SHA functions

A digest is honest exactly where no command fails and there is something to hash; with the AES
functions' results, the exact conditions for all of them.
-/

namespace Ma35d1.Tsi

open Ma35d1.Machine.Copy

/-- The digests that the TSI has written -/
def digested (issued : List Issued) : Bytes :=
  issued.flatMap fun e =>
    match e.cmd with
    | .shaFinish _ _ _ _ => e.ans.data
    | _ => []

/-- The functions that were called say what became of their commands. -/
structure RunHonest (calls : List (Int × List Issued)) (issued : List Issued) (mem : Nat → BitVec 8)
    (output : Nat) (mem' : Nat → BitVec 8) : Prop where
  reported : ∀ c ∈ calls, c.1 = 0 → NoneFails c.2
  output : (∀ c ∈ calls, c.1 = 0) →
    mem' = copyTo mem output (digested issued) ∧ (digested issued).length = 32
  error : ∀ c ∈ calls, c.1 ≠ 0 → mem' = mem
  balanced : Balanced issued

def DigestHonest (tsi : Engine) (output : Nat) (s : Sha256State) (is224 : Bool)
    (inputs : List Bytes) : Prop :=
  let r := sha256Run tsi output s (sha256Digest is224 inputs)
  RunHonest r.1 (r.2.port.issuedSince s.port) s.mem output r.2.mem

section Digest

variable {tsi : Engine} {output : Nat} {s : Sha256State} {is224 : Bool} {input : Bytes}
  {inputs : List Bytes} {p : Port} {ctx : Sha256Context} {new : List Issued}

theorem digested_append {rest : List Issued} :
    digested (new ++ rest) = digested new ++ digested rest := List.flatMap_append ..

/-- What `mbedtls_sha256_update` does, where `ilen` bytes are left -/
structure UpdateRan (p : Port) (ctx : Sha256Context) (ilen : Nat)
    (r : Int × Port × Sha256Context) (new : List Issued) : Prop where
  log : r.2.1.log = p.log ++ new
  inner : ∀ e ∈ new, e.cmd.Inner
  digested : digested new = []
  ends : (r.1 = 0 ∧ NoneFails new) ∨ (r.1 ≠ 0 ∧ ∃ e ∈ new, ¬ e.Ok)
  sid : r.2.2.sid = ctx.sid
  filled : r.1 = 0 → (r.2.2.buffer = [] ↔ ctx.buffer = [] ∧ ilen = 0)

theorem updateLoop_ran {ofs ilen : Nat} (h : ofs + ilen ≤ input.length) :
    ∃ new, UpdateRan p ctx ilen (sha256UpdateLoop tsi input p ctx ofs ilen) new := by
  induction p, ctx, ofs, ilen using sha256UpdateLoop.induct tsi input with
  | case1 p ctx ofs =>
    rw [updateLoop_zero]
    exact ⟨[], (List.append_nil _).symm, by simp, rfl, .inl ⟨rfl, by simp [NoneFails]⟩, rfl,
      fun _ => (and_iff_left rfl).symm⟩
  | case2 p ctx ofs ilen h0 hfull hfail =>
    rw [updateLoop_fail h0 hfull hfail]
    refine ⟨[⟨ctx.updateCmd, tsi.ask p ctx.updateCmd⟩], rfl, fun e he => ?_, rfl,
      .inr ⟨accelFailed_ne, _, List.mem_singleton_self _, hfail⟩, rfl, fun hret => ?_⟩
    · rw [List.mem_singleton.mp he]
      trivial
    · exact absurd hret accelFailed_ne
  | case3 p ctx ofs ilen h0 hfull hok ih =>
    rw [updateLoop_flush h0 hfull (not_not.mp hok)]
    obtain ⟨new, hran⟩ := ih h
    refine ⟨⟨ctx.updateCmd, tsi.ask p ctx.updateCmd⟩ :: new, ?_, ?_, ?_, ?_, hran.sid,
      fun hret => ?_⟩
    · rw [hran.log, log_send, List.append_assoc]
      rfl
    · intro e he
      rcases List.mem_cons.mp he with rfl | he
      · trivial
      · exact hran.inner e he
    · exact hran.digested
    · refine hran.ends.imp (fun hall => ⟨hall.1, ?_⟩) fun hno => ⟨hno.1, ?_⟩
      · exact List.forall_mem_cons.mpr ⟨not_not.mp hok, hall.2⟩
      · obtain ⟨e, he, hnot⟩ := hno.2
        exact ⟨e, List.mem_cons_of_mem _ he, hnot⟩
    · rw [hran.filled hret]
      refine iff_of_false (fun hnil => h0 hnil.2) fun hnil => h0 hnil.2
  | case4 p ctx ofs ilen h0 hfull hmore n ih =>
    have hlt := Nat.not_le.mp hfull
    rw [updateLoop_fill hlt hmore]
    have hmod := Nat.mod_le (ofs + n) (2 ^ 32)
    obtain ⟨new, hran⟩ := ih (by omega)
    refine ⟨new, hran.log, hran.inner, hran.digested, hran.ends, hran.sid, fun hret => ?_⟩
    rw [hran.filled hret]
    refine iff_of_false (fun hnil => ?_) fun hnil => h0 hnil.2
    omega
  | case5 p ctx ofs ilen h0 hfull hmore =>
    have hlt := Nat.not_le.mp hfull
    rw [updateLoop_rest h0 hlt (Nat.not_lt.mp hmore)]
    refine ⟨[], (List.append_nil _).symm, by simp, rfl, .inl ⟨rfl, by simp [NoneFails]⟩, rfl,
      fun _ => iff_of_false (fun hnil => ?_) fun hnil => h0 hnil.2⟩
    have hlen := length_fill (show ctx.buffer.length + ilen ≤ _ by omega) h
    rw [hnil, List.length_nil] at hlen
    omega

/-- How `mbedtls_sha256_finish` ends -/
inductive FinishRan (p : Port) (ctx : Sha256Context) (mem : Nat → BitVec 8) (output : Nat)
    (r : Int × Port × Sha256Context × (Nat → BitVec 8)) : Prop
  | nothing (hempty : ctx.buffer = []) (hret : r.1 = 0) (hlog : r.2.1.log = p.log)
  | failed (e : Issued) (hinner : e.cmd.Inner) (hfail : ¬ e.Ok) (hret : r.1 ≠ 0)
    (hlog : r.2.1.log = p.log ++ [e])
  | done (e : Issued) (b : Answer) (hinner : e.cmd.Inner) (he : e.Ok) (hne : ctx.buffer ≠ [])
    (hret : r.1 = 0)
    (hlog : r.2.1.log = p.log ++ [e, ⟨.closeSession cCodeSha ctx.sid, b⟩])
    (hdigest : digested [e] = e.ans.data) (hlen : e.ans.data.length = 32)
    (hmem : r.2.2.2 = copyTo mem output e.ans.data)

theorem finish_ran (tsi : Engine) (p : Port) (ctx : Sha256Context) (mem : Nat → BitVec 8)
    (output : Nat) :
    FinishRan p ctx mem output (mbedtlsSha256Finish tsi p ctx mem output) := by
  unfold mbedtlsSha256Finish
  split
  · rename_i hlen
    have hfinish := tsi.finish_length p.log ctx.sid 8 ctx.buffer.length ctx.buffer
    simp only
    split
    · rename_i hfail
      exact .failed ⟨ctx.finishCmd, tsi.ask p ctx.finishCmd⟩ trivial hfail accelFailed_ne rfl
    · rename_i hok
      have hdata : (tsi.ask p ctx.finishCmd).data.length = 32 := hfinish (not_not.mp hok)
      refine .done ⟨ctx.finishCmd, tsi.ask p ctx.finishCmd⟩
        (tsi.answer (p.log ++ [⟨ctx.finishCmd, tsi.ask p ctx.finishCmd⟩])
          (.closeSession cCodeSha ctx.sid)) trivial (not_not.mp hok)
        (List.ne_nil_of_length_pos hlen) rfl ?_ (List.append_nil _) hdata ?_
      · rw [log_send]
        show p.log ++ [_] ++ [_] = _
        rw [List.append_assoc]
        rfl
      · show copyTo mem output (copyFrom (copyTo _ 0 _) 0 32) = _
        rw [copyFrom_copyTo hdata]
  · rename_i hlen
    exact .nothing (List.eq_nil_of_length_eq_zero (by omega)) rfl rfl

/-- How `mbedtls_sha256_starts` ends -/
inductive StartsRan (p : Port) (ctx : Sha256Context) (r : Int × Port × Sha256Context) : Prop
  | notOpened (a b : Answer) (sid : Nat) (ha : a.ret ≠ 0) (hret : r.1 ≠ 0)
    (hlog : r.2.1.log = p.log ++
      [⟨.openSession cCodeSha, a⟩, ⟨.closeSession cCodeSha sid, b⟩])
  | started (a : Answer) (e : Issued) (ha : a.ret = 0) (hinner : e.cmd.Inner)
    (hdigest : digested [e] = []) (hret : r.1 = e.ans.ret)
    (hlog : r.2.1.log = p.log ++ [⟨.openSession cCodeSha, a⟩, e]) (hsid : r.2.2.sid = a.sid)
    (hbuffer : r.2.2.buffer = ctx.buffer)

theorem starts_ran (tsi : Engine) (p : Port) (ctx : Sha256Context) (is224 : Bool) :
    StartsRan p ctx (mbedtlsSha256Starts tsi p ctx is224) := by
  unfold mbedtlsSha256Starts
  simp only
  split
  · rename_i ha
    refine .notOpened (tsi.ask p (.openSession cCodeSha)) (tsi.ask
      (tsi.send p (.openSession cCodeSha)) (.closeSession cCodeSha ctx.sid)) ctx.sid ha
      (show (-1 : Int) ≠ 0 by decide) ?_
    rw [log_send, log_send, List.append_assoc]
    rfl
  · rename_i ha
    generalize hcmd : TsiCmd.shaStart (tsi.ask p (.openSession cCodeSha)).sid
      (if is224 = true then shaModeSha224 else shaModeSha256) = cmd
    refine .started (tsi.ask p (.openSession cCodeSha))
      ⟨cmd, tsi.ask (tsi.send p (.openSession cCodeSha)) cmd⟩ (not_not.mp ha) ?_ ?_ rfl ?_ rfl rfl
    · rw [← hcmd]
      trivial
    · rw [← hcmd]
      rfl
    · rw [log_send, log_send, List.append_assoc]
      rfl

theorem update_ran (tsi : Engine) (p : Port) (ctx : Sha256Context) (input : Bytes) :
    ∃ new, UpdateRan p ctx input.length (mbedtlsSha256Update tsi p ctx input) new :=
  updateLoop_ran (Nat.le_of_eq (Nat.zero_add _))

/-- A call adds what it issues to the log. -/
theorem log_call (tsi : Engine) (output : Nat) (s : Sha256State) (op : Sha256Op) :
    ∃ new, (op.call tsi output s).2.port.log = s.port.log ++ new := by
  cases op with
  | starts is224 =>
    have h := starts_ran tsi s.port s.ctx is224
    cases h with
    | notOpened a b sid ha hret hlog => exact ⟨_, hlog⟩
    | started a e ha hinner hdigest hret hlog => exact ⟨_, hlog⟩
  | update input =>
    obtain ⟨new, h⟩ := update_ran tsi s.port s.ctx input
    exact ⟨new, h.log⟩
  | finish =>
    have h := finish_ran tsi s.port s.ctx s.mem output
    cases h with
    | nothing hempty hret hlog => exact ⟨[], hlog.trans (List.append_nil _).symm⟩
    | failed e hinner hfail hret hlog => exact ⟨_, hlog⟩
    | done e b hinner he hne hret hlog => exact ⟨_, hlog⟩

theorem sha256Run_cons_fail (op : Sha256Op) {ops : List Sha256Op}
    (h : (op.call tsi output s).1 ≠ 0)
    (hlog : (op.call tsi output s).2.port.log = s.port.log ++ new) :
    sha256Run tsi output s (op :: ops) =
      ([((op.call tsi output s).1, new)], (op.call tsi output s).2) := by
  rw [sha256Run, issuedSince_eq hlog]
  exact if_pos h

theorem sha256Run_cons (op : Sha256Op) {ops : List Sha256Op} (h : (op.call tsi output s).1 = 0)
    (hlog : (op.call tsi output s).2.port.log = s.port.log ++ new) :
    sha256Run tsi output s (op :: ops) =
      ((0, new) :: (sha256Run tsi output (op.call tsi output s).2 ops).1,
        (sha256Run tsi output (op.call tsi output s).2 ops).2) := by
  rw [sha256Run, issuedSince_eq hlog, h]
  exact if_neg (not_not.mpr rfl)

/-- A run's log is what its calls have issued. -/
theorem log_sha256Run (tsi : Engine) (output : Nat) (ops : List Sha256Op) (s : Sha256State) :
    (sha256Run tsi output s ops).2.port.log =
      s.port.log ++ ((sha256Run tsi output s ops).1.map Prod.snd).flatten := by
  induction ops generalizing s with
  | nil => exact (List.append_nil _).symm
  | cons op ops ih =>
    obtain ⟨new, hlog⟩ := log_call tsi output s op
    by_cases h : (op.call tsi output s).1 = 0
    · rw [sha256Run_cons op h hlog]
      simp only [List.map_cons, List.flatten_cons]
      rw [ih, hlog, List.append_assoc]
    · rw [sha256Run_cons_fail op h hlog]
      simp only [List.map_cons, List.map_nil, List.flatten_cons, List.flatten_nil, List.append_nil]
      exact hlog

/-- How the updates and `mbedtls_sha256_finish` end -/
inductive DigestRan (output : Nat) (s : Sha256State) (inputs : List Bytes)
    (r : List (Int × List Issued) × Sha256State) : Prop
  | failed (mid : List Issued) (hinner : ∀ e ∈ mid, e.cmd.Inner) (hfail : ∃ e ∈ mid, ¬ e.Ok)
    (hlog : r.2.port.log = s.port.log ++ mid)
  | nothing (mid : List Issued) (hinner : ∀ e ∈ mid, e.cmd.Inner)
    (hlog : r.2.port.log = s.port.log ++ mid)
    (hempty : s.ctx.buffer = [] ∧ inputs.flatten = [])
  | done (mid : List Issued) (e : Issued) (b : Answer) (hinner : ∀ e ∈ mid, e.cmd.Inner)
    (hall : NoneFails mid) (hdigest : digested mid = [])
    (he : e.cmd.Inner) (hok : e.Ok) (hlast : digested [e] = e.ans.data)
    (hne : ¬ (s.ctx.buffer = [] ∧ inputs.flatten = []))
    (hlog : r.2.port.log = s.port.log ++ (mid ++ [e, ⟨.closeSession cCodeSha s.ctx.sid, b⟩]))
    (hcalls : ∀ c ∈ r.1, c.1 = 0) (hlen : e.ans.data.length = 32)
    (hmem : r.2.mem = copyTo s.mem output e.ans.data)

theorem digest_ran (tsi : Engine) (output : Nat) (inputs : List Bytes) (s : Sha256State) :
    DigestRan output s inputs (sha256Run tsi output s (inputs.map .update ++ [.finish])) := by
  induction inputs generalizing s with
  | nil =>
    have h := finish_ran tsi s.port s.ctx s.mem output
    show DigestRan output s [] (sha256Run tsi output s [.finish])
    cases h with
    | nothing hempty hret hlog =>
      have hret : (Sha256Op.finish.call tsi output s).1 = 0 := hret
      rw [sha256Run_cons .finish hret (hlog.trans (List.append_nil _).symm)]
      exact .nothing [] (by simp) (hlog.trans (List.append_nil _).symm) ⟨hempty, rfl⟩
    | failed e hinner hfail hret hlog =>
      have hret : (Sha256Op.finish.call tsi output s).1 ≠ 0 := hret
      rw [sha256Run_cons_fail .finish hret hlog]
      refine .failed [e] (fun f hf => ?_) ⟨e, List.mem_singleton_self e, hfail⟩ hlog
      rw [List.mem_singleton.mp hf]
      exact hinner
    | done e b hinner he hne hret hlog hdigest hlen hmem =>
      have hret : (Sha256Op.finish.call tsi output s).1 = 0 := hret
      rw [sha256Run_cons .finish hret hlog]
      refine .done [] e b (by simp) (by simp [NoneFails]) rfl hinner he hdigest
        (fun hnil => hne hnil.1) hlog (fun c hc => ?_) hlen hmem
      rw [List.mem_singleton.mp hc]
  | cons input inputs ih =>
    obtain ⟨new, h⟩ := update_ran tsi s.port s.ctx input
    have hlog : ((Sha256Op.update input).call tsi output s).2.port.log = s.port.log ++ new := h.log
    have hempty : input.length = 0 ↔ input = [] := List.length_eq_zero_iff
    rw [List.map_cons, List.cons_append]
    rcases h.ends with ⟨hret, hall⟩ | ⟨hret, hfail⟩
    · have hret' : ((Sha256Op.update input).call tsi output s).1 = 0 := hret
      have hfilled : ((Sha256Op.update input).call tsi output s).2.ctx.buffer = [] ↔
          s.ctx.buffer = [] ∧ input.length = 0 := h.filled hret
      have hsid : ((Sha256Op.update input).call tsi output s).2.ctx.sid = s.ctx.sid := h.sid
      have hmem : ((Sha256Op.update input).call tsi output s).2.mem = s.mem := rfl
      rw [sha256Run_cons (.update input) hret' hlog]
      generalize (Sha256Op.update input).call tsi output s = r at *
      cases ih r.2 with
      | failed mid hinner hno hlog' =>
        refine .failed (new ++ mid) (List.forall_mem_append.mpr ⟨h.inner, hinner⟩) ?_ ?_
        · obtain ⟨e, he, hnot⟩ := hno
          exact ⟨e, List.mem_append_right new he, hnot⟩
        · rw [hlog', hlog, List.append_assoc]
      | nothing mid hinner hlog' hnil =>
        refine .nothing (new ++ mid) (List.forall_mem_append.mpr ⟨h.inner, hinner⟩) ?_ ?_
        · rw [hlog', hlog, List.append_assoc]
        · obtain ⟨hbuffer, hinput⟩ := hfilled.mp hnil.1
          rw [List.flatten_cons, hempty.mp hinput, hnil.2]
          exact ⟨hbuffer, rfl⟩
      | done mid e b hinner hnone hdigest he hok hlast hne hlog' hcalls hlen hmem' =>
        refine .done (new ++ mid) e b (List.forall_mem_append.mpr ⟨h.inner, hinner⟩)
          (List.forall_mem_append.mpr ⟨hall, hnone⟩) ?_ he hok hlast (fun hnil => hne ?_) ?_ ?_
          hlen ?_
        · rw [digested_append, h.digested, hdigest]
          rfl
        · rw [List.flatten_cons, List.append_eq_nil_iff] at hnil
          exact ⟨hfilled.mpr ⟨hnil.1, hempty.mpr hnil.2.1⟩, hnil.2.2⟩
        · rw [hlog', hlog, hsid]
          simp
        · exact List.forall_mem_cons.mpr ⟨rfl, hcalls⟩
        · rw [hmem', hmem]
    · have hret : ((Sha256Op.update input).call tsi output s).1 ≠ 0 := hret
      rw [sha256Run_cons_fail (.update input) hret hlog]
      exact .failed new h.inner hfail hlog

/-- No command fails, and there is something to hash. -/
def DigestKept (s : Sha256State) (inputs : List Bytes) (issued : List Issued) : Prop :=
  NoneFails issued ∧ ¬ (s.ctx.buffer = [] ∧ inputs.flatten = [])

theorem digest_honest_iff :
    DigestHonest tsi output s is224 inputs ↔ DigestKept s inputs
      ((sha256Run tsi output s (sha256Digest is224 inputs)).2.port.issuedSince s.port) := by
  unfold DigestHonest sha256Digest
  simp only
  have hstarts := starts_ran tsi s.port s.ctx is224
  cases hstarts with
  | notOpened a b sid ha hret hlog =>
    have hlog : ((Sha256Op.starts is224).call tsi output s).2.port.log = _ := hlog
    have hret : ((Sha256Op.starts is224).call tsi output s).1 ≠ 0 := hret
    rw [sha256Run_cons_fail (.starts is224) hret hlog, issuedSince_eq hlog]
    exact iff_of_false (fun h => not_balanced_close ha h.balanced)
      fun h => ha (h.1 _ List.mem_cons_self)
  | started a e ha hinner hdigest hret hlog hsid hbuffer =>
    have hlog : ((Sha256Op.starts is224).call tsi output s).2.port.log = _ := hlog
    by_cases he : e.Ok
    · have hret' : ((Sha256Op.starts is224).call tsi output s).1 = 0 := hret.trans he
      have hrest := digest_ran tsi output inputs
        ((Sha256Op.starts is224).call tsi output s).2
      have hcalls := log_sha256Run tsi output
        (.starts is224 :: (inputs.map .update ++ [.finish])) s
      rw [sha256Run_cons (.starts is224) hret' hlog] at hcalls ⊢
      have hbuffer : ((Sha256Op.starts is224).call tsi output s).2.ctx.buffer = s.ctx.buffer :=
        hbuffer
      have hsid : ((Sha256Op.starts is224).call tsi output s).2.ctx.sid = a.sid := hsid
      have hmem : ((Sha256Op.starts is224).call tsi output s).2.mem = s.mem := rfl
      generalize (Sha256Op.starts is224).call tsi output s = r at *
      generalize sha256Run tsi output r.2 (inputs.map .update ++ [.finish]) = rest at *
      simp only at hcalls ⊢
      have hissued := issuedSince_eq hcalls
      cases hrest with
      | failed mid hmid hfail hlog' =>
        have hnew : rest.2.port.log = s.port.log ++ (⟨.openSession cCodeSha, a⟩ :: e :: mid) := by
          rw [hlog', hlog]
          simp
        rw [issuedSince_eq hnew]
        refine iff_of_false (fun h => not_balanced_open ha
          (List.forall_mem_cons.mpr ⟨hinner, hmid⟩) h.balanced) fun h => ?_
        obtain ⟨f, hf, hno⟩ := hfail
        exact hno (h.1 f (List.mem_cons_of_mem _ (List.mem_cons_of_mem _ hf)))
      | nothing mid hmid hlog' hempty =>
        have hnew : rest.2.port.log = s.port.log ++ (⟨.openSession cCodeSha, a⟩ :: e :: mid) := by
          rw [hlog', hlog]
          simp
        rw [issuedSince_eq hnew]
        refine iff_of_false (fun h => not_balanced_open ha
          (List.forall_mem_cons.mpr ⟨hinner, hmid⟩) h.balanced) fun h => h.2 ?_
        rw [← hbuffer]
        exact hempty
      | done mid f b hmid hall hdigest' hf hok hlast hne hlog' hzero hlen hmem' =>
        have hnew : rest.2.port.log = s.port.log ++ (⟨.openSession cCodeSha, a⟩ ::
            ((e :: (mid ++ [f])) ++ [⟨.closeSession cCodeSha a.sid, b⟩])) := by
          rw [hlog', hlog, hsid]
          simp
        have hzero' : ∀ c ∈ (0, [⟨.openSession cCodeSha, a⟩, e]) :: rest.1, c.1 = 0 :=
          List.forall_mem_cons.mpr ⟨rfl, hzero⟩
        have hinside : ∀ g ∈ e :: (mid ++ [f]), g.cmd.Inner := List.forall_mem_cons.mpr
          ⟨hinner, List.forall_mem_append.mpr ⟨hmid, List.forall_mem_singleton.mpr hf⟩⟩
        have hdigested : digested (⟨.openSession cCodeSha, a⟩ ::
            ((e :: (mid ++ [f])) ++ [⟨.closeSession cCodeSha a.sid, b⟩])) = f.ans.data := by
          show digested ([⟨.openSession cCodeSha, a⟩] ++
            ([e] ++ (mid ++ [f]) ++ [⟨.closeSession cCodeSha a.sid, b⟩])) = f.ans.data
          rw [digested_append, digested_append, digested_append, digested_append, hdigest, hdigest',
            hlast]
          exact List.append_nil _
        constructor
        · intro h
          refine ⟨?_, fun hnil => hne (by rw [hbuffer]; exact hnil)⟩
          rw [hissued]
          intro g hg
          obtain ⟨issued, hissued', hg⟩ := List.mem_flatten.mp hg
          obtain ⟨c, hc, rfl⟩ := List.mem_map.mp hissued'
          exact h.reported c hc (hzero' c hc) g hg
        · intro h
          refine ⟨fun c hc _ g hg => h.1 g ?_, fun _ => ?_,
            fun c hc hno => absurd (hzero' c hc) hno, ?_⟩
          · rw [hissued]
            exact List.mem_flatten.mpr ⟨c.2, List.mem_map_of_mem hc, hg⟩
          · rw [issuedSince_eq hnew, hdigested, hmem', hmem]
            exact ⟨rfl, hlen⟩
          · rw [issuedSince_eq hnew]
            exact balanced_session cCodeSha ha rfl hinside
    · have hret' : ((Sha256Op.starts is224).call tsi output s).1 ≠ 0 := by
        intro h0
        exact he (hret.symm.trans h0)
      rw [sha256Run_cons_fail (.starts is224) hret' hlog, issuedSince_eq hlog]
      refine iff_of_false (fun h => not_balanced_open ha (fun f hf => ?_) h.balanced)
        fun h => he (h.1 e (List.mem_cons_of_mem _ (List.mem_singleton_self e)))
      rw [List.mem_singleton.mp hf]
      exact hinner

end Digest

/-! ## All of them -/

/-- A call of an AES function, or the calls for a digest; data are in `mem`. -/
inductive CryptoCall
  | ecb (p : Port) (ctx : AesContext) (mode : Int) (input output : Block)
  | cbc (p : Port) (ctx : AesContext) (mode : Int) (len : Nat) (iv : Block)
    (mem : Nat → BitVec 8) (input output : Nat)
  | cfb128 (p : Port) (ctx : AesContext) (mode : Int) (len : Nat) (iv : Block)
    (mem : Nat → BitVec 8) (input output : Nat)
  | cfb8 (p : Port) (ctx : AesContext) (mode : Int) (iv : Block) (input : Bytes)
  | ctr (p : Port) (ctx : AesContext) (s : CtrState) (input : Bytes)
  | ofb (p : Port) (ctx : AesContext) (len ivOff : Nat) (iv : Block) (mem : Nat → BitVec 8)
    (input output : Nat)
  | sha256 (s : Sha256State) (is224 : Bool) (inputs : List Bytes) (output : Nat)

/-- What it reports, puts out and leaves open is what became of its commands. -/
def CryptoCall.Honest (tsi : Engine) : CryptoCall → Prop
  | .ecb p ctx mode input output => EcbHonest tsi p ctx mode input output
  | .cbc p ctx mode len iv mem input output =>
    ChainedHonest p (mbedtlsAesCryptCbc tsi p ctx mode len iv mem input output) len mem output
  | .cfb128 p ctx mode len iv mem input output =>
    ChainedHonest p (mbedtlsAesCryptCfb128 tsi p ctx mode len iv mem input output) len mem output
  | .cfb8 p ctx mode iv input => Cfb8Honest tsi p ctx mode iv input
  | .ctr p ctx s input => CtrHonest tsi p ctx s input
  | .ofb p ctx len ivOff iv mem input output =>
    ChainedHonest p (mbedtlsAesCryptOfb tsi p ctx len ivOff iv mem input output) len mem output
  | .sha256 s is224 inputs output => DigestHonest tsi output s is224 inputs

/-- The commands it issues -/
def CryptoCall.issued (tsi : Engine) : CryptoCall → List Issued
  | .ecb p ctx mode input output =>
    (mbedtlsAesCryptEcb tsi p ctx mode input output).1.port.issuedSince p
  | .cbc p ctx mode len iv mem input output =>
    (mbedtlsAesCryptCbc tsi p ctx mode len iv mem input output).1.port.issuedSince p
  | .cfb128 p ctx mode len iv mem input output =>
    (mbedtlsAesCryptCfb128 tsi p ctx mode len iv mem input output).1.port.issuedSince p
  | .cfb8 p ctx mode iv input => (mbedtlsAesCryptCfb8 tsi mode p ctx iv input).1.port.issuedSince p
  | .ctr p ctx s input => (mbedtlsAesCryptCtr tsi p ctx s input).1.port.issuedSince p
  | .ofb p ctx len ivOff iv mem input output =>
    (mbedtlsAesCryptOfb tsi p ctx len ivOff iv mem input output).1.port.issuedSince p
  | .sha256 s is224 inputs output =>
    (sha256Run tsi output s (sha256Digest is224 inputs)).2.port.issuedSince s.port

/-- Which commands may fail -/
def CryptoCall.Kept (tsi : Engine) (c : CryptoCall) : Prop :=
  match c with
  | .cbc _ _ _ len _ _ _ _ | .cfb128 _ _ _ len _ _ _ _ | .ofb _ _ len _ _ _ _ _ =>
    SessionKept (c.issued tsi) len
  | .sha256 s _ inputs _ => DigestKept s inputs (c.issued tsi)
  | _ => NoneFails (c.issued tsi)

/-- A TSI whose sessions are all taken, `ST_NO_AVAIL_SESSION` -/
def noSession : Engine where
  answer _ _ := ⟨0x12, 0, []⟩
  run_length _ _ _ _ h := absurd h (by decide)
  finish_length _ _ _ _ _ h := absurd h (by decide)
  uninit _ := 0

end Ma35d1.Tsi
