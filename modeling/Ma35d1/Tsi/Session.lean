import Mathlib.Algebra.GroupWithZero.Nat
import Mathlib.Data.List.Basic

/-!
# Sessions of the TSI

AES and SHA are done in sessions of the TSI, each of which is opened, set up, used and closed with
commands. What the TSI answers depends on all it has been sent.
-/

namespace Ma35d1.Tsi

abbrev Bytes := List (BitVec 8)

/-- `C_CODE_AES` and `C_CODE_SHA` -/
def cCodeAes : Nat := 0x04
def cCodeSha : Nat := 0x05

inductive TsiCmd
  | openSession (classCode : Nat)
  | closeSession (classCode sid : Nat)
  | aesSetIv (sid : Nat) (iv : Bytes)
  | aesSetKey (sid keysz : Nat) (key : Bytes)
  | aesSetMode (sid koutswap encrypt mode keysz : Nat)
  | aesRun (sid : Nat) (dataCnt : Int) (src : Bytes)
  | shaStart (sid mode : Nat)
  | shaUpdate (sid dataCnt : Nat) (src : Bytes)
  | shaFinish (sid wcnt dataCnt : Nat) (src : Bytes)
  deriving DecidableEq

/-- What comes back for a command: what its function returns, the session that was opened, and the
bytes that were written to memory -/
structure Answer where
  ret : Int
  sid : Nat
  data : Bytes
  deriving DecidableEq

structure Issued where
  cmd : TsiCmd
  ans : Answer
  deriving DecidableEq

def Issued.Ok (e : Issued) : Prop := e.ans.ret = 0

instance (e : Issued) : Decidable e.Ok := inferInstanceAs (Decidable (_ = _))

/-- The TSI -/
structure Engine where
  answer : List Issued → TsiCmd → Answer
  /-- a run that succeeds writes as many bytes as it was asked for, and a digest its words -/
  run_length : ∀ log sid n src, (answer log (.aesRun sid n src)).ret = 0 →
    (answer log (.aesRun sid n src)).data.length = n.toNat
  finish_length : ∀ log sid wcnt n src, (answer log (.shaFinish sid wcnt n src)).ret = 0 →
    (answer log (.shaFinish sid wcnt n src)).data.length = 4 * wcnt
  /-- what a session id holds that has not been set -/
  uninit : List Issued → Nat

/-- The driver's side: what has been sent, the buffers, each with the memory behind it, and whether
something was written behind one -/
structure Port where
  log : List Issued
  u8in : Nat → BitVec 8
  u8out : Nat → BitVec 8
  sha256DmaBuff : Nat → BitVec 8
  stray : Bool

def Engine.ask (tsi : Engine) (p : Port) (cmd : TsiCmd) : Answer := tsi.answer p.log cmd

def Engine.send (tsi : Engine) (p : Port) (cmd : TsiCmd) : Port :=
  { p with log := p.log ++ [⟨cmd, tsi.ask p cmd⟩] }

/-- The commands are sent up to the first that fails. -/
def Engine.sendAll (tsi : Engine) : Port → List TsiCmd → Int × Port
  | p, [] => (0, p)
  | p, cmd :: cmds =>
    if (tsi.ask p cmd).ret ≠ 0 then ((tsi.ask p cmd).ret, tsi.send p cmd)
    else tsi.sendAll (tsi.send p cmd) cmds

/-! ## Balance -/

/-- The sessions that are open after a command; `none` where one is closed that is not open -/
def sessionStep (opened : List Nat) (e : Issued) : Option (List Nat) :=
  match e.cmd with
  | .openSession _ => some (if e.Ok then e.ans.sid :: opened else opened)
  | .closeSession _ sid => if sid ∈ opened then some (opened.erase sid) else none
  | _ => some opened

/-- Every session that was opened is closed once, and no other is closed. -/
def Balanced (issued : List Issued) : Prop := issued.foldlM sessionStep [] = some []

instance (issued : List Issued) : Decidable (Balanced issued) := inferInstanceAs (Decidable (_ = _))

/-- What has been sent since -/
def Port.issuedSince (p before : Port) : List Issued := p.log.drop before.log.length

section Lemmas

variable {tsi : Engine} {p : Port} {cmd : TsiCmd} {new rest : List Issued}
  {opened : List Nat}

@[simp] theorem log_send : (tsi.send p cmd).log = p.log ++ [⟨cmd, tsi.ask p cmd⟩] := rfl
@[simp] theorem u8out_send : (tsi.send p cmd).u8out = p.u8out := rfl
@[simp] theorem u8in_send : (tsi.send p cmd).u8in = p.u8in := rfl
@[simp] theorem stray_send : (tsi.send p cmd).stray = p.stray := rfl

theorem issuedSince_eq {q : Port} (h : q.log = p.log ++ new) : q.issuedSince p = new := by
  rw [Port.issuedSince, h, List.drop_left]

@[simp] theorem issuedSince_self : p.issuedSince p = [] := List.drop_length ..

/-- A command of a session that neither opens nor closes one -/
def TsiCmd.Inner : TsiCmd → Prop
  | .openSession _ | .closeSession _ _ => False
  | _ => True

theorem foldlM_inner (h : ∀ e ∈ new, e.cmd.Inner) :
    new.foldlM sessionStep opened = some opened := by
  induction new with
  | nil => rfl
  | cons e new ih =>
    have he := h e List.mem_cons_self
    have hstep : sessionStep opened e = some opened := by
      unfold sessionStep
      unfold TsiCmd.Inner at he
      split at he
      · exact he.elim
      · exact he.elim
      · rfl
    rw [List.foldlM_cons, hstep]
    exact ih fun f hf => h f (List.mem_cons_of_mem e hf)

theorem Balanced.append (h : Balanced new) (hrest : Balanced rest) : Balanced (new ++ rest) := by
  unfold Balanced at h hrest ⊢
  rw [List.foldlM_append, h]
  exact hrest

/-- A session that is opened, used and closed -/
theorem balanced_session (classCode : Nat) {sid : Nat} {a b : Answer} (ha : a.ret = 0)
    (hsid : a.sid = sid) (h : ∀ e ∈ new, e.cmd.Inner) :
    Balanced (⟨.openSession classCode, a⟩ :: (new ++ [⟨.closeSession classCode sid, b⟩])) := by
  unfold Balanced
  rw [List.foldlM_cons]
  simp only [sessionStep, Issued.Ok, ha, if_true, Option.bind_eq_bind, Option.bind_some]
  rw [List.foldlM_append, foldlM_inner h]
  simp [List.foldlM, sessionStep, hsid]

/-- A session is closed that was not opened. -/
theorem not_balanced_close {classCode sid : Nat} {a b : Answer} (ha : a.ret ≠ 0) :
    ¬ Balanced [⟨.openSession classCode, a⟩, ⟨.closeSession classCode sid, b⟩] := by
  unfold Balanced
  simp [List.foldlM, sessionStep, Issued.Ok, ha]

/-- A session is left open. -/
theorem not_balanced_open {classCode : Nat} {a : Answer} (ha : a.ret = 0)
    (h : ∀ e ∈ new, e.cmd.Inner) : ¬ Balanced (⟨.openSession classCode, a⟩ :: new) := by
  unfold Balanced
  rw [List.foldlM_cons]
  simp only [sessionStep, Issued.Ok, ha, if_true, Option.bind_eq_bind, Option.bind_some]
  rw [foldlM_inner h]
  exact fun hnil => List.cons_ne_nil _ _ (Option.some.inj hnil)

/-- What the commands of a list add to the log -/
theorem log_sendAll (tsi : Engine) (p : Port) (cmds : List TsiCmd) :
    ∃ new, (tsi.sendAll p cmds).2 = { p with log := p.log ++ new } ∧ (∀ e ∈ new, e.cmd ∈ cmds) ∧
      (((tsi.sendAll p cmds).1 = 0 ∧ ∀ e ∈ new, e.Ok) ∨
        ((tsi.sendAll p cmds).1 ≠ 0 ∧ ∃ e ∈ new, ¬ e.Ok)) := by
  induction cmds generalizing p with
  | nil => exact ⟨[], by simp [Engine.sendAll], by simp, .inl ⟨rfl, by simp⟩⟩
  | cons cmd cmds ih =>
    rw [Engine.sendAll]
    split
    · rename_i hret
      refine ⟨[⟨cmd, tsi.ask p cmd⟩], rfl, fun e he => ?_,
        .inr ⟨hret, _, List.mem_singleton_self _, hret⟩⟩
      rw [List.mem_singleton.mp he]
      exact List.mem_cons_self
    · rename_i hret
      obtain ⟨new, hlog, hmem, hall⟩ := ih (tsi.send p cmd)
      refine ⟨⟨cmd, tsi.ask p cmd⟩ :: new, ?_, ?_, ?_⟩
      · rw [hlog, Engine.send]
        simp
      · intro e he
        rcases List.mem_cons.mp he with rfl | he
        · exact List.mem_cons_self
        · exact List.mem_cons_of_mem cmd (hmem e he)
      · refine hall.imp (fun h => ⟨h.1, fun e he => ?_⟩) fun h => ?_
        · rcases List.mem_cons.mp he with rfl | he
          · exact not_not.mp hret
          · exact h.2 e he
        · obtain ⟨hne, e, he, hno⟩ := h
          exact ⟨hne, e, List.mem_cons_of_mem _ he, hno⟩

end Lemmas

end Ma35d1.Tsi
