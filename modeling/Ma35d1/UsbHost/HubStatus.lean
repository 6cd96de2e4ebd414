import Mathlib.Algebra.GroupWithZero.Nat
import Mathlib.Data.List.FinRange
import Mathlib.Logic.Function.Basic
import Ma35d1.Machine.Trace

/-!
# Status changes of the hubs

A hub reports in its interrupt transfer which of its ports have changed, and `hub_status_irq` adds
the bits to `sc_bitmap`; the transfer is submitted again by `hub_polling`, which goes through the
table, hands the bits of a hub to `hub_status_change` and `port_status_change` and clears them. A
report can come between any two steps of a pass, and a request can take hubs from the table or bring
hubs to it.
-/

namespace Ma35d1.UsbHost.HubStatus

open Ma35d1.Machine.Trace

/-- An index of `g_hub_dev` -/
abbrev Slot := Fin 8

scoped instance neZeroSlot : NeZero 8 := ⟨by decide⟩

/-- `HUB_DEV_T`, as far as its status is concerned -/
structure HubDev where
  bNbrPorts : BitVec 8
  scBitmap : BitVec 16
  /-- the interrupt transfer is with the host controller -/
  queued : Bool
  deriving DecidableEq

/-- `g_hub_dev`, an entry being `none` where its `iface` is `NULL`, and `i` and `ret` of
`hub_polling` while `_hub_polling_mutex` is set -/
structure State where
  hubs : Slot → Option HubDev
  pass : Option (Nat × Int)

/-- What happens to the table: `hub_status_irq`, `hub_probe` and `hub_disconnect` -/
inductive Change
  | report (k : Slot) (status : Int) (buff : List (BitVec 8))
  | probe (ports : BitVec 8)
  | disconnect (k : Slot)
  deriving DecidableEq

/-- What the requests for a port come to, and what happens to the table meanwhile -/
structure Answers where
  status : Int
  wPortChange : BitVec 16
  clear : Nat → Int
  changes : List Change

/-- What a turn of the loop of `hub_polling` comes to -/
structure Turn where
  hubChange : List Change
  port : Nat → Answers
  submit : Int

/-- The bits that have been handed on, and whether the transfer has been submitted again -/
structure Served where
  handed : List Nat
  resubmitted : Bool
  deriving DecidableEq

/-- `PORT_C_CONNECTION` and what it is cleared with, and so on; the last one is compared with
`FS_C_PORT_RESET` itself. -/
def portFeatures : List (BitVec 16 × Nat) := [(1, 16), (2, 17), (4, 18), (8, 19), (20, 20)]

def Answers.clearChanges (a : Answers) : List (BitVec 16 × Nat) → Int
  | [] => 0
  | (mask, feature) :: rest =>
    if a.wPortChange &&& mask ≠ 0 ∧ a.clear feature < 0 then a.clear feature
    else a.clearChanges rest

/-- What `port_status_change` returns -/
def portStatusChange (a : Answers) : Int :=
  if a.status < 0 then a.status else a.clearChanges portFeatures

/-- `sc_bitmap |= buff[i] << (i * 8)` -/
def orBytes : BitVec 16 → Nat → List (BitVec 8) → BitVec 16
  | bits, _, [] => bits
  | bits, i, b :: bs => orBytes (bits ||| (b.setWidth 32 <<< (i * 8)).setWidth 16) (i + 1) bs

/-- `hub_status_irq` -/
def hubStatusIrq (hub : HubDev) (status : Int) (buff : List (BitVec 8)) : HubDev :=
  if status ≠ 0 then hub else { hub with scBitmap := orBytes hub.scBitmap 0 buff }

namespace State

variable (s : State)

def init : State := ⟨fun _ => none, none⟩

def setHub (k : Slot) (hub : Option HubDev) : State :=
  { s with hubs := Function.update s.hubs k hub }

/-- A report comes where the transfer is with the host controller, and a hub gets the first entry
that is free. -/
def change : Change → State
  | .report k status buff =>
    match s.hubs k with
    | none => s
    | some hub =>
      if hub.queued then s.setHub k (some { hubStatusIrq hub status buff with queued := false })
      else s
  | .probe ports =>
    match (List.finRange 8).find? fun k => (s.hubs k).isNone with
    | none => s
    | some k => s.setHub k (some ⟨ports, 0, true⟩)
  | .disconnect k => s.setHub k none

def changes (cs : List Change) : State := cs.foldl change s

/-- The loop over the ports in `hub_polling`; an entry that has been cleared has no ports. -/
def servePorts (o : Turn) (k : Slot) : Nat → Nat → State → Int → State × Int × List Nat
  | 0, _, s, ret => (s, ret, [])
  | fuel + 1, port, s, ret =>
    match s.hubs k with
    | none => (s, ret, [])
    | some hub =>
      if hub.bNbrPorts.toNat < port then (s, ret, [])
      else if hub.scBitmap.getLsbD port then
        if portStatusChange (o.port port) < 0 then
          (s.changes (o.port port).changes, portStatusChange (o.port port), [port])
        else
          let r := servePorts o k fuel (port + 1) (s.changes (o.port port).changes)
            (portStatusChange (o.port port))
          (r.1, r.2.1, port :: r.2.2)
      else servePorts o k fuel (port + 1) s ret

/-- `hub->sc_bitmap = 0`, and the transfer where `ret` is 0: `none` where there is no `utr`. -/
def resubmit (o : Turn) (k : Slot) (ret : Int) : Option (State × Int × Bool) :=
  match s.hubs k with
  | none => if ret = 0 then none else some (s, ret, false)
  | some hub =>
    if ret = 0 then
      some (s.setHub k (some { hub with scBitmap := 0, queued := hub.queued || o.submit = 0 }),
        o.submit, o.submit = 0)
    else some (s.setHub k (some { hub with scBitmap := 0 }), ret, false)

/-- A hub whose status has changed -/
def serve (o : Turn) (k : Slot) (hub : HubDev) (ret : Int) : Option (State × Int × Served) :=
  let s₁ := if hub.scBitmap.getLsbD 0 then s.changes o.hubChange else s
  let r := servePorts o k 255 1 s₁ ret
  (r.1.resubmit o k r.2.1).map fun t =>
    (t.1, t.2.1, ⟨(if hub.scBitmap.getLsbD 0 then [0] else []) ++ r.2.2, t.2.2⟩)

/-- A turn of the loop of `hub_polling`, or its end -/
def turn (o : Turn) : Option (State × Option Served) :=
  s.pass.bind fun p =>
    if h : p.1 < 8 then
      match s.hubs ⟨p.1, h⟩ with
      | none => some ({ s with pass := some (p.1 + 1, p.2) }, none)
      | some hub =>
        if hub.scBitmap = 0 then some ({ s with pass := some (p.1 + 1, p.2) }, none)
        else (s.serve o ⟨p.1, h⟩ hub p.2).map fun r =>
          ({ r.1 with pass := some (p.1 + 1, r.2.1) }, some r.2.2)
    else some ({ s with pass := none }, none)

end State

/-- `hub_polling` begins with whatever `ret` holds, and does nothing while it runs. -/
inductive Event
  | change (c : Change)
  | poll (ret : Int)
  | turn (o : Turn)

def step (s : State) : Event → Option State
  | .change c => some (s.change c)
  | .poll ret => some (if s.pass.isNone then { s with pass := some (0, ret) } else s)
  | .turn o => (s.turn o).map Prod.fst

namespace State

variable {s t : State} {o : Turn} {k j : Slot} {hub : HubDev} {c : Change} {cs : List Change}
  {ret : Int} {b port : Nat}

/-! ## The table meanwhile -/

theorem setHub_self (s : State) (k hub) : (s.setHub k hub).hubs k = hub :=
  Function.update_self ..

theorem setHub_of_ne (s : State) (hub) (h : j ≠ k) : (s.setHub k hub).hubs j = s.hubs j :=
  Function.update_of_ne h ..

@[simp] theorem change_pass (s : State) (c) : (s.change c).pass = s.pass := by
  cases c with
  | report k status buff =>
    simp only [change]
    split
    · rfl
    · split <;> rfl
  | probe ports =>
    simp only [change]
    split <;> rfl
  | disconnect k => rfl

@[simp] theorem changes_pass (s : State) (cs) : (s.changes cs).pass = s.pass := by
  induction cs generalizing s with
  | nil => rfl
  | cons c cs ih => exact (ih (s.change c)).trans (change_pass s c)

/-- An entry that is in use is not given to another hub. -/
theorem find_free_ne {l : List Slot} (hs : s.hubs k = some hub)
    (h : l.find? (fun k => (s.hubs k).isNone) = some j) : k ≠ j := by
  rintro rfl
  have hnone := List.find?_some h
  rw [hs] at hnone
  cases hnone

theorem orBytes_getLsbD {bits : BitVec 16} {i : Nat} {bs : List (BitVec 8)}
    (h : bits.getLsbD b = true) : (orBytes bits i bs).getLsbD b = true := by
  induction bs generalizing bits i with
  | nil => exact h
  | cons x bs ih =>
    apply ih
    rw [BitVec.getLsbD_or, h, Bool.true_or]

theorem hubStatusIrq_getLsbD {status : Int} {buff : List (BitVec 8)}
    (h : hub.scBitmap.getLsbD b = true) :
    (hubStatusIrq hub status buff).scBitmap.getLsbD b = true := by
  unfold hubStatusIrq
  split
  · exact h
  · exact orBytes_getLsbD h

/-- A bit of a hub that stays is not cleared by what happens to the table. -/
theorem change_getLsbD (hs : s.hubs k = some hub) (hb : hub.scBitmap.getLsbD b = true)
    (hc : c ≠ .disconnect k) :
    ∃ g, (s.change c).hubs k = some g ∧ g.scBitmap.getLsbD b = true := by
  cases c with
  | report j status buff =>
    by_cases hj : k = j
    · subst hj
      simp only [change, hs]
      split
      · exact ⟨_, setHub_self .., hubStatusIrq_getLsbD hb⟩
      · exact ⟨hub, hs, hb⟩
    · refine ⟨hub, ?_, hb⟩
      simp only [change]
      split
      · exact hs
      · split
        · exact (setHub_of_ne s _ hj).trans hs
        · exact hs
  | probe ports =>
    refine ⟨hub, ?_, hb⟩
    simp only [change]
    split
    · exact hs
    · rename_i j hj
      exact (setHub_of_ne s _ (find_free_ne hs hj)).trans hs
  | disconnect j =>
    have hj : k ≠ j := fun he => hc (congrArg _ he.symm)
    exact ⟨hub, (setHub_of_ne s _ hj).trans hs, hb⟩

theorem changes_getLsbD (hs : s.hubs k = some hub) (hb : hub.scBitmap.getLsbD b = true)
    (hc : .disconnect k ∉ cs) :
    ∃ g, (s.changes cs).hubs k = some g ∧ g.scBitmap.getLsbD b = true := by
  induction cs generalizing s hub with
  | nil => exact ⟨hub, hs, hb⟩
  | cons c cs ih =>
    obtain ⟨hhead, htail⟩ := List.ne_and_not_mem_of_not_mem_cons hc
    obtain ⟨g, hg, hgb⟩ := change_getLsbD hs hb hhead.symm
    exact ih hg hgb htail

/-- A hub whose transfer is not outstanding does not change while it stays. -/
theorem change_hub (hs : s.hubs k = some hub) (hq : hub.queued = false)
    (hc : c ≠ .disconnect k) : (s.change c).hubs k = some hub := by
  cases c with
  | report j status buff =>
    simp only [change]
    split
    · exact hs
    · rename_i g hg
      split
      · rename_i hgq
        have hj : k ≠ j := by
          rintro rfl
          obtain rfl := Option.some.inj (hs.symm.trans hg)
          rw [hq] at hgq
          cases hgq
        exact (setHub_of_ne s _ hj).trans hs
      · exact hs
  | probe ports =>
    simp only [change]
    split
    · exact hs
    · rename_i j hj
      exact (setHub_of_ne s _ (find_free_ne hs hj)).trans hs
  | disconnect j =>
    have hj : k ≠ j := fun he => hc (congrArg _ he.symm)
    exact (setHub_of_ne s _ hj).trans hs

theorem changes_hub (hs : s.hubs k = some hub) (hq : hub.queued = false)
    (hc : .disconnect k ∉ cs) : (s.changes cs).hubs k = some hub := by
  induction cs generalizing s with
  | nil => exact hs
  | cons c cs ih =>
    obtain ⟨hhead, htail⟩ := List.ne_and_not_mem_of_not_mem_cons hc
    exact ih (change_hub hs hq hhead.symm) htail

end State

/-! ## The requests for a port -/

/-- None of the requests that are made for a port fails. -/
def Answers.Ok (a : Answers) : Prop :=
  0 ≤ a.status ∧ ∀ f ∈ portFeatures, a.wPortChange &&& f.1 ≠ 0 → 0 ≤ a.clear f.2

instance (a : Answers) : Decidable a.Ok := inferInstanceAs (Decidable (_ ∧ _))

theorem Answers.clearChanges_nonpos (a : Answers) (l : List (BitVec 16 × Nat)) :
    a.clearChanges l ≤ 0 := by
  induction l with
  | nil => exact Int.le_refl 0
  | cons f l ih =>
    rw [clearChanges]
    split
    · exact Int.le_of_lt (by tauto)
    · exact ih

theorem Answers.clearChanges_iff (a : Answers) (l : List (BitVec 16 × Nat)) :
    0 ≤ a.clearChanges l ↔ ∀ f ∈ l, a.wPortChange &&& f.1 ≠ 0 → 0 ≤ a.clear f.2 := by
  induction l with
  | nil => simp [clearChanges]
  | cons f l ih =>
    rw [clearChanges, List.forall_mem_cons, ← ih]
    split
    · rename_i h
      exact ⟨fun hle => absurd h.2 (by omega), fun hall => absurd (hall.1 h.1) (by omega)⟩
    · rename_i h
      have hhead : a.wPortChange &&& f.1 ≠ 0 → 0 ≤ a.clear f.2 := fun hm =>
        Int.not_lt.mp fun hlt => h ⟨hm, hlt⟩
      exact ⟨fun hle => ⟨hhead, hle⟩, fun hall => hall.2⟩

theorem portStatusChange_nonpos (a : Answers) : portStatusChange a ≤ 0 := by
  unfold portStatusChange
  split
  · omega
  · exact a.clearChanges_nonpos _

theorem portStatusChange_iff (a : Answers) : 0 ≤ portStatusChange a ↔ a.Ok := by
  unfold portStatusChange Answers.Ok
  rw [← a.clearChanges_iff]
  split
  · omega
  · exact ⟨fun h => ⟨by omega, h⟩, fun h => h.2⟩

theorem portStatusChange_ok {a : Answers} (h : a.Ok) : portStatusChange a = 0 :=
  Int.le_antisymm (portStatusChange_nonpos a) ((portStatusChange_iff a).mpr h)

theorem portStatusChange_fails {a : Answers} (h : ¬ a.Ok) : portStatusChange a < 0 :=
  Int.not_le.mp fun hle => h ((portStatusChange_iff a).mp hle)

/-! ## The loop over the ports -/

/-- What can happen to the table in a turn -/
def Turn.Allows (o : Turn) (c : Change) : Prop := c ∈ o.hubChange ∨ ∃ p, c ∈ (o.port p).changes

/-- The ports of `l` are handed on, up to the first whose requests fail. -/
def handOn (o : Turn) : List Nat → Int → Int × List Nat
  | [], ret => (ret, [])
  | port :: l, _ =>
    if portStatusChange (o.port port) < 0 then (portStatusChange (o.port port), [port])
    else
      let r := handOn o l (portStatusChange (o.port port))
      (r.1, port :: r.2)

theorem handOn_ok {o : Turn} {l : List Nat} {ret : Int} (h : ∀ p ∈ l, (o.port p).Ok) :
    handOn o l ret = (if l = [] then ret else 0, l) := by
  induction l generalizing ret with
  | nil => rfl
  | cons p l ih =>
    obtain ⟨hp, hl⟩ := List.forall_mem_cons.mp h
    rw [handOn, portStatusChange_ok hp, if_neg (Int.lt_irrefl 0), ih hl]
    simp

theorem handOn_fails {o : Turn} {l : List Nat} {ret : Int} (h : ¬ ∀ p ∈ l, (o.port p).Ok) :
    (handOn o l ret).1 < 0 := by
  induction l generalizing ret with
  | nil => exact absurd (fun p hp => by cases hp) h
  | cons p l ih =>
    rw [handOn]
    by_cases hp : (o.port p).Ok
    · rw [portStatusChange_ok hp, if_neg (Int.lt_irrefl 0)]
      exact ih fun hl => h (List.forall_mem_cons.mpr ⟨hp, hl⟩)
    · rw [if_pos (portStatusChange_fails hp)]
      exact portStatusChange_fails hp

theorem handOn_subset (o : Turn) (l : List Nat) (ret : Int) : (handOn o l ret).2 ⊆ l := by
  induction l generalizing ret with
  | nil => exact List.Subset.refl _
  | cons p l ih =>
    rw [handOn]
    split
    · exact List.cons_subset_cons p (List.nil_subset l)
    · exact List.cons_subset_cons p (ih _)

/-- The ports whose bits are set, from `port` on -/
def HubDev.flagged (hub : HubDev) (port : Nat) : List Nat :=
  (List.range' port (hub.bNbrPorts.toNat + 1 - port)).filter fun p => hub.scBitmap.getLsbD p

theorem HubDev.mem_flagged {hub : HubDev} {port b : Nat} : b ∈ hub.flagged port ↔
    (port ≤ b ∧ b ≤ hub.bNbrPorts.toNat) ∧ hub.scBitmap.getLsbD b = true := by
  unfold flagged
  rw [List.mem_filter, List.mem_range'_1]
  exact and_congr_left' ⟨fun h => by omega, fun h => by omega⟩

theorem HubDev.flagged_of_lt {hub : HubDev} {port : Nat} (h : hub.bNbrPorts.toNat < port) :
    hub.flagged port = [] := by
  unfold flagged
  rw [Nat.sub_eq_zero_of_le h]
  rfl

theorem HubDev.flagged_cons {hub : HubDev} {port : Nat} (h : ¬ hub.bNbrPorts.toNat < port) :
    hub.flagged port = if hub.scBitmap.getLsbD port then port :: hub.flagged (port + 1)
      else hub.flagged (port + 1) := by
  unfold flagged
  rw [show hub.bNbrPorts.toNat + 1 - port = hub.bNbrPorts.toNat + 1 - (port + 1) + 1 by omega,
    List.range'_succ, List.filter_cons]

namespace State

variable {s t : State} {o : Turn} {k j : Slot} {hub : HubDev} {c : Change} {cs : List Change}
  {ret : Int} {b port : Nat}

/-- The hub stays as it is while its ports are handed on one after the other. -/
theorem servePorts_eq {fuel : Nat} (hs : s.hubs k = some hub) (hq : hub.queued = false)
    (hspared : ∀ p, .disconnect k ∉ (o.port p).changes) (hf : hub.bNbrPorts.toNat < port + fuel) :
    (servePorts o k fuel port s ret).2 = handOn o (hub.flagged port) ret ∧
      (servePorts o k fuel port s ret).1.hubs k = some hub := by
  induction fuel generalizing s port ret with
  | zero =>
    rw [HubDev.flagged_of_lt (by omega)]
    exact ⟨rfl, hs⟩
  | succ fuel ih =>
    rw [servePorts, hs]
    by_cases hlt : hub.bNbrPorts.toNat < port
    · simp only [hlt, if_true, HubDev.flagged_of_lt hlt]
      exact ⟨rfl, hs⟩
    · have hkeep := changes_hub hs hq (hspared port)
      simp only [hlt, if_false, HubDev.flagged_cons hlt]
      split
      · rw [handOn]
        split
        · exact ⟨rfl, hkeep⟩
        · have hrest : (servePorts o k fuel (port + 1) (s.changes (o.port port).changes)
              (portStatusChange (o.port port))).2 = _ ∧ _ := ih hkeep (by omega)
          exact ⟨by simp only [← hrest.1], hrest.2⟩
      · exact ih hs (by omega)

theorem resubmit_eq (o : Turn) (ret) (hs : s.hubs k = some hub) : ∃ t r,
    s.resubmit o k ret = some (t, r, decide (ret = 0 ∧ o.submit = 0)) := by
  unfold resubmit
  rw [hs]
  by_cases h0 : ret = 0 <;> simp [h0]

/-- What a hub has of a turn in which it is not disconnected -/
theorem serve_eq (hs : s.hubs k = some hub) (hq : hub.queued = false)
    (hspared : .disconnect k ∉ o.hubChange ∧ ∀ p, .disconnect k ∉ (o.port p).changes) :
    ∃ t r, s.serve o k hub ret = some (t, r,
      ⟨(if hub.scBitmap.getLsbD 0 then [0] else []) ++ (handOn o (hub.flagged 1) ret).2,
        decide ((handOn o (hub.flagged 1) ret).1 = 0 ∧ o.submit = 0)⟩) := by
  have hs₁ : (if hub.scBitmap.getLsbD 0 then s.changes o.hubChange else s).hubs k = some hub := by
    split
    · exact changes_hub hs hq hspared.1
    · exact hs
  have hlt := hub.bNbrPorts.isLt
  have hports : (servePorts o k 255 1 _ ret).2 = _ ∧ (servePorts o k 255 1 _ ret).1.hubs k = _ :=
    servePorts_eq hs₁ hq hspared.2 (by omega)
  obtain ⟨hret, hk⟩ := hports
  obtain ⟨t, r, hr⟩ := resubmit_eq o (handOn o (hub.flagged 1) ret).1 hk
  refine ⟨t, r, ?_⟩
  unfold serve
  simp only [hret, hr, Option.map_some]

/-! ## The law -/

/-- The hub whose turn it is, its status having changed -/
def At (s : State) (k : Slot) (ret : Int) (hub : HubDev) : Prop :=
  s.pass = some (k.val, ret) ∧ s.hubs k = some hub ∧ hub.scBitmap ≠ 0

/-- Every bit of the hub is handed on, and its transfer is submitted again. -/
def TurnLaw (s : State) (o : Turn) : Prop :=
  ∀ k ret hub, s.At k ret hub → ∃ t v, s.turn o = some (t, some v) ∧
    (∀ b, hub.scBitmap.getLsbD b = true → b ∈ v.handed) ∧ v.resubmitted = true

/-- The hub has the ports that it reports, no request for them fails, and the transfer is taken; if
only the hub bit is set, `ret` is 0. -/
def TurnKept (s : State) (o : Turn) : Prop :=
  ∀ k ret hub, s.At k ret hub →
    (∀ b, 1 ≤ b → hub.scBitmap.getLsbD b = true → b ≤ hub.bNbrPorts.toNat ∧ (o.port b).Ok) ∧
      ((∃ b, 1 ≤ b ∧ hub.scBitmap.getLsbD b = true) ∨ ret = 0) ∧ o.submit = 0

/-- The hub whose turn it is stays. -/
def Spared (s : State) (o : Turn) : Prop :=
  ∀ k ret hub, s.At k ret hub →
    .disconnect k ∉ o.hubChange ∧ ∀ p, .disconnect k ∉ (o.port p).changes

/-- A transfer that is outstanding has left no bits. -/
def Quiet (s : State) : Prop :=
  ∀ k hub, s.hubs k = some hub → hub.queued = true → hub.scBitmap = 0

theorem turn_at (h : s.At k ret hub) : s.turn o = (s.serve o k hub ret).map fun r =>
    ({ r.1 with pass := some (k.val + 1, r.2.1) }, some r.2.2) := by
  obtain ⟨hp, hs, hb⟩ := h
  unfold turn
  simp only [hp, Option.bind_some, k.isLt, dif_pos, hs, hb, if_false]

/-- The ports that are handed on are those that have changed, exactly under the condition. -/
theorem handOn_iff : ((∀ b, hub.scBitmap.getLsbD b = true →
      b ∈ (if hub.scBitmap.getLsbD 0 then [0] else []) ++ (handOn o (hub.flagged 1) ret).2) ∧
    (handOn o (hub.flagged 1) ret).1 = 0 ∧ o.submit = 0) ↔
    (∀ b, 1 ≤ b → hub.scBitmap.getLsbD b = true → b ≤ hub.bNbrPorts.toNat ∧ (o.port b).Ok) ∧
      ((∃ b, 1 ≤ b ∧ hub.scBitmap.getLsbD b = true) ∨ ret = 0) ∧ o.submit = 0 := by
  by_cases hok : ∀ p ∈ hub.flagged 1, (o.port p).Ok
  · rw [handOn_ok hok]
    constructor
    · rintro ⟨hall, hret, hsubmit⟩
      have hmem : ∀ b, 1 ≤ b → hub.scBitmap.getLsbD b = true → b ∈ hub.flagged 1 := by
        intro b hb hbit
        rcases List.mem_append.mp (hall b hbit) with h0 | hmem
        · split at h0
          · have := List.mem_singleton.mp h0
            omega
          · cases h0
        · exact hmem
      refine ⟨fun b hb hbit => ⟨(HubDev.mem_flagged.mp (hmem b hb hbit)).1.2,
        hok b (hmem b hb hbit)⟩, ?_, hsubmit⟩
      by_cases hl : hub.flagged 1 = []
      · simp only [hl, if_true] at hret
        exact .inr hret
      · obtain ⟨p, hp⟩ := List.exists_mem_of_ne_nil _ hl
        obtain ⟨⟨h1, -⟩, hbit⟩ := HubDev.mem_flagged.mp hp
        exact .inl ⟨p, h1, hbit⟩
    · rintro ⟨hall, hany, hsubmit⟩
      refine ⟨fun b hbit => List.mem_append.mpr ?_, ?_, hsubmit⟩
      · by_cases hb : b = 0
        · subst hb
          exact .inl (by simp [hbit])
        · have h1 : 1 ≤ b := Nat.one_le_iff_ne_zero.mpr hb
          exact .inr (HubDev.mem_flagged.mpr ⟨⟨h1, (hall b h1 hbit).1⟩, hbit⟩)
      · rcases hany with ⟨b, h1, hbit⟩ | h0
        · have hmem := HubDev.mem_flagged.mpr ⟨⟨h1, (hall b h1 hbit).1⟩, hbit⟩
          exact if_neg (List.ne_nil_of_mem hmem)
        · show (if _ then ret else 0) = 0
          rw [h0, ite_self]
  · have hlt : (handOn o (hub.flagged 1) ret).1 < 0 := handOn_fails hok
    refine iff_of_false (fun h => by omega) fun h => hok fun p hp => ?_
    obtain ⟨⟨h1, -⟩, hbit⟩ := HubDev.mem_flagged.mp hp
    exact (h.1 p h1 hbit).2

theorem Quiet.turnLaw_iff (hq : Quiet s) (hspared : s.Spared o) : s.TurnLaw o ↔ s.TurnKept o := by
  refine forall_congr' fun k => forall_congr' fun ret => forall_congr' fun hub =>
    forall_congr' fun hat => ?_
  have hbusy : hub.queued = false := by
    refine Bool.eq_false_iff.mpr fun h => hat.2.2 (hq k hub hat.2.1 h)
  obtain ⟨t, r, hserve⟩ : ∃ t r, s.serve o k hub ret = some (t, r, _) :=
    serve_eq hat.2.1 hbusy (hspared k ret hub hat)
  rw [turn_at hat, hserve, ← handOn_iff]
  simp

/-! ## What a turn leaves alone -/

theorem changes_append (s : State) (cs ds) :
    s.changes (cs ++ ds) = (s.changes cs).changes ds := List.foldl_append

/-- The loop over the ports leaves the table to what happens meanwhile. -/
theorem servePorts_changes (o : Turn) (k : Slot) (fuel port : Nat) (s : State) (ret : Int) :
    ∃ cs, (servePorts o k fuel port s ret).1 = s.changes cs ∧
      ∀ c ∈ cs, ∃ p, c ∈ (o.port p).changes := by
  induction fuel generalizing s port ret with
  | zero => exact ⟨[], rfl, fun c hc => by cases hc⟩
  | succ fuel ih =>
    rw [servePorts]
    split
    · exact ⟨[], rfl, fun c hc => by cases hc⟩
    · split
      · exact ⟨[], rfl, fun c hc => by cases hc⟩
      · split
        · split
          · exact ⟨(o.port port).changes, rfl, fun c hc => ⟨port, hc⟩⟩
          · obtain ⟨cs, heq, hcs⟩ := ih (port + 1) (s.changes (o.port port).changes)
              (portStatusChange (o.port port))
            refine ⟨(o.port port).changes ++ cs, ?_, fun c hc => ?_⟩
            · rw [changes_append]
              exact heq
            · exact (List.mem_append.mp hc).elim (fun h => ⟨port, h⟩) (hcs c)
        · exact ih (port + 1) s ret

/-- The bits of the hub whose turn it is are cleared, and those of the others are not written. -/
theorem serve_changes {v : Served} {r : Int} (h : s.serve o k hub ret = some (t, r, v)) :
    ∃ cs, (∀ c ∈ cs, o.Allows c) ∧ (∀ j ≠ k, t.hubs j = (s.changes cs).hubs j) ∧
      ∀ g, t.hubs k = some g → g.scBitmap = 0 := by
  unfold serve at h
  obtain ⟨⟨u, r', again⟩, hu, h⟩ := Option.map_eq_some_iff.mp h
  obtain ⟨rfl, -⟩ := Prod.mk.inj h
  obtain ⟨ds, hds⟩ : ∃ ds, (if hub.scBitmap.getLsbD 0 then s.changes o.hubChange else s) =
      s.changes ds ∧ ∀ c ∈ ds, c ∈ o.hubChange := by
    split
    · exact ⟨o.hubChange, rfl, fun c hc => hc⟩
    · exact ⟨[], rfl, fun c hc => by cases hc⟩
  obtain ⟨cs, hcs, hport⟩ := servePorts_changes o k 255 1 (s.changes ds) ret
  refine ⟨ds ++ cs, fun c hc => ?_, ?_⟩
  · exact (List.mem_append.mp hc).imp (hds.2 c) (hport c)
  simp only [hds.1, hcs] at hu
  rw [changes_append]
  generalize (s.changes ds).changes cs = w at hu ⊢
  unfold resubmit at hu
  split at hu
  · rename_i hnone
    split at hu
    · cases hu
    · obtain ⟨rfl, -⟩ := Prod.mk.inj (Option.some.inj hu)
      exact ⟨fun j _ => rfl, fun g hg => by rw [hnone] at hg; cases hg⟩
  · split at hu <;>
      obtain ⟨rfl, -⟩ := Prod.mk.inj (Option.some.inj hu) <;>
      refine ⟨fun j hj => setHub_of_ne _ _ hj, fun g hg => ?_⟩ <;>
      · rw [setHub_self] at hg
        obtain rfl := Option.some.inj hg
        rfl

theorem turn_cases {v : Option Served} (h : s.turn o = some (t, v)) :
    t.hubs = s.hubs ∨ ∃ k ret hub u r w, s.At k ret hub ∧ s.serve o k hub ret = some (u, r, w) ∧
      t.hubs = u.hubs := by
  unfold turn at h
  obtain ⟨p, hp, h⟩ := Option.bind_eq_some_iff.mp h
  split at h
  · rename_i hlt
    split at h
    · obtain ⟨rfl, -⟩ := Prod.mk.inj (Option.some.inj h)
      exact .inl rfl
    · rename_i hub hs
      split at h
      · obtain ⟨rfl, -⟩ := Prod.mk.inj (Option.some.inj h)
        exact .inl rfl
      · rename_i hb
        obtain ⟨⟨u, r, w⟩, hu, h⟩ := Option.map_eq_some_iff.mp h
        obtain ⟨rfl, -⟩ := Prod.mk.inj h
        exact .inr ⟨⟨p.1, hlt⟩, p.2, hub, u, r, w, ⟨hp, hs, hb⟩, hu, rfl⟩
  · obtain ⟨rfl, -⟩ := Prod.mk.inj (Option.some.inj h)
    exact .inl rfl

/-! ## Runs -/

theorem Quiet.change (hq : Quiet s) (c : Change) : Quiet (s.change c) := by
  intro k hub hk hbusy
  cases c with
  | report j status buff =>
    simp only [State.change] at hk
    split at hk
    · exact hq k hub hk hbusy
    · split at hk
      · by_cases hj : k = j
        · subst hj
          rw [setHub_self] at hk
          obtain rfl := Option.some.inj hk
          cases hbusy
        · rw [setHub_of_ne s _ hj] at hk
          exact hq k hub hk hbusy
      · exact hq k hub hk hbusy
  | probe ports =>
    simp only [State.change] at hk
    split at hk
    · exact hq k hub hk hbusy
    · rename_i j _
      by_cases hj : k = j
      · subst hj
        rw [setHub_self] at hk
        obtain rfl := Option.some.inj hk
        rfl
      · rw [setHub_of_ne s _ hj] at hk
        exact hq k hub hk hbusy
  | disconnect j =>
    by_cases hj : k = j
    · subst hj
      rw [State.change, setHub_self] at hk
      cases hk
    · rw [State.change, setHub_of_ne s _ hj] at hk
      exact hq k hub hk hbusy

theorem Quiet.changes (hq : Quiet s) (cs : List Change) : Quiet (s.changes cs) := by
  induction cs generalizing s with
  | nil => exact hq
  | cons c cs ih => exact ih (hq.change c)

theorem Quiet.step {e : Event} (hq : Quiet s) (h : step s e = some t) : Quiet t := by
  cases e with
  | change c => exact Option.some.inj h ▸ hq.change c
  | poll ret =>
    obtain rfl := Option.some.inj h
    split
    · exact hq
    · exact hq
  | turn o =>
    obtain ⟨⟨t', v⟩, ht, rfl⟩ := Option.map_eq_some_iff.mp h
    intro j g hg hbusy
    rcases turn_cases ht with heq | ⟨k, ret, hub, u, r, w, hat, hu, heq⟩
    · exact hq j g (heq ▸ hg) hbusy
    · obtain ⟨cs, -, hother, hself⟩ := serve_changes hu
      have hg' : u.hubs j = some g := heq ▸ hg
      by_cases hj : j = k
      · subst hj
        exact hself g hg'
      · exact hq.changes cs j g ((hother j hj).symm.trans hg') hbusy

/-- The hub is disconnected, or has its turn. -/
def Clears (s : State) (k : Slot) : Event → Prop
  | .change c => c = .disconnect k
  | .poll _ => False
  | .turn o => (∃ ret hub, s.At k ret hub) ∨ o.Allows (.disconnect k)

/-- A bit that is set stays set until the hub is disconnected or has its turn. -/
def Stays (s : State) : Prop :=
  ∀ e t, step s e = some t → ∀ k hub b, s.hubs k = some hub → hub.scBitmap.getLsbD b = true →
    s.Clears k e ∨ ∃ g, t.hubs k = some g ∧ g.scBitmap.getLsbD b = true

theorem stays (s : State) : s.Stays := by
  intro e t h k hub b hs hb
  refine or_iff_not_imp_left.mpr fun hnot => ?_
  cases e with
  | change c => exact Option.some.inj h ▸ change_getLsbD hs hb hnot
  | poll ret =>
    obtain rfl := Option.some.inj h
    refine ⟨hub, ?_, hb⟩
    split
    · exact hs
    · exact hs
  | turn o =>
    obtain ⟨hturn, hspared⟩ := not_or.mp hnot
    obtain ⟨⟨t', v⟩, ht, rfl⟩ := Option.map_eq_some_iff.mp h
    rcases turn_cases ht with heq | ⟨j, ret, g, u, r, w, hat, hu, heq⟩
    · exact ⟨hub, (congrFun heq k).trans hs, hb⟩
    · have hne : k ≠ j := by
        rintro rfl
        exact hturn ⟨ret, g, hat⟩
      obtain ⟨cs, hallow, hother, -⟩ := serve_changes hu
      obtain ⟨g', hg', hgb⟩ := changes_getLsbD hs hb fun hmem => hspared (hallow _ hmem)
      exact ⟨g', (congrFun heq k).trans ((hother k hne).trans hg'), hgb⟩

theorem quiet_init : init.Quiet := fun k hub hk => by cases hk

/-- A report always comes to a bitmap that has been cleared. -/
theorem quiet_always (es : List Event) : Always step Quiet init es :=
  always_of_step (fun _ _ _ hq ht => Quiet.step hq ht) quiet_init

/-- A hub with four ports reports its first two, and `hub_polling` comes to it. -/
def twoPorts : List Event :=
  [.change (.probe 4), .change (.report 0 0 [0x06]), .poll 0]

/-- The status of the first port is not read. -/
def firstFails : Turn := ⟨[], fun p => ⟨if p = 1 then -1 else 0, 1, fun _ => 0, []⟩, 0⟩

end State

end Ma35d1.UsbHost.HubStatus
