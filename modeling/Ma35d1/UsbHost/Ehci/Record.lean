import Ma35d1.UsbHost.Ehci.ListOps
import Ma35d1.UsbHost.Ehci.Runs

/-!
# What the record of a run must show

Conditions on the events of a run: submissions and completions alternate, a free
hits a unit that no list leads to, the slots of an isochronous request are written
once each, and a unit taken off its schedule is freed in answer to a later doorbell.
-/

namespace Ma35d1.UsbHost.Ehci

open Heap.LinkedPath Heap.IntervalTree

/-! ## Frees -/

/-- The successor of a unit in the schedules. -/
def hNext (m : Links) (a : Addr) : Ptr := (m.hLink a).ptr

/-- A list that the driver or the controller follows leads to `a`. -/
inductive OnLists (m : Links) (a : Addr) : Prop
  | ring (h : Reach (hNext m) (some m.hQh) a)
  | chain (h : Reach (hNext m) (some (m.iqh (numIqh - 1))) a)
  | queued (q : Addr) (hq : m.pool.unit q = some .qh) (h : Reach m.qtdNext (m.qtdList q) a)
  | done (q : Addr) (hq : m.pool.unit q = some .qh) (h : Reach m.qtdNext (m.doneList q) a)
  | removed (h : Reach m.qhNext m.qhRemoveList a)
  | frame (idx : Nat) (hi : idx < flSize) (h : Reach (hNext m) (m.pfList idx).ptr a)

/-- The freed unit is in use as `k`, and no list leads to it. -/
def FreeOk : Event → Prop
  | .free k a m _ => m.pool.unit a = some k ∧ ¬ OnLists m a
  | _ => True

section Reach

variable {m : Links} {v : View} {a : Addr}

theorem Shape.reach_ring (hs : Shape m v) :
    Reach (hNext m) (some m.hQh) a ↔ a = m.hQh ∨ a ∈ v.ring :=
  Path.reach_ring (hs.ring.2.map Link.ptr)

theorem Shape.reach_chain (hs : Shape m v) :
    Reach (hNext m) (some (m.iqh (numIqh - 1))) a ↔ a ∈ chainFrom m.iqh v.under numIqh :=
  Path.reach_iff (hs.chain.map Link.ptr)

/-- The units met from frame `idx`: its descriptors and then the interval heads. -/
def frameNodes (m : Links) (v : View) (idx : Nat) : List Addr :=
  v.frame idx ++ chainFrom m.iqh v.under (level idx + 1)

/-- The chain from the head `_Iqh[i]`. -/
theorem Shape.chain_from (hs : Shape m v) {i : Nat} (hi : i < numIqh) :
    Path Link.qh m.hLink (.qh (m.iqh i)) (chainFrom m.iqh v.under (i + 1)) .terminate := by
  obtain ⟨pre, hpre⟩ := chainFrom_suffix m.iqh v.under (Nat.succ_le_of_lt hi)
  have hc := hs.chain
  rw [hpre] at hc
  exact ⟨rfl, hc.start_eq.2⟩

theorem Shape.reach_frame (hs : Shape m v) {idx : Nat} (hi : idx < flSize) :
    Reach (hNext m) (m.pfList idx).ptr a ↔ a ∈ frameNodes m v idx := by
  have hf := (hs.frame idx hi).map Link.ptr
  have hc := (hs.chain_from (level_lt idx)).map Link.ptr
  refine Path.reach_iff (path_append.mpr ⟨_, hf.congr (fun b _ => tdLink_ptr m b) fun _ _ => rfl, ?_⟩)
  exact hc

/-- No list leads to a unit that is free or held. -/
theorem Off.not_onLists (hs : Shape m v) (ha : Off v a) : ¬ OnLists m a := by
  intro ho
  cases ho with
  | ring h => exact ha.not_mem_ring hs (List.mem_cons.mpr (hs.reach_ring.mp h))
  | chain h => exact ha.not_mem_chain hs (hs.reach_chain.mp h)
  | queued q hq h => exact ha.not_mem hs (.queued q) ((hs.queued q hq).mem_of_reach h)
  | done q hq h => exact ha.not_mem hs (.done q) ((hs.done q hq).mem_of_reach h)
  | removed h => exact ha.not_mem hs .removed (hs.removed.mem_of_reach h)
  | frame idx hi h =>
    rcases List.mem_append.mp ((hs.reach_frame hi).mp h) with hm | hm
    · exact ha.not_mem_frame hs hi hm
    · obtain ⟨pre, hpre⟩ := chainFrom_suffix m.iqh v.under
        (Nat.succ_le_of_lt (level_lt idx))
      exact ha.not_mem_chain hs (by rw [hpre]; exact List.mem_append_right _ hm)

end Reach

/-! ## Submissions, completions and slots -/

/-- A request is submitted when it is not pending and completes when it is. -/
def Alternates : List Event → Prop
  | [] => True
  | .submit u _ :: t => ¬ Pending t u ∧ Alternates t
  | .done u _ :: t => Pending t u ∧ Alternates t
  | .free .. :: t => Alternates t
  | .slot .. :: t => Alternates t
  | .detach .. :: t => Alternates t

/-- The slots of `u` written since its last submission. -/
def slotsSince : List Event → UtrId → List Nat
  | [], _ => []
  | .submit v _ :: t, u => if v = u then [] else slotsSince t u
  | .slot v i _ :: t, u => if v = u then i :: slotsSince t u else slotsSince t u
  | .done .. :: t, u => slotsSince t u
  | .free .. :: t, u => slotsSince t u
  | .detach .. :: t, u => slotsSince t u

/-- An isochronous request completes with each of its slots written once. -/
def SlotsOk : List Event → Prop
  | [] => True
  | .done u _ :: t => (PendingIso t u → (slotsSince t u).Perm (List.range ifPerUtr)) ∧ SlotsOk t
  | .submit .. :: t => SlotsOk t
  | .free .. :: t => SlotsOk t
  | .slot .. :: t => SlotsOk t
  | .detach .. :: t => SlotsOk t

/-- Two records that say the same about requests. -/
structure SameRecord (t t' : List Event) : Prop where
  alternates : Alternates t → Alternates t'
  slotsOk : SlotsOk t → SlotsOk t'
  pending : ∀ u, Pending t' u ↔ Pending t u
  pendingIso : ∀ u, PendingIso t' u ↔ PendingIso t u
  slots : ∀ u, slotsSince t' u = slotsSince t u

theorem SameRecord.refl (t : List Event) : SameRecord t t :=
  ⟨id, id, fun _ => Iff.rfl, fun _ => Iff.rfl, fun _ => rfl⟩

theorem SameRecord.free (k : HwKind) (a : Addr) (m : Links) (b : Doorbell) (t : List Event) :
    SameRecord t (.free k a m b :: t) :=
  ⟨id, id, fun _ => Iff.rfl, fun _ => Iff.rfl, fun _ => rfl⟩

theorem SameRecord.detach (a : Addr) (b : Doorbell) (t : List Event) :
    SameRecord t (.detach a b :: t) :=
  ⟨id, id, fun _ => Iff.rfl, fun _ => Iff.rfl, fun _ => rfl⟩

/-! ## Doorbells -/

/-- The unit left its schedule with no doorbell pending and none being answered. -/
def IdleDetach : Event → Prop
  | .detach _ b => b.iaad = false ∧ b.iaa = false ∧ b.serving = none
  | _ => True

/-- A QH or qTD that left its schedule is freed in answer to a doorbell rung after that. -/
def Answered : Event → Prop
  | .free k a _ b =>
    k = .qh ∨ k = .qtd → ∀ r, b.stamp a = some r → ∃ n, b.serving = some n ∧ r < n
  | _ => True

/-- `a` left its schedule, and every doorbell under way was rung after that. -/
def Stamped (b : Doorbell) (a : Addr) : Prop :=
  ∃ r, b.stamp a = some r ∧ r ≤ b.rung ∧ (b.iaad = true → r < b.rung) ∧
    (b.iaa = true → r < b.latched) ∧ ∀ n, b.serving = some n → r < n

end Ma35d1.UsbHost.Ehci
