import Ma35d1.Amp.Walk
import Ma35d1.Machine.Trace
import Mathlib.Data.List.Nodup

/-!
# The pool of transmit descriptors

`ma35_rpmsg_create_txept`, `ma35_rpmsg_send` and `ma35_rpmsg_destroy_ept` for any number of
transmit endpoints of one core. The other core writes to `CMD` and `STS` of any descriptor and
the binding task binds endpoints, both at any time. An endpoint is a number, and so is an
`ept_priv`; memory that is freed is not given out again, so that a pointer to it stays
recognisable.
-/

namespace Ma35d1.Amp

open Ma35d1.Machine.Trace (run EachStep Always always_iff_of_kept eachStep_of_eachStep)

/-- The fields of a `struct rpmsg_endpoint_priv` of a transmit endpoint. -/
structure TxPriv where
  availableLen : Nat
  noDesc : Nat
  id : Nat
  /-- `pDesc`, as an offset; 0 is `NULL` -/
  pDesc : Nat
  remoteBinded : Bool
  tasknode : Bool

structure TxPool where
  ready : Bool
  desc : Descs
  shm : Shmem
  /-- `rproc_priv.buf_flag` -/
  bufFlag : Nat → Bool
  /-- `rdev->endpoints` -/
  endpoints : List Nat
  /-- `ept->name` -/
  name : Nat → Name
  /-- `ept->priv` -/
  priv : Nat → Option Nat
  /-- the `ept_priv` that are allocated -/
  heap : Nat → Option TxPriv
  fresh : Nat
  /-- the binding list, from `head_ept->next` on -/
  nodes : List Nat
  /-- the `size` with which the endpoint was created -/
  size : Nat → Int
  /-- memory that does not exist was used -/
  fault : Bool

/-- The error codes of the library; `fail` is a plain -1. -/
inductive RpmsgErr
  | fail | param | noMem | noBuff | devState | init | perm
  deriving DecidableEq, Repr

/-- What `ept->priv` points at, while it is allocated. -/
def TxPool.live (s : TxPool) (ept : Nat) : Option TxPriv := (s.priv ept).bind s.heap

/-- The `ept_priv` at `p` becomes `pr`. -/
def TxPool.setPriv (s : TxPool) (p : Nat) (pr : TxPriv) : TxPool :=
  { s with heap := Function.update s.heap p (some pr) }

def TxPool.setDesc (s : TxPool) (i : Nat) (d : RscDesc) : TxPool :=
  { s with desc := Function.update s.desc i d }

/-! ## Creating -/

/-- `ma35_rpmsg_create_ept` -/
def TxPool.createEpt (s : TxPool) (ept : Nat) (name : Name) : TxPool :=
  if s.ready then
    { s with
      name := Function.update s.name ept (strncpyName name)
      endpoints := s.endpoints ++ [ept] }
  else s

/-- The number of descriptors that `len` bytes need. -/
def descReq (len : Nat) : Nat := len / descTxbuf + if len % descTxbuf ≠ 0 then 1 else 0

def TxPool.avail (s : TxPool) : Nat := (freeOf s.bufFlag (List.range descNum)).length

/-- `ma35_check_available_desc`: the flags and descriptors, and the head of the chain. -/
def TxPool.checkAvailableDesc (s : TxPool) (len : Nat) : Option (Nat × (Nat → Bool) × Descs) :=
  if s.avail < descReq len ∨ len = 0 then none
  else some (linkFree (List.range descNum) (descReq len) none 0 s.bufFlag s.desc)

/-- A fresh `ept_priv` for the endpoint. -/
def TxPool.allocPriv (s : TxPool) (ept : Nat) : TxPool :=
  { s with
    heap := Function.update s.heap s.fresh (some ⟨0, 0, 0, 0, false, false⟩)
    priv := Function.update s.priv ept (some s.fresh)
    fresh := s.fresh + 1 }

/-- The `ept_priv` at `p` is freed. -/
def TxPool.freePriv (s : TxPool) (p : Nat) : TxPool :=
  { s with heap := Function.update s.heap p none }

def TxPool.setSize (s : TxPool) (ept : Nat) (size : Int) : TxPool :=
  { s with size := Function.update s.size ept size }

/-- The descriptors of a chain of `len` bytes are the endpoint's, whose `ept_priv` is at `p`. -/
def TxPool.claim (s : TxPool) (ept p len : Nat) (r : Nat × (Nat → Bool) × Descs) : TxPool :=
  let i := descAt r.1
  { s.setPriv p ⟨len, descReq len, i, r.1, false, false⟩ with
    bufFlag := r.2.1
    desc := Function.update r.2.2 i
      { r.2.2 i with cmd := cmdClaim, sts := 0, ns := strncpyName (s.name ept) } }

/-- `ma35_request_tx_desc`; `mem` tells whether `metal_allocate_memory` succeeds. -/
def TxPool.requestTxDesc (s : TxPool) (ept : Nat) (len : Int) (mem : Bool) :
    Except RpmsgErr Nat × TxPool :=
  if len < 0 then (.error .fail, s)
  -- the result of the allocation is used without a test
  else if mem = false then (.error .fail, { s with fault := true })
  else
    let p := s.fresh
    let s := s.allocPriv ept
    match s.checkAvailableDesc len.toNat with
    | none => (.error .noBuff, s.freePriv p)
    | some r => (.ok len.toNat, s.claim ept p len.toNat r)

/-- `add_node`; `mem` tells whether the node is allocated. -/
def TxPool.addNode (s : TxPool) (ept p : Nat) (pr : TxPriv) (mem : Bool) : TxPool :=
  if mem then { s.setPriv p { pr with tasknode := true } with nodes := s.nodes ++ [ept] } else s

/-- `ma35_rpmsg_create_txept` -/
def TxPool.createTxept (s : TxPool) (ept : Nat) (name : Name) (size : Int) (mem nodeMem : Bool) :
    Except RpmsgErr Nat × TxPool :=
  let s := s.createEpt ept name
  match s.requestTxDesc ept size mem with
  | (.error _, s) => (.error .fail, s)
  | (.ok ret, s) =>
    let s := s.setSize ept size
    match s.priv ept, s.live ept with
    | some p, some pr => (.ok ret, s.addNode ept p pr nodeMem)
    | _, _ => (.ok ret, s)

/-! ## Sending -/

/-- `ma35_rpmsg_reconnect_ept` of a transmit endpoint -/
def TxPool.reconnectEpt (s : TxPool) (ept p : Nat) (pr : TxPriv) (mem : Bool) : TxPool :=
  if pr.tasknode then s
  else
    let i := descAt pr.pDesc
    let pr := { pr with remoteBinded := false }
    let s := (s.setPriv p pr).setDesc i { s.desc i with sts := 0, cmd := cmdClaim }
    s.addNode ept p pr mem

/-- The descriptors and buffers after the message `data` was written and published. -/
def writeMessage (desc : Descs) (shm : Shmem) (p : Nat) (data : List (BitVec 8)) :
    Option (Descs × Shmem) :=
  (descReset descNum p desc).map fun desc =>
    let i := descAt p
    let r := sendLoop (chunks data.length data) p
      (Function.update desc i { desc i with sts := cmdHead }) shm
    (Function.update r.1 i { r.1 i with cmd := cmdHead }, r.2)

/-- `ma35_rpmsg_send_offchannel_raw` -/
def TxPool.send (s : TxPool) (ept p : Nat) (pr : TxPriv) (data : List (BitVec 8)) (mem : Bool) :
    Except RpmsgErr Nat × TxPool :=
  if pr.availableLen < data.length then (.error .noMem, s)
  else if pr.pDesc = 0 then (.error .devState, s)
  else if pr.remoteBinded = false then (.error .init, s)
  else
    let sts := (s.desc (descAt pr.pDesc)).sts
    if sts &&& (stsReading ||| stsErr) ≠ 0 then (.error .noBuff, s)
    else if sts = stsClose then (.error .perm, s.reconnectEpt ept p pr mem)
    else
      match writeMessage s.desc s.shm pr.pDesc data with
      | none => (.error .fail, { s with fault := true })
      | some (desc, shm) => (.ok data.length, { s with desc, shm })

/-! ## Destroying and binding -/

/-- `remove_node` -/
def TxPool.removeNode (s : TxPool) (ept p : Nat) (pr : TxPriv) : TxPool :=
  if ept ∈ s.nodes then
    { s.setPriv p { pr with tasknode := false } with nodes := s.nodes.erase ept }
  else s

/-- What `ma35_rpmsg_destroy_ept` does once the descriptors are given back. -/
def TxPool.unregister (s : TxPool) (ept p : Nat) (pr : TxPriv) : TxPool :=
  let s := if pr.tasknode then s.removeNode ept p pr else s
  { s.freePriv p with
    priv := Function.update s.priv ept none
    endpoints := s.endpoints.erase ept }

/-- `ma35_rpmsg_destroy_ept` of a transmit endpoint -/
def TxPool.destroyEpt (s : TxPool) (ept p : Nat) (pr : TxPriv) : TxPool :=
  let i := descAt pr.pDesc
  let s := if pr.remoteBinded then s.setDesc i { s.desc i with cmd := cmdClose } else s
  if pr.pDesc = 0 then s.unregister ept p pr
  else
    match releaseShmem descNum pr.pDesc s.bufFlag s.desc with
    | none => { s with fault := true }
    | some (bufFlag, desc) => { s with bufFlag, desc }.unregister ept p pr

/-- `ma35_rpmsg_bind_process` of a transmit endpoint, and the removal of its node -/
def TxPool.bindProcess (s : TxPool) (ept p : Nat) (pr : TxPriv) : TxPool :=
  if (s.desc (descAt pr.pDesc)).sts &&& stsBind ≠ 0 then
    let pr := { pr with remoteBinded := true }
    (s.setPriv p pr).removeNode ept p pr
  else s

/-! ## Runs -/

inductive PoolEvent
  | create (ept : Nat) (name : Name) (size : Int) (mem nodeMem : Bool)
  | send (ept : Nat) (data : List (BitVec 8)) (mem : Bool)
  | destroy (ept : Nat)
  /-- the binding task comes to the endpoint -/
  | bind (ept : Nat)
  /-- the other core writes to descriptor `i` -/
  | remote (i : Nat) (cmd sts : BitVec 8)

/-- What an operation does with the endpoint's `ept_priv`. -/
def TxPool.withPriv (s : TxPool) (ept : Nat) (f : Nat → TxPriv → TxPool) : Option TxPool :=
  match s.priv ept, s.live ept with
  | some p, some pr => some (f p pr)
  | _, _ => none

/-- An endpoint is created while it has no `ept_priv`, and used while it has one. -/
def poolStep (s : TxPool) : PoolEvent → Option TxPool
  | .create ept name size mem nodeMem =>
    if s.priv ept = none then some (s.createTxept ept name size mem nodeMem).2 else none
  | .send ept data mem => s.withPriv ept fun p pr => (s.send ept p pr data mem).2
  | .destroy ept => s.withPriv ept fun p pr => s.destroyEpt ept p pr
  | .bind ept =>
    if ept ∈ s.nodes then s.withPriv ept fun p pr => s.bindProcess ept p pr else none
  | .remote i cmd sts =>
    if i < descNum then some (s.setDesc i { s.desc i with cmd, sts }) else none

/-- After `ma35_rpmsg_init_vdev` and `ma35_desc_init`. -/
def poolStart (shm : Shmem) : TxPool :=
  { ready := true
    desc := fun i => ⟨0, 0, 0, descTxbuf * i, 0, zeroName⟩
    shm
    bufFlag := fun _ => false
    endpoints := [], name := fun _ => [], priv := fun _ => none, heap := fun _ => none, fresh := 0
    nodes := [], size := fun _ => 0, fault := false }

/-- The chain of an endpoint. -/
def TxPool.HasChain (s : TxPool) (ept : Nat) (l : List Nat) : Prop :=
  ∃ pr, s.live ept = some pr ∧ Chain s.desc pr.pDesc l

/-- What the pool should promise in every state. -/
structure PoolLaw (s : TxPool) : Prop where
  /-- a flag is set exactly for the descriptors in the chain of one endpoint -/
  flags : ∀ i < descNum, s.bufFlag i = true ↔ ∃! ept, ∃ l, s.HasChain ept l ∧ i ∈ l
  /-- a chain ends and has the descriptors that the size needs, each with its own buffer -/
  chains : ∀ ept, s.live ept ≠ none → ∃ l, s.HasChain ept l ∧ l.Nodup ∧
    l.length = ((s.size ept).toNat + (descTxbuf - 1)) / descTxbuf ∧
    ∀ i ∈ l, i < descNum ∧ (s.desc i).bufOffset = descTxbuf * i
  disjoint : ∀ ept ept' l l', ept ≠ ept' → s.HasChain ept l → s.HasChain ept' l' → l.Disjoint l'
  /-- the endpoints registered are those with an `ept_priv` -/
  registered : s.endpoints.Nodup ∧ ∀ ept, ept ∈ s.endpoints ↔ s.live ept ≠ none
  noDangling : ∀ ept, s.priv ept ≠ none → s.live ept ≠ none
  noFault : s.fault = false

/-- A create that fails changes nothing. -/
def FailUnchanged (s : TxPool) : PoolEvent → Prop
  | .create ept name size mem nodeMem =>
    ∀ e, (s.createTxept ept name size mem nodeMem).1 = .error e →
      (s.createTxept ept name size mem nodeMem).2.bufFlag = s.bufFlag ∧
      (s.createTxept ept name size mem nodeMem).2.desc = s.desc ∧
      (s.createTxept ept name size mem nodeMem).2.endpoints = s.endpoints ∧
      (s.createTxept ept name size mem nodeMem).2.priv = s.priv
  | _ => True

/-- A create finds memory and enough descriptors for its size, which is not 0. -/
def CreateSucceeds (s : TxPool) : PoolEvent → Prop
  | .create _ _ size mem _ => mem = true ∧ 0 < size ∧ descReq size.toNat ≤ s.avail
  | _ => True

/-! ## The invariant -/

/-- An endpoint with an `ept_priv` has the descriptors `chain ept`, and one without has none. -/
structure PoolOk (s : TxPool) (chain : Nat → List Nat) : Prop where
  ready : s.ready = true
  alive : ∀ ept pr, s.live ept = some pr → Chain s.desc pr.pDesc (chain ept) ∧ chain ept ≠ [] ∧
    (chain ept).length = descReq (s.size ept).toNat
  dead : ∀ ept, s.live ept = none → chain ept = []
  inj : ∀ ept ept' p, s.priv ept = some p → s.priv ept' = some p → ept = ept'
  old : ∀ ept p, s.priv ept = some p → p < s.fresh
  fresh : ∀ p, s.fresh ≤ p → s.heap p = none
  disjoint : ∀ ept ept', ept ≠ ept' → (chain ept).Disjoint (chain ept')
  lt : ∀ ept, ∀ i ∈ chain ept, i < descNum
  flags : ∀ i < descNum, s.bufFlag i = true ↔ ∃ ept, i ∈ chain ept
  free : ∀ i < descNum, s.bufFlag i = false → (s.desc i).nxtOffset = 0
  buf : ∀ i < descNum, (s.desc i).bufOffset = descTxbuf * i

/-- No create has left anything behind. -/
structure PoolInv (s : TxPool) (chain : Nat → List Nat) : Prop extends PoolOk s chain where
  noFault : s.fault = false
  whole : ∀ ept, s.priv ept ≠ none → s.live ept ≠ none
  nodup : s.endpoints.Nodup
  registered : ∀ ept, ept ∈ s.endpoints ↔ s.priv ept ≠ none

section Pool

variable {s t : TxPool} {chain : Nat → List Nat} {ept p len : Nat} {pr : TxPriv} {name : Name}
  {size : Int} {mem nodeMem : Bool} {l : List Nat} {e : PoolEvent}

theorem descReq_eq (len : Nat) : descReq len = (len + (descTxbuf - 1)) / descTxbuf := by
  unfold descReq descTxbuf
  split <;> omega

theorem descReq_pos (h : 0 < len) : 0 < descReq len := by
  unfold descReq descTxbuf
  split <;> omega

theorem live_some : s.live ept = some pr ↔ ∃ p, s.priv ept = some p ∧ s.heap p = some pr :=
  Option.bind_eq_some_iff

theorem PoolInv.live_iff (h : PoolInv s chain) (ept : Nat) :
    s.live ept ≠ none ↔ s.priv ept ≠ none := by
  refine ⟨fun hlive hnone => hlive ?_, h.whole ept⟩
  unfold TxPool.live
  rw [hnone]
  rfl

theorem PoolOk.hasChain_iff (h : PoolOk s chain) :
    s.HasChain ept l ↔ s.live ept ≠ none ∧ l = chain ept := by
  unfold TxPool.HasChain
  cases hlive : s.live ept with
  | none => simp
  | some pr =>
    obtain ⟨hchain, -⟩ := h.alive ept pr hlive
    constructor
    · rintro ⟨pr', hpr', hl⟩
      obtain rfl := Option.some.inj hpr'
      exact ⟨Option.some_ne_none _, hl.unique hchain⟩
    · rintro ⟨-, rfl⟩
      exact ⟨pr, rfl, hchain⟩

theorem PoolOk.live_of_mem (h : PoolOk s chain) {i : Nat} (hi : i ∈ chain ept) :
    s.live ept ≠ none := by
  intro hlive
  rw [h.dead ept hlive] at hi
  exact List.not_mem_nil hi

theorem PoolInv.law (h : PoolInv s chain) : PoolLaw s := by
  refine ⟨fun i hi => ?_, fun ept hlive => ?_, fun ept ept' l l' hne hl hl' => ?_,
    ⟨h.nodup, fun ept => (h.registered ept).trans (h.live_iff ept).symm⟩, h.whole, h.noFault⟩
  · rw [h.flags i hi]
    constructor
    · rintro ⟨ept, hmem⟩
      refine ⟨ept, ⟨chain ept, h.hasChain_iff.2 ⟨h.live_of_mem hmem, rfl⟩, hmem⟩, ?_⟩
      rintro ept' ⟨l, hl, hmem'⟩
      obtain ⟨-, rfl⟩ := h.hasChain_iff.1 hl
      by_contra hne
      exact h.disjoint ept' ept hne hmem' hmem
    · rintro ⟨ept, ⟨l, hl, hmem⟩, -⟩
      obtain ⟨-, rfl⟩ := h.hasChain_iff.1 hl
      exact ⟨ept, hmem⟩
  · obtain ⟨pr, hpr⟩ := Option.ne_none_iff_exists'.mp hlive
    obtain ⟨hchain, -, hlen⟩ := h.alive ept pr hpr
    refine ⟨chain ept, h.hasChain_iff.2 ⟨hlive, rfl⟩, hchain.nodup, ?_,
      fun i hi => ⟨h.lt ept i hi, h.buf i (h.lt ept i hi)⟩⟩
    rw [hlen, descReq_eq]
  · obtain ⟨-, rfl⟩ := h.hasChain_iff.1 hl
    obtain ⟨-, rfl⟩ := h.hasChain_iff.1 hl'
    exact h.disjoint ept ept' hne

/-! ## Steps that leave the pool alone -/

/-- `t` has the allocation, the links and the buffers of `s`. -/
structure PoolSame (s t : TxPool) : Prop where
  ready : t.ready = s.ready
  noFault : t.fault = s.fault
  bufFlag : t.bufFlag = s.bufFlag
  endpoints : t.endpoints = s.endpoints
  priv : t.priv = s.priv
  size : t.size = s.size
  fresh : t.fresh = s.fresh
  heap : ∀ p, (t.heap p).map TxPriv.pDesc = (s.heap p).map TxPriv.pDesc
  links : ∀ i, (t.desc i).nxtOffset = (s.desc i).nxtOffset
  bufs : ∀ i, (t.desc i).bufOffset = (s.desc i).bufOffset

theorem PoolSame.refl (s : TxPool) : PoolSame s s :=
  ⟨rfl, rfl, rfl, rfl, rfl, rfl, rfl, fun _ => rfl, fun _ => rfl, fun _ => rfl⟩

theorem PoolSame.trans {u : TxPool} (h : PoolSame s t) (h' : PoolSame t u) : PoolSame s u :=
  ⟨h'.ready.trans h.ready, h'.noFault.trans h.noFault, h'.bufFlag.trans h.bufFlag,
    h'.endpoints.trans h.endpoints, h'.priv.trans h.priv, h'.size.trans h.size,
    h'.fresh.trans h.fresh, fun p => (h'.heap p).trans (h.heap p),
    fun i => (h'.links i).trans (h.links i), fun i => (h'.bufs i).trans (h.bufs i)⟩

theorem PoolSame.live (h : PoolSame s t) (ept : Nat) :
    (t.live ept).map TxPriv.pDesc = (s.live ept).map TxPriv.pDesc := by
  unfold TxPool.live
  rw [h.priv]
  cases s.priv ept with
  | none => rfl
  | some p => exact h.heap p

theorem PoolSame.live_none (h : PoolSame s t) (ept : Nat) :
    t.live ept = none ↔ s.live ept = none := by
  rw [← Option.map_eq_none_iff (f := TxPriv.pDesc), h.live, Option.map_eq_none_iff]

theorem PoolOk.same (h : PoolOk s chain) (hst : PoolSame s t) : PoolOk t chain := by
  refine ⟨hst.ready.trans h.ready, fun ept pr hpr => ?_,
    fun ept hlive => h.dead ept ((hst.live_none ept).1 hlive),
    fun ept ept' p hp hp' => h.inj ept ept' p (hst.priv ▸ hp) (hst.priv ▸ hp'),
    fun ept p hp => by rw [hst.fresh]; exact h.old ept p (hst.priv ▸ hp), fun p hp => ?_,
    h.disjoint, h.lt, fun i hi => by rw [hst.bufFlag]; exact h.flags i hi,
    fun i hi hfree => ?_, fun i hi => (hst.bufs i).trans (h.buf i hi)⟩
  · have hlive := hst.live ept
    rw [hpr, Option.map_some, eq_comm, Option.map_eq_some_iff] at hlive
    obtain ⟨pr', hpr', hdesc⟩ := hlive
    obtain ⟨hchain, hne, hlen⟩ := h.alive ept pr' hpr'
    rw [hst.size, ← hdesc]
    exact ⟨hchain.congr fun i _ => (hst.links i).symm, hne, hlen⟩
  · rw [hst.fresh] at hp
    have hheap := hst.heap p
    rwa [h.fresh p hp, Option.map_none, Option.map_eq_none_iff] at hheap
  · rw [hst.bufFlag] at hfree
    rw [hst.links]
    exact h.free i hi hfree

theorem PoolInv.same (h : PoolInv s chain) (hst : PoolSame s t) : PoolInv t chain :=
  ⟨h.toPoolOk.same hst, hst.noFault.trans h.noFault,
    fun ept hp => mt (hst.live_none ept).1 (h.whole ept (hst.priv ▸ hp)),
    by rw [hst.endpoints]; exact h.nodup,
    fun ept => by rw [hst.endpoints, hst.priv]; exact h.registered ept⟩

/-- A word of an `ept_priv` other than `pDesc` is written. -/
theorem PoolSame.setPriv (pr' : TxPriv) (hp : s.heap p = some pr) (hdesc : pr'.pDesc = pr.pDesc) :
    PoolSame s (s.setPriv p pr') := by
  refine ⟨rfl, rfl, rfl, rfl, rfl, rfl, rfl, fun q => ?_, fun _ => rfl, fun _ => rfl⟩
  simp only [TxPool.setPriv]
  by_cases hq : q = p
  · rw [hq, Function.update_self, hp, Option.map_some, Option.map_some, hdesc]
  · rw [Function.update_of_ne hq]

/-- `CMD`, `STS`, `len` or the name of a descriptor is written. -/
theorem PoolSame.setDesc {i : Nat} {d : RscDesc} (hn : d.nxtOffset = (s.desc i).nxtOffset)
    (hb : d.bufOffset = (s.desc i).bufOffset) : PoolSame s (s.setDesc i d) := by
  refine ⟨rfl, rfl, rfl, rfl, rfl, rfl, rfl, fun _ => rfl, fun j => ?_, fun j => ?_⟩ <;>
    simp only [TxPool.setDesc] <;> by_cases hj : j = i
  · rw [hj, Function.update_self, hn]
  · rw [Function.update_of_ne hj]
  · rw [hj, Function.update_self, hb]
  · rw [Function.update_of_ne hj]

theorem PoolSame.addNode (hp : s.heap p = some pr) {pr' : TxPriv} (hdesc : pr'.pDesc = pr.pDesc) :
    PoolSame s (s.addNode ept p pr' mem) := by
  unfold TxPool.addNode
  cases mem with
  | false => exact .refl s
  | true =>
    have h := PoolSame.setPriv { pr' with tasknode := true } hp hdesc
    exact ⟨h.ready, h.noFault, h.bufFlag, h.endpoints, h.priv, h.size, h.fresh, h.heap, h.links,
      h.bufs⟩

theorem PoolSame.removeNode (hp : s.heap p = some pr) {pr' : TxPriv}
    (hdesc : pr'.pDesc = pr.pDesc) : PoolSame s (s.removeNode ept p pr') := by
  unfold TxPool.removeNode
  split
  · have h := PoolSame.setPriv { pr' with tasknode := false } hp hdesc
    exact ⟨h.ready, h.noFault, h.bufFlag, h.endpoints, h.priv, h.size, h.fresh, h.heap, h.links,
      h.bufs⟩
  · exact .refl s

theorem PoolSame.reconnectEpt (ept : Nat) (mem : Bool) (hp : s.heap p = some pr) :
    PoolSame s (s.reconnectEpt ept p pr mem) := by
  unfold TxPool.reconnectEpt
  split
  · exact .refl s
  · have hset : PoolSame s (s.setPriv p { pr with remoteBinded := false }) :=
      PoolSame.setPriv _ hp rfl
    have hdesc : PoolSame s ((s.setPriv p { pr with remoteBinded := false }).setDesc
        (descAt pr.pDesc) { s.desc (descAt pr.pDesc) with sts := 0, cmd := cmdClaim }) :=
      hset.trans (PoolSame.setDesc rfl rfl)
    exact hdesc.trans (PoolSame.addNode (Function.update_self _ _ _) rfl)

theorem PoolSame.bindProcess (ept : Nat) (hp : s.heap p = some pr) :
    PoolSame s (s.bindProcess ept p pr) := by
  unfold TxPool.bindProcess
  split
  · have hset := PoolSame.setPriv { pr with remoteBinded := true } hp rfl
    exact hset.trans (PoolSame.removeNode (Function.update_self _ _ _) rfl)
  · exact .refl s

/-- A message is written along a chain, which keeps its links and buffers. -/
theorem writeMessage_chain {desc : Descs} (shm : Shmem) (data : List (BitVec 8))
    (h : Chain desc p l) (hl : l ≠ []) (hlen : l.length ≤ descNum) :
    ∃ desc' shm', writeMessage desc shm p data = some (desc', shm') ∧
      ∀ i, (desc' i).nxtOffset = (desc i).nxtOffset ∧
        (desc' i).bufOffset = (desc i).bufOffset := by
  unfold writeMessage
  rw [descReset_chain h hl hlen]
  refine ⟨_, _, rfl, fun i => ?_⟩
  have hreset : ∀ j, ((fun i => if i ∈ l then resetDesc (desc i) else desc i) j).nxtOffset =
      (desc j).nxtOffset ∧
      ((fun i => if i ∈ l then resetDesc (desc i) else desc i) j).bufOffset =
      (desc j).bufOffset := by
    intro j
    by_cases hj : j ∈ l <;> simp [hj, resetDesc]
  generalize (fun i => if i ∈ l then resetDesc (desc i) else desc i) = desc₁ at hreset ⊢
  have hmark : ∀ j, (Function.update desc₁ (descAt p) { desc₁ (descAt p) with sts := cmdHead }
      j).nxtOffset = (desc j).nxtOffset ∧
      (Function.update desc₁ (descAt p) { desc₁ (descAt p) with sts := cmdHead }
      j).bufOffset = (desc j).bufOffset := by
    intro j
    by_cases hj : j = descAt p
    · rw [hj, Function.update_self]
      exact hreset _
    · rw [Function.update_of_ne hj]
      exact hreset j
  have hloop := sendLoop_same (chunks data.length data) p
    (Function.update desc₁ (descAt p) { desc₁ (descAt p) with sts := cmdHead }) shm
  by_cases hi : i = descAt p
  · rw [hi, Function.update_self, hloop]
    exact hmark _
  · rw [Function.update_of_ne hi, hloop]
    exact hmark i

/-- A duplicate-free list of descriptors is no longer than the ring. -/
theorem length_le_descNum {l : List Nat} (hnd : l.Nodup) (hlt : ∀ i ∈ l, i < descNum) :
    l.length ≤ descNum := by
  have hsub : l ⊆ List.range descNum := fun i hi => List.mem_range.2 (hlt i hi)
  have hlen := (hnd.subperm hsub).length_le
  rwa [List.length_range] at hlen

theorem PoolOk.send_same (h : PoolOk s chain) (hpriv : s.priv ept = some p)
    (hp : s.heap p = some pr) (data : List (BitVec 8)) (mem : Bool) :
    PoolSame s (s.send ept p pr data mem).2 := by
  obtain ⟨hchain, hne, -⟩ := h.alive ept pr (live_some.2 ⟨p, hpriv, hp⟩)
  have hlen := length_le_descNum hchain.nodup (h.lt ept)
  unfold TxPool.send
  split
  · exact .refl s
  split
  · exact .refl s
  split
  · exact .refl s
  simp only
  split
  · exact .refl s
  split
  · exact PoolSame.reconnectEpt ept mem hp
  · obtain ⟨desc', shm', hw, hsame⟩ :=
      writeMessage_chain s.shm data hchain hne hlen
    rw [hw]
    exact ⟨rfl, rfl, rfl, rfl, rfl, rfl, rfl, fun _ => rfl, fun i => (hsame i).1,
      fun i => (hsame i).2⟩

/-! ## Creating and destroying -/

/-- The first free descriptors, as many as `len` bytes need. -/
def TxPool.firstFree (s : TxPool) (len : Nat) : List Nat :=
  (freeOf s.bufFlag (List.range descNum)).take (descReq len)

theorem mem_firstFree {i : Nat} (hi : i ∈ s.firstFree len) : i < descNum ∧ s.bufFlag i = false := by
  obtain ⟨hrange, hfree⟩ := List.mem_filter.mp (List.mem_of_mem_take hi)
  exact ⟨List.mem_range.1 hrange, by simpa using hfree⟩

theorem length_firstFree (havail : descReq len ≤ s.avail) :
    (s.firstFree len).length = descReq len := by
  unfold TxPool.firstFree
  rw [List.length_take]
  exact Nat.min_eq_left havail

/-- The state in which a create of `len` bytes has claimed its descriptors. -/
def TxPool.claimed (s : TxPool) (ept : Nat) (name : Name) (size : Int) : TxPool :=
  let t := (s.createEpt ept name).allocPriv ept
  (t.claim ept s.fresh size.toNat
    (linkFree (List.range descNum) (descReq size.toNat) none 0 s.bufFlag s.desc)).setSize ept size

/-- A create that finds memory and descriptors claims them and adds its node. -/
theorem createTxept_succeeds (ept : Nat) (name : Name) (nodeMem : Bool) (hready : s.ready = true) (hsize : 0 < size)
    (havail : descReq size.toNat ≤ s.avail) :
    ∃ pr, (s.claimed ept name size).heap s.fresh = some pr ∧
      s.createTxept ept name size true nodeMem =
        (.ok size.toNat, (s.claimed ept name size).addNode ept s.fresh pr nodeMem) := by
  have hneg : ¬ size < 0 := by omega
  have hcheck : ((s.createEpt ept name).allocPriv ept).checkAvailableDesc size.toNat =
      some (linkFree (List.range descNum) (descReq size.toNat) none 0 s.bufFlag s.desc) := by
    unfold TxPool.checkAvailableDesc
    rw [if_neg]
    · simp [TxPool.allocPriv, TxPool.createEpt, hready]
    · have : ((s.createEpt ept name).allocPriv ept).avail = s.avail := by
        simp [TxPool.avail, TxPool.allocPriv, TxPool.createEpt, hready]
      rw [this]
      omega
  have hfresh : (s.createEpt ept name).fresh = s.fresh := by
    simp [TxPool.createEpt, hready]
  have hreq : (s.createEpt ept name).requestTxDesc ept size true =
      (.ok size.toNat, ((s.createEpt ept name).allocPriv ept).claim ept s.fresh size.toNat
        (linkFree (List.range descNum) (descReq size.toNat) none 0 s.bufFlag s.desc)) := by
    unfold TxPool.requestTxDesc
    rw [if_neg hneg, if_neg (by simp)]
    simp only [hcheck, hfresh]
  have hpriv : (s.claimed ept name size).priv ept = some s.fresh := by
    simp [TxPool.claimed, TxPool.setSize, TxPool.claim, TxPool.setPriv, TxPool.allocPriv, hfresh]
  obtain ⟨pr, hheap⟩ : ∃ pr, (s.claimed ept name size).heap s.fresh = some pr :=
    ⟨_, Function.update_self _ _ _⟩
  have hlive : (s.claimed ept name size).live ept = some pr := by
    unfold TxPool.live
    rw [hpriv]
    exact hheap
  refine ⟨pr, hheap, ?_⟩
  have hdef : (((s.createEpt ept name).allocPriv ept).claim ept s.fresh size.toNat
      (linkFree (List.range descNum) (descReq size.toNat) none 0 s.bufFlag s.desc)).setSize ept
      size = s.claimed ept name size := rfl
  unfold TxPool.createTxept
  simp only [hreq, hdef, hpriv, hlive]

/-- The links and buffers of the descriptors after a claim are those of the search. -/
theorem claimed_links (i : Nat) :
    ((s.claimed ept name size).desc i).nxtOffset = ((linkFree (List.range descNum)
      (descReq size.toNat) none 0 s.bufFlag s.desc).2.2 i).nxtOffset ∧
    ((s.claimed ept name size).desc i).bufOffset = ((linkFree (List.range descNum)
      (descReq size.toNat) none 0 s.bufFlag s.desc).2.2 i).bufOffset := by
  simp only [TxPool.claimed, TxPool.setSize, TxPool.claim]
  generalize linkFree (List.range descNum) (descReq size.toNat) none 0 s.bufFlag s.desc = r
  by_cases hi : i = descAt r.1
  · rw [hi, Function.update_self]
    exact ⟨rfl, rfl⟩
  · rw [Function.update_of_ne hi]
    exact ⟨rfl, rfl⟩

/-- The words of a pool in which an endpoint has been given the next `ept_priv`. -/
structure NewPriv (s t : TxPool) (ept : Nat) : Prop where
  ready : t.ready = s.ready
  priv : t.priv = Function.update s.priv ept (some s.fresh)
  fresh : t.fresh = s.fresh + 1
  heap : ∀ p, p ≠ s.fresh → t.heap p = s.heap p
  endpoints : t.endpoints = s.endpoints ++ [ept]
  fault : t.fault = s.fault

theorem newPriv_claimed (ept : Nat) (name : Name) (size : Int) (hready : s.ready = true) : NewPriv s (s.claimed ept name size) ept := by
  constructor <;> simp +contextual [TxPool.claimed, TxPool.setSize, TxPool.claim, TxPool.setPriv,
    TxPool.allocPriv, TxPool.createEpt, hready]

/-- The others keep theirs. -/
theorem NewPriv.live_other (hn : NewPriv s t ept) (h : PoolOk s chain) {ept' : Nat}
    (he : ept' ≠ ept) : t.live ept' = s.live ept' := by
  unfold TxPool.live
  rw [hn.priv, Function.update_of_ne he]
  cases hp : s.priv ept' with
  | none => rfl
  | some p => exact hn.heap p (Nat.ne_of_lt (h.old ept' p hp))

/-- A create that has used up an `ept_priv` keeps the pool if the descriptors agree. -/
theorem NewPriv.ok {chain' : Nat → List Nat} (hn : NewPriv s t ept) (h : PoolOk s chain)
    (halive : ∀ ept' pr, t.live ept' = some pr → Chain t.desc pr.pDesc (chain' ept') ∧
      chain' ept' ≠ [] ∧ (chain' ept').length = descReq (t.size ept').toNat)
    (hdead : ∀ ept', t.live ept' = none → chain' ept' = [])
    (hgone : ∀ p, s.fresh < p → t.heap p = none)
    (hdisj : ∀ ept₁ ept₂, ept₁ ≠ ept₂ → (chain' ept₁).Disjoint (chain' ept₂))
    (hlt : ∀ ept', ∀ i ∈ chain' ept', i < descNum)
    (hflags : ∀ i < descNum, t.bufFlag i = true ↔ ∃ ept', i ∈ chain' ept')
    (hfree : ∀ i < descNum, t.bufFlag i = false → (t.desc i).nxtOffset = 0)
    (hbuf : ∀ i < descNum, (t.desc i).bufOffset = descTxbuf * i) : PoolOk t chain' := by
  have hold : ∀ e p, e ≠ ept → t.priv e = some p → s.priv e = some p := by
    intro e p he hp
    rwa [hn.priv, Function.update_of_ne he] at hp
  have hnew : ∀ p, t.priv ept = some p → p = s.fresh := by
    intro p hp
    rw [hn.priv, Function.update_self] at hp
    exact (Option.some.inj hp).symm
  have hne : ∀ e p, e ≠ ept → t.priv e = some p → p ≠ s.fresh :=
    fun e p he hp => Nat.ne_of_lt (h.old e p (hold e p he hp))
  refine ⟨hn.ready.trans h.ready, halive, hdead, fun ept₁ ept₂ p hp₁ hp₂ => ?_, fun e p hp => ?_,
    fun p hp => hgone p (by rw [hn.fresh] at hp; exact hp), hdisj, hlt, hflags, hfree, hbuf⟩
  · by_cases he₁ : ept₁ = ept
    · by_contra hne₁₂
      have he₂ : ept₂ ≠ ept := fun he => hne₁₂ (he₁.trans he.symm)
      exact hne ept₂ p he₂ hp₂ (hnew p (he₁ ▸ hp₁))
    · by_cases he₂ : ept₂ = ept
      · exact absurd (hnew p (he₂ ▸ hp₂)) (hne ept₁ p he₁ hp₁)
      · exact h.inj ept₁ ept₂ p (hold ept₁ p he₁ hp₁) (hold ept₂ p he₂ hp₂)
  · rw [hn.fresh]
    by_cases he : e = ept
    · rw [hnew p (he ▸ hp)]
      exact Nat.lt_succ_self _
    · exact Nat.lt_succ_of_lt (h.old e p (hold e p he hp))

/-- The `ept_priv` of an endpoint whose create succeeds. -/
def TxPool.claimedPriv (s : TxPool) (size : Int) : TxPriv :=
  let head := (linkFree (List.range descNum) (descReq size.toNat) none 0 s.bufFlag s.desc).1
  ⟨size.toNat, descReq size.toNat, descAt head, head, false, false⟩

theorem claimed_live (s : TxPool) (ept : Nat) (name : Name) (size : Int) :
    (s.claimed ept name size).live ept = some (s.claimedPriv size) := by
  refine live_some.2 ⟨s.fresh, ?_, Function.update_self _ _ _⟩
  simp only [TxPool.claimed, TxPool.setSize, TxPool.claim, TxPool.setPriv, TxPool.allocPriv,
    Function.update_self, Option.some.injEq]
  unfold TxPool.createEpt
  split <;> rfl

/-- What the search for free descriptors gives, when there are enough of them. -/
theorem PoolOk.linked (h : PoolOk s chain) (ept : Nat) (name : Name) (hsize : 0 < size)
    (havail : descReq size.toNat ≤ s.avail) :
    s.firstFree size.toNat ≠ [] ∧
    (∀ i, (s.claimed ept name size).bufFlag i =
      (s.bufFlag i || decide (i ∈ s.firstFree size.toNat))) ∧
    Chain (s.claimed ept name size).desc (s.claimedPriv size).pDesc (s.firstFree size.toNat) ∧
    (∀ i, i ∉ s.firstFree size.toNat → (s.claimed ept name size).desc i = s.desc i) ∧
    (∀ i, ((s.claimed ept name size).desc i).bufOffset = (s.desc i).bufOffset) ∧
    ∀ i, i ≠ descAt (s.claimedPriv size).pDesc →
      SameButNext (s.desc i) ((s.claimed ept name size).desc i) := by
  have hpos : 0 < descReq size.toNat := descReq_pos (by omega)
  have hlength := length_firstFree havail
  have hne : s.firstFree size.toNat ≠ [] := by
    intro hnil
    rw [hnil, List.length_nil] at hlength
    omega
  obtain ⟨hflags, hchain, hother, hsame⟩ := linkFree_none 0
    List.nodup_range (fun i hi => h.free i (List.mem_range.1 hi)) hpos
    (fun hnil => hne (by unfold TxPool.firstFree; rw [hnil, List.take_nil]))
  have hchain' : Chain (s.claimed ept name size).desc (s.claimedPriv size).pDesc
      (s.firstFree size.toNat) := hchain.congr fun i _ => (claimed_links i).1.symm
  have hsearch : ∀ i, i ≠ descAt (s.claimedPriv size).pDesc → (s.claimed ept name size).desc i =
      (linkFree (List.range descNum) (descReq size.toNat) none 0 s.bufFlag s.desc).2.2 i :=
    fun i hi => Function.update_of_ne hi _ _
  refine ⟨hne, hflags, hchain', fun i hi => ?_, fun i => ?_, fun i hi => ?_⟩
  · -- the head is one of the descriptors found
    have hhead : i ≠ descAt (s.claimedPriv size).pDesc := by
      rintro rfl
      obtain ⟨j, l, hl⟩ := List.exists_cons_of_ne_nil hne
      rw [hl] at hchain' hi
      apply hi
      rw [hchain'.1, descAt_descOffset]
      exact List.mem_cons_self
    rw [hsearch i hhead, hother i hi]
  · rw [(claimed_links i).2, hsame i]
  · rw [hsearch i hi]
    exact hsame i

/-- The endpoint whose create succeeds gets the first free descriptors. -/
theorem PoolOk.claimed (h : PoolOk s chain) (name : Name) (hnone : s.priv ept = none) (hsize : 0 < size)
    (havail : descReq size.toNat ≤ s.avail) :
    PoolOk (s.claimed ept name size)
      (Function.update chain ept (s.firstFree size.toNat)) := by
  obtain ⟨hne, hflags, hchain, hother, hbufs, -⟩ :=
    h.linked ept name hsize havail
  have hn := newPriv_claimed ept name size h.ready
  have hlive : s.live ept = none := by
    unfold TxPool.live
    rw [hnone]
    rfl
  have hclaimed : ∀ ept' i, i ∈ Function.update chain ept (s.firstFree size.toNat) ept' →
      (ept' = ept ∧ i ∈ s.firstFree size.toNat) ∨ (ept' ≠ ept ∧ i ∈ chain ept') := by
    intro ept' i hi
    by_cases he : ept' = ept
    · rw [he, Function.update_self] at hi
      exact .inl ⟨he, hi⟩
    · rw [Function.update_of_ne he] at hi
      exact .inr ⟨he, hi⟩
  -- a descriptor of another endpoint is flagged, so it is not among the free ones
  have hapart : ∀ ept' i, i ∈ chain ept' → i ∉ s.firstFree size.toNat := by
    intro ept' i hi hfirst
    obtain ⟨hlt, hfree⟩ := mem_firstFree hfirst
    rw [(h.flags i hlt).2 ⟨ept', hi⟩] at hfree
    exact absurd hfree (by decide)
  have hsizes : (s.claimed ept name size).size = Function.update s.size ept size := by
    simp [TxPool.claimed, TxPool.setSize, TxPool.claim, TxPool.setPriv, TxPool.allocPriv,
      TxPool.createEpt, h.ready]
  refine hn.ok h (fun ept' pr hpr => ?_) (fun ept' hgone => ?_) (fun p hp => ?_)
    (fun ept₁ ept₂ hne₁₂ i hi₁ hi₂ => ?_) (fun ept' i hi => ?_) (fun i hi => ?_)
    (fun i hi hfree => ?_) (fun i hi => (hbufs i).trans (h.buf i hi))
  · by_cases he : ept' = ept
    · rw [he, claimed_live] at hpr
      obtain rfl := Option.some.inj hpr
      rw [he, Function.update_self, hsizes, Function.update_self]
      exact ⟨hchain, hne, length_firstFree havail⟩
    · rw [hn.live_other h he] at hpr
      obtain ⟨hch, hne', hlen⟩ := h.alive ept' pr hpr
      rw [Function.update_of_ne he, hsizes, Function.update_of_ne he]
      exact ⟨hch.congr fun i hi => by rw [hother i (hapart ept' i hi)], hne', hlen⟩
  · by_cases he : ept' = ept
    · rw [he, claimed_live] at hgone
      exact absurd hgone (Option.some_ne_none _)
    · rw [hn.live_other h he] at hgone
      rw [Function.update_of_ne he]
      exact h.dead ept' hgone
  · rw [hn.heap p (Nat.ne_of_gt hp)]
    exact h.fresh p (Nat.le_of_lt hp)
  · rcases hclaimed ept₁ i hi₁ with ⟨he₁, hf₁⟩ | ⟨he₁, hc₁⟩
    · rcases hclaimed ept₂ i hi₂ with ⟨he₂, -⟩ | ⟨-, hc₂⟩
      · exact hne₁₂ (he₁.trans he₂.symm)
      · exact hapart ept₂ i hc₂ hf₁
    · rcases hclaimed ept₂ i hi₂ with ⟨-, hf₂⟩ | ⟨-, hc₂⟩
      · exact hapart ept₁ i hc₁ hf₂
      · exact h.disjoint ept₁ ept₂ hne₁₂ hc₁ hc₂
  · rcases hclaimed ept' i hi with ⟨-, hf⟩ | ⟨-, hc⟩
    · exact (mem_firstFree hf).1
    · exact h.lt ept' i hc
  · rw [hflags, Bool.or_eq_true, decide_eq_true_iff]
    constructor
    · rintro (hold | hf)
      · obtain ⟨ept', hi'⟩ := (h.flags i hi).1 hold
        have he : ept' ≠ ept := fun he => h.live_of_mem hi' (he ▸ hlive)
        exact ⟨ept', by rwa [Function.update_of_ne he]⟩
      · exact ⟨ept, by rwa [Function.update_self]⟩
    · rintro ⟨ept', hi'⟩
      rcases hclaimed ept' i hi' with ⟨-, hf⟩ | ⟨-, hc⟩
      · exact .inr hf
      · exact .inl ((h.flags i hi).2 ⟨ept', hc⟩)
  · rw [hflags, Bool.or_eq_false_iff, decide_eq_false_iff_not] at hfree
    rw [hother i hfree.2]
    exact h.free i hi hfree.1

/-- A create adds its endpoint to the ones registered. -/
theorem PoolInv.registered_added (h : PoolInv s chain) (hn : NewPriv s t ept)
    (hnone : s.priv ept = none) :
    t.endpoints.Nodup ∧ ∀ ept', ept' ∈ t.endpoints ↔ t.priv ept' ≠ none := by
  refine ⟨?_, fun ept' => ?_⟩
  · rw [hn.endpoints]
    refine List.nodup_append'.mpr ⟨h.nodup, List.nodup_singleton ept, ?_⟩
    rw [List.disjoint_singleton]
    exact fun hmem => (h.registered ept).1 hmem hnone
  · rw [hn.endpoints, hn.priv, List.mem_append, List.mem_singleton]
    by_cases he : ept' = ept
    · rw [he, Function.update_self]
      exact iff_of_true (.inr rfl) (Option.some_ne_none _)
    · rw [Function.update_of_ne he]
      simp only [he, or_false]
      exact h.registered ept'

theorem PoolInv.claimed (h : PoolInv s chain) (hnone : s.priv ept = none) (hsize : 0 < size)
    (havail : descReq size.toNat ≤ s.avail) :
    PoolInv (s.claimed ept name size)
      (Function.update chain ept (s.firstFree size.toNat)) := by
  have hn := newPriv_claimed ept name size h.ready
  obtain ⟨hnodup, hreg⟩ := h.registered_added hn hnone
  refine ⟨h.toPoolOk.claimed name hnone hsize havail, hn.fault.trans h.noFault, fun ept' hp => ?_,
    hnodup, hreg⟩
  by_cases he : ept' = ept
  · rw [he, claimed_live]
    exact Option.some_ne_none _
  · rw [hn.priv, Function.update_of_ne he] at hp
    rw [hn.live_other h.toPoolOk he]
    exact h.whole ept' hp

/-- The state without the endpoint and its `ept_priv`. -/
def TxPool.dropped (s : TxPool) (ept p : Nat) (nodes : List Nat) : TxPool :=
  { s.freePriv p with
    priv := Function.update s.priv ept none
    endpoints := s.endpoints.erase ept
    nodes }

theorem unregister_eq (s : TxPool) (ept p : Nat) (pr : TxPriv) :
    ∃ nodes, s.unregister ept p pr = s.dropped ept p nodes := by
  unfold TxPool.unregister TxPool.removeNode TxPool.dropped
  by_cases hnode : pr.tasknode = true
  · by_cases hmem : ept ∈ s.nodes
    · refine ⟨s.nodes.erase ept, ?_⟩
      simp only [hnode, hmem, if_true, TxPool.freePriv, TxPool.setPriv]
      congr 1
      funext q
      by_cases hq : q = p <;> simp [hq]
    · exact ⟨s.nodes, by simp only [hnode, hmem, if_true, if_false]; rfl⟩
  · exact ⟨s.nodes, by rw [if_neg hnode]; rfl⟩

/-- The state with the descriptors `l` given back. -/
def TxPool.givenBack (s : TxPool) (l : List Nat) : TxPool :=
  { s with
    bufFlag := fun i => if i ∈ l then false else s.bufFlag i
    desc := fun i => if i ∈ l then releasedDesc (s.desc i) else s.desc i }

theorem dropped_live_self (nodes : List Nat) : (s.dropped ept p nodes).live ept = none := by
  simp [TxPool.live, TxPool.dropped]

theorem PoolOk.dropped_live_other (h : PoolOk s chain) (hpriv : s.priv ept = some p)
    (nodes : List Nat) (m : List Nat) {ept' : Nat} (he : ept' ≠ ept) :
    ((s.givenBack m).dropped ept p nodes).live ept' = s.live ept' := by
  have hpriv' : ((s.givenBack m).dropped ept p nodes).priv ept' = s.priv ept' :=
    Function.update_of_ne he _ _
  unfold TxPool.live
  rw [hpriv']
  cases hq : s.priv ept' with
  | none => rfl
  | some q =>
    have hqp : q ≠ p := fun hqp => he (h.inj ept' ept q hq (hqp ▸ hpriv))
    exact Function.update_of_ne hqp _ _

/-- Giving back the chain of an endpoint and dropping it keeps the pool. -/
theorem PoolOk.dropped (h : PoolOk s chain) (hpriv : s.priv ept = some p) (nodes : List Nat) :
    PoolOk ((s.givenBack (chain ept)).dropped ept p nodes) (Function.update chain ept []) := by
  have hother : ∀ ept', ept' ≠ ept → ∀ i ∈ chain ept', i ∉ chain ept :=
    fun ept' he i hi hi' => h.disjoint ept' ept he hi hi'
  have hdrop : ∀ e' i, i ∈ Function.update chain ept [] e' → e' ≠ ept ∧ i ∈ chain e' := by
    intro e' i hi
    by_cases he : e' = ept
    · rw [he, Function.update_self] at hi
      exact absurd hi List.not_mem_nil
    · rw [Function.update_of_ne he] at hi
      exact ⟨he, hi⟩
  have hold : ∀ e' q, ((s.givenBack (chain ept)).dropped ept p nodes).priv e' = some q →
      s.priv e' = some q := by
    intro e' q he'
    by_cases he : e' = ept
    · exact absurd (he ▸ he') (by simp [TxPool.dropped])
    · simpa [TxPool.dropped, TxPool.givenBack, Function.update_of_ne he] using he'
  refine ⟨h.ready, fun ept' pr hpr => ?_, fun ept' hgone => ?_,
    fun ept₁ ept₂ q hq₁ hq₂ => h.inj ept₁ ept₂ q (hold ept₁ q hq₁) (hold ept₂ q hq₂),
    fun ept' q hq => h.old ept' q (hold ept' q hq), fun q hq => ?_,
    fun ept₁ ept₂ hne i hi₁ hi₂ => ?_, fun ept' i hi => ?_, fun i hi => ?_,
    fun i hi hfree => ?_, fun i hi => ?_⟩
  · by_cases he : ept' = ept
    · rw [he, dropped_live_self] at hpr
      exact absurd hpr (by simp)
    · rw [h.dropped_live_other hpriv nodes _ he] at hpr
      obtain ⟨hchain, hne, hlen⟩ := h.alive ept' pr hpr
      rw [Function.update_of_ne he]
      refine ⟨hchain.congr fun i hi => ?_, hne, hlen⟩
      simp [TxPool.dropped, TxPool.freePriv, TxPool.givenBack, hother ept' he i hi]
  · by_cases he : ept' = ept
    · rw [he, Function.update_self]
    · rw [h.dropped_live_other hpriv nodes _ he] at hgone
      rw [Function.update_of_ne he]
      exact h.dead ept' hgone
  · by_cases hqp : q = p
    · simp [TxPool.dropped, TxPool.freePriv, hqp]
    · simpa [TxPool.dropped, TxPool.freePriv, TxPool.givenBack, hqp] using h.fresh q hq
  · exact h.disjoint ept₁ ept₂ hne (hdrop ept₁ i hi₁).2 (hdrop ept₂ i hi₂).2
  · exact h.lt ept' i (hdrop ept' i hi).2
  · show (if i ∈ chain ept then false else s.bufFlag i) = true ↔ _
    constructor
    · intro hflag
      by_cases hmem : i ∈ chain ept
      · rw [if_pos hmem] at hflag
        exact absurd hflag (by decide)
      · rw [if_neg hmem, h.flags i hi] at hflag
        obtain ⟨ept', hi'⟩ := hflag
        have he : ept' ≠ ept := fun he => hmem (he ▸ hi')
        exact ⟨ept', by rwa [Function.update_of_ne he]⟩
    · rintro ⟨ept', hi'⟩
      obtain ⟨he, hi'⟩ := hdrop ept' i hi'
      rw [if_neg (hother ept' he i hi')]
      exact (h.flags i hi).2 ⟨ept', hi'⟩
  · show RscDesc.nxtOffset (if i ∈ chain ept then releasedDesc (s.desc i) else s.desc i) = 0
    by_cases hmem : i ∈ chain ept
    · rw [if_pos hmem]
      rfl
    · rw [if_neg hmem]
      exact h.free i hi
        (by simpa [TxPool.dropped, TxPool.freePriv, TxPool.givenBack, hmem] using hfree)
  · show RscDesc.bufOffset (if i ∈ chain ept then releasedDesc (s.desc i) else s.desc i) = _
    by_cases hmem : i ∈ chain ept
    · rw [if_pos hmem]
      exact h.buf i hi
    · rw [if_neg hmem]
      exact h.buf i hi

theorem PoolInv.dropped (h : PoolInv s chain) (hpriv : s.priv ept = some p) (nodes : List Nat) :
    PoolInv ((s.givenBack (chain ept)).dropped ept p nodes) (Function.update chain ept []) := by
  refine ⟨h.toPoolOk.dropped hpriv nodes, h.noFault, fun ept' hp => ?_, h.nodup.erase ept,
    fun ept' => ?_⟩
  · by_cases he : ept' = ept
    · exact absurd (Function.update_self _ _ _) (he ▸ hp)
    · rw [h.dropped_live_other hpriv nodes _ he]
      refine h.whole ept' ?_
      rwa [← Function.update_of_ne he none s.priv]
  · show ept' ∈ s.endpoints.erase ept ↔ Function.update s.priv ept none ept' ≠ none
    rw [h.nodup.mem_erase_iff]
    by_cases he : ept' = ept
    · rw [he, Function.update_self]
      simp
    · rw [Function.update_of_ne he]
      simp only [he, ne_eq, not_false_eq_true, true_and]
      exact h.registered ept'

/-- A bound endpoint leaves a CLOSE in `CMD`. -/
def TxPool.closing (s : TxPool) (pr : TxPriv) : TxPool :=
  if pr.remoteBinded then
    s.setDesc (descAt pr.pDesc) { s.desc (descAt pr.pDesc) with cmd := cmdClose }
  else s

theorem PoolSame.closing (s : TxPool) (pr : TxPriv) : PoolSame s (s.closing pr) := by
  unfold TxPool.closing
  split
  · exact PoolSame.setDesc rfl rfl
  · exact .refl s

/-- A destroy gives back the chain of the endpoint and drops it. -/
theorem PoolOk.destroyEpt_eq (h : PoolOk s chain) (hpriv : s.priv ept = some p)
    (hp : s.heap p = some pr) : ∃ nodes, s.destroyEpt ept p pr =
      ((s.closing pr).givenBack (chain ept)).dropped ept p nodes := by
  have ht := h.same (PoolSame.closing s pr)
  have hheap : (s.closing pr).heap p = some pr := by
    unfold TxPool.closing
    split <;> exact hp
  have hpriv' : (s.closing pr).priv ept = some p := by
    rw [(PoolSame.closing s pr).priv]
    exact hpriv
  obtain ⟨hchain, hne, -⟩ := ht.alive ept pr (live_some.2 ⟨p, hpriv', hheap⟩)
  have hdesc : pr.pDesc ≠ 0 := by
    obtain ⟨i, l, hl⟩ := List.exists_cons_of_ne_nil hne
    rw [hl] at hchain
    rw [hchain.1]
    exact descOffset_ne_zero i
  obtain ⟨nodes, heq⟩ := unregister_eq ((s.closing pr).givenBack (chain ept)) ept p pr
  refine ⟨nodes, Eq.trans ?_ heq⟩
  have hrel := releaseShmem_chain (s.closing pr).bufFlag hchain hne
    (length_le_descNum hchain.nodup (ht.lt ept)) fun i hi => ht.buf i (ht.lt ept i hi)
  show (if pr.pDesc = 0 then (s.closing pr).unregister ept p pr
    else match releaseShmem descNum pr.pDesc (s.closing pr).bufFlag (s.closing pr).desc with
    | none => _
    | some (bufFlag, desc) => _) = _
  rw [if_neg hdesc, hrel]
  rfl

theorem PoolOk.destroyed (h : PoolOk s chain) (hpriv : s.priv ept = some p)
    (hp : s.heap p = some pr) :
    PoolOk (s.destroyEpt ept p pr) (Function.update chain ept []) := by
  obtain ⟨nodes, heq⟩ := h.destroyEpt_eq hpriv hp
  rw [heq]
  refine (h.same (PoolSame.closing s pr)).dropped ?_ nodes
  rw [(PoolSame.closing s pr).priv]
  exact hpriv

theorem PoolInv.destroyed (h : PoolInv s chain) (hpriv : s.priv ept = some p)
    (hp : s.heap p = some pr) :
    PoolInv (s.destroyEpt ept p pr) (Function.update chain ept []) := by
  obtain ⟨nodes, heq⟩ := h.destroyEpt_eq hpriv hp
  rw [heq]
  refine (h.same (PoolSame.closing s pr)).dropped ?_ nodes
  rw [(PoolSame.closing s pr).priv]
  exact hpriv

/-! ## Steps -/

/-- What a create that fails leaves behind. -/
theorem createTxept_failed (ept : Nat) (name : Name) (nodeMem : Bool) (hready : s.ready = true)
    (hfail : ¬ (mem = true ∧ 0 < size ∧ descReq size.toNat ≤ s.avail)) :
    (s.createTxept ept name size mem nodeMem).2 = s.createEpt ept name ∨
    (s.createTxept ept name size mem nodeMem).2 = { s.createEpt ept name with fault := true } ∨
    (s.createTxept ept name size mem nodeMem).2 =
      ((s.createEpt ept name).allocPriv ept).freePriv s.fresh := by
  have hept : s.createEpt ept name = { s with
      name := Function.update s.name ept (strncpyName name)
      endpoints := s.endpoints ++ [ept] } := if_pos hready
  have hfresh : (s.createEpt ept name).fresh = s.fresh := by rw [hept]
  unfold TxPool.createTxept TxPool.requestTxDesc
  by_cases hneg : size < 0
  · exact .inl (by simp only [hneg, if_true])
  · cases mem with
    | false => exact .inr (.inl (by simp [hneg]))
    | true =>
      have havail : ((s.createEpt ept name).allocPriv ept).avail = s.avail := by
        rw [hept]
        rfl
      have hcheck : ((s.createEpt ept name).allocPriv ept).checkAvailableDesc size.toNat =
          none := by
        unfold TxPool.checkAvailableDesc
        rw [havail, if_pos]
        by_contra hboth
        rw [not_or] at hboth
        exact hfail ⟨rfl, by omega, by omega⟩
      simp only [hneg, if_false, Bool.true_eq_false, hcheck, hfresh]
      exact .inr (.inr trivial)

/-- A create that fails leaves an endpoint registered that has no `ept_priv`. -/
theorem createTxept_fails (name : Name) (nodeMem : Bool) (hready : s.ready = true) (hnone : s.priv ept = none)
    (hfail : ¬ (mem = true ∧ 0 < size ∧ descReq size.toNat ≤ s.avail)) :
    (s.createTxept ept name size mem nodeMem).2.fault = true ∨
      (ept ∈ (s.createTxept ept name size mem nodeMem).2.endpoints ∧
        (s.createTxept ept name size mem nodeMem).2.live ept = none) := by
  rcases createTxept_failed ept name nodeMem hready hfail with
    heq | heq | heq <;> rw [heq]
  · refine .inr ⟨?_, ?_⟩
    · simp [TxPool.createEpt, hready]
    · simp [TxPool.createEpt, hready, TxPool.live, hnone]
  · exact .inl rfl
  · refine .inr ⟨?_, ?_⟩
    · simp [TxPool.createEpt, hready, TxPool.allocPriv, TxPool.freePriv]
    · simp [TxPool.createEpt, hready, TxPool.live, TxPool.allocPriv, TxPool.freePriv]

theorem withPriv_some {f : Nat → TxPriv → TxPool} (h : s.withPriv ept f = some t) :
    ∃ p pr, s.priv ept = some p ∧ s.heap p = some pr ∧ t = f p pr := by
  unfold TxPool.withPriv TxPool.live at h
  cases hp : s.priv ept with
  | none => simp [hp] at h
  | some p =>
    cases hpr : s.heap p with
    | none => simp [hp, hpr] at h
    | some pr =>
      simp only [hp, hpr, Option.bind_some, Option.some.injEq] at h
      exact ⟨p, pr, rfl, hpr, h.symm⟩

theorem poolStep_kept (h : PoolInv s chain) (hc : CreateSucceeds s e)
    (ht : poolStep s e = some t) : ∃ chain', PoolInv t chain' := by
  cases e with
  | create ept name size mem nodeMem =>
    obtain ⟨rfl, hsize, havail⟩ := hc
    obtain ⟨hnone, ht⟩ := Option.ite_none_right_eq_some.mp ht
    obtain ⟨pr, hpr, heq⟩ := createTxept_succeeds ept name nodeMem
      h.ready hsize havail
    rw [heq, Option.some.injEq] at ht
    rw [← ht]
    exact ⟨_, (h.claimed hnone hsize havail).same (PoolSame.addNode hpr rfl)⟩
  | send ept data mem =>
    obtain ⟨p, pr, hpriv, hp, rfl⟩ := withPriv_some ht
    exact ⟨chain, h.same (h.toPoolOk.send_same hpriv hp data mem)⟩
  | destroy ept =>
    obtain ⟨p, pr, hpriv, hp, rfl⟩ := withPriv_some ht
    exact ⟨_, h.destroyed hpriv hp⟩
  | bind ept =>
    obtain ⟨-, ht⟩ := Option.ite_none_right_eq_some.mp ht
    obtain ⟨p, pr, -, hp, rfl⟩ := withPriv_some ht
    exact ⟨chain, h.same (PoolSame.bindProcess ept hp)⟩
  | remote i cmd sts =>
    obtain ⟨-, ht⟩ := Option.ite_none_right_eq_some.mp ht
    rw [← Option.some.inj ht]
    exact ⟨chain, h.same (PoolSame.setDesc rfl rfl)⟩

theorem poolStep_broken (h : PoolInv s chain) (ht : poolStep s e = some t) (hlaw : PoolLaw t) :
    CreateSucceeds s e := by
  cases e with
  | create ept name size mem nodeMem =>
    obtain ⟨hnone, ht⟩ := Option.ite_none_right_eq_some.mp ht
    rw [Option.some.injEq] at ht
    by_contra hfail
    rcases createTxept_fails name nodeMem h.ready hnone hfail with
      hfault | ⟨hmem, hlive⟩
    · rw [ht, hlaw.noFault] at hfault
      exact Bool.false_ne_true hfault
    · rw [ht] at hmem hlive
      exact (hlaw.registered.2 ept).1 hmem hlive
  | send ept data mem => trivial
  | destroy ept => trivial
  | bind ept => trivial
  | remote i cmd sts => trivial

/-- A create that finds what it needs does not fail. -/
theorem failUnchanged_of_succeeds (h : PoolInv s chain) (hc : CreateSucceeds s e) :
    FailUnchanged s e := by
  cases e with
  | create ept name size mem nodeMem =>
    obtain ⟨rfl, hsize, havail⟩ := hc
    intro err herr
    obtain ⟨pr, -, heq⟩ := createTxept_succeeds ept name nodeMem
      h.ready hsize havail
    rw [heq] at herr
    exact absurd herr (by simp)
  | send ept data mem => trivial
  | destroy ept => trivial
  | bind ept => trivial
  | remote i cmd sts => trivial

theorem poolStart_inv (shm : Shmem) : PoolInv (poolStart shm) fun _ => [] := by
  refine ⟨⟨rfl, fun _ _ hlive => ?_, fun _ _ => rfl, fun _ _ _ hp _ => ?_, fun _ _ hp => ?_,
    fun _ _ => rfl, fun _ _ _ => List.disjoint_nil_left _, fun _ i hi => ?_, fun i _ => ?_,
    fun _ _ _ => rfl, fun _ _ => rfl⟩, rfl, fun _ hp => absurd rfl hp, List.nodup_nil, fun _ => ?_⟩
  · exact absurd hlive (by simp [TxPool.live, poolStart])
  · exact absurd hp (by simp [poolStart])
  · exact absurd hp (by simp [poolStart])
  · exact absurd hi List.not_mem_nil
  · simp [poolStart]
  · simp [poolStart]

end Pool

/-- The pool keeps its law, and creates that fail leave no trace, exactly in the runs in which
no create fails. -/
theorem run_poolLaw_iff (shm : Shmem) (es : List PoolEvent) :
    (Always poolStep PoolLaw (poolStart shm) es ∧
      EachStep poolStep FailUnchanged (poolStart shm) es) ↔
      EachStep poolStep CreateSucceeds (poolStart shm) es := by
  have hiff : Always poolStep PoolLaw (poolStart shm) es ↔
      EachStep poolStep CreateSucceeds (poolStart shm) es :=
    always_iff_of_kept (P := fun s => ∃ chain, PoolInv s chain)
      (fun _ _ _ ⟨_, hs⟩ hc ht => poolStep_kept hs hc ht) (fun _ ⟨_, hs⟩ => hs.law)
      (fun _ _ _ ⟨_, hs⟩ ht hlaw => poolStep_broken hs ht hlaw) ⟨_, poolStart_inv shm⟩
  refine ⟨fun h => hiff.1 h.1, fun h => ⟨hiff.2 h, ?_⟩⟩
  exact eachStep_of_eachStep (P := fun s => ∃ chain, PoolInv s chain)
    (fun _ _ _ ⟨_, hs⟩ hc ht => ⟨poolStep_kept hs hc ht, failUnchanged_of_succeeds hs hc⟩)
    ⟨_, poolStart_inv shm⟩ h

/-- The create of an endpoint that needs one descriptor more than there are. -/
def tooLarge : List PoolEvent := [.create 0 [0x61] 16385 true true]

/-- It returns -1, and the endpoint is registered with a pointer to a freed `ept_priv`. -/
theorem not_poolLaw_tooLarge :
    ¬ (Always poolStep PoolLaw (poolStart fun _ => 0) tooLarge ∧
      EachStep poolStep FailUnchanged (poolStart fun _ => 0) tooLarge) := by
  rintro ⟨h, -⟩
  have hrun : (run poolStep (poolStart fun _ => 0) tooLarge).map (fun t =>
      (t.endpoints, (t.live 0).isSome)) = some ([0], false) := by
    decide
  obtain ⟨t, ht, hvals⟩ := Option.map_eq_some_iff.mp hrun
  simp only [Prod.mk.injEq] at hvals
  have hlive := ((h.last ht).registered.2 0).1 (by rw [hvals.1]; decide)
  rw [← Option.isSome_iff_ne_none, hvals.2] at hlive
  exact Bool.false_ne_true hlive

end Ma35d1.Amp