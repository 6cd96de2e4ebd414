import Ma35d1.Amp.Desc
import Ma35d1.Machine.Ring
import Ma35d1.Machine.Trace

/-!
# Receive buffers and the binding list

One core: `RxIPI_IRQHandler`, `ma35_rpmsg_poll`, `vBindingTask` and `ma35_rpmsg_destroy_ept` over
any number of endpoints. What the shared descriptors say is up to the other core, so an event
carries what is found there. The handler preempts the tasks between their steps: a binding has a
descriptor before it has buffers, and destroying frees the buffers before it lets the
descriptor go. Nodes and buffers are numbers that are not given out again.
-/

namespace Ma35d1.Amp

open Ma35d1.Machine.Ring (wrap_eq_next next_mod places places_succ places_cons not_mem_places)
open Ma35d1.Machine.Trace (run EachStep Always always_of_eachStep)

inductive EptType
  | tx | rx
  deriving DecidableEq

/-- `struct rxbuf_queue_t`; `msg` is the number of the reception the entry is for. -/
inductive QueueItem
  | message (rxbuf msg : Nat)
  | close
  deriving DecidableEq

/-- `struct rpmsg_endpoint_priv` -/
structure EptPriv where
  eptType : EptType
  tasknode : Option Nat
  remoteBinded : Bool
  /-- `bind_desc`, by index -/
  bindDesc : Option Nat
  bindId : Nat
  /-- `none` is a pointer that no allocation has set -/
  rxpool : Nat → Option Nat
  poolid : Nat
  xQueue : List QueueItem
  /-- the buffer the callback has and the reception it was given for, while it runs -/
  calling : Option (Nat × Nat)
  /-- `ma35_rpmsg_destroy_ept` has freed the buffers -/
  destroying : Bool

/-- Where `vBindingTask` is; a node is the one `scan` points at. -/
inductive Scan
  | off
  | visit (node : Nat)
  /-- the endpoint has its descriptor and gets its buffers -/
  | binding (node ept : Nat)
  | leave (node : Nat)
  deriving DecidableEq

structure RxCore where
  /-- `ept->priv` -/
  priv : Nat → Option EptPriv
  kickEpt : Nat → Option Nat
  /-- for each allocated buffer, the reception that was last copied to it -/
  bufs : Nat → Option Nat
  freshBuf : Nat
  received : Nat
  /-- the nodes behind `head_ept`, each with its endpoint -/
  nodes : List (Nat × Nat)
  freshNode : Nat
  scan : Scan
  /-- freed memory was used or freed again -/
  fault : Bool

def RxCore.setPriv (s : RxCore) (ept : Nat) (pr : Option EptPriv) : RxCore :=
  { s with priv := Function.update s.priv ept pr }

def RxCore.setFault (s : RxCore) : RxCore := { s with fault := true }

def RxCore.setScan (s : RxCore) (scan : Scan) : RxCore := { s with scan }

/-- `add_node`; `mem` tells whether the node is allocated. -/
def RxCore.addNode (s : RxCore) (ept : Nat) (pr : EptPriv) (mem : Bool) : RxCore :=
  if mem then
    { s.setPriv ept (some { pr with tasknode := some s.freshNode }) with
      nodes := s.nodes ++ [(s.freshNode, ept)]
      freshNode := s.freshNode + 1 }
  else s.setPriv ept (some pr)

/-- `remove_node`, of the first node with the endpoint -/
def RxCore.removeNode (s : RxCore) (ept : Nat) (pr : EptPriv) : RxCore :=
  if ept ∈ s.nodes.map Prod.snd then
    { s.setPriv ept (some { pr with tasknode := none }) with
      nodes := s.nodes.eraseP fun n => n.2 = ept }
  else s.setPriv ept (some pr)

/-- `metal_free_memory` of each pointer; `none` where one is not an allocated buffer. -/
def freeAll : List (Option Nat) → (Nat → Option Nat) → Option (Nat → Option Nat)
  | [], bufs => some bufs
  | none :: _, _ => none
  | some b :: ps, bufs => if bufs b = none then none else freeAll ps (Function.update bufs b none)

/-- The pointers in `rxpool`. -/
def EptPriv.pool (pr : EptPriv) : List (Option Nat) := (List.range rxbufPoolSize).map pr.rxpool

/-! ## Creating -/

def newPriv (eptType : EptType) : EptPriv :=
  { eptType, tasknode := none, remoteBinded := false, bindDesc := none, bindId := 0
    rxpool := fun _ => none, poolid := 0, xQueue := [], calling := none, destroying := false }

/-- The end of `ma35_rpmsg_create_txept` and `ma35_rpmsg_create_rxept`. -/
def RxCore.create (s : RxCore) (ept : Nat) (eptType : EptType) (mem : Bool) : RxCore :=
  s.addNode ept (newPriv eptType) mem

/-! ## The interrupt handler -/

/-- `xQueueSend` -/
def EptPriv.send (pr : EptPriv) (item : QueueItem) : EptPriv :=
  if pr.xQueue.length < rxbufQueueSize then { pr with xQueue := pr.xQueue ++ [item] } else pr

/-- `ma35_rpmsg_receive` -/
def RxCore.receiveMessage (s : RxCore) (ept : Nat) (pr : EptPriv) : RxCore :=
  match pr.rxpool pr.poolid with
  | none => s.setFault
  | some b =>
    if s.bufs b = none then s.setFault
    else
      -- the buffer is written before the queue is asked for a place
      let msg := s.received
      let s := { s with bufs := Function.update s.bufs b (some msg), received := msg + 1 }
      if pr.xQueue.length < rxbufQueueSize then
        s.setPriv ept (some { pr with
          xQueue := pr.xQueue ++ [.message b msg]
          poolid := if rxbufPoolSize ≤ pr.poolid + 1 then 0 else pr.poolid + 1 })
      else s

/-- `ma35_kill_ns_bind` -/
def RxCore.killNsBind (s : RxCore) (ept : Nat) (pr : EptPriv) (mem : Bool) : RxCore :=
  match freeAll pr.pool s.bufs with
  | none => s.setFault
  | some bufs =>
    { s with bufs, kickEpt := Function.update s.kickEpt pr.bindId none }.addNode ept
      ({ pr with bindDesc := none, bindId := 0 }.send .close) mem

/-- `ma35_rpmsg_reconnect_ept` -/
def RxCore.reconnectEpt (s : RxCore) (ept : Nat) (pr : EptPriv) (mem : Bool) : RxCore :=
  if pr.tasknode ≠ none then s
  else
    match pr.eptType with
    | .tx => s.addNode ept { pr with remoteBinded := false } mem
    | .rx => s.killNsBind ept pr mem

/-- The handler at a descriptor with `CMD` set, for the endpoint found in `kick_ept`. -/
def RxCore.kick (s : RxCore) (i : Nat) (f : Nat → EptPriv → RxCore) : RxCore :=
  match s.kickEpt i with
  | none => s
  | some ept =>
    match s.priv ept with
    | none => s.setFault
    | some pr => if pr.bindDesc = none then s else f ept pr

/-! ## Polling -/

/-- `ma35_rpmsg_poll` up to the callback. -/
def RxCore.poll (s : RxCore) (ept : Nat) (pr : EptPriv) : RxCore :=
  match pr.xQueue with
  | [] => s
  | .message b msg :: xQueue => s.setPriv ept (some { pr with xQueue, calling := some (b, msg) })
  | .close :: xQueue => s.setPriv ept (some { pr with xQueue })

/-! ## The binding task -/

/-- `scan = head->next` -/
def RxCore.scanHead (s : RxCore) : RxCore :=
  s.setScan (match s.nodes.head? with
    | none => .off
    | some n => .visit n.1)

/-- What `scan->next` is, for a node in the list. -/
def nextNode : List (Nat × Nat) → Nat → Option Scan
  | [], _ => none
  | n :: ns, node =>
    if n.1 = node then
      some (match ns.head? with
        | none => .off
        | some m => .visit m.1)
    else nextNode ns node

/-- `scan = scan->next` -/
def RxCore.scanNext (s : RxCore) (node : Nat) : RxCore :=
  match nextNode s.nodes node with
  | none => s.setFault
  | some scan => s.setScan scan

/-- `ma35_rpmsg_bind_process` up to the buffers; `found` is the descriptor that matches, or for
a transmit endpoint its own when the peer has bound it. -/
def RxCore.bindProcess (s : RxCore) (node ept : Nat) (pr : EptPriv) (found : Option Nat) : RxCore :=
  match pr.eptType, found with
  | _, none => s.setScan (.leave node)
  | .tx, some _ => (s.removeNode ept { pr with remoteBinded := true }).setScan (.leave node)
  | .rx, some i =>
    { s.setPriv ept (some { pr with bindDesc := some i, bindId := i }) with
      kickEpt := Function.update s.kickEpt i (some ept)
      scan := .binding node ept }

/-- The scan comes to a node. -/
def RxCore.scanBind (s : RxCore) (node : Nat) (found : Option Nat) : RxCore :=
  match s.nodes.find? fun n => n.1 = node with
  | none => s.setFault
  | some n =>
    match s.priv n.2 with
    | none => s.setFault
    | some pr => s.bindProcess node n.2 pr found

/-- The pointers after `ma35_allocate_buf_pool`, whose allocations up to number `k` succeed. -/
def allocated (fresh k : Nat) (rxpool : Nat → Option Nat) : Nat → Option Nat := fun i =>
  if i < k ∧ i < rxbufPoolSize then some (fresh + i) else if i = k then none else rxpool i

/-- `ma35_allocate_buf_pool`, and the removal of the node when all buffers are there. -/
def RxCore.allocateBufPool (s : RxCore) (node ept : Nat) (pr : EptPriv) (k : Nat) : RxCore :=
  let pr := { pr with poolid := 0, rxpool := allocated s.freshBuf k pr.rxpool }
  if rxbufPoolSize ≤ k then
    ({ s with
      bufs := fun b =>
        if s.freshBuf ≤ b ∧ b < s.freshBuf + rxbufPoolSize then some s.received else s.bufs b
      freshBuf := s.freshBuf + rxbufPoolSize
      received := s.received + 1 }.removeNode ept pr).setScan (.leave node)
  else
    -- the buffers there are freed again, and the endpoint stays as it is
    ({ s with freshBuf := s.freshBuf + k }.setPriv ept (some pr)).setScan (.leave node)

/-! ## Destroying -/

/-- `ma35_rpmsg_destroy_ept` once the buffers are freed. -/
def RxCore.destroyEnd (s : RxCore) (ept : Nat) (pr : EptPriv) : RxCore :=
  let s := match pr.eptType with
    | .tx => s
    | .rx => { s with kickEpt := Function.update s.kickEpt pr.bindId none }
  (if pr.tasknode ≠ none then s.removeNode ept pr else s).setPriv ept none

/-- `ma35_rpmsg_destroy_ept`: a bound receive endpoint frees its buffers first. -/
def RxCore.destroyEpt (s : RxCore) (ept : Nat) (pr : EptPriv) : RxCore :=
  match pr.eptType, pr.bindDesc with
  | .rx, some _ =>
    match freeAll pr.pool s.bufs with
    | none => s.setFault
    | some bufs => { s with bufs }.setPriv ept (some { pr with destroying := true })
  | _, _ => s.destroyEnd ept pr

/-! ## Runs -/

inductive RxEvent
  | create (ept : Nat) (eptType : EptType) (mem : Bool)
  /-- the handler finds HEAD at descriptor `i` -/
  | receive (i : Nat)
  /-- the handler finds CLOSE at descriptor `i` -/
  | close (i : Nat) (mem : Bool)
  /-- a send on a bound endpoint finds that the peer has closed it -/
  | closed (ept : Nat) (mem : Bool)
  | poll (ept : Nat)
  /-- the callback returns -/
  | pollEnd (ept : Nat)
  | scanHead
  | scanBind (found : Option Nat)
  /-- all allocations before number `k` succeed -/
  | scanAlloc (k : Nat)
  | scanNext
  | destroy (ept : Nat)
  | destroyEnd (ept : Nat)

/-- An operation on an endpoint that has its `ept_priv`. -/
def RxCore.withPriv (s : RxCore) (ept : Nat) (p : EptPriv → Bool) (f : EptPriv → RxCore) :
    Option RxCore :=
  (s.priv ept).bind fun pr => if p pr then some (f pr) else none

def rxCoreStep (s : RxCore) : RxEvent → Option RxCore
  | .create ept eptType mem => if s.priv ept = none then some (s.create ept eptType mem) else none
  | .receive i => some (s.kick i s.receiveMessage)
  | .close i mem => some (s.kick i fun ept pr => s.reconnectEpt ept pr mem)
  | .closed ept mem =>
    s.withPriv ept (fun pr => pr.eptType = .tx && pr.remoteBinded) (s.reconnectEpt ept · mem)
  | .poll ept => s.withPriv ept (fun pr => pr.eptType = .rx && pr.calling.isNone) (s.poll ept)
  | .pollEnd ept => s.withPriv ept (fun pr => pr.calling.isSome) fun pr =>
    s.setPriv ept (some { pr with calling := none })
  | .scanHead => if s.scan = .off then some s.scanHead else none
  | .scanBind found =>
    match s.scan with
    | .visit node => some (s.scanBind node found)
    | _ => none
  | .scanAlloc k =>
    match s.scan with
    | .binding node ept =>
      match s.priv ept with
      | none => some s.setFault
      | some pr => some (s.allocateBufPool node ept pr k)
    | _ => none
  | .scanNext =>
    match s.scan with
    | .leave node => some (s.scanNext node)
    | _ => none
  | .destroy ept => s.withPriv ept (fun pr => !pr.destroying) (s.destroyEpt ept)
  | .destroyEnd ept => s.withPriv ept (fun pr => pr.destroying) (s.destroyEnd ept)

/-- After `ma35_rpmsg_init_vdev`. -/
def rxCoreStart : RxCore :=
  { priv := fun _ => none, kickEpt := fun _ => none, bufs := fun _ => none, freshBuf := 0
    received := 0, nodes := [], freshNode := 0, scan := .off, fault := false }

/-! ## The law -/

/-- The scan has given the endpoint its descriptor and not yet its buffers. -/
def RxCore.binds (s : RxCore) (ept : Nat) : Prop := ∃ node, s.scan = .binding node ept

/-- The endpoint is bound, and has been given its buffers and not had them freed. -/
def RxCore.hasPool (s : RxCore) (ept : Nat) (pr : EptPriv) : Prop :=
  pr.bindDesc ≠ none ∧ pr.destroying = false ∧ ¬ s.binds ept

/-- The endpoint waits to be bound. -/
def RxCore.waiting (s : RxCore) (ept : Nat) (pr : EptPriv) : Prop :=
  match pr.eptType with
  | .tx => pr.remoteBinded = false
  | .rx => pr.bindDesc = none ∨ s.binds ept

/-- The buffer is in the pool of the endpoint. -/
def RxCore.owns (s : RxCore) (ept b : Nat) : Prop :=
  ∃ pr, s.priv ept = some pr ∧ s.hasPool ept pr ∧ ∃ i < rxbufPoolSize, pr.rxpool i = some b

/-- What buffers and nodes are promised in every state. -/
structure LifetimeLaw (s : RxCore) : Prop where
  noFault : s.fault = false
  /-- what the callback was given is neither freed nor overwritten -/
  callback : ∀ ept pr b msg, s.priv ept = some pr → pr.calling = some (b, msg) →
    s.bufs b = some msg
  /-- what is queued is not overwritten -/
  queued : ∀ ept pr b msg, s.priv ept = some pr → .message b msg ∈ pr.xQueue →
    s.bufs b = none ∨ s.bufs b = some msg
  /-- a buffer that is not freed has an endpoint that will free it -/
  owned : ∀ b, s.bufs b ≠ none → ∃ ept, s.owns ept b
  /-- a bound endpoint has all its buffers -/
  complete : ∀ ept pr, s.priv ept = some pr → s.hasPool ept pr → ∀ i < rxbufPoolSize,
    ∃ b, pr.rxpool i = some b ∧ s.bufs b ≠ none
  /-- the list has each endpoint that waits once, and no other -/
  once : (s.nodes.map Prod.snd).Nodup
  listed : ∀ ept, ept ∈ s.nodes.map Prod.snd ↔ ∃ pr, s.priv ept = some pr ∧ s.waiting ept pr

def QueueItem.message? : QueueItem → Option (Nat × Nat)
  | .message b msg => some (b, msg)
  | .close => none

/-- What `scan` points at. -/
def Scan.node? : Scan → Option Nat
  | .off => none
  | .visit node | .binding node _ | .leave node => some node

/-- The steps that do no harm. -/
def RxKept (s : RxCore) : RxEvent → Prop
  -- the node is allocated
  | .create _ _ mem | .closed _ mem => mem = true
  -- the endpoint has its buffers, and the next one is not the callback's
  | .receive i => ∀ ept ∈ s.kickEpt i, ∀ pr ∈ s.priv ept, pr.destroying = false ∧ ¬ s.binds ept ∧
      (pr.calling = none ∨ pr.xQueue.length < rxbufQueueSize)
  | .close i mem => ∀ ept ∈ s.kickEpt i, ∀ pr ∈ s.priv ept, pr.destroying = false ∧
      ¬ s.binds ept ∧ pr.calling = none ∧ mem = true
  -- the buffer of the next entry has not been freed by a close
  | .poll ept => ∀ pr ∈ s.priv ept, ∀ item ∈ pr.xQueue.head?, ∀ m ∈ item.message?,
      s.bufs m.1 ≠ none
  -- the node of the scan is still in the list
  | .scanBind _ | .scanNext => ∀ node ∈ s.scan.node?, node ∈ s.nodes.map Prod.fst
  | .scanAlloc k => rxbufPoolSize ≤ k
  | .destroy ept => ∀ pr ∈ s.priv ept, pr.calling = none ∧ ¬ s.binds ept
  | .pollEnd _ | .scanHead | .destroyEnd _ => True

instance (s : RxCore) (ept : Nat) : Decidable (s.binds ept) :=
  match h : s.scan with
  | .binding node e => decidable_of_iff (e = ept) (by simp [RxCore.binds, h])
  | .off | .visit _ | .leave _ => .isFalse (by simp [RxCore.binds, h])

instance (s : RxCore) (e : RxEvent) : Decidable (RxKept s e) := by
  cases e <;> unfold RxKept <;> infer_instance

/-! ## The buffers of one endpoint -/

/-- The messages under way to the callback whose buffers are allocated, the callback's own
first. -/
def held (bufs : Nat → Option Nat) (xQueue : List QueueItem) (calling : Option (Nat × Nat)) :
    List (Nat × Nat) :=
  (calling.toList ++ xQueue.filterMap QueueItem.message?).filter fun m => (bufs m.1).isSome

/-- The buffers of an endpoint; `has` tells whether its pool is allocated. -/
structure EptInv (bufs : Nat → Option Nat) (fresh : Nat) (has : Prop) (rxpool : Nat → Option Nat)
    (poolid : Nat) (xQueue : List QueueItem) (calling : Option (Nat × Nat)) : Prop where
  pool : has → ∀ i < rxbufPoolSize, ∃ b, rxpool i = some b ∧ bufs b ≠ none
  inj : has → ∀ i < rxbufPoolSize, ∀ j < rxbufPoolSize, rxpool i = rxpool j → i = j
  lt : ∀ m ∈ calling.toList ++ xQueue.filterMap QueueItem.message?, m.1 < fresh
  content : ∀ m ∈ held bufs xQueue calling, bufs m.1 = some m.2
  ring : has → ∃ c, (held bufs xQueue calling).map (fun m => some m.1) =
      (places rxbufPoolSize c (held bufs xQueue calling).length).map rxpool ∧
    poolid = (c + (held bufs xQueue calling).length) % rxbufPoolSize
  gone : ¬ has → held bufs xQueue calling = [] ∧ calling = none
  callback : ∀ m, calling = some m → bufs m.1 ≠ none
  cap : xQueue.length ≤ rxbufQueueSize

section Ept

variable {bufs bufs' : Nat → Option Nat} {fresh fresh' poolid b msg : Nat} {has has' : Prop}
  {rxpool : Nat → Option Nat} {xQueue : List QueueItem} {calling : Option (Nat × Nat)}
  {m : Nat × Nat}

theorem mem_held : m ∈ held bufs xQueue calling ↔
    m ∈ calling.toList ++ xQueue.filterMap QueueItem.message? ∧ bufs m.1 ≠ none := by
  unfold held
  rw [List.mem_filter, Option.isSome_iff_ne_none]

/-- A held buffer is one of the pool. -/
theorem EptInv.held_pool (h : EptInv bufs fresh has rxpool poolid xQueue calling)
    (hm : m ∈ held bufs xQueue calling) : has ∧ ∃ i < rxbufPoolSize, rxpool i = some m.1 := by
  have hhas : has := by
    by_contra hnot
    rw [(h.gone hnot).1] at hm
    exact List.not_mem_nil hm
  obtain ⟨c, hids, -⟩ := h.ring hhas
  have hmem : some m.1 ∈ (held bufs xQueue calling).map fun m => some m.1 :=
    List.mem_map_of_mem hm
  rw [hids] at hmem
  obtain ⟨i, hi, heq⟩ := List.mem_map.mp hmem
  obtain ⟨j, -, rfl⟩ := List.mem_map.mp hi
  exact ⟨hhas, _, Nat.mod_lt _ (by decide), heq⟩

theorem held_congr (hb : ∀ m ∈ calling.toList ++ xQueue.filterMap QueueItem.message?,
    (bufs' m.1).isSome = (bufs m.1).isSome) :
    held bufs' xQueue calling = held bufs xQueue calling :=
  List.filter_congr hb

/-- Changes to fresh buffers and to those of other endpoints do not matter. -/
theorem EptInv.frame (h : EptInv bufs fresh has rxpool poolid xQueue calling)
    (hhas : has' ↔ has) (hfresh : fresh ≤ fresh')
    (hb : ∀ b, bufs' b ≠ bufs b → (bufs b = none ∧ fresh ≤ b) ∨
      (bufs b ≠ none ∧ ∀ i < rxbufPoolSize, has → rxpool i ≠ some b)) :
    EptInv bufs' fresh' has' rxpool poolid xQueue calling := by
  have hpool : has → ∀ i < rxbufPoolSize, ∀ b, rxpool i = some b → bufs' b = bufs b := by
    intro hyes i hi b hib
    by_contra hne
    rcases hb b hne with ⟨hnone, -⟩ | ⟨-, hnot⟩
    · obtain ⟨b', hb', hlive⟩ := h.pool hyes i hi
      obtain rfl : b = b' := Option.some.inj (hib.symm.trans hb')
      exact hlive hnone
    · exact hnot i hi hyes hib
  have hout : ∀ m ∈ calling.toList ++ xQueue.filterMap QueueItem.message?,
      bufs' m.1 = bufs m.1 := by
    intro m hm
    by_contra hne
    rcases hb m.1 hne with ⟨-, hle⟩ | ⟨hlive, hnot⟩
    · exact absurd (h.lt m hm) (Nat.not_lt.2 hle)
    · obtain ⟨hyes, i, hi, heq⟩ := h.held_pool (mem_held.2 ⟨hm, hlive⟩)
      exact hnot i hi hyes heq
  have hheld : held bufs' xQueue calling = held bufs xQueue calling :=
    held_congr fun m hm => by rw [hout m hm]
  refine ⟨fun hyes i hi => ?_, fun hyes => h.inj (hhas.1 hyes),
    fun m hm => Nat.lt_of_lt_of_le (h.lt m hm) hfresh, fun m hm => ?_, fun hyes => ?_,
    fun hnot => ?_, fun m hm => ?_, h.cap⟩
  · obtain ⟨b, hb', hlive⟩ := h.pool (hhas.1 hyes) i hi
    exact ⟨b, hb', by rw [hpool (hhas.1 hyes) i hi b hb']; exact hlive⟩
  · rw [hheld] at hm
    rw [hout m (mem_held.1 hm).1]
    exact h.content m hm
  · rw [hheld]
    exact h.ring (hhas.1 hyes)
  · rw [hheld]
    exact h.gone (mt hhas.2 hnot)
  · rw [hout m (by rw [hm]; exact List.mem_cons_self)]
    exact h.callback m hm

/-- With the next buffer of the pool not the callback's, it is no held buffer. -/
theorem EptInv.next_free (h : EptInv bufs fresh has rxpool poolid xQueue calling) (hyes : has)
    (hroom : calling = none ∨ xQueue.length < rxbufQueueSize) (hb : rxpool poolid = some b) :
    ∀ m ∈ held bufs xQueue calling, m.1 ≠ b := by
  obtain ⟨c, hids, hpoolid⟩ := h.ring hyes
  have hlen : (held bufs xQueue calling).length < rxbufPoolSize := by
    have hle : (held bufs xQueue calling).length ≤ calling.toList.length + xQueue.length := by
      unfold held
      refine (List.length_filter_le _ _).trans ?_
      rw [List.length_append]
      exact Nat.add_le_add_left (List.length_filterMap_le _ _) _
    have hcap := h.cap
    unfold rxbufPoolSize
    rcases hroom with hnone | hlt
    · rw [hnone] at hle ⊢
      simp only [Option.toList_none, List.length_nil] at hle
      omega
    · have hone : calling.toList.length ≤ 1 := by cases calling <;> simp
      omega
  intro m hm heq
  have hmem : some m.1 ∈ (held bufs xQueue calling).map fun m => some m.1 :=
    List.mem_map_of_mem hm
  rw [hids, heq, ← hb] at hmem
  obtain ⟨i, hi, hib⟩ := List.mem_map.mp hmem
  have hlt : i < rxbufPoolSize := by
    obtain ⟨j, -, rfl⟩ := List.mem_map.mp hi
    exact Nat.mod_lt _ (by decide)
  have hlt' : poolid < rxbufPoolSize := hpoolid ▸ Nat.mod_lt _ (by decide)
  obtain rfl := h.inj hyes i hlt poolid hlt' hib
  rw [hpoolid] at hi
  exact not_mem_places c hlen hi

theorem isSome_update (hb : bufs b ≠ none) (c : Nat) :
    (Function.update bufs b (some msg) c).isSome = (bufs c).isSome := by
  by_cases hc : c = b
  · rw [hc, Function.update_self, Option.isSome_some, eq_comm, Option.isSome_iff_ne_none]
    exact hb
  · rw [Function.update_of_ne hc]

/-- A message is copied to the next buffer. -/
theorem EptInv.written (h : EptInv bufs fresh has rxpool poolid xQueue calling) (hyes : has)
    (hroom : calling = none ∨ xQueue.length < rxbufQueueSize) (hb : rxpool poolid = some b)
    (hlive : bufs b ≠ none) (msg : Nat) :
    EptInv (Function.update bufs b (some msg)) fresh has rxpool poolid xQueue calling := by
  have hheld : held (Function.update bufs b (some msg)) xQueue calling =
      held bufs xQueue calling := held_congr fun m _ => isSome_update hlive m.1
  have hsome : ∀ c, bufs c ≠ none → Function.update bufs b (some msg) c ≠ none := by
    intro c hc
    rw [← Option.isSome_iff_ne_none, isSome_update hlive, Option.isSome_iff_ne_none]
    exact hc
  refine ⟨fun hyes i hi => ?_, h.inj, h.lt, fun m hm => ?_, fun hyes => ?_, fun hnot => ?_,
    fun m hm => hsome m.1 (h.callback m hm), h.cap⟩
  · obtain ⟨c, hc, hlc⟩ := h.pool hyes i hi
    exact ⟨c, hc, hsome c hlc⟩
  · rw [hheld] at hm
    rw [Function.update_of_ne (h.next_free hyes hroom hb m hm)]
    exact h.content m hm
  · rw [hheld]
    exact h.ring hyes
  · exact absurd hyes hnot

/-- The entry for it is queued. -/
theorem EptInv.queued (h : EptInv bufs fresh has rxpool poolid xQueue calling) (hyes : has)
    (hb : rxpool poolid = some b) (hcontent : bufs b = some msg) (hlt : b < fresh)
    (hroom : xQueue.length < rxbufQueueSize) :
    EptInv bufs fresh has rxpool (if rxbufPoolSize ≤ poolid + 1 then 0 else poolid + 1)
      (xQueue ++ [.message b msg]) calling := by
  have hout : calling.toList ++
      (xQueue ++ [QueueItem.message b msg]).filterMap QueueItem.message? =
      calling.toList ++ xQueue.filterMap QueueItem.message? ++ [(b, msg)] := by
    rw [List.filterMap_append, ← List.append_assoc]
    rfl
  have hheld : held bufs (xQueue ++ [.message b msg]) calling =
      held bufs xQueue calling ++ [(b, msg)] := by
    unfold held
    rw [hout, List.filter_append]
    simp [hcontent]
  refine ⟨h.pool, h.inj, fun m hm => ?_, fun m hm => ?_, fun _ => ?_, fun hnot => absurd hyes hnot,
    h.callback, ?_⟩
  · rw [hout] at hm
    rcases List.mem_append.mp hm with hm | hm
    · exact h.lt m hm
    · rw [List.mem_singleton.mp hm]
      exact hlt
  · rw [hheld] at hm
    rcases List.mem_append.mp hm with hm | hm
    · exact h.content m hm
    · rw [List.mem_singleton.mp hm]
      exact hcontent
  · obtain ⟨c, hids, hpoolid⟩ := h.ring hyes
    have hlt' : poolid < rxbufPoolSize := hpoolid ▸ Nat.mod_lt _ (by decide)
    refine ⟨c, ?_, ?_⟩
    · rw [hheld, List.map_append, List.length_append, List.length_singleton, places_succ,
        List.map_append, hids, ← hpoolid, List.map_singleton, List.map_singleton, hb]
    · rw [wrap_eq_next hlt', hpoolid, next_mod (by decide), hheld, List.length_append,
        List.length_singleton,
        Nat.add_assoc]
  · rw [List.length_append, List.length_singleton]
    exact hroom

/-- The buffers of the pool are freed while no callback runs. -/
theorem EptInv.freed (h : EptInv bufs fresh has rxpool poolid xQueue calling)
    (hnone : calling = none) (hpool : ∀ i < rxbufPoolSize, ∀ b, rxpool i = some b → bufs' b = none)
    (hb : ∀ b, bufs b = none → bufs' b = none) (hnot : ¬ has') :
    EptInv bufs' fresh has' rxpool poolid xQueue calling := by
  have hheld : held bufs' xQueue calling = [] := by
    refine List.filter_eq_nil_iff.2 fun m hm => ?_
    rw [Option.isSome_iff_ne_none, not_not]
    by_cases hlive : bufs m.1 = none
    · exact hb m.1 hlive
    · obtain ⟨-, i, hi, heq⟩ := h.held_pool (mem_held.2 ⟨hm, hlive⟩)
      exact hpool i hi m.1 heq
  refine ⟨fun hyes => absurd hyes hnot, fun hyes => absurd hyes hnot, h.lt, fun m hm => ?_,
    fun hyes => absurd hyes hnot, fun _ => ⟨hheld, hnone⟩, fun m hm => ?_, h.cap⟩
  · rw [hheld] at hm
    exact absurd hm List.not_mem_nil
  · rw [hnone] at hm
    exact absurd hm (by simp)

/-- Queueing a CLOSE changes nothing. -/
theorem EptInv.sendClose (h : EptInv bufs fresh has rxpool poolid xQueue calling)
    (hroom : xQueue.length < rxbufQueueSize) :
    EptInv bufs fresh has rxpool poolid (xQueue ++ [.close]) calling := by
  have hout : (xQueue ++ [QueueItem.close]).filterMap QueueItem.message? =
      xQueue.filterMap QueueItem.message? := by
    rw [List.filterMap_append]
    exact List.append_nil _
  have hheld : held bufs (xQueue ++ [.close]) calling = held bufs xQueue calling := by
    unfold held
    rw [hout]
  refine ⟨h.pool, h.inj, by rw [hout]; exact h.lt, by rw [hheld]; exact h.content,
    by rw [hheld]; exact h.ring, by rw [hheld]; exact h.gone, h.callback, ?_⟩
  rw [List.length_append, List.length_singleton]
  exact hroom

theorem EptInv.takeClose (h : EptInv bufs fresh has rxpool poolid (.close :: xQueue) calling) :
    EptInv bufs fresh has rxpool poolid xQueue calling :=
  ⟨h.pool, h.inj, h.lt, h.content, h.ring, h.gone, h.callback, (Nat.le_succ _).trans h.cap⟩

/-- The entry at the front goes to the callback. -/
theorem EptInv.takeMessage
    (h : EptInv bufs fresh has rxpool poolid (.message b msg :: xQueue) none)
    (hlive : bufs b ≠ none) : EptInv bufs fresh has rxpool poolid xQueue (some (b, msg)) := by
  have hheld : held bufs xQueue (some (b, msg)) = held bufs (.message b msg :: xQueue) none := rfl
  have hmem : (b, msg) ∈ held bufs (.message b msg :: xQueue) none :=
    mem_held.2 ⟨List.mem_cons_self, hlive⟩
  refine ⟨h.pool, h.inj, h.lt, h.content, h.ring, fun hnot => ?_, fun m hm => ?_,
    (Nat.le_succ _).trans h.cap⟩
  · exact absurd (h.held_pool hmem).1 hnot
  · obtain rfl := Option.some.inj hm
    exact hlive

/-- The callback returns. -/
theorem EptInv.returned (h : EptInv bufs fresh has rxpool poolid xQueue (some m)) :
    EptInv bufs fresh has rxpool poolid xQueue none := by
  have hlive := h.callback m rfl
  have hheld : held bufs xQueue (some m) = m :: held bufs xQueue none := by
    unfold held
    rw [Option.toList_some, List.singleton_append, List.filter_cons_of_pos]
    · rfl
    · rw [Option.isSome_iff_ne_none]
      exact hlive
  have hyes : has := (h.held_pool (m := m) (by rw [hheld]; exact List.mem_cons_self)).1
  refine ⟨h.pool, h.inj, fun n hn => h.lt n (List.mem_cons_of_mem _ hn), fun n hn => ?_,
    fun _ => ?_, fun hnot => absurd hyes hnot, fun n hn => absurd hn (by simp), h.cap⟩
  · exact h.content n (by rw [hheld]; exact List.mem_cons_of_mem _ hn)
  · obtain ⟨c, hids, hpoolid⟩ := h.ring hyes
    rw [hheld, List.length_cons, places_cons, List.map_cons, List.map_cons, List.cons.injEq] at hids
    refine ⟨c + 1, hids.2, ?_⟩
    rw [hpoolid, hheld, List.length_cons, Nat.add_assoc, Nat.add_comm 1]

theorem allocated_of_lt {k i : Nat} (hk : rxbufPoolSize ≤ k) (hi : i < rxbufPoolSize) :
    allocated fresh k rxpool i = some (fresh + i) := if_pos ⟨Nat.lt_of_lt_of_le hi hk, hi⟩

/-- An endpoint without buffers gets a pool of fresh ones. -/
theorem EptInv.allocated {k : Nat} (msg : Nat) (h : EptInv bufs fresh has rxpool poolid xQueue calling)
    (hnot : ¬ has) (hk : rxbufPoolSize ≤ k) (hyes : has') :
    EptInv (fun b => if fresh ≤ b ∧ b < fresh + rxbufPoolSize then some msg else bufs b)
      (fresh + rxbufPoolSize) has' (allocated fresh k rxpool) 0 xQueue calling := by
  obtain ⟨hnil, hnone⟩ := h.gone hnot
  have hheld : held (fun b => if fresh ≤ b ∧ b < fresh + rxbufPoolSize then some msg else bufs b)
      xQueue calling = [] := by
    rw [← hnil]
    refine held_congr fun m hm => ?_
    have hlt := h.lt m hm
    rw [if_neg (by omega)]
  refine ⟨fun _ i hi => ⟨fresh + i, allocated_of_lt hk hi, ?_⟩, fun _ i hi j hj heq => ?_,
    fun m hm => Nat.lt_of_lt_of_le (h.lt m hm) (Nat.le_add_right _ _), fun m hm => ?_,
    fun _ => ⟨0, ?_, ?_⟩, fun hno => absurd hyes hno, fun m hm => ?_, h.cap⟩
  · rw [if_pos (by omega)]
    exact Option.some_ne_none _
  · rw [allocated_of_lt hk hi, allocated_of_lt hk hj, Option.some.injEq] at heq
    omega
  · rw [hheld] at hm
    exact absurd hm List.not_mem_nil
  · rw [hheld]
    rfl
  · rw [hheld]
    rfl
  · rw [hnone] at hm
    exact absurd hm (by simp)

theorem newPriv_inv (bufs : Nat → Option Nat) (fresh : Nat) (hnot : ¬ has) :
    EptInv bufs fresh has (fun _ => none) 0 [] none :=
  ⟨fun hyes => absurd hyes hnot, fun hyes => absurd hyes hnot, fun m hm => absurd hm (by simp),
    fun m hm => absurd hm List.not_mem_nil, fun hyes => absurd hyes hnot, fun _ => ⟨rfl, rfl⟩,
    fun m hm => absurd hm (by simp), Nat.zero_le _⟩

/-- Freeing different allocated buffers frees them and nothing else. -/
theorem freeAll_some {ps : List (Option Nat)} (hnd : ps.Nodup)
    (hp : ∀ p ∈ ps, ∃ b, p = some b ∧ bufs b ≠ none) :
    freeAll ps bufs = some fun b => if some b ∈ ps then none else bufs b := by
  induction ps generalizing bufs with
  | nil => simp [freeAll]
  | cons p ps ih =>
    obtain ⟨b, rfl, hb⟩ := hp p List.mem_cons_self
    obtain ⟨hnot, hrest⟩ := List.nodup_cons.mp hnd
    have hother : ∀ c, some c ∈ ps → c ≠ b := fun c hc he => hnot (he ▸ hc)
    rw [freeAll, if_neg hb, ih hrest]
    · congr 1
      funext c
      by_cases hc : c = b
      · simp [hc]
      · simp [hc]
    · intro p hp'
      obtain ⟨c, rfl, hc⟩ := hp p (List.mem_cons_of_mem _ hp')
      exact ⟨c, rfl, by rw [Function.update_of_ne (hother c hp')]; exact hc⟩

/-- The pool of an endpoint can be freed. -/
theorem EptInv.freeAll (h : EptInv bufs fresh has rxpool poolid xQueue calling) (hyes : has) :
    ∃ bufs', freeAll ((List.range rxbufPoolSize).map rxpool) bufs = some bufs' ∧
      ∀ b, bufs' b = if some b ∈ (List.range rxbufPoolSize).map rxpool then none else bufs b := by
  refine ⟨_, freeAll_some ?_ fun p hp => ?_, fun _ => rfl⟩
  · refine List.Nodup.map_on (fun i hi j hj => ?_) List.nodup_range
    exact h.inj hyes i (List.mem_range.1 hi) j (List.mem_range.1 hj)
  · obtain ⟨i, hi, rfl⟩ := List.mem_map.mp hp
    exact h.pool hyes i (List.mem_range.1 hi)

end Ept

/-! ## All endpoints -/

def RxCore.EptOk (s : RxCore) (ept : Nat) (pr : EptPriv) : Prop :=
  EptInv s.bufs s.freshBuf (s.hasPool ept pr) pr.rxpool pr.poolid pr.xQueue pr.calling

/-- Every allocated buffer belongs to one endpoint. -/
structure BufInv (s : RxCore) : Prop where
  ok : ∀ ept pr, s.priv ept = some pr → s.EptOk ept pr
  lt : ∀ b, s.bufs b ≠ none → b < s.freshBuf
  owned : ∀ b, s.bufs b ≠ none → ∃ ept, s.owns ept b
  unique : ∀ ept ept' b, s.owns ept b → s.owns ept' b → ept = ept'

/-- The words of an endpoint agree with the list. -/
structure ListOk (s : RxCore) (ept : Nat) (pr : EptPriv) : Prop where
  task : pr.tasknode ≠ none ↔ ept ∈ s.nodes.map Prod.snd
  bound : ∀ i, pr.bindDesc = some i → pr.eptType = .rx ∧ pr.bindId = i
  destroying : pr.destroying = true → pr.bindDesc ≠ none
  binding : s.binds ept → pr.bindDesc ≠ none ∧ pr.destroying = false

/-- The list has the endpoints that wait. -/
structure ListInv (s : RxCore) : Prop where
  once : (s.nodes.map Prod.snd).Nodup
  listed : ∀ ept, ept ∈ s.nodes.map Prod.snd ↔ ∃ pr, s.priv ept = some pr ∧ s.waiting ept pr
  ok : ∀ ept pr, s.priv ept = some pr → ListOk s ept pr
  binding : ∀ ept, s.binds ept → s.priv ept ≠ none
  kick : ∀ i ept, s.kickEpt i = some ept → ∃ pr, s.priv ept = some pr ∧ pr.bindDesc = some i

structure LifeInv (s : RxCore) : Prop where
  noFault : s.fault = false
  bufs : BufInv s
  list : ListInv s

section Core

variable {s t : RxCore} {ept node i b k : Nat} {pr : EptPriv} {o : Option EptPriv} {mem : Bool}
  {e : RxEvent}

/-- The record of one endpoint differs. -/
structure OneChanged (s t : RxCore) (ept : Nat) (o : Option EptPriv) : Prop where
  priv : t.priv = Function.update s.priv ept o
  binds : ∀ e, e ≠ ept → (t.binds e ↔ s.binds e)

theorem OneChanged.self (h : OneChanged s t ept o) : t.priv ept = o := by
  rw [h.priv, Function.update_self]

theorem OneChanged.other {e : Nat} (h : OneChanged s t ept o) (he : e ≠ ept) :
    t.priv e = s.priv e := by
  rw [h.priv, Function.update_of_ne he]

theorem OneChanged.hasPool_iff {e : Nat} (h : OneChanged s t ept o) (he : e ≠ ept)
    (pr : EptPriv) : t.hasPool e pr ↔ s.hasPool e pr := by
  unfold RxCore.hasPool
  rw [h.binds e he]

theorem OneChanged.waiting_iff {e : Nat} (h : OneChanged s t ept o) (he : e ≠ ept)
    (pr : EptPriv) : t.waiting e pr ↔ s.waiting e pr := by
  unfold RxCore.waiting
  cases pr.eptType with
  | tx => exact Iff.rfl
  | rx => simp only [h.binds e he]

theorem OneChanged.owns_iff {e : Nat} (h : OneChanged s t ept o) (he : e ≠ ept) (b : Nat) :
    t.owns e b ↔ s.owns e b := by
  unfold RxCore.owns
  rw [h.other he]
  simp only [h.hasPool_iff he]

theorem BufInv.owns_live (h : BufInv s) (hb : s.owns ept b) : s.bufs b ≠ none := by
  obtain ⟨pr, hpr, hhas, i, hi, hib⟩ := hb
  obtain ⟨c, hc, hlive⟩ := (h.ok ept pr hpr).pool hhas i hi
  obtain rfl : b = c := Option.some.inj (hib.symm.trans hc)
  exact hlive

/-- A step that changes the record of one endpoint, its own buffers and fresh ones. -/
theorem BufInv.changed (h : BufInv s) (hc : OneChanged s t ept o) (hfresh : s.freshBuf ≤ t.freshBuf)
    (hb : ∀ b, t.bufs b ≠ s.bufs b → (s.bufs b = none ∧ s.freshBuf ≤ b) ∨
      (s.bufs b ≠ none ∧ s.owns ept b))
    (hok : ∀ pr, o = some pr → t.EptOk ept pr) (hlt : ∀ b, t.bufs b ≠ none → b < t.freshBuf)
    (hown : ∀ b, t.bufs b ≠ none → s.bufs b = none ∨ s.owns ept b → t.owns ept b)
    (hnew : ∀ b, t.owns ept b → s.owns ept b ∨ s.freshBuf ≤ b) : BufInv t := by
  refine ⟨fun e pr hpr => ?_, hlt, fun b hlive => ?_, fun e e' b he he' => ?_⟩
  · by_cases heq : e = ept
    · rw [heq, hc.self] at hpr
      rw [heq]
      exact hok pr hpr
    · rw [hc.other heq] at hpr
      refine (h.ok e pr hpr).frame (hc.hasPool_iff heq pr) hfresh fun b hne => ?_
      rcases hb b hne with hnone | ⟨hlive, howns⟩
      · exact .inl hnone
      · refine .inr ⟨hlive, fun i hi hhas hib => heq ?_⟩
        exact h.unique e ept b ⟨pr, hpr, hhas, i, hi, hib⟩ howns
  · by_cases hnone : s.bufs b = none
    · exact ⟨ept, hown b hlive (.inl hnone)⟩
    · obtain ⟨e, he⟩ := h.owned b hnone
      by_cases heq : e = ept
      · exact ⟨ept, hown b hlive (.inr (heq ▸ he))⟩
      · exact ⟨e, (hc.owns_iff heq b).2 he⟩
  · -- a buffer new to the endpoint is no other's
    have hother : ∀ e, e ≠ ept → t.owns e b → t.owns ept b → e = ept := by
      intro e hne he hept
      have hs := (hc.owns_iff hne b).1 he
      rcases hnew b hept with hold | hle
      · exact h.unique e ept b hs hold
      · exact absurd (h.lt b (h.owns_live hs)) (Nat.not_lt.2 hle)
    by_cases heq : e = ept
    · by_cases heq' : e' = ept
      · rw [heq, heq']
      · exact (heq.trans (hother e' heq' he' (heq ▸ he)).symm)
    · by_cases heq' : e' = ept
      · rw [heq']
        exact hother e heq he (heq' ▸ he')
      · exact h.unique e e' b ((hc.owns_iff heq b).1 he) ((hc.owns_iff heq' b).1 he')

/-- A step that changes the record of one endpoint and no buffer. -/
theorem BufInv.same (h : BufInv s) (hc : OneChanged s t ept o) (hbufs : t.bufs = s.bufs)
    (hfresh : t.freshBuf = s.freshBuf) (hok : ∀ pr, o = some pr → t.EptOk ept pr)
    (hown : ∀ b, t.owns ept b ↔ s.owns ept b) : BufInv t := by
  refine h.changed hc (Nat.le_of_eq hfresh.symm) (fun b hne => absurd (by rw [hbufs]) hne) hok
    (fun b hlive => ?_) (fun b hlive hor => ?_) fun b hb => .inl ((hown b).1 hb)
  · rw [hfresh]
    rw [hbufs] at hlive
    exact h.lt b hlive
  · rcases hor with hnone | hb
    · rw [hbufs] at hlive
      exact absurd hnone hlive
    · exact (hown b).2 hb

theorem ListInv.changed (h : ListInv s) (hc : OneChanged s t ept o)
    (honce : (t.nodes.map Prod.snd).Nodup)
    (hnodes : ∀ e, e ≠ ept → (e ∈ t.nodes.map Prod.snd ↔ e ∈ s.nodes.map Prod.snd))
    (hself : ept ∈ t.nodes.map Prod.snd ↔ ∃ pr, o = some pr ∧ t.waiting ept pr)
    (hok : ∀ pr, o = some pr → ListOk t ept pr) (hbind : t.binds ept → o ≠ none)
    (hkick : ∀ i e, t.kickEpt i = some e → (e ≠ ept ∧ s.kickEpt i = some e) ∨
      (e = ept ∧ ∃ pr, o = some pr ∧ pr.bindDesc = some i)) : ListInv t := by
  refine ⟨honce, fun e => ?_, fun e pr hpr => ?_, fun e he => ?_, fun i e he => ?_⟩
  · by_cases heq : e = ept
    · rw [heq, hc.self]
      exact hself
    · rw [hnodes e heq, h.listed e, hc.other heq]
      simp only [hc.waiting_iff heq]
  · by_cases heq : e = ept
    · rw [heq, hc.self] at hpr
      rw [heq]
      exact hok pr hpr
    · rw [hc.other heq] at hpr
      obtain ⟨htask, hbound, hdes, hbinding⟩ := h.ok e pr hpr
      exact ⟨htask.trans (hnodes e heq).symm, hbound, hdes,
        fun hb => hbinding ((hc.binds e heq).1 hb)⟩
  · by_cases heq : e = ept
    · rw [heq, hc.self]
      exact hbind (heq ▸ he)
    · rw [hc.other heq]
      exact h.binding e ((hc.binds e heq).1 he)
  · rcases hkick i e he with ⟨hne, hs⟩ | ⟨rfl, pr, hpr, hi⟩
    · rw [hc.other hne]
      exact h.kick i e hs
    · exact ⟨pr, hc.self.trans hpr, hi⟩

/-! ## The list -/

/-- An endpoint that is bound and has its buffers is not in the list. -/
theorem ListInv.not_listed (h : ListInv s) (hpr : s.priv ept = some pr) (hhas : s.hasPool ept pr) :
    ept ∉ s.nodes.map Prod.snd := by
  intro hmem
  obtain ⟨pr', hpr', hwait⟩ := (h.listed ept).1 hmem
  obtain rfl : pr = pr' := Option.some.inj (hpr.symm.trans hpr')
  obtain ⟨i, hi⟩ := Option.ne_none_iff_exists'.mp hhas.1
  unfold RxCore.waiting at hwait
  rw [((h.ok ept pr hpr).bound i hi).1] at hwait
  rcases hwait with hnone | hbinds
  · exact hhas.1 hnone
  · exact hhas.2.2 hbinds

/-- A transmit endpoint has no descriptor to receive from. -/
theorem ListInv.tx_unbound (h : ListInv s) (hpr : s.priv ept = some pr) (htx : pr.eptType = .tx) :
    pr.bindDesc = none := by
  by_contra hne
  obtain ⟨i, hi⟩ := Option.ne_none_iff_exists'.mp hne
  rw [((h.ok ept pr hpr).bound i hi).1] at htx
  exact EptType.noConfusion htx

/-- The kick table without the endpoint's place no longer leads to the endpoint. -/
theorem ListInv.unkicked (h : ListInv s) (hpr : s.priv ept = some pr) {e : Nat}
    (he : Function.update s.kickEpt pr.bindId none i = some e) :
    e ≠ ept ∧ s.kickEpt i = some e := by
  by_cases hi : i = pr.bindId
  · rw [hi, Function.update_self] at he
    exact absurd he (by simp)
  · rw [Function.update_of_ne hi] at he
    refine ⟨fun heq => hi ?_, he⟩
    obtain ⟨pr', hpr', hbound⟩ := h.kick i e he
    rw [heq] at hpr'
    obtain rfl : pr = pr' := Option.some.inj (hpr.symm.trans hpr')
    exact ((h.ok ept pr hpr).bound i hbound).2.symm

/-- A step that leaves an endpoint's words for the list as they are. -/
theorem ListInv.kept {pr' : EptPriv} (h : ListInv s) (hpr : s.priv ept = some pr)
    (hc : OneChanged s t ept (some pr')) (hnodes : t.nodes = s.nodes)
    (hkick : t.kickEpt = s.kickEpt) (hbinds : t.binds ept ↔ s.binds ept)
    (hsame : pr' = { pr with
      rxpool := pr'.rxpool, poolid := pr'.poolid, xQueue := pr'.xQueue, calling := pr'.calling
      destroying := pr'.destroying })
    (hdes : pr'.destroying = true → pr.bindDesc ≠ none ∧ ¬ s.binds ept) : ListInv t := by
  have hok := h.ok ept pr hpr
  have hbind : pr'.bindDesc = pr.bindDesc := by rw [hsame]
  have hwait : t.waiting ept pr' ↔ s.waiting ept pr := by
    unfold RxCore.waiting
    rw [hsame]
    simp only [hbinds]
  refine h.changed hc (by rw [hnodes]; exact h.once) (fun e _ => by rw [hnodes]) ?_ ?_
    (fun _ => Option.some_ne_none _) ?_
  · rw [hnodes, h.listed ept, hpr]
    simp only [Option.some.injEq, exists_eq_left']
    exact hwait.symm
  · rintro _ ⟨⟩
    refine ⟨?_, ?_, fun hd => by rw [hbind]; exact (hdes hd).1, fun hb => ?_⟩
    · rw [hnodes, ← hok.task, hsame]
    · rw [hsame]
      exact hok.bound
    · have hb' := hbinds.1 hb
      rw [hbind]
      refine ⟨(hok.binding hb').1, ?_⟩
      by_contra hd
      exact (hdes (Bool.not_eq_false _ ▸ hd)).2 hb'
  · intro i e he
    rw [hkick] at he
    by_cases heq : e = ept
    · obtain ⟨pr'', hpr'', hi⟩ := h.kick i e he
      rw [heq] at hpr''
      obtain rfl : pr = pr'' := Option.some.inj (hpr.symm.trans hpr'')
      exact .inr ⟨heq, pr', rfl, hbind.trans hi⟩
    · exact .inl ⟨heq, he⟩

/-- The state in which the buffers and the kick table differ. -/
def RxCore.withBufs (s : RxCore) (bufs : Nat → Option Nat) (kickEpt : Nat → Option Nat) : RxCore :=
  { s with bufs, kickEpt }

/-- A node is added for an endpoint that is unbound. -/
theorem ListInv.added (h : ListInv s) (hnot : ept ∉ s.nodes.map Prod.snd)
    (bufs kick : Nat → Option Nat)
    (hkick : ∀ i e, kick i = some e → e ≠ ept ∧ s.kickEpt i = some e)
    (htx : pr.eptType = .tx → pr.remoteBinded = false) (hunbound : pr.bindDesc = none)
    (hdes : pr.destroying = false) (hbinds : ¬ s.binds ept) :
    ListInv ((s.withBufs bufs kick).addNode ept pr true) := by
  have hnodes : ((s.withBufs bufs kick).addNode ept pr true).nodes.map Prod.snd =
      s.nodes.map Prod.snd ++ [ept] := by
    simp [RxCore.addNode, RxCore.withBufs]
  have hc : OneChanged s ((s.withBufs bufs kick).addNode ept pr true) ept
      (some { pr with tasknode := some s.freshNode }) := ⟨rfl, fun _ _ => Iff.rfl⟩
  refine h.changed hc ?_ (fun e he => ?_) ?_ ?_ (fun _ => Option.some_ne_none _)
    fun i e he => .inl (hkick i e he)
  · rw [hnodes]
    refine List.nodup_append'.mpr ⟨h.once, List.nodup_singleton ept, ?_⟩
    rw [List.disjoint_singleton]
    exact hnot
  · rw [hnodes, List.mem_append, List.mem_singleton]
    simp only [he, or_false]
  · rw [hnodes]
    refine iff_of_true (List.mem_append_right _ (List.mem_singleton_self ept)) ⟨_, rfl, ?_⟩
    unfold RxCore.waiting
    cases heq : pr.eptType with
    | tx => simpa only [heq] using htx heq
    | rx => simpa only [heq] using Or.inl hunbound
  · rintro _ ⟨⟩
    refine ⟨?_, fun i hi => ?_, fun hd => ?_, fun hb => absurd hb hbinds⟩
    · rw [hnodes]
      exact iff_of_true (Option.some_ne_none _)
        (List.mem_append_right _ (List.mem_singleton_self ept))
    · exact absurd (hunbound.symm.trans hi) (by simp)
    · exact absurd (hdes.symm.trans hd) (by decide)

theorem map_eraseP (nodes : List (Nat × Nat)) (ept : Nat) :
    (nodes.eraseP fun n => n.2 = ept).map Prod.snd = (nodes.map Prod.snd).erase ept := by
  induction nodes with
  | nil => rfl
  | cons n nodes ih =>
    by_cases hn : n.2 = ept
    · simp [hn]
    · simp [List.eraseP_cons_of_neg, hn, ih]

/-- The state in which the buffers differ, allocated ones among them. -/
def RxCore.withPool (s : RxCore) (bufs : Nat → Option Nat) (freshBuf received : Nat) : RxCore :=
  { s with bufs, freshBuf, received }

theorem removeNode_eq (pr : EptPriv) (hmem : ept ∈ s.nodes.map Prod.snd) :
    s.removeNode ept pr = { s.setPriv ept (some { pr with tasknode := none }) with
      nodes := s.nodes.eraseP fun n => n.2 = ept } := if_pos hmem

theorem removeNode_changed {scan : Scan} (bufs : Nat → Option Nat) (freshBuf received : Nat)
    (pr : EptPriv) (hmem : ept ∈ s.nodes.map Prod.snd) (hscan : ∀ n e, scan ≠ .binding n e)
    (hother : ∀ e, e ≠ ept → ¬ s.binds e) :
    OneChanged s (((s.withPool bufs freshBuf received).removeNode ept pr).setScan scan) ept
      (some { pr with tasknode := none }) := by
  have heq := removeNode_eq (s := s.withPool bufs freshBuf received) pr hmem
  exact ⟨by rw [heq]; rfl, fun e he => iff_of_false (fun ⟨n, hn⟩ => hscan n e hn) (hother e he)⟩

/-- The node of an endpoint is removed that has just been bound. -/
theorem ListInv.removed {scan : Scan} (h : ListInv s) (pr' : EptPriv)
    (hpr : s.priv ept = some pr) (hmem : ept ∈ s.nodes.map Prod.snd)
    (hscan : ∀ n e, scan ≠ .binding n e) (hother : ∀ e, e ≠ ept → ¬ s.binds e)
    (bufs : Nat → Option Nat) (freshBuf received : Nat)
    (hsame : pr' = { pr with
      remoteBinded := pr'.remoteBinded, rxpool := pr'.rxpool, poolid := pr'.poolid })
    (hdone : (pr'.eptType = .tx ∧ pr'.remoteBinded = true) ∨
      (pr'.eptType = .rx ∧ pr'.bindDesc ≠ none)) :
    ListInv (((s.withPool bufs freshBuf received).removeNode ept pr').setScan scan) := by
  have hok := h.ok ept pr hpr
  have hc := removeNode_changed bufs freshBuf received pr' hmem hscan hother
  have heq := removeNode_eq (s := s.withPool bufs freshBuf received) pr' hmem
  have hnodes : (((s.withPool bufs freshBuf received).removeNode ept pr').setScan
      scan).nodes.map Prod.snd = (s.nodes.map Prod.snd).erase ept := by
    rw [heq]
    exact map_eraseP s.nodes ept
  have hbinds : ∀ e, ¬ (((s.withPool bufs freshBuf received).removeNode ept pr').setScan
      scan).binds e := fun e ⟨n, hn⟩ => hscan n e hn
  have hnot : ept ∉ (s.nodes.map Prod.snd).erase ept := h.once.not_mem_erase
  refine h.changed hc ?_ (fun e he => ?_) ?_ ?_ (fun _ => Option.some_ne_none _) fun i e he => ?_
  · rw [hnodes]
    exact h.once.erase ept
  · rw [hnodes, List.mem_erase_of_ne he]
  · rw [hnodes]
    refine iff_of_false hnot ?_
    rintro ⟨_, ⟨⟩, hwait⟩
    unfold RxCore.waiting at hwait
    rcases hdone with ⟨htx, hbound⟩ | ⟨hrx, hbound⟩
    · simp only [htx, hbound] at hwait
      exact Bool.noConfusion hwait
    · simp only [hrx] at hwait
      rcases hwait with hnone | hb
      · exact hbound hnone
      · exact hbinds ept hb
  · rintro _ ⟨⟩
    refine ⟨?_, ?_, ?_, fun hb => absurd hb (hbinds ept)⟩
    · rw [hnodes]
      exact iff_of_false (fun hne => hne rfl) hnot
    · rw [hsame]
      exact hok.bound
    · rw [hsame]
      exact hok.destroying
  · have he' : s.kickEpt i = some e := by
      rw [heq] at he
      exact he
    by_cases hee : e = ept
    · obtain ⟨pr'', hpr'', hi⟩ := h.kick i e he'
      rw [hee] at hpr''
      obtain rfl : pr = pr'' := Option.some.inj (hpr.symm.trans hpr'')
      refine .inr ⟨hee, _, rfl, ?_⟩
      rw [hsame]
      exact hi
    · exact .inl ⟨hee, he'⟩

/-! ## Steps of the handler -/

theorem LifeInv.create (h : LifeInv s) (hnone : s.priv ept = none) (eptType : EptType) :
    LifeInv (s.create ept eptType true) := by
  have hnot : ept ∉ s.nodes.map Prod.snd := by
    intro hmem
    obtain ⟨pr, hpr, -⟩ := (h.list.listed ept).1 hmem
    exact absurd (hnone.symm.trans hpr) (by simp)
  have hbinds : ¬ s.binds ept := fun hb => h.list.binding ept hb hnone
  refine ⟨h.noFault, ?_, h.list.added hnot s.bufs s.kickEpt (fun i e he => ⟨?_, he⟩)
    (fun _ => rfl) rfl rfl hbinds⟩
  · have hc : OneChanged s (s.create ept eptType true) ept
        (some { newPriv eptType with tasknode := some s.freshNode }) := ⟨rfl, fun _ _ => Iff.rfl⟩
    refine h.bufs.same hc rfl rfl ?_ fun b => iff_of_false ?_ ?_
    · rintro _ ⟨⟩
      exact newPriv_inv _ _ fun hhas => hhas.1 rfl
    · rintro ⟨pr, hpr, hhas, -⟩
      obtain rfl := Option.some.inj (hc.self.symm.trans hpr)
      exact hhas.1 rfl
    · rintro ⟨pr, hpr, -⟩
      exact absurd (hnone.symm.trans hpr) (by simp)
  · rintro rfl
    obtain ⟨pr, hpr, -⟩ := h.list.kick i e he
    exact absurd (hnone.symm.trans hpr) (by simp)

/-- What the handler finds in the kick table is bound to the descriptor. -/
theorem LifeInv.kick (h : LifeInv s) {f : Nat → EptPriv → RxCore}
    (hf : ∀ ept pr, s.kickEpt i = some ept → s.priv ept = some pr → pr.bindDesc = some i →
      LifeInv (f ept pr)) : LifeInv (s.kick i f) := by
  unfold RxCore.kick
  cases hk : s.kickEpt i with
  | none => exact h
  | some ept =>
    obtain ⟨pr, hpr, hi⟩ := h.list.kick i ept hk
    simp only [hpr, hi, reduceCtorEq, if_false]
    exact hf ept pr hk hpr hi

/-- Which of the words an endpoint's buffers need differ. -/
structure WordsKept (s t : RxCore) (ept : Nat) (pr pr' : EptPriv) : Prop extends
    OneChanged s t ept (some pr') where
  fault : t.fault = s.fault
  nodes : t.nodes = s.nodes
  kickEpt : t.kickEpt = s.kickEpt
  scan : t.scan = s.scan
  freshBuf : t.freshBuf = s.freshBuf
  same : pr' = { pr with poolid := pr'.poolid, xQueue := pr'.xQueue, calling := pr'.calling }

/-- A step that goes on with an endpoint's queue and writes to its own buffers. -/
theorem LifeInv.kept (h : LifeInv s) (pr' : EptPriv) (hpr : s.priv ept = some pr)
    (hc : WordsKept s t ept pr pr')
    (hchange : ∀ b, t.bufs b ≠ s.bufs b → s.bufs b ≠ none ∧ s.owns ept b)
    (hlive : ∀ b, t.bufs b ≠ none → s.bufs b ≠ none)
    (hept : EptInv t.bufs s.freshBuf (s.hasPool ept pr) pr.rxpool pr'.poolid pr'.xQueue
      pr'.calling) : LifeInv t := by
  have hsame := hc.same
  have hbinds : t.binds ept ↔ s.binds ept := by
    unfold RxCore.binds
    rw [hc.scan]
  have hpool : t.hasPool ept pr' ↔ s.hasPool ept pr := by
    unfold RxCore.hasPool
    rw [hsame, hbinds]
  have hrx : pr'.rxpool = pr.rxpool := by rw [hsame]
  have howns : ∀ b, t.owns ept b ↔ s.owns ept b := by
    intro b
    unfold RxCore.owns
    rw [hc.self, hpr]
    simp only [Option.some.injEq, exists_eq_left', hpool, hrx]
  refine ⟨hc.fault.trans h.noFault, h.bufs.changed hc.toOneChanged (Nat.le_of_eq hc.freshBuf.symm)
    (fun b hne => .inr (hchange b hne)) ?_ ?_ ?_ ?_,
    h.list.kept hpr hc.toOneChanged hc.nodes hc.kickEpt hbinds ?_ ?_⟩
  · rintro _ ⟨⟩
    unfold RxCore.EptOk
    rw [hc.freshBuf, hrx]
    exact hept.frame hpool (Nat.le_refl _) fun _ hne => absurd rfl hne
  · intro b hb
    rw [hc.freshBuf]
    exact h.bufs.lt b (hlive b hb)
  · rintro b hb (hnone | ho)
    · exact absurd hnone (hlive b hb)
    · exact (howns b).2 ho
  · exact fun b hb => .inl ((howns b).1 hb)
  · rw [hsame]
  · intro hd
    have hok := h.list.ok ept pr hpr
    rw [hsame] at hd
    refine ⟨hok.destroying hd, fun hb => ?_⟩
    exact Bool.false_ne_true ((hok.binding hb).2.symm.trans hd)

theorem LifeInv.receive (h : LifeInv s) (hpr : s.priv ept = some pr) (hhas : s.hasPool ept pr)
    (hroom : pr.calling = none ∨ pr.xQueue.length < rxbufQueueSize) :
    LifeInv (s.receiveMessage ept pr) := by
  have hok := h.bufs.ok ept pr hpr
  obtain ⟨c, -, hpoolid⟩ := hok.ring hhas
  have hlt : pr.poolid < rxbufPoolSize := hpoolid ▸ Nat.mod_lt _ (by decide)
  obtain ⟨b, hb, hlive⟩ := hok.pool hhas pr.poolid hlt
  have hwritten := hok.written hhas hroom hb hlive s.received
  have hsome : ∀ b', Function.update s.bufs b (some s.received) b' ≠ none → s.bufs b' ≠ none := by
    intro b' hb'
    rw [← Option.isSome_iff_ne_none, isSome_update hlive, Option.isSome_iff_ne_none] at hb'
    exact hb'
  have hchange : ∀ b', Function.update s.bufs b (some s.received) b' ≠ s.bufs b' →
      s.bufs b' ≠ none ∧ s.owns ept b' := by
    intro b' hne
    by_cases heq : b' = b
    · rw [heq]
      exact ⟨hlive, pr, hpr, hhas, pr.poolid, hlt, hb⟩
    · exact absurd (Function.update_of_ne heq _ _) hne
  unfold RxCore.receiveMessage
  simp only [hb, if_neg hlive]
  by_cases hlen : pr.xQueue.length < rxbufQueueSize
  · rw [if_pos hlen]
    exact h.kept { pr with
        xQueue := pr.xQueue ++ [.message b s.received]
        poolid := if rxbufPoolSize ≤ pr.poolid + 1 then 0 else pr.poolid + 1 } hpr
      ⟨⟨rfl, fun _ _ => Iff.rfl⟩, rfl, rfl, rfl, rfl, rfl, rfl⟩ hchange hsome
      (hwritten.queued hhas hb (Function.update_self _ _ _) (h.bufs.lt b hlive) hlen)
  · -- the message is dropped after it has been copied
    rw [if_neg hlen]
    exact h.kept pr hpr
      ⟨⟨(Function.update_eq_self_iff.2 hpr.symm).symm, fun _ _ => Iff.rfl⟩, rfl, rfl, rfl, rfl,
        rfl, rfl⟩ hchange hsome hwritten

theorem EptInv.send {bufs : Nat → Option Nat} {fresh : Nat} {has : Prop} (pr : EptPriv)
    (h : EptInv bufs fresh has pr.rxpool pr.poolid pr.xQueue pr.calling) :
    EptInv bufs fresh has (pr.send .close).rxpool (pr.send .close).poolid
      (pr.send .close).xQueue (pr.send .close).calling := by
  unfold EptPriv.send
  split
  · rename_i hroom
    exact h.sendClose hroom
  · exact h

theorem send_words (pr : EptPriv) (item : QueueItem) :
    pr.send item = { pr with xQueue := (pr.send item).xQueue } := by
  unfold EptPriv.send
  split <;> rfl

theorem LifeInv.close (h : LifeInv s) (hpr : s.priv ept = some pr) (hhas : s.hasPool ept pr)
    (hcalling : pr.calling = none) : LifeInv (s.reconnectEpt ept pr true) := by
  have hok := h.bufs.ok ept pr hpr
  have hlist := h.list.ok ept pr hpr
  have hnot := h.list.not_listed hpr hhas
  have htask : pr.tasknode = none := by
    by_contra hne
    exact hnot (hlist.task.1 hne)
  obtain ⟨j, hj⟩ := Option.ne_none_iff_exists'.mp hhas.1
  obtain ⟨hrx, hid⟩ := hlist.bound j hj
  obtain ⟨bufs, hfree, hbufs⟩ := hok.freeAll hhas
  have hpool : ∀ i < rxbufPoolSize, ∀ b, pr.rxpool i = some b → bufs b = none := by
    intro i hi b hib
    rw [hbufs, if_pos (hib ▸ List.mem_map_of_mem (List.mem_range.2 hi))]
  have hkeep : ∀ b, s.bufs b = none → bufs b = none := by
    intro b hb
    rw [hbufs]
    split
    · rfl
    · exact hb
  have hlive : ∀ b, bufs b ≠ none → s.bufs b ≠ none := fun b hb hnone => hb (hkeep b hnone)
  have hunbound : (({ pr with bindDesc := none, bindId := 0 } : EptPriv).send .close).bindDesc =
      none := by rw [send_words]
  unfold RxCore.reconnectEpt
  rw [if_neg (not_not.2 htask)]
  simp only [hrx]
  unfold RxCore.killNsBind
  rw [show freeAll pr.pool s.bufs = some bufs from hfree]
  simp only
  have hc : OneChanged s
      ((s.withBufs bufs (Function.update s.kickEpt pr.bindId none)).addNode ept
        (({ pr with bindDesc := none, bindId := 0 } : EptPriv).send .close) true) ept
      (some { ({ pr with bindDesc := none, bindId := 0 } : EptPriv).send .close with
        tasknode := some s.freshNode }) := ⟨rfl, fun _ _ => Iff.rfl⟩
  refine ⟨h.noFault, h.bufs.changed hc (Nat.le_refl _) (fun b hne => ?_) ?_
    (fun b hb => h.bufs.lt b (hlive b hb)) ?_ ?_, ?_⟩
  · -- only buffers of the pool have changed
    have hne' : bufs b ≠ s.bufs b := hne
    rw [hbufs] at hne'
    split at hne'
    · rename_i hmem
      obtain ⟨i, hi, hib⟩ := List.mem_map.mp hmem
      exact .inr ⟨hne'.symm, pr, hpr, hhas, i, List.mem_range.1 hi, hib⟩
    · exact absurd rfl hne'
  · rintro _ ⟨⟩
    have hfreed : EptInv bufs s.freshBuf False pr.rxpool pr.poolid pr.xQueue pr.calling :=
      hok.freed hcalling hpool hkeep id
    exact (EptInv.send { pr with bindDesc := none, bindId := 0 } hfreed).frame
      (iff_of_false (fun hyes => hyes.1 hunbound) id) (Nat.le_refl _)
      fun _ hne => absurd rfl hne
  · rintro b hb (hnone | ⟨pr', hpr', -, i, hi, hib⟩)
    · exact absurd hnone (hlive b hb)
    · obtain rfl : pr = pr' := Option.some.inj (hpr.symm.trans hpr')
      exact absurd (hpool i hi b hib) hb
  · rintro b ⟨pr', hpr', hyes, -⟩
    obtain rfl := Option.some.inj (hc.self.symm.trans hpr')
    exact absurd hunbound hyes.1
  · refine h.list.added hnot bufs _ (fun i e he => h.list.unkicked hpr he) ?_ hunbound ?_
      hhas.2.2
    · intro htx
      rw [send_words] at htx
      exact absurd (hrx.symm.trans htx) EptType.noConfusion
    · rw [send_words]
      exact hhas.2.1

/-- A transmit endpoint that the peer has closed waits again. -/
theorem LifeInv.closed (h : LifeInv s) (hpr : s.priv ept = some pr) (htx : pr.eptType = .tx)
    (hbound : pr.remoteBinded = true) : LifeInv (s.reconnectEpt ept pr true) := by
  have hok := h.bufs.ok ept pr hpr
  have hlist := h.list.ok ept pr hpr
  have hunbound := h.list.tx_unbound hpr htx
  have hnot : ept ∉ s.nodes.map Prod.snd := by
    intro hmem
    obtain ⟨pr', hpr', hwait⟩ := (h.list.listed ept).1 hmem
    obtain rfl : pr = pr' := Option.some.inj (hpr.symm.trans hpr')
    simp only [RxCore.waiting, htx, hbound] at hwait
    exact Bool.noConfusion hwait
  have hbinds : ¬ s.binds ept := fun hb => (hlist.binding hb).1 hunbound
  have hdes : pr.destroying = false := by
    by_contra hd
    exact hlist.destroying (Bool.not_eq_false _ ▸ hd) hunbound
  have htask : pr.tasknode = none := by
    by_contra hne
    exact hnot (hlist.task.1 hne)
  have heq : s.reconnectEpt ept pr true = s.addNode ept { pr with remoteBinded := false } true := by
    unfold RxCore.reconnectEpt
    rw [if_neg (not_not.2 htask)]
    split
    · rfl
    · rename_i hrx
      exact absurd (htx.symm.trans hrx) EptType.noConfusion
  rw [heq]
  have hc : OneChanged s (s.addNode ept { pr with remoteBinded := false } true) ept
      (some { pr with remoteBinded := false, tasknode := some s.freshNode }) :=
    ⟨rfl, fun _ _ => Iff.rfl⟩
  refine ⟨h.noFault, h.bufs.same hc rfl rfl ?_ fun b => iff_of_false ?_ ?_,
    h.list.added hnot s.bufs s.kickEpt (fun i e he => ⟨?_, he⟩) (fun _ => rfl) hunbound
      hdes hbinds⟩
  · rintro _ ⟨⟩
    exact hok.frame Iff.rfl (Nat.le_refl _) fun _ hne => absurd rfl hne
  · rintro ⟨pr', hpr', hyes, -⟩
    obtain rfl := Option.some.inj (hc.self.symm.trans hpr')
    exact hyes.1 hunbound
  · rintro ⟨pr', hpr', hyes, -⟩
    obtain rfl : pr = pr' := Option.some.inj (hpr.symm.trans hpr')
    exact hyes.1 hunbound
  · rintro rfl
    obtain ⟨pr', hpr', hi⟩ := h.list.kick i e he
    obtain rfl : pr = pr' := Option.some.inj (hpr.symm.trans hpr')
    exact absurd (hunbound.symm.trans hi) (by simp)

/-! ## Steps of the tasks -/

theorem LifeInv.poll (h : LifeInv s) (hpr : s.priv ept = some pr) (hcalling : pr.calling = none)
    (hfront : ∀ b msg xQueue, pr.xQueue = .message b msg :: xQueue → s.bufs b ≠ none) :
    LifeInv (s.poll ept pr) := by
  have hok := h.bufs.ok ept pr hpr
  unfold RxCore.EptOk at hok
  unfold RxCore.poll
  cases hq : pr.xQueue with
  | nil => exact h
  | cons item xQueue =>
    rw [hq] at hok
    cases item with
    | message b msg =>
      rw [hcalling] at hok
      exact h.kept { pr with xQueue, calling := some (b, msg) } hpr
        ⟨⟨rfl, fun _ _ => Iff.rfl⟩, rfl, rfl, rfl, rfl, rfl, rfl⟩ (fun b hne => absurd rfl hne)
        (fun _ hb => hb) (hok.takeMessage (hfront b msg xQueue hq))
    | close =>
      exact h.kept { pr with xQueue } hpr
        ⟨⟨rfl, fun _ _ => Iff.rfl⟩, rfl, rfl, rfl, rfl, rfl, rfl⟩ (fun b hne => absurd rfl hne)
        (fun _ hb => hb) hok.takeClose

theorem LifeInv.pollEnd (h : LifeInv s) (hpr : s.priv ept = some pr)
    (hcalling : pr.calling.isSome) :
    LifeInv (s.setPriv ept (some { pr with calling := none })) := by
  have hok := h.bufs.ok ept pr hpr
  unfold RxCore.EptOk at hok
  obtain ⟨m, hm⟩ := Option.isSome_iff_exists.mp hcalling
  rw [hm] at hok
  exact h.kept { pr with calling := none } hpr
    ⟨⟨rfl, fun _ _ => Iff.rfl⟩, rfl, rfl, rfl, rfl, rfl, rfl⟩ (fun b hne => absurd rfl hne)
    (fun _ hb => hb) hok.returned

/-- Between two endpoints the scan may be anywhere. -/
theorem LifeInv.rescan {scan : Scan} (h : LifeInv s) (hold : ∀ e, ¬ s.binds e)
    (hnew : ∀ n e, scan ≠ .binding n e) : LifeInv (s.setScan scan) := by
  have hbinds : ∀ e, (s.setScan scan).binds e ↔ s.binds e :=
    fun e => iff_of_false (fun ⟨n, hn⟩ => hnew n e hn) (hold e)
  have hc : OneChanged s (s.setScan scan) 0 (s.priv 0) :=
    ⟨(Function.update_eq_self 0 s.priv).symm, fun e _ => hbinds e⟩
  have hpool : ∀ e pr, (s.setScan scan).hasPool e pr ↔ s.hasPool e pr := by
    intro e pr
    unfold RxCore.hasPool
    rw [hbinds]
  have hwait : ∀ e pr, (s.setScan scan).waiting e pr ↔ s.waiting e pr := by
    intro e pr
    unfold RxCore.waiting
    cases pr.eptType with
    | tx => exact Iff.rfl
    | rx => simp only [hbinds e]
  refine ⟨h.noFault, h.bufs.same hc rfl rfl (fun pr hpr => ?_) fun b => ?_,
    h.list.once, fun e => ?_, fun e pr hpr => ?_, fun e he => ?_, h.list.kick⟩
  · exact (h.bufs.ok 0 pr hpr).frame (hpool 0 pr) (Nat.le_refl _) fun _ hne => absurd rfl hne
  · unfold RxCore.owns
    simp only [hpool]
    exact Iff.rfl
  · simp only [hwait]
    exact h.list.listed e
  · obtain ⟨htask, hbound, hdes, hbinding⟩ := h.list.ok e pr hpr
    exact ⟨htask, hbound, hdes, fun hb => hbinding ((hbinds e).1 hb)⟩
  · exact absurd ((hbinds e).1 he) (hold e)

/-- The peer has bound a transmit endpoint. -/
theorem LifeInv.bindTx {scan : Scan} (h : LifeInv s) (hpr : s.priv ept = some pr)
    (htx : pr.eptType = .tx) (hmem : ept ∈ s.nodes.map Prod.snd) (hold : ∀ e, ¬ s.binds e)
    (hscan : ∀ n e, scan ≠ .binding n e) :
    LifeInv ((s.removeNode ept { pr with remoteBinded := true }).setScan scan) := by
  have hunbound := h.list.tx_unbound hpr htx
  have hc := removeNode_changed s.bufs s.freshBuf s.received { pr with remoteBinded := true } hmem
    hscan fun e _ => hold e
  have hbufs : ((s.removeNode ept { pr with remoteBinded := true }).setScan scan).bufs = s.bufs ∧
      ((s.removeNode ept { pr with remoteBinded := true }).setScan scan).freshBuf = s.freshBuf ∧
      ((s.removeNode ept { pr with remoteBinded := true }).setScan scan).fault = s.fault := by
    rw [removeNode_eq _ hmem]
    exact ⟨rfl, rfl, rfl⟩
  refine ⟨hbufs.2.2.trans h.noFault, h.bufs.same hc hbufs.1 hbufs.2.1 ?_ fun b =>
    iff_of_false ?_ ?_, h.list.removed _ hpr hmem hscan (fun e _ => hold e) s.bufs s.freshBuf
      s.received rfl (.inl ⟨htx, rfl⟩)⟩
  · rintro _ ⟨⟩
    have hframe : EptInv s.bufs s.freshBuf False pr.rxpool pr.poolid pr.xQueue pr.calling :=
      (h.bufs.ok ept pr hpr).frame (iff_of_false id fun hyes => hyes.1 hunbound) (Nat.le_refl _)
        fun _ hne => absurd rfl hne
    unfold RxCore.EptOk
    rw [hbufs.1, hbufs.2.1]
    exact hframe.frame (iff_of_false (fun hyes => hyes.1 hunbound) id) (Nat.le_refl _)
      fun _ hne => absurd rfl hne
  · rintro ⟨pr', hpr', hyes, -⟩
    obtain rfl := Option.some.inj (hc.self.symm.trans hpr')
    exact hyes.1 hunbound
  · rintro ⟨pr', hpr', hyes, -⟩
    obtain rfl : pr = pr' := Option.some.inj (hpr.symm.trans hpr')
    exact hyes.1 hunbound

/-- The state in which a receive endpoint has found its descriptor. -/
def RxCore.found (s : RxCore) (node ept : Nat) (pr : EptPriv) (i : Nat) : RxCore :=
  { s.setPriv ept (some { pr with bindDesc := some i, bindId := i }) with
    kickEpt := Function.update s.kickEpt i (some ept)
    scan := .binding node ept }

theorem LifeInv.found (h : LifeInv s) (hpr : s.priv ept = some pr) (hrx : pr.eptType = .rx)
    (hmem : ept ∈ s.nodes.map Prod.snd) (hold : ∀ e, ¬ s.binds e) (hunbound : pr.bindDesc = none)
    (node i : Nat) : LifeInv (s.found node ept pr i) := by
  have hlist := h.list.ok ept pr hpr
  have hdes : pr.destroying = false := by
    by_contra hd
    exact hlist.destroying (Bool.not_eq_false _ ▸ hd) hunbound
  have hbinds : (s.found node ept pr i).binds ept := ⟨node, rfl⟩
  have hc : OneChanged s (s.found node ept pr i) ept
      (some { pr with bindDesc := some i, bindId := i }) := by
    refine ⟨rfl, fun e he => iff_of_false ?_ (hold e)⟩
    rintro ⟨n, hn⟩
    exact he (Scan.binding.inj hn).2.symm
  refine ⟨h.noFault, h.bufs.same hc rfl rfl ?_ fun b => iff_of_false ?_ ?_,
    h.list.changed hc h.list.once (fun _ _ => Iff.rfl) ?_ ?_ (fun _ => Option.some_ne_none _) ?_⟩
  · rintro _ ⟨⟩
    exact (h.bufs.ok ept pr hpr).frame
      (iff_of_false (fun hyes => hyes.2.2 hbinds) fun hyes => hyes.1 hunbound) (Nat.le_refl _)
      fun _ hne => absurd rfl hne
  · rintro ⟨pr', hpr', hyes, -⟩
    exact hyes.2.2 hbinds
  · rintro ⟨pr', hpr', hyes, -⟩
    obtain rfl : pr = pr' := Option.some.inj (hpr.symm.trans hpr')
    exact hyes.1 hunbound
  · refine iff_of_true hmem ⟨_, rfl, ?_⟩
    simp only [RxCore.waiting, hrx]
    exact .inr hbinds
  · rintro _ ⟨⟩
    refine ⟨hlist.task, fun j hj => ⟨hrx, Option.some.inj hj⟩, fun _ => Option.some_ne_none _,
      fun _ => ⟨Option.some_ne_none _, hdes⟩⟩
  · intro j e he
    by_cases hj : j = i
    · have he' : (Function.update s.kickEpt i (some ept)) j = some e := he
      rw [hj, Function.update_self] at he'
      exact .inr ⟨(Option.some.inj he').symm, _, rfl, by rw [hj]⟩
    · have he' : s.kickEpt j = some e := by
        have hu : (Function.update s.kickEpt i (some ept)) j = some e := he
        rwa [Function.update_of_ne hj] at hu
      refine .inl ⟨?_, he'⟩
      rintro rfl
      obtain ⟨pr', hpr', hbound⟩ := h.list.kick j e he'
      obtain rfl : pr = pr' := Option.some.inj (hpr.symm.trans hpr')
      exact absurd (hunbound.symm.trans hbound) (by simp)

theorem LifeInv.scanBind (h : LifeInv s) (hscan : s.scan = .visit node)
    (hlive : node ∈ s.nodes.map Prod.fst) (found : Option Nat) :
    LifeInv (s.scanBind node found) := by
  have hold : ∀ e, ¬ s.binds e := fun e ⟨n, hn⟩ => Scan.noConfusion (hscan.symm.trans hn)
  obtain ⟨n, hn⟩ : ∃ n, s.nodes.find? (fun n => n.1 = node) = some n := by
    obtain ⟨n, hmem, hnode⟩ := List.mem_map.mp hlive
    exact Option.isSome_iff_exists.mp (List.find?_isSome.2 ⟨n, hmem, by simpa using hnode⟩)
  have hmem : n.2 ∈ s.nodes.map Prod.snd := List.mem_map_of_mem (List.mem_of_find?_eq_some hn)
  obtain ⟨pr, hpr, hwait⟩ := (h.list.listed n.2).1 hmem
  have hleave : ∀ m e, Scan.leave node ≠ .binding m e := fun _ _ => Scan.noConfusion
  unfold RxCore.scanBind
  simp only [hn, hpr]
  unfold RxCore.bindProcess
  split
  · exact h.rescan hold hleave
  · rename_i htx
    exact h.bindTx hpr htx hmem hold hleave
  · rename_i i hrx
    refine h.found hpr hrx hmem hold ?_ node i
    simp only [RxCore.waiting, hrx] at hwait
    exact hwait.resolve_right (hold n.2)

theorem LifeInv.allocate (h : LifeInv s) (hscan : s.scan = .binding node ept)
    (hpr : s.priv ept = some pr) (hk : rxbufPoolSize ≤ k) :
    LifeInv (s.allocateBufPool node ept pr k) := by
  have hbinds : s.binds ept := ⟨node, hscan⟩
  have hother : ∀ e, e ≠ ept → ¬ s.binds e := by
    rintro e he ⟨n, hn⟩
    exact he (Scan.binding.inj (hscan.symm.trans hn)).2.symm
  have hlist := h.list.ok ept pr hpr
  obtain ⟨hbound, hdes⟩ := hlist.binding hbinds
  obtain ⟨i, hi⟩ := Option.ne_none_iff_exists'.mp hbound
  have hrx := (hlist.bound i hi).1
  have hmem : ept ∈ s.nodes.map Prod.snd := by
    refine (h.list.listed ept).2 ⟨pr, hpr, ?_⟩
    simp only [RxCore.waiting, hrx]
    exact .inr hbinds
  have hleave : ∀ m e, Scan.leave node ≠ .binding m e := fun _ _ => Scan.noConfusion
  unfold RxCore.allocateBufPool
  simp only [if_pos hk]
  generalize hpr' : ({ pr with
    poolid := 0, rxpool := allocated s.freshBuf k pr.rxpool } : EptPriv) = pr'
  generalize hbufs : (fun b =>
    if s.freshBuf ≤ b ∧ b < s.freshBuf + rxbufPoolSize then some s.received else s.bufs b) = bufs
  have hc := removeNode_changed bufs (s.freshBuf + rxbufPoolSize) (s.received + 1) pr' hmem
    hleave hother
  have hlist' := h.list.removed pr' hpr hmem hleave hother bufs
    (s.freshBuf + rxbufPoolSize) (s.received + 1) (by rw [← hpr'])
    (.inr (by rw [← hpr']; exact ⟨hrx, hbound⟩))
  have heq := removeNode_eq (s := s.withPool bufs (s.freshBuf + rxbufPoolSize) (s.received + 1))
    pr' hmem
  show LifeInv (((s.withPool bufs (s.freshBuf + rxbufPoolSize) (s.received + 1)).removeNode ept
    pr').setScan (.leave node))
  generalize ht : ((s.withPool bufs (s.freshBuf + rxbufPoolSize) (s.received + 1)).removeNode ept
    pr').setScan (.leave node) = t at hc hlist'
  have htbufs : t.bufs = bufs := by rw [← ht, heq]; rfl
  have htfresh : t.freshBuf = s.freshBuf + rxbufPoolSize := by rw [← ht, heq]; rfl
  have htfault : t.fault = s.fault := by rw [← ht, heq]; rfl
  have hyes : t.hasPool ept { pr' with tasknode := none } := by
    rw [← hpr']
    refine ⟨hbound, hdes, ?_⟩
    rw [← ht]
    rintro ⟨n, hn⟩
    exact hleave n ept hn
  have hnone : ∀ b, s.freshBuf ≤ b → s.bufs b = none := by
    intro b hb
    by_contra hlive
    exact absurd (h.bufs.lt b hlive) (Nat.not_lt.2 hb)
  have hold : ∀ b, ¬ (s.freshBuf ≤ b ∧ b < s.freshBuf + rxbufPoolSize) → bufs b = s.bufs b := by
    intro b hb
    rw [← hbufs]
    exact if_neg hb
  refine ⟨htfault.trans h.noFault, h.bufs.changed hc (by rw [htfresh]; exact Nat.le_add_right _ _)
    (fun b hne => .inl ?_) ?_ (fun b hb => ?_) ?_ ?_, hlist'⟩
  · rw [htbufs] at hne
    have hrange : s.freshBuf ≤ b ∧ b < s.freshBuf + rxbufPoolSize := by
      by_contra hout
      exact hne (hold b hout)
    exact ⟨hnone b hrange.1, hrange.1⟩
  · rintro _ ⟨⟩
    have hept := EptInv.allocated s.received (h.bufs.ok ept pr hpr)
      (fun hhas => hhas.2.2 hbinds) hk hyes
    unfold RxCore.EptOk
    rw [htbufs, htfresh, ← hbufs]
    rw [← hpr'] at hept ⊢
    exact hept
  · rw [htbufs] at hb
    rw [htfresh]
    by_cases hrange : s.freshBuf ≤ b ∧ b < s.freshBuf + rxbufPoolSize
    · exact hrange.2
    · rw [hold b hrange] at hb
      exact Nat.lt_of_lt_of_le (h.bufs.lt b hb) (Nat.le_add_right _ _)
  · rintro b hb (hgone | ⟨_, -, hhas, -⟩)
    · have hrange : s.freshBuf ≤ b ∧ b < s.freshBuf + rxbufPoolSize := by
        by_contra hout
        rw [htbufs, hold b hout] at hb
        exact hb hgone
      refine ⟨_, hc.self, hyes, b - s.freshBuf, by omega, ?_⟩
      rw [← hpr']
      refine (allocated_of_lt hk (by omega)).trans ?_
      rw [Nat.add_sub_cancel' hrange.1]
    · exact absurd hbinds hhas.2.2
  · rintro b ⟨pr'', hpr'', -, i, hi, hib⟩
    obtain rfl := Option.some.inj (hc.self.symm.trans hpr'')
    rw [← hpr'] at hib
    have hfresh := Option.some.inj ((allocated_of_lt hk hi).symm.trans hib)
    exact .inr (by omega)

theorem nextNode_live {nodes : List (Nat × Nat)} (h : node ∈ nodes.map Prod.fst) :
    ∃ scan, nextNode nodes node = some scan ∧ ∀ n e, scan ≠ .binding n e := by
  induction nodes with
  | nil => exact absurd h List.not_mem_nil
  | cons n nodes ih =>
    rw [nextNode]
    by_cases hn : n.1 = node
    · rw [if_pos hn]
      refine ⟨_, rfl, fun m e => ?_⟩
      split <;> exact Scan.noConfusion
    · rw [if_neg hn]
      refine ih ?_
      rw [List.map_cons, List.mem_cons] at h
      exact h.resolve_left fun he => hn he.symm

theorem LifeInv.scanNext (h : LifeInv s) (hscan : s.scan = .leave node)
    (hlive : node ∈ s.nodes.map Prod.fst) : LifeInv (s.scanNext node) := by
  obtain ⟨scan, hnext, hnew⟩ := nextNode_live hlive
  unfold RxCore.scanNext
  rw [hnext]
  exact h.rescan (fun e ⟨n, hn⟩ => Scan.noConfusion (hscan.symm.trans hn)) hnew

theorem LifeInv.scanHead (h : LifeInv s) (hscan : s.scan = .off) : LifeInv s.scanHead := by
  unfold RxCore.scanHead
  refine h.rescan (fun e ⟨n, hn⟩ => Scan.noConfusion (hscan.symm.trans hn)) fun n e => ?_
  split <;> exact Scan.noConfusion

/-- The state without the endpoint. -/
def RxCore.dropped (s : RxCore) (ept : Nat) (nodes : List (Nat × Nat))
    (kickEpt : Nat → Option Nat) :
    RxCore :=
  { s.setPriv ept none with nodes, kickEpt }

/-- Taking a node from the list and dropping the endpoint. -/
theorem removeNode_dropped (s : RxCore) (ept : Nat) (pr : EptPriv)
    (htask : pr.tasknode ≠ none ↔ ept ∈ s.nodes.map Prod.snd) :
    ∃ nodes, (if pr.tasknode ≠ none then s.removeNode ept pr else s).setPriv ept none =
      s.dropped ept nodes s.kickEpt ∧
      nodes.map Prod.snd = (s.nodes.map Prod.snd).erase ept := by
  by_cases hmem : ept ∈ s.nodes.map Prod.snd
  · refine ⟨s.nodes.eraseP fun n => n.2 = ept, ?_, map_eraseP s.nodes ept⟩
    rw [if_pos (htask.2 hmem), removeNode_eq pr hmem]
    simp only [RxCore.setPriv, RxCore.dropped, Function.update_idem]
  · refine ⟨s.nodes, ?_, (List.erase_of_not_mem hmem).symm⟩
    rw [if_neg (mt htask.1 hmem)]
    rfl

theorem ListInv.destroyEnd_eq (h : ListInv s) (hpr : s.priv ept = some pr) :
    ∃ nodes kick, s.destroyEnd ept pr = s.dropped ept nodes kick ∧
      nodes.map Prod.snd = (s.nodes.map Prod.snd).erase ept ∧
      ∀ i e, kick i = some e → e ≠ ept ∧ s.kickEpt i = some e := by
  have htask := (h.ok ept pr hpr).task
  unfold RxCore.destroyEnd
  cases htype : pr.eptType with
  | tx =>
    obtain ⟨nodes, heq, hnodes⟩ := removeNode_dropped s ept pr htask
    refine ⟨nodes, s.kickEpt, heq, hnodes, fun i e he => ⟨?_, he⟩⟩
    rintro rfl
    obtain ⟨pr', hpr', hbound⟩ := h.kick i e he
    obtain rfl : pr = pr' := Option.some.inj (hpr.symm.trans hpr')
    exact absurd ((h.tx_unbound hpr htype).symm.trans hbound) (by simp)
  | rx =>
    obtain ⟨nodes, heq, hnodes⟩ := removeNode_dropped
      (s.withBufs s.bufs (Function.update s.kickEpt pr.bindId none)) ept pr htask
    exact ⟨nodes, _, heq, hnodes, fun i e he => h.unkicked hpr he⟩

/-- An endpoint without buffers goes. -/
theorem LifeInv.destroyEnd (h : LifeInv s) (hpr : s.priv ept = some pr)
    (hnot : ¬ s.hasPool ept pr) (hbinds : ¬ s.binds ept) : LifeInv (s.destroyEnd ept pr) := by
  obtain ⟨nodes, kick, heq, hnodes, hkick⟩ := h.list.destroyEnd_eq hpr
  rw [heq]
  have hc : OneChanged s (s.dropped ept nodes kick) ept none := ⟨rfl, fun _ _ => Iff.rfl⟩
  have hgone : ∀ pr', (none : Option EptPriv) ≠ some pr' := fun _ he => nomatch he
  refine ⟨h.noFault, h.bufs.same hc rfl rfl (fun pr' hp => absurd hp (hgone pr')) fun b =>
    iff_of_false ?_ ?_, h.list.changed hc ?_ (fun e he => ?_) (iff_of_false ?_ ?_)
      (fun pr' hp => absurd hp (hgone pr')) (fun hb => absurd hb hbinds)
      fun i e he => .inl (hkick i e he)⟩
  · rintro ⟨pr', hpr', -⟩
    exact hgone pr' (hc.self.symm.trans hpr')
  · rintro ⟨pr', hpr', hhas, -⟩
    obtain rfl : pr = pr' := Option.some.inj (hpr.symm.trans hpr')
    exact hnot hhas
  · show (nodes.map Prod.snd).Nodup
    rw [hnodes]
    exact h.list.once.erase ept
  · show e ∈ nodes.map Prod.snd ↔ _
    rw [hnodes, List.mem_erase_of_ne he]
  · show ept ∉ nodes.map Prod.snd
    rw [hnodes]
    exact h.list.once.not_mem_erase
  · rintro ⟨pr', hp, -⟩
    exact hgone pr' hp

theorem LifeInv.destroy (h : LifeInv s) (hpr : s.priv ept = some pr)
    (hdes : pr.destroying = false) (hcalling : pr.calling = none) (hbinds : ¬ s.binds ept) :
    LifeInv (s.destroyEpt ept pr) := by
  have hok := h.bufs.ok ept pr hpr
  unfold RxCore.destroyEpt
  split
  · rename_i i hrx hbound
    have hhas : s.hasPool ept pr := ⟨by rw [hbound]; exact Option.some_ne_none i, hdes, hbinds⟩
    obtain ⟨bufs, hfree, hbufs⟩ := hok.freeAll hhas
    have hpool : ∀ i < rxbufPoolSize, ∀ b, pr.rxpool i = some b → bufs b = none := by
      intro i hi b hib
      rw [hbufs, if_pos (hib ▸ List.mem_map_of_mem (List.mem_range.2 hi))]
    have hkeep : ∀ b, s.bufs b = none → bufs b = none := by
      intro b hb
      rw [hbufs]
      split
      · rfl
      · exact hb
    have hlive : ∀ b, bufs b ≠ none → s.bufs b ≠ none := fun b hb hnone => hb (hkeep b hnone)
    rw [show freeAll pr.pool s.bufs = some bufs from hfree]
    simp only
    have hc : OneChanged s ((s.withBufs bufs s.kickEpt).setPriv ept
        (some { pr with destroying := true })) ept (some { pr with destroying := true }) :=
      ⟨rfl, fun _ _ => Iff.rfl⟩
    refine ⟨h.noFault, h.bufs.changed hc (Nat.le_refl _) (fun b hne => ?_) ?_
      (fun b hb => h.bufs.lt b (hlive b hb)) ?_ ?_,
      h.list.kept hpr hc rfl rfl Iff.rfl rfl fun _ => ⟨hhas.1, hbinds⟩⟩
    · have hne' : bufs b ≠ s.bufs b := hne
      rw [hbufs] at hne'
      split at hne'
      · rename_i hmem
        obtain ⟨i, hi, hib⟩ := List.mem_map.mp hmem
        exact .inr ⟨hne'.symm, pr, hpr, hhas, i, List.mem_range.1 hi, hib⟩
      · exact absurd rfl hne'
    · rintro _ ⟨⟩
      exact hok.freed hcalling hpool hkeep fun hyes => Bool.noConfusion hyes.2.1
    · rintro b hb (hnone | ⟨pr', hpr', -, i, hi, hib⟩)
      · exact absurd hnone (hlive b hb)
      · obtain rfl : pr = pr' := Option.some.inj (hpr.symm.trans hpr')
        exact absurd (hpool i hi b hib) hb
    · rintro b ⟨pr', hpr', hyes, -⟩
      obtain rfl := Option.some.inj (hc.self.symm.trans hpr')
      exact Bool.noConfusion hyes.2.1
  · rename_i hnot
    refine h.destroyEnd hpr (fun hhas => ?_) hbinds
    obtain ⟨i, hi⟩ := Option.ne_none_iff_exists'.mp hhas.1
    exact hnot i ((h.list.ok ept pr hpr).bound i hi).1 hi

/-! ## Runs -/

theorem RxCore.withPriv_some {p : EptPriv → Bool} {f : EptPriv → RxCore}
    (ht : s.withPriv ept p f = some t) :
    ∃ pr, s.priv ept = some pr ∧ p pr = true ∧ t = f pr := by
  obtain ⟨pr, hpr, ht⟩ := Option.bind_eq_some_iff.mp ht
  obtain ⟨hp, ht⟩ := Option.ite_none_right_eq_some.mp ht
  exact ⟨pr, hpr, hp, (Option.some.inj ht).symm⟩

theorem rxCoreStep_inv (h : LifeInv s) (hk : RxKept s e) (ht : rxCoreStep s e = some t) :
    LifeInv t := by
  cases e with
  | create ept eptType mem =>
    obtain rfl : mem = true := hk
    obtain ⟨hnone, ht⟩ := Option.ite_none_right_eq_some.mp ht
    exact Option.some.inj ht ▸ h.create hnone eptType
  | receive i =>
    rw [← Option.some.inj ht]
    refine h.kick fun ept pr hkick hpr hi => ?_
    obtain ⟨hdes, hbinds, hroom⟩ := hk ept hkick pr hpr
    exact h.receive hpr ⟨by rw [hi]; exact Option.some_ne_none i, hdes, hbinds⟩ hroom
  | close i mem =>
    rw [← Option.some.inj ht]
    refine h.kick fun ept pr hkick hpr hi => ?_
    obtain ⟨hdes, hbinds, hcalling, rfl⟩ := hk ept hkick pr hpr
    exact h.close hpr ⟨by rw [hi]; exact Option.some_ne_none i, hdes, hbinds⟩ hcalling
  | closed ept mem =>
    obtain rfl : mem = true := hk
    obtain ⟨pr, hpr, hp, rfl⟩ := RxCore.withPriv_some ht
    simp only [Bool.and_eq_true, decide_eq_true_eq] at hp
    exact h.closed hpr hp.1 hp.2
  | poll ept =>
    obtain ⟨pr, hpr, hp, rfl⟩ := RxCore.withPriv_some ht
    simp only [Bool.and_eq_true, decide_eq_true_eq, Option.isNone_iff_eq_none] at hp
    refine h.poll hpr hp.2 fun b msg xQueue hq => ?_
    exact hk pr hpr (.message b msg) (by rw [hq]; rfl) (b, msg) rfl
  | pollEnd ept =>
    obtain ⟨pr, hpr, hp, rfl⟩ := RxCore.withPriv_some ht
    exact h.pollEnd hpr hp
  | scanHead =>
    obtain ⟨hscan, ht⟩ := Option.ite_none_right_eq_some.mp ht
    exact Option.some.inj ht ▸ h.scanHead hscan
  | scanBind found =>
    simp only [rxCoreStep] at ht
    split at ht
    · rename_i node hscan
      exact Option.some.inj ht ▸ h.scanBind hscan (hk node (by rw [hscan]; rfl)) found
    · exact absurd ht (by simp)
  | scanAlloc k =>
    simp only [rxCoreStep] at ht
    split at ht
    · rename_i node ept hscan
      obtain ⟨pr, hpr⟩ := Option.ne_none_iff_exists'.mp (h.list.binding ept ⟨node, hscan⟩)
      simp only [hpr, Option.some.injEq] at ht
      exact ht ▸ h.allocate hscan hpr hk
    · exact absurd ht (by simp)
  | scanNext =>
    simp only [rxCoreStep] at ht
    split at ht
    · rename_i node hscan
      exact Option.some.inj ht ▸ h.scanNext hscan (hk node (by rw [hscan]; rfl))
    · exact absurd ht (by simp)
  | destroy ept =>
    obtain ⟨pr, hpr, hp, rfl⟩ := RxCore.withPriv_some ht
    obtain ⟨hcalling, hbinds⟩ := hk pr hpr
    exact h.destroy hpr (by simpa using hp) hcalling hbinds
  | destroyEnd ept =>
    obtain ⟨pr, hpr, hp, rfl⟩ := RxCore.withPriv_some ht
    have hp' : pr.destroying = true := hp
    refine h.destroyEnd hpr (fun hhas => ?_) fun hb => ?_
    · exact Bool.false_ne_true (hhas.2.1.symm.trans hp')
    · exact Bool.false_ne_true (((h.list.ok ept pr hpr).binding hb).2.symm.trans hp')

theorem LifeInv.law (h : LifeInv s) : LifetimeLaw s := by
  refine ⟨h.noFault, fun ept pr b msg hpr hcalling => ?_, fun ept pr b msg hpr hmem => ?_,
    h.bufs.owned, fun ept pr hpr hhas => (h.bufs.ok ept pr hpr).pool hhas, h.list.once,
    h.list.listed⟩
  · have hok := h.bufs.ok ept pr hpr
    refine hok.content (b, msg) (mem_held.2 ⟨?_, hok.callback (b, msg) hcalling⟩)
    rw [hcalling]
    exact List.mem_cons_self
  · have hok := h.bufs.ok ept pr hpr
    by_cases hlive : s.bufs b = none
    · exact .inl hlive
    · refine .inr (hok.content (b, msg) (mem_held.2 ⟨List.mem_append_right _ ?_, hlive⟩))
      exact List.mem_filterMap.2 ⟨_, hmem, rfl⟩

theorem rxCoreStart_inv : LifeInv rxCoreStart := by
  have hbinds : ∀ e, ¬ rxCoreStart.binds e := fun e ⟨n, hn⟩ => Scan.noConfusion hn
  have hpriv : ∀ e pr, rxCoreStart.priv e ≠ some pr := fun e pr he => nomatch he
  refine ⟨rfl, ⟨fun e pr hpr => absurd hpr (hpriv e pr), fun b hb => absurd rfl hb,
    fun b hb => absurd rfl hb, fun e e' b he => ?_⟩, ⟨List.nodup_nil, fun e => ?_,
    fun e pr hpr => absurd hpr (hpriv e pr), fun e hb => absurd hb (hbinds e),
    fun i e he => nomatch he⟩⟩
  · obtain ⟨pr, hpr, -⟩ := he
    exact absurd hpr (hpriv e pr)
  · refine iff_of_false List.not_mem_nil ?_
    rintro ⟨pr, hpr, -⟩
    exact hpriv e pr hpr

end Core

/-- An endpoint is created and bound, a message is received and handed over, and the peer
closes. -/
def boundOnce : List RxEvent :=
  [.create 0 .rx true, .scanHead, .scanBind (some 0), .scanAlloc 8, .receive 0, .poll 0, .pollEnd 0,
    .close 0 true]

/-- The scan goes on from the node of the endpoint it has bound. -/
def scanOn : List RxEvent :=
  [.create 0 .rx true, .scanHead, .scanBind (some 0), .scanAlloc 8, .scanNext]

end Ma35d1.Amp
