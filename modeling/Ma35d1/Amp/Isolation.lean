import Ma35d1.Amp.TxOthers

/-!
# Endpoints of the two cores

The transmit endpoints of one core and the receive endpoints of the other, with the table
`kick_ept` through which the interrupt handler finds a receive endpoint. An event is one
operation of one core at one descriptor; operations of the two cores come in any order. `gen`
and `sender` only record which transmit endpoint has had a descriptor as its head. A receive
endpoint is the number of its `ept_priv`, which is not given out again.
-/

namespace Ma35d1.Amp

open Ma35d1.Machine.Trace (run EachStep Always always_of_eachStep eachStep_of_eachStep)

/-- A transmit endpoint: the head of its chain, and how many before it have had that head. -/
abbrev Peer := Nat × Nat

/-- An entry of a receive queue. A message comes with the endpoint that sent it and the one
that its receiver was bound to. -/
inductive RxItem
  | message (data : List (BitVec 8)) (src dst : Peer)
  | close
  deriving DecidableEq

/-- The fields of a `struct rpmsg_endpoint_priv` of a receive endpoint. -/
structure RxEpt where
  rxns : Name
  /-- `bind_desc`, by index -/
  bindDesc : Option Nat
  bindId : Nat
  xQueue : List RxItem
  tasknode : Bool
  peer : Peer

structure Cores where
  tx : TxPool
  rx : Nat → Option RxEpt
  fresh : Nat
  kickEpt : Nat → Option Nat
  /-- freed memory was used, or a chain does not end -/
  rxFault : Bool
  gen : Nat → Nat
  sender : Nat → Nat

def Cores.setRx (s : Cores) (x : Nat) (r : Option RxEpt) : Cores :=
  { s with rx := Function.update s.rx x r }

def Cores.setKick (s : Cores) (i : Nat) (x : Option Nat) : Cores :=
  { s with kickEpt := Function.update s.kickEpt i x }

def Cores.setFault (s : Cores) : Cores := { s with rxFault := true }

def Cores.desc (s : Cores) (i : Nat) : RscDesc := s.tx.desc i

/-- `CMD` and `STS` of a descriptor are written. -/
def Cores.setWords (s : Cores) (i : Nat) (cmd sts : BitVec 8) : Cores :=
  { s with tx := s.tx.setDesc i { s.desc i with cmd, sts } }

def Cores.setSts (s : Cores) (i : Nat) (sts : BitVec 8) : Cores := s.setWords i (s.desc i).cmd sts

/-! ## Receive endpoints -/

/-- `ma35_rpmsg_create_rxept`; `mem` tells whether `add_node` finds memory. -/
def Cores.createRxept (s : Cores) (name : Name) (mem : Bool) : Cores :=
  { s.setRx s.fresh (some
      { rxns := strncpyName name, bindDesc := none, bindId := 0, xQueue := [], tasknode := mem
        peer := (0, 0) }) with
    fresh := s.fresh + 1 }

/-- The descriptor at which `ma35_rpmsg_ns_bind_remote` stops. -/
def Cores.findClaim (s : Cores) (ns : Name) : Option Nat :=
  (List.range descNum).find? fun i => (s.desc i).cmd &&& cmdClaim != 0 && ns == (s.desc i).ns

/-- `ma35_rpmsg_bind_process` of a receive endpoint, and the removal of its node; `mem` tells
whether `ma35_allocate_buf_pool` succeeds. -/
def Cores.bindProcess (s : Cores) (x : Nat) (r : RxEpt) (mem : Bool) : Cores :=
  match s.findClaim r.rxns with
  | none => s
  | some i =>
    let s := s.setKick i (some x)
    let r := { r with bindDesc := some i, bindId := i, peer := (i, s.gen i) }
    if mem then (s.setRx x (some { r with tasknode := false })).setSts i stsBind
    else s.setRx x (some r)

/-- `xQueueSend` -/
def RxEpt.send (r : RxEpt) (item : RxItem) : RxEpt :=
  if r.xQueue.length < rxbufQueueSize then { r with xQueue := r.xQueue ++ [item] } else r

/-- `ma35_rpmsg_receive` -/
def Cores.receive (s : Cores) (x : Nat) (r : RxEpt) (j : Nat) : Cores :=
  match readChain descNum (descOffset j) s.tx.desc s.tx.shm with
  | none => s.setFault
  | some data =>
    if r.xQueue.length < rxbufQueueSize then
      (s.setRx x (some (r.send (.message data (j, s.sender j) r.peer)))).setSts j stsAck
    else s.setSts j stsErr

/-- `ma35_rpmsg_reconnect_ept` of a receive endpoint -/
def Cores.reconnectEpt (s : Cores) (x : Nat) (r : RxEpt) (j : Nat) (mem : Bool) : Cores :=
  if r.tasknode then s
  else
    let s := (s.setKick r.bindId none).setSts j stsClose
    s.setRx x (some { r.send .close with bindDesc := none, bindId := 0, tasknode := mem })

/-- `RxIPI_IRQHandler` at descriptor `i` -/
def Cores.irq (s : Cores) (i : Nat) (mem : Bool) : Cores :=
  if (s.desc i).cmd &&& (cmdHead ||| cmdClose) = 0 then s
  else
    match s.kickEpt i with
    | none => s
    | some x =>
      match s.rx x with
      | none => s.setFault
      | some r =>
        match r.bindDesc with
        | none => s
        | some j =>
          let cmd := (s.desc j).cmd
          let s := s.setWords j 0 stsReading
          if cmd &&& cmdHead ≠ 0 then s.receive x r j
          else if cmd &&& cmdClose ≠ 0 then s.reconnectEpt x r j mem
          else s

/-- `ma35_rpmsg_poll` -/
def Cores.poll (s : Cores) (x : Nat) (r : RxEpt) : Cores :=
  match r.xQueue with
  | [] => s
  | .message .. :: xQueue =>
    let s := s.setRx x (some { r with xQueue })
    match r.bindDesc with
    | some j => if xQueue.length < rxbufQueueSize then s.setSts j stsAck else s
    | none => s
  | .close :: xQueue => s.setRx x (some { r with xQueue })

/-- `ma35_rpmsg_destroy_ept` of a receive endpoint -/
def Cores.destroyRx (s : Cores) (x : Nat) (r : RxEpt) : Cores :=
  let s := match r.bindDesc with
    | some j => s.setSts j stsClose
    | none => s
  (s.setKick r.bindId none).setRx x none

/-! ## Runs -/

inductive CoreEvent
  /-- an operation of the core that sends -/
  | tx (e : PoolEvent)
  | createRx (name : Name) (mem : Bool)
  /-- the binding task of the core that receives comes to the endpoint -/
  | bindRx (x : Nat) (mem : Bool)
  | irq (i : Nat) (mem : Bool)
  | poll (x : Nat)
  | destroyRx (x : Nat)

/-- The pool becomes `t` by the event. -/
def Cores.setTx (s : Cores) (e : PoolEvent) (t : TxPool) : Cores :=
  { s with
    tx := t
    gen := match (s.tx.takes e).head? with
      | some i => Function.update s.gen i (s.gen i + 1)
      | none => s.gen
    sender := match s.tx.publishes e with
      | some i => Function.update s.sender i (s.gen i)
      | none => s.sender }

def coresStep (s : Cores) : CoreEvent → Option Cores
  | .tx e => if e.subject = none then none else (poolStep s.tx e).map (s.setTx e)
  | .createRx name mem => some (s.createRxept name mem)
  | .bindRx x mem =>
    (s.rx x).bind fun r => if r.tasknode then some (s.bindProcess x r mem) else none
  | .irq i mem => if i < descNum then some (s.irq i mem) else none
  | .poll x => (s.rx x).map (s.poll x)
  | .destroyRx x => (s.rx x).map (s.destroyRx x)

/-- After both cores have run `ma35_rpmsg_init_vdev`. -/
def coresStart (shm : Shmem) : Cores :=
  { tx := poolStart shm, rx := fun _ => none, fresh := 0, kickEpt := fun _ => none
    rxFault := false, gen := fun _ => 0, sender := fun _ => 0 }

/-! ## The law -/

/-- What the two cores should promise in every state. -/
structure CoresLaw (s : Cores) : Prop where
  noFault : s.rxFault = false
  /-- the table holds the endpoint bound to the descriptor, or nothing -/
  table : ∀ i x, s.kickEpt i = some x ↔ ∃ r, s.rx x = some r ∧ r.bindDesc = some i
  /-- no other transmit endpoint has had the descriptor as its head since the binding -/
  peers : ∀ x r i, s.rx x = some r → r.bindDesc = some i → r.peer = (i, s.gen i)
  /-- a message was sent by the endpoint that its receiver was bound to -/
  messages : ∀ x r data src dst, s.rx x = some r → .message data src dst ∈ r.xQueue → src = dst

/-- The receive endpoint that an event is about. -/
def Cores.rxOf (s : Cores) : CoreEvent → Option Nat
  | .tx _ => none
  | .createRx .. => some s.fresh
  | .bindRx x _ | .poll x | .destroyRx x => some x
  | .irq i _ => s.kickEpt i

/-- The descriptor that an event of the core that receives is about. -/
def Cores.descOf (s : Cores) : CoreEvent → Option Nat
  | .tx _ | .createRx .. => none
  | .bindRx x _ => (s.rx x).bind fun r => s.findClaim r.rxns
  | .irq i _ => some i
  | .poll x | .destroyRx x => (s.rx x).bind RxEpt.bindDesc

/-- The event is an operation on the transmit endpoint, or one of its peer. -/
def Cores.aboutTx (s : Cores) (ept : Nat) (e : CoreEvent) : Prop :=
  (∃ e', e = .tx e' ∧ e'.subject = some ept) ∨ ∃ i, s.descOf e = some i ∧ s.tx.HeadOf ept i

/-- What a step should leave as it was, and the bindings it may make and end. -/
structure IsolatedTo (s : Cores) (e : CoreEvent) (t : Cores) : Prop where
  rx : ∀ x, s.rxOf e ≠ some x →
    t.rx x = s.rx x ∧ ∀ i, t.kickEpt i = some x ↔ s.kickEpt i = some x
  tx : ∀ ept l, s.tx.HasChain ept l → ¬ s.aboutTx ept e → t.tx.live ept = s.tx.live ept ∧
    ∀ i ∈ l, t.desc i = s.desc i ∧
      ∀ a, descTxbuf * i ≤ a → a < descTxbuf * (i + 1) → t.tx.shm a = s.tx.shm a
  /-- a binding ends when its receiver is destroyed or its transmit endpoint has gone -/
  ends : ∀ i x, s.kickEpt i = some x → t.kickEpt i ≠ some x →
    e = .destroyRx x ∨ (∃ mem, e = .irq i mem) ∧ ∀ ept, ¬ s.tx.HeadOf ept i
  /-- a binding is to the head of an endpoint of the same name -/
  binds : ∀ i x, t.kickEpt i = some x → s.kickEpt i ≠ some x →
    ∃ ept r, t.tx.HeadOf ept i ∧ t.rx x = some r ∧ t.tx.name ept = r.rxns

def Isolated (s : Cores) (e : CoreEvent) : Prop := ∀ t, coresStep s e = some t → IsolatedTo s e t

/-- A create takes only descriptors at which no receiver is left. A receiver that finds a
descriptor has a name and memory, and no other receiver is bound there. One that is destroyed
is bound, or nothing is bound to descriptor 0. -/
def CoresKept (s : Cores) : CoreEvent → Prop
  | .tx e => ∀ i ∈ s.tx.takes e, s.kickEpt i = none
  | .bindRx x mem => ∀ r ∈ s.rx x, ∀ i ∈ s.findClaim r.rxns,
    mem = true ∧ r.rxns ≠ zeroName ∧ s.kickEpt i = none
  | .destroyRx x => ∀ r ∈ s.rx x, r.bindDesc = none → s.kickEpt r.bindId = none
  | _ => True

instance (s : Cores) : (e : CoreEvent) → Decidable (CoresKept s e)
  | .tx _ | .bindRx .. | .destroyRx _ => by unfold CoresKept; infer_instance
  | .createRx .. => .isTrue trivial
  | .irq .. => .isTrue trivial
  | .poll _ => .isTrue trivial

/-! ## The invariant -/

structure CoresInv (s : Cores) (chain : Nat → List Nat) : Prop where
  pool : PoolOk s.tx chain
  sized : ∀ ept pr, s.tx.live ept = some pr → pr.availableLen = (s.tx.size ept).toNat
  noFault : s.rxFault = false
  table : ∀ i x, s.kickEpt i = some x → ∃ r, s.rx x = some r ∧ r.bindDesc = some i
  bound : ∀ x r i, s.rx x = some r → r.bindDesc = some i → s.kickEpt i = some x ∧
    r.bindId = i ∧ r.tasknode = false ∧ r.peer = (i, s.gen i) ∧ i < descNum
  fresh : ∀ x, s.fresh ≤ x → s.rx x = none
  queue : ∀ x r data src dst, s.rx x = some r → .message data src dst ∈ r.xQueue → src = dst
  named : ∀ i, (s.desc i).ns = zeroName ∨ ∃ ept, s.tx.HeadOf ept i ∧ (s.desc i).ns = s.tx.name ept
  cmds : ∀ i, (s.desc i).cmd = 0 ∨ (s.desc i).cmd = cmdHead ∨ (s.desc i).cmd = cmdClaim ∨
    (s.desc i).cmd = cmdClose
  sent : ∀ i, (s.desc i).cmd = cmdHead → s.sender i = s.gen i
  /-- a receiver is bound to heads only -/
  head : ∀ i x ept, s.kickEpt i = some x → i ∈ chain ept → s.tx.HeadOf ept i
  closed : ∀ i x ept, s.kickEpt i = some x → (s.desc i).cmd = cmdClose → i ∉ chain ept

section Isolation

variable {s t : Cores} {chain : Nat → List Nat} {x i : Nat} {r : RxEpt} {mem : Bool}
  {name : Name} {cmd sts : BitVec 8} {e : CoreEvent}

theorem CoresInv.law (h : CoresInv s chain) : CoresLaw s := by
  refine ⟨h.noFault, fun i x => ⟨h.table i x, ?_⟩, fun x r i hr hi => (h.bound x r i hr hi).2.2.2.1,
    h.queue⟩
  rintro ⟨r, hr, hi⟩
  exact (h.bound x r i hr hi).1

theorem cores_start (shm : Shmem) : CoresInv (coresStart shm) fun _ => [] := by
  have hkick : ∀ i x, (coresStart shm).kickEpt i ≠ some x := fun _ _ => by simp [coresStart]
  have hrx : ∀ x r, (coresStart shm).rx x ≠ some r := fun _ _ => by simp [coresStart]
  exact ⟨(poolStart_inv shm).toPoolOk,
    fun _ _ hpr => by simp [coresStart, poolStart, TxPool.live] at hpr, rfl,
    fun i x hx => absurd hx (hkick i x), fun x r _ hr => absurd hr (hrx x r), fun _ _ => rfl,
    fun x r _ _ _ hr => absurd hr (hrx x r), fun _ => .inl rfl, fun _ => .inl rfl, fun _ _ => rfl,
    fun i x _ hx => absurd hx (hkick i x), fun i x _ hx => absurd hx (hkick i x)⟩

/-! ## The core that sends -/

/-- A descriptor belongs to one chain. -/
theorem PoolOk.mem_unique {s : TxPool} (h : PoolOk s chain) {ept ept' : Nat}
    (hi : i ∈ chain ept) (hi' : i ∈ chain ept') : ept = ept' := by
  by_contra hne
  exact h.disjoint ept ept' hne hi hi'

theorem PoolOk.head_mem {s : TxPool} (h : PoolOk s chain) {ept : Nat} (hi : s.HeadOf ept i) :
    i ∈ chain ept := by
  obtain ⟨pr, hpr, hp⟩ := hi
  obtain ⟨hchain, hne, -⟩ := h.alive ept pr hpr
  obtain ⟨j, l, hl⟩ := List.exists_cons_of_ne_nil hne
  rw [hl] at hchain ⊢
  rw [descOffset_inj (hp.symm.trans hchain.1)]
  exact List.mem_cons_self

theorem setTx_gen {e : PoolEvent} {p : TxPool} (hi : (s.tx.takes e).head? ≠ some i) :
    (s.setTx e p).gen i = s.gen i := by
  simp only [Cores.setTx]
  cases hhead : (s.tx.takes e).head? with
  | none => rfl
  | some j =>
    have hij : i ≠ j := fun hij => hi (hij ▸ hhead)
    exact Function.update_of_ne hij _ _

theorem setTx_sender {e : PoolEvent} {p : TxPool} :
    (s.setTx e p).sender i = if s.tx.publishes e = some i then s.gen i else s.sender i := by
  simp only [Cores.setTx]
  cases hpub : s.tx.publishes e with
  | none => simp
  | some j =>
    show Function.update s.sender j (s.gen j) i = _
    by_cases hij : j = i
    · rw [hij, if_pos rfl, Function.update_self]
    · rw [if_neg (by simpa using hij), Function.update_of_ne (Ne.symm hij)]

/-- An event that publishes takes no descriptors. -/
theorem takes_of_publishes {s : TxPool} {e : PoolEvent} (h : s.publishes e = some i) :
    s.takes e = [] := by
  cases e <;> first | rfl | simp [TxPool.publishes] at h

/-- The others keep their heads. -/
theorem OthersKept.headOf {s t : TxPool} {chain' : Nat → List Nat} {ept ept' : Nat}
    (h : OthersKept s t chain chain' ept) (he : ept' ≠ ept) :
    t.HeadOf ept' i ↔ s.HeadOf ept' i := by
  unfold TxPool.HeadOf
  rw [h.live ept' he]

theorem CoresInv.setTx (h : CoresInv s chain) {e : PoolEvent} {p : TxPool} {ept : Nat}
    {chain' : Nat → List Nat}
    (hp : TxEffect s.tx p chain chain' ept (s.tx.takes e) (s.tx.publishes e))
    (hk : ∀ i ∈ s.tx.takes e, s.kickEpt i = none) : CoresInv (s.setTx e p) chain' := by
  have hnew : ∀ i x, s.kickEpt i = some x → i ∉ s.tx.takes e := by
    intro i x hx hi
    rw [hk i hi] at hx
    exact absurd hx (by simp)
  have hgen : ∀ i x, s.kickEpt i = some x → (s.setTx e p).gen i = s.gen i :=
    fun i x hx => setTx_gen fun hhead => hnew i x hx (List.mem_of_mem_head? hhead)
  -- a receiver's descriptor was in the chain before, if it is in it now
  have hold : ∀ i x, s.kickEpt i = some x → i ∈ chain' ept →
      i ∈ chain ept ∧ (s.tx.HeadOf ept i → p.HeadOf ept i) :=
    fun i x hx hi => (hp.mem i hi).resolve_left (hnew i x hx)
  refine ⟨hp.ok, fun ept' pr hpr => ?_, h.noFault, h.table, fun x r i hr hi => ?_, h.fresh, h.queue,
    fun i => ?_, fun i => ?_, fun i hi => ?_, fun i x ept' hx hi => ?_, fun i x ept' hx hi => ?_⟩
  · by_cases he : ept' = ept
    · subst he
      exact hp.sized (h.sized ept') pr hpr
    · have hpr' : s.tx.live ept' = some pr := (hp.live ept' he).symm.trans hpr
      exact (h.sized ept' pr hpr').trans (congrArg Int.toNat (hp.size ept' he).symm)
  · obtain ⟨hx, hid, hnode, hpeer, hlt⟩ := h.bound x r i hr hi
    exact ⟨hx, hid, hnode, by rw [hgen i x hx]; exact hpeer, hlt⟩
  · obtain hz | hh | ⟨hns, hkeep⟩ := hp.ns i
    · exact .inl hz
    · exact .inr ⟨ept, hh⟩
    · obtain hz | ⟨ept', hhead, hname⟩ := h.named i
      · exact .inl (hns.trans hz)
      · by_cases he : ept' = ept
        · subst he
          obtain ⟨hhead', hname'⟩ := hkeep hhead
          exact .inr ⟨ept', hhead', hns.trans (hname.trans hname'.symm)⟩
        · exact .inr ⟨ept', (hp.headOf he).2 hhead,
            hns.trans (hname.trans (hp.name ept' he).symm)⟩
  · obtain ⟨hsame, -⟩ | hz | hc | ⟨hc, -⟩ | ⟨hc, -⟩ := hp.cmd i
    · have hcmd := h.cmds i
      rw [Cores.desc, ← hsame] at hcmd
      exact hcmd
    · exact .inl hz
    · exact .inr (.inr (.inl hc))
    · exact .inr (.inr (.inr hc))
    · exact .inr (.inl hc)
  · have hcmd : (p.desc i).cmd = cmdHead := hi
    rw [setTx_sender]
    obtain ⟨hsame, hhead⟩ | hz | hc | ⟨hc, -⟩ | ⟨-, hpub⟩ := hp.cmd i
    · rw [setTx_gen hhead, h.sent i (hsame.symm.trans hcmd), ite_self]
    · exact absurd (hz.symm.trans hcmd) (by decide)
    · exact absurd (hc.symm.trans hcmd) (by decide)
    · exact absurd (hc.symm.trans hcmd) (by decide)
    · rw [if_pos hpub, setTx_gen (by rw [takes_of_publishes hpub]; simp)]
  · by_cases he : ept' = ept
    · subst he
      obtain ⟨hmem, hhead⟩ := hold i x hx hi
      exact hhead (h.head i x ept' hx hmem)
    · have hmem : i ∈ chain ept' := by rwa [hp.chains ept' he] at hi
      exact (hp.headOf he).2 (h.head i x ept' hx hmem)
  · have hcmd : (p.desc i).cmd = cmdClose := hi
    obtain ⟨hsame, -⟩ | hz | hc | ⟨-, hnot⟩ | ⟨hc, -⟩ := hp.cmd i
    · intro hmem
      have hclosed := fun e' => h.closed i x e' hx (hsame.symm.trans hcmd)
      by_cases he : ept' = ept
      · subst he
        exact hclosed ept' (hold i x hx hmem).1
      · rw [hp.chains ept' he] at hmem
        exact hclosed ept' hmem
    · exact absurd (hz.symm.trans hcmd) (by decide)
    · exact absurd (hc.symm.trans hcmd) (by decide)
    · exact hnot ept'
    · exact absurd (hc.symm.trans hcmd) (by decide)

/-- An operation on a transmit endpoint is isolated from all others. -/
theorem CoresInv.setTx_isolated (h : CoresInv s chain) {e : PoolEvent} {p : TxPool} {ept : Nat}
    {chain' : Nat → List Nat} (he : e.subject = some ept)
    (hp : TxEffect s.tx p chain chain' ept (s.tx.takes e) (s.tx.publishes e)) :
    IsolatedTo s (.tx e) (s.setTx e p) := by
  refine ⟨fun x _ => ⟨rfl, fun _ => Iff.rfl⟩, fun ept' l hl hnot => ?_,
    fun i x hx hx' => absurd hx hx', fun i x hx hx' => absurd hx hx'⟩
  have hne : ept' ≠ ept := by
    rintro rfl
    exact hnot (.inl ⟨e, rfl, he⟩)
  obtain ⟨-, rfl⟩ := h.pool.hasChain_iff.1 hl
  refine ⟨hp.live ept' hne, fun i hi => ?_⟩
  have hi₀ : i ∉ chain ept := fun hi' => hne (h.pool.mem_unique hi hi')
  have hi₁ : i ∉ chain' ept := by
    intro hi'
    rw [← hp.chains ept' hne] at hi
    exact hne (hp.ok.mem_unique hi hi')
  exact ⟨hp.desc i hi₀ hi₁, hp.shm i hi₀⟩

/-! ## The core that receives -/

/-- Nothing of the pool but `CMD` and `STS` of descriptor `i` is written. -/
structure WordsOnly (s t : TxPool) (i : Nat) : Prop where
  live : t.live = s.live
  name : t.name = s.name
  shm : t.shm = s.shm
  desc : ∀ j, j ≠ i → t.desc j = s.desc j

theorem WordsOnly.refl (s : TxPool) (i : Nat) : WordsOnly s s i := ⟨rfl, rfl, rfl, fun _ _ => rfl⟩

theorem WordsOnly.trans {s t u : TxPool} (h : WordsOnly s t i) (h' : WordsOnly t u i) :
    WordsOnly s u i :=
  ⟨h'.live.trans h.live, h'.name.trans h.name, h'.shm.trans h.shm,
    fun j hj => (h'.desc j hj).trans (h.desc j hj)⟩

theorem setWords_desc : (s.setWords i cmd sts).desc i = { s.desc i with cmd, sts } :=
  Function.update_self _ _ _

theorem setWords_only : WordsOnly s.tx (s.setWords i cmd sts).tx i :=
  ⟨rfl, rfl, rfl, fun _ hj => Function.update_of_ne hj _ _⟩

theorem WordsOnly.headOf {s t : TxPool} {ept j : Nat} (h : WordsOnly s t i) :
    t.HeadOf ept j ↔ s.HeadOf ept j := by
  unfold TxPool.HeadOf
  rw [h.live]

/-- A receiver that writes to the words of a head leaves the other endpoints alone. -/
theorem WordsOnly.isolated {ept : Nat} {l : List Nat} (hw : WordsOnly s.tx t.tx i)
    (h : CoresInv s chain) (hhead : ∀ ept, i ∈ chain ept → s.tx.HeadOf ept i)
    (hl : s.tx.HasChain ept l) (hnot : ¬ s.tx.HeadOf ept i) :
    t.tx.live ept = s.tx.live ept ∧ ∀ j ∈ l, t.desc j = s.desc j ∧
      ∀ a, descTxbuf * j ≤ a → a < descTxbuf * (j + 1) → t.tx.shm a = s.tx.shm a := by
  obtain ⟨-, rfl⟩ := h.pool.hasChain_iff.1 hl
  refine ⟨congrFun hw.live ept, fun j hj => ⟨hw.desc j fun hji => ?_,
    fun a _ _ => congrFun hw.shm a⟩⟩
  exact hnot (hhead ept (hji ▸ hj))

/-- `CMD` is cleared or kept, and `STS` written. -/
theorem CoresInv.setWords (h : CoresInv s chain) (sts : BitVec 8)
    (hcmd : cmd = (s.desc i).cmd ∨ cmd = 0) : CoresInv (s.setWords i cmd sts) chain := by
  have hsame : PoolSame s.tx (s.setWords i cmd sts).tx := PoolSame.setDesc rfl rfl
  have hns : ∀ j, ((s.setWords i cmd sts).desc j).ns = (s.desc j).ns := by
    intro j
    by_cases hj : j = i
    · rw [hj, setWords_desc]
    · exact congrArg RscDesc.ns (setWords_only.desc j hj)
  have hcmds : ∀ j, ((s.setWords i cmd sts).desc j).cmd = (s.desc j).cmd ∨
      ((s.setWords i cmd sts).desc j).cmd = 0 := by
    intro j
    by_cases hj : j = i
    · rw [hj, setWords_desc]
      exact hcmd
    · exact .inl (congrArg RscDesc.cmd (setWords_only.desc j hj))
  refine ⟨h.pool.same hsame, h.sized, h.noFault, h.table, h.bound, h.fresh, h.queue, fun j => ?_,
    fun j => ?_, fun j hj => ?_, h.head, fun j x ept hx hj => ?_⟩
  · rw [hns]
    exact h.named j
  · obtain hc | hc := hcmds j
    · rw [hc]
      exact h.cmds j
    · exact .inl hc
  · obtain hc | hc := hcmds j
    · exact h.sent j (hc.symm.trans hj)
    · exact absurd (hc.symm.trans hj) (by decide)
  · obtain hc | hc := hcmds j
    · exact h.closed j x ept hx (hc.symm.trans hj)
    · exact absurd (hc.symm.trans hj) (by decide)

theorem CoresInv.setSts (h : CoresInv s chain) (sts : BitVec 8) : CoresInv (s.setSts i sts) chain :=
  h.setWords sts (.inl rfl)

/-- An endpoint's queue changes. -/
theorem CoresInv.setQueue (h : CoresInv s chain) {r' : RxEpt} (hr : s.rx x = some r)
    (hdesc : r'.bindDesc = r.bindDesc) (hid : r'.bindId = r.bindId)
    (hnode : r'.tasknode = r.tasknode) (hpeer : r'.peer = r.peer)
    (hq : ∀ data src dst, .message data src dst ∈ r'.xQueue → src = dst) :
    CoresInv (s.setRx x (some r')) chain := by
  have hrx : ∀ y r₁, Function.update s.rx x (some r') y = some r₁ →
      (y = x ∧ r₁ = r') ∨ s.rx y = some r₁ := by
    intro y r₁ hr₁
    by_cases hy : y = x
    · rw [hy, Function.update_self, Option.some.injEq] at hr₁
      exact .inl ⟨hy, hr₁.symm⟩
    · rw [Function.update_of_ne hy] at hr₁
      exact .inr hr₁
  refine ⟨h.pool, h.sized, h.noFault, fun i y hy => ?_, fun y r₁ i hr₁ hi => ?_, fun y hy => ?_,
    fun y r₁ data src dst hr₁ hm => ?_, h.named, h.cmds, h.sent, h.head, h.closed⟩
  · obtain ⟨r₁, hr₁, hi⟩ := h.table i y hy
    by_cases hyx : y = x
    · subst hyx
      obtain rfl := Option.some.inj (hr.symm.trans hr₁)
      exact ⟨r', Function.update_self _ _ _, hdesc.trans hi⟩
    · exact ⟨r₁, (Function.update_of_ne hyx _ _).trans hr₁, hi⟩
  · obtain ⟨rfl, rfl⟩ | hr₁ := hrx y r₁ hr₁
    · rw [hid, hnode, hpeer]
      exact h.bound y r i hr (hdesc.symm.trans hi)
    · exact h.bound y r₁ i hr₁ hi
  · have hyx : y ≠ x := by
      rintro rfl
      rw [h.fresh y hy] at hr
      exact absurd hr (by simp)
    exact (Function.update_of_ne hyx _ _).trans (h.fresh y hy)
  · obtain ⟨rfl, rfl⟩ | hr₁ := hrx y r₁ hr₁
    · exact hq data src dst hm
    · exact h.queue y r₁ data src dst hr₁ hm

theorem CoresInv.createRxept (h : CoresInv s chain) (name : Name) (mem : Bool) :
    CoresInv (s.createRxept name mem) chain := by
  have hrx : ∀ y r, (s.createRxept name mem).rx y = some r →
      (y = s.fresh ∧ r.bindDesc = none ∧ r.xQueue = []) ∨ s.rx y = some r := by
    intro y r hr
    by_cases hy : y = s.fresh
    · rw [hy] at hr
      obtain rfl := Option.some.inj ((Function.update_self s.fresh _ s.rx).symm.trans hr)
      exact .inl ⟨hy, rfl, rfl⟩
    · exact .inr ((Function.update_of_ne hy _ _).symm.trans hr)
  refine ⟨h.pool, h.sized, h.noFault, fun i y hy => ?_, fun y r i hr hi => ?_, fun y hy => ?_,
    fun y r data src dst hr hm => ?_, h.named, h.cmds, h.sent, h.head, h.closed⟩
  · obtain ⟨r, hr, hi⟩ := h.table i y hy
    have hyx : y ≠ s.fresh := by
      rintro rfl
      rw [h.fresh s.fresh (Nat.le_refl _)] at hr
      exact absurd hr (by simp)
    exact ⟨r, (Function.update_of_ne hyx _ _).trans hr, hi⟩
  · obtain ⟨-, hnone, -⟩ | hr := hrx y r hr
    · rw [hnone] at hi
      exact absurd hi (by simp)
    · exact h.bound y r i hr hi
  · exact (Function.update_of_ne (Nat.ne_of_gt hy) _ _).trans (h.fresh y (Nat.le_of_lt hy))
  · obtain ⟨-, -, hnil⟩ | hr := hrx y r hr
    · rw [hnil] at hm
      exact absurd hm List.not_mem_nil
    · exact h.queue y r data src dst hr hm

/-- An endpoint's entry in the table and its `bind_desc` are cleared together, and it may go. -/
theorem CoresInv.unbind (h : CoresInv s chain) (r' : Option RxEpt) (hr : s.rx x = some r)
    (hnone : r.bindDesc = none → s.kickEpt r.bindId = none)
    (hr' : ∀ r₁, r' = some r₁ → r₁.bindDesc = none ∧
      ∀ data src dst, .message data src dst ∈ r₁.xQueue → src = dst) :
    CoresInv ((s.setKick r.bindId none).setRx x r') chain := by
  have hkick : ∀ i y, (s.setKick r.bindId none).kickEpt i = some y →
      s.kickEpt i = some y ∧ i ≠ r.bindId := by
    intro i y hy
    by_cases hi : i = r.bindId
    · rw [hi] at hy
      exact absurd ((Function.update_self _ _ _).symm.trans hy) (by simp)
    · exact ⟨(Function.update_of_ne hi _ _).symm.trans hy, hi⟩
  have hrx : ∀ y r₁ i, Function.update s.rx x r' y = some r₁ → r₁.bindDesc = some i →
      y ≠ x ∧ s.rx y = some r₁ := by
    intro y r₁ i hr₁ hi
    by_cases hy : y = x
    · rw [hy, Function.update_self] at hr₁
      rw [(hr' r₁ hr₁).1] at hi
      exact absurd hi (by simp)
    · exact ⟨hy, (Function.update_of_ne hy _ _).symm.trans hr₁⟩
  refine ⟨h.pool, h.sized, h.noFault, fun i y hy => ?_, fun y r₁ i hr₁ hi => ?_, fun y hy => ?_,
    fun y r₁ data src dst hr₁ hm => ?_, h.named, h.cmds, h.sent,
    fun i y ept hy => h.head i y ept (hkick i y hy).1,
    fun i y ept hy => h.closed i y ept (hkick i y hy).1⟩
  · obtain ⟨hy, hne⟩ := hkick i y hy
    obtain ⟨r₁, hr₁, hi⟩ := h.table i y hy
    have hyx : y ≠ x := by
      rintro rfl
      obtain rfl := Option.some.inj (hr.symm.trans hr₁)
      exact hne (h.bound y r i hr hi).2.1.symm
    exact ⟨r₁, (Function.update_of_ne hyx _ _).trans hr₁, hi⟩
  · obtain ⟨hyx, hr₁⟩ := hrx y r₁ i hr₁ hi
    obtain ⟨hy, hrest⟩ := h.bound y r₁ i hr₁ hi
    have hne : i ≠ r.bindId := by
      intro hid
      cases hd : r.bindDesc with
      | none =>
        rw [hid, hnone hd] at hy
        exact absurd hy (by simp)
      | some j =>
        obtain ⟨hx, hj, -⟩ := h.bound x r j hr hd
        rw [hid, hj, hx, Option.some.injEq] at hy
        exact hyx hy.symm
    exact ⟨(Function.update_of_ne hne _ _).trans hy, hrest⟩
  · have hyx : y ≠ x := by
      rintro rfl
      rw [h.fresh y hy] at hr
      exact absurd hr (by simp)
    exact (Function.update_of_ne hyx _ _).trans (h.fresh y hy)
  · by_cases hy : y = x
    · have hself : r' = some r₁ := by
        rw [hy] at hr₁
        simpa [Cores.setRx] using hr₁
      exact (hr' r₁ hself).2 data src dst hm
    · exact h.queue y r₁ data src dst ((Function.update_of_ne hy _ _).symm.trans hr₁) hm

/-- What `ma35_rpmsg_ns_bind_remote` finds. -/
theorem findClaim_some {ns : Name} (h : s.findClaim ns = some i) :
    i < descNum ∧ (s.desc i).cmd &&& cmdClaim ≠ 0 ∧ (s.desc i).ns = ns := by
  have hmem := List.mem_of_find?_eq_some h
  have hp := List.find?_some h
  simp only [Bool.and_eq_true, bne_iff_ne, ne_eq, beq_iff_eq] at hp
  exact ⟨List.mem_range.1 hmem, hp.1, hp.2.symm⟩

/-- A descriptor with CLAIM and a name is the head of an endpoint of that name. -/
theorem CoresInv.claimed (h : CoresInv s chain) {ns : Name} (hi : s.findClaim ns = some i)
    (hne : ns ≠ zeroName) :
    (s.desc i).cmd = cmdClaim ∧ ∃ ept, s.tx.HeadOf ept i ∧ s.tx.name ept = ns := by
  obtain ⟨-, hclaim, hns⟩ := findClaim_some hi
  constructor
  · obtain hc | hc | hc | hc := h.cmds i
    · rw [hc] at hclaim
      exact absurd rfl hclaim
    · rw [hc] at hclaim
      exact absurd (by decide) hclaim
    · exact hc
    · rw [hc] at hclaim
      exact absurd (by decide) hclaim
  · obtain hz | ⟨ept, hhead, hname⟩ := h.named i
    · exact absurd (hns.symm.trans hz) hne
    · exact ⟨ept, hhead, hname.symm.trans hns⟩

/-- The receiver `x` as it is once bound to descriptor `i`. -/
def Cores.bindTo (s : Cores) (x i : Nat) (r : RxEpt) : Cores :=
  (s.setKick i (some x)).setRx x (some
    { r with bindDesc := some i, bindId := i, peer := (i, s.gen i), tasknode := false })

theorem CoresInv.bindTo (h : CoresInv s chain) (hr : s.rx x = some r) (hnone : r.bindDesc = none)
    (hi : s.findClaim r.rxns = some i) (hne : r.rxns ≠ zeroName) (hfree : s.kickEpt i = none) :
    CoresInv (s.bindTo x i r) chain := by
  obtain ⟨hcmd, ept, hhead, -⟩ := h.claimed hi hne
  have hkick : ∀ j y, (s.bindTo x i r).kickEpt j = some y →
      (j = i ∧ y = x) ∨ (j ≠ i ∧ s.kickEpt j = some y) := by
    intro j y hy
    by_cases hj : j = i
    · rw [hj] at hy
      exact .inl ⟨hj, (Option.some.inj ((Function.update_self i _ s.kickEpt).symm.trans hy)).symm⟩
    · exact .inr ⟨hj, (Function.update_of_ne hj _ _).symm.trans hy⟩
  have hself : (s.bindTo x i r).rx x = some
      { r with bindDesc := some i, bindId := i, peer := (i, s.gen i), tasknode := false } :=
    Function.update_self _ _ _
  have hother : ∀ y, y ≠ x → (s.bindTo x i r).rx y = s.rx y :=
    fun y hy => Function.update_of_ne hy _ _
  refine ⟨h.pool, h.sized, h.noFault, fun j y hy => ?_, fun y r₁ j hr₁ hj => ?_, fun y hy => ?_,
    fun y r₁ data src dst hr₁ hm => ?_, h.named, h.cmds, h.sent, fun j y ept' hy hmem => ?_,
    fun j y ept' hy hc => ?_⟩
  · obtain ⟨rfl, rfl⟩ | ⟨-, hy⟩ := hkick j y hy
    · exact ⟨_, hself, rfl⟩
    · obtain ⟨r₁, hr₁, hj⟩ := h.table j y hy
      have hyx : y ≠ x := by
        rintro rfl
        obtain rfl := Option.some.inj (hr.symm.trans hr₁)
        rw [hnone] at hj
        exact absurd hj (by simp)
      exact ⟨r₁, (hother y hyx).trans hr₁, hj⟩
  · by_cases hyx : y = x
    · subst hyx
      obtain rfl := Option.some.inj (hself.symm.trans hr₁)
      obtain rfl := Option.some.inj hj
      exact ⟨Function.update_self _ _ _, rfl, rfl, rfl, (findClaim_some hi).1⟩
    · rw [hother y hyx] at hr₁
      obtain ⟨hy, hrest⟩ := h.bound y r₁ j hr₁ hj
      have hji : j ≠ i := by
        rintro rfl
        rw [hfree] at hy
        exact absurd hy (by simp)
      exact ⟨(Function.update_of_ne hji _ _).trans hy, hrest⟩
  · have hyx : y ≠ x := by
      rintro rfl
      rw [h.fresh y hy] at hr
      exact absurd hr (by simp)
    exact (hother y hyx).trans (h.fresh y hy)
  · by_cases hyx : y = x
    · subst hyx
      obtain rfl := Option.some.inj (hself.symm.trans hr₁)
      exact h.queue y r data src dst hr hm
    · rw [hother y hyx] at hr₁
      exact h.queue y r₁ data src dst hr₁ hm
  · obtain ⟨rfl, rfl⟩ | ⟨-, hy⟩ := hkick j y hy
    · obtain rfl := h.pool.mem_unique hmem (h.pool.head_mem hhead)
      exact hhead
    · exact h.head j y ept' hy hmem
  · obtain ⟨rfl, rfl⟩ | ⟨-, hy⟩ := hkick j y hy
    · exact absurd (hcmd.symm.trans hc) (by decide)
    · exact h.closed j y ept' hy hc

/-- The handler can read what it finds at the descriptor of a receiver. -/
theorem CoresInv.readable (h : CoresInv s chain) (hx : s.kickEpt i = some x) :
    ∃ data, readChain descNum (descOffset i) s.tx.desc s.tx.shm = some data := by
  obtain ⟨r, hr, hi⟩ := h.table i x hx
  obtain ⟨-, -, -, -, hlt⟩ := h.bound x r i hr hi
  cases hflag : s.tx.bufFlag i with
  | true =>
    obtain ⟨ept, hmem⟩ := (h.pool.flags i hlt).1 hflag
    obtain ⟨pr, hpr, hp⟩ := h.head i x ept hx hmem
    obtain ⟨hchain, hne, -⟩ := h.pool.alive ept pr hpr
    rw [hp] at hchain
    exact readChain_some hchain hne (length_le_descNum hchain.nodup (h.pool.lt ept))
  | false =>
    have hchain : Chain s.tx.desc (descOffset i) [i] := ⟨rfl, h.pool.free i hlt hflag⟩
    exact readChain_some hchain (List.cons_ne_nil _ _) (show 1 ≤ descNum by decide)

theorem IsolatedTo.refl (s : Cores) (e : CoreEvent) : IsolatedTo s e s :=
  ⟨fun _ _ => ⟨rfl, fun _ => Iff.rfl⟩, fun _ _ _ _ => ⟨rfl, fun _ _ => ⟨rfl, fun _ _ _ => rfl⟩⟩,
    fun _ _ hx hx' => absurd hx hx', fun _ _ hx hx' => absurd hx hx'⟩

theorem CoresInv.bindRx_step (h : CoresInv s chain) (hr : s.rx x = some r)
    (hnode : r.tasknode = true) (hk : CoresKept s (.bindRx x mem)) :
    CoresInv (s.bindProcess x r mem) chain ∧
      IsolatedTo s (.bindRx x mem) (s.bindProcess x r mem) := by
  have hnone : r.bindDesc = none := by
    by_contra hb
    obtain ⟨i, hi⟩ := Option.ne_none_iff_exists'.mp hb
    rw [(h.bound x r i hr hi).2.2.1] at hnode
    exact absurd hnode (by decide)
  unfold Cores.bindProcess
  cases hi : s.findClaim r.rxns with
  | none => exact ⟨h, .refl s _⟩
  | some i =>
    obtain ⟨rfl, hne, hfree⟩ := hk r hr i hi
    obtain ⟨-, ept, hhead, hname⟩ := h.claimed hi hne
    have hbound := h.bindTo hr hnone hi hne hfree
    have hw : WordsOnly s.tx ((s.bindTo x i r).setSts i stsBind).tx i := setWords_only
    have hdesc : s.descOf (.bindRx x true) = some i := by
      rw [Cores.descOf, hr]
      exact hi
    have hkick : ∀ j y, (s.bindTo x i r).kickEpt j = some y ↔
        (j = i ∧ y = x) ∨ s.kickEpt j = some y := by
      intro j y
      by_cases hj : j = i
      · subst hj
        rw [hfree]
        simp [Cores.bindTo, Cores.setKick, Cores.setRx, eq_comm]
      · simp [Cores.bindTo, Cores.setKick, Cores.setRx, hj]
    refine ⟨hbound.setSts stsBind, fun y hy => ⟨?_, fun j => ?_⟩, fun ept' l hl hnot => ?_,
      fun j y hy hy' => absurd ((hkick j y).2 (.inr hy)) hy', fun j y hy hy' => ?_⟩
    · have hyx : y ≠ x := fun hyx => hy (hyx ▸ rfl)
      exact Function.update_of_ne hyx _ _
    · have hyx : y ≠ x := fun hyx => hy (hyx ▸ rfl)
      exact (hkick j y).trans (or_iff_right fun hj => hyx hj.2)
    · refine hw.isolated h (fun ept₁ hmem => ?_) hl fun hhead' => hnot (.inr ⟨i, hdesc, hhead'⟩)
      obtain rfl := h.pool.mem_unique hmem (h.pool.head_mem hhead)
      exact hhead
    · obtain ⟨rfl, rfl⟩ | hs := (hkick j y).1 hy
      · exact ⟨ept, _, hhead, Function.update_self _ _ _, hname⟩
      · exact absurd hs hy'

theorem send_fields (r : RxEpt) (item : RxItem) : (r.send item).bindDesc = r.bindDesc ∧
    (r.send item).bindId = r.bindId ∧ (r.send item).tasknode = r.tasknode ∧
    (r.send item).peer = r.peer := by
  unfold RxEpt.send
  split <;> exact ⟨rfl, rfl, rfl, rfl⟩

/-- A queue entry is added only while there is room. -/
theorem mem_send {item item' : RxItem} (hm : item' ∈ (r.send item).xQueue) :
    item' ∈ r.xQueue ∨ item' = item := by
  unfold RxEpt.send at hm
  split at hm
  · rcases List.mem_append.mp hm with hm | hm
    · exact .inl hm
    · exact .inr (List.mem_singleton.mp hm)
  · exact .inl hm

/-- What `CMD` the handler finds. -/
theorem CoresInv.irq_cmd (h : CoresInv s chain)
    (hcmd : (s.desc i).cmd &&& (cmdHead ||| cmdClose) ≠ 0) :
    (s.desc i).cmd = cmdHead ∨ (s.desc i).cmd = cmdClose := by
  obtain hc | hc | hc | hc := h.cmds i
  · rw [hc] at hcmd
    exact absurd (by decide) hcmd
  · exact .inl hc
  · rw [hc] at hcmd
    exact absurd (by decide) hcmd
  · exact .inr hc

/-- The handler at HEAD: the message is from the endpoint that the receiver is bound to. -/
theorem CoresInv.receive_step (h : CoresInv s chain) (hx : s.kickEpt i = some x)
    (hr : s.rx x = some r) (hi : r.bindDesc = some i) (hsent : s.sender i = s.gen i) :
    CoresInv (s.receive x r i) chain ∧ WordsOnly s.tx (s.receive x r i).tx i ∧
      (s.receive x r i).kickEpt = s.kickEpt ∧
      ∀ y, y ≠ x → (s.receive x r i).rx y = s.rx y := by
  obtain ⟨data, hdata⟩ := h.readable hx
  unfold Cores.receive
  rw [hdata]
  simp only
  split
  · have hq : CoresInv
        (s.setRx x (some (r.send (.message data (i, s.sender i) r.peer)))) chain := by
      obtain ⟨hdesc, hid, hnode, hpeer⟩ := send_fields r (.message data (i, s.sender i) r.peer)
      refine h.setQueue hr hdesc hid hnode hpeer fun data' src dst hm => ?_
      obtain hm | hm := mem_send hm
      · exact h.queue x r data' src dst hr hm
      · obtain ⟨-, rfl, rfl⟩ := RxItem.message.inj hm
        rw [hsent, (h.bound x r i hr hi).2.2.2.1]
    exact ⟨hq.setSts stsAck, setWords_only, rfl, fun y hy => Function.update_of_ne hy _ _⟩
  · exact ⟨h.setSts stsErr, setWords_only, rfl, fun _ _ => rfl⟩

/-- The handler at CLOSE lets the receiver go. -/
theorem CoresInv.reconnect_step (mem : Bool) (h : CoresInv s chain) (hr : s.rx x = some r)
    (hi : r.bindDesc = some i) :
    CoresInv (s.reconnectEpt x r i mem) chain ∧ WordsOnly s.tx (s.reconnectEpt x r i mem).tx i ∧
      (s.reconnectEpt x r i mem).kickEpt = Function.update s.kickEpt i none ∧
      ∀ y, y ≠ x → (s.reconnectEpt x r i mem).rx y = s.rx y := by
  obtain ⟨-, hid, hnode, -⟩ := h.bound x r i hr hi
  unfold Cores.reconnectEpt
  rw [hnode, if_neg (by decide)]
  have hgone : CoresInv ((s.setKick r.bindId none).setRx x
      (some { r.send .close with bindDesc := none, bindId := 0, tasknode := mem })) chain := by
    refine h.unbind _ hr (fun hnone => ?_) fun r₁ hr₁ => ?_
    · rw [hnone] at hi
      exact absurd hi (by simp)
    · obtain rfl := Option.some.inj hr₁
      refine ⟨rfl, fun data src dst hm => ?_⟩
      obtain hm | hm := mem_send (r := r) hm
      · exact h.queue x r data src dst hr hm
      · exact absurd hm (by simp)
  refine ⟨hgone.setSts stsClose, setWords_only, ?_, fun y hy => Function.update_of_ne hy _ _⟩
  rw [← hid]
  rfl

theorem CoresInv.irq_step (h : CoresInv s chain) (i : Nat) (mem : Bool) :
    CoresInv (s.irq i mem) chain ∧ IsolatedTo s (.irq i mem) (s.irq i mem) := by
  unfold Cores.irq
  split
  · exact ⟨h, .refl s _⟩
  rename_i hcmd
  cases hx : s.kickEpt i with
  | none => exact ⟨h, .refl s _⟩
  | some x =>
    obtain ⟨r, hr, hi⟩ := h.table i x hx
    have hsubject : ∀ y, s.rxOf (.irq i mem) ≠ some y → y ≠ x := by
      rintro y hy rfl
      exact hy hx
    simp only [hr, hi]
    have hread : CoresInv (s.setWords i 0 stsReading) chain := h.setWords stsReading (.inr rfl)
    have hw : WordsOnly s.tx (s.setWords i 0 stsReading).tx i := setWords_only
    obtain hhead | hclose := h.irq_cmd hcmd
    · rw [if_pos (by rw [hhead]; decide)]
      obtain ⟨hinv, hw', hkick, hrx⟩ := hread.receive_step hx hr hi (h.sent i hhead)
      refine ⟨hinv, fun y hy => ⟨hrx y (hsubject y hy), fun j => by rw [hkick]; rfl⟩,
        fun ept l hl hnot => (hw.trans hw').isolated h (fun ept => h.head i x ept hx) hl
          fun hh => hnot (.inr ⟨i, rfl, hh⟩), fun j y hy hy' => ?_, fun j y hy hy' => ?_⟩
      · rw [hkick] at hy'
        exact absurd hy hy'
      · rw [hkick] at hy
        exact absurd hy hy'
    · rw [if_neg (by rw [hclose]; decide), if_pos (by rw [hclose]; decide)]
      obtain ⟨hinv, hw', hkick, hrx⟩ := hread.reconnect_step mem hr hi
      have hkeep : ∀ j y, ((s.setWords i 0 stsReading).reconnectEpt x r i mem).kickEpt j = some y ↔
          j ≠ i ∧ s.kickEpt j = some y := by
        intro j y
        rw [hkick]
        by_cases hj : j = i
        · simp [hj]
        · rw [Function.update_of_ne hj]
          exact (and_iff_right hj).symm
      refine ⟨hinv, fun y hy => ⟨hrx y (hsubject y hy), fun j => ?_⟩,
        fun ept l hl hnot => (hw.trans hw').isolated h (fun ept => h.head i x ept hx) hl
          fun hh => hnot (.inr ⟨i, rfl, hh⟩), fun j y hy hy' => ?_, fun j y hy hy' => ?_⟩
      · rw [hkeep]
        refine ⟨fun hj => hj.2, fun hj => ⟨?_, hj⟩⟩
        rintro rfl
        rw [hx] at hj
        exact hsubject y hy (Option.some.inj hj).symm
      · -- the transmit endpoint has been destroyed
        have hji : j = i := by
          by_contra hne
          exact hy' ((hkeep j y).2 ⟨hne, hy⟩)
        subst hji
        exact .inr ⟨⟨mem, rfl⟩, fun ept hhead => h.closed j x ept hx hclose (h.pool.head_mem hhead)⟩
      · exact absurd ((hkeep j y).1 hy).2 hy'

theorem CoresInv.poll_step (h : CoresInv s chain) (hr : s.rx x = some r) :
    CoresInv (s.poll x r) chain ∧ IsolatedTo s (.poll x) (s.poll x r) := by
  have hrest : ∀ item q, r.xQueue = item :: q →
      CoresInv (s.setRx x (some { r with xQueue := q })) chain := by
    intro item q hq
    refine h.setQueue hr rfl rfl rfl rfl fun data src dst hm => ?_
    refine h.queue x r data src dst hr ?_
    rw [hq]
    exact List.mem_cons_of_mem _ hm
  have hiso : ∀ (t : Cores) (q : List RxItem), t.rx = (s.setRx x (some { r with xQueue := q })).rx →
      t.kickEpt = s.kickEpt → (t.tx = s.tx ∨ ∃ i, r.bindDesc = some i ∧ WordsOnly s.tx t.tx i) →
      IsolatedTo s (.poll x) t := by
    intro t q hrx hkick htx
    refine ⟨fun y hy => ⟨?_, fun j => by rw [hkick]⟩, fun ept l hl hnot => ?_, fun j y hy hy' => ?_,
      fun j y hy hy' => ?_⟩
    · rw [hrx]
      have hyx : y ≠ x := fun hyx => hy (hyx ▸ rfl)
      exact Function.update_of_ne hyx _ _
    · obtain htx | ⟨i, hi, hw⟩ := htx
      · unfold Cores.desc
        rw [htx]
        exact ⟨rfl, fun _ _ => ⟨rfl, fun _ _ _ => rfl⟩⟩
      · refine hw.isolated h (fun ept => h.head i x ept (h.bound x r i hr hi).1) hl fun hh => ?_
        refine hnot (.inr ⟨i, ?_, hh⟩)
        rw [Cores.descOf, hr]
        exact hi
    · rw [hkick] at hy'
      exact absurd hy hy'
    · rw [hkick] at hy
      exact absurd hy hy'
  unfold Cores.poll
  split
  · exact ⟨h, .refl s _⟩
  · rename_i data src dst q hq
    have hinv := hrest _ q hq
    simp only
    split
    · rename_i i hi
      split
      · exact ⟨hinv.setSts stsAck, hiso _ q rfl rfl (.inr ⟨i, hi, setWords_only⟩)⟩
      · exact ⟨hinv, hiso _ q rfl rfl (.inl rfl)⟩
    · exact ⟨hinv, hiso _ q rfl rfl (.inl rfl)⟩
  · rename_i q hq
    exact ⟨hrest _ q hq, hiso _ q rfl rfl (.inl rfl)⟩

theorem CoresInv.destroyRx_step (h : CoresInv s chain) (hr : s.rx x = some r)
    (hk : CoresKept s (.destroyRx x)) :
    CoresInv (s.destroyRx x r) chain ∧ IsolatedTo s (.destroyRx x) (s.destroyRx x r) := by
  have hfree := hk r hr
  -- nothing of another endpoint is in the table at `bind_id`
  have hkick : ∀ j y, y ≠ x → (Function.update s.kickEpt r.bindId none j = some y ↔
      s.kickEpt j = some y) := by
    intro j y hyx
    by_cases hj : j = r.bindId
    · rw [hj, Function.update_self]
      refine iff_of_false (by simp) fun hy => ?_
      cases hd : r.bindDesc with
      | none =>
        rw [hfree hd] at hy
        exact absurd hy (by simp)
      | some i =>
        obtain ⟨hx, hid, -⟩ := h.bound x r i hr hd
        rw [hid, hx, Option.some.injEq] at hy
        exact hyx hy.symm
    · rw [Function.update_of_ne hj]
  have hiso : ∀ t : Cores, t.rx = Function.update s.rx x none →
      t.kickEpt = Function.update s.kickEpt r.bindId none →
      (t.tx = s.tx ∨ ∃ i, r.bindDesc = some i ∧ WordsOnly s.tx t.tx i) →
      IsolatedTo s (.destroyRx x) t := by
    intro t hrx hkicks htx
    refine ⟨fun y hy => ?_, fun ept l hl hnot => ?_, fun j y hy hy' => ?_, fun j y hy hy' => ?_⟩
    · have hyx : y ≠ x := fun hyx => hy (hyx ▸ rfl)
      rw [hrx, hkicks]
      exact ⟨Function.update_of_ne hyx _ _, fun j => hkick j y hyx⟩
    · obtain htx | ⟨i, hi, hw⟩ := htx
      · unfold Cores.desc
        rw [htx]
        exact ⟨rfl, fun _ _ => ⟨rfl, fun _ _ _ => rfl⟩⟩
      · refine hw.isolated h (fun ept => h.head i x ept (h.bound x r i hr hi).1) hl fun hh => ?_
        refine hnot (.inr ⟨i, ?_, hh⟩)
        rw [Cores.descOf, hr]
        exact hi
    · by_cases hyx : y = x
      · exact .inl (hyx ▸ rfl)
      · rw [hkicks] at hy'
        exact absurd ((hkick j y hyx).2 hy) hy'
    · rw [hkicks] at hy
      by_cases hj : j = r.bindId
      · rw [hj, Function.update_self] at hy
        exact absurd hy (by simp)
      · rw [Function.update_of_ne hj] at hy
        exact absurd hy hy'
  have hinv := h.unbind none hr hfree (fun _ hnone => absurd hnone (by simp))
  unfold Cores.destroyRx
  cases hd : r.bindDesc with
  | none => exact ⟨hinv, hiso _ rfl rfl (.inl rfl)⟩
  | some i => exact ⟨hinv.setSts stsClose, hiso _ rfl rfl (.inr ⟨i, hd, setWords_only⟩)⟩

theorem createRxept_isolated :
    IsolatedTo s (.createRx name mem) (s.createRxept name mem) := by
  refine ⟨fun y hy => ⟨?_, fun _ => Iff.rfl⟩,
    fun _ _ _ _ => ⟨rfl, fun _ _ => ⟨rfl, fun _ _ _ => rfl⟩⟩,
    fun _ _ hx hx' => absurd hx hx', fun _ _ hx hx' => absurd hx hx'⟩
  have hyx : y ≠ s.fresh := fun hyx => hy (hyx ▸ rfl)
  exact Function.update_of_ne hyx _ _

/-- What any step of the two cores does. -/
theorem coresStep_inv (h : CoresInv s chain) (hk : CoresKept s e) (ht : coresStep s e = some t) :
    (∃ chain', CoresInv t chain') ∧ IsolatedTo s e t := by
  cases e with
  | tx e =>
    simp only [coresStep] at ht
    split at ht
    · exact absurd ht (by simp)
    · rename_i hsome
      obtain ⟨ept, he⟩ := Option.ne_none_iff_exists'.mp hsome
      obtain ⟨p, hp, rfl⟩ := Option.map_eq_some_iff.mp ht
      obtain ⟨chain', heff⟩ := poolStep_effect h.pool he (h.sized ept) hp
      exact ⟨⟨chain', h.setTx heff hk⟩, h.setTx_isolated he heff⟩
  | createRx name mem =>
    obtain rfl := Option.some.inj ht
    exact ⟨⟨chain, h.createRxept name mem⟩, createRxept_isolated⟩
  | bindRx x mem =>
    obtain ⟨r, hr, ht⟩ := Option.bind_eq_some_iff.mp ht
    obtain ⟨hnode, ht⟩ := Option.ite_none_right_eq_some.mp ht
    obtain rfl := Option.some.inj ht
    obtain ⟨hinv, hiso⟩ := h.bindRx_step hr hnode hk
    exact ⟨⟨chain, hinv⟩, hiso⟩
  | irq i mem =>
    obtain ⟨-, ht⟩ := Option.ite_none_right_eq_some.mp ht
    obtain rfl := Option.some.inj ht
    obtain ⟨hinv, hiso⟩ := h.irq_step i mem
    exact ⟨⟨chain, hinv⟩, hiso⟩
  | poll x =>
    obtain ⟨r, hr, rfl⟩ := Option.map_eq_some_iff.mp ht
    obtain ⟨hinv, hiso⟩ := h.poll_step hr
    exact ⟨⟨chain, hinv⟩, hiso⟩
  | destroyRx x =>
    obtain ⟨r, hr, rfl⟩ := Option.map_eq_some_iff.mp ht
    obtain ⟨hinv, hiso⟩ := h.destroyRx_step hr hk
    exact ⟨⟨chain, hinv⟩, hiso⟩

end Isolation

/-- While no descriptor is reused under a receiver, and none is bound or destroyed over another,
the endpoints of the two cores are isolated from each other. -/
theorem run_coresLaw (shm : Shmem) (es : List CoreEvent)
    (hk : EachStep coresStep CoresKept (coresStart shm) es) :
    Always coresStep CoresLaw (coresStart shm) es ∧
      EachStep coresStep Isolated (coresStart shm) es := by
  constructor
  · refine (always_of_eachStep (P := fun s => ∃ chain, CoresInv s chain)
      (fun _ _ _ ⟨_, hs⟩ hk ht => ?_) ⟨_, cores_start shm⟩ hk).mono fun _ ⟨_, hs⟩ => hs.law
    exact (coresStep_inv hs hk ht).1
  · refine eachStep_of_eachStep (P := fun s => ∃ chain, CoresInv s chain)
      (fun _ _ _ ⟨_, hs⟩ hk ht => ⟨(coresStep_inv hs hk ht).1, fun t' ht' => ?_⟩)
      ⟨_, cores_start shm⟩ hk
    exact (coresStep_inv hs hk ht').2

/-- Two endpoints are bound, one sends and closes, and its descriptor goes to a third. -/
def reusedOnce : List CoreEvent :=
  [.tx (.create 0 [0x61] 16 true true), .tx (.create 1 [0x62] 16 true true),
    .createRx [0x61] true, .createRx [0x62] true, .bindRx 0 true, .bindRx 1 true,
    .tx (.bind 0), .tx (.send 0 [0x1, 0x2] true), .irq 0 true, .tx (.destroy 0), .irq 0 true,
    .tx (.create 2 [0x61] 16 true true), .poll 0, .bindRx 0 true, .destroyRx 1]

theorem run_coresLaw_reused : Always coresStep CoresLaw (coresStart fun _ => 0) reusedOnce ∧
    EachStep coresStep Isolated (coresStart fun _ => 0) reusedOnce :=
  run_coresLaw (fun _ => 0) reusedOnce (by decide)

/-- A receive endpoint that has never been bound is destroyed. -/
def unboundGone : List CoreEvent :=
  [.tx (.create 0 [0x61] 16 true true), .createRx [0x61] true, .bindRx 0 true,
    .createRx [0x62] true, .destroyRx 1]

/-- Its `bind_id` is 0, and the endpoint bound to descriptor 0 is no longer in the table. -/
theorem not_coresLaw_unboundGone :
    ¬ (Always coresStep CoresLaw (coresStart fun _ => 0) unboundGone ∧
      EachStep coresStep Isolated (coresStart fun _ => 0) unboundGone) := by
  rintro ⟨h, -⟩
  have hrun : (run coresStep (coresStart fun _ => 0) unboundGone).map (fun s =>
      (s.kickEpt 0, (s.rx 0).map RxEpt.bindDesc)) = some (none, some (some 0)) := by
    decide
  obtain ⟨t, ht, hvals⟩ := Option.map_eq_some_iff.mp hrun
  obtain ⟨hkick, hrx⟩ := Prod.mk.inj hvals
  obtain ⟨r, hr, hi⟩ := Option.map_eq_some_iff.mp hrx
  rw [((h.last ht).table 0 0).2 ⟨r, hr, hi⟩] at hkick
  exact absurd hkick (by simp)

end Ma35d1.Amp
