import Ma35d1.Amp.TxPool
import Ma35d1.Machine.Ring

/-!
# Messages over one link

A transmit endpoint of one core bound to a receive endpoint of the other:
`ma35_rpmsg_send_offchannel_raw` on the sending core, `RxIPI_IRQHandler` and `ma35_rpmsg_poll` on
the receiving one. Each of the three goes on in steps of its own, and the handler preempts the
poll. `accepted` and `delivered` record what has been sent and what the callback was given.
-/

namespace Ma35d1.Amp

open Ma35d1.Machine.Ring (wrap_eq_next next_mod places places_succ places_cons not_mem_places)
open Ma35d1.Machine.Trace (run EachStep Always always_of_eachStep)

abbrev Message := List (BitVec 8)

/-- `struct rxbuf_queue_t`; `rxbuf` is the place of the buffer in `rxpool`. -/
structure RxbufQueue where
  rxbuf : Nat
  len : Nat
  cmd : BitVec 8

/-- Where `ma35_rpmsg_send_offchannel_raw` is. -/
inductive Sender
  | idle
  | checked (data : Message)
  | cleared (data : Message)
  | marked (data : Message)
  | written (data : Message)
  deriving DecidableEq

/-- Where `RxIPI_IRQHandler` is. -/
inductive Handler
  | idle
  | taken (cmd : BitVec 8)
  | copied (cmd : BitVec 8) (rxlen : Nat)
  deriving DecidableEq

/-- Where `ma35_rpmsg_poll` is. -/
inductive Poller
  | idle
  | calling (e : RxbufQueue)
  | called
  | acking

structure Link where
  desc : Descs
  shm : Shmem
  sender : Sender
  handler : Handler
  poller : Poller
  /-- `xQueue` -/
  queue : List RxbufQueue
  /-- what the buffers of `rxpool` hold -/
  rxpool : Nat → Message
  poolid : Nat
  accepted : List Message
  delivered : List Message

/-- The descriptor at the head of the chain, `bind_desc` of the receiving endpoint. -/
def Link.head (s : Link) (pr : TxPriv) : RscDesc := s.desc (descAt pr.pDesc)

/-- `CMD` and `STS` of the head are written. -/
def Link.setWords (s : Link) (pr : TxPriv) (cmd sts : BitVec 8) : Link :=
  { s with desc := Function.update s.desc (descAt pr.pDesc) { s.head pr with cmd, sts } }

/-- The loop of `ma35_rpmsg_receive`. -/
def Link.read (s : Link) (pr : TxPriv) : Option Message :=
  readChain descNum pr.pDesc s.desc s.shm

def Link.setSender (s : Link) (w : Sender) : Link := { s with sender := w }

def Link.setHandler (s : Link) (h : Handler) : Link := { s with handler := h }

def Link.setPoller (s : Link) (p : Poller) : Link := { s with poller := p }

/-! ## The sending core -/

/-- The tests of `ma35_rpmsg_send_offchannel_raw`. -/
def sendCheck (pr : TxPriv) (sts : BitVec 8) (len : Nat) : Except RpmsgErr Unit :=
  if pr.availableLen < len then .error .noMem
  else if pr.pDesc = 0 then .error .devState
  else if pr.remoteBinded = false then .error .init
  else if sts &&& (stsReading ||| stsErr) ≠ 0 then .error .noBuff
  else if sts = stsClose then .error .perm
  else .ok ()

/-- The descriptors are reset. -/
def Link.clear (s : Link) (data : Message) (desc : Descs) : Link :=
  { s with desc, sender := .cleared data }

/-- The message is copied to the shared buffers. -/
def Link.write (s : Link) (pr : TxPriv) (data : Message) : Link :=
  { s with
    desc := (sendLoop (chunks data.length data) pr.pDesc s.desc s.shm).1
    shm := (sendLoop (chunks data.length data) pr.pDesc s.desc s.shm).2
    sender := .written data }

/-- The message is complete: `CMD` is written, and the call will return its length. -/
def Link.publish (s : Link) (pr : TxPriv) (data : Message) : Link :=
  { s.setWords pr cmdHead (s.head pr).sts with
    sender := .idle
    accepted := s.accepted ++ [data] }

/-- The sender goes on. -/
def Link.sendNext (s : Link) (pr : TxPriv) : Option Link :=
  match s.sender with
  | .idle => none
  | .checked data => (descReset descNum pr.pDesc s.desc).map (s.clear data)
  | .cleared data => some ((s.setWords pr (s.head pr).cmd cmdHead).setSender (.marked data))
  | .marked data => some (s.write pr data)
  | .written data => some (s.publish pr data)

/-! ## The receiving core -/

/-- `memcpy` to the start of a buffer -/
def copyBuf (old data : Message) : Message := data ++ old.drop data.length

/-- The handler has found `VRING_DESC_CMD_HEAD`. -/
def Link.take (s : Link) (pr : TxPriv) : Link :=
  (s.setWords pr 0 stsReading).setHandler (.taken (s.head pr).cmd)

/-- The copy of `ma35_rpmsg_receive`, into the buffer at `poolid`. -/
def Link.copy (s : Link) (cmd : BitVec 8) (m : Message) : Link :=
  { s with
    rxpool := Function.update s.rxpool s.poolid (copyBuf (s.rxpool s.poolid) m)
    handler := .copied cmd m.length }

/-- The end of `ma35_rpmsg_receive`. -/
def Link.enqueue (s : Link) (pr : TxPriv) (cmd : BitVec 8) (rxlen : Nat) : Link :=
  if s.queue.length < rxbufQueueSize then
    { s.setWords pr (s.head pr).cmd stsAck with
      queue := s.queue ++ [⟨s.poolid, rxlen, cmd⟩]
      poolid := if rxbufPoolSize ≤ s.poolid + 1 then 0 else s.poolid + 1
      handler := .idle }
  else (s.setWords pr (s.head pr).cmd stsErr).setHandler .idle

/-- The handler goes on. -/
def Link.irqNext (s : Link) (pr : TxPriv) : Option Link :=
  match s.handler with
  | .idle => some (if (s.head pr).cmd &&& cmdHead ≠ 0 then s.take pr else s)
  | .taken cmd => (s.read pr).map (s.copy cmd)
  | .copied cmd rxlen => some (s.enqueue pr cmd rxlen)

/-- What the callback is given. -/
def Link.message (s : Link) (e : RxbufQueue) : Message := (s.rxpool e.rxbuf).take e.len

/-- `xQueueReceive`; an entry that is not a message ends the poll. -/
def Link.dequeue (s : Link) : Link :=
  match s.queue with
  | [] => s
  | e :: queue =>
    { s with queue, poller := if e.cmd &&& cmdHead ≠ 0 then .calling e else .idle }

def Link.call (s : Link) (e : RxbufQueue) : Link :=
  { s with delivered := s.delivered ++ [s.message e], poller := .called }

/-- The poll goes on. -/
def Link.pollNext (s : Link) (pr : TxPriv) : Link :=
  match s.poller with
  | .idle => s.dequeue
  | .calling e => s.call e
  | .called => s.setPoller (if s.queue.length < rxbufQueueSize then .acking else .idle)
  | .acking => (s.setWords pr (s.head pr).cmd stsAck).setPoller .idle

/-! ## Runs -/

inductive LinkEvent
  | send (data : Message)
  | sendNext
  | irq
  | poll
  deriving DecidableEq

def linkStep (pr : TxPriv) (s : Link) : LinkEvent → Option Link
  | .send data =>
    if s.sender = .idle then
      match sendCheck pr (s.head pr).sts data.length with
      | .error _ => some s
      | .ok () => some (s.setSender (.checked data))
    else none
  | .sendNext => s.sendNext pr
  | .irq => s.irqNext pr
  -- the handler preempts the task
  | .poll => if s.handler = .idle then some (s.pollNext pr) else none

/-- A message is in the descriptors and the handler has not queued it yet. -/
def Link.published (s : Link) (pr : TxPriv) : Prop :=
  (s.head pr).cmd &&& cmdHead ≠ 0 ∨ s.handler ≠ .idle

instance (s : Link) (pr : TxPriv) : Decidable (s.published pr) := by
  unfold Link.published
  infer_instance

def Link.inDesc (s : Link) (pr : TxPriv) : List Message :=
  if s.published pr then (s.read pr).toList else []

/-- The entries taken over from the handler that the callback has not been given. -/
def Link.held (s : Link) : List RxbufQueue :=
  match s.poller with
  | .calling e => e :: s.queue
  | _ => s.queue

/-- What the link should promise in every state. -/
structure LinkLaw (pr : TxPriv) (s : Link) : Prop where
  inOrder : s.delivered <+: s.accepted
  rest : s.accepted = s.delivered ++ (s.held.map s.message ++ s.inDesc pr)

/-- The handler takes a message while the queue has a place for it, and the poll's ACK does
not fall on a message that is being written or waits to be taken. -/
def LinkKept (pr : TxPriv) (s : Link) : LinkEvent → Prop
  | .irq => s.handler = .idle → (s.head pr).cmd &&& cmdHead ≠ 0 → s.queue.length < rxbufQueueSize
  | .poll => match s.poller with
    | .acking => (s.head pr).sts &&& stsReading = 0
    | _ => True
  | _ => True

instance (pr : TxPriv) (s : Link) : (e : LinkEvent) → Decidable (LinkKept pr s e)
  | .send _ => .isTrue trivial
  | .sendNext => .isTrue trivial
  | .irq => inferInstanceAs (Decidable (_ → _ → _))
  | .poll =>
    match h : s.poller with
    | .acking => decidable_of_iff ((s.head pr).sts &&& stsReading = 0) (by simp only [LinkKept, h])
    | .idle | .calling _ | .called => .isTrue (by simp only [LinkKept, h])

/-- Two bound endpoints that have not sent anything yet. -/
def linkStart (desc : Descs) (shm : Shmem) : Link :=
  { desc, shm, sender := .idle, handler := .idle, poller := .idle, queue := []
    rxpool := fun _ => [], poolid := 0, accepted := [], delivered := [] }

/-- The transmit endpoint has a chain of as many descriptors as its size needs. -/
structure Bound (pr : TxPriv) (desc : Descs) (l : List Nat) : Prop where
  chain : Chain desc pr.pDesc l
  own : OwnBuffers desc l
  length : l.length = descReq pr.availableLen
  ne : l ≠ []
  lt : ∀ i ∈ l, i < descNum
  cmd : (desc (descAt pr.pDesc)).cmd &&& cmdHead = 0

/-! ## The invariant -/

/-- What the sender has established on its way through the call. -/
def SenderInv (pr : TxPriv) (l : List Nat) (s : Link) : Prop :=
  match s.sender with
  | .idle => True
  | .checked data => data.length ≤ pr.availableLen
  | .cleared data => data.length ≤ pr.availableLen ∧ ∀ i ∈ l, (s.desc i).len = 0
  | .marked data => data.length ≤ pr.availableLen ∧ (∀ i ∈ l, (s.desc i).len = 0) ∧
      (s.head pr).sts &&& stsReading ≠ 0
  | .written data => s.read pr = some data ∧ (s.head pr).sts &&& stsReading ≠ 0

/-- What the handler has established on its way through a message. -/
def HandlerInv (pr : TxPriv) (s : Link) : Prop :=
  match s.handler with
  | .idle => True
  | .taken cmd => cmd &&& cmdHead ≠ 0
  | .copied cmd rxlen => cmd &&& cmdHead ≠ 0 ∧
      ∃ m, s.read pr = some m ∧ rxlen = m.length ∧ (s.rxpool s.poolid).take rxlen = m

structure LinkInv (pr : TxPriv) (l : List Nat) (s : Link) : Prop where
  chain : Chain s.desc pr.pDesc l
  own : OwnBuffers s.desc l
  sender : SenderInv pr l s
  handler : HandlerInv pr s
  /-- the sender writes only while no message is published -/
  quiet : s.sender ≠ .idle → ¬ s.published pr
  /-- a published message keeps the sender out -/
  mark : s.published pr → (s.head pr).sts &&& stsReading ≠ 0
  whole : s.published pr → s.read pr ≠ none
  busy : s.handler ≠ .idle → (s.head pr).cmd &&& cmdHead = 0
  room : s.handler ≠ .idle → s.queue.length < rxbufQueueSize
  cmds : ∀ e ∈ s.queue, e.cmd &&& cmdHead ≠ 0
  cap : s.queue.length ≤ rxbufQueueSize
  ring : ∃ c, s.held.map RxbufQueue.rxbuf = places rxbufPoolSize c s.held.length ∧
    s.poolid = (c + s.held.length) % rxbufPoolSize
  rest : s.accepted = s.delivered ++ (s.held.map s.message ++ s.inDesc pr)

section Delivery

variable {pr : TxPriv} {l : List Nat} {s t : Link} {data m : Message} {cmd sts : BitVec 8}
  {e : LinkEvent} {desc : Descs} {shm : Shmem}

theorem LinkInv.law (h : LinkInv pr l s) : LinkLaw pr s :=
  ⟨⟨_, h.rest.symm⟩, h.rest⟩

@[simp] theorem setWords_head : (s.setWords pr cmd sts).head pr = { s.head pr with cmd, sts } :=
  Function.update_self _ _ _

/-- The words change neither the chain nor the message in it. -/
theorem setWords_fields (i : Nat) : ((s.setWords pr cmd sts).desc i).len = (s.desc i).len ∧
    ((s.setWords pr cmd sts).desc i).nxtOffset = (s.desc i).nxtOffset ∧
    ((s.setWords pr cmd sts).desc i).bufOffset = (s.desc i).bufOffset := by
  simp only [Link.setWords]
  by_cases hi : i = descAt pr.pDesc
  · rw [hi, Function.update_self]
    exact ⟨rfl, rfl, rfl⟩
  · rw [Function.update_of_ne hi]
    exact ⟨rfl, rfl, rfl⟩

@[simp] theorem setWords_read : (s.setWords pr cmd sts).read pr = s.read pr :=
  readChain_congr setWords_fields

theorem LinkInv.chain_setWords (h : LinkInv pr l s) :
    Chain (s.setWords pr cmd sts).desc pr.pDesc l :=
  h.chain.congr fun i _ => (setWords_fields i).2.1.symm

theorem LinkInv.own_setWords (h : LinkInv pr l s) : OwnBuffers (s.setWords pr cmd sts).desc l :=
  fun i hi => (setWords_fields i).2.2.trans (h.own i hi)

theorem inDesc_of_published (h : s.published pr) (hm : s.read pr = some m) : s.inDesc pr = [m] := by
  unfold Link.inDesc
  rw [if_pos h, hm]
  rfl

theorem inDesc_of_not (h : ¬ s.published pr) : s.inDesc pr = [] := if_neg h

/-- The callback and the queue hold fewer buffers than there are while the queue has room. -/
theorem LinkInv.not_held (h : LinkInv pr l s) (hroom : s.queue.length < rxbufQueueSize) :
    s.poolid ∉ s.held.map RxbufQueue.rxbuf := by
  obtain ⟨c, hids, hpool⟩ := h.ring
  have hlen : s.held.length < rxbufPoolSize := by
    unfold Link.held rxbufPoolSize
    split
    · rw [List.length_cons]
      omega
    · omega
  rw [hids, hpool]
  exact not_mem_places c hlen

theorem LinkInv.handler_idle (h : LinkInv pr l s) (hs : s.sender ≠ .idle) : s.handler = .idle := by
  by_contra hne
  exact h.quiet hs (.inr hne)

/-! ## Sending -/

theorem sendCheck_ok {len : Nat} (h : sendCheck pr sts len = .ok ()) :
    len ≤ pr.availableLen ∧ sts &&& stsReading = 0 := by
  have hbit : ∀ x : BitVec 8, x &&& (stsReading ||| stsErr) = 0 → x &&& stsReading = 0 := by
    decide
  unfold sendCheck at h
  split at h
  · exact absurd h (by simp)
  split at h
  · exact absurd h (by simp)
  split at h
  · exact absurd h (by simp)
  split at h
  · exact absurd h (by simp)
  · rename_i hlen _ _ hsts
    exact ⟨Nat.not_lt.1 hlen, hbit sts (not_not.1 hsts)⟩

theorem LinkInv.send (h : LinkInv pr l s)
    (hok : sendCheck pr (s.head pr).sts data.length = .ok ()) :
    LinkInv pr l (s.setSender (.checked data)) := by
  obtain ⟨hlen, hsts⟩ := sendCheck_ok hok
  exact { h with
    sender := hlen
    -- a published message would show in STS
    quiet := fun _ hpub => h.mark hpub hsts }

/-- The descriptors and buffers that the sender has changed. -/
def Link.rewritten (s : Link) (desc : Descs) (shm : Shmem) (w : Sender) : Link :=
  { s with desc, shm, sender := w }

/-- While it is at work no message is published, so it may change what a message consists of. -/
theorem LinkInv.rewritten (h : LinkInv pr l s) (hs : s.sender ≠ .idle) (desc : Descs)
    (shm : Shmem) (w : Sender) (hchain : Chain desc pr.pDesc l) (hown : OwnBuffers desc l)
    (hcmd : (desc (descAt pr.pDesc)).cmd &&& cmdHead = 0)
    (hsender : SenderInv pr l (s.rewritten desc shm w)) :
    LinkInv pr l (s.rewritten desc shm w) := by
  have hidle := h.handler_idle hs
  have hnot : ¬ (s.rewritten desc shm w).published pr := by
    rintro (hp | hp)
    · exact hp hcmd
    · exact hp hidle
  have hrest := h.rest
  rw [inDesc_of_not (h.quiet hs)] at hrest
  exact {
    chain := hchain
    own := hown
    sender := hsender
    handler := by
      have hidle' : (s.rewritten desc shm w).handler = .idle := hidle
      simp only [HandlerInv, hidle']
    quiet := fun _ => hnot
    mark := fun hp => absurd hp hnot
    whole := fun hp => absurd hp hnot
    busy := fun hne => absurd hidle hne
    room := fun hne => absurd hidle hne
    cmds := h.cmds
    cap := h.cap
    ring := h.ring
    rest := by
      rw [inDesc_of_not hnot]
      exact hrest }

theorem LinkInv.cmd_quiet (h : LinkInv pr l s) (hs : s.sender ≠ .idle) :
    (s.head pr).cmd &&& cmdHead = 0 := by
  by_contra hne
  exact h.quiet hs (.inl hne)

theorem LinkInv.clear (h : LinkInv pr l s) (hl : l ≠ []) (hlt : l.length ≤ descNum)
    (hs : s.sender = .checked data) (ht : s.sendNext pr = some t) : LinkInv pr l t := by
  have hsender := h.sender
  unfold SenderInv at hsender
  unfold Link.sendNext at ht
  simp only [hs, descReset_chain h.chain hl hlt, Option.map_some, Option.some.injEq] at ht hsender
  rw [← ht]
  have hmem : descAt pr.pDesc ∈ l := by
    obtain ⟨i, l, rfl⟩ := List.exists_cons_of_ne_nil hl
    rw [h.chain.1, descAt_descOffset]
    exact List.mem_cons_self
  refine h.rewritten (by rw [hs]; exact Sender.noConfusion) _ s.shm (.cleared data)
    (h.chain.congr fun i hi => ?_) (fun i hi => ?_) ?_ ⟨hsender, fun i hi => ?_⟩
  · rw [if_pos hi]
    rfl
  · rw [if_pos hi]
    exact h.own i hi
  · rw [if_pos hmem]
    exact BitVec.zero_and
  · show RscDesc.len (if i ∈ l then resetDesc (s.desc i) else s.desc i) = 0
    rw [if_pos hi]
    rfl

theorem LinkInv.markWriting (h : LinkInv pr l s) (hs : s.sender = .cleared data) :
    LinkInv pr l ((s.setWords pr (s.head pr).cmd cmdHead).setSender (.marked data)) := by
  have hne : s.sender ≠ .idle := by rw [hs]; exact Sender.noConfusion
  obtain ⟨hlen, hclear⟩ : data.length ≤ pr.availableLen ∧ ∀ i ∈ l, (s.desc i).len = 0 := by
    have hsender := h.sender
    simpa only [SenderInv, hs] using hsender
  refine h.rewritten hne (s.setWords pr (s.head pr).cmd cmdHead).desc s.shm (.marked data)
    h.chain_setWords h.own_setWords ?_ ⟨hlen, fun i hi => ?_, ?_⟩
  · show ((s.setWords pr (s.head pr).cmd cmdHead).head pr).cmd &&& cmdHead = 0
    rw [setWords_head]
    exact h.cmd_quiet hne
  · exact (setWords_fields i).1.trans (hclear i hi)
  · show ((s.setWords pr (s.head pr).cmd cmdHead).head pr).sts &&& stsReading ≠ 0
    rw [setWords_head]
    exact (by decide : cmdHead &&& stsReading ≠ 0)

theorem LinkInv.write (h : LinkInv pr l s) (hl : l ≠ []) (hlt : l.length ≤ descNum)
    (hlen : l.length = descReq pr.availableLen) (hs : s.sender = .marked data) :
    LinkInv pr l (s.write pr data) := by
  have hne : s.sender ≠ .idle := by rw [hs]; exact Sender.noConfusion
  obtain ⟨hdata, hclear, hmark⟩ : data.length ≤ pr.availableLen ∧
      (∀ i ∈ l, (s.desc i).len = 0) ∧ (s.head pr).sts &&& stsReading ≠ 0 := by
    have hsender := h.sender
    simpa only [SenderInv, hs] using hsender
  have hsame := sendLoop_same (chunks data.length data) pr.pDesc s.desc s.shm
  have hpieces : (chunks data.length data).length ≤ l.length := by
    rw [length_chunks (Nat.le_refl _), hlen, descReq_eq]
    exact Nat.div_le_div_right (Nat.add_le_add_right hdata _)
  refine h.rewritten hne _ _ (.written data) (h.chain.congr fun i _ => ?_) (fun i hi => ?_) ?_
    ⟨?_, ?_⟩
  · rw [hsame]
  · rw [hsame]
    exact h.own i hi
  · rw [hsame]
    exact h.cmd_quiet hne
  · show readChain _ _ (sendLoop (chunks data.length data) pr.pDesc s.desc s.shm).1
      (sendLoop (chunks data.length data) pr.pDesc s.desc s.shm).2 = some data
    rw [readChain_sendLoop h.chain hl h.own hclear hpieces (fun _ hc => mem_chunks hc) hlt,
      flatten_chunks (Nat.le_refl _)]
  · show (RscDesc.sts ((sendLoop (chunks data.length data) pr.pDesc s.desc s.shm).1
      (descAt pr.pDesc))) &&& stsReading ≠ 0
    rw [hsame]
    exact hmark

theorem LinkInv.publish (h : LinkInv pr l s) (hs : s.sender = .written data) :
    LinkInv pr l (s.publish pr data) := by
  have hne : s.sender ≠ .idle := by rw [hs]; exact Sender.noConfusion
  obtain ⟨hread, hmark⟩ : s.read pr = some data ∧ (s.head pr).sts &&& stsReading ≠ 0 := by
    have hsender := h.sender
    simpa only [SenderInv, hs] using hsender
  have hhead : (s.publish pr data).head pr = { s.head pr with cmd := cmdHead } := setWords_head
  have hread' : (s.publish pr data).read pr = some data := setWords_read.trans hread
  have hpub : (s.publish pr data).published pr := by
    refine .inl ?_
    rw [hhead]
    exact (by decide : cmdHead &&& cmdHead ≠ 0)
  have hidle := h.handler_idle hne
  have hrest := h.rest
  rw [inDesc_of_not (h.quiet hne)] at hrest
  exact {
    chain := h.chain_setWords
    own := h.own_setWords
    sender := trivial
    handler := by
      have hidle' : (s.publish pr data).handler = .idle := hidle
      simp only [HandlerInv, hidle']
    quiet := fun hne' => absurd rfl hne'
    mark := fun _ => by rw [hhead]; exact hmark
    whole := fun _ => by rw [hread']; exact Option.some_ne_none _
    busy := fun hne' => absurd hidle hne'
    room := fun hne' => absurd hidle hne'
    cmds := h.cmds
    cap := h.cap
    ring := h.ring
    rest := by
      rw [inDesc_of_published hpub hread']
      show s.accepted ++ [data] = s.delivered ++ (s.held.map s.message ++ [data])
      rw [hrest, List.append_nil, List.append_assoc] }

/-! ## Receiving -/

theorem LinkInv.sender_idle (h : LinkInv pr l s) (hp : s.published pr) : s.sender = .idle := by
  by_contra hne
  exact h.quiet hne hp

theorem LinkInv.take (h : LinkInv pr l s) (hcmd : (s.head pr).cmd &&& cmdHead ≠ 0)
    (hroom : s.queue.length < rxbufQueueSize) : LinkInv pr l (s.take pr) := by
  have hpub : s.published pr := .inl hcmd
  have hidle := h.sender_idle hpub
  obtain ⟨m, hm⟩ := Option.ne_none_iff_exists'.mp (h.whole hpub)
  have hhead : (s.take pr).head pr = { s.head pr with cmd := 0, sts := stsReading } := setWords_head
  have hread : (s.take pr).read pr = some m := setWords_read.trans hm
  have hpub' : (s.take pr).published pr := .inr Handler.noConfusion
  exact {
    chain := h.chain_setWords
    own := h.own_setWords
    sender := by
      have hidle' : (s.take pr).sender = .idle := hidle
      simp only [SenderInv, hidle']
    handler := hcmd
    quiet := fun hne => absurd hidle hne
    mark := fun _ => by rw [hhead]; exact (by decide : stsReading &&& stsReading ≠ 0)
    whole := fun _ => by rw [hread]; exact Option.some_ne_none m
    busy := fun _ => by rw [hhead]; exact BitVec.zero_and
    room := fun _ => hroom
    cmds := h.cmds
    cap := h.cap
    ring := h.ring
    rest := by
      have hrest := h.rest
      rw [inDesc_of_published hpub hm] at hrest
      rw [inDesc_of_published hpub' hread]
      exact hrest }

theorem take_copyBuf (old data : Message) : (copyBuf old data).take data.length = data :=
  List.take_left

theorem LinkInv.copy (h : LinkInv pr l s) (hs : s.handler = .taken cmd) (hm : s.read pr = some m) :
    LinkInv pr l (s.copy cmd m) := by
  have hbusy : s.handler ≠ .idle := by rw [hs]; exact Handler.noConfusion
  have hpub : s.published pr := .inr hbusy
  have hpub' : (s.copy cmd m).published pr := .inr Handler.noConfusion
  have hcmd : cmd &&& cmdHead ≠ 0 := by
    have hhandler := h.handler
    simpa only [HandlerInv, hs] using hhandler
  have hnot := h.not_held (h.room hbusy)
  -- the buffer that is written belongs to no entry
  have hmsg : s.held.map (s.copy cmd m).message = s.held.map s.message := by
    apply List.map_congr_left
    intro e he
    have hne : e.rxbuf ≠ s.poolid := fun heq => hnot (heq ▸ List.mem_map_of_mem he)
    simp only [Link.message, Link.copy, Function.update_of_ne hne]
  exact {
    chain := h.chain
    own := h.own
    sender := h.sender
    handler := by
      refine ⟨hcmd, m, hm, rfl, ?_⟩
      simp only [Link.copy, Function.update_self]
      exact take_copyBuf _ m
    quiet := fun hne => absurd (h.sender_idle hpub) hne
    mark := fun _ => h.mark hpub
    whole := fun _ => h.whole hpub
    busy := fun _ => h.busy hbusy
    room := fun _ => h.room hbusy
    cmds := h.cmds
    cap := h.cap
    ring := h.ring
    rest := by
      have hrest := h.rest
      rw [inDesc_of_published hpub hm] at hrest
      rw [inDesc_of_published hpub' hm]
      show s.accepted = s.delivered ++ (s.held.map (s.copy cmd m).message ++ [m])
      rw [hmsg]
      exact hrest }

/-- The state after a message was queued. -/
def Link.queued (s : Link) (pr : TxPriv) (cmd : BitVec 8) (rxlen : Nat) : Link :=
  { s.setWords pr (s.head pr).cmd stsAck with
    queue := s.queue ++ [⟨s.poolid, rxlen, cmd⟩]
    poolid := if rxbufPoolSize ≤ s.poolid + 1 then 0 else s.poolid + 1
    handler := .idle }

theorem held_queued (rxlen : Nat) :
    (s.queued pr cmd rxlen).held = s.held ++ [⟨s.poolid, rxlen, cmd⟩] := by
  unfold Link.held
  show (match s.poller with
    | .calling e => e :: (s.queue ++ [_])
    | _ => s.queue ++ [_]) = _
  cases s.poller <;> rfl

theorem LinkInv.enqueue {rxlen : Nat} (h : LinkInv pr l s) (hs : s.handler = .copied cmd rxlen) :
    LinkInv pr l (s.enqueue pr cmd rxlen) := by
  have hbusy : s.handler ≠ .idle := by rw [hs]; exact Handler.noConfusion
  have hpub : s.published pr := .inr hbusy
  have hidle := h.sender_idle hpub
  have hroom := h.room hbusy
  obtain ⟨hcmd, m, hm, hlen, hbuf⟩ : cmd &&& cmdHead ≠ 0 ∧
      ∃ m, s.read pr = some m ∧ rxlen = m.length ∧ (s.rxpool s.poolid).take rxlen = m := by
    have hhandler := h.handler
    simpa only [HandlerInv, hs] using hhandler
  rw [show s.enqueue pr cmd rxlen = s.queued pr cmd rxlen from if_pos hroom]
  have hhead : (s.queued pr cmd rxlen).head pr = { s.head pr with sts := stsAck } := setWords_head
  have hnot : ¬ (s.queued pr cmd rxlen).published pr := by
    rintro (hp | hp)
    · rw [hhead] at hp
      exact hp (h.busy hbusy)
    · exact hp rfl
  exact {
    chain := h.chain_setWords
    own := h.own_setWords
    sender := by
      have hidle' : (s.queued pr cmd rxlen).sender = .idle := hidle
      simp only [SenderInv, hidle']
    handler := trivial
    quiet := fun hne => absurd hidle hne
    mark := fun hp => absurd hp hnot
    whole := fun hp => absurd hp hnot
    busy := fun hne => absurd rfl hne
    room := fun hne => absurd rfl hne
    cmds := by
      intro e he
      rcases List.mem_append.mp he with he | he
      · exact h.cmds e he
      · rw [List.mem_singleton.mp he]
        exact hcmd
    cap := by
      show (s.queue ++ [_]).length ≤ rxbufQueueSize
      rw [List.length_append, List.length_singleton]
      exact hroom
    ring := by
      obtain ⟨c, hids, hpool⟩ := h.ring
      have hlt : s.poolid < rxbufPoolSize := hpool ▸ Nat.mod_lt _ (by decide)
      refine ⟨c, ?_, ?_⟩
      · rw [held_queued, List.map_append, List.length_append, List.length_singleton, places_succ,
          hids, ← hpool]
        rfl
      · show (if rxbufPoolSize ≤ s.poolid + 1 then 0 else s.poolid + 1) = _
        rw [wrap_eq_next hlt, hpool, next_mod (by decide), held_queued, List.length_append,
          List.length_singleton, Nat.add_assoc]
    rest := by
      have hrest := h.rest
      rw [inDesc_of_published hpub hm] at hrest
      rw [inDesc_of_not hnot, held_queued, List.map_append, List.map_singleton, List.append_nil]
      show s.accepted = s.delivered ++ (s.held.map s.message ++ [(s.rxpool s.poolid).take rxlen])
      rw [hbuf]
      exact hrest }

/-! ## Polling -/

/-- A step of the poll that leaves the descriptors alone. -/
theorem LinkInv.polled (h : LinkInv pr l s) (p : Poller) (queue : List RxbufQueue)
    (hheld : ({ s with queue, poller := p } : Link).held = s.held) (hsub : queue ⊆ s.queue)
    (hlen : queue.length ≤ s.queue.length) :
    LinkInv pr l { s with queue, poller := p } :=
  { h with
    room := fun hne => Nat.lt_of_le_of_lt hlen (h.room hne)
    cmds := fun e he => h.cmds e (hsub he)
    cap := Nat.le_trans hlen h.cap
    ring := by rw [hheld]; exact h.ring
    rest := by rw [hheld]; exact h.rest }

theorem LinkInv.dequeue (h : LinkInv pr l s) (hs : s.poller = .idle) : LinkInv pr l s.dequeue := by
  unfold Link.dequeue
  cases hq : s.queue with
  | nil => exact h
  | cons e queue =>
    have hcmd := h.cmds e (by rw [hq]; exact List.mem_cons_self)
    simp only [if_pos hcmd]
    refine h.polled (.calling e) queue ?_ ?_ ?_
    · simp only [Link.held, hs, hq]
    · rw [hq]
      exact List.subset_cons_self e queue
    · rw [hq]
      exact Nat.le_succ _

theorem LinkInv.call {e : RxbufQueue} (h : LinkInv pr l s) (hs : s.poller = .calling e) :
    LinkInv pr l (s.call e) := by
  have hheld : s.held = e :: s.queue := by simp only [Link.held, hs]
  exact { h with
    ring := by
      obtain ⟨c, hids, hpool⟩ := h.ring
      rw [hheld, List.length_cons, places_cons, List.map_cons, List.cons.injEq] at hids
      refine ⟨c + 1, hids.2, ?_⟩
      rw [hheld, List.length_cons] at hpool
      show s.poolid = (c + 1 + s.queue.length) % rxbufPoolSize
      rw [hpool, Nat.add_assoc, Nat.add_comm 1]
    rest := by
      have hrest := h.rest
      rw [hheld, List.map_cons] at hrest
      show s.accepted = s.delivered ++ [s.message e] ++ (s.queue.map s.message ++ s.inDesc pr)
      rw [hrest, List.append_assoc]
      rfl }

theorem LinkInv.ack (h : LinkInv pr l s) (hs : s.poller = .acking)
    (hsts : (s.head pr).sts &&& stsReading = 0) :
    LinkInv pr l ((s.setWords pr (s.head pr).cmd stsAck).setPoller .idle) := by
  have hnot : ¬ s.published pr := fun hp => h.mark hp hsts
  have hidle : s.handler = .idle := by
    by_contra hne
    exact hnot (.inr hne)
  have hnot' : ¬ ((s.setWords pr (s.head pr).cmd stsAck).setPoller .idle).published pr := by
    rintro (hp | hp)
    · apply hnot
      refine .inl ?_
      have hhead : ((s.setWords pr (s.head pr).cmd stsAck).setPoller .idle).head pr =
        { s.head pr with sts := stsAck } := setWords_head
      rw [hhead] at hp
      exact hp
    · exact hp hidle
  have hheld : ((s.setWords pr (s.head pr).cmd stsAck).setPoller .idle).held = s.held := by
    simp only [Link.held, hs]
    rfl
  have hsender : SenderInv pr l ((s.setWords pr (s.head pr).cmd stsAck).setPoller .idle) := by
    have hsend : ((s.setWords pr (s.head pr).cmd stsAck).setPoller .idle).sender = s.sender := rfl
    have hold := h.sender
    unfold SenderInv at hold ⊢
    rw [hsend]
    cases hw : s.sender with
    | idle => trivial
    | checked data =>
      rw [hw] at hold
      exact hold
    | cleared data =>
      rw [hw] at hold
      exact ⟨hold.1, fun i hi => (setWords_fields i).1.trans (hold.2 i hi)⟩
    | marked data =>
      rw [hw] at hold
      exact absurd hsts hold.2.2
    | written data =>
      rw [hw] at hold
      exact absurd hsts hold.2
  exact {
    chain := h.chain_setWords
    own := h.own_setWords
    sender := hsender
    handler := by
      have hidle' : ((s.setWords pr (s.head pr).cmd stsAck).setPoller .idle).handler = .idle :=
        hidle
      simp only [HandlerInv, hidle']
    quiet := fun _ => hnot'
    mark := fun hp => absurd hp hnot'
    whole := fun hp => absurd hp hnot'
    busy := fun hne => absurd hidle hne
    room := fun hne => absurd hidle hne
    cmds := h.cmds
    cap := h.cap
    ring := by rw [hheld]; exact h.ring
    rest := by
      have hrest := h.rest
      rw [inDesc_of_not hnot] at hrest
      rw [inDesc_of_not hnot', hheld]
      exact hrest }

/-! ## Steps -/

theorem LinkInv.sendNext (h : LinkInv pr l s) (hl : l ≠ []) (hlt : l.length ≤ descNum)
    (hlen : l.length = descReq pr.availableLen) (ht : s.sendNext pr = some t) : LinkInv pr l t := by
  cases hs : s.sender with
  | idle => simp [Link.sendNext, hs] at ht
  | checked data => exact h.clear hl hlt hs ht
  | cleared data =>
    simp only [Link.sendNext, hs, Option.some.injEq] at ht
    rw [← ht]
    exact h.markWriting hs
  | marked data =>
    simp only [Link.sendNext, hs, Option.some.injEq] at ht
    rw [← ht]
    exact h.write hl hlt hlen hs
  | written data =>
    simp only [Link.sendNext, hs, Option.some.injEq] at ht
    rw [← ht]
    exact h.publish hs

theorem LinkInv.irqNext (h : LinkInv pr l s) (hk : LinkKept pr s .irq)
    (ht : s.irqNext pr = some t) : LinkInv pr l t := by
  cases hs : s.handler with
  | idle =>
    simp only [Link.irqNext, hs, Option.some.injEq] at ht
    rw [← ht]
    split
    · rename_i hcmd
      exact h.take hcmd (hk hs hcmd)
    · exact h
  | taken cmd =>
    simp only [Link.irqNext, hs] at ht
    obtain ⟨m, hm, rfl⟩ := Option.map_eq_some_iff.mp ht
    exact h.copy hs hm
  | copied cmd rxlen =>
    simp only [Link.irqNext, hs, Option.some.injEq] at ht
    rw [← ht]
    exact h.enqueue hs

theorem LinkInv.pollNext (h : LinkInv pr l s) (hk : LinkKept pr s .poll) :
    LinkInv pr l (s.pollNext pr) := by
  unfold Link.pollNext
  cases hs : s.poller with
  | idle => exact h.dequeue hs
  | calling e => exact h.call hs
  | called =>
    simp only
    refine h.polled _ s.queue ?_ (List.Subset.refl _) (Nat.le_refl _)
    by_cases hroom : s.queue.length < rxbufQueueSize
    · simp only [Link.held, hs, if_pos hroom]
    · simp only [Link.held, hs, if_neg hroom]
  | acking =>
    simp only [LinkKept, hs] at hk
    exact h.ack hs hk

theorem linkStep_inv (h : LinkInv pr l s) (hl : l ≠ []) (hlt : l.length ≤ descNum)
    (hlen : l.length = descReq pr.availableLen) (hk : LinkKept pr s e)
    (ht : linkStep pr s e = some t) : LinkInv pr l t := by
  cases e with
  | send data =>
    obtain ⟨hidle, ht⟩ := Option.ite_none_right_eq_some.mp ht
    cases hcheck : sendCheck pr (s.head pr).sts data.length with
    | error e =>
      simp only [hcheck, Option.some.injEq] at ht
      exact ht ▸ h
    | ok u =>
      simp only [hcheck, Option.some.injEq] at ht
      exact ht ▸ h.send hcheck
  | sendNext => exact h.sendNext hl hlt hlen ht
  | irq => exact h.irqNext hk ht
  | poll =>
    obtain ⟨-, ht⟩ := Option.ite_none_right_eq_some.mp ht
    exact Option.some.inj ht ▸ h.pollNext hk

theorem linkStart_inv (h : Bound pr desc l) : LinkInv pr l (linkStart desc shm) := by
  have hnot : ¬ (linkStart desc shm).published pr := by
    rintro (hp | hp)
    · exact hp h.cmd
    · exact hp rfl
  exact {
    chain := h.chain
    own := h.own
    sender := trivial
    handler := trivial
    quiet := fun hne => absurd rfl hne
    mark := fun hp => absurd hp hnot
    whole := fun hp => absurd hp hnot
    busy := fun hne => absurd rfl hne
    room := fun hne => absurd rfl hne
    cmds := fun _ he => absurd he List.not_mem_nil
    cap := Nat.zero_le _
    ring := ⟨0, rfl, rfl⟩
    rest := by
      rw [inDesc_of_not hnot]
      rfl }

end Delivery

/-- As long as the handler finds room in the queue and no ACK falls on a message under way,
what the callback was given and what is still to come are the messages accepted, in order. -/
theorem run_linkLaw {pr : TxPriv} {desc : Descs} {l : List Nat} (h : Bound pr desc l) (shm : Shmem)
    (es : List LinkEvent) (hk : EachStep (linkStep pr) (LinkKept pr) (linkStart desc shm) es) :
    Always (linkStep pr) (LinkLaw pr) (linkStart desc shm) es :=
  (always_of_eachStep (P := LinkInv pr l)
    (fun _ _ _ hs hk ht => linkStep_inv hs h.ne (length_le_descNum h.chain.nodup h.lt) h.length hk
      ht) (linkStart_inv h) hk).mono fun _ hs => hs.law

/-! ## Two runs -/

/-- An endpoint of one descriptor. -/
def onePriv : TxPriv := ⟨descTxbuf, 1, 0, descOffset 0, true, false⟩

/-- The descriptors once it is bound. -/
def oneBound : Descs := fun i =>
  if i = 0 then ⟨cmdClaim, stsBind, 0, 0, 0, zeroName⟩ else ⟨0, 0, 0, descTxbuf * i, 0, zeroName⟩

def sendAll (data : Message) : List LinkEvent := .send data :: List.replicate 4 .sendNext

/-- One message is sent and handed to the callback. -/
def oneMessage : List LinkEvent :=
  sendAll [1] ++ List.replicate 3 .irq ++ List.replicate 4 .poll

theorem oneBound_bound : Bound onePriv oneBound [0] :=
  ⟨⟨rfl, rfl⟩, by intro i hi; rw [List.mem_singleton.mp hi]; rfl, by decide, by decide,
    by decide, by decide⟩

theorem run_linkLaw_one :
    Always (linkStep onePriv) (LinkLaw onePriv) (linkStart oneBound fun _ => 0) oneMessage :=
  run_linkLaw oneBound_bound _ _ (by decide)

/-- The poll of the first message writes its ACK while the second waits to be taken, and the
third message is written over the second. -/
def lateAck : List LinkEvent :=
  sendAll [1] ++ List.replicate 3 .irq ++ List.replicate 3 .poll ++ sendAll [2] ++ [.poll] ++
    sendAll [3] ++ List.replicate 3 .irq ++ List.replicate 2 .poll

/-- Three messages are accepted, and the callback is given the first and the third. -/
theorem not_linkLaw_lateAck :
    ¬ Always (linkStep onePriv) (LinkLaw onePriv) (linkStart oneBound fun _ => 0) lateAck := by
  intro h
  have hrun : (run (linkStep onePriv) (linkStart oneBound fun _ => 0) lateAck).map (fun t =>
      (t.accepted, t.delivered)) = some ([[1], [2], [3]], [[1], [3]]) := by
    decide
  obtain ⟨t, ht, hvals⟩ := Option.map_eq_some_iff.mp hrun
  simp only [Prod.mk.injEq] at hvals
  have hprefix := (h.last ht).inOrder
  rw [hvals.1, hvals.2] at hprefix
  exact absurd hprefix (by decide)

end Ma35d1.Amp
