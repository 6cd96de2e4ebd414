import Ma35d1.Amp.TxPool

/-!
# What a step of the pool does to the other endpoints

Each operation of the transmit pool leaves the chains, descriptors and buffers of the endpoints
other than its own as they were. This holds in every run, also after a create that failed.
-/

namespace Ma35d1.Amp

section Others

variable {s t : TxPool} {chain : Nat → List Nat} {ept p : Nat} {pr : TxPriv} {name : Name}
  {size : Int} {mem nodeMem : Bool}

/-- The chains and descriptors of the endpoints other than `ept` are what they were. -/
structure OthersKept (s t : TxPool) (chain chain' : Nat → List Nat) (ept : Nat) : Prop where
  live : ∀ e, e ≠ ept → t.live e = s.live e
  chains : ∀ e, e ≠ ept → chain' e = chain e
  name : ∀ e, e ≠ ept → t.name e = s.name e
  size : ∀ e, e ≠ ept → t.size e = s.size e
  desc : ∀ i, i ∉ chain ept → i ∉ chain' ept → t.desc i = s.desc i
  shm : ∀ i, i ∉ chain ept → ∀ x, descTxbuf * i ≤ x → x < descTxbuf * (i + 1) → t.shm x = s.shm x

/-- Descriptor `i` is the head of the chain of the endpoint. -/
def TxPool.HeadOf (s : TxPool) (ept i : Nat) : Prop :=
  ∃ pr, s.live ept = some pr ∧ pr.pDesc = descOffset i

/-- A create that fails keeps the chains. -/
theorem createTxept_failed_kept (name : Name) (nodeMem : Bool) (h : PoolOk s chain) (hnone : s.priv ept = none)
    (hfail : ¬ (mem = true ∧ 0 < size ∧ descReq size.toNat ≤ s.avail)) :
    PoolOk (s.createTxept ept name size mem nodeMem).2 chain ∧
    OthersKept s (s.createTxept ept name size mem nodeMem).2 chain chain ept ∧
    (s.createTxept ept name size mem nodeMem).2.desc = s.desc ∧
    (s.createTxept ept name size mem nodeMem).2.live ept = none := by
  have hlive : s.live ept = none := by
    unfold TxPool.live
    rw [hnone]
    rfl
  have hept : s.createEpt ept name = { s with
      name := Function.update s.name ept (strncpyName name)
      endpoints := s.endpoints ++ [ept] } := if_pos h.ready
  have hname : ∀ e, e ≠ ept → Function.update s.name ept (strncpyName name) e = s.name e :=
    fun e he => Function.update_of_ne he _ _
  rcases createTxept_failed ept name nodeMem h.ready hfail with
    heq | heq | heq <;> rw [heq, hept]
  · exact ⟨⟨h.ready, h.alive, h.dead, h.inj, h.old, h.fresh, h.disjoint, h.lt, h.flags, h.free,
      h.buf⟩, ⟨fun _ _ => rfl, fun _ _ => rfl, hname, fun _ _ => rfl, fun _ _ _ => rfl,
      fun _ _ _ _ _ => rfl⟩,
      rfl, hlive⟩
  · exact ⟨⟨h.ready, h.alive, h.dead, h.inj, h.old, h.fresh, h.disjoint, h.lt, h.flags, h.free,
      h.buf⟩, ⟨fun _ _ => rfl, fun _ _ => rfl, hname, fun _ _ => rfl, fun _ _ _ => rfl,
      fun _ _ _ _ _ => rfl⟩,
      rfl, hlive⟩
  · rw [← hept]
    -- the `ept_priv` that was taken is freed again
    have hn : NewPriv s (((s.createEpt ept name).allocPriv ept).freePriv s.fresh) ept := by
      rw [hept]
      refine ⟨rfl, rfl, rfl, fun p hp => ?_, rfl, rfl⟩
      simp [TxPool.allocPriv, TxPool.freePriv, hp]
    have hgone : (((s.createEpt ept name).allocPriv ept).freePriv s.fresh).live ept = none := by
      simp [hept, TxPool.live, TxPool.allocPriv, TxPool.freePriv]
    have hdesc : (((s.createEpt ept name).allocPriv ept).freePriv s.fresh).desc = s.desc ∧
        (((s.createEpt ept name).allocPriv ept).freePriv s.fresh).bufFlag = s.bufFlag ∧
        (((s.createEpt ept name).allocPriv ept).freePriv s.fresh).size = s.size := by
      rw [hept]
      exact ⟨rfl, rfl, rfl⟩
    obtain ⟨hd, hf, hs⟩ := hdesc
    refine ⟨hn.ok h (fun e pr hpr => ?_) (fun e he => ?_) (fun p hp => ?_) h.disjoint h.lt
      (fun i hi => by rw [hf]; exact h.flags i hi)
      (fun i hi hfree => by rw [hd]; exact h.free i hi (by rw [← hf]; exact hfree))
      (fun i hi => by rw [hd]; exact h.buf i hi),
      ⟨fun e he => hn.live_other h he, fun _ _ => rfl, by rw [hept]; exact hname,
        fun _ _ => by rw [hs], fun _ _ _ => by rw [hd], fun _ _ _ _ _ => by rw [hept]; rfl⟩, hd,
      hgone⟩
    · by_cases he : e = ept
      · rw [he, hgone] at hpr
        exact absurd hpr (by simp)
      · rw [hn.live_other h he] at hpr
        rw [hd, hs]
        exact h.alive e pr hpr
    · by_cases hee : e = ept
      · rw [hee]
        exact h.dead ept hlive
      · rw [hn.live_other h hee] at he
        exact h.dead e he
    · rw [hn.heap p (Nat.ne_of_gt hp)]
      exact h.fresh p (Nat.le_of_lt hp)

/-- A name that has been copied is copied as it is. -/
theorem strncpyName_idem (name : Name) : strncpyName (strncpyName name) = strncpyName name := by
  have hcopy : ∀ l : Name, (∀ c ∈ l, c ≠ 0) → l.length ≤ noNameService →
      strncpyName (l ++ List.replicate (noNameService - l.length) 0) =
        l ++ List.replicate (noNameService - l.length) 0 := by
    intro l hl hlen
    have htake : (l ++ List.replicate (noNameService - l.length) 0).takeWhile (· ≠ 0) = l := by
      rw [List.takeWhile_append_of_pos (by simpa using hl)]
      cases noNameService - l.length with
      | zero => simp
      | succ n => simp [List.replicate_succ]
    unfold strncpyName
    simp only [htake, List.take_of_length_le hlen]
  apply hcopy
  · intro c hc
    have hall : (name.takeWhile (· ≠ 0)).all (· ≠ 0) = true := List.all_takeWhile
    simpa using List.all_eq_true.mp hall c (List.mem_of_mem_take hc)
  · exact List.length_take_le _ _

theorem setPriv_live_other {e : Nat} {pr' : TxPriv} (he : s.priv e ≠ some p) :
    (s.setPriv p pr').live e = s.live e := by
  unfold TxPool.live
  show (s.priv e).bind (Function.update s.heap p (some pr')) = (s.priv e).bind s.heap
  cases hq : s.priv e with
  | none => rfl
  | some q =>
    have hqp : q ≠ p := fun hqp => he (hqp ▸ hq)
    exact Function.update_of_ne hqp _ _

theorem setPriv_live_self {pr' : TxPriv} (hp : s.priv ept = some p) :
    (s.setPriv p pr').live ept = some pr' :=
  live_some.2 ⟨p, hp, Function.update_self _ _ _⟩

/-- Adding a node touches the endpoint's `ept_priv` only. -/
theorem addNode_fields (s : TxPool) (ept p : Nat) (pr : TxPriv) (mem : Bool) :
    (s.addNode ept p pr mem).desc = s.desc ∧ (s.addNode ept p pr mem).shm = s.shm ∧
    (s.addNode ept p pr mem).name = s.name ∧ (s.addNode ept p pr mem).priv = s.priv ∧
    (s.addNode ept p pr mem).size = s.size ∧
    ∀ e, s.priv e ≠ some p → (s.addNode ept p pr mem).live e = s.live e := by
  unfold TxPool.addNode
  cases mem with
  | false => exact ⟨rfl, rfl, rfl, rfl, rfl, fun _ _ => rfl⟩
  | true => exact ⟨rfl, rfl, rfl, rfl, rfl, fun e he => setPriv_live_other he⟩

theorem removeNode_fields (s : TxPool) (ept p : Nat) (pr : TxPriv) :
    (s.removeNode ept p pr).desc = s.desc ∧ (s.removeNode ept p pr).shm = s.shm ∧
    (s.removeNode ept p pr).name = s.name ∧ (s.removeNode ept p pr).priv = s.priv ∧
    (s.removeNode ept p pr).size = s.size ∧
    ∀ e, s.priv e ≠ some p → (s.removeNode ept p pr).live e = s.live e := by
  unfold TxPool.removeNode
  split
  · exact ⟨rfl, rfl, rfl, rfl, rfl, fun e he => setPriv_live_other he⟩
  · exact ⟨rfl, rfl, rfl, rfl, rfl, fun _ _ => rfl⟩

/-- What a create that succeeds leaves: a head that shows CLAIM and the endpoint's name. -/
theorem createTxept_claims (name : Name) (nodeMem : Bool) (h : PoolOk s chain) (hnone : s.priv ept = none) (hsize : 0 < size)
    (havail : descReq size.toNat ≤ s.avail) :
    ∃ t pr, s.createTxept ept name size true nodeMem = (.ok size.toNat, t) ∧
      PoolOk t (Function.update chain ept (s.firstFree size.toNat)) ∧
      OthersKept s t chain (Function.update chain ept (s.firstFree size.toNat)) ept ∧
      t.live ept = some pr ∧ pr.availableLen = (t.size ept).toNat ∧
      (∃ i l, s.firstFree size.toNat = i :: l ∧ pr.pDesc = descOffset i ∧ (t.desc i).cmd = cmdClaim ∧ (t.desc i).ns = t.name ept) ∧
      ∀ i, pr.pDesc ≠ descOffset i → (t.desc i).cmd = (s.desc i).cmd ∧
        (t.desc i).ns = (s.desc i).ns := by
  obtain ⟨pr, hpr, heq⟩ := createTxept_succeeds ept name nodeMem
    h.ready hsize havail
  have hn := newPriv_claimed ept name size h.ready
  have hok := h.claimed name hnone hsize havail
  obtain ⟨hne, -, hchain, hother, -, hsame⟩ :=
    h.linked ept name hsize havail
  have hlive := claimed_live s ept name size
  have hpriv : (s.claimed ept name size).priv ept = some s.fresh := by
    rw [hn.priv, Function.update_self]
  obtain rfl : pr = s.claimedPriv size := by
    obtain ⟨q, hq, hqpr⟩ := live_some.1 hlive
    obtain rfl := Option.some.inj (hpriv.symm.trans hq)
    exact Option.some.inj (hpr.symm.trans hqpr)
  obtain ⟨hdesc, hshm, hname, -, hsizes, hlives⟩ := addNode_fields
    (s.claimed ept name size) ept s.fresh (s.claimedPriv size) nodeMem
  obtain ⟨pr, hpr', hpDesc, hlen⟩ : ∃ pr, ((s.claimed ept name size).addNode ept s.fresh
      (s.claimedPriv size) nodeMem).live ept = some pr ∧
      pr.pDesc = (s.claimedPriv size).pDesc ∧ pr.availableLen = size.toNat := by
    unfold TxPool.addNode
    cases nodeMem with
    | false => exact ⟨_, hlive, rfl, rfl⟩
    | true => exact ⟨_, setPriv_live_self hpriv, rfl, rfl⟩
  have hsize' : (s.claimed ept name size).size = Function.update s.size ept size := by
    simp [TxPool.claimed, TxPool.setSize, TxPool.claim, TxPool.setPriv, TxPool.allocPriv,
      TxPool.createEpt, h.ready]
  obtain ⟨i, l, hl⟩ := List.exists_cons_of_ne_nil hne
  have hhead : (s.claimedPriv size).pDesc = descOffset i := by
    rw [hl] at hchain
    exact hchain.1
  have hat : descAt (s.claimedPriv size).pDesc = i := by rw [hhead, descAt_descOffset]
  have hself : (s.claimed ept name size).desc (descAt (s.claimedPriv size).pDesc) =
      { (linkFree (List.range descNum) (descReq size.toNat) none 0 s.bufFlag s.desc).2.2
          (descAt (s.claimedPriv size).pDesc) with
        cmd := cmdClaim, sts := 0, ns := strncpyName ((s.claimed ept name size).name ept) } :=
    Function.update_self _ _ _
  refine ⟨_, pr, heq, hok.same (PoolSame.addNode hpr rfl), ⟨fun e he => ?_, fun e he => ?_,
    fun e he => ?_, fun e he => ?_, fun j hj hj' => ?_, fun j hj x hx hx' => ?_⟩, hpr', ?_,
    ⟨i, l, hl, hpDesc.trans hhead, ?_, ?_⟩, fun j hj => ?_⟩
  · rw [hlives e ?_, hn.live_other h he]
    rw [hn.priv, Function.update_of_ne he]
    intro hq
    exact absurd (h.old e _ hq) (Nat.lt_irrefl _)
  · exact Function.update_of_ne he _ _
  · rw [hname]
    simp [TxPool.claimed, TxPool.setSize, TxPool.claim, TxPool.setPriv, TxPool.allocPriv,
      TxPool.createEpt, h.ready, Function.update_of_ne he]
  · rw [hsizes, hsize', Function.update_of_ne he]
  · rw [Function.update_self] at hj'
    rw [hdesc]
    exact hother j hj'
  · rw [hshm]
    simp [TxPool.claimed, TxPool.setSize, TxPool.claim, TxPool.setPriv, TxPool.allocPriv,
      TxPool.createEpt, h.ready]
  · rw [hsizes, hsize', Function.update_self, hlen]
  · rw [hdesc, ← hat, hself]
  · have hcopied : (s.claimed ept name size).name ept = strncpyName name := by
      simp [TxPool.claimed, TxPool.setSize, TxPool.claim, TxPool.setPriv, TxPool.allocPriv,
        TxPool.createEpt, h.ready]
    rw [hdesc, hname, ← hat, hself, hcopied]
    exact strncpyName_idem name
  · have hne' : j ≠ descAt (s.claimedPriv size).pDesc := by
      rw [hat]
      rintro rfl
      exact hj (hpDesc.trans hhead)
    rw [hdesc, hsame j hne']
    exact ⟨rfl, rfl⟩

/-- What a destroy leaves: descriptors without a name, and a CLOSE if the peer was bound. -/
theorem destroyEpt_releases (h : PoolOk s chain) (hpriv : s.priv ept = some p)
    (hp : s.heap p = some pr) :
    PoolOk (s.destroyEpt ept p pr) (Function.update chain ept []) ∧
    OthersKept s (s.destroyEpt ept p pr) chain (Function.update chain ept []) ept ∧
    (s.destroyEpt ept p pr).live ept = none ∧
    ∀ i ∈ chain ept, ((s.destroyEpt ept p pr).desc i).ns = zeroName ∧
      (((s.destroyEpt ept p pr).desc i).cmd = (s.desc i).cmd ∨
        ((s.destroyEpt ept p pr).desc i).cmd = cmdClose) := by
  have hok := h.destroyed hpriv hp
  obtain ⟨nodes, heq⟩ := h.destroyEpt_eq hpriv hp
  have hsame := PoolSame.closing s pr
  have hclosing := h.same hsame
  have hpriv' : (s.closing pr).priv ept = some p := by
    rw [hsame.priv]
    exact hpriv
  obtain ⟨hheap, hshm, hname, hsize⟩ : (s.closing pr).heap = s.heap ∧
      (s.closing pr).shm = s.shm ∧ (s.closing pr).name = s.name ∧
      (s.closing pr).size = s.size := by
    unfold TxPool.closing
    split <;> exact ⟨rfl, rfl, rfl, rfl⟩
  have hhead : descAt pr.pDesc ∈ chain ept := by
    obtain ⟨hchain, hne, -⟩ := h.alive ept pr (live_some.2 ⟨p, hpriv, hp⟩)
    obtain ⟨i, l, hl⟩ := List.exists_cons_of_ne_nil hne
    rw [hl] at hchain ⊢
    rw [hchain.1, descAt_descOffset]
    exact List.mem_cons_self
  rw [heq] at hok ⊢
  refine ⟨hok, ⟨fun e he => ?_, fun e he => Function.update_of_ne he _ _,
    fun e _ => congrFun hname e, fun e _ => congrFun hsize e, fun i hi _ => ?_,
    fun _ _ x _ _ => congrFun hshm x⟩,
    dropped_live_self nodes, fun i hi => ?_⟩
  · rw [hclosing.dropped_live_other hpriv' nodes _ he]
    unfold TxPool.live
    rw [hsame.priv, hheap]
  · show (if i ∈ chain ept then releasedDesc ((s.closing pr).desc i)
      else (s.closing pr).desc i) = s.desc i
    rw [if_neg hi]
    unfold TxPool.closing
    split
    · have hne : i ≠ descAt pr.pDesc := fun hie => hi (hie ▸ hhead)
      exact Function.update_of_ne hne _ _
    · rfl
  · show RscDesc.ns (if i ∈ chain ept then releasedDesc ((s.closing pr).desc i)
      else (s.closing pr).desc i) = zeroName ∧
      (RscDesc.cmd (if i ∈ chain ept then releasedDesc ((s.closing pr).desc i)
        else (s.closing pr).desc i) = (s.desc i).cmd ∨
      RscDesc.cmd (if i ∈ chain ept then releasedDesc ((s.closing pr).desc i)
        else (s.closing pr).desc i) = cmdClose)
    rw [if_pos hi]
    refine ⟨rfl, ?_⟩
    show ((s.closing pr).desc i).cmd = _ ∨ ((s.closing pr).desc i).cmd = _
    unfold TxPool.closing
    split
    · simp only [TxPool.setDesc]
      by_cases hie : i = descAt pr.pDesc
      · rw [hie, Function.update_self]
        exact .inr rfl
      · rw [Function.update_of_ne hie]
        exact .inl rfl
    · exact .inl rfl

/-- What a publishing send leaves: its chain reset, and HEAD at the head. -/
theorem writeMessage_changes {desc desc' : Descs} {shm shm' : Shmem} {data : List (BitVec 8)}
    {l : List Nat} (h : Chain desc p l) (hl : l ≠ []) (hlen : l.length ≤ descNum)
    (hbuf : OwnBuffers desc l) (hdata : descReq data.length ≤ l.length)
    (hw : writeMessage desc shm p data = some (desc', shm')) :
    (∀ i, i ∉ l → desc' i = desc i) ∧
    (∀ i, i ∉ l → ∀ x, descTxbuf * i ≤ x → x < descTxbuf * (i + 1) → shm' x = shm x) ∧
    (∀ i, (desc' i).ns = (desc i).ns) ∧
    ∀ i ∈ l, (desc' i).cmd = 0 ∨ (i = descAt p ∧ (desc' i).cmd = cmdHead) := by
  unfold writeMessage at hw
  rw [descReset_chain h hl hlen, Option.map_some, Option.some.injEq, Prod.mk.injEq] at hw
  obtain ⟨rfl, rfl⟩ := hw
  have hhead : descAt p ∈ l := by
    obtain ⟨i, l, rfl⟩ := List.exists_cons_of_ne_nil hl
    rw [h.1, descAt_descOffset]
    exact List.mem_cons_self
  -- the descriptors before the pieces are written
  have hmarked : ∀ i, ∃ d, Function.update (fun i => if i ∈ l then resetDesc (desc i) else desc i)
      (descAt p) { (if descAt p ∈ l then resetDesc (desc (descAt p)) else desc (descAt p)) with
        sts := cmdHead } i = d ∧ d.nxtOffset = (desc i).nxtOffset ∧
      d.bufOffset = (desc i).bufOffset ∧ d.ns = (desc i).ns ∧ (i ∈ l → d.cmd = 0) ∧
      (i ∉ l → d = desc i) := by
    intro i
    refine ⟨_, rfl, ?_⟩
    by_cases hi : i = descAt p
    · subst hi
      rw [Function.update_self, if_pos hhead]
      exact ⟨rfl, rfl, rfl, fun _ => rfl, fun hnot => absurd hhead hnot⟩
    · rw [Function.update_of_ne hi]
      by_cases hil : i ∈ l
      · rw [if_pos hil]
        exact ⟨rfl, rfl, rfl, fun _ => rfl, fun hnot => absurd hil hnot⟩
      · rw [if_neg hil]
        exact ⟨rfl, rfl, rfl, fun hin => absurd hin hil, fun _ => rfl⟩
  generalize Function.update (fun i => if i ∈ l then resetDesc (desc i) else desc i)
      (descAt p) { (if descAt p ∈ l then resetDesc (desc (descAt p)) else desc (descAt p)) with
        sts := cmdHead } = desc₁ at hmarked ⊢
  have hchain : Chain desc₁ p l := h.congr fun i _ => by
    obtain ⟨d, rfl, hn, -⟩ := hmarked i
    exact hn.symm
  have hown : OwnBuffers desc₁ l := fun i hi => by
    obtain ⟨d, rfl, -, hb, -⟩ := hmarked i
    exact hb.trans (hbuf i hi)
  have hpieces : (chunks data.length data).length ≤ l.length := by
    rw [length_chunks (Nat.le_refl _), ← descReq_eq]
    exact hdata
  obtain ⟨hdesc, hshm⟩ := sendLoop_outside shm hchain hown hpieces
    fun c hc => (mem_chunks hc).2
  have hsame := sendLoop_same (chunks data.length data) p desc₁ shm
  refine ⟨fun i hi => ?_, hshm, fun i => ?_, fun i hi => ?_⟩ <;> obtain ⟨d, rfl, hm⟩ := hmarked i
  · have hne : i ≠ descAt p := fun hie => hi (hie ▸ hhead)
    simp only [Function.update_of_ne hne]
    rw [hdesc i hi]
    exact hm.2.2.2.2 hi
  · by_cases hie : i = descAt p
    · simp only [hie, Function.update_self]
      rw [hsame, ← hie]
      exact hm.2.2.1
    · simp only [Function.update_of_ne hie]
      rw [hsame]
      exact hm.2.2.1
  · by_cases hie : i = descAt p
    · simp only [hie, Function.update_self]
      exact .inr ⟨trivial, trivial⟩
    · simp only [Function.update_of_ne hie]
      rw [hsame]
      exact .inl (hm.2.2.2.1 hi)

/-! ## Effects -/

/-- The endpoint that an event of this core is about. -/
def PoolEvent.subject : PoolEvent → Option Nat
  | .create ept .. | .send ept .. | .destroy ept | .bind ept => some ept
  | .remote .. => none

/-- The descriptors that the event takes, the head first. -/
def TxPool.takes (s : TxPool) : PoolEvent → List Nat
  | .create _ _ size mem _ =>
    if mem = true ∧ 0 < size ∧ descReq size.toNat ≤ s.avail then s.firstFree size.toNat else []
  | _ => []

/-- The descriptor at which the event publishes a message. -/
def TxPool.publishes (s : TxPool) : PoolEvent → Option Nat
  | .send ept data mem =>
    match s.priv ept, s.live ept with
    | some p, some pr =>
      match (s.send ept p pr data mem).1 with
      | .ok _ => some (descAt pr.pDesc)
      | .error _ => none
    | _, _ => none
  | _ => none

/-- What an operation on an endpoint does that takes the descriptors `taken` and publishes at
`pub`. -/
structure TxEffect (s t : TxPool) (chain chain' : Nat → List Nat) (ept : Nat)
    (taken : List Nat) (pub : Option Nat) : Prop extends OthersKept s t chain chain' ept where
  ok : PoolOk t chain'
  sized : (∀ pr, s.live ept = some pr → pr.availableLen = (s.size ept).toNat) →
    ∀ pr, t.live ept = some pr → pr.availableLen = (t.size ept).toNat
  mem : ∀ i ∈ chain' ept, i ∈ taken ∨ (i ∈ chain ept ∧ (s.HeadOf ept i → t.HeadOf ept i))
  ns : ∀ i, (t.desc i).ns = zeroName ∨ (t.HeadOf ept i ∧ (t.desc i).ns = t.name ept) ∨
    ((t.desc i).ns = (s.desc i).ns ∧ (s.HeadOf ept i → t.HeadOf ept i ∧ t.name ept = s.name ept))
  cmd : ∀ i, ((t.desc i).cmd = (s.desc i).cmd ∧ taken.head? ≠ some i) ∨ (t.desc i).cmd = 0 ∨
    (t.desc i).cmd = cmdClaim ∨ ((t.desc i).cmd = cmdClose ∧ ∀ e, i ∉ chain' e) ∨
    ((t.desc i).cmd = cmdHead ∧ pub = some i)

theorem PoolOk.not_headOf (hlive : s.live ept = none) (i : Nat) : ¬ s.HeadOf ept i := by
  rintro ⟨pr, hpr, -⟩
  rw [hlive] at hpr
  exact absurd hpr (by simp)

theorem live_none_of_priv (hnone : s.priv ept = none) : s.live ept = none := by
  unfold TxPool.live
  rw [hnone]
  rfl

theorem createTxept_effect (h : PoolOk s chain) (hnone : s.priv ept = none) :
    ∃ chain', TxEffect s (s.createTxept ept name size mem nodeMem).2 chain chain' ept
      (s.takes (.create ept name size mem nodeMem)) none := by
  have hlive := live_none_of_priv hnone
  simp only [TxPool.takes]
  by_cases hgood : mem = true ∧ 0 < size ∧ descReq size.toNat ≤ s.avail
  · rw [if_pos hgood]
    obtain ⟨rfl, hsize, havail⟩ := hgood
    obtain ⟨t, pr, heq, hok, hkept, hpr, hlen, ⟨i, l, hl, hp, hcmd, hns⟩, hother⟩ :=
      createTxept_claims name nodeMem h hnone hsize havail
    rw [heq]
    refine ⟨_, hkept, hok, fun _ pr' hpr' => ?_, fun j hj => ?_, fun j => ?_, fun j => ?_⟩
    · obtain rfl := Option.some.inj (hpr.symm.trans hpr')
      exact hlen
    · rw [Function.update_self] at hj
      exact .inl hj
    · by_cases hj : pr.pDesc = descOffset j
      · obtain rfl := descOffset_inj (hp.symm.trans hj)
        exact .inr (.inl ⟨⟨pr, hpr, hj⟩, hns⟩)
      · exact .inr (.inr ⟨(hother j hj).2, fun hhead => absurd hhead (PoolOk.not_headOf hlive j)⟩)
    · by_cases hj : pr.pDesc = descOffset j
      · obtain rfl := descOffset_inj (hp.symm.trans hj)
        exact .inr (.inr (.inl hcmd))
      · refine .inl ⟨(hother j hj).1, ?_⟩
        rw [hl, List.head?_cons, ne_eq, Option.some.injEq]
        rintro rfl
        exact hj hp
  · rw [if_neg hgood]
    obtain ⟨hok, hkept, hdesc, hgone⟩ :=
      createTxept_failed_kept name nodeMem h hnone hgood
    refine ⟨chain, hkept, hok, fun _ pr hpr => ?_, fun j hj => ?_, fun j => ?_, fun j => ?_⟩
    · rw [hgone] at hpr
      exact absurd hpr (by simp)
    · rw [h.dead ept hlive] at hj
      exact absurd hj List.not_mem_nil
    · rw [hdesc]
      exact .inr (.inr ⟨rfl, fun hhead => absurd hhead (PoolOk.not_headOf hlive j)⟩)
    · rw [hdesc]
      exact .inl ⟨rfl, by simp⟩

theorem destroyEpt_effect (h : PoolOk s chain) (hpriv : s.priv ept = some p)
    (hp : s.heap p = some pr) :
    ∃ chain', TxEffect s (s.destroyEpt ept p pr) chain chain' ept [] none := by
  obtain ⟨hok, hkept, hgone, hdesc⟩ := destroyEpt_releases h hpriv hp
  refine ⟨_, hkept, hok, fun _ pr' hpr' => ?_, fun i hi => ?_, fun i => ?_, fun i => ?_⟩
  · rw [hgone] at hpr'
    exact absurd hpr' (by simp)
  · rw [Function.update_self] at hi
    exact absurd hi List.not_mem_nil
  · by_cases hi : i ∈ chain ept
    · exact .inl (hdesc i hi).1
    · rw [hkept.desc i hi (by rw [Function.update_self]; exact List.not_mem_nil)]
      refine .inr (.inr ⟨rfl, ?_⟩)
      rintro ⟨pr', hpr', hhead⟩
      obtain ⟨hchain, hne, -⟩ := h.alive ept pr' hpr'
      obtain ⟨j, l, hl⟩ := List.exists_cons_of_ne_nil hne
      rw [hl] at hchain hi
      obtain rfl := descOffset_inj (hchain.1.symm.trans hhead)
      exact absurd List.mem_cons_self hi
  · by_cases hi : i ∈ chain ept
    · obtain hcmd | hcmd := (hdesc i hi).2
      · exact .inl ⟨hcmd, by simp⟩
      · refine .inr (.inr (.inr (.inl ⟨hcmd, fun e he => ?_⟩)))
        by_cases hee : e = ept
        · rw [hee, Function.update_self] at he
          exact List.not_mem_nil he
        · rw [Function.update_of_ne hee] at he
          exact h.disjoint e ept hee he hi
    · rw [hkept.desc i hi (by rw [Function.update_self]; exact List.not_mem_nil)]
      exact .inl ⟨rfl, by simp⟩

/-- An operation that writes to the endpoint's own `ept_priv`, chain and buffers. -/
theorem TxEffect.of_same {pub : Option Nat} (h : PoolOk s chain) (hst : PoolSame s t)
    (hpriv : s.priv ept = some p) (hp : s.heap p = some pr)
    (hheap : ∃ pr', t.heap = Function.update s.heap p (some pr') ∧
      pr'.availableLen = pr.availableLen)
    (hname : t.name = s.name) (hdesc : ∀ i, i ∉ chain ept → t.desc i = s.desc i)
    (hshm : ∀ i, i ∉ chain ept → ∀ x, descTxbuf * i ≤ x → x < descTxbuf * (i + 1) →
      t.shm x = s.shm x)
    (hns : ∀ i, (t.desc i).ns = (s.desc i).ns)
    (hcmd : ∀ i, (t.desc i).cmd = (s.desc i).cmd ∨ (t.desc i).cmd = 0 ∨
      (t.desc i).cmd = cmdClaim ∨ ((t.desc i).cmd = cmdHead ∧ pub = some i)) :
    TxEffect s t chain chain ept [] pub := by
  obtain ⟨pr', hheap, hlen⟩ := hheap
  have hhead : ∀ i, s.HeadOf ept i → t.HeadOf ept i := by
    rintro i ⟨pr₁, hpr₁, hi⟩
    have hmap := hst.live ept
    rw [hpr₁, Option.map_some, Option.map_eq_some_iff] at hmap
    obtain ⟨pr₂, hpr₂, hsame⟩ := hmap
    exact ⟨pr₂, hpr₂, hsame.trans hi⟩
  refine ⟨⟨fun e he => ?_, fun _ _ => rfl, fun e _ => congrFun hname e,
    fun e _ => congrFun hst.size e, fun i hi _ => hdesc i hi, hshm⟩, h.same hst,
    fun hsized pr₁ hpr₁ => ?_, fun i hi => .inr ⟨hi, hhead i⟩,
    fun i => .inr (.inr ⟨hns i, fun hi => ⟨hhead i hi, congrFun hname ept⟩⟩), fun i => ?_⟩
  · unfold TxPool.live
    rw [hst.priv, hheap]
    cases hq : s.priv e with
    | none => rfl
    | some q =>
      have hqp : q ≠ p := by
        rintro rfl
        exact he (h.inj e ept q hq hpriv)
      exact Function.update_of_ne hqp _ _
  · obtain ⟨q, hq, hq'⟩ := live_some.1 hpr₁
    rw [hst.priv, hpriv, Option.some.injEq] at hq
    rw [← hq, hheap, Function.update_self, Option.some.injEq] at hq'
    rw [hst.size, ← hq', hlen]
    exact hsized pr (live_some.2 ⟨p, hpriv, hp⟩)
  · obtain hi | hi | hi | hi := hcmd i
    · exact .inl ⟨hi, by simp⟩
    · exact .inr (.inl hi)
    · exact .inr (.inr (.inl hi))
    · exact .inr (.inr (.inr (.inr hi)))

/-- Nothing happens. -/
theorem TxEffect.refl (h : PoolOk s chain) (hpriv : s.priv ept = some p)
    (hp : s.heap p = some pr) (pub : Option Nat) : TxEffect s s chain chain ept [] pub :=
  .of_same h (.refl s) hpriv hp ⟨pr, by rw [← hp, Function.update_eq_self], rfl⟩ rfl
    (fun _ _ => rfl) (fun _ _ _ _ _ => rfl) (fun _ => rfl) fun _ => .inl rfl

/-- A send fails and changes nothing, falls back to waiting for a peer, or publishes. -/
theorem send_cases (h : PoolOk s chain) (hpriv : s.priv ept = some p) (hp : s.heap p = some pr)
    (data : List (BitVec 8)) (mem : Bool) :
    (∃ e, s.send ept p pr data mem = (.error e, s)) ∨
    (∃ e, s.send ept p pr data mem = (.error e, s.reconnectEpt ept p pr mem)) ∨
    ∃ desc shm, data.length ≤ pr.availableLen ∧
      writeMessage s.desc s.shm pr.pDesc data = some (desc, shm) ∧
      s.send ept p pr data mem = (.ok data.length, { s with desc, shm }) := by
  obtain ⟨hchain, hne, -⟩ := h.alive ept pr (live_some.2 ⟨p, hpriv, hp⟩)
  obtain ⟨desc, shm, hw, -⟩ := writeMessage_chain s.shm data hchain hne
    (length_le_descNum hchain.nodup (h.lt ept))
  unfold TxPool.send
  split
  · exact .inl ⟨_, rfl⟩
  rename_i hlen
  split
  · exact .inl ⟨_, rfl⟩
  split
  · exact .inl ⟨_, rfl⟩
  simp only
  split
  · exact .inl ⟨_, rfl⟩
  split
  · exact .inr (.inl ⟨_, rfl⟩)
  · rw [hw]
    exact .inr (.inr ⟨desc, shm, Nat.le_of_not_lt hlen, rfl, rfl⟩)

/-- A reconnect before the node is added. -/
def TxPool.reopened (s : TxPool) (p : Nat) (pr : TxPriv) : TxPool :=
  (s.setPriv p { pr with remoteBinded := false }).setDesc (descAt pr.pDesc)
    { s.desc (descAt pr.pDesc) with sts := 0, cmd := cmdClaim }

theorem reconnectEpt_eq : s.reconnectEpt ept p pr mem = if pr.tasknode then s else
    (s.reopened p pr).addNode ept p { pr with remoteBinded := false } mem := rfl

theorem reconnectEpt_effect (h : PoolOk s chain) (hpriv : s.priv ept = some p)
    (hp : s.heap p = some pr) (pub : Option Nat) :
    TxEffect s (s.reconnectEpt ept p pr mem) chain chain ept [] pub := by
  have hsame := PoolSame.reconnectEpt ept mem hp
  rw [reconnectEpt_eq] at hsame ⊢
  split
  · exact .refl h hpriv hp pub
  · rename_i hnode
    rw [if_neg hnode] at hsame
    obtain ⟨hdesc, hshm, hname, -⟩ :=
      addNode_fields (s.reopened p pr) ept p { pr with remoteBinded := false } mem
    have hhead : descAt pr.pDesc ∈ chain ept := by
      obtain ⟨hchain, hne, -⟩ := h.alive ept pr (live_some.2 ⟨p, hpriv, hp⟩)
      obtain ⟨i, l, hl⟩ := List.exists_cons_of_ne_nil hne
      rw [hl] at hchain ⊢
      rw [hchain.1, descAt_descOffset]
      exact List.mem_cons_self
    have hother : ∀ i, i ≠ descAt pr.pDesc → (s.reopened p pr).desc i = s.desc i :=
      fun i hi => Function.update_of_ne hi _ _
    have hat : (s.reopened p pr).desc (descAt pr.pDesc) =
        { s.desc (descAt pr.pDesc) with sts := 0, cmd := cmdClaim } := Function.update_self _ _ _
    refine .of_same h hsame hpriv hp ?_ hname (fun i hi => ?_)
      (fun i _ x _ _ => congrFun hshm x) (fun i => ?_) fun i => ?_
    · unfold TxPool.addNode
      cases mem with
      | false => exact ⟨_, rfl, rfl⟩
      | true =>
        exact ⟨{ pr with remoteBinded := false, tasknode := true }, Function.update_idem _ _ _, rfl⟩
    · rw [hdesc]
      exact hother i fun hie => hi (hie ▸ hhead)
    · rw [hdesc]
      by_cases hi : i = descAt pr.pDesc
      · rw [hi, hat]
      · rw [hother i hi]
    · rw [hdesc]
      by_cases hi : i = descAt pr.pDesc
      · rw [hi, hat]
        exact .inr (.inr (.inl rfl))
      · rw [hother i hi]
        exact .inl rfl

theorem send_effect (h : PoolOk s chain)
    (hsized : ∀ pr, s.live ept = some pr → pr.availableLen = (s.size ept).toNat)
    (hpriv : s.priv ept = some p) (hp : s.heap p = some pr) (data : List (BitVec 8)) :
    TxEffect s (s.send ept p pr data mem).2 chain chain ept []
      (s.publishes (.send ept data mem)) := by
  have hlive : s.live ept = some pr := live_some.2 ⟨p, hpriv, hp⟩
  have hsame := h.send_same hpriv hp data mem
  simp only [TxPool.publishes, hpriv, hlive]
  obtain ⟨e, heq⟩ | ⟨e, heq⟩ | ⟨desc, shm, hlen, hw, heq⟩ := send_cases h hpriv hp data mem
  · rw [heq]
    exact .refl h hpriv hp _
  · rw [heq]
    exact reconnectEpt_effect h hpriv hp _
  · rw [heq] at hsame ⊢
    obtain ⟨hchain, hne, hchainLen⟩ := h.alive ept pr hlive
    have hreq : descReq data.length ≤ (chain ept).length := by
      rw [hchainLen, ← hsized pr hlive, descReq_eq, descReq_eq]
      exact Nat.div_le_div_right (Nat.add_le_add_right hlen _)
    obtain ⟨hdesc, hshm, hns, hcmd⟩ := writeMessage_changes hchain hne
      (length_le_descNum hchain.nodup (h.lt ept))
      (fun i hi => h.buf i (h.lt ept i hi)) hreq hw
    refine .of_same h hsame hpriv hp ⟨pr, by rw [← hp, Function.update_eq_self], rfl⟩ rfl hdesc
      hshm hns fun i => ?_
    by_cases hi : i ∈ chain ept
    · obtain hz | ⟨rfl, hz⟩ := hcmd i hi
      · exact .inr (.inl hz)
      · exact .inr (.inr (.inr ⟨hz, rfl⟩))
    · exact .inl (congrArg RscDesc.cmd (hdesc i hi))

theorem bindProcess_effect (h : PoolOk s chain) (hpriv : s.priv ept = some p)
    (hp : s.heap p = some pr) :
    TxEffect s (s.bindProcess ept p pr) chain chain ept [] none := by
  have hsame := PoolSame.bindProcess ept hp
  unfold TxPool.bindProcess at hsame ⊢
  split
  · rename_i hbind
    rw [if_pos hbind] at hsame
    simp only at hsame ⊢
    obtain ⟨hdesc, hshm, hname, -⟩ := removeNode_fields
      (s.setPriv p { pr with remoteBinded := true }) ept p { pr with remoteBinded := true }
    refine .of_same h hsame hpriv hp ?_ (by rw [hname]; rfl) (fun i _ => by rw [hdesc]; rfl)
      (fun i _ x _ _ => by rw [hshm]; rfl) (fun i => by rw [hdesc]; rfl)
      fun i => .inl (by rw [hdesc]; rfl)
    unfold TxPool.removeNode
    split
    · refine ⟨{ pr with remoteBinded := true, tasknode := false }, ?_, rfl⟩
      exact Function.update_idem _ _ _
    · exact ⟨{ pr with remoteBinded := true }, rfl, rfl⟩
  · exact .refl h hpriv hp none

/-- What any step of the core that sends does. -/
theorem poolStep_effect {e : PoolEvent} (h : PoolOk s chain) (he : e.subject = some ept)
    (hsized : ∀ pr, s.live ept = some pr → pr.availableLen = (s.size ept).toNat)
    (ht : poolStep s e = some t) :
    ∃ chain', TxEffect s t chain chain' ept (s.takes e) (s.publishes e) := by
  cases e with
  | create e name size mem nodeMem =>
    obtain rfl := Option.some.inj he
    obtain ⟨hnone, ht⟩ := Option.ite_none_right_eq_some.mp ht
    obtain rfl := Option.some.inj ht
    exact createTxept_effect h hnone
  | send e data mem =>
    obtain rfl := Option.some.inj he
    obtain ⟨p, pr, hpriv, hp, rfl⟩ := withPriv_some ht
    exact ⟨chain, send_effect h hsized hpriv hp data⟩
  | destroy e =>
    obtain rfl := Option.some.inj he
    obtain ⟨p, pr, hpriv, hp, rfl⟩ := withPriv_some ht
    exact destroyEpt_effect h hpriv hp
  | bind e =>
    obtain rfl := Option.some.inj he
    obtain ⟨-, ht⟩ := Option.ite_none_right_eq_some.mp ht
    obtain ⟨p, pr, hpriv, hp, rfl⟩ := withPriv_some ht
    exact ⟨chain, bindProcess_effect h hpriv hp⟩
  | remote i cmd sts => exact absurd he (by simp [PoolEvent.subject])

end Others

end Ma35d1.Amp
