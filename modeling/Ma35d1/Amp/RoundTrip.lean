import Ma35d1.Amp.TxOthers
import Ma35d1.Machine.Copy

/-!
# A message there and back

`ma35_rpmsg_send_offchannel_raw` as it counts, `ma35_rpmsg_ns_bind_remote`, which sizes the receive
buffers, and `ma35_rpmsg_receive`, which fills one. The pieces that the sender cuts are those of
`sendLoop`, and what the receiver copies is what `readChain` reads.
-/

namespace Ma35d1.Amp

open Ma35d1.Machine.Copy (copyTo copyFrom copyTo_nil copyTo_append copyTo_of_not length_copyFrom
  copyFrom_copyTo)
open Ma35d1.Machine.Trace (Always always_of_step)

/-- `desc_rxbuf`: `RING_RX_SIZE / VRING_SIZE` -/
def descRxbuf : Nat := 2048

/-- The loop of `ma35_rpmsg_send_offchannel_raw`, for as many turns as there is fuel. -/
def sendSlices (data : List (BitVec 8)) :
    Nat → Nat → Int → Nat → Descs → Shmem → Option (Descs × Shmem)
  | 0, _, _, _, _, _ => none
  | n + 1, i, res, p, desc, shm =>
    if i < data.length then
      let d := desc (descAt p)
      if (res % 2 ^ 32).toNat ≤ descTxbuf then
        -- the last piece; the descriptor stays
        sendSlices data n (i + descTxbuf) (res - descTxbuf) p
          (Function.update desc (descAt p) { d with len := (res % 2 ^ 16).toNat })
          (copyIn shm d.bufOffset ((data.drop i).take (res % 2 ^ 64).toNat))
      else
        sendSlices data n (i + descTxbuf) (res - descTxbuf) d.nxtOffset
          (Function.update desc (descAt p) { d with len := descTxbuf })
          (copyIn shm d.bufOffset ((data.drop i).take descTxbuf))
    else some (desc, shm)

/-- The head is marked as being written, and as written. -/
def markHead (p : Nat) (desc : Descs) : Descs :=
  Function.update desc (descAt p) { desc (descAt p) with sts := cmdHead }

def publishHead (p : Nat) (desc : Descs) : Descs :=
  Function.update desc (descAt p) { desc (descAt p) with cmd := cmdHead }

/-- What `ma35_rpmsg_send_offchannel_raw` does behind its tests. -/
def sendOffchannelRaw (p : Nat) (data : List (BitVec 8)) (desc : Descs) (shm : Shmem) :
    Option (Descs × Shmem) := do
  let desc ← descReset descNum p desc
  let r ← sendSlices data (data.length + 1) 0 data.length p (markHead p desc) shm
  some (publishHead p r.1, r.2)

/-- The loop of `ma35_rpmsg_ns_bind_remote`: the size of the receive buffers. -/
def rxSize : Nat → Nat → Descs → Option Nat
  | 0, _, _ => none
  | n + 1, p, desc =>
    let next := (desc (descAt p)).nxtOffset
    if next = 0 then some descRxbuf else (rxSize n next desc).map (descRxbuf + ·)

/-- The handler has seen the command. -/
def takeHead (p : Nat) (desc : Descs) : Descs :=
  Function.update desc (descAt p) { desc (descAt p) with cmd := 0, sts := stsReading }

/-- The loop of `ma35_rpmsg_receive` into a buffer of `size` bytes: the buffer and `rxlen`. There is
no result where a copy goes past its end. -/
def receiveLoop (size : Nat) :
    Nat → Nat → Descs → Shmem → (Nat → BitVec 8) → Nat → Option ((Nat → BitVec 8) × Nat)
  | 0, _, _, _, _, _ => none
  | n + 1, p, desc, shm, buf, rxlen =>
    let d := desc (descAt p)
    if d.len = 0 then some (buf, rxlen)
    else if size < rxlen + d.len then none
    else
      let buf := copyTo buf rxlen (copyOut shm d.bufOffset d.len)
      if d.nxtOffset = 0 then some (buf, rxlen + d.len)
      else receiveLoop size n d.nxtOffset desc shm buf (rxlen + d.len)

/-! ## The law -/

/-- The links and the buffers are the same; the other words may be anything. -/
def SameChain (desc desc' : Descs) : Prop :=
  ∀ i, (desc' i).nxtOffset = (desc i).nxtOffset ∧ (desc' i).bufOffset = (desc i).bufOffset

/-- A message of `data` through the chain at `p`. -/
structure Passed (p : Nat) (data : List (BitVec 8)) (desc : Descs) (shm : Shmem)
    (buf : Nat → BitVec 8) (l : List Nat) : Prop where
  passes : ∃ desc' shm' size buf', sendOffchannelRaw p data desc shm = some (desc', shm') ∧
    rxSize descNum p desc = some size ∧
    receiveLoop size descNum p (takeHead p desc') shm' buf 0 = some (buf', data.length) ∧
    copyFrom buf' 0 data.length = data ∧
    -- nothing else is written
    (∀ i, i ∉ l → desc' i = desc i) ∧ (∀ x, x / descTxbuf ∉ l → shm' x = shm x) ∧
    ∀ x, data.length ≤ x → buf' x = buf x

/-- Every message that an endpoint may send passes through its chain, whatever was sent before. -/
def RoundTripLaw (s : TxPool) : Prop :=
  ∀ ept pr, s.live ept = some pr → ∃ l, Chain s.desc pr.pDesc l ∧
    ∀ desc shm data buf, SameChain s.desc desc → 1 ≤ data.length → data.length ≤ pr.availableLen →
      Passed pr.pDesc data desc shm buf l

/-! ## The pieces -/

section Pieces

variable {desc : Descs} {shm : Shmem} {data m : List (BitVec 8)} {buf : Nat → BitVec 8}
  {p n k i rxlen size : Nat} {l : List Nat}

theorem chunks_nil (k : Nat) : chunks k [] = [] := by
  cases k <;> rfl

/-- The counting loop sends the pieces. -/
theorem sendSlices_eq (hword : data.length < 2 ^ 16) (hn : data.length - i < n)
    (hk : data.length ≤ i + k) : sendSlices data n i ((data.length : Int) - i) p desc shm =
      some (sendLoop (chunks k (data.drop i)) p desc shm) := by
  have htx : descTxbuf = 2048 := rfl
  have hdone : ∀ {n i res p desc shm}, 0 < n → data.length ≤ i →
      sendSlices data n i res p desc shm = some (desc, shm) := by
    intro n i res p desc shm hn hi
    obtain ⟨n, rfl⟩ := Nat.exists_eq_succ_of_ne_zero hn.ne'
    rw [sendSlices, if_neg (Nat.not_lt.2 hi)]
  induction n generalizing i k p desc shm with
  | zero => exact absurd hn (Nat.not_lt_zero _)
  | succ n ih =>
    by_cases hi : i < data.length
    · obtain ⟨k, rfl⟩ : ∃ m, k = m + 1 := ⟨k - 1, by omega⟩
      have hlen : (data.drop i).length = data.length - i := List.length_drop
      have hnext : (data.length : Int) - i - descTxbuf = data.length - (i + descTxbuf : Nat) := by
        omega
      have hres : (((data.length : Int) - i) % 2 ^ 32).toNat = data.length - i := by omega
      have hlen' : (((data.length : Int) - i) % 2 ^ 16).toNat = data.length - i := by omega
      have hsize : (((data.length : Int) - i) % 2 ^ 64).toNat = data.length - i := by omega
      rw [chunks, if_neg (by omega), sendLoop, sendSlices, if_pos hi, hres, hlen', hsize, hnext,
        List.drop_drop]
      by_cases hlast : data.length - i ≤ descTxbuf
      · have htake : (data.drop i).take descTxbuf = data.drop i := List.take_of_length_le (by omega)
        have hall : (data.drop i).take (data.length - i) = data.drop i :=
          List.take_of_length_le (by omega)
        have hrest : data.drop (i + descTxbuf) = [] := List.drop_of_length_le (by omega)
        rw [if_pos hlast, hdone (by omega) (by omega), htake, hall, hlen, hrest, chunks_nil,
          sendLoop]
      · have htake : ((data.drop i).take descTxbuf).length = descTxbuf := by
          rw [List.length_take, hlen]
          omega
        rw [if_neg hlast, htake]
        exact ih (by omega) (by omega)
    · rw [hdone (Nat.succ_pos n) (Nat.le_of_not_lt hi), List.drop_of_length_le (by omega),
        chunks_nil, sendLoop]

theorem length_copyOut (shm : Shmem) (a n : Nat) : (copyOut shm a n).length = n := by
  rw [copyOut, List.length_map, List.length_range]

/-- What is read goes to the buffer, if it has room. -/
theorem receiveLoop_eq (buf : Nat → BitVec 8) (hread : readChain n p desc shm = some m) (hsize : rxlen + m.length ≤ size) :
    receiveLoop size n p desc shm buf rxlen = some (copyTo buf rxlen m, rxlen + m.length) := by
  induction n generalizing p m buf rxlen with
  | zero => exact absurd hread nofun
  | succ n ih =>
    rw [readChain] at hread
    rw [receiveLoop]
    simp only at hread ⊢
    by_cases hlen : (desc (descAt p)).len = 0
    · rw [if_pos hlen] at hread ⊢
      obtain rfl := Option.some.inj hread
      rw [copyTo_nil]
      rfl
    · rw [if_neg hlen] at hread ⊢
      by_cases hnext : (desc (descAt p)).nxtOffset = 0
      · rw [if_pos hnext] at hread ⊢
        obtain rfl := Option.some.inj hread
        rw [length_copyOut] at hsize ⊢
        rw [if_neg (by omega)]
      · rw [if_neg hnext] at hread ⊢
        obtain ⟨m', hread', rfl⟩ := Option.map_eq_some_iff.1 hread
        rw [List.length_append, length_copyOut] at hsize
        have happend := copyTo_append buf rxlen
          (copyOut shm (desc (descAt p)).bufOffset (desc (descAt p)).len) m'
        rw [length_copyOut] at happend
        rw [if_neg (by omega), ih _ hread' (by omega), List.length_append, length_copyOut, happend,
          Nat.add_assoc]

/-- The receive buffers have room for all that the chain holds. -/
theorem rxSize_eq (h : Chain desc p l) (hl : l ≠ []) (hn : l.length ≤ n) :
    rxSize n p desc = some (descRxbuf * l.length) := by
  induction l generalizing n p with
  | nil => exact absurd rfl hl
  | cons i l ih =>
    obtain ⟨n, rfl⟩ : ∃ m, n = m + 1 := ⟨n - 1, by simp at hn; omega⟩
    have hp : descAt p = i := by rw [h.1, descAt_descOffset]
    rw [rxSize, hp]
    by_cases hnil : l = []
    · rw [if_pos (h.nil_iff.2 hnil), hnil]
      rfl
    · rw [if_neg (mt h.nil_iff.1 hnil), ih h.2 hnil (by simpa using hn), Option.map_some,
        List.length_cons, Nat.mul_succ, Nat.add_comm]

/-- The words of a descriptor that reading needs. -/
def SameRead (desc desc' : Descs) : Prop := ∀ i, (desc' i).len = (desc i).len ∧
  (desc' i).nxtOffset = (desc i).nxtOffset ∧ (desc' i).bufOffset = (desc i).bufOffset

theorem SameRead.trans {desc' desc'' : Descs} (h : SameRead desc desc')
    (h' : SameRead desc' desc'') : SameRead desc desc'' := fun i =>
  ⟨(h' i).1.trans (h i).1, (h' i).2.1.trans (h i).2.1, (h' i).2.2.trans (h i).2.2⟩

/-- `CMD` or `STS` of a descriptor is written. -/
theorem sameRead_update (desc : Descs) (j : Nat) (cmd sts : BitVec 8) :
    SameRead desc (Function.update desc j { desc j with cmd, sts }) := by
  intro i
  by_cases hi : i = j
  · subst hi
    rw [Function.update_self]
    exact ⟨rfl, rfl, rfl⟩
  · rw [Function.update_of_ne hi]
    exact ⟨rfl, rfl, rfl⟩

theorem SameRead.sameChain {desc' : Descs} (h : SameRead desc desc') : SameChain desc desc' :=
  fun i => (h i).2

theorem SameChain.trans {desc' desc'' : Descs} (h : SameChain desc desc')
    (h' : SameChain desc' desc'') : SameChain desc desc'' := fun i =>
  ⟨(h' i).1.trans (h i).1, (h' i).2.trans (h i).2⟩

theorem SameChain.chain {desc' : Descs} (h : SameChain desc desc') (hchain : Chain desc p l) :
    Chain desc' p l :=
  hchain.congr fun i _ => (h i).1.symm

theorem SameChain.own {desc' : Descs} (h : SameChain desc desc') (hown : OwnBuffers desc l) :
    OwnBuffers desc' l :=
  fun i hi => (h i).2.trans (hown i hi)

/-- What a reset leaves: a chain of empty descriptors. -/
theorem descReset_spec (hchain : Chain desc p l) (hne : l ≠ []) (hn : l.length ≤ n) :
    ∃ desc', descReset n p desc = some desc' ∧ SameChain desc desc' ∧
      (∀ i ∈ l, (desc' i).len = 0) ∧ ∀ i, i ∉ l → desc' i = desc i := by
  refine ⟨_, descReset_chain hchain hne hn, fun i => ?_, fun i hi => ?_, fun i hi => if_neg hi⟩
  · show (if i ∈ l then resetDesc (desc i) else desc i).nxtOffset = _ ∧
      (if i ∈ l then resetDesc (desc i) else desc i).bufOffset = _
    split <;> exact ⟨rfl, rfl⟩
  · show (if i ∈ l then resetDesc (desc i) else desc i).len = 0
    rw [if_pos hi]
    rfl

/-- A message of a length that the chain has room for. -/
theorem passed (hchain : Chain desc p l) (hne : l ≠ []) (hown : OwnBuffers desc l)
    (hn : l.length ≤ descNum) (hfit : descReq data.length ≤ l.length) (shm : Shmem)
    (buf : Nat → BitVec 8) : Passed p data desc shm buf l := by
  have hroom : data.length ≤ descRxbuf * l.length := by
    rw [descReq_eq] at hfit
    unfold descTxbuf at hfit
    unfold descRxbuf
    omega
  have hword : data.length < 2 ^ 16 := by
    unfold descRxbuf at hroom
    unfold descNum at hn
    omega
  have hhead : ∀ i, i ∉ l → i ≠ descAt p := by
    obtain ⟨j, l', rfl⟩ := List.exists_cons_of_ne_nil hne
    rintro i hi rfl
    rw [hchain.1, descAt_descOffset] at hi
    exact hi List.mem_cons_self
  -- the chain as it is when the first piece is copied
  obtain ⟨desc₁, hreset, hlinks, hzero, hout⟩ := descReset_spec hchain hne hn
  have hmark : SameRead desc₁ (markHead p desc₁) := sameRead_update _ _ _ _
  have hmarked : ∀ i, i ∉ l → markHead p desc₁ i = desc i := fun i hi =>
    (Function.update_of_ne (hhead i hi) _ _).trans (hout i hi)
  have hsame := hlinks.trans hmark.sameChain
  have hchain₂ := hsame.chain hchain
  have hown₂ := hsame.own hown
  have hcs : (chunks data.length data).length ≤ l.length := by
    rw [length_chunks (Nat.le_refl _), ← descReq_eq]
    exact hfit
  have hpieces : ∀ c ∈ chunks data.length data, c ≠ [] ∧ c.length ≤ descTxbuf :=
    fun c hc => mem_chunks hc
  have hslices : sendSlices data (data.length + 1) 0 data.length p (markHead p desc₁) shm =
      some (sendLoop (chunks data.length data) p (markHead p desc₁) shm) := by
    have hwhole : (data.length : Int) = data.length - (0 : Nat) := by omega
    rw [hwhole]
    exact sendSlices_eq hword (Nat.lt_succ_self _) (Nat.le_of_eq (Nat.zero_add _).symm)
  obtain ⟨hdesc, hshm⟩ := sendLoop_outside shm hchain₂ hown₂ hcs fun c hc => (hpieces c hc).2
  have hread := @readChain_sendLoop _ shm _ _ _ _ hchain₂ hne hown₂
    (fun i hi => (hmark i).1.trans (hzero i hi)) hcs hpieces hn
  rw [flatten_chunks (Nat.le_refl _)] at hread
  generalize sendLoop (chunks data.length data) p (markHead p desc₁) shm = sent at *
  -- the command words are written behind the last piece
  have hpublish : SameRead sent.1 (publishHead p sent.1) := sameRead_update _ _ _ _
  have htake : SameRead (publishHead p sent.1) (takeHead p (publishHead p sent.1)) :=
    sameRead_update _ _ _ _
  rw [← readChain_congr (hpublish.trans htake)] at hread
  have hin : 0 + data.length ≤ descRxbuf * l.length := (Nat.zero_add _).trans_le hroom
  have hreceive := receiveLoop_eq buf hread hin
  rw [Nat.zero_add] at hreceive
  refine ⟨publishHead p sent.1, sent.2, descRxbuf * l.length, copyTo buf 0 data, ?_,
    rxSize_eq hchain hne hn, hreceive, copyFrom_copyTo rfl, fun i hi => ?_, fun x hx => ?_,
    fun x hx => copyTo_of_not ?_⟩
  · unfold sendOffchannelRaw
    rw [hreset, Option.bind_eq_bind, Option.bind_some, hslices]
    rfl
  · exact (Function.update_of_ne (hhead i hi) _ _).trans ((hdesc i hi).trans (hmarked i hi))
  · exact hshm _ hx x (Nat.mul_div_le x descTxbuf) (Nat.lt_mul_div_succ x (by decide))
  · omega

end Pieces

/-! ## Runs -/

/-- Every endpoint has the chain that its size needs. -/
structure PoolSized (s : TxPool) (chain : Nat → List Nat) : Prop extends PoolOk s chain where
  sized : ∀ ept pr, s.live ept = some pr → pr.availableLen = (s.size ept).toNat

section Runs

variable {s t : TxPool} {chain : Nat → List Nat} {e : PoolEvent}

theorem poolStart_sized (shm : Shmem) : PoolSized (poolStart shm) fun _ => [] :=
  ⟨(poolStart_inv shm).toPoolOk, fun _ _ hpr => by simp [poolStart, TxPool.live] at hpr⟩

/-- An operation on one endpoint, whether it succeeds or fails. -/
theorem PoolSized.subject (h : PoolSized s chain) {ept : Nat} (he : e.subject = some ept)
    (ht : poolStep s e = some t) : ∃ chain', PoolSized t chain' := by
  obtain ⟨chain', heffect⟩ := poolStep_effect h.toPoolOk he (h.sized ept) ht
  refine ⟨chain', heffect.ok, fun ept' pr hpr => ?_⟩
  by_cases hept : ept' = ept
  · subst hept
    exact heffect.sized (h.sized ept') pr hpr
  · rw [heffect.live ept' hept] at hpr
    rw [heffect.size ept' hept]
    exact h.sized ept' pr hpr

theorem poolStep_sized (h : PoolSized s chain) (ht : poolStep s e = some t) :
    ∃ chain', PoolSized t chain' := by
  cases e with
  | create ept name size mem nodeMem => exact h.subject rfl ht
  | send ept data mem => exact h.subject rfl ht
  | destroy ept => exact h.subject rfl ht
  | bind ept => exact h.subject rfl ht
  | remote i cmd sts =>
    obtain ⟨-, ht⟩ := Option.ite_none_right_eq_some.mp ht
    obtain rfl := Option.some.inj ht
    exact ⟨chain, h.toPoolOk.same (PoolSame.setDesc rfl rfl), h.sized⟩

theorem PoolSized.law (h : PoolSized s chain) : RoundTripLaw s := by
  intro ept pr hpr
  obtain ⟨hchain, hne, hlen⟩ := h.alive ept pr hpr
  refine ⟨chain ept, hchain, fun desc shm data buf hsame _ hdata => ?_⟩
  have hown : OwnBuffers s.desc (chain ept) := fun i hi => h.buf i (h.lt ept i hi)
  refine passed (hsame.chain hchain) hne (hsame.own hown)
    (length_le_descNum hchain.nodup (h.lt ept)) ?_ shm buf
  rw [hlen, ← h.sized ept pr hpr, descReq_eq, descReq_eq]
  exact Nat.div_le_div_right (Nat.add_le_add_right hdata _)

end Runs

/-- In every state of the pool, every message that an endpoint may send passes through its chain. -/
theorem run_roundTripLaw (shm : Shmem) (es : List PoolEvent) :
    Always poolStep RoundTripLaw (poolStart shm) es :=
  (always_of_step (P := fun s => ∃ chain, PoolSized s chain)
    (fun _ _ _ ⟨_, hs⟩ ht => poolStep_sized hs ht) ⟨_, poolStart_sized shm⟩).mono
    fun _ ⟨_, hs⟩ => hs.law

end Ma35d1.Amp
