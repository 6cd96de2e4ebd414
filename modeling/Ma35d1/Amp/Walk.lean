import Ma35d1.Amp.Desc

/-!
# Walks along a chain

The loops that follow `nxt_offset`: resetting the descriptors, giving them back, writing a
message into their buffers and reading it out. A walk is given more steps than the ring has
descriptors and is `none` where it would go on, so along a chain it always ends.
-/

namespace Ma35d1.Amp

open Ma35d1.Heap.LinkedPath (Path)

/-- The shared buffers of the direction, by byte. -/
abbrev Shmem := Nat → BitVec 8

/-- The loop of `ma35_rpmsg_desc_reset`. -/
def descReset : Nat → Nat → Descs → Option Descs
  | 0, _, _ => none
  | n + 1, p, desc =>
    let i := descAt p
    let next := (desc i).nxtOffset
    let desc := Function.update desc i { desc i with cmd := 0, sts := 0, len := 0 }
    if next = 0 then some desc else descReset n next desc

/-- The loop of `ma35_rpmsg_release_shmem`. -/
def releaseShmem : Nat → Nat → (Nat → Bool) → Descs → Option ((Nat → Bool) × Descs)
  | 0, _, _, _ => none
  | n + 1, p, flag, desc =>
    let d := desc (descAt p)
    let i := d.bufOffset / descTxbuf
    let flag := Function.update flag i false
    -- everything but CMD is cleared
    let desc := Function.update desc (descAt p)
      { cmd := d.cmd, sts := 0, len := 0, bufOffset := descTxbuf * i, nxtOffset := 0,
        ns := zeroName }
    if d.nxtOffset = 0 then some (flag, desc) else releaseShmem n d.nxtOffset flag desc

/-- The pieces of at most `descTxbuf` bytes; `n` bounds their number. -/
def chunks : Nat → List (BitVec 8) → List (List (BitVec 8))
  | 0, _ => []
  | n + 1, data =>
    if data.length = 0 then []
    else data.take descTxbuf :: chunks n (data.drop descTxbuf)

/-- `memcpy(a, c, n)` into the buffers -/
def copyIn (shm : Shmem) (a : Nat) (c : List (BitVec 8)) : Shmem := fun x =>
  if a ≤ x then c.getD (x - a) (shm x) else shm x

/-- `memcpy` of `n` bytes from `a` -/
def copyOut (shm : Shmem) (a n : Nat) : List (BitVec 8) := (List.range n).map fun k => shm (a + k)

/-- The loop of `ma35_rpmsg_send_offchannel_raw` over the pieces of the message. -/
def sendLoop : List (List (BitVec 8)) → Nat → Descs → Shmem → Descs × Shmem
  | [], _, desc, shm => (desc, shm)
  | c :: cs, p, desc, shm =>
    let d := desc (descAt p)
    sendLoop cs d.nxtOffset (Function.update desc (descAt p) { d with len := c.length })
      (copyIn shm d.bufOffset c)

/-- The loop of `ma35_rpmsg_receive`. -/
def readChain : Nat → Nat → Descs → Shmem → Option (List (BitVec 8))
  | 0, _, _, _ => none
  | n + 1, p, desc, shm =>
    let d := desc (descAt p)
    if d.len = 0 then some []
    else if d.nxtOffset = 0 then some (copyOut shm d.bufOffset d.len)
    else (readChain n d.nxtOffset desc shm).map (copyOut shm d.bufOffset d.len ++ ·)

/-! ## Resetting and giving back -/

section Chains

variable {desc : Descs} {shm : Shmem} {flag : Nat → Bool} {p n i : Nat} {l : List Nat}

theorem Chain.nil_iff (h : Chain desc p (i :: l)) : (desc i).nxtOffset = 0 ↔ l = [] := by
  obtain ⟨-, h⟩ := h
  cases l with
  | nil => exact iff_of_true h rfl
  | cons j l =>
    have hnext : (desc i).nxtOffset = descOffset j := h.1
    refine iff_of_false ?_ (List.cons_ne_nil j l)
    rw [hnext]
    exact descOffset_ne_zero j

/-- The chain behind a descriptor is not touched by a change of it. -/
theorem Chain.update_head {d : RscDesc} (h : Chain desc p (i :: l)) :
    Chain (Function.update desc i d) (desc i).nxtOffset l := by
  have hi := (List.nodup_cons.mp h.nodup).1
  refine Chain.congr h.2 fun j hj => ?_
  have hji : j ≠ i := fun he => hi (he ▸ hj)
  rw [Function.update_of_ne hji]

def resetDesc (d : RscDesc) : RscDesc := { d with cmd := 0, sts := 0, len := 0 }

/-- A reset clears the words of its chain and nothing else. -/
theorem descReset_chain (h : Chain desc p l) (hl : l ≠ []) (hn : l.length ≤ n) :
    descReset n p desc = some fun i => if i ∈ l then resetDesc (desc i) else desc i := by
  induction l generalizing n p desc with
  | nil => exact absurd rfl hl
  | cons i l ih =>
    obtain ⟨n, rfl⟩ : ∃ m, n = m + 1 := ⟨n - 1, by simp at hn; omega⟩
    have hi := (List.nodup_cons.mp h.nodup).1
    have hp : descAt p = i := by rw [h.1, descAt_descOffset]
    rw [descReset, hp]
    by_cases hnil : l = []
    · rw [if_pos (h.nil_iff.2 hnil), hnil]
      congr 1
      funext j
      by_cases hj : j = i
      · subst hj
        simp [resetDesc]
      · simp [hj]
    · rw [if_neg (mt h.nil_iff.1 hnil),
        ih h.update_head hnil (by simpa using hn)]
      congr 1
      funext j
      by_cases hj : j = i
      · subst hj
        simp [hi, resetDesc]
      · simp [hj]

def releasedDesc (d : RscDesc) : RscDesc :=
  { cmd := d.cmd, sts := 0, len := 0, bufOffset := d.bufOffset, nxtOffset := 0, ns := zeroName }

/-- Giving back clears the flags and the words of its chain and nothing else. -/
theorem releaseShmem_chain (flag : Nat → Bool) (h : Chain desc p l) (hl : l ≠ []) (hn : l.length ≤ n)
    (hbuf : ∀ i ∈ l, (desc i).bufOffset = descTxbuf * i) :
    releaseShmem n p flag desc = some (fun i => if i ∈ l then false else flag i,
      fun i => if i ∈ l then releasedDesc (desc i) else desc i) := by
  induction l generalizing n p flag desc with
  | nil => exact absurd rfl hl
  | cons i l ih =>
    obtain ⟨n, rfl⟩ : ∃ m, n = m + 1 := ⟨n - 1, by simp at hn; omega⟩
    have hi := (List.nodup_cons.mp h.nodup).1
    have hp : descAt p = i := by rw [h.1, descAt_descOffset]
    have hbi := hbuf i List.mem_cons_self
    have hdiv : (desc i).bufOffset / descTxbuf = i := by
      rw [hbi]
      exact Nat.mul_div_cancel_left i (by decide)
    rw [releaseShmem, hp, hdiv]
    by_cases hnil : l = []
    · rw [if_pos (h.nil_iff.2 hnil), hnil]
      refine congrArg some (Prod.ext ?_ ?_) <;> funext j <;> by_cases hj : j = i
      · subst hj
        simp
      · simp [hj]
      · subst hj
        simp [releasedDesc, hbi]
      · simp [hj]
    · rw [if_neg (mt h.nil_iff.1 hnil), ih _ h.update_head hnil (by simpa using hn)]
      · refine congrArg some (Prod.ext ?_ ?_) <;> funext j <;> by_cases hj : j = i
        · subst hj
          simp
        · simp [hj]
        · subst hj
          simp [hi, releasedDesc, hbi]
        · simp [hj]
      · intro j hj
        have hji : j ≠ i := fun he => hi (he ▸ hj)
        rw [Function.update_of_ne hji]
        exact hbuf j (List.mem_cons_of_mem _ hj)

/-! ## A message there and back -/

/-- Each descriptor of the list has its own buffer. -/
def OwnBuffers (desc : Descs) (l : List Nat) : Prop := ∀ i ∈ l, (desc i).bufOffset = descTxbuf * i

/-- Reading needs the lengths, links and buffers of the descriptors. -/
theorem readChain_congr {desc' : Descs} (h : ∀ i, (desc' i).len = (desc i).len ∧
    (desc' i).nxtOffset = (desc i).nxtOffset ∧ (desc' i).bufOffset = (desc i).bufOffset) :
    readChain n p desc' shm = readChain n p desc shm := by
  induction n generalizing p with
  | zero => rfl
  | succ n ih =>
    obtain ⟨hlen, hnxt, hbuf⟩ := h (descAt p)
    simp only [readChain, hlen, hnxt, hbuf, ih]

theorem copyOut_congr (shm : Shmem) {shm' : Shmem} {a n : Nat}
    (h : ∀ x, a ≤ x → x < a + n → shm' x = shm x) :
    copyOut shm' a n = copyOut shm a n := by
  unfold copyOut
  apply List.map_congr_left
  intro k hk
  exact h (a + k) (Nat.le_add_right a k) (Nat.add_lt_add_left (List.mem_range.1 hk) a)

theorem copyOut_copyIn (shm : Shmem) (a : Nat) (c : List (BitVec 8)) :
    copyOut (copyIn shm a c) a c.length = c := by
  unfold copyOut copyIn
  apply List.ext_getElem
  · simp
  · intro k hk hk'
    simp [hk']

theorem copyIn_outside {a x : Nat} {c : List (BitVec 8)} (h : x < a ∨ a + c.length ≤ x) :
    copyIn shm a c x = shm x := by
  unfold copyIn
  split
  · rw [List.getD_eq_getElem?_getD, List.getElem?_eq_none (by omega), Option.getD_none]
  · rfl

/-- Writing the pieces changes the lengths of descriptors only. -/
theorem sendLoop_same (cs : List (List (BitVec 8))) (p : Nat) (desc : Descs) (shm : Shmem)
    (i : Nat) : (sendLoop cs p desc shm).1 i =
      { desc i with len := ((sendLoop cs p desc shm).1 i).len } := by
  induction cs generalizing p desc shm with
  | nil => rfl
  | cons c cs ih =>
    rw [sendLoop, ih]
    by_cases hi : i = descAt p
    · rw [hi, Function.update_self]
    · rw [Function.update_of_ne hi]

/-- The pieces go to the descriptors of the chain and to their buffers. -/
theorem sendLoop_outside {cs : List (List (BitVec 8))} (shm : Shmem) (h : Chain desc p l)
    (hbuf : OwnBuffers desc l) (hcs : cs.length ≤ l.length)
    (hfit : ∀ c ∈ cs, c.length ≤ descTxbuf) :
    (∀ i, i ∉ l → (sendLoop cs p desc shm).1 i = desc i) ∧
    ∀ i, i ∉ l → ∀ x, descTxbuf * i ≤ x → x < descTxbuf * (i + 1) →
      (sendLoop cs p desc shm).2 x = shm x := by
  induction l generalizing cs p desc shm with
  | nil =>
    obtain rfl : cs = [] := List.length_eq_zero_iff.1 (Nat.le_zero.1 hcs)
    exact ⟨fun _ _ => rfl, fun _ _ _ _ _ => rfl⟩
  | cons j l ih =>
    cases cs with
    | nil => exact ⟨fun _ _ => rfl, fun _ _ _ _ _ => rfl⟩
    | cons c cs =>
      have hj := (List.nodup_cons.mp h.nodup).1
      have hp : descAt p = j := by rw [h.1, descAt_descOffset]
      have hbj := hbuf j List.mem_cons_self
      have hfc := hfit c List.mem_cons_self
      have hbuf' : OwnBuffers (Function.update desc j { desc j with len := c.length }) l := by
        intro i hi
        have hij : i ≠ j := fun he => hj (he ▸ hi)
        rw [Function.update_of_ne hij]
        exact hbuf i (List.mem_cons_of_mem _ hi)
      obtain ⟨hdesc, hshm⟩ := ih (copyIn shm (desc j).bufOffset c)
        (h.update_head (d := { desc j with len := c.length })) hbuf'
        (Nat.le_of_succ_le_succ hcs) fun c' hc' => hfit c' (List.mem_cons_of_mem _ hc')
      rw [sendLoop, hp]
      refine ⟨fun i hi => ?_, fun i hi x hx hx' => ?_⟩ <;>
        rw [List.mem_cons, not_or] at hi
      · rw [hdesc i hi.2, Function.update_of_ne hi.1]
      · rw [hshm i hi.2 x hx hx', hbj]
        apply copyIn_outside
        rcases Nat.lt_or_gt_of_ne hi.1 with hlt | hgt
        · have hmul : descTxbuf * (i + 1) ≤ descTxbuf * j := Nat.mul_le_mul_left _ hlt
          omega
        · have hmul : descTxbuf * (j + 1) ≤ descTxbuf * i := Nat.mul_le_mul_left _ hgt
          rw [Nat.mul_succ] at hmul
          omega

/-- Along a chain, reading comes to an end. -/
theorem readChain_some (h : Chain desc p l) (hl : l ≠ []) (hn : l.length ≤ n) :
    ∃ data, readChain n p desc shm = some data := by
  induction l generalizing n p with
  | nil => exact absurd rfl hl
  | cons j l ih =>
    obtain ⟨n, rfl⟩ : ∃ m, n = m + 1 := ⟨n - 1, by simp at hn; omega⟩
    have hp : descAt p = j := by rw [h.1, descAt_descOffset]
    rw [readChain]
    simp only [hp]
    split
    · exact ⟨_, rfl⟩
    split
    · exact ⟨_, rfl⟩
    · rename_i hnext
      obtain ⟨data, hdata⟩ := ih h.2 (mt h.nil_iff.2 hnext) (by simpa using hn)
      rw [hdata]
      exact ⟨_, rfl⟩

/-- What is written along a chain with cleared lengths is what is read. -/
theorem readChain_sendLoop {cs : List (List (BitVec 8))} (h : Chain desc p l) (hl : l ≠ [])
    (hbuf : OwnBuffers desc l) (hlen : ∀ i ∈ l, (desc i).len = 0) (hcs : cs.length ≤ l.length)
    (hfit : ∀ c ∈ cs, c ≠ [] ∧ c.length ≤ descTxbuf) (hn : l.length ≤ n) :
    readChain n p (sendLoop cs p desc shm).1 (sendLoop cs p desc shm).2 = some cs.flatten := by
  induction l generalizing cs p desc shm n with
  | nil => exact absurd rfl hl
  | cons j l ih =>
    obtain ⟨n, rfl⟩ : ∃ m, n = m + 1 := ⟨n - 1, by simp at hn; omega⟩
    have hj := (List.nodup_cons.mp h.nodup).1
    have hp : descAt p = j := by rw [h.1, descAt_descOffset]
    cases cs with
    | nil =>
      rw [readChain, sendLoop]
      simp only [hp, hlen j List.mem_cons_self, if_true, List.flatten_nil]
    | cons c cs =>
      obtain ⟨hne, hfc⟩ := hfit c List.mem_cons_self
      have hbj := hbuf j List.mem_cons_self
      have hother : ∀ i ∈ l, Function.update desc j { desc j with len := c.length } i =
          desc i := by
        intro i hi
        have hij : i ≠ j := fun he => hj (he ▸ hi)
        exact Function.update_of_ne hij _ _
      have hbuf' : OwnBuffers (Function.update desc j { desc j with len := c.length }) l := by
        intro i hi
        rw [hother i hi]
        exact hbuf i (List.mem_cons_of_mem _ hi)
      have hfit' : ∀ c' ∈ cs, c' ≠ [] ∧ c'.length ≤ descTxbuf :=
        fun c' hc' => hfit c' (List.mem_cons_of_mem _ hc')
      have hcs' : cs.length ≤ l.length := Nat.le_of_succ_le_succ hcs
      obtain ⟨hdesc, hshm⟩ := sendLoop_outside (copyIn shm (desc j).bufOffset c)
        (h.update_head (d := { desc j with len := c.length })) hbuf' hcs'
        fun c' hc' => (hfit' c' hc').2
      have hhead : (sendLoop cs (desc j).nxtOffset
          (Function.update desc j { desc j with len := c.length })
          (copyIn shm (desc j).bufOffset c)).1 j = { desc j with len := c.length } := by
        rw [hdesc j hj, Function.update_self]
      have hpiece : copyOut (sendLoop cs (desc j).nxtOffset
          (Function.update desc j { desc j with len := c.length })
          (copyIn shm (desc j).bufOffset c)).2 (desc j).bufOffset c.length = c := by
        rw [copyOut_congr (copyIn shm (desc j).bufOffset c), copyOut_copyIn]
        intro x hx hx'
        refine hshm j hj x (hbj ▸ hx) ?_
        rw [Nat.mul_succ]
        omega
      rw [readChain, sendLoop]
      simp only [hp, hhead, hpiece]
      rw [if_neg (mt List.length_eq_zero_iff.1 hne)]
      by_cases hnil : l = []
      · obtain rfl : cs = [] := by
          rw [hnil] at hcs'
          exact List.length_eq_zero_iff.1 (Nat.le_zero.1 hcs')
        rw [if_pos (h.nil_iff.2 hnil), List.flatten_cons, List.flatten_nil, List.append_nil]
      · rw [if_neg (mt h.nil_iff.1 hnil), ih h.update_head hnil hbuf'
          (fun i hi => by rw [hother i hi]; exact hlen i (List.mem_cons_of_mem _ hi)) hcs' hfit'
          (by simpa using hn), Option.map_some, List.flatten_cons]

end Chains

section Chunks

variable {n : Nat} {data : List (BitVec 8)}

theorem flatten_chunks (h : data.length ≤ n) : (chunks n data).flatten = data := by
  induction n generalizing data with
  | zero => rw [List.length_eq_zero_iff.1 (Nat.le_zero.1 h)]; rfl
  | succ n ih =>
    rw [chunks]
    split
    · rename_i hnil
      rw [List.length_eq_zero_iff.1 hnil]
      rfl
    · rw [List.flatten_cons, ih, List.take_append_drop]
      rw [List.length_drop]
      unfold descTxbuf
      omega

theorem length_chunks (h : data.length ≤ n) :
    (chunks n data).length = (data.length + (descTxbuf - 1)) / descTxbuf := by
  induction n generalizing data with
  | zero => rw [List.length_eq_zero_iff.1 (Nat.le_zero.1 h)]; rfl
  | succ n ih =>
    rw [chunks]
    split
    · rename_i hnil
      rw [List.length_eq_zero_iff.1 hnil]
      rfl
    · have hdrop : (data.drop descTxbuf).length ≤ n := by
        rw [List.length_drop]
        unfold descTxbuf
        omega
      rw [List.length_cons, ih hdrop, List.length_drop]
      unfold descTxbuf
      omega

theorem mem_chunks {c : List (BitVec 8)} (hc : c ∈ chunks n data) :
    c ≠ [] ∧ c.length ≤ descTxbuf := by
  induction n generalizing data with
  | zero => exact absurd hc List.not_mem_nil
  | succ n ih =>
    rw [chunks] at hc
    split at hc
    · exact absurd hc List.not_mem_nil
    · rename_i hne
      rcases List.mem_cons.mp hc with rfl | hc
      · refine ⟨fun hnil => ?_, List.length_take_le _ _⟩
        have hlen := congrArg List.length hnil
        rw [List.length_take, List.length_nil] at hlen
        unfold descTxbuf at hlen
        omega
      · exact ih hc

end Chunks

end Ma35d1.Amp
