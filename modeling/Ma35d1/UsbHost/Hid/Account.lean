import Ma35d1.UsbHost.Hid.Transfer

/-!
# Who holds the UTRs of a HID device

A block is freed once or held once: by a slot, by the LEDs, or by the call under way. What
the controller has is not freed. Opening and closing a pipe and the frees that follow keep
the account, or the call says when they do not.
-/

namespace Ma35d1.UsbHost.Hid

def slotBlks : Option UtrId → List Blk
  | none => []
  | some u => [.utr u, .buff u]

def InHand.blks (h : InHand) : List Blk := .utr h.utr :: h.buff.toList.map fun _ => .buff h.utr

namespace Transfers

variable {s t : Transfers} {b : Blk} {u n : Nat}

/-- The blocks that are still to be freed. -/
def held (s : Transfers) : List Blk :=
  s.utrList.flatMap slotBlks ++ (s.utrLed.toList.map .utr ++ s.hand.flatMap InHand.blks)

/-- How often a block has been freed or is still to be freed. -/
def mass (s : Transfers) (b : Blk) : Nat := s.freed.count b + s.held.count b

/-- Every block allocated is freed once, with the size it has, or held once; and what the
controller has is not freed. -/
structure Owned (s : Transfers) : Prop where
  balanced : ∀ b ∈ s.allocated, s.mass b = 1
  whole : s.misfreed = []
  live : ∀ x ∈ s.owned, s.freed.count (.utr x.1) = 0 ∧ s.freed.count (.buff x.2) = 0

/-- What holds in every run. -/
structure Wf (s : Transfers) : Prop where
  known : ∀ b, s.mass b ≠ 0 → b ∈ s.allocated
  fresh : ∀ b ∈ s.allocated, b.num < s.next
  owned : ∀ x ∈ s.owned, .utr x.1 ∈ s.allocated ∧ .buff x.2 ∈ s.allocated
  /-- a buffer that does not belong to its UTR is freed already -/
  pair : ∀ x ∈ s.owned, x.2 = x.1 ∨ .buff x.2 ∈ s.freed
  int : ∀ u r, s.utr u = some r → r.func ≠ .ledCtrlIrq →
    .utr u ∈ s.allocated ∧ .buff u ∈ s.allocated

/-- The endpoint of a start call that gets as far as `usbh_int_xfer`. -/
def opens (s : Transfers) (dir : BitVec 8) (c : StartCall) : Option EpInfo :=
  if c.func.isSome ∧ ¬ s.utrList.any (s.slotHas fun ep => ep.bEndpointAddress == c.epAddr) ∧
      c.allocUtr = true ∧ c.allocBuff = true then
    ifaceFindEp s.eps c.epAddr (if c.epAddr = 0 then dir ||| epAttrTtInt else 0)
  else none

/-- An update of the LEDs keeps the accounts if it gets no buffer, or if it has a UTR that is
not busy and the controller does not take the transfer. -/
def LedKeeps (s : Transfers) (c : LedCall) : Prop :=
  c.allocBuff = true →
    ((s.utrLed = none → c.allocUtr = true) ∧ (s.utrLed ≠ none → s.ledDone = true)) ∧ c.ret < 0

/-- What a step has to keep to: a write that is not submitted has the length of its buffer; a
UTR is freed when the controller has let go of it, and its buffer with its size; a transfer
that is done is submitted again, and the LEDs keep the accounts. -/
def Keeps (s : Transfers) : Event → Prop
  | .startWrite c => ∀ ep, s.opens epAddrDirOut c = some ep → c.ret < 0 →
      DmaPool.wanted c.dataLen = DmaPool.wanted ep.wMaxPacketSize.toNat
  | .free => ∀ h ∈ s.hand.head?, (∀ n, (h.utr, n) ∉ s.owned) ∧
      ∀ size ∈ h.buff, DmaPool.wanted size = DmaPool.wanted (s.size h.utr)
  | .complete u _ status led _ ret => status = 0 → ∀ r, s.utr u = some r →
      match r.func with
      | .hidReadIrq => (s.keyboard = true → ∀ c ∈ led, s.LedKeeps c) ∧ ret = 0
      | .hidWriteIrq => ret = 0
      | .ledCtrlIrq => True
  | _ => True

/-! ## Counting -/

theorem held_count (s : Transfers) (b : Blk) : s.held.count b =
    (s.utrList.flatMap slotBlks).count b + ((s.utrLed.toList.map Blk.utr).count b +
      (s.hand.flatMap InHand.blks).count b) := by
  unfold held
  rw [List.count_append, List.count_append]

/-- One slot is changed. -/
theorem count_set {l : List (Option UtrId)} {i : Nat} {y : Option UtrId} (x : Option UtrId)
    (h : l[i]? = some y) : ((l.set i x).flatMap slotBlks).count b + (slotBlks y).count b =
      (l.flatMap slotBlks).count b + (slotBlks x).count b := by
  induction l generalizing i with
  | nil => cases h
  | cons z l ih =>
    cases i with
    | zero =>
      obtain rfl := Option.some.inj h
      rw [List.set_cons_zero, List.flatMap_cons, List.flatMap_cons, List.count_append,
        List.count_append]
      omega
    | succ i =>
      have := ih h
      rw [List.set_cons_succ, List.flatMap_cons, List.flatMap_cons, List.count_append,
        List.count_append]
      omega

theorem mass_ne_zero : s.mass b ≠ 0 ↔ b ∈ s.freed ∨ b ∈ s.held := by
  unfold mass
  rw [Ne, Nat.add_eq_zero_iff, not_and_or, List.count_eq_zero, List.count_eq_zero, not_not, not_not]

theorem Wf.held (hw : Wf s) (h : b ∈ s.held) : b ∈ s.allocated :=
  hw.known b (mass_ne_zero.mpr (.inr h))

theorem Wf.freed (hw : Wf s) (h : b ∈ s.freed) : b ∈ s.allocated :=
  hw.known b (mass_ne_zero.mpr (.inl h))

theorem Wf.mass_fresh (hw : Wf s) (h : s.next ≤ b.num) : s.mass b = 0 := by
  by_contra hm
  exact Nat.not_lt.mpr h (hw.fresh b (hw.known b hm))

theorem Wf.not_freed (hw : Wf s) (h : s.next ≤ b.num) : s.freed.count b = 0 :=
  (Nat.add_eq_zero_iff.mp (hw.mass_fresh h)).1

/-- A block with a place in the accounts. -/
theorem Owned.held_of_live (ho : Owned s) (hb : b ∈ s.allocated) (hf : s.freed.count b = 0) :
    s.held.count b = 1 := by
  have := ho.balanced b hb
  rw [mass, hf] at this
  omega

/-- What every step does: blocks are added, and only they and those known before are held or
freed; what is freed stays freed; a transfer that is taken is of known blocks. -/
structure Grows (s t : Transfers) (bs : List Blk) : Prop where
  allocated : t.allocated = bs ++ s.allocated
  num : ∀ b ∈ bs, b.num < t.next
  next : s.next ≤ t.next
  mass : ∀ b, t.mass b ≠ 0 → s.mass b ≠ 0 ∨ b ∈ bs
  freed : ∀ b ∈ s.freed, b ∈ t.freed
  owned : ∀ x ∈ t.owned, x ∈ s.owned ∨
    .utr x.1 ∈ t.allocated ∧ .buff x.2 ∈ t.allocated ∧ (x.2 = x.1 ∨ .buff x.2 ∈ t.freed)
  int : ∀ u r, t.utr u = some r → r.func ≠ .ledCtrlIrq →
    (∃ r', s.utr u = some r' ∧ r'.func ≠ .ledCtrlIrq) ∨ .utr u ∈ t.allocated ∧ .buff u ∈ t.allocated

theorem Grows.wf (bs : List Blk) (hw : Wf s) (h : Grows s t bs) : Wf t := by
  have hold : ∀ b ∈ s.allocated, b ∈ t.allocated := fun b hb => by
    rw [h.allocated]
    exact List.mem_append_right _ hb
  refine ⟨fun b hb => ?_, fun b hb => ?_, fun x hx => ?_, fun x hx => ?_, fun u r hu hr => ?_⟩
  · rcases h.mass b hb with hm | hm
    · exact hold b (hw.known b hm)
    · rw [h.allocated]
      exact List.mem_append_left _ hm
  · rw [h.allocated] at hb
    rcases List.mem_append.mp hb with hb | hb
    · exact h.num b hb
    · exact Nat.lt_of_lt_of_le (hw.fresh b hb) h.next
  · rcases h.owned x hx with hx | hx
    · exact ⟨hold _ (hw.owned x hx).1, hold _ (hw.owned x hx).2⟩
    · exact ⟨hx.1, hx.2.1⟩
  · rcases h.owned x hx with hx | hx
    · exact (hw.pair x hx).imp_right (h.freed _)
    · exact hx.2.2
  · rcases h.int u r hu hr with ⟨r', hu', hr'⟩ | hnew
    · exact ⟨hold _ (hw.int u r' hu' hr').1, hold _ (hw.int u r' hu' hr').2⟩
    · exact hnew

/-- The blocks of an interrupt transfer. -/
theorem count_pair (n : Nat) (b : Blk) :
    [Blk.utr n, .buff n].count b = if b.num = n then 1 else 0 := by
  cases b with
  | utr m =>
    by_cases h : m = n
    · subst h
      simp [Blk.num]
    · simp [Blk.num, h, Ne.symm h]
  | buff m =>
    by_cases h : m = n
    · subst h
      simp [Blk.num]
    · simp [Blk.num, h, Ne.symm h]

/-! ## Start -/

/-- A UTR and its buffer have been allocated. -/
structure Opened (s o : Transfers) (len : Nat) : Prop where
  allocated : o.allocated = .buff s.next :: .utr s.next :: s.allocated
  freed : o.freed = s.freed
  owned : o.owned = s.owned
  misfreed : o.misfreed = s.misfreed
  utrList : o.utrList = s.utrList
  utrLed : o.utrLed = s.utrLed
  hand : o.hand = s.hand
  next : o.next = s.next + 1
  size : o.size s.next = len
  utr : ∀ u, u ≠ s.next → o.utr u = s.utr u

section

variable {irq : IrqFunc} {dir : BitVec 8} {setFunc : FuncId → Transfers → Transfers}
  {dl : EpInfo → Nat} {c : StartCall}

/-- A start call that does not get to `usbh_int_xfer` changes nothing, but for a UTR allocated
and freed again. -/
theorem startInt_cases (irq : IrqFunc) (dir : BitVec 8) (dl : EpInfo → Nat) (c : StartCall)
    (hset : ∀ f s, ∃ r w, setFunc f s = { s with readFunc := r, writeFunc := w }) :
    (s.opens dir c = none ∧ ((startInt irq dir setFunc dl s c).2 = s ∨
      (startInt irq dir setFunc dl s c).2 = (s.newUtr s.next).freeUtr s.next)) ∨
    ∃ ep o, s.opens dir c = some ep ∧ Opened s o ep.wMaxPacketSize.toNat ∧
      (startInt irq dir setFunc dl s c).2 = (o.submit s.next (dl ep) c.ret).2 := by
  unfold opens startInt
  cases hf : c.func with
  | none => exact .inl ⟨if_neg (fun h => absurd h.1 (by simp)), .inl rfl⟩
  | some func =>
    dsimp only
    by_cases hr : s.utrList.any (s.slotHas fun ep => ep.bEndpointAddress == c.epAddr) = true
    · rw [if_pos hr, if_neg fun h => h.2.1 hr]
      exact .inl ⟨rfl, .inl rfl⟩
    rw [if_neg hr]
    cases he : ifaceFindEp s.eps c.epAddr (if c.epAddr = 0 then dir ||| epAttrTtInt else 0) with
    | none =>
      dsimp only
      exact .inl ⟨by split <;> rfl, .inl rfl⟩
    | some ep =>
      dsimp only
      by_cases hu : c.allocUtr = false
      · rw [if_pos hu, if_neg fun h => absurd (hu.symm.trans h.2.2.1) (by decide)]
        exact .inl ⟨rfl, .inl rfl⟩
      rw [if_neg hu]
      by_cases hb : c.allocBuff = false
      · rw [if_pos hb, if_neg fun h => absurd (hb.symm.trans h.2.2.2) (by decide)]
        exact .inl ⟨rfl, .inr rfl⟩
      rw [if_neg hb, if_pos ⟨rfl, hr, eq_true_of_ne_false hu, eq_true_of_ne_false hb⟩]
      obtain ⟨r, w, hset⟩ := hset func (((s.newUtr s.next).newBuff s.next
        ep.wMaxPacketSize.toNat).setUtr s.next ⟨irq, some ep, dl ep⟩)
      refine .inr ⟨ep, _, rfl, ?_, rfl⟩
      rw [hset]
      exact ⟨rfl, rfl, rfl, rfl, rfl, rfl, rfl, rfl, Function.update_self ..,
        fun u hu => Function.update_of_ne hu ..⟩

/-- Where the accounts of a transfer stand behind `submit`. -/
theorem submit_mass {o : Transfers} {len : Nat} (d : Nat) (ret : Int) (ho : Opened s o len)
    (hh : s.hand = []) (b : Blk) :
    (o.submit s.next d ret).2.mass b = s.mass b + [Blk.utr s.next, .buff s.next].count b := by
  unfold submit mass
  rw [held_count, held_count]
  split
  · show (Blk.utr s.next :: .buff s.next :: o.freed).count b + ((o.utrList.flatMap slotBlks).count b +
      ((o.utrLed.toList.map Blk.utr).count b + (o.hand.flatMap InHand.blks).count b)) = _
    rw [ho.freed, ho.utrList, ho.utrLed, ho.hand, List.count_cons, List.count_cons,
      List.count_cons, List.count_cons, List.count_nil]
    omega
  · split
    · show o.freed.count b + ((o.utrList.flatMap slotBlks).count b +
        ((o.utrLed.toList.map Blk.utr).count b + [Blk.utr s.next, .buff s.next].count b)) = _
      rw [ho.freed, ho.utrList, ho.utrLed, hh]
      show _ = s.freed.count b + ((s.utrList.flatMap slotBlks).count b +
        ((s.utrLed.toList.map Blk.utr).count b + 0)) + _
      omega
    · rename_i i hi
      obtain ⟨hlt, hnone, -⟩ := List.findIdx?_eq_some_iff_getElem.mp hi
      have hget : o.utrList[i]? = some none := by
        rw [List.getElem?_eq_getElem hlt, Option.isNone_iff_eq_none.mp hnone]
      have hset := count_set (some s.next) (b := b) hget
      show o.freed.count b + (((o.utrList.set i (some s.next)).flatMap slotBlks).count b +
        ((o.utrLed.toList.map Blk.utr).count b + (o.hand.flatMap InHand.blks).count b)) = _
      have h0 : (slotBlks none).count b = 0 := rfl
      have h1 : (slotBlks (some s.next)).count b = [Blk.utr s.next, .buff s.next].count b := rfl
      rw [h0, h1] at hset
      rw [ho.utrList] at hset
      rw [ho.freed, ho.utrList, ho.utrLed, ho.hand]
      omega

/-- What `submit` does to the rest. -/
theorem submit_rest {o : Transfers} {len : Nat} (d : Nat) (ret : Int) (ho : Opened s o len) :
    (o.submit s.next d ret).2.allocated = .buff s.next :: .utr s.next :: s.allocated ∧
      (o.submit s.next d ret).2.next = s.next + 1 ∧
      (o.submit s.next d ret).2.freed =
        (if ret < 0 then .utr s.next :: .buff s.next :: s.freed else s.freed) ∧
      (o.submit s.next d ret).2.owned =
        (if ret < 0 then s.owned else (s.next, s.next) :: s.owned) ∧
      (o.submit s.next d ret).2.misfreed =
        (if ret < 0 ∧ DmaPool.wanted d ≠ DmaPool.wanted len then s.next :: s.misfreed
          else s.misfreed) ∧
      (o.submit s.next d ret).2.utr = o.utr := by
  unfold submit
  split
  · rename_i hr
    have hmis : (o.freeBuff s.next d).misfreed =
        if ret < 0 ∧ DmaPool.wanted d ≠ DmaPool.wanted len then s.next :: s.misfreed
        else s.misfreed := by
      unfold freeBuff
      rw [ho.size, ho.misfreed]
      by_cases hd : DmaPool.wanted d = DmaPool.wanted len
      · rw [if_pos hd, if_neg fun h => h.2 hd]
      · rw [if_neg hd, if_pos ⟨hr, hd⟩]
    refine ⟨ho.allocated, ho.next, ?_, ho.owned, hmis, rfl⟩
    exact congrArg (fun l => Blk.utr s.next :: .buff s.next :: l) ho.freed
  · rename_i hr
    rw [if_neg fun h => hr h.1]
    have hq : (s.next, s.next) :: o.owned = (s.next, s.next) :: s.owned := by rw [ho.owned]
    split
    · exact ⟨ho.allocated, ho.next, ho.freed, hq, ho.misfreed, rfl⟩
    · exact ⟨ho.allocated, ho.next, ho.freed, hq, ho.misfreed, rfl⟩

theorem submit_wf {o : Transfers} {len d : Nat} {ret : Int} (hw : Wf s) (ho : Opened s o len)
    (hh : s.hand = []) : Wf (o.submit s.next d ret).2 := by
  have hmass := submit_mass d ret ho hh
  obtain ⟨ha, hn, hf, hq, -, hu⟩ := submit_rest d ret ho
  refine Grows.wf [.buff s.next, .utr s.next] hw ⟨ha, fun b hb => ?_, ?_, fun b hb => ?_,
    fun b hb => ?_, fun x hx => ?_, fun u r hr hf => ?_⟩
  · rw [hn]
    rcases List.mem_cons.mp hb with rfl | hb
    · exact Nat.lt_succ_self _
    · rw [List.mem_singleton.mp hb]
      exact Nat.lt_succ_self _
  · rw [hn]
    exact Nat.le_succ _
  · rw [hmass] at hb
    by_cases h0 : s.mass b = 0
    · refine .inr ?_
      have hp : b ∈ [Blk.utr s.next, .buff s.next] :=
        List.count_pos_iff.mp (Nat.pos_of_ne_zero fun h => hb (by rw [h0, h]))
      rcases List.mem_cons.mp hp with rfl | hp
      · exact List.mem_cons_of_mem _ List.mem_cons_self
      · rw [List.mem_singleton.mp hp]
        exact List.mem_cons_self
    · exact .inl h0
  · rw [hf]
    split
    · exact List.mem_cons_of_mem _ (List.mem_cons_of_mem _ hb)
    · exact hb
  · rw [hq] at hx
    split at hx
    · exact .inl hx
    · rcases List.mem_cons.mp hx with rfl | hx
      · rw [ha]
        exact .inr ⟨List.mem_cons_of_mem _ List.mem_cons_self, List.mem_cons_self, .inl rfl⟩
      · exact .inl hx
  · rw [ha]
    by_cases hn : u = s.next
    · rw [hn]
      exact .inr ⟨List.mem_cons_of_mem _ List.mem_cons_self, List.mem_cons_self⟩
    · rw [hu, ho.utr u hn] at hr
      exact .inl ⟨r, hr, hf⟩

/-- The accounts are kept exactly where a transfer that is not submitted frees a buffer of the
size it has. -/
theorem submit_owned_iff {o : Transfers} {len d : Nat} {ret : Int} (hw : Wf s) (hs : Owned s)
    (ho : Opened s o len) (hh : s.hand = []) :
    Owned (o.submit s.next d ret).2 ↔
      (ret < 0 → DmaPool.wanted d = DmaPool.wanted len) := by
  have hmass := submit_mass d ret ho hh
  obtain ⟨ha, -, hf, hq, hm, -⟩ := submit_rest d ret ho
  generalize (o.submit s.next d ret).2 = t at hmass ha hf hq hm ⊢
  constructor
  · intro ht hr
    by_contra hd
    have := ht.whole
    rw [hm, if_pos ⟨hr, hd⟩] at this
    cases this
  · intro hd
    refine ⟨fun b hb => ?_, ?_, fun x hx => ?_⟩
    · rw [hmass, count_pair]
      rw [ha] at hb
      by_cases hn : b.num = s.next
      · rw [if_pos hn, hw.mass_fresh (Nat.le_of_eq hn.symm)]
      · rw [if_neg hn]
        rcases List.mem_cons.mp hb with rfl | hb
        · exact absurd rfl hn
        rcases List.mem_cons.mp hb with rfl | hb
        · exact absurd rfl hn
        · exact hs.balanced b hb
    · rw [hm, if_neg fun h => h.2 (hd h.1)]
      exact hs.whole
    · rw [hq] at hx
      rw [hf]
      by_cases hr : ret < 0
      · rw [if_pos hr] at hx ⊢
        obtain ⟨h₁, h₂⟩ := hs.live x hx
        have hn₁ : x.1 ≠ s.next := Nat.ne_of_lt (hw.fresh _ (hw.owned x hx).1)
        have hn₂ : x.2 ≠ s.next := Nat.ne_of_lt (hw.fresh _ (hw.owned x hx).2)
        constructor
        · rw [List.count_cons_of_ne (by simpa using Ne.symm hn₁), List.count_cons_of_ne (by simp), h₁]
        · rw [List.count_cons_of_ne (by simp), List.count_cons_of_ne (by simpa using Ne.symm hn₂), h₂]
      · rw [if_neg hr] at hx ⊢
        rcases List.mem_cons.mp hx with rfl | hx
        · exact ⟨hw.not_freed (Nat.le_refl _), hw.not_freed (Nat.le_refl _)⟩
        · exact hs.live x hx

/-- A UTR is allocated and freed again. -/
theorem newUtr_freeUtr_mass (b : Blk) :
    ((s.newUtr s.next).freeUtr s.next).mass b = s.mass b + [Blk.utr s.next].count b := by
  show (Blk.utr s.next :: s.freed).count b + s.held.count b = s.freed.count b + s.held.count b + _
  rw [List.count_cons, List.count_cons, List.count_nil]
  omega

theorem newUtr_freeUtr_wf (hw : Wf s) : Wf ((s.newUtr s.next).freeUtr s.next) := by
  refine Grows.wf [.utr s.next] hw ⟨rfl, fun b hb => ?_, Nat.le_succ _, fun b hb => ?_,
    fun b hb => List.mem_cons_of_mem _ hb, fun x hx => .inl hx,
    fun u r hr hf => .inl ⟨r, hr, hf⟩⟩
  · rw [List.mem_singleton.mp hb]
    exact Nat.lt_succ_self _
  · rw [newUtr_freeUtr_mass] at hb
    by_cases h0 : s.mass b = 0
    · exact .inr (List.count_pos_iff.mp (Nat.pos_of_ne_zero fun h => hb (by rw [h0, h])))
    · exact .inl h0

theorem newUtr_freeUtr_owned (hw : Wf s) (hs : Owned s) :
    Owned ((s.newUtr s.next).freeUtr s.next) := by
  refine ⟨fun b hb => ?_, hs.whole, fun x hx => ?_⟩
  · rw [newUtr_freeUtr_mass]
    rcases List.mem_cons.mp hb with rfl | hb
    · rw [hw.mass_fresh (Nat.le_refl _), List.count_singleton_self]
    · have hne : b ≠ .utr s.next := fun h => Nat.lt_irrefl _ (h ▸ hw.fresh b hb)
      rw [hs.balanced b hb, List.count_singleton, if_neg (by simpa using Ne.symm hne)]
  · obtain ⟨h₁, h₂⟩ := hs.live x hx
    have hn : x.1 ≠ s.next := Nat.ne_of_lt (hw.fresh _ (hw.owned x hx).1)
    refine ⟨?_, ?_⟩
    · exact (List.count_cons_of_ne (by simpa using Ne.symm hn)).trans h₁
    · exact (List.count_cons_of_ne (by simp)).trans h₂

theorem startInt_wf
    (hset : ∀ f s, ∃ r w, setFunc f s = { s with readFunc := r, writeFunc := w })
    (hw : Wf s) (hh : s.hand = []) : Wf (startInt irq dir setFunc dl s c).2 := by
  rcases startInt_cases irq dir dl c hset with ⟨-, he | he⟩ | ⟨ep, o, -, ho, he⟩
  · rwa [he]
  · rw [he]
    exact newUtr_freeUtr_wf hw
  · rw [he]
    exact submit_wf hw ho hh

theorem startInt_owned_iff
    (hset : ∀ f s, ∃ r w, setFunc f s = { s with readFunc := r, writeFunc := w })
    (hw : Wf s) (hs : Owned s) (hh : s.hand = []) :
    Owned (startInt irq dir setFunc dl s c).2 ↔ ∀ ep, s.opens dir c = some ep → c.ret < 0 →
      DmaPool.wanted (dl ep) = DmaPool.wanted ep.wMaxPacketSize.toNat := by
  rcases startInt_cases irq dir dl c hset with
    ⟨hn, he⟩ | ⟨ep, o, hep, ho, he⟩
  · refine iff_of_true ?_ fun ep hep => absurd (hn.symm.trans hep) (by simp)
    rcases he with he | he
    · rwa [he]
    · rw [he]
      exact newUtr_freeUtr_owned hw hs
  · rw [he, submit_owned_iff hw hs ho hh, hep]
    exact ⟨fun h ep' hep' => Option.some.inj hep' ▸ h, fun h => h ep rfl⟩

end

/-! ## Stop and disconnect -/

/-- Blocks go from one holder to another. -/
structure Moves (s t : Transfers) : Prop where
  allocated : t.allocated = s.allocated
  freed : t.freed = s.freed
  owned : t.owned = s.owned
  misfreed : t.misfreed = s.misfreed
  next : t.next = s.next
  utr : t.utr = s.utr
  held : ∀ b, t.held.count b = s.held.count b

theorem Moves.mass (h : Moves s t) (b : Blk) : t.mass b = s.mass b := by
  rw [Transfers.mass, Transfers.mass, h.freed, h.held]

theorem Moves.wf (h : Moves s t) (hw : Wf s) : Wf t := by
  refine Grows.wf [] hw ⟨h.allocated, nofun, Nat.le_of_eq h.next.symm, fun b hb => ?_,
    fun b hb => ?_, fun x hx => ?_, fun u r hu hr => ?_⟩
  · rw [h.mass] at hb
    exact .inl hb
  · rwa [h.freed]
  · rw [h.owned] at hx
    exact .inl hx
  · rw [h.utr] at hu
    exact .inl ⟨r, hu, hr⟩

theorem Moves.owns (h : Moves s t) (hs : Owned s) : Owned t := by
  refine ⟨fun b hb => ?_, ?_, fun x hx => ?_⟩
  · rw [h.allocated] at hb
    rw [h.mass]
    exact hs.balanced b hb
  · rw [h.misfreed]
    exact hs.whole
  · rw [h.owned] at hx
    rw [h.freed]
    exact hs.live x hx

theorem stopInt_moves (dir epAddr : BitVec 8) (quit : Int) (hh : s.hand = []) :
    Moves s (stopInt dir s epAddr quit).2 := by
  have hself : Moves s s := ⟨rfl, rfl, rfl, rfl, rfl, rfl, fun _ => rfl⟩
  unfold stopInt
  dsimp only
  split
  · exact hself
  · rename_i i _
    split
    · exact hself
    · rename_i u hu
      refine ⟨rfl, rfl, rfl, rfl, rfl, rfl, fun b => ?_⟩
      have hget : s.utrList[i]? = some (some u) := by
        rw [List.getD_eq_getElem?_getD] at hu
        cases hx : s.utrList[i]? with
        | none =>
          rw [hx] at hu
          cases hu
        | some x =>
          rw [hx] at hu
          exact congrArg some hu
      have hset := count_set none (b := b) hget
      rw [held_count, held_count, hh]
      show ((s.utrList.set i none).flatMap slotBlks).count b +
        ((s.utrLed.toList.map Blk.utr).count b + [Blk.utr u, .buff u].count b) =
        (s.utrList.flatMap slotBlks).count b + ((s.utrLed.toList.map Blk.utr).count b + 0)
      have h0 : (slotBlks none).count b = 0 := rfl
      have h1 : (slotBlks (some u)).count b = [Blk.utr u, .buff u].count b := rfl
      rw [h0, h1] at hset
      omega

theorem hidDisconnect_moves (hh : s.hand = []) : Moves s s.hidDisconnect := by
  refine ⟨rfl, rfl, rfl, rfl, rfl, rfl, fun b => ?_⟩
  have hnone : ∀ l : List (Option UtrId), (l.map fun _ => none).flatMap slotBlks = [] := by
    intro l
    induction l with
    | nil => rfl
    | cons x l ih => exact ih
  have htake : ∀ l : List (Option UtrId), (l.filterMap fun x => x.map fun u =>
      (⟨u, some (s.epLen u)⟩ : InHand)).flatMap InHand.blks = l.flatMap slotBlks := by
    intro l
    induction l with
    | nil => rfl
    | cons x l ih =>
      cases x with
      | none => exact ih
      | some u => exact congrArg (fun bs => Blk.utr u :: .buff u :: bs) ih
  rw [held_count, held_count, hh]
  show ((s.utrList.map fun _ => none).flatMap slotBlks).count b +
    ((s.utrLed.toList.map Blk.utr).count b + ((s.utrList.filterMap fun x => x.map fun u =>
      (⟨u, some (s.epLen u)⟩ : InHand)).flatMap InHand.blks).count b) =
    (s.utrList.flatMap slotBlks).count b + ((s.utrLed.toList.map Blk.utr).count b + 0)
  rw [hnone, htake, List.count_nil]
  omega

theorem quitLed_moves (hh : s.hand = []) : Moves s { s with
    phase := .led
    utrLed := none
    hand := s.utrLed.toList.map fun u => ⟨u, none⟩ } := by
  refine ⟨rfl, rfl, rfl, rfl, rfl, rfl, fun b => ?_⟩
  rw [held_count, held_count, hh]
  show (s.utrList.flatMap slotBlks).count b + (0 +
    ((s.utrLed.toList.map fun u => (⟨u, none⟩ : InHand)).flatMap InHand.blks).count b) =
    (s.utrList.flatMap slotBlks).count b + ((s.utrLed.toList.map Blk.utr).count b + 0)
  cases s.utrLed with
  | none => rfl
  | some u => exact congrArg _ (Nat.zero_add _)

/-! ## Freeing what is in hand -/

theorem freeHand_freed (s : Transfers) (h : InHand) : (s.freeHand h).freed = h.blks ++ s.freed := by
  unfold freeHand InHand.blks
  cases h.buff with
  | none => rfl
  | some size => rfl

theorem freeHand_rest (s : Transfers) (h : InHand) : (s.freeHand h).allocated = s.allocated ∧
    (s.freeHand h).owned = s.owned ∧ (s.freeHand h).next = s.next ∧
    (s.freeHand h).held = s.held ∧ (s.freeHand h).utr = s.utr := by
  unfold freeHand
  cases h.buff with
  | none => exact ⟨rfl, rfl, rfl, rfl, rfl⟩
  | some size => exact ⟨rfl, rfl, rfl, rfl, rfl⟩

theorem freeHand_misfreed (s : Transfers) (h : InHand) (hm : s.misfreed = []) :
    (s.freeHand h).misfreed = [] ↔
      ∀ size ∈ h.buff, DmaPool.wanted size = DmaPool.wanted (s.size h.utr) := by
  unfold freeHand
  cases h.buff with
  | none => exact iff_of_true hm nofun
  | some size =>
    show (if DmaPool.wanted size = DmaPool.wanted (s.size h.utr) then s.misfreed
      else h.utr :: s.misfreed) = [] ↔ _
    split
    · rename_i hd
      exact iff_of_true hm fun size' hs => Option.some.inj hs ▸ hd
    · rename_i hd
      exact iff_of_false (List.cons_ne_nil _ _) fun hs => hd (hs size rfl)

theorem free_mass {h : InHand} {hs : List InHand} (hh : s.hand = h :: hs) (b : Blk) :
    ({ s with hand := hs }.freeHand h).mass b = s.mass b := by
  unfold mass
  rw [freeHand_freed, (freeHand_rest _ h).2.2.2.1, held_count, held_count, hh, List.flatMap_cons,
    List.count_append, List.count_append]
  show h.blks.count b + s.freed.count b + ((s.utrList.flatMap slotBlks).count b +
    ((s.utrLed.toList.map Blk.utr).count b + (hs.flatMap InHand.blks).count b)) = _
  omega

theorem free_wf {h : InHand} {hs : List InHand} (hw : Wf s) (hh : s.hand = h :: hs) :
    Wf ({ s with hand := hs }.freeHand h) := by
  obtain ⟨ha, ho, hn, -, hu⟩ := freeHand_rest { s with hand := hs } h
  refine Grows.wf [] hw ⟨ha, nofun, Nat.le_of_eq hn.symm, fun b hb => ?_, fun b hb => ?_,
    fun x hx => ?_, fun u r hr hf => ?_⟩
  · rw [free_mass hh] at hb
    exact .inl hb
  · rw [freeHand_freed]
    exact List.mem_append_right _ hb
  · rw [ho] at hx
    exact .inl hx
  · rw [hu] at hr
    exact .inl ⟨r, hr, hf⟩

theorem free_owned_iff {h : InHand} {hs : List InHand} (hw : Wf s) (ho : Owned s)
    (hh : s.hand = h :: hs) : Owned ({ s with hand := hs }.freeHand h) ↔ s.Keeps .free := by
  obtain ⟨ha, hq, -, -⟩ := freeHand_rest { s with hand := hs } h
  have hk : s.Keeps .free ↔ (∀ n, (h.utr, n) ∉ s.owned) ∧
      ∀ size ∈ h.buff, DmaPool.wanted size = DmaPool.wanted (s.size h.utr) := by
    show (∀ h' ∈ s.hand.head?, _) ↔ _
    rw [hh]
    exact ⟨fun hk => hk h rfl, fun hk h' he => Option.some.inj he ▸ hk⟩
  have hmis := freeHand_misfreed { s with hand := hs } h ho.whole
  rw [hk]
  constructor
  · intro ht
    refine ⟨fun n hn => ?_, hmis.mp ht.whole⟩
    have hl := (ht.live (h.utr, n) (by rw [hq]; exact hn)).1
    rw [freeHand_freed] at hl
    exact List.count_eq_zero.mp hl (List.mem_append_left _ List.mem_cons_self)
  · rintro ⟨hno, hsize⟩
    refine ⟨fun b hb => ?_, hmis.mpr hsize, fun x hx => ?_⟩
    · rw [ha] at hb
      rw [free_mass hh]
      exact ho.balanced b hb
    · rw [hq] at hx
      obtain ⟨h₁, h₂⟩ := ho.live x hx
      have hne₁ : x.1 ≠ h.utr := fun he => hno x.2 (he ▸ hx)
      have hne₂ : x.2 ≠ h.utr := by
        rcases hw.pair x hx with he | hf
        · rwa [he]
        · exact absurd hf (List.count_eq_zero.mp h₂)
      have hout : ∀ b : Blk, b.num ≠ h.utr → h.blks.count b = 0 := by
        intro b hb
        refine List.count_eq_zero.mpr fun hm => hb ?_
        rcases List.mem_cons.mp hm with rfl | hm
        · rfl
        · obtain ⟨_, -, rfl⟩ := List.mem_map.mp hm
          rfl
      rw [freeHand_freed, List.count_append, List.count_append, hout (.utr x.1) hne₁,
        hout (.buff x.2) hne₂]
      exact ⟨(Nat.zero_add _).trans h₁, (Nat.zero_add _).trans h₂⟩

end Transfers

end Ma35d1.UsbHost.Hid
