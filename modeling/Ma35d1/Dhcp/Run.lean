import Ma35d1.Dhcp.Law
import Ma35d1.Machine.Trace

/-!
# The runs of the DHCP client

The options of a packet one by one, then each place of the client, the interrupt, and the run.
-/

namespace Ma35d1.Dhcp

open Ma35d1.Machine.Trace

namespace DhcpStart

variable {s t : DhcpStart} {e : Event} {f : Frame} {c : Nat} {os : List Opt}

/-! ## What the options are read from -/

theorem Buffers.same (h : Buffers s) (hs : ∀ i n, s.pc ≠ .copy i n) (ht : ∀ i n, t.pc ≠ .copy i n)
    (hrx : t.rxBuf = s.rxBuf ∧ t.pktRdy = s.pktRdy ∧ t.source = s.source)
    (hbuf : t.buf = s.buf ∧ t.held = s.held ∧ t.got = s.got) : Buffers t := by
  obtain ⟨h1, h2, h3⟩ := hrx
  obtain ⟨h4, h5, h6⟩ := hbuf
  refine ⟨?_, ?_, fun _ => ?_, fun i n hpc => absurd hpc (ht i n)⟩
  · rw [h1, h2, h3]
    exact h.source
  · rw [h2, h3]
    exact h.ready
  · rw [h4, h5, h6]
    exact h.held hs

/-- What an option that is read says of the packet -/
theorem Buffers.option (h : Buffers s) (hs : ∀ i n, s.pc ≠ .copy i n) (hf : s.held = some f)
    (hrest : f.Rest c os) : c < rxSize ∧ s.buf c = f.bytes c ∧
      (s.buf c ≠ optEnd → s.buf (c + 1) = f.bytes (c + 1) ∧ s.buf (c + 2) = f.bytes (c + 2) ∧
        c + s.optLen c < s.got ∧ ∃ rest, os = ⟨s.buf c, s.optLen c - 2, s.buf (c + 2)⟩ :: rest ∧
          f.Rest (c + s.optLen c) rest) ∧ (s.buf c = optEnd → os = []) ∧ c < s.got := by
  obtain ⟨hlen, hgot, hholds⟩ := h.held hs f hf
  have hlt := hrest.lt
  have hc := hholds c hlt
  refine ⟨hlt.trans_le hlen, hc, fun hne => ?_, fun hend => ?_, hgot ▸ hlt⟩
  · rcases hrest.cases with ⟨hend, -⟩ | ⟨-, hlt', rest, hos, hrest'⟩
    · exact absurd (hc.trans hend) hne
    · have h1 : s.buf (c + 1) = f.bytes (c + 1) := hholds _ (by omega)
      have h2 : s.buf (c + 2) = f.bytes (c + 2) := hholds _ (by omega)
      have hl : s.optLen c = (f.bytes (c + 1)).toNat + 2 := by rw [optLen, h1]
      refine ⟨h1, h2, ?_, rest, ?_, ?_⟩
      · rw [hl, hgot]
        exact hlt'
      · rw [hl, hc, h2, Nat.add_sub_cancel]
        exact hos
      · rw [hl]
        exact hrest'
  · rcases hrest.cases with ⟨-, -, hos⟩ | ⟨hne, -⟩
    · exact hos
    · exact absurd (hc.symm.trans hend) hne

/-- A byte of the packet is read. -/
theorem look_stray (h : s.stray = false) {k : Nat} (hk : k < s.got) : (s.look k).stray = false := by
  show (s.stray || decide (s.got ≤ k)) = false
  rw [h, Bool.false_or, decide_eq_false_iff_not]
  exact Nat.not_le.mpr hk

/-! ## The measure -/

theorem tryCost_eq : tryCost = 26843548800 := rfl

theorem measure_poll (h : s.pc = .poll) : s.measure =
    (if s.acking then 0 else maxTries * tryCost) + (maxTries - 1 - s.retry) * tryCost +
      (3200 + s.delay.toNat * 1600) := by
  unfold measure within
  rw [h]

theorem measure_copy {i n : Nat} (h : s.pc = .copy i n) : s.measure =
    (if s.acking then 0 else maxTries * tryCost) + (maxTries - 1 - s.retry) * tryCost +
      (3200 + s.delay.toNat * 1600 + (n - i) + 1) := by
  unfold measure within
  rw [h]

theorem measure_read (h : s.pc = .read c) : s.measure =
    (if s.acking then 0 else maxTries * tryCost) + (maxTries - 1 - s.retry) * tryCost +
      (1600 + (rxSize - c)) := by
  unfold measure within
  rw [h]

theorem measure_lease (h : s.pc = .lease c) : s.measure = 1 + (rxSize - c) := by
  unfold measure within
  rw [h]

theorem measure_done {ok : Bool} (h : s.pc = .done ok) : s.measure = 0 := by
  unfold measure within
  rw [h]

/-! ## The next message, and the end -/

/-- A message is sent, and the client polls. -/
theorem Inv.sent (h : Inv s) (hs : ∀ i n, s.pc ≠ .copy i n) {u : DhcpStart}
    (hrx : u.rxBuf = s.rxBuf ∧ u.pktRdy = s.pktRdy ∧ u.source = s.source)
    (hbuf : u.buf = s.buf ∧ u.held = s.held ∧ u.got = s.got) (hstray : u.stray = false)
    (hoverrun : u.overrun = false) (hretry : u.retry < maxTries) (hout : u.out = false) :
    Inv u.send :=
  ⟨h.buffers.same hs (fun _ _ hpc => Pc.noConfusion hpc) hrx hbuf, hstray, hoverrun,
    .inl (Nat.le_refl _), .inl hretry, fun _ => hout, fun _ hpc => Pc.noConfusion hpc,
    fun _ hpc => Pc.noConfusion hpc, fun _ hpc => Pc.noConfusion hpc,
    fun _ ha => Bool.noConfusion ha⟩

/-- `dhcp_start` returns. -/
theorem Inv.returned (h : Inv s) (hs : ∀ i n, s.pc ≠ .copy i n) {u : DhcpStart} {ok : Bool}
    (hrx : u.rxBuf = s.rxBuf ∧ u.pktRdy = s.pktRdy ∧ u.source = s.source)
    (hbuf : u.buf = s.buf ∧ u.held = s.held ∧ u.got = s.got) (hstray : u.stray = false)
    (hoverrun : u.overrun = false) (hpc : u.pc = .done ok)
    (hout : u.acking = true → u.out = false) : Inv u := by
  have hcopy : ∀ i n, u.pc ≠ .copy i n := fun i n h' => Pc.noConfusion (hpc.symm.trans h')
  refine ⟨h.buffers.same hs hcopy hrx hbuf, hstray, hoverrun, .inr fun i n => ⟨?_, hcopy i n⟩,
    .inr ⟨ok, hpc⟩, ?_, fun c h' => ?_, fun c h' => ?_, fun c h' => ?_, fun _ _ => ?_⟩
  · exact fun h' => Pc.noConfusion (hpc.symm.trans h')
  · rintro (h' | ⟨i, n, h'⟩ | h')
    · exact Pc.noConfusion (hpc.symm.trans h')
    · exact Pc.noConfusion (hpc.symm.trans h')
    · exact hout h'
  · exact Pc.noConfusion (hpc.symm.trans h')
  · exact Pc.noConfusion (hpc.symm.trans h')
  · exact Pc.noConfusion (hpc.symm.trans h')
  · unfold AnswerKept
    rw [hpc]
    trivial

/-- The law of a step that takes no address and does not give up -/
theorem law_of_inv (ht : Inv t) (hip : t.ip = s.ip)
    (hfails : t.pc = .done false → s.pc = .done false ∨
      (∃ f os, s.held = some f ∧ f.Reply s.txId ∧ f.options = some os ∧ Carries dhcpNak os) ∨
        s.retry + 1 = maxTries ∧ s.answered = false)
    (hoffered : ∀ f c, e = .main → s.pc = .read c → s.acking = false → s.held = some f →
      f.Answers false s.txId → t.pc = .poll → t.acking = true)
    (hacked : ∀ f c, e = .main → s.pc = .read c → s.acking = true → s.held = some f →
      f.Answers true s.txId → (∃ c, t.pc = .read c) ∨ ∃ c, t.pc = .lease c)
    (hends : e = .main → t.measure < s.measure ∨ s.Rejects t) : StepLaw s e t :=
  ⟨.inl hip, ht.stray, ht.overrun, hfails, hoffered, hacked, hends⟩

theorem not_copy (h : s.pc = .read c ∨ s.pc = .lease c ∨ s.pc = .poll) (i n : Nat) :
    s.pc ≠ .copy i n := fun h' => by
  rcases h with h | h | h <;> exact Pc.noConfusion (h.symm.trans h')

/-- The next option is in the packet too: the reading goes on. -/
theorem measure_read_lt (hs : s.pc = .read c) (ht : t.pc = .read (c + s.optLen c))
    (hc : c < rxSize) (ha : t.acking = s.acking) (hr : t.retry = s.retry) :
    t.measure < s.measure := by
  have hlen : 2 ≤ s.optLen c := Nat.le_add_left 2 _
  rw [measure_read hs, measure_read ht, ha, hr]
  omega

/-! ## The OFFER -/

theorem Inv.readOffer (h : Inv s) (hpc : s.pc = .read c) (ha : s.acking = false) :
    Inv (s.readOffer c) ∧ StepLaw s .main (s.readOffer c) := by
  have hs := not_copy (.inl hpc)
  obtain ⟨f, total, os, hf, htotal, hrest, hoffer, hfits⟩ := (h.offer c hpc ha).got
  obtain ⟨hlt, -, hnext, hend, hgot⟩ := h.buffers.option hs hf hrest
  have hlook := look_stray h.stray hgot
  have hnever : ∀ {u : DhcpStart} {f' : Frame} {c' : Nat}, s.acking = true → s.pc = .read c' →
      (∃ c, u.pc = .read c) ∨ ∃ c, u.pc = .lease c := fun h' =>
    Bool.noConfusion (ha.symm.trans h')
  by_cases hc : s.buf c = optEnd
  · have hnil := hend hc
    rw [hnil] at hoffer hfits
    by_cases ho : s.offer = true
    · have heq : s.readOffer c = (s.look c).request := by
        rw [DhcpStart.readOffer, if_pos hc, if_pos ho]
      rw [heq, if_pos (hoffer.mpr (.inl ho))] at *
      have hover : (s.overrun || decide (optionsSize ≤ s.options.length + 6)) = false := by
        rw [h.overrun, Bool.false_or, decide_eq_false_iff_not]
        have hfits' : s.options.length + 0 + 7 ≤ optionsSize := hfits
        omega
      have hinv : Inv (s.look c).request :=
        h.sent hs ⟨rfl, rfl, rfl⟩ ⟨rfl, rfl, rfl⟩ hlook hover (Nat.zero_lt_succ _) rfl
      refine ⟨hinv, law_of_inv hinv rfl (fun hp => Pc.noConfusion hp) (fun _ _ _ _ _ _ _ _ => rfl)
        (fun _ _ _ _ h' => Bool.noConfusion (ha.symm.trans h')) (fun _ => .inl ?_)⟩
      rw [measure_read hpc, measure_poll (s := (s.look c).request) rfl, ha]
      show 0 + (maxTries - 1 - 0) * tryCost + (3200 + fullDelay.toNat * 1600) < _
      rw [if_neg Bool.false_ne_true, show maxTries = 16 from rfl, tryCost_eq,
        show fullDelay.toNat = 16777216 from rfl]
      omega
    · have heq : s.readOffer c = (s.look c).waitOffer := by
        rw [DhcpStart.readOffer, if_pos hc, if_neg ho]
      rw [heq]
      have hinv : Inv (s.look c).waitOffer :=
        h.sent hs ⟨rfl, rfl, rfl⟩ ⟨rfl, rfl, rfl⟩ hlook h.overrun (Nat.zero_lt_succ _) rfl
      refine ⟨hinv, law_of_inv hinv rfl (fun hp => Pc.noConfusion hp)
        (fun f' _ _ _ _ hf' hans _ => ?_)
        (fun _ _ _ _ h' => Bool.noConfusion (ha.symm.trans h')) (fun _ => .inr ⟨⟨c, hpc⟩, ha, ha⟩)⟩
      obtain rfl := Option.some.inj (hf.symm.trans hf')
      obtain ⟨-, -, os', hos', -, hcarries⟩ := hans
      obtain rfl := Option.some.inj (htotal.symm.trans hos')
      rcases hoffer.mp hcarries with h' | h'
      · exact absurd h' ho
      · exact absurd h' not_carries_nil
  obtain ⟨-, -, hin, rest, hos, hrest'⟩ := hnext hc
  have hlen : s.optLen c - 2 + 2 = s.optLen c := Nat.sub_add_cancel (Nat.le_add_left 2 _)
  have hlen2 : 2 ≤ s.optLen c := Nat.le_add_left 2 _
  rw [hos] at hoffer hfits
  rw [carries_cons] at hoffer
  -- whatever the option is, the reading goes on behind it
  have hreads : ∀ t : DhcpStart, t.pc = .read (c + s.optLen c) →
      (t.rxBuf = s.rxBuf ∧ t.pktRdy = s.pktRdy ∧ t.source = s.source) →
      (t.buf = s.buf ∧ t.held = s.held ∧ t.got = s.got) →
      (t.acking = s.acking ∧ t.retry = s.retry ∧ t.delay = s.delay ∧ t.ip = s.ip) →
      t.stray = false → t.overrun = false →
      (Carries dhcpOffer total ↔ t.offer = true ∨ Carries dhcpOffer rest) →
      t.options.length + serverBytes rest + (if Carries dhcpOffer total then 7 else 0) ≤
        optionsSize → Inv t ∧ StepLaw s .main t := by
    intro t ht hrx hbuf ⟨hack, hretry, hdelay, hip⟩ hstray hover ho hroom
    have hcopy := not_copy (.inl ht)
    have hinv : Inv t := by
      refine ⟨h.buffers.same hs hcopy hrx hbuf, hstray, hover,
        .inr fun i n => ⟨fun h' => Pc.noConfusion (ht.symm.trans h'), hcopy i n⟩, ?_, ?_,
        fun c' hc' _ => ?_, fun _ _ h' => ?_, fun _ h' => Pc.noConfusion (ht.symm.trans h'),
        fun _ _ => ?_⟩
      · rcases h.tries with h' | ⟨ok, h'⟩
        · exact .inl (hretry ▸ h')
        · exact Pc.noConfusion (hpc.symm.trans h')
      · rintro (h' | ⟨i, n, h'⟩ | h')
        · exact Pc.noConfusion (ht.symm.trans h')
        · exact Pc.noConfusion (ht.symm.trans h')
        · exact Bool.noConfusion (ha.symm.trans (hack.symm.trans h'))
      · obtain rfl := Pc.read.inj (ht.symm.trans hc')
        exact ⟨f, total, rest, hbuf.2.1.trans hf, htotal, hrest', ho, hroom⟩
      · exact Bool.noConfusion (ha.symm.trans (hack.symm.trans h'))
      · unfold AnswerKept
        rw [ht]
        exact fun h' => Bool.noConfusion (ha.symm.trans (hack.symm.trans h'))
    refine ⟨hinv, law_of_inv hinv hip (fun hp => Pc.noConfusion (ht.symm.trans hp))
      (fun _ _ _ _ _ _ _ hp => Pc.noConfusion (ht.symm.trans hp))
      (fun _ _ _ _ h' => Bool.noConfusion (ha.symm.trans h'))
      (fun _ => .inl (measure_read_lt hpc ht hlt hack hretry))⟩
  unfold DhcpStart.readOffer
  rw [if_neg hc]
  by_cases htype : s.buf c = optType
  · have hnot : s.buf c ≠ optServer := fun h' => absurd (htype.symm.trans h') (by decide)
    rw [if_pos htype]
    refine hreads _ rfl ⟨rfl, rfl, rfl⟩ ⟨rfl, rfl, rfl⟩ ⟨rfl, rfl, rfl, rfl⟩
      (look_stray h.stray (by omega)) h.overrun ?_ ?_
    · rw [hoffer]
      show _ ↔ (s.offer || decide (s.buf (c + 2) = dhcpOffer)) = true ∨ _
      rw [Bool.or_eq_true, decide_eq_true_iff, or_assoc]
      exact or_congr_right (or_congr_left (and_iff_right htype))
    · rw [serverBytes, if_neg hnot, Nat.zero_add] at hfits
      exact hfits
  rw [if_neg htype]
  have hsame : Carries dhcpOffer total ↔ s.offer = true ∨ Carries dhcpOffer rest := by
    rw [hoffer]
    exact or_congr_right (or_iff_right fun h' => htype h'.1)
  by_cases hserver : s.buf c = optServer
  · rw [if_pos hserver]
    rw [serverBytes, if_pos hserver, hlen] at hfits
    have hbytes : (s.optBytes c).length = s.optLen c := by
      rw [optBytes, List.length_map, List.length_range]
    refine hreads _ rfl ⟨rfl, rfl, rfl⟩ ⟨rfl, rfl, rfl⟩ ⟨rfl, rfl, rfl, rfl⟩
      (look_stray h.stray (by omega)) ?_ hsame ?_
    · show (s.overrun || decide (optionsSize < s.options.length + (s.optBytes c).length)) = false
      rw [h.overrun, Bool.false_or, decide_eq_false_iff_not, hbytes]
      omega
    · show (s.options ++ s.optBytes c).length + _ + _ ≤ _
      rw [List.length_append, hbytes]
      omega
  · rw [if_neg hserver]
    rw [serverBytes, if_neg hserver, Nat.zero_add] at hfits
    exact hreads _ rfl ⟨rfl, rfl, rfl⟩ ⟨rfl, rfl, rfl⟩ ⟨rfl, rfl, rfl, rfl⟩
      (look_stray h.stray (by omega)) h.overrun hsame hfits

/-! ## The acknowledgement, and what is printed of it -/

/-- Where the options of a packet are, its fields are too. -/
theorem word_of_in {m : Nat → BitVec 8} {total : List Opt} (hin : f.In m f.len)
    (htotal : f.options = some total) {k : Nat} (hk : k + 3 < optionsPlace) :
    word m k = word f.bytes k := by
  have hlen : optionsPlace < f.len := Frame.Rest.lt ⟨f.len, htotal⟩
  unfold word
  rw [hin k (by omega), hin (k + 1) (by omega), hin (k + 2) (by omega), hin (k + 3) (by omega)]

theorem Inv.readAck (h : Inv s) (hpc : s.pc = .read c) (ha : s.acking = true) :
    Inv (s.readAck c) ∧ StepLaw s .main (s.readAck c) := by
  have hs := not_copy (.inl hpc)
  obtain ⟨f, total, os, hf, htotal, hrest, hverdict, hown, hprint⟩ := (h.ack c hpc ha).got
  obtain ⟨hlt, -, hnext, hend, hgot⟩ := h.buffers.option hs hf hrest
  have hlook := look_stray h.stray hgot
  have hout : s.out = false := h.out (.inr (.inr ha))
  have hretry : s.retry < maxTries := by
    rcases h.tries with h' | ⟨ok, h'⟩
    · exact h'
    · exact Pc.noConfusion (hpc.symm.trans h')
  have hnot : ∀ {q : Prop}, s.acking = false → q := fun h' => Bool.noConfusion (ha.symm.trans h')
  have hright : ∀ f', s.held = some f' → f'.Answers true s.txId → verdict total = some dhcpAck := by
    rintro f' hf' ⟨-, -, os', hos', -, hv⟩
    obtain rfl := Option.some.inj (hf.symm.trans hf')
    obtain rfl := Option.some.inj (htotal.symm.trans hos')
    exact hv
  by_cases hc : s.buf c = optEnd
  · have hnone : verdict total = none := by
      rw [← hverdict, hend hc]
      rfl
    have hwrong : ∀ {q : Prop} {f'}, s.held = some f' → f'.Answers true s.txId → q :=
      fun hf' hans => Option.noConfusion rfl (heq_of_eq (hnone.symm.trans (hright _ hf' hans)))
    have heq : s.readAck c = (s.look c).nextTry := by rw [DhcpStart.readAck, if_pos hc]
    rw [heq, nextTry]
    by_cases hmore : s.retry + 1 < maxTries
    · rw [if_pos (show (s.look c).retry + 1 < maxTries ∧ (s.look c).out = false from ⟨hmore, hout⟩)]
      have hinv : Inv { s.look c with retry := (s.look c).retry + 1 }.send :=
        h.sent hs ⟨rfl, rfl, rfl⟩ ⟨rfl, rfl, rfl⟩ hlook h.overrun hmore hout
      refine ⟨hinv, law_of_inv hinv rfl (fun hp => Pc.noConfusion hp) (fun _ _ _ _ h' => hnot h')
        (fun _ _ _ _ _ hf' hans => hwrong hf' hans) (fun _ => .inl ?_)⟩
      rw [measure_read hpc, measure_poll rfl]
      show (if s.acking then 0 else _) + (maxTries - 1 - (s.retry + 1)) * tryCost +
        (3200 + fullDelay.toNat * 1600) < _
      rw [ha, if_pos rfl, tryCost_eq, show fullDelay.toNat = 16777216 from rfl]
      rw [show maxTries = 16 from rfl] at hmore ⊢
      omega
    · rw [if_neg (show ¬ ((s.look c).retry + 1 < maxTries ∧ (s.look c).out = false) from
        fun h' => hmore h'.1), if_pos (.inl (show (s.look c).acking = true from ha))]
      have hinv : Inv { s.look c with retry := (s.look c).retry + 1, pc := .done false } :=
        h.returned hs ⟨rfl, rfl, rfl⟩ ⟨rfl, rfl, rfl⟩ hlook h.overrun rfl (fun _ => hout)
      have hlast : s.retry + 1 = maxTries := by omega
      refine ⟨hinv, law_of_inv hinv rfl (fun _ => .inr (.inr ⟨hlast, ?_⟩))
        (fun _ _ _ _ h' => hnot h') (fun _ _ _ _ _ hf' hans => hwrong hf' hans) (fun _ => .inl ?_)⟩
      · by_contra hans
        have hkept := h.answer hlast (Bool.eq_true_of_not_eq_false hans)
        unfold AnswerKept at hkept
        rw [hpc] at hkept
        obtain ⟨f', hf', hans'⟩ := hkept ha
        exact hwrong hf' (ha ▸ hans')
      · rw [measure_read hpc, measure_done rfl]
        omega
  obtain ⟨-, -, hin, rest, hos, hrest'⟩ := hnext hc
  have hlen2 : 2 ≤ s.optLen c := Nat.le_add_left 2 _
  obtain ⟨hflen, -, hholds⟩ := h.buffers.held hs f hf
  rw [hos, verdict] at hverdict
  unfold DhcpStart.readAck
  rw [if_neg hc]
  by_cases hack : s.buf c = optType ∧ s.buf (c + 2) = dhcpAck
  · rw [if_pos hack]
    rw [if_pos ⟨hack.1, .inl hack.2⟩, hack.2] at hverdict
    obtain ⟨hreply, htyped⟩ := hown (hverdict ▸ Option.some_ne_none _)
    have hcopy : ∀ i n, (Pc.lease optionsPlace) ≠ .copy i n :=
      fun _ _ he => Pc.noConfusion he
    have hinv : Inv { s.look (c + 2) with
        ip := word s.buf yourIpPlace, pc := .lease optionsPlace } := by
      refine ⟨h.buffers.same hs hcopy ⟨rfl, rfl, rfl⟩ ⟨rfl, rfl, rfl⟩,
        look_stray h.stray (by omega), h.overrun, .inr 
          fun _ _ => ⟨fun he => Pc.noConfusion he, fun he => Pc.noConfusion he⟩, .inl hretry,
        fun _ => hout, fun _ he => Pc.noConfusion he, fun _ he => Pc.noConfusion he,
        fun c' hc' => ?_, fun _ _ => trivial⟩
      obtain rfl := Pc.lease.inj hc'
      exact ⟨f, total, hf, ⟨f.len, htotal⟩, hprint hverdict.symm⟩
    refine ⟨hinv,
      .inr ⟨f, total, hf, ha, hreply, htotal, htyped, verdict_carries hverdict.symm, ?_⟩,
      hinv.stray, hinv.overrun, fun hp => Pc.noConfusion hp, fun _ _ _ _ h' => hnot h',
      fun _ _ _ _ _ _ _ => .inr ⟨_, rfl⟩, fun _ => .inl ?_⟩
    · exact word_of_in hholds htotal (by decide)
    · rw [measure_read hpc, measure_lease rfl, show rxSize = 1514 from rfl,
        show optionsPlace = 282 from rfl]
      omega
  rw [if_neg hack]
  by_cases hnak : s.buf c = optType ∧ s.buf (c + 2) = dhcpNak
  · rw [if_pos hnak]
    rw [if_pos ⟨hnak.1, .inr hnak.2⟩, hnak.2] at hverdict
    obtain ⟨hreply, -⟩ := hown (hverdict ▸ Option.some_ne_none _)
    have hinv : Inv { s.look (c + 2) with pc := .done false } :=
      h.returned hs ⟨rfl, rfl, rfl⟩ ⟨rfl, rfl, rfl⟩ (look_stray h.stray (by omega)) h.overrun rfl
        (fun _ => hout)
    refine ⟨hinv, law_of_inv hinv rfl
      (fun _ => .inr (.inl ⟨f, total, hf, hreply, htotal, verdict_carries hverdict.symm⟩))
      (fun _ _ _ _ h' => hnot h') (fun f' _ _ _ _ hf' hans => ?_) (fun _ => .inl ?_)⟩
    · have hboth := hverdict.trans (hright f' hf' hans)
      exact absurd (Option.some.inj hboth) (show dhcpNak ≠ dhcpAck by decide)
    · rw [measure_read hpc, measure_done rfl]
      omega
  rw [if_neg hnak]
  rw [if_neg (show ¬ (s.buf c = optType ∧ (s.buf (c + 2) = dhcpAck ∨ s.buf (c + 2) = dhcpNak)) from
    fun h' => h'.2.elim (fun h2 => hack ⟨h'.1, h2⟩) fun h2 => hnak ⟨h'.1, h2⟩)] at hverdict
  have hplace : (if s.buf c = optType then c + 2 else c + 1) < s.got := by
    split <;> omega
  have hcopy : ∀ i n, (Pc.read (c + s.optLen c)) ≠ .copy i n :=
    fun _ _ he => Pc.noConfusion he
  have hinv : Inv { s.look (if s.buf c = optType then c + 2 else c + 1) with
      pc := .read (c + s.optLen c) } := by
    refine ⟨h.buffers.same hs hcopy ⟨rfl, rfl, rfl⟩ ⟨rfl, rfl, rfl⟩, look_stray h.stray hplace,
      h.overrun, .inr fun _ _ => ⟨fun he => Pc.noConfusion he, fun he => Pc.noConfusion he⟩,
      .inl hretry, fun _ => hout, fun _ _ h' => hnot h', fun c' hc' _ => ?_,
      fun _ he => Pc.noConfusion he, fun hlast hans => ?_⟩
    · obtain rfl := Pc.read.inj hc'
      exact ⟨f, total, rest, hf, htotal, hrest', hverdict, hown, hprint⟩
    · have hkept := h.answer hlast hans
      unfold AnswerKept at hkept ⊢
      rw [hpc] at hkept
      exact hkept
  exact ⟨hinv, law_of_inv hinv rfl (fun hp => Pc.noConfusion hp) (fun _ _ _ _ h' => hnot h')
    (fun _ _ _ _ _ _ _ => .inl ⟨_, rfl⟩) (fun _ => .inl (measure_read_lt hpc rfl hlt rfl rfl))⟩

/-- What is printed is in the packet. -/
theorem Inv.printOption (h : Inv s) (hpc : s.pc = .lease c) :
    Inv (s.printOption c) ∧ StepLaw s .main (s.printOption c) := by
  have hs := not_copy (.inr (.inl hpc))
  obtain ⟨f, os, hf, hrest, hprint⟩ := (h.lease c hpc).got
  obtain ⟨hlt, -, hnext, hend, hgot⟩ := h.buffers.option hs hf hrest
  have hnot : ∀ {q : Prop} {c'}, s.pc = .read c' → q := fun h' =>
    Pc.noConfusion (hpc.symm.trans h')
  have hout : s.acking = true → s.out = false := fun ha => h.out (.inr (.inr ha))
  unfold DhcpStart.printOption
  by_cases hc : s.buf c = optEnd
  · rw [if_pos hc]
    have hinv : Inv { s.look c with pc := .done true } :=
      h.returned hs ⟨rfl, rfl, rfl⟩ ⟨rfl, rfl, rfl⟩ (look_stray h.stray hgot) h.overrun rfl hout
    refine ⟨hinv, law_of_inv hinv rfl (fun hp => ?_) (fun _ _ _ h' => hnot h')
      (fun _ _ _ h' => hnot h') (fun _ => .inl ?_)⟩
    · exact Bool.noConfusion (Pc.done.inj hp)
    · rw [measure_lease hpc, measure_done rfl]
      omega
  rw [if_neg hc]
  obtain ⟨-, -, hin, rest, hos, hrest'⟩ := hnext hc
  have hlen2 : 2 ≤ s.optLen c := Nat.le_add_left 2 _
  rw [hos] at hprint
  have hplace : (if s.buf c ∈ printed then c + 5 else c + 1) < s.got := by
    split
    · rename_i hcode
      have hfour : 4 ≤ s.optLen c - 2 := hprint _ List.mem_cons_self hcode
      omega
    · omega
  have hcopy : ∀ i n, (Pc.lease (c + s.optLen c)) ≠ .copy i n := nofun
  have hinv : Inv { s.look (if s.buf c ∈ printed then c + 5 else c + 1) with
      pc := .lease (c + s.optLen c) } := by
    refine ⟨h.buffers.same hs hcopy ⟨rfl, rfl, rfl⟩ ⟨rfl, rfl, rfl⟩, look_stray h.stray hplace,
      h.overrun, .inr fun i n => ⟨nofun, nofun⟩, ?_, ?_, fun _ => nofun, fun _ => nofun,
      fun c' hc' => ?_, fun _ _ => trivial⟩
    · rcases h.tries with h' | ⟨ok, h'⟩
      · exact .inl h'
      · exact Pc.noConfusion (hpc.symm.trans h')
    · rintro (h' | ⟨i, n, h'⟩ | h')
      · exact Pc.noConfusion h'
      · exact Pc.noConfusion h'
      · exact hout h'
    · obtain rfl := Pc.lease.inj hc'
      exact ⟨f, rest, hf, hrest', fun o ho => hprint o (List.mem_cons_of_mem _ ho)⟩
  refine ⟨hinv, law_of_inv hinv rfl (fun hp => Pc.noConfusion hp) (fun _ _ _ h' => hnot h')
    (fun _ _ _ h' => hnot h') (fun _ => .inl ?_)⟩
  rw [measure_lease hpc, measure_lease rfl]
  omega

/-! ## The wait -/

theorem Inv.poll (h : Inv s) (hpc : s.pc = .poll) (hk : s.Regular) :
    Inv s.poll ∧ StepLaw s .main s.poll := by
  have hs := not_copy (c := 0) (.inr (.inr hpc))
  have hout : s.out = false := h.out (.inl hpc)
  have hretry : s.retry < maxTries := by
    rcases h.tries with h' | ⟨ok, h'⟩
    · exact h'
    · exact Pc.noConfusion (hpc.symm.trans h')
  have hnot : ∀ {q : Prop} {c'}, s.pc = .read c' → q := fun h' =>
    Pc.noConfusion (hpc.symm.trans h')
  have hkept : s.retry + 1 = maxTries → s.answered = true →
      s.pktRdy ≠ 0 ∧ (∃ f ∈ s.source, f.Answers s.acking s.txId) ∧ s.delay ≠ 0 ∨
        s.acking = true ∧ (∃ f ∈ s.held, f.Answers s.acking s.txId) ∧
          (s.pktRdy ≠ 0 → ∃ f ∈ s.source, f.Answers s.acking s.txId) := fun hlast hans => by
    have hkept := h.answer hlast hans
    unfold AnswerKept at hkept
    rwa [hpc] at hkept
  unfold Regular at hk
  rw [hpc] at hk
  unfold DhcpStart.poll
  by_cases hd : s.delay = 0
  · rw [if_pos hd]
    have hexpired : s.delay - 1 ≠ 0 := by
      rw [hd]
      decide
    by_cases ha : s.acking = false
    · have heq : { s with delay := s.delay - 1 }.waited = { s with delay := s.delay - 1 }.nextTry :=
        if_pos (.inl ha)
      rw [heq, nextTry]
      by_cases hmore : s.retry + 1 < maxTries
      · rw [if_pos (show s.retry + 1 < maxTries ∧ s.out = false from ⟨hmore, hout⟩)]
        have hinv : Inv { s with delay := s.delay - 1, retry := s.retry + 1 }.send :=
          h.sent hs ⟨rfl, rfl, rfl⟩ ⟨rfl, rfl, rfl⟩ h.stray h.overrun hmore hout
        refine ⟨hinv, law_of_inv hinv rfl (fun hp => Pc.noConfusion hp) (fun _ _ _ h' => hnot h')
          (fun _ _ _ h' => hnot h') (fun _ => .inl ?_)⟩
        rw [measure_poll hpc, measure_poll rfl]
        show (if s.acking then 0 else _) + (maxTries - 1 - (s.retry + 1)) * tryCost +
          (3200 + fullDelay.toNat * 1600) < _
        rw [tryCost_eq, show fullDelay.toNat = 16777216 from rfl]
        rw [show maxTries = 16 from rfl] at hmore ⊢
        omega
      · have hlast : s.retry + 1 = maxTries := by omega
        rw [if_neg (show ¬ (s.retry + 1 < maxTries ∧ s.out = false) from fun h' => hmore h'.1),
          if_pos (.inr (Nat.not_lt.mp hmore))]
        have hinv : Inv { s with delay := s.delay - 1, retry := s.retry + 1, pc := .done false } :=
          h.returned hs ⟨rfl, rfl, rfl⟩ ⟨rfl, rfl, rfl⟩ h.stray h.overrun rfl (fun _ => hout)
        refine ⟨hinv, law_of_inv hinv rfl (fun _ => .inr (.inr ⟨hlast, ?_⟩))
          (fun _ _ _ h' => hnot h') (fun _ _ _ h' => hnot h') (fun _ => .inl ?_)⟩
        · by_contra hans
          rcases hkept hlast (Bool.eq_true_of_not_eq_false hans) with ⟨-, -, hd'⟩ | ⟨ha', -⟩
          · exact hd' hd
          · exact Bool.noConfusion (ha.symm.trans ha')
        · rw [measure_poll hpc, measure_done rfl]
          omega
    · have ha : s.acking = true := Bool.eq_true_of_not_eq_false ha
      have heq : { s with delay := s.delay - 1 }.waited =
          { s with delay := s.delay - 1, pc := .read optionsPlace } :=
        if_neg fun h' => h'.elim (fun h' => Bool.noConfusion (ha.symm.trans h')) hexpired
      rw [heq]
      obtain ⟨f, hf, total, htotal, hown, hprint⟩ := hk ha hd
      have hcopy : ∀ i n, (Pc.read optionsPlace) ≠ .copy i n := nofun
      have hinv : Inv { s with delay := s.delay - 1, pc := .read optionsPlace } := by
        refine ⟨h.buffers.same hs hcopy ⟨rfl, rfl, rfl⟩ ⟨rfl, rfl, rfl⟩, h.stray, h.overrun,
          .inr fun i n => ⟨nofun, nofun⟩, .inl hretry, fun _ => hout,
          fun _ _ h' => Bool.noConfusion (ha.symm.trans h'), fun c' hc' _ => ?_, fun _ => nofun,
          fun hlast hans _ => ?_⟩
        · obtain rfl := Pc.read.inj hc'
          exact ⟨f, total, total, hf, htotal, ⟨f.len, htotal⟩, rfl, hown, hprint⟩
        · rcases hkept hlast hans with ⟨-, -, hd'⟩ | ⟨-, hheld, -⟩
          · exact absurd hd hd'
          · exact hheld
      refine ⟨hinv, law_of_inv hinv rfl (fun hp => Pc.noConfusion hp) (fun _ _ _ h' => hnot h')
        (fun _ _ _ h' => hnot h') (fun _ => .inl ?_)⟩
      rw [measure_poll hpc, measure_read rfl, show rxSize = 1514 from rfl]
      show (if s.acking then 0 else _) + (maxTries - 1 - s.retry) * tryCost + _ < _
      omega
  rw [if_neg hd]
  have hdelay : (s.delay - 1).toNat + 1 = s.delay.toNat := by
    have hpos : 0 < s.delay.toNat := Nat.pos_of_ne_zero fun h0 => hd (BitVec.eq_of_toNat_eq h0)
    have hone : (1 : BitVec 32).toNat = 1 := rfl
    rw [BitVec.toNat_sub_of_le (BitVec.le_def.mpr (hone ▸ hpos)), hone]
    omega
  have hfull : (s.delay - 1).toNat ≤ fullDelay.toNat := by
    rcases h.delay with h' | h'
    · omega
    · exact absurd hpc (h' 0 0).1
  by_cases hr : s.pktRdy = 0
  · rw [if_pos hr]
    have hcopy : ∀ i n, s.pc ≠ .copy i n := hs
    have hinv : Inv { s with delay := s.delay - 1 } := by
      refine ⟨h.buffers.same hs hcopy ⟨rfl, rfl, rfl⟩ ⟨rfl, rfl, rfl⟩, h.stray, h.overrun,
        .inl hfull, .inl hretry, fun _ => hout, fun _ h' => hnot h', fun _ h' => hnot h',
        fun _ h' => Pc.noConfusion (hpc.symm.trans h'), fun hlast hans => ?_⟩
      unfold AnswerKept
      rw [show ({ s with delay := s.delay - 1 } : DhcpStart).pc = .poll from hpc]
      rcases hkept hlast hans with ⟨hr', -⟩ | hheld
      · exact absurd hr hr'
      · exact .inr hheld
    refine ⟨hinv, law_of_inv hinv rfl (fun hp => Pc.noConfusion (hpc.symm.trans hp))
      (fun _ _ _ h' => hnot h') (fun _ _ _ h' => hnot h') (fun _ => .inl ?_)⟩
    rw [measure_poll hpc, measure_poll (s := { s with delay := s.delay - 1 }) hpc]
    show (if s.acking then 0 else _) + (maxTries - 1 - s.retry) * tryCost +
      (3200 + (s.delay - 1).toNat * 1600) < _
    omega
  · rw [if_neg hr]
    obtain ⟨f, hf⟩ := Option.ne_none_iff_exists'.mp (h.buffers.ready hr)
    obtain ⟨hlen, hin, hn⟩ := h.buffers.source f hf
    have hinv : Inv { s with
        delay := s.delay - 1, pc := .copy 0 s.pktRdy, copying := s.source } := by
      refine ⟨⟨h.buffers.source, h.buffers.ready, fun h' => absurd rfl (h' 0 s.pktRdy),
          fun i n hc => ?_⟩, h.stray, h.overrun, .inl hfull, .inl hretry, fun _ => hout,
        fun _ => nofun, fun _ => nofun, fun _ => nofun, fun hlast hans => ?_⟩
      · obtain ⟨rfl, rfl⟩ := Pc.copy.inj hc
        refine ⟨Nat.zero_le _, (hn hr).trans_le hlen, fun f' hf' => ?_⟩
        obtain rfl := Option.some.inj (hf.symm.trans hf')
        exact ⟨hn hr, fun i hi => absurd hi (Nat.not_lt_zero i), fun _ => hn hr ▸ hin⟩
      · rcases hkept hlast hans with ⟨-, hsource, -⟩ | ⟨-, -, hsource⟩
        · exact hsource
        · exact hsource hr
    refine ⟨hinv, law_of_inv hinv rfl (fun hp => Pc.noConfusion hp) (fun _ _ _ h' => hnot h')
      (fun _ _ _ h' => hnot h') (fun _ => .inl ?_)⟩
    rw [measure_poll hpc, measure_copy rfl]
    show (if s.acking then 0 else _) + (maxTries - 1 - s.retry) * tryCost +
      (3200 + (s.delay - 1).toNat * 1600 + (s.pktRdy - 0) + 1) < _
    have hn' : s.pktRdy ≤ 1514 := (hn hr).trans_le hlen
    omega

/-- A reply to the DISCOVER that is in the buffer is matched. -/
theorem matches_of_answers (ha : s.acking = false) (hin : f.In s.buf f.len)
    (hans : f.Answers false s.txId) : s.Matches := by
  obtain ⟨hport, ⟨hop, hid⟩, total, htotal, -⟩ := hans
  have hlen : optionsPlace < f.len := Frame.Rest.lt ⟨f.len, htotal⟩
  have hhalf : half s.buf destPortPlace = half f.bytes destPortPlace := by
    unfold half
    rw [hin _ (Nat.lt_trans (by decide) hlen), hin _ (Nat.lt_trans (by decide) hlen)]
  refine ⟨hhalf.trans hport, ?_⟩
  rw [ha, if_neg Bool.false_ne_true, hin opPlace (Nat.lt_trans (by decide) hlen)]
  exact ⟨hop, (word_of_in hin htotal (by decide)).trans hid⟩

/-- The end of a copy -/
theorem Inv.copied (h : Inv s) {n : Nat} (hpc : s.pc = .copy n n) (hk : s.Regular) :
    Inv (s.copy n n) ∧ StepLaw s .main (s.copy n n) := by
  have hirr : ¬ n < n := Nat.lt_irrefl n
  have hout : s.out = false := h.out (.inr (.inl ⟨n, n, hpc⟩))
  obtain ⟨-, hn, hcopying⟩ := h.buffers.copy n n hpc
  have hretry : s.retry < maxTries := by
    rcases h.tries with h' | ⟨ok, h'⟩
    · exact h'
    · exact Pc.noConfusion (hpc.symm.trans h')
  have hnot : ∀ {q : Prop} {c'}, s.pc = .read c' → q := fun h' =>
    Pc.noConfusion (hpc.symm.trans h')
  have hkept : s.retry + 1 = maxTries → s.answered = true →
      ∃ f ∈ s.copying, f.Answers s.acking s.txId := fun hlast hans => by
    have hkept := h.answer hlast hans
    unfold AnswerKept at hkept
    rwa [hpc] at hkept
  -- the buffers after the copy
  have hbuffers : ∀ t : DhcpStart, (∀ i n, t.pc ≠ .copy i n) → t.rxBuf = s.rxBuf →
      t.pktRdy = 0 → t.source = s.source → t.buf = s.buf → t.held = s.copying → t.got = n →
      Buffers t := by
    intro t ht hrx hready hsource hbuf hheld hgot
    refine ⟨fun f hf => ?_, fun h' => absurd hready h', fun _ f hf => ?_,
      fun i n' hc => absurd hc (ht i n')⟩
    · obtain ⟨hlen, hin, -⟩ := h.buffers.source f (hsource ▸ hf)
      exact ⟨hlen, hrx ▸ hin, fun h' => absurd hready h'⟩
    · obtain ⟨hlen, hin, -⟩ := hcopying f (hheld ▸ hf)
      exact ⟨hlen ▸ hn, hgot.trans hlen, by rw [hbuf, ← hlen]; exact hin⟩
  unfold Regular at hk
  rw [hpc] at hk
  unfold DhcpStart.copy
  rw [if_neg hirr]
  by_cases hm : (s.copied n).Matches
  · rw [if_pos hm]
    obtain ⟨ha, hoffered⟩ := hk hirr hm
    have heq : { s.copied n with out := true }.waited = { s.copied n with out := true }.nextTry :=
      if_pos (.inl ha)
    have hnomore : ¬ ((s.copied n).retry + 1 < maxTries ∧ true = false) := fun h' =>
      Bool.noConfusion h'.2
    rw [heq]
    unfold Offered at hoffered
    by_cases hlast : s.retry + 1 = maxTries
    · rw [if_pos hlast] at hoffered
      have hnext : { s.copied n with out := true }.nextTry =
          { s.copied n with out := true, retry := s.retry + 1, pc := .done false } :=
        (if_neg hnomore).trans (if_pos (.inr (Nat.le_of_eq hlast.symm)))
      rw [hnext]
      have hcopy : ∀ i n, (Pc.done false) ≠ .copy i n := nofun
      have hinv : Inv { s.copied n with
          out := true, retry := s.retry + 1, pc := .done false } := by
        refine ⟨hbuffers _ hcopy rfl rfl rfl rfl rfl rfl, h.stray, h.overrun,
          .inr fun i n => ⟨nofun, nofun⟩, .inr ⟨false, rfl⟩, ?_, fun _ => nofun, fun _ => nofun,
          fun _ => nofun, fun _ _ => trivial⟩
        rintro (h' | ⟨i, n, h'⟩ | h')
        · exact Pc.noConfusion h'
        · exact Pc.noConfusion h'
        · exact Bool.noConfusion (ha.symm.trans h')
      refine ⟨hinv, law_of_inv hinv rfl (fun _ => .inr (.inr ⟨hlast, ?_⟩))
        (fun _ _ _ h' => hnot h') (fun _ _ _ h' => hnot h') (fun _ => .inl ?_)⟩
      · by_contra hans
        obtain ⟨f, hf, hans⟩ := hkept hlast (Bool.eq_true_of_not_eq_false hans)
        exact hoffered f hf (ha ▸ hans)
      · rw [measure_copy hpc, measure_done rfl]
        omega
    · rw [if_neg hlast] at hoffered
      obtain ⟨f, hf, total, htotal, hfits⟩ := hoffered
      have hlt : s.retry + 1 < maxTries := by omega
      have hneither : ¬ (s.acking = true ∨ maxTries ≤ s.retry + 1) := fun h' =>
        h'.elim (fun h' => Bool.noConfusion (ha.symm.trans h')) (Nat.not_le.mpr hlt)
      have hnext : { s.copied n with out := true }.nextTry = { s.copied n with
          out := true, retry := s.retry + 1, offer := false, pc := .read optionsPlace } :=
        (if_neg hnomore).trans (if_neg hneither)
      rw [hnext]
      have hcopy : ∀ i n, (Pc.read optionsPlace) ≠ .copy i n := nofun
      have hinv : Inv { s.copied n with
          out := true, retry := s.retry + 1, offer := false, pc := .read optionsPlace } := by
        refine ⟨hbuffers _ hcopy rfl rfl rfl rfl rfl rfl, h.stray, h.overrun,
          .inr fun i n => ⟨nofun, nofun⟩, .inl hlt, ?_, fun c' hc' _ => ?_,
          fun _ _ h' => Bool.noConfusion (ha.symm.trans h'), fun _ => nofun,
          fun _ _ h' => Bool.noConfusion (ha.symm.trans h')⟩
        · rintro (h' | ⟨i, n, h'⟩ | h')
          · exact Pc.noConfusion h'
          · exact Pc.noConfusion h'
          · exact Bool.noConfusion (ha.symm.trans h')
        · obtain rfl := Pc.read.inj hc'
          exact ⟨f, total, total, hf, htotal, ⟨f.len, htotal⟩,
            (or_iff_right Bool.false_ne_true).symm, hfits⟩
      refine ⟨hinv, law_of_inv hinv rfl (fun hp => Pc.noConfusion hp) (fun _ _ _ h' => hnot h')
        (fun _ _ _ h' => hnot h') (fun _ => .inl ?_)⟩
      rw [measure_copy hpc, measure_read rfl, show rxSize = 1514 from rfl]
      show (if s.acking then 0 else _) + (maxTries - 1 - (s.retry + 1)) * tryCost + _ < _
      have hle : (maxTries - 1 - (s.retry + 1)) * tryCost ≤ (maxTries - 1 - s.retry) * tryCost :=
        Nat.mul_le_mul_right _ (by omega)
      omega
  · rw [if_neg hm]
    have hcopy : ∀ i n, Pc.poll ≠ .copy i n := nofun
    have hinv : Inv { s.copied n with pc := .poll } := by
      refine ⟨hbuffers _ hcopy rfl rfl rfl rfl rfl rfl, h.stray, h.overrun, ?_, .inl hretry,
        fun _ => hout, fun _ => nofun, fun _ => nofun, fun _ => nofun, fun hlast hans => ?_⟩
      · rcases h.delay with h' | h'
        · exact .inl h'
        · exact absurd hpc (h' n n).2
      · obtain ⟨f, hf, hans'⟩ := hkept hlast hans
        by_cases ha : s.acking = true
        · exact .inr ⟨ha, ⟨f, hf, hans'⟩, fun h' => absurd rfl h'⟩
        · -- an OFFER would have been matched
          have ha' := Bool.eq_false_of_not_eq_true ha
          obtain ⟨hlen, hin, -⟩ := hcopying f hf
          rw [ha'] at hans'
          exact absurd (matches_of_answers (s := s.copied n) ha' (hlen ▸ hin) hans') hm
    refine ⟨hinv, law_of_inv hinv rfl (fun hp => Pc.noConfusion hp) (fun _ _ _ h' => hnot h')
      (fun _ _ _ h' => hnot h') (fun _ => .inl ?_)⟩
    rw [measure_copy hpc, measure_poll rfl]
    show (if s.acking then 0 else _) + (maxTries - 1 - s.retry) * tryCost +
      (3200 + s.delay.toNat * 1600) < _
    omega

/-- A byte of a copy -/
theorem Inv.copying (h : Inv s) {i n : Nat} (hpc : s.pc = .copy i n) (hi : i < n) :
    Inv (s.copy i n) ∧ StepLaw s .main (s.copy i n) := by
  have hout : s.out = false := h.out (.inr (.inl ⟨i, n, hpc⟩))
  obtain ⟨-, hn, hcopying⟩ := h.buffers.copy i n hpc
  have hnot : ∀ {q : Prop} {c'}, s.pc = .read c' → q := fun h' =>
    Pc.noConfusion (hpc.symm.trans h')
  unfold DhcpStart.copy
  rw [if_pos hi]
  have hinv : Inv { s with
      buf := Function.update s.buf i (s.rxBuf i), pc := .copy (i + 1) n } := by
    refine ⟨⟨h.buffers.source, h.buffers.ready, fun h' => absurd rfl (h' (i + 1) n),
        fun i' n' hc => ?_⟩, h.stray, h.overrun, ?_, ?_, fun _ => hout, fun _ => nofun,
      fun _ => nofun, fun _ => nofun, fun hlast hans => ?_⟩
    · obtain ⟨rfl, rfl⟩ := Pc.copy.inj hc
      refine ⟨hi, hn, fun f hf => ?_⟩
      obtain ⟨hlen, hbuf, hrx⟩ := hcopying f hf
      refine ⟨hlen, fun j hj => ?_, fun _ => hrx hi⟩
      by_cases hji : j = i
      · subst hji
        exact (Function.update_self ..).trans (hrx hi j hi)
      · exact (Function.update_of_ne hji ..).trans (hbuf j (by omega))
    · rcases h.delay with h' | h'
      · exact .inl h'
      · exact absurd hpc (h' i n).2
    · rcases h.tries with h' | ⟨ok, h'⟩
      · exact .inl h'
      · exact Pc.noConfusion (hpc.symm.trans h')
    · have hkept := h.answer hlast hans
      unfold AnswerKept at hkept ⊢
      rw [hpc] at hkept
      exact hkept
  refine ⟨hinv, law_of_inv hinv rfl (fun hp => Pc.noConfusion hp) (fun _ _ _ h' => hnot h')
    (fun _ _ _ h' => hnot h') (fun _ => .inl ?_)⟩
  rw [measure_copy hpc, measure_copy rfl]
  show (if s.acking then 0 else _) + (maxTries - 1 - s.retry) * tryCost +
    (3200 + s.delay.toNat * 1600 + (n - (i + 1)) + 1) < _
  omega

/-! ## The interrupt -/

theorem Inv.receive (h : Inv s) (hlen : f.len ≤ rxSize)
    (hundisturbed : s.retry + 1 = maxTries → s.Undisturbed f) :
    Inv (s.receive f) ∧ StepLaw s (.rx f) (s.receive f) := by
  have hinv : Inv (s.receive f) := by
    refine ⟨⟨fun f' hf' => ?_, fun _ => nofun, h.buffers.held, fun i n hc => ?_⟩, h.stray,
      h.overrun, h.delay, h.tries, h.out,
      fun c hc ha => ⟨(h.offer c hc ha).got⟩, fun c hc ha => ⟨(h.ack c hc ha).got⟩,
      fun c hc => ⟨(h.lease c hc).got⟩, fun hlast hans => ?_⟩
    · obtain rfl := Option.some.inj hf'
      exact ⟨hlen, fun i hi => if_pos hi, fun _ => rfl⟩
    · obtain ⟨hle, hn, hcopying⟩ := h.buffers.copy i n hc
      refine ⟨hle, hn, fun f' hf' => ?_⟩
      have hf'' : (if s.pc.Copying then none else s.copying) = some f' := hf'
      rw [show s.pc = .copy i n from hc] at hf''
      obtain ⟨hirr, hf''⟩ := Option.ite_none_left_eq_some.mp hf''
      obtain ⟨hlen', hbuf, -⟩ := hcopying f' hf''
      exact ⟨hlen', hbuf, fun hlt => absurd hlt hirr⟩
    · have hans' : (s.answered || decide (f.Answers s.acking s.txId)) = true := hans
      rw [Bool.or_eq_true, decide_eq_true_iff] at hans'
      have hund := hundisturbed hlast
      have hkept := h.answer hlast
      unfold AnswerKept at hkept ⊢
      unfold Undisturbed at hund
      rw [show (s.receive f).pc = s.pc from rfl]
      cases hpc : s.pc with
      | poll =>
        rw [hpc] at hund hkept
        have hund' : if s.answered then f.Answers s.acking s.txId else
          f.Answers s.acking s.txId → s.delay ≠ 0 := hund
        have hanswers : f.Answers s.acking s.txId := by
          by_cases hbefore : s.answered = true
          · rwa [if_pos hbefore] at hund'
          · exact hans'.resolve_left hbefore
        have hready : f.len ≠ 0 := by
          obtain ⟨-, -, total, htotal, -⟩ := hanswers
          exact Nat.ne_of_gt (Nat.zero_lt_of_lt (Frame.Rest.lt ⟨f.len, htotal⟩))
        by_cases hbefore : s.answered = true
        · rcases hkept hbefore with ⟨-, -, hd⟩ | ⟨ha, hheld, -⟩
          · exact .inl ⟨hready, ⟨f, rfl, hanswers⟩, hd⟩
          · exact .inr ⟨ha, hheld, fun _ => ⟨f, rfl, hanswers⟩⟩
        · rw [if_neg hbefore] at hund'
          exact .inl ⟨hready, ⟨f, rfl, hanswers⟩, hund' hanswers⟩
      | copy i n =>
        rw [hpc] at hund
        rcases hans' with h' | h'
        · exact Bool.noConfusion (hund.1.symm.trans h')
        · exact absurd h' hund.2
      | read c =>
        rw [hpc] at hund hkept
        intro ha
        by_cases hbefore : s.answered = true
        · exact hkept hbefore ha
        · exact absurd (hans'.resolve_left hbefore) (hund (Bool.eq_false_of_not_eq_true hbefore))
      | lease c => trivial
      | done ok => trivial
  exact ⟨hinv, law_of_inv hinv rfl (fun hp => .inl hp) (fun _ _ h' => nomatch h')
    (fun _ _ h' => nomatch h') (fun h' => nomatch h')⟩

/-- **One step under the condition** -/
theorem Inv.step (h : Inv s) (hk : ClientKept s e) (ht : s.step e = some t) :
    Inv t ∧ StepLaw s e t := by
  cases e with
  | rx f =>
    obtain rfl := Option.some.inj ht
    by_cases hf : f.Kept
    · rw [if_pos hf]
      exact h.receive (hk hf).1 (hk hf).2
    · rw [if_neg hf]
      exact ⟨h, law_of_inv h rfl (fun hp => .inl hp) (fun _ _ h' => nomatch h')
        (fun _ _ h' => nomatch h') (fun h' => nomatch h')⟩
  | main =>
    have ht' : s.main = some t := ht
    unfold main at ht'
    cases hpc : s.pc with
    | poll =>
      rw [hpc] at ht'
      obtain rfl := Option.some.inj ht'
      exact h.poll hpc hk
    | copy i n =>
      rw [hpc] at ht'
      obtain rfl := Option.some.inj ht'
      by_cases hi : i < n
      · exact h.copying hpc hi
      · obtain rfl := Nat.le_antisymm (h.buffers.copy i n hpc).1 (Nat.not_lt.mp hi)
        exact h.copied hpc hk
    | read c =>
      rw [hpc] at ht'
      obtain rfl := Option.some.inj ht'
      by_cases ha : s.acking = true
      · rw [if_pos ha]
        exact h.readAck hpc ha
      · rw [if_neg ha]
        exact h.readOffer hpc (Bool.eq_false_of_not_eq_true ha)
    | lease c =>
      rw [hpc] at ht'
      obtain rfl := Option.some.inj ht'
      exact h.printOption hpc
    | done ok =>
      rw [hpc] at ht'
      exact Option.noConfusion rfl (heq_of_eq ht')

theorem inv_start (rxBuf buf : Nat → BitVec 8) : Inv (start rxBuf buf) :=
  ⟨⟨fun _ => nofun, fun h' => absurd rfl h', fun _ _ => nofun, fun _ _ => nofun⟩, rfl, rfl,
    .inl (Nat.le_refl _), .inl (Nat.zero_lt_succ _), fun _ => rfl, fun _ => nofun, fun _ => nofun,
    fun _ => nofun, fun _ => nofun⟩

/-- A packet from the server's port to the client's, with one option -/
def reply (op id type : BitVec 8) : Frame where
  bytes k :=
    if k = protPlace then proUdp else if k = srcPortPlace + 1 then 67
    else if k = destPortPlace + 1 then 68 else if k = opPlace then op
    else if k = txIdPlace then id else if k = txIdPlace + 1 then 0x89
    else if k = yourIpPlace then 10 else if k = optionsPlace then optType
    else if k = optionsPlace + 1 then 1 else if k = optionsPlace + 2 then type
    else if k = optionsPlace + 3 then optEnd else 0
  len := optionsPlace + 4

/-- The DISCOVER and the REQUEST are answered. -/
def answers : List Event :=
  .rx (reply bootpReply 0 dhcpOffer) :: List.replicate 290 .main ++
    .rx (reply bootpReply 1 dhcpAck) :: List.replicate 290 .main

/-- After the REQUEST comes an acknowledgement of another transaction, and not in a reply. -/
def foreign : List Event :=
  .rx (reply bootpReply 0 dhcpOffer) :: List.replicate 290 .main ++
    .rx (reply 1 7 dhcpAck) :: List.replicate 288 .main

end DhcpStart

end Ma35d1.Dhcp
