import Ma35d1.UsbHost.Core.ParseSafety

/-!
# Safe configurations

The interfaces of a configuration one after the other, and the descriptors of
which configurations are parsed safely in every memory and for all drivers.
-/

namespace Ma35d1.UsbHost.Core

variable {b : Buf} {w o ifd i n m : Nat} {c : Cursor} {k : Nat → Prop} {δ : Type}

/-! ## Rounds and error codes -/

theorem andThen_mono {r : Except Stop (Flow × IfaceParse)} {z : Flow × IfaceParse}
    {k k' : IfaceParse → Except Stop (Flow × IfaceParse)}
    (hk : ∀ p z, k p = .ok z → k' p = .ok z) (h : andThen r k = .ok z) : andThen r k' = .ok z := by
  rcases r with e | ⟨_ | _ | ret, p⟩
  · exact h
  · exact hk p z h
  · exact h
  · exact h

theorem takeAlt_mono {d : Nat} {p : IfaceParse} {z : Flow × IfaceParse}
    {k k' : IfaceParse → Except Stop (Flow × IfaceParse)}
    (hk : ∀ p z, k p = .ok z → k' p = .ok z) (h : takeAlt b d k p = .ok z) :
    takeAlt b d k' p = .ok z := by
  by_cases h0 : p.cur.len = 0
  · rw [takeAlt_end h0] at h ⊢
    exact h
  cases hh : p.hdr with
  | none =>
    rw [takeAlt_wild h0 hh] at h
    cases h
  | some e =>
    rw [takeAlt_header h0 hh] at h ⊢
    split at h
    · rename_i ht
      rw [if_pos ht]
      exact hk _ _ h
    · rename_i ht
      rw [if_neg ht]
      exact andThen_mono hk h

/-- More rounds do not change the result. -/
theorem parseAlts_mono {p : IfaceParse} {z : Flow × IfaceParse} (h : parseAlts b n p = .ok z) :
    parseAlts b (n + 1) p = .ok z := by
  induction n generalizing p z with
  | zero => cases h
  | succ n ih =>
    by_cases h0 : p.cur.len ≤ 0
    · rw [parseAlts_end h0] at h ⊢
      exact h
    by_cases ht : bDescriptorType b p.cur.off = usbDtInterface
    · rw [parseAlts_iface (by omega) ht] at h ⊢
      dsimp only at h ⊢
      split
      · rename_i hc
        rwa [if_pos hc] at h
      rename_i hc
      rw [if_neg hc] at h
      split
      · rename_i hc
        rwa [if_pos hc] at h
      rename_i hc
      rw [if_neg hc] at h
      split
      · rename_i hc
        rwa [if_pos hc] at h
      rename_i hc
      rw [if_neg hc] at h
      exact andThen_mono (fun p z hz => takeAlt_mono (fun p z hz => ih hz) hz) h
    · rw [parseAlts_skip (by omega) ht] at h ⊢
      exact ih h

theorem parseAlts_mono_le {p : IfaceParse} {z : Flow × IfaceParse} (hnm : n ≤ m)
    (h : parseAlts b n p = .ok z) : parseAlts b m p = .ok z := by
  induction hnm with
  | refl => exact h
  | step _ ih => exact parseAlts_mono ih

/-- A block that jumps to `err_out` has a negative code. -/
def ErrNeg (k : IfaceParse → Except Stop (Flow × IfaceParse)) : Prop :=
  ∀ p ret q, k p = .ok (.err ret, q) → ret < 0

theorem andThen_err {r : Except Stop (Flow × IfaceParse)} {ret : Int} {q : IfaceParse}
    {k : IfaceParse → Except Stop (Flow × IfaceParse)}
    (hr : ∀ ret q, r = .ok (.err ret, q) → ret < 0) (hk : ErrNeg k)
    (h : andThen r k = .ok (.err ret, q)) : ret < 0 := by
  rcases r with e | ⟨_ | _ | ret', p⟩
  · cases h
  · exact hk _ _ _ h
  · cases h
  · exact hr _ _ h

theorem seekHeader_err {p q : IfaceParse} {ret : Int} (h : seekHeader b n p = (.err ret, q)) :
    ret < 0 := by
  induction n generalizing p with
  | zero => cases h
  | succ n ih =>
    rw [seekHeader] at h
    dsimp only at h
    split at h
    · cases h
    split at h
    · obtain ⟨he, -⟩ := Prod.mk.inj h
      obtain rfl := Flow.err.inj he
      decide
    split at h
    · cases h
    split at h
    · cases h
    exact ih h

theorem parseEndpoints_err : ErrNeg (parseEndpoints b ifd m i) := by
  induction m generalizing i with
  | zero => exact fun _ _ _ h => (by cases h)
  | succ m ih =>
    intro p ret q h
    rw [parseEndpoints] at h
    rcases hr : usbhParseEndpoint b ifd i p.cur.off p.cur.len
        (.alt (p.iface.numAlt - 1) :: p.cur.log) with e | ⟨_ | ⟨ret', info⟩, log'⟩
    · rw [hr] at h
      cases h
    · rw [hr] at h
      obtain ⟨he, -⟩ := Prod.mk.inj (Except.ok.inj h)
      obtain rfl := Flow.err.inj he
      decide
    · rw [hr] at h
      exact ih _ _ _ h

theorem parseAlts_err : ErrNeg (parseAlts b n) := by
  induction n with
  | zero => exact fun _ _ _ h => (by cases h)
  | succ n ih =>
    have htake : ∀ d, ErrNeg (takeAlt b d (parseAlts b n)) := by
      intro d p ret q h
      by_cases h0 : p.cur.len = 0
      · rw [takeAlt_end h0] at h
        cases h
      cases hh : p.hdr with
      | none =>
        rw [takeAlt_wild h0 hh] at h
        cases h
      | some e =>
        rw [takeAlt_header h0 hh] at h
        split at h
        · exact ih _ _ _ h
        · exact andThen_err (fun _ _ hr => parseEndpoints_err _ _ _ hr) ih h
    intro p ret q h
    by_cases h0 : p.cur.len ≤ 0
    · rw [parseAlts_end h0] at h
      cases h
    by_cases ht : bDescriptorType b p.cur.off = usbDtInterface
    · rw [parseAlts_iface (by omega) ht] at h
      dsimp only at h
      split at h
      · cases h
      split at h
      · obtain ⟨he, -⟩ := Prod.mk.inj (Except.ok.inj h)
        obtain rfl := Flow.err.inj he
        decide
      split at h
      · obtain ⟨he, -⟩ := Prod.mk.inj (Except.ok.inj h)
        obtain rfl := Flow.err.inj he
        decide
      exact andThen_err (fun _ _ hr => seekHeader_err (Except.ok.inj hr)) (htake _) h
    · rw [parseAlts_skip (by omega) ht] at h
      exact ih _ _ _ h

/-! ## Interfaces -/

/-- The next interface is found at `c'`, with the log as before. -/
structure FoundAt (b : Buf) (w : Nat) (c c' : Cursor) : Prop where
  len : c'.len = w - c'.off
  log : c'.log = c.log
  type : bDescriptorType b c'.off = usbDtInterface
  le : c'.off + 2 ≤ w

theorem seekInterface_fits (hn : c.len.toNat ≤ n) (hc : c.len = w - c.off) :
    InterfaceFits b w k n c.off ↔
      seekInterface b n c = none ∨ ∃ c', seekInterface b n c = some c' ∧ FoundAt b w c c' ∧
        AltsFit b w k (bInterfaceNumber b c'.off) (w - c'.off) 0 c'.off := by
  induction n generalizing c with
  | zero =>
    rw [seekInterface, InterfaceFits]
    split
    · refine iff_of_false (by omega) ?_
      rintro (h | ⟨c', h, hf, -⟩)
      · cases h
      · obtain rfl := Option.some.inj h
        have := hf.le
        omega
    · exact iff_of_true (by omega) (.inl rfl)
  | succ n ih =>
    rw [seekInterface, InterfaceFits]
    by_cases h0 : 0 ≤ c.len ∧ c.len < 2
    · rw [if_pos h0]
      refine iff_of_false (by omega) ?_
      rintro (h | ⟨c', h, hf, -⟩)
      · cases h
      · obtain rfl := Option.some.inj h
        have := hf.le
        omega
    rw [if_neg h0]
    by_cases hlt : w < c.off
    · have hbad : badHdr b c = true := by
        simp only [badHdr, Bool.or_eq_true, decide_eq_true_iff]
        omega
      rw [if_pos hbad]
      exact iff_of_true (.inl hlt) (.inl rfl)
    have hst : Standing w c.off ⟨c.off, c.len, 0, c.log⟩ :=
      ⟨hc, by simp, Nat.le_refl _, by show c.off ≤ w; omega⟩
    have hbh : badHdr b c = true ↔ Broken b w c.off := hst.badHdr
    rw [or_iff_right hlt, and_iff_right (by omega : c.off + 2 ≤ w)]
    by_cases hb : badHdr b c = true
    · rw [if_pos hb]
      exact iff_of_true (.inl (hbh.mp hb)) (.inl rfl)
    have hnb : ¬ Broken b w c.off := fun h => hb (hbh.mpr h)
    have hnx := next_of_not_broken hnb
    rw [if_neg hb, or_iff_right hnb]
    by_cases ht : bDescriptorType b c.off = usbDtInterface
    · rw [if_pos ht, if_pos ht]
      constructor
      · intro h
        exact .inr ⟨c, rfl, ⟨hc, rfl, ht, by omega⟩, h⟩
      · rintro (h | ⟨c', h, -, hf⟩)
        · cases h
        · obtain rfl := Option.some.inj h
          exact hf
    · rw [if_neg ht, if_neg ht]
      have hoff : (c.skip (bLength b c.off)).off = nextDesc b c.off := rfl
      have hlen : (c.skip (bLength b c.off)).len = w - (c.skip (bLength b c.off)).off := by
        show c.len - (bLength b c.off : Int) = w - ((c.off + bLength b c.off : Nat) : Int)
        omega
      rw [← hoff, ih ?_ hlen]
      · constructor
        · rintro (h | ⟨c', h, hf, hfit⟩)
          · exact .inl h
          · exact .inr ⟨c', h, ⟨hf.len, hf.log, hf.type, hf.le⟩, hfit⟩
        · rintro (h | ⟨c', h, hf, hfit⟩)
          · exact .inl h
          · exact .inr ⟨c', h, ⟨hf.len, hf.log, hf.type, hf.le⟩, hfit⟩
      · unfold nextDesc at hnx
        show (c.len - (bLength b c.off : Int)).toNat ≤ n
        omega

/-- `usbh_parse_interface` starts at an interface descriptor. -/
def startParse (b : Buf) (c : Cursor) : IfaceParse :=
  ⟨⟨c.off, c.len, 0, .read (c.off + 2) :: c.log⟩, .zero (bInterfaceNumber b c.off), none⟩

theorem startParse_fits {done : IfaceParse → Prop}
    (hdc : ∀ q, done q → Clean b w q.cur.log ∧ q.cur.parsedLen ≤ (w : Int) - c.off)
    (hd : ∀ q, Standing w c.off q.cur → Clean b w q.cur.log → (done q ↔ k q.cur.off))
    (hc : c.len = w - c.off) (hle : c.off + 2 ≤ w) (ht : bDescriptorType b c.off = usbDtInterface)
    (hl : Clean b w c.log) :
    AltsGood b w done (startParse b c) ↔
      AltsFit b w k (bInterfaceNumber b c.off) (w - c.off) 0 c.off := by
  by_cases h3 : c.off + 3 ≤ w
  · exact parseAlts_fits (o := c.off) (p := startParse b c) hdc hd (Nat.le_refl _)
      ⟨hc, by show (0 : Int) = c.off - c.off; omega, Nat.le_refl _, by show c.off ≤ w; omega⟩
      (clean_cons.mpr ⟨show c.off + 2 < w by omega, hl⟩) rfl rfl
  · refine iff_of_false (fun h => h3 ?_) (fun h => h3 ?_)
    · exact (clean_cons.mp (h.clean fun q hq => (hdc q hq).1)).1
    · obtain ⟨j, hj⟩ : ∃ j, w - c.off = j + 1 := ⟨w - c.off - 1, by omega⟩
      rw [hj, AltsFit, if_neg (by omega), if_neg (not_not_intro ht)] at h
      exact h.2.1

theorem seekInterface_some {c' : Cursor} (hn : c.len.toNat ≤ n) (hc : c.len = w - c.off)
    (h : seekInterface b n c = some c') :
    c'.len = w - c'.off ∧ c'.log = c.log ∧ (c'.len < 2 ∨ FoundAt b w c c') := by
  induction n generalizing c with
  | zero =>
    rw [seekInterface] at h
    split at h
    · obtain rfl := Option.some.inj h
      exact ⟨hc, rfl, .inl (by omega)⟩
    · cases h
  | succ n ih =>
    rw [seekInterface] at h
    by_cases h0 : 0 ≤ c.len ∧ c.len < 2
    · rw [if_pos h0] at h
      obtain rfl := Option.some.inj h
      exact ⟨hc, rfl, .inl h0.2⟩
    rw [if_neg h0] at h
    by_cases hb : badHdr b c = true
    · rw [if_pos hb] at h
      cases h
    rw [if_neg hb] at h
    have hb' : ¬ (c.len < bLength b c.off ∨ bLength b c.off < 2) := by
      simpa only [badHdr, Bool.or_eq_true, decide_eq_true_iff] using hb
    split at h
    · rename_i ht
      obtain rfl := Option.some.inj h
      exact ⟨hc, rfl, .inr ⟨hc, rfl, ht, by omega⟩⟩
    · have hlen : (c.skip (bLength b c.off)).len = w - (c.skip (bLength b c.off)).off := by
        show c.len - (bLength b c.off : Int) = w - ((c.off + bLength b c.off : Nat) : Int)
        omega
      have hn' : (c.skip (bLength b c.off)).len.toNat ≤ n := by
        show (c.len - (bLength b c.off : Int)).toNat ≤ n
        omega
      obtain ⟨h1, h2, h3⟩ := ih hn' hlen h
      refine ⟨h1, h2, h3.imp_right fun hf => ⟨hf.len, h2, hf.type, hf.le⟩⟩

section

variable {drivers : Drivers δ} {ifaces : List (Addr × Iface)} {h : Host δ} {rounds off : Nat}
  {len : Int} {log : List ParseEvent} {r : Parsed δ}

theorem parseDone_ret {x : Addr} {p : IfaceParse} :
    (parseDone drivers x len ifaces h p).ret = p.cur.parsedLen := by
  unfold parseDone
  dsimp only
  split <;> rfl

theorem parseDone_log {x : Addr} {p : IfaceParse} :
    (parseDone drivers x len ifaces h p).log = .report len p.cur.parsedLen :: p.cur.log := by
  unfold parseDone
  dsimp only
  split <;> rfl

theorem usbhParseInterface_mono {rounds' : Nat} (hle : rounds ≤ rounds')
    (hr : usbhParseInterface drivers b rounds off len ifaces h log = .ok r) :
    usbhParseInterface drivers b rounds' off len ifaces h log = .ok r := by
  unfold usbhParseInterface at hr ⊢
  cases ha : h.dma.usbhAllocMem sizeofIface with
  | none =>
    rw [ha] at hr
    exact hr
  | some z =>
    rw [ha] at hr
    rcases hp : parseAlts b rounds ⟨⟨off, len, 0, .read (off + 2) :: log⟩,
        .zero (bInterfaceNumber b off), none⟩ with e | z'
    · simp only [hp] at hr
      cases hr
    · simp only [hp] at hr
      simp only [parseAlts_mono_le hle hp]
      exact hr

theorem parseInterfaces_mono {rounds' : Nat} (hle : rounds ≤ rounds')
    (hr : parseInterfaces drivers b rounds m c ifaces h = .ok r) :
    parseInterfaces drivers b rounds' m c ifaces h = .ok r := by
  induction m generalizing c ifaces h with
  | zero => exact hr
  | succ m ih =>
    rw [parseInterfaces] at hr ⊢
    cases hs : seekInterface b c.len.toNat c with
    | none =>
      rw [hs] at hr
      exact hr
    | some c' =>
      rw [hs] at hr
      rcases hp : usbhParseInterface drivers b rounds c'.off c'.len ifaces h c'.log with e | r'
      · simp only [hp] at hr
        cases hr
      · simp only [hp] at hr
        simp only [usbhParseInterface_mono hle hp]
        split
        · rename_i hneg
          rwa [if_pos hneg] at hr
        · rename_i hneg
          rw [if_neg hneg] at hr
          exact ih hr

/-- The cursor of the configuration behind an interface. -/
theorem behind_len {p : IfaceParse} (log : List ParseEvent) (hc : c.len = w - c.off) (hs : Standing w c.off p.cur) :
    (Cursor.skip ⟨c.off, c.len, c.parsedLen, log⟩ p.cur.parsedLen).off = p.cur.off ∧
      (Cursor.skip ⟨c.off, c.len, c.parsedLen, log⟩ p.cur.parsedLen).len = w - p.cur.off := by
  obtain ⟨h1, h2, h3, h4⟩ := hs
  constructor
  · show c.off + p.cur.parsedLen.toNat = p.cur.off
    omega
  · show c.len - p.cur.parsedLen = w - p.cur.off
    omega

/-- Descriptors in order are parsed safely. -/
theorem parseInterfaces_good (hc : c.len = w - c.off) (hl : Clean b w c.log)
    (hf : InterfacesFit b w m c.off) :
    ∃ rounds r, parseInterfaces drivers b rounds m c ifaces h = .ok r ∧ Clean b w r.log := by
  induction m generalizing c ifaces h with
  | zero => exact ⟨0, _, rfl, hl⟩
  | succ m ih =>
    have hn : c.len.toNat = w - c.off := by omega
    rw [InterfacesFit, ← hn] at hf
    rcases (seekInterface_fits (Nat.le_refl _) hc).mp hf with hs | ⟨c', hs, hfound, hfit⟩
    · exact ⟨0, ⟨usbhErrDescriptor, ifaces, h, c.log⟩, by rw [parseInterfaces, hs], hl⟩
    obtain ⟨hlen', hlog', ht, hle'⟩ := hfound
    have hl' : Clean b w c'.log := by rw [hlog']; exact hl
    cases ha : h.dma.usbhAllocMem sizeofIface with
    | none =>
      refine ⟨0, ⟨usbhErrMemoryOut, ifaces, h, c'.log⟩, ?_, hl'⟩
      rw [parseInterfaces, hs]
      simp only [usbhParseInterface, ha]
      rfl
    | some z =>
      obtain ⟨x, dma⟩ := z
      obtain ⟨n₁, hg⟩ := (startParse_fits
        (fun q (hq : Standing w c'.off q.cur ∧ Clean b w q.cur.log ∧
          InterfacesFit b w m q.cur.off) => ⟨hq.2.1, by have := hq.1.parsed; have := hq.1.le; omega⟩)
        (fun q hsq hlq => ⟨fun hq => hq.2.2, fun hq => ⟨hsq, hlq, hq⟩⟩) hlen' hle' ht hl').mpr hfit
      rcases hp : parseAlts b n₁ (startParse b c') with e | ⟨f, q⟩
      · rw [hp] at hg
        exact hg.elim
      have hdone : ∀ (hq : Standing w c'.off q.cur ∧ Clean b w q.cur.log ∧
            InterfacesFit b w m q.cur.off)
          (hi : ∀ n, n₁ ≤ n → usbhParseInterface drivers b n c'.off c'.len ifaces h c'.log =
            .ok (parseDone drivers x c'.len ifaces { h with dma := dma } q)),
          ∃ rounds r, parseInterfaces drivers b rounds (m + 1) c ifaces h = .ok r ∧
            Clean b w r.log := by
        rintro ⟨hsq, hlq, hkq⟩ hi
        have hpar := hsq.parsed
        have hst := hsq.start
        have hqle := hsq.le
        obtain ⟨hoff, hlen⟩ := behind_len
          (parseDone drivers x c'.len ifaces { h with dma := dma } q).log hlen' hsq
        obtain ⟨n₂, r, hr, hclean⟩ := @ih
          (Cursor.skip ⟨c'.off, c'.len, c'.parsedLen,
            (parseDone drivers x c'.len ifaces { h with dma := dma } q).log⟩ q.cur.parsedLen)
          (parseDone drivers x c'.len ifaces { h with dma := dma } q).ifaces
          (parseDone drivers x c'.len ifaces { h with dma := dma } q).host
          (by rw [hoff]; exact hlen)
          (by
            show Clean b w (parseDone drivers x c'.len ifaces { h with dma := dma } q).log
            rw [parseDone_log]
            exact clean_cons.mpr ⟨show q.cur.parsedLen ≤ c'.len by omega, hlq⟩)
          (by rw [hoff]; exact hkq)
        refine ⟨max n₁ n₂, r, ?_, hclean⟩
        rw [parseInterfaces, hs]
        simp only [hi _ (Nat.le_max_left ..), parseDone_ret]
        rw [if_neg (by omega)]
        exact parseInterfaces_mono (Nat.le_max_right ..) hr
      have hiface : ∀ n, n₁ ≤ n → parseAlts b n ⟨⟨c'.off, c'.len, 0, .read (c'.off + 2) :: c'.log⟩,
          .zero (bInterfaceNumber b c'.off), none⟩ = .ok (f, q) := fun n hle =>
        parseAlts_mono_le hle hp
      rw [hp] at hg
      cases f with
      | next => exact hdone hg fun n hle => by simp only [usbhParseInterface, ha, hiface n hle]
      | done => exact hdone hg fun n hle => by simp only [usbhParseInterface, ha, hiface n hle]
      | err ret =>
        have hneg := parseAlts_err _ _ _ hp
        refine ⟨n₁, ⟨ret, ifaces, { h with dma := dma.usbhFreeMem x sizeofIface }, q.cur.log⟩, ?_, hg⟩
        rw [parseInterfaces, hs]
        simp only [usbhParseInterface, ha, hiface n₁ (Nat.le_refl _)]
        rw [if_pos hneg]

end

/-! ## No drivers and an empty pool -/

def noDrivers : Drivers Unit := fun _ => none

def emptyHost : Host Unit := ⟨.init, ()⟩

theorem probeDrivers_none {x : Addr} {f : Iface} {h : Host Unit} :
    probeDrivers noDrivers x f n i h = (none, h) := by
  induction n generalizing i with
  | zero => rfl
  | succ n ih => exact ih

/-- There is always room for an interface, and it is given back. -/
theorem emptyHost_alloc :
    ∃ x dma, emptyHost.dma.usbhAllocMem sizeofIface = some (x, dma) ∧
      dma.usbhFreeMem x sizeofIface = emptyHost.dma := by
  obtain ⟨⟨x, dma⟩, h⟩ := Option.isSome_iff_exists.mp
    (show (emptyHost.dma.usbhAllocMem sizeofIface).isSome = true by decide)
  exact ⟨x, dma, h, DmaPool.usbhFreeMem_usbhAllocMem_one (by decide) h⟩

/-- Without drivers an interface leaves no trace but its log. -/
theorem usbhParseInterface_empty {ifaces : List (Addr × Iface)} {rounds : Nat} :
    usbhParseInterface noDrivers b rounds c.off c.len ifaces emptyHost c.log =
      match parseAlts b rounds (startParse b c) with
      | .error e => .error e
      | .ok (.err ret, q) => .ok ⟨ret, ifaces, emptyHost, q.cur.log⟩
      | .ok (_, q) => .ok ⟨q.cur.parsedLen, ifaces, emptyHost,
          .report c.len q.cur.parsedLen :: q.cur.log⟩ := by
  obtain ⟨x, dma, ha, hfree⟩ := emptyHost_alloc
  have hback : (⟨dma.usbhFreeMem x sizeofIface, ()⟩ : Host Unit) = emptyHost := by
    rw [hfree]
  simp only [usbhParseInterface, ha]
  show (match parseAlts b rounds (startParse b c) with
    | .error e => _ | .ok (.err r, p) => _ | .ok (_, p) => _) = _
  rcases parseAlts b rounds (startParse b c) with e | ⟨_ | _ | ret, q⟩
  · rfl
  · simp only [parseDone, probeDrivers_none, hback]
  · simp only [parseDone, probeDrivers_none, hback]
  · exact congrArg (fun h => Except.ok (⟨ret, ifaces, h, q.cur.log⟩ : Parsed Unit)) hback

theorem usbhParseInterface_clean {drivers : Drivers δ} {ifaces : List (Addr × Iface)} {h : Host δ}
    {rounds off : Nat} {len : Int} {log : List ParseEvent} {r : Parsed δ}
    (hr : usbhParseInterface drivers b rounds off len ifaces h log = .ok r)
    (hl : Clean b w r.log) : Clean b w log := by
  unfold usbhParseInterface at hr
  cases ha : h.dma.usbhAllocMem sizeofIface with
  | none =>
    simp only [ha] at hr
    obtain rfl := Except.ok.inj hr
    exact hl
  | some z =>
    simp only [ha] at hr
    rcases hp : parseAlts b rounds ⟨⟨off, len, 0, .read (off + 2) :: log⟩,
        .zero (bInterfaceNumber b off), none⟩ with e | ⟨f, q⟩
    · simp only [hp] at hr
      cases hr
    · have hq : Clean b w q.cur.log := by
        cases f with
        | err ret =>
          simp only [hp] at hr
          obtain rfl := Except.ok.inj hr
          exact hl
        | next =>
          simp only [hp] at hr
          obtain rfl := Except.ok.inj hr
          rw [parseDone_log] at hl
          exact (clean_cons.mp hl).2
        | done =>
          simp only [hp] at hr
          obtain rfl := Except.ok.inj hr
          rw [parseDone_log] at hl
          exact (clean_cons.mp hl).2
      have hs := parseAlts_clean _ _ _ hp hq
      exact (clean_cons.mp hs).2

theorem seekInterface_log {c' : Cursor} (h : seekInterface b n c = some c') : c'.log = c.log := by
  induction n generalizing c with
  | zero =>
    rw [seekInterface] at h
    split at h
    · obtain rfl := Option.some.inj h
      rfl
    · cases h
  | succ n ih =>
    rw [seekInterface] at h
    split at h
    · obtain rfl := Option.some.inj h
      rfl
    split at h
    · cases h
    split at h
    · obtain rfl := Option.some.inj h
      rfl
    · exact ih (c := c.skip (bLength b c.off)) h

theorem parseInterfaces_clean {drivers : Drivers δ} {ifaces : List (Addr × Iface)} {h : Host δ}
    {rounds : Nat} {r : Parsed δ} (hr : parseInterfaces drivers b rounds m c ifaces h = .ok r)
    (hl : Clean b w r.log) : Clean b w c.log := by
  induction m generalizing c ifaces h with
  | zero =>
    obtain rfl := Except.ok.inj hr
    exact hl
  | succ m ih =>
    rw [parseInterfaces] at hr
    cases hs : seekInterface b c.len.toNat c with
    | none =>
      simp only [hs] at hr
      obtain rfl := Except.ok.inj hr
      exact hl
    | some c' =>
      simp only [hs] at hr
      rcases hp : usbhParseInterface drivers b rounds c'.off c'.len ifaces h c'.log with e | r'
      · simp only [hp] at hr
        cases hr
      · simp only [hp] at hr
        rw [← seekInterface_log hs]
        refine usbhParseInterface_clean hp ?_
        split at hr
        · obtain rfl := Except.ok.inj hr
          exact hl
        · exact ih hr

/-- With no drivers and an empty pool a safe parse means that the descriptors are in order. -/
theorem parseInterfaces_fits {ifaces : List (Addr × Iface)} {rounds : Nat} {r : Parsed Unit}
    (hc : c.len = w - c.off) (hl : Clean b w c.log)
    (hr : parseInterfaces noDrivers b rounds m c ifaces emptyHost = .ok r) (hcl : Clean b w r.log) :
    InterfacesFit b w m c.off := by
  induction m generalizing c ifaces rounds r with
  | zero => trivial
  | succ m ih =>
    have hn : c.len.toNat = w - c.off := by omega
    rw [InterfacesFit, ← hn]
    refine (seekInterface_fits (Nat.le_refl _) hc).mpr ?_
    rw [parseInterfaces] at hr
    cases hs : seekInterface b c.len.toNat c with
    | none => exact .inl rfl
    | some c' =>
      obtain ⟨hlen', hlog', hfound⟩ := seekInterface_some (Nat.le_refl _) hc hs
      have hl' : Clean b w c'.log := by rw [hlog']; exact hl
      let done : IfaceParse → Prop := fun q =>
        Clean b w (.report c'.len q.cur.parsedLen :: q.cur.log) ∧
          (q.cur.parsedLen < 0 ∨ ∃ rounds r, parseInterfaces noDrivers b rounds m
            (Cursor.skip ⟨c'.off, c'.len, c'.parsedLen,
              .report c'.len q.cur.parsedLen :: q.cur.log⟩ q.cur.parsedLen) ifaces emptyHost = .ok r ∧
              Clean b w r.log)
      have hdc : ∀ q, done q → Clean b w q.cur.log ∧ q.cur.parsedLen ≤ (w : Int) - c'.off := by
        intro q hq
        have hrep : q.cur.parsedLen ≤ c'.len := (clean_cons.mp hq.1).1
        exact ⟨(clean_cons.mp hq.1).2, by omega⟩
      have hd : ∀ q, Standing w c'.off q.cur → Clean b w q.cur.log →
          (done q ↔ InterfacesFit b w m q.cur.off) := by
        intro q hsq hlq
        have hpar := hsq.parsed
        have hst := hsq.start
        have hqle := hsq.le
        have hclean : Clean b w (.report c'.len q.cur.parsedLen :: q.cur.log) :=
          clean_cons.mpr ⟨show q.cur.parsedLen ≤ c'.len by omega, hlq⟩
        obtain ⟨hoff, hlen⟩ := behind_len
          (.report c'.len q.cur.parsedLen :: q.cur.log) hlen' hsq
        rw [← hoff] at hlen ⊢
        constructor
        · rintro ⟨-, hneg | ⟨rounds, r, hr, hcl⟩⟩
          · omega
          · exact ih hlen hclean hr hcl
        · exact fun hf => ⟨hclean, .inr (parseInterfaces_good hlen hclean hf)⟩
      have hgood : AltsGood b w done (startParse b c') := by
        refine ⟨rounds, ?_⟩
        simp only [hs] at hr
        rcases hp : parseAlts b rounds (startParse b c') with e | ⟨f, q⟩
        · rw [usbhParseInterface_empty, hp] at hr
          cases hr
        have hdone : (∀ ret, f ≠ .err ret) → done q := by
          intro hf
          rw [usbhParseInterface_empty, hp] at hr
          have hr' : (if q.cur.parsedLen < 0 then
              .ok ⟨q.cur.parsedLen, ifaces, emptyHost, .report c'.len q.cur.parsedLen :: q.cur.log⟩
            else parseInterfaces noDrivers b rounds m (Cursor.skip ⟨c'.off, c'.len, c'.parsedLen,
              .report c'.len q.cur.parsedLen :: q.cur.log⟩ q.cur.parsedLen) ifaces emptyHost) =
              .ok r := by
            cases f with
            | err ret => exact absurd rfl (hf ret)
            | next => exact hr
            | done => exact hr
          split at hr'
          · rename_i hneg
            obtain rfl := Except.ok.inj hr'
            exact ⟨hcl, .inl hneg⟩
          · exact ⟨parseInterfaces_clean hr' hcl, .inr ⟨rounds, r, hr', hcl⟩⟩
        cases f with
        | next => exact hdone fun ret he => (by cases he)
        | done => exact hdone fun ret he => (by cases he)
        | err ret =>
          rw [usbhParseInterface_empty, hp] at hr
          dsimp only at hr
          rw [if_pos (parseAlts_err _ _ _ hp)] at hr
          obtain rfl := Except.ok.inj hr
          exact hcl
      have hclean : c'.off + 2 < w :=
        (clean_cons.mp (hgood.clean fun q hq => (hdc q hq).1)).1
      have hf := hfound.resolve_left (by omega)
      exact .inr ⟨c', rfl, hf, (startParse_fits hdc hd hlen' hf.le hf.type hl').mp hgood⟩

/-! ## Which configurations are parsed safely -/

/-- The cursor behind the configuration descriptor. -/
def startConfig (b : Buf) : Cursor := Cursor.skip ⟨0, wTotalLength b, 0, []⟩ (bLength b 0)

theorem startConfig_off (b : Buf) : (startConfig b).off = bLength b 0 := Nat.zero_add _

theorem startConfig_len (b : Buf) : (startConfig b).len = wTotalLength b - (startConfig b).off := by
  show (wTotalLength b : Int) - (bLength b 0 : Int) = wTotalLength b - ((0 + bLength b 0 : Nat) : Int)
  omega

theorem startConfig_clean (b : Buf) : Clean b w (startConfig b).log := fun _ he => (by cases he)

theorem Fits.safe (h : Fits b) : ParseSafe b := by
  intro δ drivers ifaces host
  unfold Fits at h
  rw [← startConfig_off] at h
  exact parseInterfaces_good (startConfig_len b) (startConfig_clean b) h

theorem ParseSafe.fits (h : ParseSafe b) : Fits b := by
  obtain ⟨rounds, r, hr, hcl⟩ := h Unit noDrivers [] emptyHost
  unfold Fits
  rw [← startConfig_off]
  exact parseInterfaces_fits (startConfig_len b) (startConfig_clean b) hr hcl

/-- A configuration is parsed safely, whatever memory and drivers there are, exactly when its
descriptors are in order. -/
theorem parseSafe_iff (b : Buf) : ParseSafe b ↔ Fits b := ⟨ParseSafe.fits, Fits.safe⟩

/-- The configuration of a keyboard. -/
def keyboard : Buf := fun p =>
  [0x09#8, 0x02#8, 0x19#8, 0x00#8, 0x01#8, 0x01#8, 0x00#8, 0x80#8, 0x32#8,
    0x09#8, 0x04#8, 0x00#8, 0x00#8, 0x01#8, 0x03#8, 0x01#8, 0x01#8, 0x00#8,
    0x07#8, 0x05#8, 0x81#8, 0x03#8, 0x08#8, 0x00#8, 0x0A#8].getD p 0#8

example : Fits keyboard := by decide

/-- A keyboard's configuration with two more bytes: a descriptor of length zero behind its
endpoint. -/
def spinning : Buf := fun p =>
  [0x09#8, 0x02#8, 0x1B#8, 0x00#8, 0x01#8, 0x01#8, 0x00#8, 0x80#8, 0x32#8,
    0x09#8, 0x04#8, 0x00#8, 0x00#8, 0x01#8, 0x03#8, 0x01#8, 0x01#8, 0x00#8,
    0x07#8, 0x05#8, 0x81#8, 0x03#8, 0x08#8, 0x00#8, 0x0A#8,
    0x00#8, 0x21#8].getD p 0#8

/-- The parser does not get past it. -/
theorem not_always_safe : ¬ ∀ b, wTotalLength b ≤ maxDescBuffSize → ParseSafe b := fun h =>
  absurd (h spinning (by decide)).fits (by decide)

end Ma35d1.UsbHost.Core
