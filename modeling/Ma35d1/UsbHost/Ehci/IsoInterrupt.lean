import Ma35d1.UsbHost.Ehci.ItdFields
import Ma35d1.UsbHost.Ehci.SitdSchedule

/-!
# The interrupt of an isochronous request

`ehci_iso_xfer` asks for an interrupt in the last transaction of the last iTD. For siTDs
`write_sitd_info` compares the slot, 0 to 7, with the number of slots, and the bit it would set is
one of the schedule word and not of the status word.
-/

namespace Ma35d1.UsbHost.Ehci

open Heap.LinkedPath

/-! ## What is asked for -/

/-- A descriptor that was taken from the pool -/
def NewTd (s s' : Ehci) (k : IsoKind) (a : Addr) : Prop :=
  s.pool.unit a = none ∧ s'.pool.unit a = some k.hw

/-- How many frames after the first frame of the request a descriptor is -/
def frameOffset (s : Ehci) (u : UtrId) (k : IsoKind) (a : Addr) : Nat :=
  (s.schedFrnidx k a + flSize - (s.utr u).isoSf) % flSize

/-- The bit the controller reads: that of the last scheduled transaction of an iTD, that of the
status word of an siTD -/
def Interrupts (s : Ehci) : IsoKind → Addr → Prop
  | .itd, a => ∃ i < 8, inMask (s.itdHw a).transMask i ∧
      (∀ j < 8, i < j → ¬ inMask (s.itdHw a).transMask j) ∧
      ((s.itdHw a).transaction i).getLsbD 31 ∧ ((s.itdHw a).transaction i).getLsbD 15
  | .sitd, a => (s.sitdHw a).stsCtrl.getLsbD 31

/-- The descriptor in the last frame of the request has the bit. -/
def RaisesInterrupt (u : UtrId) (s s' : Ehci) (k : IsoKind) : Prop :=
  ∃ a, NewTd s s' k a ∧ (∀ b, NewTd s s' k b → frameOffset s' u k b ≤ frameOffset s' u k a) ∧
    Interrupts s' k a

/-- The descriptors that a device of this speed gets -/
def isoKindOf (speed : Speed) : IsoKind := if speed = .full then .sitd else .itd

variable {M : Mode} {hand : UtrId → List (List Nat)} {hot : Ptr} {home : UtrId → Home}
  {s s' s₁ : Ehci} {v v' : View} {a t : Addr} {u : UtrId} {e : EpId} {k : IsoKind} {x : IsoId}
  {lst : Ptr} {L : List Addr} {n i fidx interval c : Nat} {mask : BitVec 8}

/-! ## The last transaction -/

/-- The last of the numbers below `n` that `p` holds for -/
theorem exists_last {p : Nat → Bool} (n : Nat) (h : 0 < (List.range n).countP p) :
    ∃ i < n, p i ∧ (∀ j < n, i < j → ¬ p j) ∧
      (List.range i).countP p + 1 = (List.range n).countP p := by
  induction n with
  | zero => exact absurd h (Nat.lt_irrefl 0)
  | succ n ih =>
    rw [List.range_succ, List.countP_append, List.countP_singleton] at h ⊢
    by_cases hn : p n = true
    · rw [if_pos hn]
      exact ⟨n, Nat.lt_succ_self n, hn, fun j hj hlt => absurd hj (by omega), rfl⟩
    · rw [if_neg hn] at h ⊢
      obtain ⟨i, hi, hp, hlater, hcount⟩ := ih h
      refine ⟨i, by omega, hp, fun j hj hlt => ?_, hcount⟩
      rcases Nat.lt_succ_iff_lt_or_eq.mp hj with hj | rfl
      · exact hlater j hj hlt
      · exact hn

theorem slotWord_active (base buff : BitVec 32) (xlen : BitVec 16) (ioc : BitVec 32) :
    (slotWord base buff xlen ||| ioc).getLsbD 31 = true := by
  have hactive : itdStatusActive.getLsbD 31 = true := by decide
  rw [slotWord, BitVec.getLsbD_or, BitVec.getLsbD_or, BitVec.getLsbD_or, BitVec.getLsbD_or, hactive]
  rfl

/-- A descriptor that takes the last slot asks for an interrupt. -/
theorem fillItd_interrupts (hc : 0 < (List.range 8).countP (inMask mask))
    (hlast : fidx + (List.range 8).countP (inMask mask) = ifPerUtr) :
    Interrupts (fillItd u e t mask fidx s).2 .itd t := by
  obtain ⟨i, hi, hm, hlater, hcount⟩ := exists_last 8 hc
  have hslot : slotOf mask fidx i + 1 = ifPerUtr := by
    unfold slotOf
    omega
  have hf : fidx < ifPerUtr := by omega
  have hmask : ((fillItd u e t mask fidx s).2.itdHw t).transMask = mask :=
    (fillItd_filled hf).transMask.trans headedItd_transMask
  have hword : ((fillItd u e t mask fidx s).2.itdHw t).transaction i = _ :=
    fillItd_transaction hf hi hm (by omega)
  refine ⟨i, hi, by rw [hmask]; exact hm, by rw [hmask]; exact hlater, ?_, ?_⟩
  · rw [hword]
    exact slotWord_active ..
  · rw [hword, slotIoc, if_pos hslot, BitVec.getLsbD_or]
    exact Bool.or_true _

/-! ## Linking -/

/-- What linking a descriptor leaves -/
structure LinkedTd (k : IsoKind) (x : IsoId) (t : Addr) (interval : Nat) (s s' : Ehci) : Prop where
  frame : s'.schedFrnidx = Links.setTd s.schedFrnidx k t (s.nextFrame x)
  next : s'.nextFrame = Function.update s.nextFrame x ((s.nextFrame x + interval) % flSize)
  pool : s'.pool = s.pool
  itdHw : s'.itdHw = s.itdHw
  sitdHw : s'.sitdHw = s.sitdHw
  utr : s'.utr = s.utr

theorem linkTd_linked (h : Ehci.linkTd k x t interval s = some s') : LinkedTd k x t interval s s' := by
  obtain ⟨m, hm, rfl⟩ := Option.map_eq_some_iff.mp (show Option.map _ _ = _ from h)
  obtain ⟨m₁, hadd, rfl⟩ := Option.map_eq_some_iff.mp (show Option.map _ _ = _ from hm)
  have hkeep : m₁.schedFrnidx = Links.setTd s.schedFrnidx k t (s.nextFrame x) ∧
      m₁.nextFrame = s.nextFrame ∧ m₁.pool = s.pool := by
    unfold Links.addTdToIsoEp at hadd
    dsimp only at hadd
    split at hadd
    · rw [← Option.some.inj hadd]
      exact ⟨rfl, rfl, rfl⟩
    · obtain ⟨last, -, hadd⟩ := Option.bind_eq_some_iff.mp hadd
      rw [← Option.some.inj hadd]
      exact ⟨rfl, rfl, rfl⟩
  obtain ⟨hframe, hnext, hpool⟩ := hkeep
  refine ⟨hframe, ?_, hpool, rfl, rfl, rfl⟩
  show Function.update m₁.nextFrame x _ = _
  rw [hnext]

/-! ## The chain of a request -/

/-- The descriptors `L` are in frames that are `interval` apart, from the endpoint's next frame on. -/
structure Spread (k : IsoKind) (x : IsoId) (interval : Nat) (L : List Addr) (s s' : Ehci) :
    Prop where
  pool : s'.pool = s.pool
  utr : s'.utr = s.utr
  frame : ∀ i (h : i < L.length), s'.schedFrnidx k L[i] = (s.nextFrame x + i * interval) % flSize
  rest : ∀ a ∉ L, s'.schedFrnidx k a = s.schedFrnidx k a

theorem Spread.nil (k : IsoKind) (x : IsoId) (interval : Nat) (s : Ehci) :
    Spread k x interval [] s s :=
  ⟨rfl, rfl, fun _ h => absurd h (Nat.not_lt_zero _), fun _ _ => rfl⟩

/-- The first descriptor is linked, and then the rest. -/
theorem Spread.cons (hnf : s.nextFrame x < flSize) (ht : t ∉ L) (hpool : s₁.pool = s.pool)
    (hutr : s₁.utr = s.utr) (hframe : s₁.schedFrnidx k = Function.update (s.schedFrnidx k) t
      (s.nextFrame x)) (hnext : s₁.nextFrame x = (s.nextFrame x + interval) % flSize)
    (hs : Spread k x interval L s₁ s') : Spread k x interval (t :: L) s s' where
  pool := hs.pool.trans hpool
  utr := hs.utr.trans hutr
  frame i hi := by
    cases i with
    | zero =>
      rw [List.getElem_cons_zero, hs.rest t ht, hframe, Function.update_self, Nat.zero_mul,
        Nat.add_zero, Nat.mod_eq_of_lt hnf]
    | succ i =>
      rw [List.getElem_cons_succ, hs.frame i (Nat.lt_of_succ_lt_succ hi), hnext, Nat.mod_add_mod,
        Nat.succ_mul, Nat.add_assoc, Nat.add_comm interval]
  rest a ha := by
    obtain ⟨hne, ha⟩ := not_or.mp fun h => ha (List.mem_cons.mpr h)
    rw [hs.rest a ha, hframe, Function.update_of_ne hne]

theorem setTd_same {α : Type} (f : IsoKind → Addr → α) (k : IsoKind) (a : Addr) (y : α) :
    Links.setTd f k a y k = Function.update (f k) a y :=
  Function.update_self ..

/-- The iTDs of a request: the last one asks for an interrupt. -/
theorem fillItds_spread {s₀ : Ehci} {ok : Bool} (hc : (List.range 8).countP (inMask mask) = c)
    (hpos : 0 < c)
    (hi : Inv M.relaxed (Function.update hand u (slotsFrom c L.length fidx)) hot home s v')
    (hg : Grown .itd x L s₀ v s v') (hx : x ∈ v.isoEps)
    (hp : Path some (s.tdNext .itd) lst L none) (hu : M.own = completed → home u = .iso .itd x)
    (hlen : fidx + L.length * c = ifPerUtr)
    (h : fillItds u e x mask interval n lst fidx s = some (ok, s')) :
    Spread .itd x interval L s s' ∧ ∀ a, L.getLast? = some a → Interrupts s' .itd a := by
  induction L generalizing n lst fidx s v' with
  | nil =>
    obtain rfl : lst = none := path_nil.mp hp
    cases n with
    | zero => cases h
    | succ n =>
      obtain ⟨rfl, rfl⟩ := Prod.mk.inj (Option.some.inj h)
      exact ⟨.nil .., fun _ h => by cases h⟩
  | cons t L ih =>
    obtain rfl : lst = some t := hp.1
    rw [List.length_cons, Nat.succ_mul] at hlen
    cases n with
    | zero => cases h
    | succ n =>
      rw [fillItds, if_neg (by omega)] at h
      obtain ⟨s₂, hlink, h⟩ := Option.bind_eq_some_iff.mp h
      obtain ⟨h₁, h₂, h₃, h₄⟩ := fillItd_ok (u := u) (e := e) (t := t) (s := s) mask fidx
        (by omega)
      rw [hc] at h₁ h₃
      obtain ⟨s₃, v₃, hlink', hi₃, hg₃, hp₃⟩ := Grown.linkNext hi hg hx hp hu h₂ h₃ h₄
      obtain rfl := Option.some.inj (hlink'.symm.trans hlink)
      have h' : fillItds u e x mask interval n ((fillItd u e t mask fidx s).2.tdNext .itd t)
          (fillItd u e t mask fidx s).1 s₃ = some (ok, s') := h
      rw [h₁] at h'
      obtain ⟨hrest, hlast⟩ := ih hi₃ hg₃ hp₃ (by omega) h'
      have hl : LinkedTd .itd x t interval (fillItd u e t mask fidx s).2 s₃ := linkTd_linked hlink'
      have hon := h₂.eq
      refine ⟨.cons ?_ (List.nodup_cons.mp hp.nodup_none).1 ?_ ?_ ?_ ?_ hrest, fun a ha => ?_⟩
      · exact hi.shape.nextLt x (by rw [hg.lists.2.2.2.2.2]; exact hx)
      · rw [hl.pool, hon]
      · rw [hl.utr, hon]
      · rw [hl.frame, setTd_same, hon]
      · rw [hl.next, Function.update_self, hon]
      · cases L with
        | nil =>
          obtain rfl : t = a := by simpa using ha
          rw [List.length_nil, Nat.zero_mul, Nat.zero_add] at hlen
          have hs' : s' = s₃ := by
            rw [path_nil.mp hp₃] at h'
            cases n with
            | zero => cases h'
            | succ n => exact (Prod.mk.inj (Option.some.inj h')).2.symm
          have hend : Interrupts (fillItd u e t mask fidx s).2 .itd t :=
            fillItd_interrupts (by rw [hc]; exact hpos) (by rw [hc]; exact hlen)
          rw [hs']
          unfold Interrupts
          rw [hl.itdHw]
          exact hend
        | cons b L => exact hlast a (by rwa [List.getLast?_cons_cons] at ha)

/-- The status word of a packet of `xlen` bytes -/
theorem stsCtrl_inactive : ∀ xlen : BitVec 16, xlen.toNat < 0x8000 →
    ((BitVec.ofNat 32 xlen.toNat <<< 16) ||| 0x80#32).getLsbD 31 = false := by
  intro xlen hlen
  have h80 : (0x80#32).getLsbD 31 = false := by decide
  have hbit : Nat.testBit xlen.toNat 15 = false := Nat.testBit_lt_two_pow hlen
  rw [BitVec.getLsbD_or, h80, BitVec.getLsbD_shiftLeft, BitVec.getLsbD_ofNat]
  simp [hbit]

/-- What `write_sitd_info` leaves in the status word -/
theorem writeSitdInfo_stsCtrl (h : writeSitdInfo u e t s = some s') :
    (s'.sitdHw t).stsCtrl =
      (BitVec.ofNat 32 ((s.utr u).isoXlen (s.tdFidx .sitd t)).toNat <<< 16) ||| 0x80#32 ∧
      ∀ a, a ≠ t → s'.sitdHw a = s.sitdHw a := by
  have hset : ∀ w : SitdHw, ((s.setSitdHw t fun _ => w).sitdHw t) = w := fun w =>
    Function.update_self ..
  unfold writeSitdInfo at h
  simp only [Option.bind_eq_bind] at h
  obtain ⟨hub, -, h⟩ := Option.bind_eq_some_iff.mp h
  split at h
  · rw [← Option.some.inj h, hset]
    exact ⟨rfl, fun a ha => Function.update_of_ne ha ..⟩
  · split at h
    · cases h
    · obtain ⟨smask, -, h⟩ := Option.bind_eq_some_iff.mp h
      rw [← Option.some.inj h, hset]
      exact ⟨rfl, fun a ha => Function.update_of_ne ha ..⟩

/-- No siTD of a request asks for an interrupt. -/
theorem fillSitds_spread {s₀ : Ehci} {ok : Bool}
    (hi : Inv M.relaxed (Function.update hand u (slotsFrom 1 L.length fidx)) hot home s v')
    (hg : Grown .sitd x L s₀ v s v') (hx : x ∈ v.isoEps)
    (hp : Path some (s.tdNext .sitd) lst L none) (hu : M.own = completed → home u = .iso .sitd x)
    (hlen : fidx + L.length = ifPerUtr)
    (hxlen : ∀ f < ifPerUtr, ((s.utr u).isoXlen f).toNat < 0x8000)
    (h : fillSitds u e x n lst fidx s = some (ok, s')) :
    s'.pool = s.pool ∧ (∀ a ∈ L, ¬ Interrupts s' .sitd a) ∧
      ∀ a ∉ L, s'.sitdHw a = s.sitdHw a := by
  induction L generalizing n lst fidx s v' with
  | nil =>
    obtain rfl : lst = none := path_nil.mp hp
    cases n with
    | zero => cases h
    | succ n =>
      obtain ⟨rfl, rfl⟩ := Prod.mk.inj (Option.some.inj h)
      exact ⟨rfl, fun _ h => absurd h List.not_mem_nil, fun _ _ => rfl⟩
  | cons t L ih =>
    obtain rfl : lst = some t := hp.1
    rw [List.length_cons] at hlen
    have h8 : ifPerUtr = 8 := rfl
    cases n with
    | zero => cases h
    | succ n =>
      rw [fillSitds, if_neg (by omega)] at h
      obtain ⟨s₁, hw, h⟩ := Option.bind_eq_some_iff.mp h
      obtain ⟨s₂, hlink, h⟩ := Option.bind_eq_some_iff.mp h
      obtain ⟨hon, hwu, hwf⟩ := writeSitdInfo_onTd hw
      obtain ⟨hsts, hother⟩ := writeSitdInfo_stsCtrl hw
      have hl := linkTd_linked hlink
      obtain ⟨g, hon', hpre⟩ := linkTd_preset (x := x) (t := t)
        (((ehciSitdAdjustSchedule t (s₁.setLinks { s₁.toLinks with
          schedFrnidx := Links.setTd s₁.schedFrnidx .sitd t (s₁.nextFrame x) })).ep e).bInterval) s₁
      rw [hpre] at hlink
      have hfidx : (setTdUtr .sitd t u fidx s).tdFidx .sitd t = fidx := by
        show Links.setTd s.tdFidx .sitd t (fidx % 256) .sitd t = _
        rw [Links.setTd_self, Nat.mod_eq_of_lt (by omega)]
      have hsl : tdSlots { s₁ with sitdHw := g } .sitd t = List.range' fidx 1 := by
        show [s₁.tdFidx .sitd t] = _
        rw [hwf, hfidx]
        rfl
      have htu : s₁.tdUtr .sitd t = some u := by
        rw [hwu]
        show Links.setTd s.tdUtr .sitd t (some u) .sitd t = _
        exact Links.setTd_self ..
      obtain ⟨s₃, v₃, hlink', hi₃, hg₃, hp₃⟩ := Grown.linkNext hi hg hx hp hu
        (((OnTd.setTdUtr ..).trans hon).trans hon') hsl htu
      obtain rfl := Option.some.inj (hlink'.symm.trans hlink)
      have hs₁ : s₁.pool = s.pool ∧ s₁.utr = s.utr := by
        rw [hon.eq]
        exact ⟨rfl, rfl⟩
      have hutr : s₃.utr = s.utr := hl.utr.trans hs₁.2
      obtain ⟨hpool, hnone, hrest⟩ := ih hi₃ hg₃ hp₃ (by omega) (by rw [hutr]; exact hxlen) h
      refine ⟨hpool.trans (hl.pool.trans hs₁.1), fun a ha => ?_, fun a ha => ?_⟩
      · rcases List.mem_cons.mp ha with rfl | ha
        · show ¬ ((s'.sitdHw a).stsCtrl.getLsbD 31)
          rw [hrest a (List.nodup_cons.mp hp.nodup_none).1, hl.sitdHw]
          show ¬ ((Function.update s₁.sitdHw a _ a).stsCtrl.getLsbD 31)
          rw [Function.update_self]
          show ¬ ((s₁.sitdHw a).stsCtrl.getLsbD 31)
          rw [hsts, hfidx]
          exact Bool.eq_false_iff.mp (stsCtrl_inactive _ (hxlen fidx (by omega)))
        · exact hnone a ha
      · obtain ⟨hne, ha⟩ := not_or.mp fun h => ha (List.mem_cons.mpr h)
        rw [hrest a ha, hl.sitdHw]
        show Function.update s₁.sitdHw t _ a = _
        rw [Function.update_of_ne hne, hother a hne]
        rfl

/-! ## A submission -/

theorem allocTds_utr {ok : Bool} {lst' : Ptr} (h : allocTds k n lst s = (ok, lst', s')) :
    s'.utr = s.utr := by
  induction n generalizing lst s with
  | zero =>
    obtain ⟨-, -, rfl⟩ := by simpa [allocTds] using h
    rfl
  | succ n ih =>
    rw [allocTds] at h
    split at h
    · obtain ⟨-, -, rfl⟩ := by simpa using h
      rfl
    · rename_i td s₂ ha
      obtain ⟨r, -, he⟩ := Option.map_eq_some_iff.mp (show Option.map _ _ = _ from ha)
      obtain ⟨-, rfl⟩ := Prod.mk.inj he
      refine (ih h).trans ?_
      cases k <;> rfl

/-- The chain is what was taken from the pool. -/
theorem Chained.newTd_iff (hc : Chained k lst L s₁ v v') (hs : Shape s.toLinks v)
    (hs' : Shape s₁.toLinks v') (hq : Quiet s s₁) (a : Addr) : NewTd s s₁ k a ↔ a ∈ L := by
  have hkind : k.hw.isEhci = true := by cases k <;> rfl
  constructor
  · rintro ⟨hnone, hunit⟩
    by_contra hn
    have hrole : v'.role a ≠ .free := fun hf => by
      rw [hs'.unused a hf _ hunit] at hkind
      cases hkind
    rw [hc.rest a hn] at hrole
    obtain ⟨j, hj⟩ := hs.used_unit hrole
    rw [hnone] at hj
    cases hj
  · intro hm
    have hunit := hs'.unit_of_role (hc.held a hm) rfl
    refine ⟨?_, hunit⟩
    cases hu : s.pool.unit a with
    | none => rfl
    | some j =>
      obtain rfl : j = k.hw := Option.some.inj ((hq.used a j hu).1.symm.trans hunit)
      rw [hs.unused a (hc.fresh a hm) _ hu] at hkind
      cases hkind

/-- An accepted submission allocates its descriptors, and fills and links them. -/
theorem submitTds_new {cnt : Nat} {fill : Ptr → Ehci → Option (Bool × Ehci)}
    (hi : Inv M hand hot home s v) (h : submitTds k u x cnt fill s = some (0, s')) :
    ∃ L lst s₁ v₁ s₂, L.length = cnt ∧ Path some (s₁.tdNext k) lst L none ∧
      Grown k x L s v s₁ v₁ ∧ Inv M hand hot home s₁ v₁ ∧ (∀ a, NewTd s s₁ k a ↔ a ∈ L) ∧
      s₁.utr = s.utr ∧
      fill lst (({ s₁ with tdCnt := Function.update s₁.tdCnt u (cnt : Int) } : Ehci).setUtr u
        ({ · with isoSf := s₁.nextFrame x })) = some (true, s₂) ∧ s' = { s₂ with psen := true } := by
  unfold submitTds at h
  generalize hal : allocTds k cnt none s = al at h
  obtain ⟨ok, lst, s₁⟩ := al
  obtain ⟨L, v₁, hc, hi₁, hq, -, -, -, hlen⟩ := allocTds_ok hi (.nil k s v) hal
  dsimp only at h
  split at h
  · obtain ⟨s₂, -, h⟩ := Option.bind_eq_some_iff.mp h
    exact absurd (Prod.mk.inj (Option.some.inj h)).1 (by decide)
  · rename_i hok
    obtain ⟨⟨ok', s₂⟩, hfill, h⟩ := Option.bind_eq_some_iff.mp h
    cases ok' with
    | false =>
      obtain ⟨s₃, -, h⟩ := Option.bind_eq_some_iff.mp h
      exact absurd (Prod.mk.inj (Option.some.inj h)).1 (by decide)
    | true =>
      exact ⟨L, lst, s₁, v₁, s₂, hlen (by simpa using hok), hc.path, hc.grown hq hi.shape, hi₁,
        hc.newTd_iff hi.shape hi₁.shape hq, allocTds_utr hal, hfill,
        (Prod.mk.inj (Option.some.inj h)).2.symm⟩

theorem NewTd.congr {s₂ s₃ : Ehci} (hp : s₂.pool = s.pool) (hp' : s₃.pool = s'.pool) :
    NewTd s₂ s₃ k a ↔ NewTd s s' k a := by
  unfold NewTd
  rw [hp, hp']

/-- Whoever owns the requests, a chain may be filled. -/
theorem Inv.fillTds (hi : Inv M hand hot home s v) (L : List Addr) (c cnt sf : Nat) :
    Inv M.unowned.relaxed (Function.update hand u (slotsFrom c L.length 0)) hot home
      (({ s with tdCnt := Function.update s.tdCnt u (cnt : Int) } : Ehci).setUtr u
        ({ · with isoSf := sf })) v :=
  { (hi.unown (Function.update hand u (slotsFrom c L.length 0)) home).relax with
    acct := fun h => absurd h unowned_ne }

/-- Each interval class spreads the slots over less than the frame list. -/
theorem isoLayout_spread (bInterval : Nat) :
    (isoLayout bInterval).2.1 ≤ 8 ∧ (isoLayout bInterval).2.2 ≤ 8 := by
  unfold isoLayout
  repeat' split
  all_goals decide

/-- The last of the descriptors is in the last frame. -/
theorem Spread.last (hs : Spread k x interval L s s') (hnf : s.nextFrame x < flSize)
    (hsf : (s'.utr u).isoSf = s.nextFrame x) (hL : L.length ≤ 8) (hint : interval ≤ 8) {b : Addr}
    (hlast : L.getLast? = some a) (hb : b ∈ L) : frameOffset s' u k b ≤ frameOffset s' u k a := by
  have hoff : ∀ i (h : i < L.length), frameOffset s' u k L[i] = i * interval := by
    intro i hi
    have hle : i * interval ≤ 8 * 8 := Nat.mul_le_mul (by omega) hint
    rw [frameOffset, hs.frame i hi, hsf]
    unfold flSize at hnf ⊢
    omega
  obtain ⟨j, hj, rfl⟩ := List.getElem_of_mem hb
  have hne : L ≠ [] := List.ne_nil_of_mem hb
  obtain rfl : L.getLast hne = a :=
    Option.some.inj ((List.getLast?_eq_some_getLast hne).symm.trans hlast)
  rw [List.getLast_eq_getElem, hoff j hj, hoff _ (by omega)]
  exact Nat.mul_le_mul_right _ (by omega)

/-- The iTDs of an accepted request end in an interrupt. -/
theorem submitItds_raises (hi : Inv M hand hot home s v) (hx : x ∈ v.isoEps)
    (h : submitTds .itd u x (isoLayout n).2.1 (fun lst => fillItds u e x (isoLayout n).1
      (isoLayout n).2.2 walkFuel lst 0) s = some (0, s')) : RaisesInterrupt u s s' .itd := by
  obtain ⟨L, lst, s₁, v₁, s₂, hL, hp, hg, hi₁, hnew, hutr, hfill, rfl⟩ := submitTds_new hi h
  obtain ⟨hpos, hcnt⟩ := isoLayout_ok n
  obtain ⟨hcnt8, hint8⟩ := isoLayout_spread n
  obtain ⟨hspread, hlast⟩ := fillItds_spread (u := u) rfl hpos (hi₁.fillTds L _ _ _)
    (hg.congr rfl rfl rfl) hx hp (fun h => absurd h unowned_ne)
    (by rw [Nat.zero_add, hL]; exact hcnt) hfill
  have hne : L ≠ [] := by
    rintro rfl
    rw [← hL, List.length_nil, Nat.zero_mul] at hcnt
    exact absurd hcnt (by decide)
  have hsf : (s₂.utr u).isoSf = s₁.nextFrame x := by
    rw [hspread.utr]
    show (Function.update s₁.utr u _ u).isoSf = _
    rw [Function.update_self]
  have hmem : ∀ b, NewTd s { s₂ with psen := true } .itd b ↔ b ∈ L := fun b =>
    (NewTd.congr rfl hspread.pool).trans (hnew b)
  have hsome := List.getLast?_eq_some_getLast hne
  refine ⟨L.getLast hne, (hmem _).mpr (List.getLast_mem hne), fun b hb => ?_, hlast _ hsome⟩
  exact hspread.last (hi₁.shape.nextLt x (by rw [hg.lists.2.2.2.2.2]; exact hx)) hsf
    (by rw [hL]; exact hcnt8) hint8 hsome ((hmem b).mp hb)

/-- None of the siTDs does. -/
theorem ehciIsoSplitXfer_raises (hi : Inv M hand hot home s v) (hx : x ∈ v.isoEps)
    (hxlen : ∀ f < ifPerUtr, ((s.utr u).isoXlen f).toNat < 0x8000)
    (h : ehciIsoSplitXfer u e x s = some (0, s')) : ¬ RaisesInterrupt u s s' .sitd := by
  unfold ehciIsoSplitXfer at h
  split at h
  · exact absurd (Prod.mk.inj (Option.some.inj h)).1 (by decide)
  · obtain ⟨L, lst, s₁, v₁, s₂, hL, hp, hg, hi₁, hnew, hutr, hfill, rfl⟩ := submitTds_new hi h
    have hxlen₁ : ∀ f < ifPerUtr,
        ((Function.update s₁.utr u { s₁.utr u with isoSf := s₁.nextFrame x } u).isoXlen f).toNat <
          0x8000 := by
      rw [Function.update_self, hutr]
      exact hxlen
    obtain ⟨hpool, hnone, -⟩ := fillSitds_spread (u := u) (hi₁.fillTds L _ _ _)
      (hg.congr rfl rfl rfl) hx hp (fun h => absurd h unowned_ne)
      (by rw [Nat.zero_add]; exact hL) hxlen₁ hfill
    rintro ⟨a, ha, -, hint⟩
    exact hnone a ((hnew a).mp ((NewTd.congr rfl hpool).mp ha)) hint

/-- Where the `ISO_EP_T` is found or made, the request and the device stay. -/
theorem ehciIsoXfer_start (hi : Inv M hand hot home s v) (ht : Tidy s.toLinks v)
    (hh : M.own = completed → ∀ w, hand w ≠ [] → home w = .none) (he : s.utrEp u = some e)
    (hte : (s.ep e).xferType = epAttrTtIso) (h : ehciIsoXfer u s = some (0, s')) :
    ∃ s₁ v₁ x, Inv M hand hot home s₁ v₁ ∧ x ∈ v₁.isoEps ∧ s₁.pool = s.pool ∧ s₁.utr = s.utr ∧
      s₁.udev = s.udev ∧ isoOnEp u e x s₁ = some (0, s') := by
  unfold ehciIsoXfer at h
  obtain ⟨e', he', h⟩ := Option.bind_eq_some_iff.mp h
  obtain rfl := Option.some.inj (he.symm.trans he')
  split at h
  · rename_i x hp
    have hx := ((ht.pipeIso e x).mp hp).1
    refine ⟨_, v, x, ?_, hx, ?_, ?_, ?_, h⟩
    · split
      · exact hi.words ⟨rfl, rfl, rfl, rfl, rfl, rfl, rfl, rfl, rfl, fun _ => rfl, rfl⟩
          (hi.shape.setNextFrame (newSchedFrame_lt s))
      · exact hi
    all_goals split <;> rfl
  · rename_i hp
    split at h
    · exact absurd (Prod.mk.inj (Option.some.inj h)).1 (by decide)
    · rename_i x s₁ hn
      obtain ⟨hi₁, -⟩ := newIsoEp_ok hi ht hp hte hh hn
      obtain ⟨r, -, hr⟩ := Option.map_eq_some_iff.mp (show Option.map _ _ = _ from hn)
      obtain ⟨rfl, rfl⟩ := Prod.mk.inj hr
      exact ⟨_, _, _, hi₁, List.mem_cons_self, rfl, rfl, rfl, h⟩
  · cases h

/-- In every state of a run -/
theorem Reachable.isoStart {own : Owner} (hs : Reachable own s) (he : s.utrEp u = some e)
    (hte : (s.ep e).xferType = epAttrTtIso) (h : ehciIsoXfer u s = some (0, s')) :
    ∃ home s₁ v₁ x, Inv ⟨anyone, False, False, False⟩ (fun _ => []) none home s₁ v₁ ∧
      x ∈ v₁.isoEps ∧ s₁.utr = s.utr ∧ s₁.udev = s.udev ∧
      (∀ k, RaisesInterrupt u s s' k ↔ RaisesInterrupt u s₁ s' k) ∧
      isoOnEp u e x s₁ = some (0, s') := by
  obtain ⟨s₀, h₀, hrun⟩ := hs
  obtain ⟨v, hd⟩ := idle_run ⟨own, False, False, False⟩
    (fun hd hs => hd.step (fun h => h) (fun h => h) (fun h => h) hs) h₀ hrun
  obtain ⟨home, hg⟩ := hd.good
  obtain ⟨s₁, v₁, x, hi₁, hx, hpool, hutr, hudev, h⟩ := ehciIsoXfer_start hg.inv.anyOwner hg.tidy
    (fun ho => absurd ho anyone_ne_completed) he hte h
  refine ⟨home, s₁, v₁, x, hi₁, hx, hutr, hudev, fun k => ?_, h⟩
  unfold RaisesInterrupt NewTd
  rw [hpool]

theorem ehciIsoXfer_high {own : Owner} (hs : Reachable own s) (he : s.utrEp u = some e)
    (hte : (s.ep e).xferType = epAttrTtIso) (hhigh : (s.udev (s.utr u).udev).speed ≠ .full)
    (h : ehciIsoXfer u s = some (0, s')) : RaisesInterrupt u s s' .itd := by
  obtain ⟨home, s₁, v₁, x, hi₁, hx, hutr, hudev, hraises, h⟩ := hs.isoStart he hte h
  rw [hraises]
  rw [← hudev, ← hutr] at hhigh
  unfold isoOnEp at h
  rw [if_neg hhigh] at h
  exact submitItds_raises hi₁ hx h

theorem ehciIsoXfer_full {own : Owner} (hs : Reachable own s) (he : s.utrEp u = some e)
    (hte : (s.ep e).xferType = epAttrTtIso) (hfull : (s.udev (s.utr u).udev).speed = .full)
    (hshift : ∀ f < ifPerUtr, splits ((s.utr u).isoXlen f).toNat + 2 < 31)
    (h : ehciIsoXfer u s = some (0, s')) : ¬ RaisesInterrupt u s s' .sitd := by
  obtain ⟨home, s₁, v₁, x, hi₁, hx, hutr, hudev, hraises, h⟩ := hs.isoStart he hte h
  rw [hraises]
  rw [← hutr] at hshift
  rw [← hudev, ← hutr] at hfull
  unfold isoOnEp at h
  rw [if_pos hfull] at h
  refine ehciIsoSplitXfer_raises hi₁ hx (fun f hf => ?_) h
  have hf' := hshift f hf
  unfold splits at hf'
  omega

/-- **The interrupt of an isochronous request.** In every state of a run, and for every interval,
length and buffer, the last descriptor of an accepted request asks for an interrupt exactly if the
device is not a full-speed device. The bound on the lengths is that of the shifts of
`write_sitd_info`. -/
theorem ehciIsoXfer_interrupts_iff {own : Owner} (hs : Reachable own s) (he : s.utrEp u = some e)
    (hte : (s.ep e).xferType = epAttrTtIso)
    (hshift : (s.udev (s.utr u).udev).speed = .full →
      ∀ f < ifPerUtr, splits ((s.utr u).isoXlen f).toNat + 2 < 31)
    (h : ehciIsoXfer u s = some (0, s')) :
    RaisesInterrupt u s s' (isoKindOf (s.udev (s.utr u).udev).speed) ↔
      (s.udev (s.utr u).udev).speed ≠ .full := by
  unfold isoKindOf
  by_cases hfull : (s.udev (s.utr u).udev).speed = .full
  · rw [if_pos hfull]
    exact iff_of_false (ehciIsoXfer_full hs he hte hfull (hshift hfull) h) (not_not.mpr hfull)
  · rw [if_neg hfull]
    exact iff_of_true (ehciIsoXfer_high hs he hte hfull h) hfull

/-! ## A camera at a root port and one behind a hub -/

/-- Eight packets of 940 bytes -/
def isoUtr (d : DevId) : Utr :=
  { sampleUtr d 0 with isoXlen := fun _ => 940#16, isoBuff := fun _ => 0x80004000#32 }

/-- Device 3 is a full-speed device at port 2 of a hub. -/
def hubUdev (d : DevId) : Udev :=
  if d = 3 then ⟨64#8, .full, 2#8, 3#8, [⟨.high, 1#8, 2#8⟩]⟩ else sampleUdev d

def hubStart : Ehci := (started (bareMachine sampleEp hubUdev)).get (by decide)

theorem hubStart_reachable (d : DevId) :
    Reachable completed (prepared 0 (isoUtr d) (some (.alt 3)) hubStart) :=
  ⟨hubStart, started_initial (bareMachine_boot hubUdev sampleEp_ep0) (Option.some_get _).symm,
    .tail .refl (.core (.api (.prepare 0 (isoUtr d) (some (.alt 3)) 0
      (by decide : ¬ Pending hubStart.trace 0))))⟩

theorem ehciIsoXfer_interrupts_iff_high :
    RaisesInterrupt 0 (prepared 0 (isoUtr 0) (some (.alt 3)) hubStart)
      (callResult (r := 0) (ehciIsoXfer 0 (prepared 0 (isoUtr 0) (some (.alt 3)) hubStart))
        (by decide)) .itd := by
  have he : (prepared 0 (isoUtr 0) (some (.alt 3)) hubStart).utrEp 0 = some (.alt 3) := rfl
  have hhigh : ((prepared 0 (isoUtr 0) (some (.alt 3)) hubStart).udev 0).speed ≠ .full := by
    decide
  exact (ehciIsoXfer_interrupts_iff (hubStart_reachable 0) he (by decide)
    (fun h => absurd h hhigh) (callResult_eq _)).mpr hhigh

/-- No siTD of a request to the full-speed device asks for an interrupt. -/
theorem not_ehciIsoXfer_interrupts_split :
    ¬ RaisesInterrupt 0 (prepared 0 (isoUtr 3) (some (.alt 3)) hubStart)
      (callResult (r := 0) (ehciIsoXfer 0 (prepared 0 (isoUtr 3) (some (.alt 3)) hubStart))
        (by decide)) .sitd := by
  have he : (prepared 0 (isoUtr 3) (some (.alt 3)) hubStart).utrEp 0 = some (.alt 3) := rfl
  exact ehciIsoXfer_full (hubStart_reachable 3) he (by decide) (by decide)
    (by decide) (callResult_eq _)

end Ma35d1.UsbHost.Ehci
