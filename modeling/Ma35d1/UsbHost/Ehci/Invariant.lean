import Ma35d1.UsbHost.Ehci.IsoMoves
import Ma35d1.UsbHost.Ehci.Record

/-!
# The invariant of the driver

`Inv` joins the shape of the lists with what the record of the run shows so far and
with an account of the pending requests: which list carries the descriptors of a
request, and how many of them are left. It holds inside the functions of the
driver too: units may be held, descriptors may be in hand, and the iTD under
review is hot, for its request has been told of it already.
-/

namespace Ma35d1.UsbHost.Ehci

/-- Where the descriptors of a request are. -/
inductive Home
  | none
  | qh (h : Addr)
  | iso (k : IsoKind) (x : IsoId)
  deriving DecidableEq

/-- Which runs an invariant is about. -/
structure Mode where
  own : Owner
  /-- the interrupt handler alone runs the scans and `iaad_remove_qh` -/
  handler : Prop
  /-- no isochronous endpoint is quit -/
  noQuit : Prop
  /-- a quit that stops the periodic schedule finds it idle -/
  psenKept : Prop

/-! ## The account of the requests -/

/-- The qTDs queued on a QH belong to one request, whose home is that QH. -/
structure QtdAcct (home : UtrId → Home) (qtdUtr : Addr → Option UtrId)
    (queued : Addr → List Addr) : Prop where
  carried : ∀ h, ∀ q ∈ queued h, ∃ u, qtdUtr q = some u ∧ home u = .qh h
  same : ∀ h, ∀ q ∈ queued h, ∀ q' ∈ queued h, qtdUtr q = qtdUtr q'

/-- The descriptors of `u` on the lists of the endpoint `x`, without the hot one. -/
def mine (s : Ehci) (v : View) (hot : Ptr) (k : IsoKind) (x : IsoId) (u : UtrId) : List Addr :=
  (v.tds k x).filter fun t => decide (hot ≠ some t ∧ s.tdUtr k t = some u)

/-- The slots that reviewing a descriptor writes. -/
def tdSlots (s : Ehci) : IsoKind → Addr → List Nat
  | .itd, t => List.range' (s.tdFidx .itd t)
      ((List.range 8).countP (inMask (s.itdHw t).transMask))
  | .sitd, t => [s.tdFidx .sitd t]

/-- `hand u` are the slots of the descriptors of `u` that are not linked yet. -/
structure TdAcct (noQuit : Prop) (hand : UtrId → List (List Nat)) (hot : Ptr)
    (home : UtrId → Home) (s : Ehci) (v : View) : Prop where
  carried : ∀ k x, ∀ t ∈ v.tds k x, hot ≠ some t → ∃ u, s.tdUtr k t = some u ∧ home u = .iso k x
  cnt : ∀ u k x, home u = .iso k x →
    s.tdCnt u = (((mine s v hot k x u).length + (hand u).length : Nat) : Int)
  pos : ∀ u k x, home u = .iso k x → mine s v hot k x u ≠ [] ∨ hand u ≠ []
  ep : noQuit → ∀ u k x, home u = .iso k x → s.utrEp u = some (s.isoEpEp x)
  orphans : noQuit → v.orphans = []
  slots : noQuit → ∀ u k x, home u = .iso k x →
    (slotsSince s.trace u ++ (mine s v hot k x u).flatMap (tdSlots s k) ++ (hand u).flatten).Perm
      (List.range ifPerUtr)

/-- A pending request with a home is pending on the record; an isochronous one has a
home, unless its descriptors are still in hand. -/
structure RecordOk (noQuit : Prop) (hand : UtrId → List (List Nat)) (home : UtrId → Home)
    (t : List Event) : Prop where
  alternates : Alternates t
  slotsOk : noQuit → SlotsOk t
  pending : ∀ u, home u ≠ .none → Pending t u
  kept : noQuit → ∀ u, PendingIso t u → (∃ k x, home u = .iso k x) ∨ hand u ≠ []

structure Acct (noQuit : Prop) (hand : UtrId → List (List Nat)) (hot : Ptr)
    (home : UtrId → Home) (s : Ehci) (v : View) : Prop where
  qtds : QtdAcct home s.qtdUtr v.queued
  tds : TdAcct noQuit hand hot home s v
  record : RecordOk noQuit hand home s.trace

/-! ## Doorbells and the periodic schedule -/

/-- `a` has left its schedule and waits for a doorbell. -/
def Gone (v : View) (a : Addr) : Prop := v.role a = .removed ∨ ∃ h, v.role a = .done h

/-- The periodic schedule is on, or nothing on it is pending. -/
def PsenOk (s : Ehci) (v : View) : Prop :=
  s.psen = true ∨
    ((∀ i, ∀ h ∈ v.under i, ∀ q ∈ v.queued h, s.token q &&& qtdStsActive = 0) ∧
      ∀ idx < flSize, v.frame idx = [])

/-! ## The invariant -/

structure Inv (M : Mode) (hand : UtrId → List (List Nat)) (hot : Ptr) (home : UtrId → Home)
    (s : Ehci) (v : View) : Prop where
  shape : Shape s.toLinks v
  frees : ∀ e ∈ s.trace, FreeOk e
  acct : M.own = completed → Acct M.noQuit hand hot home s v
  bells : (∀ e ∈ s.trace, IdleDetach e) → ∀ a, Gone v a → Stamped s.bell a
  answered : M.handler → (∀ e ∈ s.trace, IdleDetach e) → ∀ e ∈ s.trace, Answered e
  psen : M.psenKept → PsenOk s v
  hotTd : ∀ t, hot = some t → ∃ k x, t ∈ v.tds k x

variable {M : Mode} {nq : Prop} {hand : UtrId → List (List Nat)} {hot : Ptr}
  {home : UtrId → Home} {s s' : Ehci} {v v' : View} {a h q t : Addr} {u : UtrId}

/-! ## What each account depends on -/

theorem QtdAcct.mono {qtdUtr qtdUtr' : Addr → Option UtrId} {queued queued' : Addr → List Addr}
    (ha : QtdAcct home qtdUtr queued) (hsub : ∀ h, ∀ q ∈ queued' h, q ∈ queued h)
    (hu : ∀ h, ∀ q ∈ queued h, qtdUtr' q = qtdUtr q) : QtdAcct home qtdUtr' queued' where
  carried h q hq := by rw [hu h q (hsub h q hq)]; exact ha.carried h q (hsub h q hq)
  same h q hq q' hq' := by
    rw [hu h q (hsub h q hq), hu h q' (hsub h q' hq')]
    exact ha.same h q (hsub h q hq) q' (hsub h q' hq')

/-- A qTD of `u` joins the queue of `h`, which holds qTDs of `u` only. -/
theorem QtdAcct.put {qtdUtr : Addr → Option UtrId} {queued : Addr → List Addr}
    (ha : QtdAcct home qtdUtr queued) (ht : qtdUtr t = some u) (hu : home u = .qh h)
    (hq : ∀ q ∈ queued h, qtdUtr q = some u) :
    QtdAcct home qtdUtr (Function.update queued h (queued h ++ [t])) := by
  have hself : ∀ q ∈ Function.update queued h (queued h ++ [t]) h, qtdUtr q = some u := by
    intro q hm
    rw [Function.update_self] at hm
    rcases List.mem_append.mp hm with hm | hm
    · exact hq q hm
    · rw [List.mem_singleton.mp hm]; exact ht
  constructor
  · intro b q hm
    by_cases hb : b = h
    · subst hb; exact ⟨u, hself q hm, hu⟩
    · rw [Function.update_of_ne hb] at hm; exact ha.carried b q hm
  · intro b q hm q' hm'
    by_cases hb : b = h
    · subst hb; rw [hself q hm, hself q' hm']
    · rw [Function.update_of_ne hb] at hm hm'; exact ha.same b q hm q' hm'

/-- Another home for a request that no queued qTD belongs to. -/
theorem QtdAcct.rehome {home' : UtrId → Home} {qtdUtr : Addr → Option UtrId}
    {queued : Addr → List Addr} (ha : QtdAcct home qtdUtr queued)
    (hh : ∀ w, w ≠ u → home' w = home w) (hu : ∀ h, home u = .qh h → queued h = []) :
    QtdAcct home' qtdUtr queued where
  carried h q hq := by
    obtain ⟨w, hw, he⟩ := ha.carried h q hq
    refine ⟨w, hw, ?_⟩
    rw [hh w, he]
    rintro rfl
    rw [hu h he] at hq
    cases hq
  same := ha.same

theorem mem_mine {k : IsoKind} {x : IsoId} :
    t ∈ mine s v hot k x u ↔ t ∈ v.tds k x ∧ hot ≠ some t ∧ s.tdUtr k t = some u := by
  simp [mine, List.mem_filter]

theorem mine_congr {k : IsoKind} {x : IsoId} (ht : v'.tds k x = v.tds k x)
    (hu : ∀ t ∈ v.tds k x, s'.tdUtr k t = s.tdUtr k t) :
    mine s' v' hot k x u = mine s v hot k x u := by
  unfold mine
  rw [ht]
  refine List.filter_congr fun t hm => ?_
  rw [hu t hm]

theorem TdAcct.congr (ha : TdAcct nq hand hot home s v) (ht : v'.tds = v.tds)
    (ho : v'.orphans = v.orphans)
    (hc : ∀ u k x, home u = .iso k x → s'.tdCnt u = s.tdCnt u)
    (he : nq → ∀ u k x, home u = .iso k x → s'.utrEp u = s.utrEp u ∧ s'.isoEpEp x = s.isoEpEp x)
    (hu : ∀ k x, ∀ t ∈ v.tds k x, s'.tdUtr k t = s.tdUtr k t)
    (hsl : ∀ k x, ∀ t ∈ v.tds k x, tdSlots s' k t = tdSlots s k t)
    (htr : ∀ u, slotsSince s'.trace u = slotsSince s.trace u) : TdAcct nq hand hot home s' v' := by
  have hm : ∀ k x u, mine s' v' hot k x u = mine s v hot k x u := fun k x u =>
    mine_congr (congrFun (congrFun ht k) x) (hu k x)
  constructor
  · intro k x t hmem hhot
    rw [ht] at hmem
    rw [hu k x t hmem]
    exact ha.carried k x t hmem hhot
  · intro u k x he
    rw [hm, hc u k x he]
    exact ha.cnt u k x he
  · intro u k x he
    rw [hm]
    exact ha.pos u k x he
  · intro hnq u k x hh
    rw [(he hnq u k x hh).1, (he hnq u k x hh).2]
    exact ha.ep hnq u k x hh
  · exact fun hnq => ho.trans (ha.orphans hnq)
  · intro hnq u k x he
    have hf : (mine s v hot k x u).flatMap (tdSlots s' k) =
        (mine s v hot k x u).flatMap (tdSlots s k) :=
      List.flatMap_congr fun t hmem => hsl k x t (mem_mine.mp hmem).1
    rw [hm, htr, hf]
    exact ha.slots hnq u k x he

/-- Another home, not an isochronous one, for a request no descriptor belongs to. -/
theorem TdAcct.rehome {home' : UtrId → Home} (ha : TdAcct nq hand hot home s v)
    (hh : ∀ w, w ≠ u → home' w = home w)
    (hu : ∀ k x, home u = .iso k x → mine s v hot k x u = [])
    (hu' : ∀ k x, home' u ≠ .iso k x) : TdAcct nq hand hot home' s v := by
  have hback : ∀ w k x, home' w = .iso k x → home w = .iso k x := fun w k x he => by
    by_cases hw : w = u
    · subst hw; exact absurd he (hu' k x)
    · rw [← hh w hw]; exact he
  constructor
  · intro k x t hm hhot
    obtain ⟨w, hw, he⟩ := ha.carried k x t hm hhot
    refine ⟨w, hw, ?_⟩
    rw [hh w, he]
    rintro rfl
    have hmine : t ∈ mine s v hot k x w := mem_mine.mpr ⟨hm, hhot, hw⟩
    rw [hu k x he] at hmine
    cases hmine
  · exact fun w k x he => ha.cnt w k x (hback w k x he)
  · exact fun w k x he => ha.pos w k x (hback w k x he)
  · exact fun hnq w k x he => ha.ep hnq w k x (hback w k x he)
  · exact ha.orphans
  · exact fun hnq w k x he => ha.slots hnq w k x (hback w k x he)

theorem RecordOk.congr {t t' : List Event} (ha : RecordOk nq hand home t) (h : SameRecord t t') :
    RecordOk nq hand home t' where
  alternates := h.alternates ha.alternates
  slotsOk hn := h.slotsOk (ha.slotsOk hn)
  pending u hu := (h.pending u).mpr (ha.pending u hu)
  kept hn u hu := ha.kept hn u ((h.pendingIso u).mp hu)

theorem PsenOk.congr (h : PsenOk s v) (hp : s'.psen = s.psen)
    (hu : ∀ i, ∀ h ∈ v'.under i, h ∈ v.under i) (hq : ∀ h, ∀ q ∈ v'.queued h, q ∈ v.queued h)
    (ht : ∀ h, ∀ q ∈ v.queued h, s'.token q = s.token q)
    (hf : ∀ idx < flSize, v.frame idx = [] → v'.frame idx = []) : PsenOk s' v' := by
  rcases h with h | ⟨h₁, h₂⟩
  · exact .inl (hp.trans h)
  · refine .inr ⟨fun i b hb q hm => ?_, fun idx hi => hf idx hi (h₂ idx hi)⟩
    rw [ht b q (hq b q hm)]
    exact h₁ i b (hu i b hb) q (hq b q hm)

/-! ## Changes the invariant does not see -/

/-- Nothing the invariant reads differs, apart from the lists of the view. -/
structure Unseen (s : Ehci) (v : View) (s' : Ehci) (v' : View) : Prop where
  trace : s'.trace = s.trace
  tdCnt : s'.tdCnt = s.tdCnt
  utrEp : s'.utrEp = s.utrEp
  isoEpEp : s'.isoEpEp = s.isoEpEp
  psen : s'.psen = s.psen
  queued : v'.queued = v.queued
  tds : v'.tds = v.tds
  orphans : v'.orphans = v.orphans
  under : v'.under = v.under
  frame : v'.frame = v.frame
  qtdUtr : ∀ h, ∀ q ∈ v.queued h, s'.qtdUtr q = s.qtdUtr q
  token : ∀ h, ∀ q ∈ v.queued h, s'.token q = s.token q
  tdUtr : ∀ k x, ∀ t ∈ v.tds k x, s'.tdUtr k t = s.tdUtr k t
  tdSlots : ∀ k x, ∀ t ∈ v.tds k x, tdSlots s' k t = tdSlots s k t
  gone : ∀ a, Gone v' a → Gone v a ∧ (Stamped s.bell a → Stamped s'.bell a)

theorem Inv.unseen (hi : Inv M hand hot home s v) (h : Unseen s v s' v')
    (hs : Shape s'.toLinks v') : Inv M hand hot home s' v' where
  shape := hs
  frees := by rw [h.trace]; exact hi.frees
  acct ho := by
    have ha := hi.acct ho
    refine ⟨?_, ha.tds.congr h.tds h.orphans (fun u _ _ _ => congrFun h.tdCnt u)
      (fun _ u _ x _ => ⟨congrFun h.utrEp u, congrFun h.isoEpEp x⟩) h.tdUtr h.tdSlots
      fun u => by rw [h.trace], ?_⟩
    · exact ha.qtds.mono (fun b q hq => by rwa [h.queued] at hq) h.qtdUtr
    · rw [h.trace]; exact ha.record
  bells hd a hg := by
    rw [h.trace] at hd
    obtain ⟨hg', hst⟩ := h.gone a hg
    exact hst (hi.bells hd a hg')
  answered := by rw [h.trace]; exact hi.answered
  psen hp := (hi.psen hp).congr h.psen (fun i b hb => by rwa [h.under] at hb)
    (fun b q hq => by rwa [h.queued] at hq) h.token (fun idx _ he => by rw [h.frame]; exact he)
  hotTd t ht := by rw [h.tds]; exact hi.hotTd t ht

/-- The words the invariant reads are the same. -/
structure SameWords (s s' : Ehci) : Prop where
  trace : s'.trace = s.trace
  tdCnt : s'.tdCnt = s.tdCnt
  utrEp : s'.utrEp = s.utrEp
  isoEpEp : s'.isoEpEp = s.isoEpEp
  psen : s'.psen = s.psen
  qtdUtr : s'.qtdUtr = s.qtdUtr
  token : s'.token = s.token
  tdUtr : s'.tdUtr = s.tdUtr
  tdFidx : s'.tdFidx = s.tdFidx
  transMask : ∀ t, (s'.itdHw t).transMask = (s.itdHw t).transMask
  bell : s'.bell = s.bell

theorem SameWords.tdSlots (h : SameWords s s') (k : IsoKind) (t : Addr) :
    tdSlots s' k t = tdSlots s k t := by
  cases k
  · simp only [Ehci.tdSlots, h.tdFidx, h.transMask]
  · simp only [Ehci.tdSlots, h.tdFidx]

theorem SameWords.unseen (h : SameWords s s') : Unseen s v s' v where
  trace := h.trace
  tdCnt := h.tdCnt
  utrEp := h.utrEp
  isoEpEp := h.isoEpEp
  psen := h.psen
  queued := rfl
  tds := rfl
  orphans := rfl
  under := rfl
  frame := rfl
  qtdUtr _ q _ := congrFun h.qtdUtr q
  token _ q _ := congrFun h.token q
  tdUtr k _ t _ := congrFun (congrFun h.tdUtr k) t
  tdSlots k _ t _ := h.tdSlots k t
  gone a hg := ⟨hg, fun hst => by rw [h.bell]; exact hst⟩

theorem Inv.words (hi : Inv M hand hot home s v) (h : SameWords s s')
    (hs : Shape s'.toLinks v) : Inv M hand hot home s' v :=
  hi.unseen h.unseen hs

/-- The words the invariant does not read. -/
theorem Inv.scratch (hi : Inv M hand hot home s v) (qhHw : Addr → QhHw) (qtdHw : Addr → QtdHw)
    (qtdXferLen : Addr → BitVec 32) (qtdQh : Addr → Ptr) (sitdHw : Addr → SitdHw)
    (udev : DevId → Udev) (bToggle : EpId → Bool) (utr : UtrId → Utr) (asen usbint : Bool)
    (ufindr : Nat) :
    Inv M hand hot home { s with
      qhHw := qhHw, qtdHw := qtdHw, qtdXferLen := qtdXferLen, qtdQh := qtdQh, sitdHw := sitdHw
      udev := udev, bToggle := bToggle, utr := utr, asen := asen
      usbint := usbint, ufindr := ufindr } v :=
  hi.words ⟨rfl, rfl, rfl, rfl, rfl, rfl, rfl, rfl, rfl, fun _ => rfl, rfl⟩ hi.shape

/-- Other endpoints, but for what isochronous homes tell. -/
theorem Inv.setEps (hi : Inv M hand hot home s v) (f : UtrId → Option EpId) (g : IsoId → EpId)
    (hu : M.own = completed → M.noQuit → ∀ w k x, home w = .iso k x →
      f w = s.utrEp w ∧ g x = s.isoEpEp x) :
    Inv M hand hot home { s with utrEp := f, isoEpEp := g } v where
  shape := { hi.shape with }
  frees := hi.frees
  acct ho := by
    have ha := hi.acct ho
    exact ⟨ha.qtds, ha.tds.congr rfl rfl (fun _ _ _ _ => rfl) (hu ho) (fun _ _ _ _ => rfl)
      (fun k _ _ _ => by cases k <;> rfl) fun _ => rfl, ha.record⟩
  bells := hi.bells
  answered := hi.answered
  psen := hi.psen
  hotTd := hi.hotTd

/-- Another endpoint for a request with no isochronous home. -/
theorem Inv.setUtrEp (hi : Inv M hand hot home s v) (e : Option EpId)
    (hu : M.own = completed → ∀ k x, home u ≠ .iso k x) :
    Inv M hand hot home { s with utrEp := Function.update s.utrEp u e } v := by
  refine hi.setEps (Function.update s.utrEp u e) s.isoEpEp fun ho _ w k x hw => ⟨?_, rfl⟩
  refine Function.update_of_ne ?_ _ _
  rintro rfl
  exact hu ho k x hw

end Ma35d1.UsbHost.Ehci
