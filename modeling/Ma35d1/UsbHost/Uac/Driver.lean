import Mathlib.Data.List.Nodup
import Mathlib.Logic.Function.Basic
import Ma35d1.Machine.Trace

/-!
# Audio class devices

`uac_probe` and `uac_disconnect`: the interfaces of a device share one `UAC_DEV_T`, which the first
of them allocates, and which is freed when no interface is left in it.
-/

namespace Ma35d1.UsbHost.Uac

/-- The places of `UAC_DEV_T`, `IFACE_T` and `UDEV_T` objects -/
abbrev UacPtr := Nat
abbrev IfacePtr := Nat
abbrev UdevPtr := Nat

inductive UacState
  | connecting | disconnecting
  deriving DecidableEq

/-- `UAC_DEV_T`, with the `iface` of `acif`, of `asif_in` and of `asif_out` -/
structure UacDev where
  udev : UdevPtr
  state : UacState
  acif : Option IfacePtr
  asifIn : Option IfacePtr
  asifOut : Option IfacePtr
  deriving DecidableEq

/-- An interface with a driver -/
structure Bound where
  udev : UdevPtr
  context : UacPtr
  deriving DecidableEq

/-- `stray` says that an object was used that is not there, or freed a second time. -/
structure Host where
  heap : UacPtr → Option UacDev
  gUacList : List UacPtr
  bound : IfacePtr → Option Bound
  stray : Bool

def Host.udevOf (s : Host) (uac : UacPtr) : Option UdevPtr := (s.heap uac).map (·.udev)

def findUacDevice (s : Host) (udev : UdevPtr) : Option UacPtr :=
  s.gUacList.find? fun uac => s.udevOf uac = some udev

def Host.write (s : Host) (uac : UacPtr) (f : UacDev → UacDev) : Host :=
  { s with
    heap := Function.update s.heap uac ((s.heap uac).map f)
    stray := s.stray || (s.heap uac).isNone }

/-- How `uac_parse_streaming_interface` comes out -/
inductive AsParsed
  /-- an error -/
  | failed
  /-- an alternate setting without endpoints -/
  | idle
  /-- with an isochronous endpoint of either direction -/
  | input | output
  deriving DecidableEq

/-- What `uac_probe` finds: the class of the interface, where an object is allocated, and how the
calls it makes come out -/
inductive Found
  /-- not the audio class, or another sub-class -/
  | other
  | control (parsed : Bool)
  | streaming (maxAlt setInterface : Bool) (parsed : AsParsed)
  deriving DecidableEq

/-- `uac_probe` returns 0 once it has a `UAC_DEV_T`. -/
def Found.Ok : Found → Prop
  | .other => False
  | .control parsed => parsed
  | .streaming maxAlt setInterface parsed => maxAlt ∧ setInterface ∧ parsed ≠ .failed

instance (found : Found) : Decidable found.Ok :=
  match found with
  | .other => inferInstanceAs (Decidable False)
  | .control parsed => inferInstanceAs (Decidable (parsed = true))
  | .streaming maxAlt setInterface parsed =>
    inferInstanceAs (Decidable (maxAlt = true ∧ setInterface = true ∧ parsed ≠ .failed))

/-- What is in the `UAC_DEV_T` afterwards -/
def Found.attach (found : Found) (iface : IfacePtr) (uac : UacDev) : UacDev :=
  match found with
  | .other => uac
  -- `iface` is set before anything is parsed
  | .control _ => { uac with acif := some iface }
  | .streaming maxAlt setInterface parsed =>
    if maxAlt && setInterface then
      match parsed with
      | .failed | .idle => uac
      | .input => { uac with asifIn := some iface }
      | .output => { uac with asifOut := some iface }
    else uac

/-- `uac_probe` on an interface of `udev`, and whether it returns 0; `alloc` is what
`alloc_uac_device` returns. -/
def uacProbe (s : Host) (iface : IfacePtr) (udev : UdevPtr) (alloc : Option UacPtr)
    (found : Found) : Bool × Host :=
  if found = .other then (false, s)
  else
    let attach (s : Host) (uac : UacPtr) : Bool × Host :=
      let s := s.write uac (found.attach iface)
      -- the core keeps an interface whose probe returns 0, and frees another
      if found.Ok then (true, { s with bound := Function.update s.bound iface (some ⟨udev, uac⟩) })
      else (false, s)
    match findUacDevice s udev with
    | some uac => attach s uac
    | none =>
      match alloc with
      | none => (false, s)
      | some uac =>
        attach { s with
          heap := Function.update s.heap uac (some ⟨udev, .connecting, none, none, none⟩)
          gUacList := s.gUacList ++ [uac] } uac

def UacDev.clear (uac : UacDev) (iface : IfacePtr) : UacDev :=
  { uac with
    acif := if uac.acif = some iface then none else uac.acif
    asifIn := if uac.asifIn = some iface then none else uac.asifIn
    asifOut := if uac.asifOut = some iface then none else uac.asifOut }

/-- No interface is left in it. -/
def UacDev.Unused (uac : UacDev) : Prop :=
  uac.acif = none ∧ uac.asifIn = none ∧ uac.asifOut = none

instance (uac : UacDev) : Decidable uac.Unused := inferInstanceAs (Decidable (_ ∧ _))

/-- `uac_disconnect`, of an interface of `udev` with `context` -/
def uacDisconnect (s : Host) (iface : IfacePtr) (b : Bound) : Host :=
  let s := s.write b.context fun uac => { uac with state := .disconnecting }
  match findUacDevice s b.udev with
  | none => s
  | some p =>
    if b.context ≠ p then s
    else
      let s := s.write b.context (·.clear iface)
      match s.heap b.context with
      | none => s
      | some uac =>
        if uac.Unused then
          { s with
            gUacList := s.gUacList.erase b.context
            heap := Function.update s.heap b.context none }
        else s

inductive Event
  | probe (iface : IfacePtr) (udev : UdevPtr) (alloc : Option UacPtr) (found : Found)
  | disconnect (iface : IfacePtr)
  deriving DecidableEq

/-- An interface is probed at a place where none is bound, objects are allocated where there is none,
and an interface that is disconnected is freed by the core. -/
def step (s : Host) : Event → Option Host
  | .probe iface udev alloc found =>
    if s.bound iface = none ∧ ∀ uac, alloc = some uac → s.heap uac = none then
      some (uacProbe s iface udev alloc found).2
    else none
  | .disconnect iface =>
    (s.bound iface).map fun b =>
      let t := uacDisconnect s iface b
      { t with bound := Function.update t.bound iface none }

def init : Host where
  heap _ := none
  gUacList := []
  bound _ := none
  stray := false

/-! ## The list and the interfaces -/

/-- The list has one object for each device that has a bound interface, all that is allocated is in
it, and every bound interface has the object of its device. -/
structure Lifetime (s : Host) : Prop where
  nodup : s.gUacList.Nodup
  listed : ∀ uac, uac ∈ s.gUacList ↔ (s.udevOf uac).isSome
  one : ∀ uac ∈ s.gUacList, ∀ uac' ∈ s.gUacList, s.udevOf uac = s.udevOf uac' → uac = uac'
  bound : ∀ udev, (∃ uac ∈ s.gUacList, s.udevOf uac = some udev) ↔
    ∃ iface b, s.bound iface = some b ∧ b.udev = udev
  context : ∀ iface b, s.bound iface = some b → s.udevOf b.context = some b.udev
  safe : s.stray = false

/-- No first probe fails once it has allocated its object; and of the interfaces of a device the last
to be disconnected, and no other, leaves no interface in the object. -/
def Kept (s : Host) : Event → Prop
  | .probe _ udev alloc found =>
    found ≠ .other → findUacDevice s udev = none → alloc ≠ none → found.Ok
  | .disconnect iface => ∀ b uac, s.bound iface = some b → s.heap b.context = some uac →
    ((uac.clear iface).Unused ↔
      ∀ iface' b', s.bound iface' = some b' → b'.udev = b.udev → iface' = iface)

section Lemmas

variable {s t : Host} {iface : IfacePtr} {udev : UdevPtr} {uac : UacPtr} {b : Bound}
  {f : UacDev → UacDev}

theorem udevOf_write (hf : ∀ dev, (f dev).udev = dev.udev) : (s.write uac f).udevOf = s.udevOf := by
  funext a
  show (Function.update s.heap uac ((s.heap uac).map f) a).map (·.udev) = _
  by_cases ha : a = uac
  · subst ha
    rw [Function.update_self, Option.map_map]
    exact congrArg (Option.map · _) (funext hf)
  · rw [Function.update_of_ne ha]
    rfl

theorem stray_write (h : (s.udevOf uac).isSome) : (s.write uac f).stray = s.stray := by
  have hsome : (s.heap uac).isNone = false := by
    rw [Host.udevOf, Option.isSome_map] at h
    rw [← Option.not_isSome, h]
    rfl
  show (s.stray || (s.heap uac).isNone) = s.stray
  rw [hsome, Bool.or_false]

theorem attach_udev (found : Found) (iface : IfacePtr) (dev : UacDev) :
    (found.attach iface dev).udev = dev.udev := by
  cases found with
  | other => rfl
  | control parsed => rfl
  | streaming maxAlt setInterface parsed =>
    unfold Found.attach
    simp only
    split
    · cases parsed <;> rfl
    · rfl

theorem Lifetime.find (h : Lifetime s) (ha : s.udevOf uac = some udev) :
    findUacDevice s udev = some uac := by
  have hmem : uac ∈ s.gUacList := (h.listed uac).mpr (by rw [ha]; rfl)
  have hsome : (findUacDevice s udev).isSome :=
    List.find?_isSome.mpr ⟨uac, hmem, decide_eq_true ha⟩
  obtain ⟨p, hp⟩ := Option.isSome_iff_exists.mp hsome
  unfold findUacDevice at hp
  have hfound := List.find?_some hp
  have hudev : s.udevOf p = some udev := of_decide_eq_true hfound
  rw [findUacDevice, hp, h.one p (List.mem_of_find?_eq_some hp) uac hmem (hudev.trans ha.symm)]

theorem bound_update {bound : IfacePtr → Option Bound} {iface' : IfacePtr} {b' : Bound} :
    Function.update bound iface (some b) iface' = some b' ↔
      (iface' = iface ∧ b = b') ∨ (iface' ≠ iface ∧ bound iface' = some b') := by
  by_cases hi : iface' = iface
  · subst hi
    simp
  · simp [hi]

theorem ne_of_bound {bound : IfacePtr → Option Bound} {iface' : IfacePtr}
    (hfree : bound iface = none) (hbound : bound iface' = some b) : iface' ≠ iface := by
  rintro rfl
  rw [hfree] at hbound
  cases hbound

/-- An interface is bound to the object of its device. -/
theorem Lifetime.bind (h : Lifetime s) (ha : s.udevOf uac = some udev)
    (hfree : s.bound iface = none) (hu : t.udevOf = s.udevOf) (hl : t.gUacList = s.gUacList)
    (hb : t.bound = Function.update s.bound iface (some ⟨udev, uac⟩)) (hs : t.stray = false) :
    Lifetime t := by
  have hmem : uac ∈ s.gUacList := (h.listed uac).mpr (by rw [ha]; rfl)
  refine ⟨hl ▸ h.nodup, ?_, ?_, fun udev' => ?_, fun iface' b hbound => ?_, hs⟩
  · rw [hu, hl]
    exact h.listed
  · rw [hu, hl]
    exact h.one
  · rw [hu, hl, h.bound, hb]
    constructor
    · rintro ⟨iface', b, hbound, hudev⟩
      exact ⟨iface', b, bound_update.mpr (.inr ⟨ne_of_bound hfree hbound, hbound⟩), hudev⟩
    · rintro ⟨iface', b, hbound, hudev⟩
      rcases bound_update.mp hbound with ⟨-, rfl⟩ | ⟨-, hbound⟩
      · obtain rfl : udev = udev' := hudev
        exact (h.bound udev).mp ⟨uac, hmem, ha⟩
      · exact ⟨iface', b, hbound, hudev⟩
  · rw [hu]
    rcases bound_update.mp (hb ▸ hbound) with ⟨-, rfl⟩ | ⟨-, hbound⟩
    · exact ha
    · exact h.context iface' b hbound

/-- A device's first interface is bound to an object put at the end of the list. -/
theorem Lifetime.create (h : Lifetime s) (hnone : findUacDevice s udev = none)
    (hfresh : s.udevOf uac = none) (hfree : s.bound iface = none)
    (hu : t.udevOf = Function.update s.udevOf uac (some udev))
    (hl : t.gUacList = s.gUacList ++ [uac])
    (hb : t.bound = Function.update s.bound iface (some ⟨udev, uac⟩)) (hs : t.stray = false) :
    Lifetime t := by
  have hnot : uac ∉ s.gUacList := fun hmem => by
    have hsome := (h.listed uac).mp hmem
    rw [hfresh] at hsome
    cases hsome
  have hno : ∀ a ∈ s.gUacList, s.udevOf a ≠ some udev := fun a ha heq =>
    List.find?_eq_none.mp hnone a ha (decide_eq_true heq)
  have hold : ∀ a ∈ s.gUacList, t.udevOf a = s.udevOf a := fun a ha => by
    have hne : a ≠ uac := fun heq => hnot (heq ▸ ha)
    rw [hu, Function.update_of_ne hne]
  have hnew : t.udevOf uac = some udev := by rw [hu, Function.update_self]
  refine ⟨?_, fun a => ?_, fun a ha a' ha' heq => ?_, fun udev' => ?_, fun iface' b hbound => ?_, hs⟩
  · rw [hl]
    refine List.nodup_append.mpr ⟨h.nodup, List.nodup_singleton uac, fun a ha a' ha' heq => ?_⟩
    rw [heq, List.mem_singleton.mp ha'] at ha
    exact hnot ha
  · rw [hl, List.mem_append, List.mem_singleton, h.listed]
    by_cases ha : a = uac
    · subst ha
      rw [hnew]
      exact iff_of_true (.inr rfl) rfl
    · rw [hu, Function.update_of_ne ha]
      exact or_iff_left ha
  · rw [hl, List.mem_append, List.mem_singleton] at ha ha'
    rcases ha with ha | rfl <;> rcases ha' with ha' | rfl
    · rw [hold a ha, hold a' ha'] at heq
      exact h.one a ha a' ha' heq
    · rw [hold a ha, hnew] at heq
      exact absurd heq (hno a ha)
    · rw [hold a' ha', hnew] at heq
      exact absurd heq.symm (hno a' ha')
    · rfl
  · rw [hl, hb]
    constructor
    · rintro ⟨a, ha, hudev⟩
      rcases List.mem_append.mp ha with ha | ha
      · rw [hold a ha] at hudev
        obtain ⟨iface', b, hbound, hb'⟩ := (h.bound udev').mp ⟨a, ha, hudev⟩
        exact ⟨iface', b, bound_update.mpr (.inr ⟨ne_of_bound hfree hbound, hbound⟩), hb'⟩
      · rw [List.mem_singleton.mp ha, hnew] at hudev
        exact ⟨iface, _, Function.update_self .., Option.some.inj hudev⟩
    · rintro ⟨iface', b, hbound, hudev⟩
      rcases bound_update.mp hbound with ⟨-, rfl⟩ | ⟨-, hbound⟩
      · obtain rfl : udev = udev' := hudev
        exact ⟨uac, List.mem_append_right _ (List.mem_singleton_self uac), hnew⟩
      · obtain ⟨a, ha, hudev'⟩ := (h.bound udev').mpr ⟨iface', b, hbound, hudev⟩
        exact ⟨a, List.mem_append_left _ ha, (hold a ha).trans hudev'⟩
  · rcases bound_update.mp (hb ▸ hbound) with ⟨-, rfl⟩ | ⟨-, hbound⟩
    · exact hnew
    · have hctx := h.context iface' b hbound
      rw [hu, Function.update_of_ne]
      · exact hctx
      · intro heq
        rw [heq, hfresh] at hctx
        cases hctx

theorem bound_update_none {bound : IfacePtr → Option Bound} {iface' : IfacePtr} {b' : Bound} :
    Function.update bound iface none iface' = some b' ↔ iface' ≠ iface ∧ bound iface' = some b' := by
  by_cases hi : iface' = iface
  · subst hi
    simp
  · simp [hi]

/-- Where the object stays, another interface of the device has to be bound. -/
theorem Lifetime.unbind_iff (h : Lifetime s) (hbound : s.bound iface = some b)
    (hu : t.udevOf = s.udevOf) (hl : t.gUacList = s.gUacList)
    (hb : t.bound = Function.update s.bound iface none) (hs : t.stray = false) :
    Lifetime t ↔
      ¬ ∀ iface' b', s.bound iface' = some b' → b'.udev = b.udev → iface' = iface := by
  constructor
  · intro ht hlast
    have hctx := h.context iface b hbound
    obtain ⟨iface', b', hbound', hudev⟩ := (ht.bound b.udev).mp
      ⟨b.context, hl ▸ (h.listed _).mpr (by rw [hctx]; rfl), hu ▸ hctx⟩
    obtain ⟨hne, hbound'⟩ := bound_update_none.mp (hb ▸ hbound')
    exact hne (hlast iface' b' hbound' hudev)
  · intro hother
    simp only [not_forall] at hother
    obtain ⟨iface', b', hbound', hudev, hne⟩ := hother
    refine ⟨hl ▸ h.nodup, ?_, ?_, fun udev => ?_, fun i c hc => ?_, hs⟩
    · rw [hu, hl]
      exact h.listed
    · rw [hu, hl]
      exact h.one
    · rw [hu, hl, h.bound, hb]
      constructor
      · rintro ⟨i, c, hc, hcu⟩
        by_cases hi : i = iface
        · subst hi
          obtain rfl := Option.some.inj (hbound.symm.trans hc)
          exact ⟨iface', b', bound_update_none.mpr ⟨hne, hbound'⟩, hudev.trans hcu⟩
        · exact ⟨i, c, bound_update_none.mpr ⟨hi, hc⟩, hcu⟩
      · rintro ⟨i, c, hc, hcu⟩
        exact ⟨i, c, (bound_update_none.mp hc).2, hcu⟩
    · rw [hu]
      exact h.context i c (bound_update_none.mp (hb ▸ hc)).2

/-- Where the object is freed, none may be. -/
theorem Lifetime.free_iff (h : Lifetime s) (hbound : s.bound iface = some b)
    (hu : t.udevOf = Function.update s.udevOf b.context none)
    (hl : t.gUacList = s.gUacList.erase b.context)
    (hb : t.bound = Function.update s.bound iface none) (hs : t.stray = false) :
    Lifetime t ↔ ∀ iface' b', s.bound iface' = some b' → b'.udev = b.udev → iface' = iface := by
  have hctx := h.context iface b hbound
  have hmem : b.context ∈ s.gUacList := (h.listed _).mpr (by rw [hctx]; rfl)
  have hold : ∀ a, a ≠ b.context → t.udevOf a = s.udevOf a := fun a ha => by
    rw [hu, Function.update_of_ne ha]
  constructor
  · intro ht iface' b' hbound' hudev
    by_contra hne
    have hctx' := h.context iface' b' hbound'
    have hsame : b'.context = b.context := h.one _ ((h.listed _).mpr (by rw [hctx']; rfl)) _ hmem
      (by rw [hctx', hctx, hudev])
    have hfreed := ht.context iface' b' (by rw [hb]; exact bound_update_none.mpr ⟨hne, hbound'⟩)
    rw [hsame, hu, Function.update_self] at hfreed
    cases hfreed
  · intro hlast
    refine ⟨hl ▸ h.nodup.erase _, fun a => ?_, fun a ha a' ha' heq => ?_, fun udev => ?_,
      fun i c hc => ?_, hs⟩
    · rw [hl, h.nodup.mem_erase_iff]
      by_cases ha : a = b.context
      · subst ha
        rw [hu, Function.update_self]
        exact iff_of_false (fun hin => hin.1 rfl) (by decide)
      · rw [hold a ha, h.listed]
        exact and_iff_right ha
    · rw [hl, h.nodup.mem_erase_iff] at ha ha'
      rw [hold a ha.1, hold a' ha'.1] at heq
      exact h.one a ha.2 a' ha'.2 heq
    · rw [hl, hb]
      constructor
      · rintro ⟨a, ha, hau⟩
        rw [h.nodup.mem_erase_iff] at ha
        rw [hold a ha.1] at hau
        obtain ⟨i, c, hc, hcu⟩ := (h.bound udev).mp ⟨a, ha.2, hau⟩
        refine ⟨i, c, bound_update_none.mpr ⟨?_, hc⟩, hcu⟩
        rintro rfl
        obtain rfl := Option.some.inj (hbound.symm.trans hc)
        exact ha.1 (h.one a ha.2 _ hmem (by rw [hau, hctx, hcu]))
      · rintro ⟨i, c, hc, hcu⟩
        obtain ⟨hi, hc⟩ := bound_update_none.mp hc
        obtain ⟨a, ha, hau⟩ := (h.bound udev).mpr ⟨i, c, hc, hcu⟩
        have hne : a ≠ b.context := by
          rintro rfl
          rw [hctx] at hau
          exact hi (hlast i c hc (hcu.trans (Option.some.inj hau).symm))
        exact ⟨a, h.nodup.mem_erase_iff.mpr ⟨hne, ha⟩, (hold a hne).trans hau⟩
    · obtain ⟨hi, hc⟩ := bound_update_none.mp (hb ▸ hc)
      have hcc := h.context i c hc
      have hne : c.context ≠ b.context := by
        intro heq
        rw [heq, hctx] at hcc
        exact hi (hlast i c hc (Option.some.inj hcc).symm)
      exact (hold _ hne).trans hcc

theorem probe_iff (h : Lifetime s) {alloc : Option UacPtr} {found : Found}
    (hfree : s.bound iface = none) (hfresh : ∀ uac, alloc = some uac → s.heap uac = none) :
    Lifetime (uacProbe s iface udev alloc found).2 ↔ Kept s (.probe iface udev alloc found) := by
  unfold uacProbe Kept
  by_cases hother : found = .other
  · rw [if_pos hother]
    exact iff_of_true h fun hne => absurd hother hne
  rw [if_neg hother]
  cases hfind : findUacDevice s udev with
  | some uac =>
    refine iff_of_true ?_ fun _ hnone => nomatch hnone.symm.trans hfind
    have hfound := List.find?_some hfind
    have ha : s.udevOf uac = some udev := of_decide_eq_true hfound
    have hu : (s.write uac (found.attach iface)).udevOf = s.udevOf :=
      udevOf_write (attach_udev found iface)
    have hs : (s.write uac (found.attach iface)).stray = false :=
      (stray_write (by rw [ha]; rfl)).trans h.safe
    simp only
    split
    · exact h.bind ha hfree hu rfl rfl hs
    · exact ⟨h.nodup, fun a => hu ▸ h.listed a, hu ▸ h.one, hu ▸ h.bound, hu ▸ h.context, hs⟩
  | none =>
    cases alloc with
    | none => exact iff_of_true h fun _ _ hne => absurd rfl hne
    | some uac =>
      have hnone : s.udevOf uac = none := by rw [Host.udevOf, hfresh uac rfl, Option.map_none]
      simp only
      generalize hnew : Host.mk (Function.update s.heap uac
        (some ⟨udev, .connecting, none, none, none⟩)) (s.gUacList ++ [uac]) s.bound s.stray = new
      have hnewu : new.udevOf = Function.update s.udevOf uac (some udev) := by
        rw [← hnew]
        funext a
        show (Function.update s.heap uac _ a).map (·.udev) = _
        by_cases ha : a = uac
        · subst ha
          rw [Function.update_self, Function.update_self]
          rfl
        · rw [Function.update_of_ne ha, Function.update_of_ne ha]
          rfl
      have hu : (new.write uac (found.attach iface)).udevOf =
          Function.update s.udevOf uac (some udev) :=
        (udevOf_write (attach_udev found iface)).trans hnewu
      have hs : (new.write uac (found.attach iface)).stray = false :=
        (stray_write (by rw [hnewu, Function.update_self]; rfl)).trans (by rw [← hnew]; exact h.safe)
      have hl : new.gUacList = s.gUacList ++ [uac] := by rw [← hnew]
      have hb : new.bound = s.bound := by rw [← hnew]
      split
      · rename_i hok
        exact iff_of_true
          (h.create hfind hnone hfree hu hl (congrArg (Function.update · iface _) hb) hs)
          fun _ _ _ => hok
      · rename_i hok
        refine iff_of_false (fun ht => ?_) fun hkept => hok (hkept hother hfind nofun)
        have hmem : uac ∈ (new.write uac (found.attach iface)).gUacList :=
          hl ▸ List.mem_append_right _ (List.mem_singleton_self uac)
        obtain ⟨i, c, hc, hcu⟩ := (ht.bound udev).mp ⟨uac, hmem, by rw [hu, Function.update_self]⟩
        obtain ⟨a, ha, hau⟩ := (h.bound udev).mpr ⟨i, c, hb ▸ hc, hcu⟩
        exact List.find?_eq_none.mp hfind a ha (decide_eq_true hau)

theorem heap_write : (s.write uac f).heap uac = (s.heap uac).map f := Function.update_self ..

theorem disconnect_cases (h : Lifetime s) {dev : UacDev} (hbound : s.bound iface = some b)
    (hdev : s.heap b.context = some dev) :
    (uacDisconnect s iface b).bound = s.bound ∧ (uacDisconnect s iface b).stray = false ∧
      if (dev.clear iface).Unused then
        (uacDisconnect s iface b).udevOf = Function.update s.udevOf b.context none ∧
          (uacDisconnect s iface b).gUacList = s.gUacList.erase b.context
      else (uacDisconnect s iface b).udevOf = s.udevOf ∧
        (uacDisconnect s iface b).gUacList = s.gUacList := by
  have hctx := h.context iface b hbound
  unfold uacDisconnect
  generalize hw : s.write b.context (fun uac => { uac with state := .disconnecting }) = w
  have hwu : w.udevOf = s.udevOf := hw ▸ udevOf_write fun _ => rfl
  have hws : w.stray = false := hw ▸ (stray_write (by rw [hctx]; rfl)).trans h.safe
  have hwl : w.gUacList = s.gUacList := hw ▸ rfl
  have hwb : w.bound = s.bound := hw ▸ rfl
  have hwd : w.heap b.context = some { dev with state := .disconnecting } := by
    rw [← hw, heap_write, hdev]
    rfl
  have hfind : findUacDevice w b.udev = some b.context := by
    rw [findUacDevice, hwl, hwu]
    exact h.find hctx
  simp only [hfind, ne_eq, not_true_eq_false, if_false]
  generalize hc : w.write b.context (·.clear iface) = c
  have hcu : c.udevOf = s.udevOf := by
    rw [← hc, udevOf_write (f := (·.clear iface)) fun _ => rfl, hwu]
  have hcs : c.stray = false := hc ▸ (stray_write (by rw [hwu, hctx]; rfl)).trans hws
  have hcl : c.gUacList = s.gUacList := hc ▸ hwl
  have hcb : c.bound = s.bound := hc ▸ hwb
  have hcd : c.heap b.context = some (UacDev.clear { dev with state := .disconnecting } iface) := by
    rw [← hc, heap_write, hwd]
    rfl
  simp only [hcd]
  have hunused : (UacDev.clear { dev with state := .disconnecting } iface).Unused ↔
      (dev.clear iface).Unused := Iff.rfl
  by_cases hu : (dev.clear iface).Unused
  · rw [if_pos (hunused.mpr hu), if_pos hu]
    refine ⟨hcb, hcs, ?_, by rw [hcl]⟩
    funext a
    show (Function.update c.heap b.context none a).map (·.udev) = _
    by_cases ha : a = b.context
    · rw [ha, Function.update_self, Function.update_self]
      rfl
    · rw [Function.update_of_ne ha, Function.update_of_ne ha, ← hcu]
      rfl
  · rw [if_neg (fun h => hu (hunused.mp h)), if_neg hu]
    exact ⟨hcb, hcs, hcu, hcl⟩

/-- What a step leaves is as it should be exactly where the step is kept. -/
theorem lifetime_step {e : Event} (h : Lifetime s) (ht : step s e = some t) :
    Lifetime t ↔ Kept s e := by
  cases e with
  | probe iface udev alloc found =>
    obtain ⟨⟨hfree, hfresh⟩, ht⟩ := Option.ite_none_right_eq_some.mp ht
    rw [← Option.some.inj ht]
    exact probe_iff h hfree hfresh
  | disconnect iface =>
    obtain ⟨b, hbound, rfl⟩ := Option.map_eq_some_iff.mp ht
    have hctx := h.context iface b hbound
    obtain ⟨dev, hdev, -⟩ := Option.map_eq_some_iff.mp hctx
    obtain ⟨hb, hs, hcases⟩ := disconnect_cases h hbound hdev
    have hkept : Kept s (.disconnect iface) ↔ ((dev.clear iface).Unused ↔
        ∀ iface' b', s.bound iface' = some b' → b'.udev = b.udev → iface' = iface) := by
      constructor
      · exact fun hk => hk b dev hbound hdev
      · intro hk b' dev' hbound' hdev'
        obtain rfl := Option.some.inj (hbound.symm.trans hbound')
        obtain rfl := Option.some.inj (hdev.symm.trans hdev')
        exact hk
    rw [hkept]
    split at hcases
    · rename_i hunused
      refine (h.free_iff (t := { uacDisconnect s iface b with
        bound := Function.update (uacDisconnect s iface b).bound iface none })
        hbound hcases.1 hcases.2 (congrArg (Function.update · iface none) hb) hs).trans ?_
      exact ⟨fun hlast => iff_of_true hunused hlast, fun hiff => hiff.mp hunused⟩
    · rename_i hused
      refine (h.unbind_iff (t := { uacDisconnect s iface b with
        bound := Function.update (uacDisconnect s iface b).bound iface none })
        hbound hcases.1 hcases.2 (congrArg (Function.update · iface none) hb) hs).trans ?_
      exact ⟨fun hlast => iff_of_false hused hlast, fun hiff hlast => hused (hiff.mpr hlast)⟩

end Lemmas

theorem lifetime_init : Lifetime init where
  nodup := List.nodup_nil
  listed _ := iff_of_false List.not_mem_nil Bool.false_ne_true
  one _ h := absurd h List.not_mem_nil
  bound _ := iff_of_false (fun h => absurd h.choose_spec.1 List.not_mem_nil)
    fun h => nomatch h.choose_spec.choose_spec.1
  context _ _ h := nomatch h
  safe := rfl

/-- Over every run the list and the interfaces are as they should be exactly as long as the steps are
kept. -/
theorem run_lifetime_iff (es : List Event) :
    Machine.Trace.Always step Lifetime init es ↔ Machine.Trace.EachStep step Kept init es :=
  Machine.Trace.always_iff_eachStep (P := fun _ => True) (fun _ _ _ _ _ => trivial)
    (fun _ _ _ _ h ht => lifetime_step h ht) trivial lifetime_init

/-- Two interfaces with an input stream: when the second is disconnected the object is freed, and the
first goes on to use it. -/
theorem not_lifetime_twoInputs : ¬ Machine.Trace.Always step Lifetime init
    [.probe 0 0 (some 0) (.streaming true true .input),
      .probe 1 0 none (.streaming true true .input), .disconnect 1, .disconnect 0] := by
  intro h
  have hrun : (Machine.Trace.run step init
      [.probe 0 0 (some 0) (.streaming true true .input),
        .probe 1 0 none (.streaming true true .input), .disconnect 1, .disconnect 0]).map
      (·.stray) = some true := by decide
  obtain ⟨t, ht, hstray⟩ := Option.map_eq_some_iff.mp hrun
  have hsafe := (h.last ht).safe
  rw [hstray] at hsafe
  cases hsafe

end Ma35d1.UsbHost.Uac
