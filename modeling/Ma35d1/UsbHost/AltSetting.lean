import Mathlib.Order.OrderDual
import Mathlib.Data.List.Pairwise
import Ma35d1.Machine.Scan
import Ma35d1.UsbHost.Core.Lookup
import Ma35d1.UsbHost.Uvc.Parser

/-!
# The choice of an alternate setting

The video driver passes over its settings twice: the second pass begins with what the first one has
found. The audio driver passes over all endpoints of an interface once, and takes what its bound is
at the beginning for a packet size.
-/

namespace Ma35d1.UsbHost.AltSetting

open Machine Uvc.Parser

/-! ## The code -/

def uvcRetNotSupport : Int := -3012

/-- `max_pktsz[i]` -/
def pktsz (a : AltEntry) : Nat := a.maxPktsz.toNat

/-- A round of the first loop; `none` is -1. -/
def largestStep (best : Option AltEntry) (a : AltEntry) : Option AltEntry :=
  if pktsz a ≤ 3072 then
    match best with
    | none => some a
    | some b => if pktsz a > pktsz b then some a else some b
  else best

/-- A round of the second loop -/
def closestStep (payloadSize : Nat) (best : Option AltEntry) (a : AltEntry) : Option AltEntry :=
  if pktsz a ≥ payloadSize ∧ pktsz a ≤ 3072 then
    match best with
    | none => some a
    | some b => if pktsz a < pktsz b then some a else some b
  else best

/-- The entry at `best` after the two loops -/
def bestAlt (dwMaxPayloadTransferSize : BitVec 32) (alts : List AltEntry) : Option AltEntry :=
  let payloadSize := if dwMaxPayloadTransferSize.toNat > 3072 then 3072
    else dwMaxPayloadTransferSize.toNat
  alts.foldl (closestStep payloadSize) (alts.foldl largestStep none)

/-- `usbh_uvc_select_alt_interface`: whether the streaming interface is found, what
`usbh_set_interface` returns, and the endpoint that is found afterwards are the core's. The result
is with the setting that is asked for. -/
def uvcSelectAltInterface (found : Bool) (setInterface : BitVec 8 → Int) (epIsoIn : Option EpInfo)
    (dwMaxPayloadTransferSize : BitVec 32) (alts : List AltEntry) :
    Int × Option AltEntry :=
  if found = false then (uvcRetNotSupport, none)
  else
    match bestAlt dwMaxPayloadTransferSize alts with
    | none => (uvcRetNotSupport, none)
    | some best =>
      if setInterface best.altNo ≠ 0 then (setInterface best.altNo, some best)
      else if epIsoIn.isNone then (uvcRetNotSupport, some best)
      else (0, some best)

/-- An alternate setting of an `IFACE_T`, with its `bNumEndpoints` endpoints -/
structure Setting where
  bAlternateSetting : BitVec 8
  ep : List EpInfo

/-- `wMaxPacketSize`, and what is stored for the caller -/
structure Found where
  wMaxPacketSize : BitVec 16
  bAlternateSetting : Option Nat

/-- The endpoints of a direction and a type -/
def Wanted (dir attr : BitVec 8) (e : EpInfo) : Prop :=
  e.bEndpointAddress &&& epAddrDirMask = dir ∧ e.bmAttributes &&& epAttrTtMask = attr

instance (dir attr : BitVec 8) : DecidablePred (Wanted dir attr) :=
  fun _ => inferInstanceAs (Decidable (_ ∧ _))

/-- The two loops over the settings from `i` on and their endpoints -/
def eachEndpoint (step : Nat → Found → EpInfo → Found) : Nat → List Setting → Found → Found
  | _, [], k => k
  | i, s :: ss, k => eachEndpoint step (i + 1) ss (s.ep.foldl (step i) k)

/-- `usbh_uac_find_max_alt`: the result, and the setting -/
def uacFindMaxAlt (alts : List Setting) (dir attr : BitVec 8) : Int × Option Nat :=
  let k := eachEndpoint (fun i k e =>
    if ¬ Wanted dir attr e then k
    else if k.wMaxPacketSize < e.wMaxPacketSize then ⟨e.wMaxPacketSize, some i⟩
    else k) 0 alts ⟨0, none⟩
  if k.wMaxPacketSize = 0 then (usbhErrNotFound, k.bAlternateSetting)
  else (0, k.bAlternateSetting)

/-- `usbh_uac_find_best_alt` -/
def uacFindBestAlt (alts : List Setting) (dir attr : BitVec 8) (pktSz : Int) : Int × Option Nat :=
  let k := eachEndpoint (fun i k e =>
    if ¬ Wanted dir attr e then k
    else if pktSz ≤ e.wMaxPacketSize.toNat ∧ e.wMaxPacketSize < k.wMaxPacketSize then
      ⟨e.wMaxPacketSize, some i⟩
    else k) 0 alts ⟨0xffff, none⟩
  if k.wMaxPacketSize = 0xffff then (usbhErrNotFound, k.bAlternateSetting)
  else (0, k.bAlternateSetting)

/-! ## What is to be chosen -/

/-- The settings that can be chosen -/
def Fits (a : AltEntry) : Prop := pktsz a ≤ 3072

/-- The settings that hold a payload -/
def InWindow (dwMaxPayloadTransferSize : BitVec 32) (a : AltEntry) : Prop :=
  min dwMaxPayloadTransferSize.toNat 3072 ≤ pktsz a ∧ pktsz a ≤ 3072

/-- The smallest packet of those from the payload's size on, or else the greatest, up to 3072 -/
def VideoLaw (dwMaxPayloadTransferSize : BitVec 32) (alts : List AltEntry) :
    Option AltEntry → Prop
  | none => ∀ a ∈ alts, ¬ Fits a
  | some t => t ∈ alts ∧ Fits t ∧
    let window := InWindow dwMaxPayloadTransferSize
    ((∃ a ∈ alts, window a) → window t ∧ ∀ a ∈ alts, window a → pktsz t ≤ pktsz a) ∧
    ((¬ ∃ a ∈ alts, window a) → ∀ a ∈ alts, Fits a → pktsz a ≤ pktsz t)

/-- `wMaxPacketSize` of an endpoint -/
def size (e : EpInfo) : Nat := e.wMaxPacketSize.toNat

/-- An endpoint that is wanted, and at least as good as all others that are -/
def Best (alts : List Setting) (want : EpInfo → Prop) (asGood : EpInfo → EpInfo → Prop)
    (e : EpInfo) : Prop :=
  want e ∧ ∀ s ∈ alts, ∀ e' ∈ s.ep, want e' → asGood e e'

/-- The setting that is named has a best endpoint; and no setting has one if the call fails. -/
def AudioLaw (alts : List Setting) (want : EpInfo → Prop) (asGood : EpInfo → EpInfo → Prop)
    (names : Nat → Setting → Prop) (r : Int × Option Nat) : Prop :=
  if r.1 = 0 then ∃ i s, r.2 = some i ∧ names i s ∧ ∃ e ∈ s.ep, Best alts want asGood e
  else ∀ s ∈ alts, ∀ e ∈ s.ep, ¬ want e

/-- A setting by its place in the interface -/
def AtPlace (alts : List Setting) (i : Nat) (s : Setting) : Prop := alts[i]? = some s

/-- A setting by the number that a request for it has -/
def OfNumber (alts : List Setting) (i : Nat) (s : Setting) : Prop :=
  s ∈ alts ∧ s.bAlternateSetting.toNat = i

/-- The bound at the beginning is not the size of all endpoints that are wanted. -/
def Within (alts : List Setting) (want below : EpInfo → Prop) : Prop :=
  (∃ s ∈ alts, ∃ e ∈ s.ep, want e) → ∃ s ∈ alts, ∃ e ∈ s.ep, want e ∧ below e

/-- The place of the first setting that has a best endpoint is the number of such a setting. -/
def Numbered (alts : List Setting) (best : EpInfo → Prop) : Prop :=
  ∀ i s, AtPlace alts i s → (∃ e ∈ s.ep, best e) →
    (∀ j < i, ∀ s', AtPlace alts j s' → ∀ e ∈ s'.ep, ¬ best e) →
    ∃ s', OfNumber alts i s' ∧ ∃ e ∈ s'.ep, best e

/-! ## Video -/

section Video

variable {dwMaxPayloadTransferSize : BitVec 32} {alts : List AltEntry}

instance : DecidablePred Fits := fun _ => inferInstanceAs (Decidable (_ ≤ _))

instance (p : BitVec 32) : DecidablePred (InWindow p) :=
  fun _ => inferInstanceAs (Decidable (_ ∧ _))

theorem largestStep_eq :
    largestStep = keepAdmitted Fits fun a => OrderDual.toDual (pktsz a) := by
  funext best a
  cases best <;> rfl

theorem closestStep_eq (p : BitVec 32) :
    closestStep (if p.toNat > 3072 then 3072 else p.toNat) = keepAdmitted (InWindow p) pktsz := by
  have hmin : (if p.toNat > 3072 then 3072 else p.toNat) = min p.toNat 3072 := by
    split <;> omega
  rw [hmin]
  funext best a
  cases best <;> rfl

/-- The first pass ends in the window if there is anything in it, and so the second one does not
leave it. -/
theorem bestAlt_law (p : BitVec 32) (alts : List AltEntry) : VideoLaw p alts (bestAlt p alts) := by
  have hnarrow : ∀ a, InWindow p a → Fits a := fun _ h => h.2
  unfold bestAlt
  dsimp only
  rw [largestStep_eq, closestStep_eq]
  rcases foldl_keepAdmitted_none Fits (fun a => OrderDual.toDual (pktsz a)) alts with
    ⟨hfirst, hnone⟩ | ⟨g, hfirst, hg⟩
  · rw [hfirst]
    rcases foldl_keepAdmitted_none (InWindow p) pktsz alts with
      ⟨hsecond, -⟩ | ⟨t, -, ht⟩
    · rw [hsecond]
      exact hnone
    · exact absurd (hnarrow t ht.mem.2) (hnone t ht.mem.1)
  · have hgreatest : ∀ a ∈ alts, Fits a → pktsz a ≤ pktsz g := fun a ha hfit => hg.le ha hfit
    obtain ⟨hmem, hfit⟩ := hg.mem
    rw [hfirst]
    rcases foldl_keepAdmitted_some (InWindow p) pktsz alts g with
      ⟨hsecond, hleast⟩ | ⟨t, hsecond, -, ht⟩
    · rw [hsecond]
      refine ⟨hmem, hfit, fun hwindow => ⟨?_, hleast⟩, fun _ => hgreatest⟩
      obtain ⟨a, ha, hin⟩ := hwindow
      exact ⟨hin.1.trans (hgreatest a ha (hnarrow a hin)), hfit⟩
    · rw [hsecond]
      obtain ⟨htmem, htin⟩ := ht.mem
      exact ⟨htmem, hnarrow t htin, fun _ => ⟨htin, fun a ha hin => ht.le ha hin⟩,
        fun hno => absurd ⟨t, htmem, htin⟩ hno⟩

end Video

/-! ## Audio -/

section Audio

variable {δ : Type} [LinearOrder δ] {want below : EpInfo → Prop} {asGood : EpInfo → EpInfo → Prop}
  {μ : EpInfo → δ} {alts : List Setting} {c : Nat × EpInfo} {i j : Nat} {e : EpInfo} {s : Setting}
  {r : Int × Option Nat}

/-- The endpoints of the settings from `i` on, in the order of the loops -/
def candidates : Nat → List Setting → List (Nat × EpInfo)
  | _, [] => []
  | i, s :: ss => s.ep.map (Prod.mk i) ++ candidates (i + 1) ss

theorem eachEndpoint_eq (step : Nat → Found → EpInfo → Found) (i : Nat) (alts : List Setting)
    (k : Found) :
    eachEndpoint step i alts k = (candidates i alts).foldl (fun k c => step c.1 k c.2) k := by
  induction alts generalizing i k with
  | nil => rfl
  | cons s ss ih => rw [eachEndpoint, candidates, List.foldl_append, List.foldl_map, ih]

theorem mem_candidates :
    c ∈ candidates i alts ↔ ∃ j s, alts[j]? = some s ∧ c.1 = i + j ∧ c.2 ∈ s.ep := by
  induction alts generalizing i with
  | nil => simp [candidates]
  | cons s ss ih =>
    rw [candidates, List.mem_append, List.mem_map, ih]
    constructor
    · rintro (⟨e, he, rfl⟩ | ⟨j, s', hj, hc, he⟩)
      · exact ⟨0, s, rfl, rfl, he⟩
      · exact ⟨j + 1, s', hj, by omega, he⟩
    · rintro ⟨j, s', hj, hc, he⟩
      cases j with
      | zero =>
        obtain rfl := Option.some.inj hj
        exact .inl ⟨c.2, he, Prod.ext hc.symm rfl⟩
      | succ j => exact .inr ⟨j, s', hj, by omega, he⟩

theorem mem_candidates_zero :
    (i, e) ∈ candidates 0 alts ↔ ∃ s, AtPlace alts i s ∧ e ∈ s.ep := by
  rw [mem_candidates]
  constructor
  · rintro ⟨j, s, hj, hi, he⟩
    obtain rfl : i = j := by simpa using hi
    exact ⟨s, hj, he⟩
  · rintro ⟨s, hs, he⟩
    exact ⟨i, s, hs, (Nat.zero_add i).symm, he⟩

/-- The places go up. -/
theorem pairwise_candidates (i : Nat) (alts : List Setting) :
    (candidates i alts).Pairwise fun c c' => c.1 ≤ c'.1 := by
  induction alts generalizing i with
  | nil => exact .nil
  | cons s ss ih =>
    refine List.pairwise_append.mpr ⟨?_, ih (i + 1), ?_⟩
    · exact List.pairwise_map.mpr (List.pairwise_of_forall fun _ _ => Nat.le_refl i)
    · intro c hc c' hc'
      obtain ⟨e, -, rfl⟩ := List.mem_map.mp hc
      obtain ⟨j, s', -, hj, -⟩ := mem_candidates.mp hc'
      show i ≤ c'.1
      omega

/-- Wanted, and better than the bound at the beginning -/
def Counts (want below : EpInfo → Prop) (c : Nat × EpInfo) : Prop := want c.2 ∧ below c.2

theorem lt_of_before {c' : Nat × EpInfo} {ok : Nat × EpInfo → Prop} {ν : Nat × EpInfo → δ}
    (h : IsFirstLeast ok ν (candidates 0 alts) c) (hc' : c' ∈ candidates 0 alts) (hok : ok c')
    (hlt : c'.1 < c.1) : ν c < ν c' := by
  have hpair := pairwise_candidates 0 alts
  obtain ⟨l₁, l₂, heq, -, hbefore, -⟩ := h
  rw [heq] at hc' hpair
  have hbehind := (List.pairwise_append.mp hpair).2.1
  rcases List.mem_append.mp hc' with hin | hin
  · exact hbefore c' hin hok
  · rcases List.mem_cons.mp hin with rfl | hin
    · exact absurd hlt (Nat.lt_irrefl _)
    · exact absurd ((List.pairwise_cons.mp hbehind).1 c' hin) (Nat.not_le.mpr hlt)

/-- What the loops are for: of the candidates that count, the first least one -/
def Chosen (μ : EpInfo → δ) (want below : EpInfo → Prop) (alts : List Setting)
    (r : Int × Option Nat) : Prop :=
  (r.1 ≠ 0 ∧ ∀ c ∈ candidates 0 alts, ¬ Counts want below c) ∨
    ∃ c, r = (0, some c.1) ∧
      IsFirstLeast (Counts want below) (fun c => μ c.2) (candidates 0 alts) c

section Law

variable (hgood : ∀ e e', asGood e e' ↔ μ e ≤ μ e')
  (hbelow : ∀ e e', below e → ¬ below e' → μ e < μ e')
include hgood hbelow

theorem best_of_first
    (h : IsFirstLeast (Counts want below) (fun c => μ c.2) (candidates 0 alts) c) :
    Best alts want asGood c.2 := by
  obtain ⟨-, hwant, hc⟩ := h.mem
  refine ⟨hwant, fun s hs e' he' hwant' => (hgood _ _).mpr ?_⟩
  by_cases hb : below e'
  · obtain ⟨i, hi⟩ := List.getElem?_of_mem hs
    exact h.le (mem_candidates_zero.mpr ⟨s, hi, he'⟩) ⟨hwant', hb⟩
  · exact (hbelow _ _ hc hb).le

/-- The setting at the place that is returned has a best endpoint, and none before it has. -/
theorem first_of_first
    (h : IsFirstLeast (Counts want below) (fun c => μ c.2) (candidates 0 alts) c) :
    (∃ s, AtPlace alts c.1 s ∧ c.2 ∈ s.ep) ∧
      ∀ j < c.1, ∀ s', AtPlace alts j s' → ∀ e ∈ s'.ep, ¬ Best alts want asGood e := by
  obtain ⟨hmem, hcounts⟩ := h.mem
  obtain ⟨s, hs, he⟩ := mem_candidates_zero.mp hmem
  refine ⟨⟨s, hs, he⟩, fun j hj s' hs' e he' hbest => ?_⟩
  have hle : μ e ≤ μ c.2 :=
    (hgood _ _).mp (hbest.2 s (List.mem_of_getElem? hs) c.2 he hcounts.1)
  by_cases hb : below e
  · exact absurd hle (not_le.mpr (lt_of_before h (mem_candidates_zero.mpr ⟨s', hs', he'⟩)
      ⟨hbest.1, hb⟩ hj))
  · exact absurd hle (not_le.mpr (hbelow _ _ hcounts.2 hb))

/-- By its place the setting is right unless the bound hides all endpoints. -/
theorem placeLaw_iff (h : Chosen μ want below alts r) :
    AudioLaw alts want asGood (AtPlace alts) r ↔ Within alts want below := by
  rcases h with ⟨hret, hnone⟩ | ⟨c, rfl, hc⟩
  · rw [AudioLaw, if_neg hret]
    constructor
    · rintro hno ⟨s, hs, e, he, hwant⟩
      exact absurd hwant (hno s hs e he)
    · intro hin s hs e he hwant
      obtain ⟨s', hs', e', he', hwant', hb⟩ := hin ⟨s, hs, e, he, hwant⟩
      obtain ⟨i, hi⟩ := List.getElem?_of_mem hs'
      exact hnone (i, e') (mem_candidates_zero.mpr ⟨s', hi, he'⟩) ⟨hwant', hb⟩
  · obtain ⟨⟨s, hs, he⟩, -⟩ := first_of_first hgood hbelow hc
    obtain ⟨-, hwant, hb⟩ := hc.mem
    rw [AudioLaw, if_pos rfl]
    exact iff_of_true ⟨c.1, s, rfl, hs, c.2, he, best_of_first hgood hbelow hc⟩
      fun _ => ⟨s, List.mem_of_getElem? hs, c.2, he, hwant, hb⟩

/-- By its number, the first such setting has also to stand at the place of a number of one. -/
theorem numberLaw_iff (h : Chosen μ want below alts r) :
    AudioLaw alts want asGood (OfNumber alts) r ↔
      Within alts want below ∧ Numbered alts (Best alts want asGood) := by
  rcases h with ⟨hret, hnone⟩ | ⟨c, rfl, hc⟩
  · have hplace := placeLaw_iff hgood hbelow (.inl ⟨hret, hnone⟩ : Chosen μ want below alts r)
    rw [AudioLaw, if_neg hret] at hplace ⊢
    rw [hplace]
    refine ⟨fun hin => ⟨hin, fun i s hs hbest _ => ?_⟩, And.left⟩
    obtain ⟨e, he, hbest⟩ := hbest
    exact absurd hbest.1 (hplace.mpr hin s (List.mem_of_getElem? hs) e he)
  · obtain ⟨⟨s, hs, he⟩, hbefore⟩ := first_of_first hgood hbelow hc
    obtain ⟨-, hwant, hb⟩ := hc.mem
    have hbest := best_of_first hgood hbelow hc
    rw [AudioLaw, if_pos rfl]
    constructor
    · rintro ⟨i, s', hi, hnumber, hholds⟩
      obtain rfl : c.1 = i := Option.some.inj hi
      refine ⟨fun _ => ⟨s, List.mem_of_getElem? hs, c.2, he, hwant, hb⟩, ?_⟩
      intro j sj hj hbestj hfirst
      -- the first place is the one that is returned
      rcases Nat.lt_trichotomy j c.1 with hlt | rfl | hgt
      · obtain ⟨e, he', hbest'⟩ := hbestj
        exact absurd hbest' (hbefore j hlt sj hj e he')
      · exact ⟨s', hnumber, hholds⟩
      · exact absurd hbest (hfirst c.1 hgt s hs c.2 he)
    · rintro ⟨-, hnumbered⟩
      obtain ⟨s', hnumber, hholds⟩ := hnumbered c.1 s hs ⟨c.2, he, hbest⟩ hbefore
      exact ⟨c.1, s', rfl, hnumber, hholds⟩

end Law

end Audio

/-! ## The two functions -/

section Functions

variable {δ : Type} [LinearOrder δ] {want below : EpInfo → Prop} [DecidablePred want]
  [DecidablePred below] {μ : EpInfo → δ} {alts : List Setting} {w : BitVec 16} {dir attr : BitVec 8}
  {pktSz : Int}

instance : DecidablePred (Counts want below) := fun _ => inferInstanceAs (Decidable (_ ∧ _))

/-- What the loops hold, for what has been kept -/
def held (w : BitVec 16) : Option (Nat × EpInfo) → Found
  | none => ⟨w, none⟩
  | some c => ⟨c.2.wMaxPacketSize, some c.1⟩

theorem foldl_held {step : Nat → Found → EpInfo → Found}
    (hstep : ∀ b i e, step i (held w b) e =
      held w (keepAdmitted (Counts want below) (fun c => μ c.2) b (i, e)))
    (l : List (Nat × EpInfo)) (b : Option (Nat × EpInfo)) :
    l.foldl (fun k c => step c.1 k c.2) (held w b) =
      held w (l.foldl (keepAdmitted (Counts want below) fun c => μ c.2) b) := by
  induction l generalizing b with
  | nil => rfl
  | cons c l ih => rw [List.foldl_cons, List.foldl_cons, hstep, ih]

/-- A loop that keeps the first least of what counts ends with it, or with its bound. -/
theorem chosen_of_step {step : Nat → Found → EpInfo → Found}
    (hstep : ∀ b i e, step i (held w b) e =
      held w (keepAdmitted (Counts want below) (fun c => μ c.2) b (i, e)))
    (hbelow : ∀ e, below e → e.wMaxPacketSize ≠ w) :
    Chosen μ want below alts
      (let k := eachEndpoint step 0 alts ⟨w, none⟩
       if k.wMaxPacketSize = w then (usbhErrNotFound, k.bAlternateSetting)
       else (0, k.bAlternateSetting)) := by
  have hfold := foldl_held hstep (candidates 0 alts) none
  rw [← eachEndpoint_eq] at hfold
  rw [show (⟨w, none⟩ : Found) = held w none from rfl, hfold]
  rcases foldl_keepAdmitted_none (Counts want below) (fun c => μ c.2) (candidates 0 alts) with
    ⟨hkept, hnone⟩ | ⟨c, hkept, hc⟩
  · rw [hkept]
    refine .inl ⟨?_, hnone⟩
    simp [held, usbhErrNotFound]
  · rw [hkept]
    exact .inr ⟨c, if_neg (hbelow c.2 hc.mem.2.2), hc⟩

/-- The greatest packet is the least in the dual order. -/
def bySpan (e : EpInfo) : OrderDual Nat := OrderDual.toDual (size e)

/-- The endpoints that `usbh_uac_find_best_alt` looks for -/
def WantedFrom (dir attr : BitVec 8) (pktSz : Int) (e : EpInfo) : Prop :=
  Wanted dir attr e ∧ pktSz ≤ size e

instance : DecidablePred (WantedFrom dir attr pktSz) :=
  fun _ => inferInstanceAs (Decidable (_ ∧ _))

theorem uacFindMaxAlt_chosen :
    Chosen bySpan (Wanted dir attr) (fun e => 0 < size e) alts (uacFindMaxAlt alts dir attr) := by
  refine chosen_of_step (fun b i e => ?_) fun e he h => ?_
  · by_cases hw : Wanted dir attr e
    · rw [if_neg (not_not.mpr hw)]
      cases b with
      | none =>
        by_cases hpos : 0 < size e
        · rw [if_pos (show (held 0 none).wMaxPacketSize < e.wMaxPacketSize from hpos),
            keepAdmitted_none ⟨hw, hpos⟩]
          rfl
        · rw [if_neg (show ¬ (held 0 none).wMaxPacketSize < e.wMaxPacketSize from hpos),
            keepAdmitted_of_not fun h => hpos h.2]
      | some c =>
        by_cases hlt : size c.2 < size e
        · rw [if_pos (show (held 0 (some c)).wMaxPacketSize < e.wMaxPacketSize from hlt),
            keepAdmitted_of_lt]
          · rfl
          · exact ⟨hw, Nat.zero_lt_of_lt hlt⟩
          · exact hlt
        · rw [if_neg (show ¬ (held 0 (some c)).wMaxPacketSize < e.wMaxPacketSize from hlt),
            keepAdmitted_of_not_lt]
          exact fun h => hlt h.2
    · rw [if_pos hw, keepAdmitted_of_not fun h => hw h.1]
  · simp [size, h] at he

theorem uacFindBestAlt_chosen :
    Chosen size (WantedFrom dir attr pktSz) (fun e => size e < 0xffff) alts
      (uacFindBestAlt alts dir attr pktSz) := by
  refine chosen_of_step (fun b i e => ?_) fun e he h => ?_
  · by_cases hw : Wanted dir attr e
    · rw [if_neg (not_not.mpr hw)]
      by_cases hfrom : pktSz ≤ size e
      · cases b with
        | none =>
          by_cases hlt : size e < 0xffff
          · rw [if_pos ⟨hfrom, hlt⟩, keepAdmitted_none ⟨⟨hw, hfrom⟩, hlt⟩]
            rfl
          · rw [if_neg fun h => hlt h.2, keepAdmitted_of_not fun h => hlt h.2]
        | some c =>
          by_cases hlt : size e < size c.2
          · have hbelow : size e < 0xffff := by
              have hc : size c.2 < 2 ^ 16 := c.2.wMaxPacketSize.isLt
              omega
            rw [if_pos ⟨hfrom, hlt⟩, keepAdmitted_of_lt]
            · rfl
            · exact ⟨⟨hw, hfrom⟩, hbelow⟩
            · exact hlt
          · rw [if_neg fun h => hlt h.2, keepAdmitted_of_not_lt]
            exact fun h => hlt h.2
      · rw [if_neg fun h => hfrom h.1, keepAdmitted_of_not fun h => hfrom h.1.2]
    · rw [if_pos hw, keepAdmitted_of_not fun h => hw h.1.1]
  · simp [size, h] at he

end Functions

/-- The video driver chooses as it should. The audio driver does unless all endpoints that it looks
for have the size that its bound begins with; and, as far as the number of a setting is asked for,
unless the place that it returns is the number of another one. -/
theorem altSetting_law_iff (p : BitVec 32) (video : List AltEntry) (found : Bool)
    (setInterface : BitVec 8 → Int) (epIsoIn : Option EpInfo) (alts : List Setting)
    (dir attr : BitVec 8) (pktSz : Int) :
    VideoLaw p video (bestAlt p video) ∧
    ((uvcSelectAltInterface found setInterface epIsoIn p video).1 ≠ 0 →
      found = false ∨ (∀ a ∈ video, ¬ Fits a) ∨ epIsoIn = none ∨
        ∃ a ∈ bestAlt p video, setInterface a.altNo ≠ 0) ∧
    (AudioLaw alts (Wanted dir attr) (fun e e' => size e' ≤ size e) (AtPlace alts)
        (uacFindMaxAlt alts dir attr) ↔ Within alts (Wanted dir attr) (fun e => 0 < size e)) ∧
    (AudioLaw alts (Wanted dir attr) (fun e e' => size e' ≤ size e) (OfNumber alts)
        (uacFindMaxAlt alts dir attr) ↔
      Within alts (Wanted dir attr) (fun e => 0 < size e) ∧
        Numbered alts (Best alts (Wanted dir attr) fun e e' => size e' ≤ size e)) ∧
    (AudioLaw alts (WantedFrom dir attr pktSz) (fun e e' => size e ≤ size e') (AtPlace alts)
        (uacFindBestAlt alts dir attr pktSz) ↔
      Within alts (WantedFrom dir attr pktSz) (fun e => size e < 0xffff)) ∧
    (AudioLaw alts (WantedFrom dir attr pktSz) (fun e e' => size e ≤ size e') (OfNumber alts)
        (uacFindBestAlt alts dir attr pktSz) ↔
      Within alts (WantedFrom dir attr pktSz) (fun e => size e < 0xffff) ∧
        Numbered alts (Best alts (WantedFrom dir attr pktSz) fun e e' => size e ≤ size e')) := by
  have hspan : ∀ e e' : EpInfo, size e' ≤ size e ↔ bySpan e ≤ bySpan e' := fun _ _ => Iff.rfl
  have hmax : ∀ e e' : EpInfo, 0 < size e → ¬ 0 < size e' → bySpan e < bySpan e' := fun e e' h h' =>
    show size e' < size e by omega
  have hmin : ∀ e e' : EpInfo, size e < 0xffff → ¬ size e' < 0xffff → size e < size e' :=
    fun _ _ h h' => by omega
  have hsize : ∀ e e' : EpInfo, size e ≤ size e' ↔ size e ≤ size e' := fun _ _ => Iff.rfl
  have hvideo := bestAlt_law p video
  refine ⟨hvideo, fun hret => ?_, placeLaw_iff hspan hmax uacFindMaxAlt_chosen,
    numberLaw_iff hspan hmax uacFindMaxAlt_chosen, placeLaw_iff hsize hmin uacFindBestAlt_chosen,
    numberLaw_iff hsize hmin uacFindBestAlt_chosen⟩
  by_cases hfound : found = false
  · exact .inl hfound
  · unfold uvcSelectAltInterface at hret
    rw [if_neg hfound] at hret
    cases hbest : bestAlt p video with
    | none =>
      rw [hbest] at hvideo
      exact .inr (.inl hvideo)
    | some a =>
      rw [hbest] at hret
      by_cases hset : setInterface a.altNo ≠ 0
      · exact .inr (.inr (.inr ⟨a, rfl, hset⟩))
      · cases epIsoIn with
        | none => exact .inr (.inr (.inl rfl))
        | some e => exact absurd (by simp [not_not.mp hset]) hret

/-- One setting with one isochronous endpoint -/
def oneEndpoint (wMaxPacketSize : BitVec 16) : List Setting :=
  [⟨0, [⟨0x81, 0x01, 1, wMaxPacketSize⟩]⟩]

/-- An endpoint without bandwidth is not found, and neither is one of the greatest size. -/
theorem not_altSetting_law_bounds :
    ¬ AudioLaw (oneEndpoint 0) (Wanted 0x80 0x01) (fun e e' => size e' ≤ size e)
        (AtPlace (oneEndpoint 0)) (uacFindMaxAlt (oneEndpoint 0) 0x80 0x01) ∧
      ¬ AudioLaw (oneEndpoint 0xffff) (WantedFrom 0x80 0x01 100) (fun e e' => size e ≤ size e')
        (AtPlace (oneEndpoint 0xffff)) (uacFindBestAlt (oneEndpoint 0xffff) 0x80 0x01 100) := by
  constructor
  · intro h
    exact h ⟨0, [⟨0x81, 0x01, 1, 0⟩]⟩ List.mem_cons_self ⟨0x81, 0x01, 1, 0⟩ List.mem_cons_self
      ⟨by decide, by decide⟩
  · intro h
    exact h ⟨0, [⟨0x81, 0x01, 1, 0xffff⟩]⟩ List.mem_cons_self ⟨0x81, 0x01, 1, 0xffff⟩
      List.mem_cons_self ⟨⟨by decide, by decide⟩, by decide⟩

end Ma35d1.UsbHost.AltSetting
