import Mathlib.Data.List.TakeWhile
import Ma35d1.UsbHost.Uac.Parser

/-!
# When parsing an audio device is safe

The descriptors that a walk comes by form a chain, each as far behind the one before as its length
byte says. `seek` and `walk` are safe when no descriptor of the chain ends behind the configuration,
up to the one at which they stop.
-/

namespace Ma35d1.UsbHost.Uac

open Ma35d1.UsbHost.Core (Buf bLength bDescriptorType bNumEndpoints wTotalLength nextDesc
  usbDtInterface usbDtEndpoint)

/-! ## Chains -/

/-- The descriptors from `p` on that have `n` bytes in front of `w`, up to one without a length -/
def chain (b : Buf) (w n p : Nat) : List Nat :=
  if _h : p < w ∧ p + n ≤ w then
    p :: if _h0 : bLength b p = 0 then [] else chain b w n (nextDesc b p)
  else []
termination_by w - p
decreasing_by
  unfold nextDesc
  omega

/-- The fields of the descriptor are as they should be. -/
def Matches (b : Buf) (fields : Fields) (p : Nat) : Bool := fields.all fun f => f.2 (b (p + f.1))

def Differs (b : Buf) (fields : Fields) (p : Nat) : Bool := !Matches b fields p

/-- No descriptor that `seek` steps over ends behind `w`. -/
def SeekFits (b : Buf) (w : Nat) (fields : Fields) (p : Nat) : Prop :=
  p ≤ w ∧ ∀ q ∈ (chain b w sizeofDescIf p).takeWhile (Differs b fields), nextDesc b q ≤ w

instance (b : Buf) (w : Nat) (fields : Fields) (p : Nat) : Decidable (SeekFits b w fields p) :=
  inferInstanceAs (Decidable (_ ∧ ∀ q ∈ List.takeWhile _ _, _ ≤ _))

/-- The first descriptor from `p` on with these fields -/
def found (b : Buf) (w : Nat) (fields : Fields) (p : Nat) : Option Nat :=
  (chain b w sizeofDescIf p).find? (Matches b fields)

def HasType (b : Buf) (types : BitVec 8 → Bool) (p : Nat) : Bool := types (bDescriptorType b p)

/-- The descriptors from `p` on as long as they are of the given types -/
def descs (b : Buf) (w : Nat) (types : BitVec 8 → Bool) (p : Nat) : List Nat :=
  (chain b w (sizeofDescHdr + 1) p).takeWhile (HasType b types)

/-- No descriptor that `walk` hands on ends behind `w`, and what is read of it is there. -/
def WalkFits (b : Buf) (w : Nat) (types : BitVec 8 → Bool) (known : Nat → Bool)
    (whole : Nat → Prop) (p : Nat) : Prop :=
  p ≤ w ∧ ∀ q ∈ (descs b w types p).takeWhile known, whole q ∧ nextDesc b q ≤ w

instance (b : Buf) (w : Nat) (types : BitVec 8 → Bool) (known : Nat → Bool) (whole : Nat → Prop)
    [DecidablePred whole] (p : Nat) : Decidable (WalkFits b w types known whole p) :=
  inferInstanceAs (Decidable (_ ∧ ∀ q ∈ List.takeWhile _ _, _ ∧ _))

/-- `walk` gets through all of them. -/
def Through (b : Buf) (known : Nat → Bool) (l : List Nat) : Prop :=
  ∀ q ∈ l, known q = true ∧ bLength b q ≠ 0

instance (b : Buf) (known : Nat → Bool) (l : List Nat) : Decidable (Through b known l) :=
  inferInstanceAs (Decidable (∀ q ∈ l, _ ∧ _))

section Walks

variable {b : Buf} {w n p : Nat} {fields : Fields} {types : BitVec 8 → Bool}

theorem chain_nil (h : ¬ (p < w ∧ p + n ≤ w)) : chain b w n p = [] := by
  rw [chain, dif_neg h]

theorem chain_last (h : p < w ∧ p + n ≤ w) (h0 : bLength b p = 0) : chain b w n p = [p] := by
  rw [chain, dif_pos h, dif_pos h0]

theorem chain_cons (h : p < w ∧ p + n ≤ w) (h0 : bLength b p ≠ 0) :
    chain b w n p = p :: chain b w n (nextDesc b p) := by
  rw [chain, dif_pos h, dif_neg h0]

theorem nextDesc_of_zero (h0 : bLength b p = 0) : nextDesc b p = p := by
  rw [nextDesc, h0, Nat.add_zero]

theorem fieldsAre_eq (h : ∀ f ∈ fields, p + f.1 < w) :
    fieldsAre b w p fields = some (Matches b fields p) := by
  induction fields with
  | nil => rfl
  | cons f fields ih =>
    obtain ⟨k, is⟩ := f
    have hk : p + k < w := h (k, is) List.mem_cons_self
    have hrest := ih fun f hf => h f (List.mem_cons_of_mem _ hf)
    show (if p + k < w then _ else none) = some (is (b (p + k)) && Matches b fields p)
    rw [if_pos hk, hrest]
    cases is (b (p + k)) <;> rfl

theorem fieldsAre_none (hne : fields ≠ []) (h : w ≤ p) : fieldsAre b w p fields = none := by
  cases fields with
  | nil => exact absurd rfl hne
  | cons f fields => rw [fieldsAre, if_neg (by omega)]

theorem seek_short (hp : p ≤ w) (h : ¬ (p < w ∧ p + sizeofDescIf ≤ w)) :
    seek b w fields p = some none := by
  rw [seek, if_neg]
  unfold AtLeast sizeofDescIf at *
  omega

theorem seek_behind (hne : fields ≠ []) (hp : w < p) : seek b w fields p = none := by
  rw [seek, fieldsAre_none hne hp.le]
  exact if_pos (Or.inl (by omega))

theorem seek_at (hk : ∀ f ∈ fields, f.1 < sizeofDescIf) (h : p < w ∧ p + sizeofDescIf ≤ w) :
    seek b w fields p =
      if Matches b fields p then some (some p)
      else if bLength b p = 0 then some none else seek b w fields (nextDesc b p) := by
  have hsize : AtLeast ((w : Int) - p) sizeofDescIf := .inr (by omega)
  rw [seek, if_pos hsize, fieldsAre_eq fun f hf => by
    have hlt := hk f hf
    omega]
  cases Matches b fields p with
  | true => rfl
  | false =>
    simp only [dif_pos h.1, Bool.false_eq_true, if_false]
    split <;> rfl

/-- `seek` looks for fields that every interface descriptor has. -/
theorem seek_eq (hne : fields ≠ []) (hk : ∀ f ∈ fields, f.1 < sizeofDescIf) :
    seek b w fields p = if SeekFits b w fields p then some (found b w fields p) else none := by
  induction p using chain.induct b w sizeofDescIf with
  | case1 p h ih =>
    rw [seek_at hk h]
    by_cases hm : Matches b fields p = true
    · have hfits : SeekFits b w fields p := by
        refine ⟨h.1.le, fun q hq => ?_⟩
        rw [chain, dif_pos h, List.takeWhile_cons_of_neg (by rw [Differs, hm]; decide)] at hq
        exact absurd hq List.not_mem_nil
      rw [if_pos hm, if_pos hfits, found, chain, dif_pos h, List.find?_cons_of_pos hm]
    rw [if_neg hm]
    have hnot : Differs b fields p = true := by simpa [Differs] using hm
    by_cases h0 : bLength b p = 0
    · have hfits : SeekFits b w fields p := by
        refine ⟨h.1.le, fun q hq => ?_⟩
        rw [chain_last h h0, List.takeWhile_cons_of_pos hnot, List.takeWhile_nil] at hq
        rw [List.mem_singleton.mp hq, nextDesc_of_zero h0]
        exact h.1.le
      rw [if_pos h0, if_pos hfits, found, chain_last h h0, List.find?_cons_of_neg hm, List.find?_nil]
    · have hfits : SeekFits b w fields p ↔ SeekFits b w fields (nextDesc b p) := by
        unfold SeekFits
        rw [chain_cons h h0, List.takeWhile_cons_of_pos hnot, List.forall_mem_cons]
        exact and_iff_right h.1.le
      rw [if_neg h0, ih h0, found, found, chain_cons h h0, List.find?_cons_of_neg hm]
      exact if_congr hfits.symm rfl rfl
  | case2 p h =>
    by_cases hp : p ≤ w
    · have hfits : SeekFits b w fields p := by
        refine ⟨hp, fun q hq => ?_⟩
        rw [chain_nil h] at hq
        exact absurd hq List.not_mem_nil
      rw [seek_short hp h, if_pos hfits, found, chain_nil h, List.find?_nil]
    · rw [seek_behind hne (by omega), if_neg fun hfits => hp hfits.1]

/-- What `walk` is told of a descriptor -/
def ParseIs (w : Nat) {σ : Type} (parse : σ → Nat → Option (Int × σ)) (known : Nat → Bool)
    (whole : Nat → Prop) [DecidablePred whole] (next : σ → Nat → σ) : Prop :=
  ∀ s q, q + 3 ≤ w → parse s q =
    if known q then if whole q then some (0, next s q) else none else some (uacRetParser, s)

variable {σ : Type} {parse : σ → Nat → Option (Int × σ)} {known : Nat → Bool}
  {whole : Nat → Prop} [DecidablePred whole] {next : σ → Nat → σ} {s : σ}

theorem walk_short (hp : p ≤ w) (h : ¬ (p < w ∧ p + (sizeofDescHdr + 1) ≤ w)) :
    walk b w types parse s p = some (0, s) := by
  rw [walk, if_neg]
  unfold AtLeast sizeofDescHdr at *
  omega

theorem walk_behind (hp : w < p) : walk b w types parse s p = none := by
  have hsize : AtLeast ((w : Int) - p) (sizeofDescHdr + 1) := .inl (by omega)
  rw [walk, if_pos hsize, dif_neg (by omega)]

theorem walk_at (hparse : ParseIs w parse known whole next)
    (h : p < w ∧ p + (sizeofDescHdr + 1) ≤ w) :
    walk b w types parse s p =
      if HasType b types p then
        if known p then
          if whole p then
            if bLength b p = 0 then some (uacRetParser, next s p)
            else walk b w types parse (next s p) (nextDesc b p)
          else none
        else some (uacRetParser, s)
      else some (0, s) := by
  have hsize : AtLeast ((w : Int) - p) (sizeofDescHdr + 1) := .inr (by omega)
  have hin : p + 1 < w := by
    unfold sizeofDescHdr at h
    omega
  have hneg : uacRetParser < 0 := by decide
  rw [walk, if_pos hsize, dif_pos hin, hparse s p h.2]
  show (if HasType b types p = true then _ else _) = _
  by_cases ht : HasType b types p = true
  · by_cases hknown : known p = true
    · by_cases hw : whole p
      · simp only [ht, hknown, hw, if_true, lt_self_iff_false, if_false]
        split <;> rfl
      · simp only [ht, hknown, hw, if_true, if_false]
    · simp only [ht, hknown, hneg, Bool.false_eq_true, if_true, if_false]
  · simp only [ht, Bool.false_eq_true, if_false]

/-- `walk` hands on the descriptors as long as they are known. -/
theorem walk_eq (hparse : ParseIs w parse known whole next) :
    walk b w types parse s p =
      if WalkFits b w types known whole p then
        some (if Through b known (descs b w types p) then 0 else uacRetParser,
          ((descs b w types p).takeWhile known).foldl next s)
      else none := by
  induction p using chain.induct b w (sizeofDescHdr + 1) generalizing s with
  | case1 p h ih =>
    rw [walk_at hparse h]
    by_cases ht : HasType b types p = true
    · rw [if_pos ht]
      by_cases hknown : known p = true
      · rw [if_pos hknown]
        by_cases h0 : bLength b p = 0
        · have hdescs : descs b w types p = [p] := by
            rw [descs, chain_last h h0, List.takeWhile_cons_of_pos ht, List.takeWhile_nil]
          have hfits : WalkFits b w types known whole p ↔ whole p := by
            unfold WalkFits
            rw [hdescs, List.takeWhile_cons_of_pos hknown, List.takeWhile_nil,
              List.forall_mem_singleton, nextDesc_of_zero h0]
            exact ⟨fun hf => hf.2.1, fun hf => ⟨h.1.le, hf, h.1.le⟩⟩
          have hend : ¬ Through b known [p] := fun ht => (ht p (List.mem_singleton_self p)).2 h0
          rw [hdescs, if_neg hend, List.takeWhile_cons_of_pos hknown, List.takeWhile_nil, if_pos h0]
          exact if_congr hfits.symm rfl rfl
        · have hdescs : descs b w types p = p :: descs b w types (nextDesc b p) := by
            rw [descs, chain_cons h h0, List.takeWhile_cons_of_pos ht, descs]
          have hfits : WalkFits b w types known whole p ↔
              whole p ∧ WalkFits b w types known whole (nextDesc b p) := by
            unfold WalkFits
            rw [hdescs, List.takeWhile_cons_of_pos hknown, List.forall_mem_cons]
            exact ⟨fun hf => ⟨hf.2.1.1, hf.2.1.2, hf.2.2⟩, fun hf => ⟨h.1.le, ⟨hf.1, hf.2.1⟩, hf.2.2⟩⟩
          have hthrough : Through b known (p :: descs b w types (nextDesc b p)) ↔
              Through b known (descs b w types (nextDesc b p)) := by
            unfold Through
            rw [List.forall_mem_cons]
            exact and_iff_right ⟨hknown, h0⟩
          rw [hdescs, List.takeWhile_cons_of_pos hknown, List.foldl_cons, if_neg h0, ih h0]
          by_cases hw : whole p
          · rw [if_pos hw]
            refine if_congr (hfits.trans (and_iff_right hw)).symm ?_ rfl
            rw [if_congr hthrough.symm rfl rfl]
          · rw [if_neg hw, if_neg fun hf => hw (hfits.mp hf).1]
      · have hdescs : ∃ l, descs b w types p = p :: l := by
          rw [descs, chain, dif_pos h, List.takeWhile_cons_of_pos ht]
          exact ⟨_, rfl⟩
        obtain ⟨l, hdescs⟩ := hdescs
        have hfits : WalkFits b w types known whole p := by
          refine ⟨h.1.le, fun q hq => ?_⟩
          rw [hdescs, List.takeWhile_cons_of_neg hknown] at hq
          exact absurd hq List.not_mem_nil
        have hend : ¬ Through b known (p :: l) := fun ht => hknown (ht p List.mem_cons_self).1
        rw [if_neg hknown, if_pos hfits, hdescs, if_neg hend, List.takeWhile_cons_of_neg hknown,
          List.foldl_nil]
    · have hdescs : descs b w types p = [] := by
        rw [descs, chain, dif_pos h, List.takeWhile_cons_of_neg ht]
      have hfits : WalkFits b w types known whole p := by
        refine ⟨h.1.le, fun q hq => ?_⟩
        rw [hdescs] at hq
        exact absurd hq List.not_mem_nil
      have hend : Through b known [] := fun q hq => absurd hq List.not_mem_nil
      rw [if_neg ht, if_pos hfits, hdescs, if_pos hend, List.takeWhile_nil, List.foldl_nil]
  | case2 p h =>
    have hdescs : descs b w types p = [] := by rw [descs, chain_nil h, List.takeWhile_nil]
    by_cases hp : p ≤ w
    · have hfits : WalkFits b w types known whole p := by
        refine ⟨hp, fun q hq => ?_⟩
        rw [hdescs] at hq
        exact absurd hq List.not_mem_nil
      have hend : Through b known [] := fun q hq => absurd hq List.not_mem_nil
      rw [walk_short hp h, if_pos hfits, hdescs, if_pos hend, List.takeWhile_nil, List.foldl_nil]
    · rw [walk_behind (by omega), if_neg fun hfits => hp hfits.1]

/-- A field of the state holds what the last of the descriptors that set it has. -/
theorem foldl_last {β : Type} (kind : Nat → Bool) (f : Nat → β) (field : σ → β)
    (hfield : ∀ s q, field (next s q) = if kind q then f q else field s) (l : List Nat) (s : σ) :
    field (l.foldl next s) = ((l.filter kind).getLast?).elim (field s) f := by
  induction l generalizing s with
  | nil => rfl
  | cons q l ih =>
    rw [List.foldl_cons, ih, hfield]
    by_cases hq : kind q = true
    · rw [List.filter_cons_of_pos hq, List.getLast?_cons, if_pos hq]
      cases (l.filter kind).getLast? <;> rfl
    · rw [List.filter_cons_of_neg hq, if_neg hq]

/-- What `walk` comes by lies behind its start, with descriptors of the types in between. -/
theorem exists_iterate {q : Nat} (h : q ∈ descs b w types p) :
    HasType b types q = true ∧ ∃ k, q = (nextDesc b)^[k] p ∧
      ∀ j < k, HasType b types ((nextDesc b)^[j] p) = true := by
  induction p using chain.induct b w (sizeofDescHdr + 1) with
  | case1 p hp ih =>
    by_cases ht : HasType b types p = true
    · rw [descs, chain, dif_pos hp, List.takeWhile_cons_of_pos ht] at h
      rcases List.mem_cons.mp h with rfl | h
      · exact ⟨ht, 0, rfl, fun j hj => absurd hj (Nat.not_lt_zero j)⟩
      by_cases h0 : bLength b p = 0
      · rw [dif_pos h0] at h
        exact absurd h List.not_mem_nil
      rw [dif_neg h0] at h
      obtain ⟨hq, k, rfl, hbetween⟩ := ih h0 h
      refine ⟨hq, k + 1, rfl, fun j hj => ?_⟩
      cases j with
      | zero => exact ht
      | succ j => exact hbetween j (Nat.lt_of_succ_lt_succ hj)
    · rw [descs, chain, dif_pos hp, List.takeWhile_cons_of_neg ht] at h
      exact absurd h List.not_mem_nil
  | case2 p hp =>
    rw [descs, chain_nil hp] at h
    exact absurd h List.not_mem_nil

end Walks

/-! ## The control interface -/

/-- What `uac_parse_ac_interface` reads of the descriptor is there. -/
def AcWhole (b : Buf) (w p : Nat) : Prop :=
  (bDescriptorSubtype b p = inputTerminal → p + 6 ≤ w) ∧
    (bDescriptorSubtype b p = outputTerminal → p + 6 ≤ w ∧
      (wTerminalType b p ≠ uacTtUsbStreaming → wTerminalType b p &&& 0x300 = 0x300 → p + 8 ≤ w))

instance (b : Buf) (w : Nat) : DecidablePred (AcWhole b w) := fun _ =>
  inferInstanceAs (Decidable ((_ → _) ∧ (_ → _ ∧ (_ → _ → _))))

def acKnown (b : Buf) (p : Nat) : Bool := bDescriptorSubtype b p ≤ extensionUnit

/-- The descriptor is a microphone's. -/
def isMicrophone (b : Buf) (p : Nat) : Bool :=
  bDescriptorSubtype b p = inputTerminal ∧ wTerminalType b p ≠ uacTtUsbStreaming ∧
    wTerminalType b p &&& 0x200 = 0x200

def isSpeaker (b : Buf) (p : Nat) : Bool :=
  bDescriptorSubtype b p = outputTerminal ∧ wTerminalType b p ≠ uacTtUsbStreaming ∧
    wTerminalType b p &&& 0x300 = 0x300

/-- What the descriptor adds -/
def acNext (b : Buf) (acif : AcIf) (p : Nat) : AcIf :=
  if isMicrophone b p then { acif with micId := bTerminalID b p }
  else if isSpeaker b p then
    { acif with speakerId := bTerminalID b p, speakerFuid := bSourceID b p }
  else acif

/-- The descriptors of the control interface whose descriptor is at `i` -/
def acDescs (b : Buf) (i : Nat) : List Nat :=
  descs b (wTotalLength b) (· == csInterface) (nextDesc b i)

/-- The microphone of the control interface at `i` -/
def micId (b : Buf) (i : Nat) : BitVec 8 :=
  (((acDescs b i).filter (isMicrophone b)).getLast?).elim 0 (bTerminalID b)

/-- No descriptor ends behind the configuration, and the terminals of the control interface are
whole. -/
def ControlFits (b : Buf) (ifNum : BitVec 8) : Prop :=
  3 < wTotalLength b ∧ SeekFits b (wTotalLength b) (acInterfaceFields ifNum) (bLength b 0) ∧
    ∀ i ∈ found b (wTotalLength b) (acInterfaceFields ifNum) (bLength b 0),
      WalkFits b (wTotalLength b) (· == csInterface) (acKnown b) (AcWhole b (wTotalLength b))
        (nextDesc b i) ∧
      (Through b (acKnown b) (acDescs b i) →
        SeekFits b (wTotalLength b) (featureUnitFields (micId b i)) (bLength b 0))

/-- `uac_parse_control_interface` ends, and reads nothing behind the configuration. -/
def ControlSafe (b : Buf) (ifNum : BitVec 8) : Prop := (uacParseControlInterface b ifNum).isSome

section Control

variable {b : Buf} {w i : Nat} {ifNum : BitVec 8}

theorem isMicrophone_iff {p : Nat} : isMicrophone b p = true ↔ bDescriptorSubtype b p = inputTerminal ∧
    wTerminalType b p ≠ uacTtUsbStreaming ∧ wTerminalType b p &&& 0x200 = 0x200 := decide_eq_true_iff

theorem isSpeaker_iff {p : Nat} : isSpeaker b p = true ↔ bDescriptorSubtype b p = outputTerminal ∧
    wTerminalType b p ≠ uacTtUsbStreaming ∧ wTerminalType b p &&& 0x300 = 0x300 := decide_eq_true_iff

theorem acNext_other {acif : AcIf} {p : Nat} (hit : bDescriptorSubtype b p ≠ inputTerminal)
    (hot : bDescriptorSubtype b p ≠ outputTerminal) : acNext b acif p = acif := by
  rw [acNext, if_neg (by simp [isMicrophone, hit]), if_neg (by simp [isSpeaker, hot])]

theorem parseIs_ac : ParseIs w (uacParseAcInterface b w) (acKnown b) (AcWhole b w) (acNext b) := by
  intro acif q hq
  have hno : outputTerminal ≠ inputTerminal := by decide
  rw [uacParseAcInterface, if_pos (by omega)]
  by_cases hit : bDescriptorSubtype b q = inputTerminal
  · have hot : bDescriptorSubtype b q ≠ outputTerminal := fun h => hno (h.symm.trans hit)
    have hknown : acKnown b q = true := by
      rw [acKnown, hit]
      decide
    have hwhole : AcWhole b w q ↔ q + 5 < w :=
      ⟨fun h => h.1 hit, fun h => ⟨fun _ => h, fun h => absurd h hot⟩⟩
    rw [if_pos hit, if_pos hknown, if_congr hwhole rfl rfl]
    refine if_congr Iff.rfl ?_ rfl
    have hspeaker : isSpeaker b q = false := by simp [isSpeaker, hot]
    by_cases hstream : wTerminalType b q = uacTtUsbStreaming
    · rw [if_pos hstream, acNext, if_neg (by simp [isMicrophone, hstream]), hspeaker]
      rfl
    · by_cases hmic : wTerminalType b q &&& 0x200 = 0x200
      · rw [if_neg hstream, if_pos hmic, acNext, if_pos (isMicrophone_iff.mpr ⟨hit, hstream, hmic⟩)]
      · rw [if_neg hstream, if_neg hmic, acNext, if_neg fun h => hmic (isMicrophone_iff.mp h).2.2, hspeaker]
        rfl
  by_cases hot : bDescriptorSubtype b q = outputTerminal
  · have hknown : acKnown b q = true := by
      rw [acKnown, hot]
      decide
    have hmic : isMicrophone b q = false := by simp [isMicrophone, hit]
    rw [if_neg hit, if_pos hot, if_pos hknown]
    by_cases h5 : q + 5 < w
    · rw [if_pos h5]
      by_cases hstream : wTerminalType b q = uacTtUsbStreaming
      · have hwhole : AcWhole b w q := ⟨fun h => absurd h hit, fun _ => ⟨h5, fun h => absurd hstream h⟩⟩
        rw [if_pos hstream, if_pos hwhole, acNext, hmic, if_neg Bool.false_ne_true,
          if_neg (by simp [isSpeaker, hstream])]
      by_cases hspeaker : wTerminalType b q &&& 0x300 = 0x300
      · have hwhole : AcWhole b w q ↔ q + 7 < w :=
          ⟨fun h => (h.2 hot).2 hstream hspeaker,
            fun h => ⟨fun h => absurd h hit, fun _ => ⟨h5, fun _ _ => h⟩⟩⟩
        rw [if_neg hstream, if_pos hspeaker, if_congr hwhole rfl rfl]
        refine if_congr Iff.rfl ?_ rfl
        rw [acNext, hmic, if_neg Bool.false_ne_true,
          if_pos (isSpeaker_iff.mpr ⟨hot, hstream, hspeaker⟩)]
      · have hwhole : AcWhole b w q :=
          ⟨fun h => absurd h hit, fun _ => ⟨h5, fun _ h => absurd h hspeaker⟩⟩
        rw [if_neg hstream, if_neg hspeaker, if_pos hwhole, acNext, hmic, if_neg Bool.false_ne_true,
          if_neg fun h => hspeaker (isSpeaker_iff.mp h).2.2]
    · rw [if_neg h5, if_neg fun h => h5 (h.2 hot).1]
  · have hwhole : AcWhole b w q := ⟨fun h => absurd h hit, fun h => absurd h hot⟩
    rw [if_neg hit, if_neg hot, acNext_other hit hot, if_pos hwhole, acKnown]
    exact if_congr decide_eq_true_iff.symm rfl rfl

theorem seek_acInterface {p : Nat} : seek b w (acInterfaceFields ifNum) p =
    if SeekFits b w (acInterfaceFields ifNum) p then
      some (found b w (acInterfaceFields ifNum) p) else none :=
  seek_eq (List.cons_ne_nil _ _) (by simp [acInterfaceFields, sizeofDescIf])

theorem seek_featureUnit {id : BitVec 8} {p : Nat} : seek b w (featureUnitFields id) p =
    if SeekFits b w (featureUnitFields id) p then
      some (found b w (featureUnitFields id) p) else none :=
  seek_eq (List.cons_ne_nil _ _) (by simp [featureUnitFields, sizeofDescIf])

theorem microphone_isSome {acif : AcIf} : (uacSetMicrophoneFeatureUnit b acif).isSome ↔
    SeekFits b (wTotalLength b) (featureUnitFields acif.micId) (bLength b 0) := by
  rw [uacSetMicrophoneFeatureUnit, seek_featureUnit]
  split_ifs with h
  · refine iff_of_true ?_ h
    cases found b (wTotalLength b) (featureUnitFields acif.micId) (bLength b 0) <;> rfl
  · exact iff_of_false (by simp) h

theorem micId_foldl (l : List Nat) : (l.foldl (acNext b) .zero).micId =
    ((l.filter (isMicrophone b)).getLast?).elim 0 (bTerminalID b) := by
  refine foldl_last (isMicrophone b) (bTerminalID b) AcIf.micId (fun acif q => ?_) l .zero
  unfold acNext
  split_ifs <;> rfl

theorem takeWhile_of_through {known : Nat → Bool} {l : List Nat} (h : Through b known l) :
    l.takeWhile known = l := List.takeWhile_eq_self_iff.mpr fun q hq => (h q hq).1

theorem controlSafe_iff : ControlSafe b ifNum ↔ ControlFits b ifNum := by
  unfold ControlSafe ControlFits uacParseControlInterface
  by_cases hw : 3 < wTotalLength b
  swap
  · simp [hw]
  simp only [hw, if_true, true_and]
  rw [seek_acInterface]
  by_cases hseek : SeekFits b (wTotalLength b) (acInterfaceFields ifNum) (bLength b 0)
  swap
  · simp [hseek]
  rw [if_pos hseek]
  cases hfound : found b (wTotalLength b) (acInterfaceFields ifNum) (bLength b 0) with
  | none => simp [hseek]
  | some i =>
    simp only [hseek, true_and, Option.mem_some_iff, forall_eq']
    rw [walk_eq parseIs_ac]
    by_cases hwalk : WalkFits b (wTotalLength b) (· == csInterface) (acKnown b)
        (AcWhole b (wTotalLength b)) (nextDesc b i)
    swap
    · simp [hwalk]
    have hneg : uacRetParser < 0 := by decide
    rw [if_pos hwalk, ← acDescs]
    by_cases hthrough : Through b (acKnown b) (acDescs b i)
    · rw [if_pos hthrough, takeWhile_of_through hthrough]
      simp only [lt_self_iff_false, if_false, Option.isSome_map, microphone_isSome, micId_foldl]
      exact ⟨fun h => ⟨hwalk, fun _ => h⟩, fun h => h.2 hthrough⟩
    · rw [if_neg hthrough]
      simp only [hneg, if_true, Option.isSome_some]
      exact iff_of_true trivial ⟨hwalk, fun h => absurd h hthrough⟩

end Control

/-! ## A streaming interface -/

/-- `AS_GEN_T`, `CS_EP_T`, `AC_IT_T` and `AC_OT_T`, and `AS_FT1_T` up to its frequencies -/
def sizeofAsGen : Nat := 7
def sizeofCsEp : Nat := 7
def sizeofAcIt : Nat := 12
def sizeofAcOt : Nat := 9
def sizeofAsFt1 : Nat := 8

/-- The descriptor, with its first `n` bytes, lies inside the configuration. -/
def Inside (b : Buf) (n p : Nat) : Prop := p + n ≤ wTotalLength b ∧ nextDesc b p ≤ wTotalLength b

/-- The descriptor lies between the interface descriptor of the setting and the next one. -/
def Own (b : Buf) (ifNum bAlternateSetting : BitVec 8) (p : Nat) : Prop :=
  bDescriptorType b p ≠ usbDtInterface ∧ ∃ i,
    found b (wTotalLength b) (asInterfaceFields ifNum bAlternateSetting) (bLength b 0) = some i ∧
      Core.Follows b i p

/-- What the pointers to descriptors should be -/
structure AsIf.Sound (b : Buf) (ifNum bAlternateSetting : BitVec 8) (asif : AsIf) : Prop where
  asGen : ∀ p ∈ asif.asGen, Inside b sizeofAsGen p ∧ Own b ifNum bAlternateSetting p
  ft : ∀ p ∈ asif.ft, Inside b sizeofAsFt1 p ∧ Own b ifNum bAlternateSetting p
  csEpd : ∀ p ∈ asif.csEpd, Inside b sizeofCsEp p ∧ Own b ifNum bAlternateSetting p
  it : ∀ p ∈ asif.it, Inside b sizeofAcIt p
  ot : ∀ p ∈ asif.ot, Inside b sizeofAcOt p

/-- The pointers that the parser stores -/
def StreamParse.kept : StreamParse → Option AsIf
  | .failed | .idle => none
  | .asifIn asif | .asifOut asif => some asif

/-- `uac_parse_streaming_interface` ends, reads nothing behind the configuration, and stores what it
should. -/
def StreamSafe (b : Buf) (iface : AudioIface) (bAlternateSetting : BitVec 8) : Prop :=
  ∃ r, uacParseStreamingInterface b iface bAlternateSetting = some r ∧
    ∀ asif ∈ r.kept, asif.Sound b iface.ifNum bAlternateSetting

def asKnown (b : Buf) (aif : List EpInfo) (p : Nat) : Bool :=
  if bDescriptorType b p = usbDtEndpoint then aif.any fun ep => ep.bEndpointAddress == b (p + 2)
  else bDescriptorType b p = csEndpoint ∨ bDescriptorSubtype b p ≤ formatSpecific

def isCsEndpoint (b : Buf) (p : Nat) : Bool := bDescriptorType b p = csEndpoint

/-- A class-specific descriptor of the interface with the given subtype -/
def isAs (b : Buf) (subtype : BitVec 8) (p : Nat) : Bool :=
  bDescriptorType b p ≠ usbDtEndpoint ∧ bDescriptorType b p ≠ csEndpoint ∧
    bDescriptorSubtype b p = subtype

/-- What the descriptor adds -/
def asNext (b : Buf) (aif : List EpInfo) (asif : AsIf) (p : Nat) : AsIf :=
  if bDescriptorType b p = usbDtEndpoint then
    { asif with ep := aif.find? fun ep => ep.bEndpointAddress == b (p + 2) }
  else if isCsEndpoint b p then { asif with csEpd := some p }
  else if isAs b asGeneral p then { asif with asGen := some p }
  else if isAs b formatType p then { asif with ft := some p }
  else asif

/-- The descriptors of the setting whose interface descriptor is at `i` -/
def asDescs (b : Buf) (i : Nat) : List Nat := descs b (wTotalLength b) asTypes (nextDesc b i)

/-- The last of them of a kind -/
def lastDesc (b : Buf) (i : Nat) (kind : Nat → Bool) : Option Nat :=
  ((asDescs b i).filter kind).getLast?

/-- The last descriptors of their kinds are whole, and so is the terminal that the general one links
to, which `uac_find_terminal` has to get to. -/
structure StoredFit (b : Buf) (iface : AudioIface) (i g : Nat) : Prop where
  asGen : g + sizeofAsGen ≤ wTotalLength b
  ft : ∀ p ∈ lastDesc b i (isAs b formatType), p + sizeofAsFt1 ≤ wTotalLength b
  csEpd : ∀ p ∈ lastDesc b i (isCsEndpoint b), p + sizeofCsEp ≤ wTotalLength b
  link : SeekFits b (wTotalLength b) (terminalFields (bTerminalLink b g)) (bLength b 0)
  terminal : ∀ t ∈ found b (wTotalLength b) (terminalFields (bTerminalLink b g)) (bLength b 0),
    nextDesc b t ≤ wTotalLength b ∧
      (iface.haveIsoEp epAddrDirIn = false → t + sizeofAcIt ≤ wTotalLength b)

def StreamFits (b : Buf) (iface : AudioIface) (bAlternateSetting : BitVec 8) : Prop :=
  3 < wTotalLength b ∧
    SeekFits b (wTotalLength b) (asInterfaceFields iface.ifNum bAlternateSetting) (bLength b 0) ∧
    ∀ i ∈ found b (wTotalLength b) (asInterfaceFields iface.ifNum bAlternateSetting) (bLength b 0),
      bNumEndpoints b i ≠ 0 →
        WalkFits b (wTotalLength b) asTypes (asKnown b iface.aif) (fun _ => True) (nextDesc b i) ∧
        (Through b (asKnown b iface.aif) (asDescs b i) →
          (iface.haveIsoEp epAddrDirIn = true ∨ iface.haveIsoEp 0 = true) →
            ∀ g ∈ lastDesc b i (isAs b asGeneral), StoredFit b iface i g)

section Stream

variable {b : Buf} {w i : Nat} {aif : List EpInfo} {iface : AudioIface} {alt : BitVec 8}

theorem isAs_iff {subtype : BitVec 8} {p : Nat} : isAs b subtype p = true ↔
    bDescriptorType b p ≠ usbDtEndpoint ∧ bDescriptorType b p ≠ csEndpoint ∧
      bDescriptorSubtype b p = subtype := decide_eq_true_iff

theorem parseIs_as :
    ParseIs w (uacParseAsInterface b w aif) (asKnown b aif) (fun _ => True) (asNext b aif) := by
  intro asif q hq
  rw [uacParseAsInterface, if_pos (by omega), if_pos trivial]
  by_cases hep : bDescriptorType b q = usbDtEndpoint
  · rw [if_pos hep, asKnown, if_pos hep, asNext, if_pos hep]
    cases hfind : aif.find? fun ep => ep.bEndpointAddress == b (q + 2) with
    | none =>
      have hnone : (aif.any fun ep => ep.bEndpointAddress == b (q + 2)) = false := by
        rw [List.any_eq_false]
        exact List.find?_eq_none.mp hfind
      rw [hnone, if_neg Bool.false_ne_true]
    | some ep =>
      have haddr := List.find?_some hfind
      have hsome : (aif.any fun ep => ep.bEndpointAddress == b (q + 2)) = true :=
        List.any_eq_true.mpr ⟨ep, List.mem_of_find?_eq_some hfind, haddr⟩
      rw [hsome, if_pos rfl]
  have hknown : asKnown b aif q = true ↔
      bDescriptorType b q = csEndpoint ∨ bDescriptorSubtype b q ≤ formatSpecific := by
    rw [asKnown, if_neg hep, decide_eq_true_iff]
  rw [if_neg hep, asNext, if_neg hep]
  by_cases hcs : bDescriptorType b q = csEndpoint
  · rw [if_pos hcs, if_pos (hknown.mpr (.inl hcs)), isCsEndpoint, if_pos (decide_eq_true hcs)]
  have hnot : isCsEndpoint b q = false := decide_eq_false hcs
  rw [if_neg hcs, hnot, if_neg Bool.false_ne_true]
  by_cases hgen : bDescriptorSubtype b q = asGeneral
  · have hle : bDescriptorSubtype b q ≤ formatSpecific := by
      rw [hgen]
      decide
    rw [if_pos hgen, if_pos (hknown.mpr (.inr hle)), if_pos (isAs_iff.mpr ⟨hep, hcs, hgen⟩)]
  rw [if_neg hgen, if_neg fun h : isAs b asGeneral q = true => hgen (isAs_iff.mp h).2.2]
  by_cases hft : bDescriptorSubtype b q = formatType
  · have hle : bDescriptorSubtype b q ≤ formatSpecific := by
      rw [hft]
      decide
    rw [if_pos hft, if_pos (hknown.mpr (.inr hle)), if_pos (isAs_iff.mpr ⟨hep, hcs, hft⟩)]
  rw [if_neg hft, if_neg fun h : isAs b formatType q = true => hft (isAs_iff.mp h).2.2]
  exact if_congr (hknown.trans (or_iff_right hcs)).symm rfl rfl

/-- What the second loop leaves of the setting whose interface descriptor is at `i` -/
structure Collected (b : Buf) (ifNum alt : BitVec 8) (i : Nat) (asif : AsIf) : Prop where
  asGen : asif.asGen = lastDesc b i (isAs b asGeneral)
  ft : asif.ft = lastDesc b i (isAs b formatType)
  csEpd : asif.csEpd = lastDesc b i (isCsEndpoint b)
  it : asif.it = none
  ot : asif.ot = none
  own : ∀ q ∈ asDescs b i, nextDesc b q ≤ wTotalLength b ∧ Own b ifNum alt q

theorem elim_some (o : Option Nat) : o.elim none some = o := by
  cases o <;> rfl

theorem lastDesc_eq (kind : Nat → Bool) (field : AsIf → Option Nat)
    (hfield : ∀ asif q, field (asNext b aif asif q) = if kind q then some q else field asif)
    (hzero : field .zero = none) :
    field ((asDescs b i).foldl (asNext b aif) .zero) = lastDesc b i kind := by
  rw [foldl_last kind some field hfield, hzero, elim_some]
  rfl

theorem not_interface {q : Nat} (h : HasType b asTypes q = true) :
    bDescriptorType b q ≠ usbDtInterface := by
  intro heq
  rw [HasType, heq] at h
  exact absurd h (by decide)

theorem asNext_asGen {asif : AsIf} {q : Nat} : (asNext b aif asif q).asGen =
    if isAs b asGeneral q then some q else asif.asGen := by
  unfold asNext
  split_ifs with hep hgen hcs hgen
  · exact absurd hep (isAs_iff.mp hgen).1
  · rfl
  · exact absurd (of_decide_eq_true hcs) (isAs_iff.mp hgen).2.1
  all_goals rfl

theorem asNext_ft {asif : AsIf} {q : Nat} : (asNext b aif asif q).ft =
    if isAs b formatType q then some q else asif.ft := by
  unfold asNext
  split_ifs with hep hft hcs hft hgen hft
  · exact absurd hep (isAs_iff.mp hft).1
  · rfl
  · exact absurd (of_decide_eq_true hcs) (isAs_iff.mp hft).2.1
  · rfl
  · have hboth := (isAs_iff.mp hgen).2.2.symm.trans (isAs_iff.mp hft).2.2
    exact absurd hboth (by decide)
  all_goals rfl

theorem asNext_csEpd {asif : AsIf} {q : Nat} : (asNext b aif asif q).csEpd =
    if isCsEndpoint b q then some q else asif.csEpd := by
  unfold asNext
  split_ifs with hep hcs
  · have hboth := hep.symm.trans (of_decide_eq_true hcs)
    exact absurd hboth (by decide)
  all_goals rfl

theorem asNext_terminals {asif : AsIf} {q : Nat} :
    (asNext b aif asif q).it = asif.it ∧ (asNext b aif asif q).ot = asif.ot := by
  unfold asNext
  split_ifs <;> exact ⟨rfl, rfl⟩

/-- The loop collects the last descriptors of their kinds. -/
theorem collected_foldl
    (hfound : found b (wTotalLength b) (asInterfaceFields iface.ifNum alt) (bLength b 0) = some i)
    (hwalk : WalkFits b (wTotalLength b) asTypes (asKnown b aif) (fun _ => True) (nextDesc b i))
    (hthrough : Through b (asKnown b aif) (asDescs b i)) :
    Collected b iface.ifNum alt i ((asDescs b i).foldl (asNext b aif) .zero) := by
  have hnone : ∀ (field : AsIf → Option Nat),
      (∀ asif q, field (asNext b aif asif q) = field asif) → field .zero = none →
        field ((asDescs b i).foldl (asNext b aif) .zero) = none := fun field hfield hzero =>
    (foldl_last (fun _ => false) some field hfield (asDescs b i) .zero).trans (by
      rw [hzero, List.filter_false]
      rfl)
  refine ⟨lastDesc_eq _ AsIf.asGen (fun _ _ => asNext_asGen) rfl,
    lastDesc_eq _ AsIf.ft (fun _ _ => asNext_ft) rfl,
    lastDesc_eq _ AsIf.csEpd (fun _ _ => asNext_csEpd) rfl,
    hnone AsIf.it (fun _ _ => asNext_terminals.1) rfl,
    hnone AsIf.ot (fun _ _ => asNext_terminals.2) rfl, fun q hq => ?_⟩
  have hall := takeWhile_of_through hthrough
  obtain ⟨htype, k, hk, hbetween⟩ := exists_iterate hq
  refine ⟨(hwalk.2 q ?_).2, not_interface htype, i, hfound, k, hk, fun j hj =>
    not_interface (hbetween j hj)⟩
  rw [← asDescs, hall]
  exact hq

theorem mem_lastDesc {kind : Nat → Bool} {q : Nat} (h : q ∈ lastDesc b i kind) : q ∈ asDescs b i :=
  (List.mem_filter.mp (List.mem_of_getLast? h)).1

/-- With the terminal that was found -/
theorem Collected.sound_iff {asif : AsIf} {g : Nat} {it ot : Option Nat}
    (h : Collected b iface.ifNum alt i asif) (hg : asif.asGen = some g) :
    ({ asif with it := it, ot := ot } : AsIf).Sound b iface.ifNum alt ↔
      g + sizeofAsGen ≤ wTotalLength b ∧
      (∀ p ∈ lastDesc b i (isAs b formatType), p + sizeofAsFt1 ≤ wTotalLength b) ∧
      (∀ p ∈ lastDesc b i (isCsEndpoint b), p + sizeofCsEp ≤ wTotalLength b) ∧
      (∀ p ∈ it, Inside b sizeofAcIt p) ∧ ∀ p ∈ ot, Inside b sizeofAcOt p := by
  have hown : ∀ {kind} q, q ∈ lastDesc b i kind → nextDesc b q ≤ wTotalLength b ∧
      Own b iface.ifNum alt q := fun q hq => h.own q (mem_lastDesc hq)
  constructor
  · intro hs
    refine ⟨(hs.asGen g hg).1.1, fun p hp => ?_, fun p hp => ?_, hs.it, hs.ot⟩
    · exact (hs.ft p (h.ft.trans hp)).1.1
    · exact (hs.csEpd p (h.csEpd.trans hp)).1.1
  · rintro ⟨hgen, hft, hcs, hit, hot⟩
    refine ⟨fun p (hp : asif.asGen = some p) => ?_, fun p (hp : asif.ft = some p) => ?_,
      fun p (hp : asif.csEpd = some p) => ?_, hit, hot⟩
    · obtain rfl : g = p := Option.some.inj (hg.symm.trans hp)
      obtain ⟨hin, hfrom⟩ := hown g (h.asGen.symm.trans hg)
      exact ⟨⟨hgen, hin⟩, hfrom⟩
    · obtain ⟨hin, hfrom⟩ := hown p (h.ft.symm.trans hp)
      exact ⟨⟨hft p (h.ft.symm.trans hp), hin⟩, hfrom⟩
    · obtain ⟨hin, hfrom⟩ := hown p (h.csEpd.symm.trans hp)
      exact ⟨⟨hcs p (h.csEpd.symm.trans hp), hin⟩, hfrom⟩

theorem seek_terminal {id : BitVec 8} : uacFindTerminal b id =
    if SeekFits b (wTotalLength b) (terminalFields id) (bLength b 0) then
      some (found b (wTotalLength b) (terminalFields id) (bLength b 0)) else none :=
  seek_eq (List.cons_ne_nil _ _) (by simp [terminalFields, sizeofDescIf])

theorem seek_asInterface {ifNum : BitVec 8} {p : Nat} : seek b w (asInterfaceFields ifNum alt) p =
    if SeekFits b w (asInterfaceFields ifNum alt) p then
      some (found b w (asInterfaceFields ifNum alt) p) else none :=
  seek_eq (List.cons_ne_nil _ _) (by simp [asInterfaceFields, sizeofDescIf])

theorem le_of_mem_chain {n p q : Nat} (h : q ∈ chain b w n p) : q + n ≤ w := by
  induction p using chain.induct b w n with
  | case1 p hp ih =>
    rw [chain, dif_pos hp] at h
    rcases List.mem_cons.mp h with rfl | h
    · exact hp.2
    by_cases h0 : bLength b p = 0
    · rw [dif_pos h0] at h
      exact absurd h List.not_mem_nil
    · rw [dif_neg h0] at h
      exact ih h0 h
  | case2 p hp =>
    rw [chain_nil hp] at h
    exact absurd h List.not_mem_nil

/-- `as_gen`'s terminal is looked for, and stored with the rest. -/
theorem stored_iff (i : Nat) (terminal : Nat → Prop) {g : Nat} {store : Option Nat → StreamParse}
    (hsound : ∀ t, (∀ a ∈ (store t).kept, a.Sound b iface.ifNum alt) ↔
      g + sizeofAsGen ≤ wTotalLength b ∧
      (∀ p ∈ lastDesc b i (isAs b formatType), p + sizeofAsFt1 ≤ wTotalLength b) ∧
      (∀ p ∈ lastDesc b i (isCsEndpoint b), p + sizeofCsEp ≤ wTotalLength b) ∧
      ∀ p ∈ t, terminal p)
    (hterminal : ∀ t, t + sizeofDescIf ≤ wTotalLength b → (terminal t ↔
      nextDesc b t ≤ wTotalLength b ∧
        (iface.haveIsoEp epAddrDirIn = false → t + sizeofAcIt ≤ wTotalLength b))) :
    (∃ r, (if g + 3 < wTotalLength b then (uacFindTerminal b (bTerminalLink b g)).map store
        else none) = some r ∧ ∀ a ∈ r.kept, a.Sound b iface.ifNum alt) ↔ StoredFit b iface i g := by
  rw [seek_terminal]
  constructor
  · rintro ⟨r, hr, hkept⟩
    obtain ⟨-, hr⟩ := Option.ite_none_right_eq_some.mp hr
    obtain ⟨t, hseek, rfl⟩ := Option.map_eq_some_iff.mp hr
    obtain ⟨hfits, hseek⟩ := Option.ite_none_right_eq_some.mp hseek
    obtain ⟨hgen, hft, hcs, ht⟩ := (hsound t).mp hkept
    refine ⟨hgen, hft, hcs, hfits, fun p hp => ?_⟩
    have hin := le_of_mem_chain (List.mem_of_find?_eq_some hp)
    exact (hterminal p hin).mp (ht p (Option.some.inj hseek ▸ hp))
  · intro hf
    have hlink : g + 3 < wTotalLength b := by
      have hgen := hf.asGen
      unfold sizeofAsGen at hgen
      omega
    rw [if_pos hlink, if_pos hf.link]
    refine ⟨_, rfl, (hsound _).mpr ⟨hf.asGen, hf.ft, hf.csEpd, fun p hp => ?_⟩⟩
    have hin := le_of_mem_chain (List.mem_of_find?_eq_some hp)
    exact (hterminal p hin).mpr (hf.terminal p hp)

/-- What is behind the loops is safe where what it stores fits. -/
theorem finishStream_iff {asif : AsIf} (h : Collected b iface.ifNum alt i asif) :
    (∃ r, finishStream b iface asif = some r ∧ ∀ a ∈ r.kept, a.Sound b iface.ifNum alt) ↔
      ((iface.haveIsoEp epAddrDirIn = true ∨ iface.haveIsoEp 0 = true) →
        ∀ g ∈ lastDesc b i (isAs b asGeneral), StoredFit b iface i g) := by
  rw [← h.asGen]
  unfold finishStream
  split
  · rename_i hnone
    rw [hnone]
    exact iff_of_true ⟨_, rfl, fun a ha => nomatch ha⟩ fun _ g hg => nomatch hg
  rename_i g hg
  rw [hg]
  simp only [Option.mem_some_iff, forall_eq']
  by_cases hin : iface.haveIsoEp epAddrDirIn = true
  · rw [if_pos hin, stored_iff i (Inside b sizeofAcOt)]
    · exact ⟨fun hf _ => hf, fun hf => hf (.inl hin)⟩
    · intro t
      have heq : (⟨asif.ep, some g, asif.it, t, asif.ft, asif.csEpd⟩ : AsIf) =
          { asif with it := none, ot := t } := by rw [← hg, ← h.it]
      simp only [StreamParse.kept, Option.mem_some_iff, forall_eq']
      rw [heq, h.sound_iff hg]
      exact ⟨fun hs => ⟨hs.1, hs.2.1, hs.2.2.1, hs.2.2.2.2⟩,
        fun hs => ⟨hs.1, hs.2.1, hs.2.2.1, (fun p hp => nomatch hp), hs.2.2.2⟩⟩
    · intro t ht
      refine ⟨fun hins => ⟨hins.2, fun hno => ?_⟩, fun hins => ⟨ht, hins.1⟩⟩
      rw [hin] at hno
      cases hno
  have hno : iface.haveIsoEp epAddrDirIn = false := Bool.eq_false_iff.mpr hin
  rw [if_neg hin]
  by_cases hout : iface.haveIsoEp 0 = true
  · rw [if_pos hout, stored_iff i (Inside b sizeofAcIt)]
    · exact ⟨fun hf _ => hf, fun hf => hf (.inr hout)⟩
    · intro t
      have heq : (⟨asif.ep, some g, t, asif.ot, asif.ft, asif.csEpd⟩ : AsIf) =
          { asif with it := t, ot := none } := by rw [← hg, ← h.ot]
      simp only [StreamParse.kept, Option.mem_some_iff, forall_eq']
      rw [heq, h.sound_iff hg]
      exact ⟨fun hs => ⟨hs.1, hs.2.1, hs.2.2.1, hs.2.2.2.1⟩,
        fun hs => ⟨hs.1, hs.2.1, hs.2.2.1, hs.2.2.2, fun p hp => nomatch hp⟩⟩
    · exact fun t _ => ⟨fun hins => ⟨hins.2, fun _ => hins.1⟩, fun hins => ⟨hins.2 hno, hins.1⟩⟩
  · rw [if_neg hout]
    exact iff_of_true ⟨_, rfl, fun a ha => nomatch ha⟩
      fun hiso => hiso.elim (absurd · hin) (absurd · hout)

theorem streamSafe_iff : StreamSafe b iface alt ↔ StreamFits b iface alt := by
  have hlost : ¬ ∃ r, (none : Option StreamParse) = some r ∧
      ∀ a ∈ r.kept, a.Sound b iface.ifNum alt := fun ⟨_, hr, _⟩ => nomatch hr
  have hkeeps : ∀ r : StreamParse, r.kept = none → ∃ r', some r = some r' ∧
      ∀ a ∈ r'.kept, a.Sound b iface.ifNum alt := fun r hr =>
    ⟨r, rfl, fun a ha => nomatch hr.symm.trans ha⟩
  unfold StreamSafe StreamFits uacParseStreamingInterface
  by_cases hw : 3 < wTotalLength b
  swap
  · simp only [hw, if_false, false_and]
    exact iff_of_false hlost id
  simp only [hw, if_true, true_and]
  rw [seek_asInterface]
  by_cases hseek : SeekFits b (wTotalLength b) (asInterfaceFields iface.ifNum alt) (bLength b 0)
  swap
  · rw [if_neg hseek]
    exact iff_of_false hlost fun h => hseek h.1
  rw [if_pos hseek]
  simp only [hseek, true_and]
  cases hfound : found b (wTotalLength b) (asInterfaceFields iface.ifNum alt) (bLength b 0) with
  | none => exact iff_of_true (hkeeps .failed rfl) fun i hi => nomatch hi
  | some i =>
    simp only [Option.mem_some_iff, forall_eq']
    by_cases h0 : bNumEndpoints b i = 0
    · rw [if_pos h0]
      exact iff_of_true (hkeeps .idle rfl) fun hne => absurd h0 hne
    rw [if_neg h0, walk_eq parseIs_as]
    by_cases hwalk : WalkFits b (wTotalLength b) asTypes (asKnown b iface.aif) (fun _ => True)
        (nextDesc b i)
    swap
    · rw [if_neg hwalk]
      exact iff_of_false hlost fun h => hwalk (h h0).1
    rw [if_pos hwalk, ← asDescs]
    by_cases hthrough : Through b (asKnown b iface.aif) (asDescs b i)
    · rw [if_pos hthrough, takeWhile_of_through hthrough]
      simp only [lt_self_iff_false, if_false]
      rw [finishStream_iff (collected_foldl hfound hwalk hthrough)]
      exact ⟨fun h _ => ⟨hwalk, fun _ => h⟩, fun h => (h h0).2 hthrough⟩
    · have hneg : uacRetParser < 0 := by decide
      rw [if_neg hthrough]
      simp only [hneg, if_true]
      exact iff_of_true (hkeeps .failed rfl) fun _ => ⟨hwalk, fun h => absurd h hthrough⟩

end Stream

/-! ## Sampling rates -/

/-- Only the entries there are are written, and only with frequencies of the descriptor. -/
def RatesSafe (b : Buf) (ft : Option Nat) (maxCnt : Int) : Prop :=
  ∀ r ∈ (usbhUacGetSamplingRate b ft maxCnt).2.2,
    (r.index : Int) < maxCnt ∧ ∀ p ∈ ft, r.place + 3 ≤ nextDesc b p

/-- The descriptor has the frequencies that it announces, and there is an entry for each. -/
def RatesFit (b : Buf) (ft : Option Nat) (maxCnt : Int) : Prop :=
  ∀ p ∈ ft,
    if bSamFreqType b p = 0 then 2 ≤ maxCnt → 14 ≤ bLength b p
    else bSamFreqType b p ≤ maxCnt ∧ 8 + 3 * bSamFreqType b p ≤ bLength b p

theorem ratesSafe_iff {b : Buf} {ft : Option Nat} {maxCnt : Int} :
    RatesSafe b ft maxCnt ↔ RatesFit b ft maxCnt := by
  unfold RatesSafe RatesFit usbhUacGetSamplingRate
  cases ft with
  | none => exact iff_of_true (fun r hr => absurd hr List.not_mem_nil) fun p hp => nomatch hp
  | some p =>
    simp only [Option.mem_some_iff, forall_eq']
    by_cases h0 : bSamFreqType b p = 0
    · rw [if_pos h0, if_pos h0]
      by_cases hcnt : maxCnt < 2
      · rw [if_pos hcnt]
        exact iff_of_true (fun r hr => absurd hr List.not_mem_nil) fun h => absurd h (by omega)
      · rw [if_neg hcnt]
        simp only [List.forall_mem_cons, rateAt, tSamFreq, nextDesc]
        constructor
        · intro h _
          have hlast := h.2.1.2
          omega
        · intro h
          have hlast := h (by omega)
          refine ⟨⟨by omega, by omega⟩, ⟨by omega, by omega⟩, fun r hr => absurd hr List.not_mem_nil⟩
    · rw [if_neg h0, if_neg h0]
      constructor
      · intro h
        have hlast := h (rateAt b p (bSamFreqType b p - 1))
          (List.mem_map_of_mem (List.mem_range.mpr (by omega)))
        simp only [rateAt, tSamFreq, nextDesc] at hlast
        omega
      · intro h r hr
        obtain ⟨i, hi, rfl⟩ := List.mem_map.mp hr
        have hlt := List.mem_range.mp hi
        simp only [rateAt, tSamFreq, nextDesc]
        omega

/-! ## Audio devices -/

/-- Parsing a control interface and a streaming interface and reading the sampling rates are safe
exactly where no descriptor that a walk steps over ends behind the configuration, what is read and
stored of the last ones is whole, and there is an entry and a frequency for each rate. -/
theorem parse_safe_iff (b : Buf) (ifNum : BitVec 8) (iface : AudioIface)
    (bAlternateSetting : BitVec 8) (ft : Option Nat) (maxCnt : Int) :
    (ControlSafe b ifNum ↔ ControlFits b ifNum) ∧
      (StreamSafe b iface bAlternateSetting ↔ StreamFits b iface bAlternateSetting) ∧
      (RatesSafe b ft maxCnt ↔ RatesFit b ft maxCnt) :=
  ⟨controlSafe_iff, streamSafe_iff, ratesSafe_iff⟩

/-- A configuration with one audio streaming interface. The last descriptor, of its endpoint, has 3
bytes where its length byte says 16. -/
def longEndpoint : Buf := fun p =>
  ([0x09, 0x02, 0x25, 0x00, 0x01, 0x01, 0x00, 0x80, 0x32,
    0x09, 0x04, 0x00, 0x00, 0x01, 0x01, 0x02, 0x00, 0x00,
    0x07, 0x24, 0x01, 0x01, 0x01, 0x01, 0x00,
    0x09, 0x05, 0x81, 0x01, 0x40, 0x00, 0x01, 0x00, 0x00,
    0x10, 0x25, 0x01] : List (BitVec 8)).getD p 0

/-- Its interface -/
def isoIn : AudioIface := ⟨0, [[⟨0x81, 0x01, 1, 64⟩]], [⟨0x81, 0x01, 1, 64⟩]⟩

/-- The walk goes on behind the configuration with a negative `size`. -/
theorem not_streamSafe_longEndpoint : ¬ StreamSafe longEndpoint isoIn 0 := by
  rintro ⟨r, hr, -⟩
  have hnone : (uacParseStreamingInterface longEndpoint isoIn 0).isSome = false := by
    decide +kernel
  rw [hr] at hnone
  cases hnone

end Ma35d1.UsbHost.Uac
