import Mathlib.Logic.Function.Iterate
import Mathlib.Order.Iterate
import Ma35d1.UsbHost.Core.Descriptor

/-!
# When parsing a configuration is safe

The parser is safe when it ends, reads and indexes within bounds, consumes no more
than it was given, and takes each endpoint of a setting from behind the setting's
descriptor. `Fits` says of the bytes alone when that is so: it follows the
descriptors from one length byte to the next and names what each must have.
-/

namespace Ma35d1.UsbHost.Core

/-! ## Safety -/

def nextDesc (b : Buf) (p : Nat) : Nat := p + bLength b p

/-- The descriptor at `p` lies behind the one at `ifd`, with no interface descriptor between. -/
def Follows (b : Buf) (ifd p : Nat) : Prop :=
  ∃ k, p = (nextDesc b)^[k] (nextDesc b ifd) ∧
    ∀ j < k, bDescriptorType b ((nextDesc b)^[j] (nextDesc b ifd)) ≠ usbDtInterface

/-- What an event must satisfy for `w` bytes of descriptors. -/
def EventOk (b : Buf) (w : Nat) : ParseEvent → Prop
  | .read p => p < w
  | .alt i => i < maxAltPerIface
  | .ep i => i < maxEpPerIface
  | .endpoint ifd p => bDescriptorType b p = usbDtEndpoint ∧ Follows b ifd p
  | .report len ret => ret ≤ len

def Clean (b : Buf) (w : Nat) (log : List ParseEvent) : Prop := ∀ e ∈ log, EventOk b w e

/-- Whatever memory and drivers there are, the parser ends and does nothing unsafe. -/
def ParseSafe (b : Buf) : Prop :=
  ∀ (δ : Type) (drivers : Drivers δ) (ifaces : List (Addr × Iface)) (h : Host δ),
    ∃ rounds r, usbhParseConfiguration drivers b rounds ifaces h = .ok r ∧
      Clean b (wTotalLength b) r.log

/-! ## What the bytes must have -/

section

variable (b : Buf) (w : Nat)

/-- The length byte at `p` is too small or leads past the end. -/
def Broken (p : Nat) : Prop := w < p + bLength b p ∨ bLength b p < 2

/-- A broken header comes before the next endpoint descriptor. -/
def BreaksOff : Nat → Nat → Prop
  | 0, _ => False
  | n + 1, p =>
    p + 2 ≤ w ∧
      (Broken b w p ∨
        bDescriptorType b p ≠ usbDtEndpoint ∧ BreaksOff n (nextDesc b p))

/-- A broken header ends the search for an endpoint descriptor, or a whole one is found
before the next interface descriptor and `k` holds behind it. -/
def EndpointFits (k : Nat → Prop) : Nat → Nat → Prop
  | 0, _ => False
  | n + 1, p =>
    p + 2 ≤ w ∧
      (Broken b w p ∨
        if bDescriptorType b p = usbDtEndpoint then p + 7 ≤ w ∧ k (nextDesc b p)
        else if bDescriptorType b p = usbDtInterface then BreaksOff b w n (nextDesc b p)
        else EndpointFits k n (nextDesc b p))

/-- So for the given number of endpoints in turn. -/
def EndpointsFit (k : Nat → Prop) : Nat → Nat → Prop
  | 0, p => k p
  | m + 1, p => EndpointFits b w (EndpointsFit k m) (w - p) p

/-- A broken header ends the search behind an interface descriptor, or it ends at the end
of the data or a configuration descriptor, where `done` holds, or at an interface or
endpoint descriptor, where `k` holds. -/
def HeaderFits (done k : Nat → Prop) : Nat → Nat → Prop
  | 0, p => done p
  | n + 1, p =>
    if p = w then done p
    else
      p + 2 ≤ w ∧
        (Broken b w p ∨
          if bDescriptorType b p = usbDtConfiguration then done p
          else if bDescriptorType b p = usbDtInterface ∨ bDescriptorType b p = usbDtEndpoint then k p
          else HeaderFits done k n (nextDesc b p))

/-- From `p` on the settings of interface `ifNum` are in order, of which `a` are parsed:
what lies between them has usable lengths, an interface descriptor is whole, and the
endpoints of a setting come before the next one. -/
def AltsFit (done : Nat → Prop) (ifNum : BitVec 8) : Nat → Nat → Nat → Prop
  | 0, _, p => done p
  | n + 1, a, p =>
    if p = w then done p
    else
      p + 2 ≤ w ∧
        if bDescriptorType b p ≠ usbDtInterface then
          0 < bLength b p ∧ nextDesc b p ≤ w ∧ AltsFit done ifNum n a (nextDesc b p)
        else
          p + 3 ≤ w ∧
            if bInterfaceNumber b p ≠ ifNum then done p
            else
              p + 5 ≤ w ∧
                (maxEpPerIface < bNumEndpoints b p ∨ maxAltPerIface ≤ a ∨
                  nextDesc b p ≤ w ∧
                    HeaderFits b w done
                      (fun q =>
                        if bDescriptorType b q = usbDtInterface then AltsFit done ifNum n (a + 1) q
                        else EndpointsFit b w (AltsFit done ifNum n (a + 1)) (bNumEndpoints b p) q)
                      (w - nextDesc b p) (nextDesc b p))

/-- A broken header ends the search for the next interface, or one is found and is in order. -/
def InterfaceFits (done : Nat → Prop) : Nat → Nat → Prop
  | 0, p => w < p
  | n + 1, p =>
    w < p ∨
      p + 2 ≤ w ∧
        (Broken b w p ∨
          if bDescriptorType b p = usbDtInterface then
            AltsFit b w done (bInterfaceNumber b p) (w - p) 0 p
          else InterfaceFits done n (nextDesc b p))

/-- So for the given number of interfaces in turn. -/
def InterfacesFit : Nat → Nat → Prop
  | 0, _ => True
  | m + 1, p => InterfaceFits b w (InterfacesFit m) (w - p) p

end

/-- The interfaces that the configuration descriptor announces are all there and in order. -/
def Fits (b : Buf) : Prop := InterfacesFit b (wTotalLength b) (bNumInterfaces b) (bLength b 0)

/-! The conditions can be evaluated. -/

instance decidableBroken (b : Buf) (w p : Nat) : Decidable (Broken b w p) :=
  inferInstanceAs (Decidable (_ ∨ _))

instance decidableBreaksOff (b : Buf) (w : Nat) : ∀ n p, Decidable (BreaksOff b w n p)
  | 0, _ => .isFalse id
  | n + 1, p =>
    have := decidableBreaksOff b w n (nextDesc b p)
    inferInstanceAs (Decidable (_ ∧ (_ ∨ _ ∧ _)))

instance decidableEndpointFits (b : Buf) (w : Nat) (k : Nat → Prop) [DecidablePred k] :
    ∀ n p, Decidable (EndpointFits b w k n p)
  | 0, _ => .isFalse id
  | n + 1, p =>
    have := decidableEndpointFits b w k n (nextDesc b p)
    inferInstanceAs (Decidable (p + 2 ≤ w ∧ (Broken b w p ∨
      if bDescriptorType b p = usbDtEndpoint then p + 7 ≤ w ∧ k (nextDesc b p)
      else if bDescriptorType b p = usbDtInterface then BreaksOff b w n (nextDesc b p)
      else EndpointFits b w k n (nextDesc b p))))

instance decidableEndpointsFit (b : Buf) (w : Nat) (k : Nat → Prop) [DecidablePred k] :
    ∀ m p, Decidable (EndpointsFit b w k m p)
  | 0, p => inferInstanceAs (Decidable (k p))
  | m + 1, p =>
    have : DecidablePred (EndpointsFit b w k m) := decidableEndpointsFit b w k m
    inferInstanceAs (Decidable (EndpointFits b w (EndpointsFit b w k m) (w - p) p))

instance decidableHeaderFits (b : Buf) (w : Nat) (done k : Nat → Prop) [DecidablePred done]
    [DecidablePred k] : ∀ n p, Decidable (HeaderFits b w done k n p)
  | 0, p => inferInstanceAs (Decidable (done p))
  | n + 1, p =>
    have := decidableHeaderFits b w done k n (nextDesc b p)
    inferInstanceAs (Decidable (if p = w then done p else p + 2 ≤ w ∧ (Broken b w p ∨
      if bDescriptorType b p = usbDtConfiguration then done p
      else if bDescriptorType b p = usbDtInterface ∨ bDescriptorType b p = usbDtEndpoint then k p
      else HeaderFits b w done k n (nextDesc b p))))

instance decidableAltsFit (b : Buf) (w : Nat) (done : Nat → Prop) [DecidablePred done]
    (ifNum : BitVec 8) : ∀ n a p, Decidable (AltsFit b w done ifNum n a p)
  | 0, _, p => inferInstanceAs (Decidable (done p))
  | n + 1, a, p =>
    have : ∀ a, DecidablePred (AltsFit b w done ifNum n a) := decidableAltsFit b w done ifNum n
    inferInstanceAs (Decidable (if p = w then done p else p + 2 ≤ w ∧
      if bDescriptorType b p ≠ usbDtInterface then
        0 < bLength b p ∧ nextDesc b p ≤ w ∧ AltsFit b w done ifNum n a (nextDesc b p)
      else p + 3 ≤ w ∧ if bInterfaceNumber b p ≠ ifNum then done p else p + 5 ≤ w ∧
        (maxEpPerIface < bNumEndpoints b p ∨ maxAltPerIface ≤ a ∨ nextDesc b p ≤ w ∧
          HeaderFits b w done (fun q =>
            if bDescriptorType b q = usbDtInterface then AltsFit b w done ifNum n (a + 1) q
            else EndpointsFit b w (AltsFit b w done ifNum n (a + 1)) (bNumEndpoints b p) q)
            (w - nextDesc b p) (nextDesc b p))))

instance decidableInterfaceFits (b : Buf) (w : Nat) (done : Nat → Prop) [DecidablePred done] :
    ∀ n p, Decidable (InterfaceFits b w done n p)
  | 0, p => inferInstanceAs (Decidable (w < p))
  | n + 1, p =>
    have := decidableInterfaceFits b w done n (nextDesc b p)
    inferInstanceAs (Decidable (w < p ∨ p + 2 ≤ w ∧ (Broken b w p ∨
      if bDescriptorType b p = usbDtInterface then
        AltsFit b w done (bInterfaceNumber b p) (w - p) 0 p
      else InterfaceFits b w done n (nextDesc b p))))

instance decidableInterfacesFit (b : Buf) (w : Nat) : ∀ m p, Decidable (InterfacesFit b w m p)
  | 0, _ => .isTrue trivial
  | m + 1, p =>
    have : DecidablePred (InterfacesFit b w m) := decidableInterfacesFit b w m
    inferInstanceAs (Decidable (InterfaceFits b w (InterfacesFit b w m) (w - p) p))

instance decidableFits (b : Buf) : Decidable (Fits b) :=
  inferInstanceAs (Decidable (InterfacesFit b _ _ _))

/-! ## Walking the descriptors -/

variable {b : Buf} {w o ifd p q i n m : Nat} {c : Cursor} {log : List ParseEvent} {k : Nat → Prop}

theorem le_nextDesc (b : Buf) (p : Nat) : p ≤ nextDesc b p := Nat.le_add_right ..

theorem Follows.first (b : Buf) (ifd : Nat) : Follows b ifd (nextDesc b ifd) :=
  ⟨0, rfl, fun j hj => absurd hj (Nat.not_lt_zero j)⟩

theorem Follows.next (h : Follows b ifd p) (ht : bDescriptorType b p ≠ usbDtInterface) :
    Follows b ifd (nextDesc b p) := by
  obtain ⟨n, hp, hn⟩ := h
  refine ⟨n + 1, by rw [Function.iterate_succ_apply', ← hp], ?_⟩
  intro j hj
  rcases Nat.lt_succ_iff_lt_or_eq.mp hj with hj | rfl
  · exact hn j hj
  · rw [← hp]
    exact ht

/-- Nothing behind an interface descriptor follows an earlier one. -/
theorem Follows.le (h : Follows b ifd p) (ht : bDescriptorType b p = usbDtInterface)
    (hq : Follows b ifd q) : q ≤ p := by
  obtain ⟨n, rfl, -⟩ := h
  obtain ⟨m, rfl, hm⟩ := hq
  have hle : m ≤ n := by
    by_contra hlt
    exact hm n (Nat.lt_of_not_le hlt) ht
  exact Function.monotone_iterate_of_id_le (le_nextDesc b) hle _

@[simp] theorem clean_cons {e : ParseEvent} :
    Clean b w (e :: log) ↔ EventOk b w e ∧ Clean b w log := List.forall_mem_cons

@[simp] theorem note_log (c : Cursor) (e : ParseEvent) : (c.note e).log = e :: c.log := rfl
@[simp] theorem note_off (c : Cursor) (e : ParseEvent) : (c.note e).off = c.off := rfl
@[simp] theorem note_len (c : Cursor) (e : ParseEvent) : (c.note e).len = c.len := rfl
@[simp] theorem note_parsedLen (c : Cursor) (e : ParseEvent) :
    (c.note e).parsedLen = c.parsedLen := rfl
@[simp] theorem skip_log (c : Cursor) (z : Int) : (c.skip z).log = c.log := rfl

theorem clean_readHdr : Clean b w c.readHdr.log ↔ c.off + 2 ≤ w ∧ Clean b w c.log := by
  unfold Cursor.readHdr
  simp only [note_log, clean_cons, EventOk]
  constructor
  · rintro ⟨h, -, hc⟩
    exact ⟨h, hc⟩
  · rintro ⟨h, hc⟩
    exact ⟨h, by omega, hc⟩

/-- A cursor that has come from `o` and is still within the `w` bytes. -/
structure Standing (w o : Nat) (c : Cursor) : Prop where
  len : c.len = w - c.off
  parsed : c.parsedLen = c.off - o
  start : o ≤ c.off
  le : c.off ≤ w

theorem Standing.note (h : Standing w o c) (e : ParseEvent) : Standing w o (c.note e) :=
  ⟨h.len, h.parsed, h.start, h.le⟩

theorem Standing.readHdr (h : Standing w o c) : Standing w o c.readHdr :=
  ⟨h.len, h.parsed, h.start, h.le⟩

@[simp] theorem step_off (c : Cursor) :
    (c.readHdr.skip (bLength b c.off)).off = nextDesc b c.off := rfl

theorem Standing.step (h : Standing w o c) (hle : nextDesc b c.off ≤ w) :
    Standing w o (c.readHdr.skip (bLength b c.off)) := by
  obtain ⟨h1, h2, h3, h4⟩ := h
  unfold nextDesc at hle
  refine ⟨?_, ?_, ?_, hle⟩
  · show c.len - (bLength b c.off : Int) = w - ((c.off + bLength b c.off : Nat) : Int)
    omega
  · show c.parsedLen + (bLength b c.off : Int) = ((c.off + bLength b c.off : Nat) : Int) - o
    omega
  · exact Nat.le_trans h3 (le_nextDesc b c.off)

theorem Standing.badHdr (h : Standing w o c) : badHdr b c = true ↔ Broken b w c.off := by
  have h1 := h.len
  have h2 := h.le
  simp only [Core.badHdr, Broken, Bool.or_eq_true, decide_eq_true_iff]
  omega

theorem next_of_not_broken (h : ¬ Broken b w p) : p + 2 ≤ nextDesc b p ∧ nextDesc b p ≤ w := by
  unfold Broken at h
  unfold nextDesc
  omega

/-! ## Endpoints -/

/-- How the parse of an endpoint from `o` should end, with `k` where it goes on. -/
def EpGood (b : Buf) (w o : Nat) (k : Nat → Prop) :
    Except Stop (Option (Int × EpInfo) × List ParseEvent) → Prop
  | .error _ => False
  | .ok (none, log) => Clean b w log
  | .ok (some (ret, _), log) => Clean b w log ∧ 0 ≤ ret ∧ k (o + ret.toNat)

/-- An endpoint descriptor is found: it must be whole and follow its setting. -/
theorem epGood_found (hc : Standing w o c) (hl : Clean b w c.log) (hi : i < maxEpPerIface)
    (hn : ¬ Broken b w c.off) (ht : bDescriptorType b c.off = usbDtEndpoint) :
    EpGood b w o k (finishEndpoint b ifd i (w - o) (some (some c.off), c.readHdr)) ↔
      Follows b ifd c.off ∧ c.off + 7 ≤ w ∧ k (nextDesc b c.off) := by
  obtain ⟨h1, h2, h3, h4⟩ := hc
  have hnx := next_of_not_broken hn
  unfold nextDesc at hnx
  have hret : o + (c.readHdr.parsedLen + (bLength b c.off : Int)).toNat = nextDesc b c.off := by
    show o + (c.parsedLen + (bLength b c.off : Int)).toNat = c.off + bLength b c.off
    omega
  simp only [finishEndpoint, EpGood, hret, note_log, storeEndpoint, clean_cons, EventOk,
    clean_readHdr, ht, true_and]
  constructor
  · rintro ⟨⟨-, -, -, -, hr, -, -, -, hf, -⟩, -, hk⟩
    exact ⟨hf, by omega, hk⟩
  · rintro ⟨hf, hr, hk⟩
    have hpl : c.readHdr.parsedLen = c.parsedLen := rfl
    rw [hpl]
    refine ⟨⟨?_, ?_, ?_, ?_, ?_, ?_, ?_, hi, hf, ?_, hl⟩, ?_, hk⟩
    all_goals omega

/-- The data ends in the search: `ep_desc` is not at an endpoint descriptor. -/
theorem epGood_ended {ep : Option Nat} (he : ∀ e, ep = some e → bDescriptorType b e ≠ usbDtEndpoint) :
    ¬ EpGood b w o k (finishEndpoint b ifd i (w - o) (some ep, c)) := by
  cases ep with
  | none => exact fun h => h
  | some e =>
    intro h
    simp only [finishEndpoint, EpGood, note_log, storeEndpoint, clean_cons, EventOk] at h
    exact he e rfl h.1.2.2.2.2.2.2.2.2.1.1

/-- The search behind an interface descriptor of another setting. -/
theorem epGood_breaksOff {ep : Option Nat} (hn : w - c.off ≤ n) (hc : Standing w o c)
    (hl : Clean b w c.log) (hi : i < maxEpPerIface)
    (he : ∀ e, ep = some e → bDescriptorType b e ≠ usbDtEndpoint)
    (hf : ∀ q, c.off ≤ q → ¬ Follows b ifd q) :
    EpGood b w o k (finishEndpoint b ifd i (w - o) (seekEndpoint b n ep c)) ↔
      BreaksOff b w n c.off := by
  induction n generalizing c ep with
  | zero => exact iff_of_false (epGood_ended he) id
  | succ n ih =>
    have hlen := hc.len
    have hle := hc.le
    rw [seekEndpoint, BreaksOff]
    by_cases h0 : c.len ≤ 0
    · rw [if_pos h0]
      exact iff_of_false (epGood_ended he) (fun h => by omega)
    rw [if_neg h0]
    by_cases hb : badHdr b c = true
    · rw [if_pos hb]
      show Clean b w c.readHdr.log ↔ _
      rw [clean_readHdr]
      exact ⟨fun h => ⟨h.1, .inl (hc.badHdr.mp hb)⟩, fun h => ⟨h.1, hl⟩⟩
    have hnb : ¬ Broken b w c.off := fun h => hb (hc.badHdr.mpr h)
    have hnx := next_of_not_broken hnb
    rw [if_neg hb, or_iff_right hnb]
    by_cases ht : bDescriptorType b c.off = usbDtEndpoint
    · rw [if_pos ht, epGood_found hc hl hi hnb ht]
      exact iff_of_false (fun h => hf _ (Nat.le_refl _) h.1) (fun h => h.2.1 ht)
    · rw [if_neg ht, ih (by rw [step_off]; omega) (hc.step hnx.2)
        (clean_readHdr.mpr ⟨by omega, hl⟩) (fun e he => Option.some.inj he ▸ ht)
        (fun q hq => hf q (Nat.le_trans (le_nextDesc b _) hq)), step_off]
      exact ⟨fun h => ⟨by omega, ht, h⟩, fun h => h.2.2⟩

theorem epGood_fits {ep : Option Nat} {k' : Nat → Prop}
    (hk : ∀ q, Follows b ifd q → q ≤ w → (k' q ↔ k q)) (hn : w - c.off ≤ n) (hc : Standing w o c)
    (hl : Clean b w c.log) (hi : i < maxEpPerIface)
    (he : ∀ e, ep = some e → bDescriptorType b e ≠ usbDtEndpoint) (hf : Follows b ifd c.off) :
    EpGood b w o k' (finishEndpoint b ifd i (w - o) (seekEndpoint b n ep c)) ↔
      EndpointFits b w k n c.off := by
  induction n generalizing c ep with
  | zero => exact iff_of_false (epGood_ended he) id
  | succ n ih =>
    have hlen := hc.len
    have hle := hc.le
    rw [seekEndpoint, EndpointFits]
    by_cases h0 : c.len ≤ 0
    · rw [if_pos h0]
      exact iff_of_false (epGood_ended he) (fun h => by omega)
    rw [if_neg h0]
    by_cases hb : badHdr b c = true
    · rw [if_pos hb]
      show Clean b w c.readHdr.log ↔ _
      rw [clean_readHdr]
      exact ⟨fun h => ⟨h.1, .inl (hc.badHdr.mp hb)⟩, fun h => ⟨h.1, hl⟩⟩
    have hnb : ¬ Broken b w c.off := fun h => hb (hc.badHdr.mpr h)
    have hnx := next_of_not_broken hnb
    rw [if_neg hb, or_iff_right hnb]
    by_cases ht : bDescriptorType b c.off = usbDtEndpoint
    · have hti : bDescriptorType b c.off ≠ usbDtInterface := by rw [ht]; decide
      rw [if_pos ht, if_pos ht, epGood_found hc hl hi hnb ht]
      have hkn := hk _ (hf.next hti) hnx.2
      exact ⟨fun h => ⟨by omega, h.2.1, hkn.mp h.2.2⟩, fun h => ⟨hf, h.2.1, hkn.mpr h.2.2⟩⟩
    rw [if_neg ht, if_neg ht]
    have hstep := hc.step hnx.2
    have hclean : Clean b w (c.readHdr.skip (bLength b c.off)).log :=
      clean_readHdr.mpr ⟨by omega, hl⟩
    by_cases hti : bDescriptorType b c.off = usbDtInterface
    · -- the setting ends here
      rw [if_pos hti, epGood_breaksOff (by rw [step_off]; omega) hstep hclean hi
        (fun e he => Option.some.inj he ▸ ht) (fun q hq hfq => ?_), step_off]
      · exact ⟨fun h => ⟨by omega, h⟩, fun h => h.2⟩
      · have := hf.le hti hfq
        rw [step_off] at hq
        omega
    · rw [if_neg hti, ih (by rw [step_off]; omega) hstep hclean
        (fun e he => Option.some.inj he ▸ ht) (hf.next hti), step_off]
      exact ⟨fun h => ⟨by omega, h⟩, fun h => h.2⟩

theorem usbhParseEndpoint_fits {g : Nat → Prop}
    (hk : ∀ q, Follows b ifd q → q ≤ w → (g q ↔ k q)) (hc : Standing w o c) (hl : Clean b w log)
    (hi : i < maxEpPerIface) (hf : Follows b ifd c.off) :
    EpGood b w c.off g (usbhParseEndpoint b ifd i c.off c.len log) ↔
      EndpointFits b w k (w - c.off) c.off := by
  have hlen := hc.len
  have hle := hc.le
  have hn : c.len.toNat = w - c.off := by omega
  unfold usbhParseEndpoint
  rw [hn, hlen]
  exact epGood_fits (c := ⟨c.off, w - c.off, 0, log⟩) hk (Nat.le_refl _)
    ⟨rfl, by simp, Nat.le_refl _, hle⟩ hl hi (fun e he => (by cases he)) hf

/-- With no byte left `ep_desc` is never set. -/
theorem usbhParseEndpoint_wild {off : Nat} {len : Int} (h : len ≤ 0) :
    usbhParseEndpoint b ifd i off len log = .error .wild := by
  unfold usbhParseEndpoint
  rw [Int.toNat_of_nonpos h]
  rfl

theorem seekEndpoint_clean {ep : Option Nat} (h : Clean b w (seekEndpoint b n ep c).2.log) :
    Clean b w c.log := by
  induction n generalizing ep c with
  | zero => exact h
  | succ n ih =>
    rw [seekEndpoint] at h
    split at h
    · exact h
    · split at h
      · exact (clean_readHdr.mp h).2
      · split at h
        · exact (clean_readHdr.mp h).2
        · have hr : Clean b w (c.readHdr.skip (bLength b c.off)).log := ih h
          exact (clean_readHdr.mp hr).2

theorem seekEndpoint_parsedLen {ep : Option Nat} :
    c.parsedLen ≤ (seekEndpoint b n ep c).2.parsedLen := by
  induction n generalizing ep c with
  | zero => exact Int.le_refl _
  | succ n ih =>
    rw [seekEndpoint]
    split
    · exact Int.le_refl _
    · split
      · exact Int.le_refl _
      · split
        · exact Int.le_refl _
        · refine Int.le_trans ?_ ih
          show c.parsedLen ≤ c.parsedLen + (bLength b c.off : Int)
          omega

theorem usbhParseEndpoint_nonneg {off : Nat} {len ret : Int} {info : EpInfo}
    {log' : List ParseEvent} (h : usbhParseEndpoint b ifd i off len log = .ok (some (ret, info), log')) :
    0 ≤ ret := by
  have hp : 0 ≤ (seekEndpoint b len.toNat none ⟨off, len, 0, log⟩).2.parsedLen :=
    seekEndpoint_parsedLen
  unfold usbhParseEndpoint at h
  rcases hr : seekEndpoint b len.toNat none ⟨off, len, 0, log⟩ with ⟨_ | _ | p, c⟩
  · rw [hr] at h
    cases h
  · rw [hr] at h
    cases h
  · rw [hr] at h hp
    obtain ⟨he, -⟩ := Prod.mk.inj (Except.ok.inj h)
    obtain ⟨rfl, -⟩ := Prod.mk.inj (Option.some.inj he)
    exact Int.add_nonneg hp (Int.natCast_nonneg _)

theorem usbhParseEndpoint_clean {off : Nat} {len : Int} {r : Option (Int × EpInfo)}
    {log' : List ParseEvent} (h : usbhParseEndpoint b ifd i off len log = .ok (r, log'))
    (hl : Clean b w log') : Clean b w log := by
  have hs : Clean b w (seekEndpoint b len.toNat none ⟨off, len, 0, log⟩).2.log := by
    unfold usbhParseEndpoint at h
    rcases hr : seekEndpoint b len.toNat none ⟨off, len, 0, log⟩ with ⟨_ | _ | p, c⟩
    · rw [hr] at h
      obtain ⟨-, rfl⟩ := Prod.mk.inj (Except.ok.inj h)
      exact hl
    · rw [hr] at h
      cases h
    · rw [hr] at h
      obtain ⟨-, rfl⟩ := Prod.mk.inj (Except.ok.inj h)
      simp only [note_log, storeEndpoint, clean_cons] at hl
      exact hl.2.2.2.2.2.2.2.2.2
  exact seekEndpoint_clean hs

theorem parseEndpoints_wild {p : IfaceParse} (h : p.cur.len ≤ 0) :
    parseEndpoints b ifd (m + 1) i p = .error .wild := by
  rw [parseEndpoints, usbhParseEndpoint_wild h]

/-- How a block of `usbh_parse_interface` should end. -/
def FlowGood (b : Buf) (w : Nat) (done next : IfaceParse → Prop) :
    Except Stop (Flow × IfaceParse) → Prop
  | .error _ => False
  | .ok (.next, p) => next p
  | .ok (.done, p) => done p
  | .ok (.err _, p) => Clean b w p.cur.log

theorem FlowGood.clean {done next : IfaceParse → Prop} {f : Flow} {p : IfaceParse}
    (hd : ∀ q, done q → Clean b w q.cur.log) (hn : ∀ q, next q → Clean b w q.cur.log)
    (h : FlowGood b w done next (.ok (f, p))) : Clean b w p.cur.log := by
  cases f with
  | next => exact hn p h
  | done => exact hd p h
  | err r => exact h

theorem parseEndpoints_clean {p q : IfaceParse} {f : Flow}
    (h : parseEndpoints b ifd m i p = .ok (f, q)) (hl : Clean b w q.cur.log) :
    Clean b w p.cur.log := by
  induction m generalizing i p with
  | zero =>
    obtain ⟨-, rfl⟩ := Prod.mk.inj (Except.ok.inj h)
    exact hl
  | succ m ih =>
    rw [parseEndpoints] at h
    rcases hr : usbhParseEndpoint b ifd i p.cur.off p.cur.len
        (.alt (p.iface.numAlt - 1) :: p.cur.log) with e | ⟨_ | ⟨ret, info⟩, log'⟩
    · rw [hr] at h
      cases h
    · rw [hr] at h
      obtain ⟨-, rfl⟩ := Prod.mk.inj (Except.ok.inj h)
      exact (clean_cons.mp (usbhParseEndpoint_clean hr hl)).2
    · rw [hr] at h
      exact (clean_cons.mp (usbhParseEndpoint_clean hr (ih h))).2

/-- The endpoints of a setting, with `next` as the good end behind them. -/
theorem parseEndpoints_fits {next done : IfaceParse → Prop} {p : IfaceParse}
    (hn : ∀ q, next q → Clean b w q.cur.log) (hd : ∀ q, done q → Clean b w q.cur.log)
    (hk : ∀ q, Standing w o q.cur → Clean b w q.cur.log → q.iface.ifNum = p.iface.ifNum →
      q.iface.numAlt = p.iface.numAlt → p.cur.off ≤ q.cur.off → (next q ↔ k q.cur.off))
    (hc : Standing w o p.cur) (hl : Clean b w p.cur.log) (hi : i + m ≤ maxEpPerIface)
    (ha : p.iface.numAlt - 1 < maxAltPerIface) (hf : Follows b ifd p.cur.off) :
    FlowGood b w done next (parseEndpoints b ifd m i p) ↔ EndpointsFit b w k m p.cur.off := by
  induction m generalizing i p with
  | zero => exact hk p hc hl rfl rfl (Nat.le_refl _)
  | succ m ih =>
    have hle := hc.le
    have hstart := hc.start
    have hl' : Clean b w (.alt (p.iface.numAlt - 1) :: p.cur.log) := clean_cons.mpr ⟨ha, hl⟩
    rw [EndpointsFit, ← usbhParseEndpoint_fits (fun _ _ _ => Iff.rfl) hc hl' (i := i) (by omega) hf]
    have htrue := usbhParseEndpoint_fits (g := fun _ => True)
      (k := fun q => Follows b ifd q ∧ q ≤ w) (i := i) (fun q h h' => ⟨fun _ => ⟨h, h'⟩, fun _ => trivial⟩)
      hc hl' (by omega) hf
    rw [← usbhParseEndpoint_fits (fun _ _ _ => Iff.rfl) hc hl' (i := i) (by omega) hf] at htrue
    rw [parseEndpoints]
    rcases hr : usbhParseEndpoint b ifd i p.cur.off p.cur.len
        (.alt (p.iface.numAlt - 1) :: p.cur.log) with e | ⟨_ | ⟨ret, info⟩, log'⟩
    · exact Iff.rfl
    · exact Iff.rfl
    · rw [hr] at htrue
      dsimp only
      have hret := usbhParseEndpoint_nonneg hr
      by_cases hclean : Clean b w log'
      · obtain ⟨-, -, hf', hle'⟩ := htrue.mp ⟨hclean, hret, trivial⟩
        have hc' : Standing w o (Cursor.skip ⟨p.cur.off, p.cur.len, p.cur.parsedLen, log'⟩ ret) := by
          obtain ⟨h1, h2, h3, h4⟩ := hc
          refine ⟨?_, ?_, ?_, hle'⟩
          · show p.cur.len - ret = w - ((p.cur.off + ret.toNat : Nat) : Int)
            omega
          · show p.cur.parsedLen + ret = ((p.cur.off + ret.toNat : Nat) : Int) - o
            omega
          · exact Nat.le_trans h3 (Nat.le_add_right ..)
        have hrest := ih (i := i + 1) (p := ⟨_, setEp i info p.iface, p.hdr⟩)
          (fun q h1 h2 h3 h4 h5 => hk q h1 h2 h3 h4 (Nat.le_trans (Nat.le_add_right ..) h5))
          hc' hclean (by omega) ha hf'
        exact hrest.trans ⟨fun h => ⟨hclean, hret, h⟩, fun h => h.2.2⟩
      · refine iff_of_false (fun h => hclean ?_) (fun h => hclean h.1)
        rcases hq : parseEndpoints b ifd m (i + 1)
          ⟨Cursor.skip ⟨p.cur.off, p.cur.len, p.cur.parsedLen, log'⟩ ret, setEp i info p.iface, p.hdr⟩ with e | ⟨f, q⟩
        · rw [hq] at h
          exact h.elim
        · rw [hq] at h
          exact parseEndpoints_clean hq (h.clean hd hn)

/-! ## Settings -/

theorem seekHeader_clean {p : IfaceParse} (h : Clean b w (seekHeader b n p).2.cur.log) :
    Clean b w p.cur.log := by
  induction n generalizing p with
  | zero => exact h
  | succ n ih =>
    rw [seekHeader] at h
    dsimp only at h
    split at h
    · exact h
    · split at h
      · exact (clean_readHdr.mp h).2
      · split at h
        · exact (clean_readHdr.mp h).2
        · split at h
          · exact (clean_readHdr.mp h).2
          · have hr : Clean b w p.cur.readHdr.log := ih h
            exact (clean_readHdr.mp hr).2

/-- The search behind the interface descriptor at `ifd`. -/
theorem seekHeader_fits {next done : IfaceParse → Prop} {kd : Nat → Prop} {p : IfaceParse}
    (hd : ∀ q, q.iface = p.iface → Standing w o q.cur → Clean b w q.cur.log →
      (done q ↔ kd q.cur.off))
    (he : ∀ q, q.iface = p.iface → Standing w o q.cur → Clean b w q.cur.log → q.cur.off = w →
      (next q ↔ kd q.cur.off))
    (hk : ∀ q, q.iface = p.iface → Standing w o q.cur → Clean b w q.cur.log →
      q.hdr = some q.cur.off → Follows b ifd q.cur.off → q.cur.off + 2 ≤ w →
      p.cur.off ≤ q.cur.off → ¬ Broken b w q.cur.off → (next q ↔ k q.cur.off))
    (hn : w - p.cur.off ≤ n) (hc : Standing w o p.cur) (hl : Clean b w p.cur.log)
    (hf : Follows b ifd p.cur.off) :
    FlowGood b w done next (.ok (seekHeader b n p)) ↔ HeaderFits b w kd k n p.cur.off := by
  induction n generalizing p with
  | zero =>
    have hle := hc.le
    exact he p rfl hc hl (by omega)
  | succ n ih =>
    have hlen := hc.len
    have hle := hc.le
    rw [seekHeader, HeaderFits]
    by_cases h0 : p.cur.off = w
    · rw [if_pos (by omega), if_pos h0]
      exact he p rfl hc hl h0
    rw [if_neg (by omega), if_neg h0]
    dsimp only
    by_cases hb : badHdr b p.cur = true
    · rw [if_pos hb]
      show Clean b w p.cur.readHdr.log ↔ _
      rw [clean_readHdr]
      exact ⟨fun h => ⟨h.1, .inl (hc.badHdr.mp hb)⟩, fun h => ⟨h.1, hl⟩⟩
    have hnb : ¬ Broken b w p.cur.off := fun h => hb (hc.badHdr.mpr h)
    have hnx := next_of_not_broken hnb
    have h2 : p.cur.off + 2 ≤ w := by omega
    have hclean : Clean b w p.cur.readHdr.log := clean_readHdr.mpr ⟨h2, hl⟩
    rw [if_neg hb, or_iff_right hnb, and_iff_right h2]
    by_cases htc : bDescriptorType b p.cur.off = usbDtConfiguration
    · rw [if_pos htc, if_pos htc]
      exact hd _ rfl hc.readHdr hclean
    rw [if_neg htc, if_neg htc]
    by_cases ht : bDescriptorType b p.cur.off = usbDtInterface ∨
        bDescriptorType b p.cur.off = usbDtEndpoint
    · rw [if_pos ht, if_pos ht]
      exact hk _ rfl hc.readHdr hclean rfl hf h2 (Nat.le_refl _) hnb
    · rw [if_neg ht, if_neg ht]
      exact ih (p := ⟨p.cur.readHdr.skip (bLength b p.cur.off), p.iface, some p.cur.off⟩) hd he
        (fun q h1 h2 h3 h4 h5 h6 h7 => hk q h1 h2 h3 h4 h5 h6 (Nat.le_trans (le_nextDesc b _) h7))
        (show w - nextDesc b p.cur.off ≤ n by omega) (hc.step hnx.2) hclean
        (hf.next fun h => ht (.inl h))

theorem andThen_ok {r : Except Stop (Flow × IfaceParse)} {f : Flow} {q : IfaceParse}
    {k : IfaceParse → Except Stop (Flow × IfaceParse)} (h : andThen r k = .ok (f, q)) :
    ∃ g p, r = .ok (g, p) ∧ (q = p ∨ k p = .ok (f, q)) := by
  rcases r with e | ⟨_ | _ | ret, p⟩
  · cases h
  · exact ⟨_, _, rfl, .inr h⟩
  · exact ⟨_, _, rfl, .inl (Prod.mk.inj (Except.ok.inj h)).2.symm⟩
  · exact ⟨_, _, rfl, .inl (Prod.mk.inj (Except.ok.inj h)).2.symm⟩

theorem flowGood_andThen {done : IfaceParse → Prop} {r : Except Stop (Flow × IfaceParse)}
    {k : IfaceParse → Except Stop (Flow × IfaceParse)} :
    FlowGood b w done done (andThen r k) ↔
      FlowGood b w done (fun p => FlowGood b w done done (k p)) r := by
  rcases r with e | ⟨_ | _ | ret, p⟩ <;> exact Iff.rfl

theorem takeAlt_end {d : Nat} {k : IfaceParse → Except Stop (Flow × IfaceParse)} {p : IfaceParse}
    (h : p.cur.len = 0) : takeAlt b d k p = .ok (.done, addAlt d p) := if_pos h

theorem takeAlt_header {d e : Nat} {k : IfaceParse → Except Stop (Flow × IfaceParse)}
    {p : IfaceParse} (h : p.cur.len ≠ 0) (hh : p.hdr = some e) :
    takeAlt b d k p =
      if bDescriptorType b e = usbDtInterface then
        k ⟨(addAlt d p).cur.note (.read (e + 1)), (addAlt d p).iface, some e⟩
      else
        andThen (parseEndpoints b d (bNumEndpoints b d) 0
          ⟨(addAlt d p).cur.note (.read (e + 1)), (addAlt d p).iface, some e⟩) k := by
  unfold takeAlt
  dsimp only
  rw [if_neg (show ¬ (addAlt d p).cur.len = 0 from h), show (addAlt d p).hdr = some e from hh]

theorem takeAlt_wild {d : Nat} {k : IfaceParse → Except Stop (Flow × IfaceParse)} {p : IfaceParse}
    (h : p.cur.len ≠ 0) (hh : p.hdr = none) : takeAlt b d k p = .error .wild := by
  unfold takeAlt
  dsimp only
  rw [if_neg (show ¬ (addAlt d p).cur.len = 0 from h), show (addAlt d p).hdr = none from hh]

theorem parseAlts_end {p : IfaceParse} (h : p.cur.len ≤ 0) : parseAlts b (n + 1) p = .ok (.done, p) :=
  if_pos h

theorem parseAlts_skip {p : IfaceParse} (h : 0 < p.cur.len)
    (ht : bDescriptorType b p.cur.off ≠ usbDtInterface) :
    parseAlts b (n + 1) p =
      parseAlts b n ⟨p.cur.readHdr.skip (bLength b p.cur.off), p.iface, p.hdr⟩ := by
  rw [parseAlts]
  dsimp only
  rw [if_neg (Int.not_le.mpr h), if_pos ht]

/-- The reads of a round of the loop that meets an interface descriptor. -/
def readIf (c : Cursor) : Cursor := (c.note (.read (c.off + 1))).note (.read (c.off + 2))

theorem parseAlts_iface {p : IfaceParse} (h : 0 < p.cur.len)
    (ht : bDescriptorType b p.cur.off = usbDtInterface) :
    parseAlts b (n + 1) p =
      if bInterfaceNumber b p.cur.off ≠ p.iface.ifNum then .ok (.done, ⟨readIf p.cur, p.iface, p.hdr⟩)
      else
        let c := (readIf p.cur).note (.read (p.cur.off + 4))
        if maxEpPerIface < bNumEndpoints b p.cur.off then
          .ok (.err usbhErrIfEpLimit, ⟨c, p.iface, p.hdr⟩)
        else
          let c := (c.note (.read p.cur.off)).skip (bLength b p.cur.off)
          if maxAltPerIface ≤ p.iface.numAlt then .ok (.err usbhErrIfAltLimit, ⟨c, p.iface, p.hdr⟩)
          else
            andThen (.ok (seekHeader b c.len.toNat ⟨c, p.iface, p.hdr⟩))
              (takeAlt b p.cur.off (parseAlts b n)) := by
  rw [parseAlts]
  dsimp only
  rw [if_neg (Int.not_le.mpr h), if_neg (not_not_intro ht)]
  rfl

/-- A block leaves a clean log only if it found one. -/
def KeepsClean (b : Buf) (w : Nat) (k : IfaceParse → Except Stop (Flow × IfaceParse)) : Prop :=
  ∀ p f q, k p = .ok (f, q) → Clean b w q.cur.log → Clean b w p.cur.log

theorem KeepsClean.of_good {done : IfaceParse → Prop} {p : IfaceParse}
    {k : IfaceParse → Except Stop (Flow × IfaceParse)} (hk : KeepsClean b w k)
    (hd : ∀ q, done q → Clean b w q.cur.log) (h : FlowGood b w done done (k p)) :
    Clean b w p.cur.log := by
  rcases hr : k p with e | ⟨f, q⟩
  · rw [hr] at h
    exact h.elim
  · rw [hr] at h
    exact hk _ _ _ hr (h.clean hd hd)

theorem takeAlt_clean {d : Nat} {k : IfaceParse → Except Stop (Flow × IfaceParse)}
    (hk : KeepsClean b w k) : KeepsClean b w (takeAlt b d k) := by
  intro p f q h hl
  unfold takeAlt at h
  dsimp only at h
  split at h
  · obtain ⟨-, rfl⟩ := Prod.mk.inj (Except.ok.inj h)
    exact (clean_cons.mp hl).2
  · split at h
    · cases h
    · split at h
      · exact (clean_cons.mp (clean_cons.mp (hk _ _ _ h hl)).2).2
      · obtain ⟨g, p', hp, rfl | hk'⟩ := andThen_ok h
        · exact (clean_cons.mp (clean_cons.mp (parseEndpoints_clean hp hl)).2).2
        · exact (clean_cons.mp (clean_cons.mp (parseEndpoints_clean hp (hk _ _ _ hk' hl))).2).2

theorem parseAlts_clean : KeepsClean b w (parseAlts b n) := by
  induction n with
  | zero => exact fun _ _ _ h => (by cases h)
  | succ n ih =>
    intro p f q h hl
    rw [parseAlts] at h
    dsimp only at h
    split at h
    · obtain ⟨-, rfl⟩ := Prod.mk.inj (Except.ok.inj h)
      exact hl
    split at h
    · have hr : Clean b w p.cur.readHdr.log := ih _ _ _ h hl
      exact (clean_readHdr.mp hr).2
    split at h
    · obtain ⟨-, rfl⟩ := Prod.mk.inj (Except.ok.inj h)
      exact (clean_cons.mp (clean_cons.mp hl).2).2
    split at h
    · obtain ⟨-, rfl⟩ := Prod.mk.inj (Except.ok.inj h)
      exact (clean_cons.mp (clean_cons.mp (clean_cons.mp hl).2).2).2
    split at h
    · obtain ⟨-, rfl⟩ := Prod.mk.inj (Except.ok.inj h)
      simp only [skip_log, note_log, clean_cons] at hl
      exact hl.2.2.2.2
    obtain ⟨g, p', hp, hq⟩ := andThen_ok h
    have hp' : Clean b w p'.cur.log := by
      rcases hq with rfl | hk
      · exact hl
      · exact takeAlt_clean ih _ _ _ hk hl
    have hs := seekHeader_clean (by rw [Except.ok.inj hp]; exact hp')
    simp only [skip_log, note_log, clean_cons] at hs
    exact hs.2.2.2.2

/-- A cursor that has run past the end leaves no round of the loop a good end. -/
theorem parseAlts_over {done : IfaceParse → Prop} {p : IfaceParse}
    (hd : ∀ q, done q → q.cur.parsedLen ≤ (w : Int) - o) (h : p.cur.len ≤ 0)
    (hp : (w : Int) - o < p.cur.parsedLen) : ¬ FlowGood b w done done (parseAlts b n p) := by
  cases n with
  | zero => exact id
  | succ n =>
    rw [parseAlts_end h]
    intro hg
    have := hd p hg
    omega

/-- A descriptor of length zero that is no interface descriptor is met again and again. -/
theorem parseAlts_spins {p : IfaceParse} (h : 0 < p.cur.len)
    (ht : bDescriptorType b p.cur.off ≠ usbDtInterface) (h0 : bLength b p.cur.off = 0) :
    parseAlts b n p = .error .rounds := by
  induction n generalizing p with
  | zero => rfl
  | succ n ih =>
    rw [parseAlts_skip h ht, h0]
    have hoff : p.cur.off + Int.toNat ((0 : Nat) : Int) = p.cur.off := rfl
    refine ih (p := ⟨p.cur.readHdr.skip ((0 : Nat) : Int), p.iface, p.hdr⟩) ?_ ?_ ?_
    · show 0 < p.cur.len - ((0 : Nat) : Int)
      omega
    · show bDescriptorType b (p.cur.off + Int.toNat ((0 : Nat) : Int)) ≠ _
      rw [hoff]
      exact ht
    · show bLength b (p.cur.off + Int.toNat ((0 : Nat) : Int)) = 0
      rw [hoff]
      exact h0

/-- A setting whose descriptor runs past the end comes to no good. -/
theorem takeAlt_over {done : IfaceParse → Prop} {p : IfaceParse} {d : Nat}
    (hd : ∀ q, done q → q.cur.parsedLen ≤ (w : Int) - o) (h : p.cur.len < 0)
    (hp : (w : Int) - o < p.cur.parsedLen) :
    ¬ FlowGood b w done done (takeAlt b d (parseAlts b n) p) := by
  have h0 : p.cur.len ≠ 0 := Int.ne_of_lt h
  cases hh : p.hdr with
  | none =>
    rw [takeAlt_wild h0 hh]
    exact id
  | some e =>
    rw [takeAlt_header h0 hh]
    split
    · exact parseAlts_over (o := o) hd (Int.le_of_lt h) hp
    · rw [flowGood_andThen]
      cases bNumEndpoints b d with
      | zero => exact parseAlts_over (o := o) hd (Int.le_of_lt h) hp
      | succ m =>
        have hw : parseEndpoints b d (m + 1) 0 ⟨(addAlt d p).cur.note (.read (e + 1)),
            (addAlt d p).iface, some e⟩ = .error .wild := parseEndpoints_wild (Int.le_of_lt h)
        rw [hw]
        exact id

theorem flowGood_exists {done : IfaceParse → Prop} {next : Nat → IfaceParse → Prop}
    {r : Except Stop (Flow × IfaceParse)} :
    (∃ n, FlowGood b w done (next n) r) ↔ FlowGood b w done (fun p => ∃ n, next n p) r := by
  rcases r with e | ⟨_ | _ | ret, p⟩
  · exact exists_const _
  · exact Iff.rfl
  · exact exists_const _
  · exact exists_const _

/-- For some number of rounds the loop comes to a good end. -/
def AltsGood (b : Buf) (w : Nat) (done : IfaceParse → Prop) (p : IfaceParse) : Prop :=
  ∃ rounds, FlowGood b w done done (parseAlts b rounds p)

theorem AltsGood.clean {done : IfaceParse → Prop} {p : IfaceParse}
    (hd : ∀ q, done q → Clean b w q.cur.log) (h : AltsGood b w done p) : Clean b w p.cur.log := by
  obtain ⟨n, h⟩ := h
  exact parseAlts_clean.of_good hd h

theorem altsGood_succ {done : IfaceParse → Prop} {p : IfaceParse} :
    AltsGood b w done p ↔ ∃ rounds, FlowGood b w done done (parseAlts b (rounds + 1) p) := by
  constructor
  · rintro ⟨_ | rounds, h⟩
    · exact h.elim
    · exact ⟨rounds, h⟩
  · exact fun ⟨rounds, h⟩ => ⟨rounds + 1, h⟩

theorem altsGood_end {done : IfaceParse → Prop} {p : IfaceParse} (h : p.cur.len ≤ 0) :
    AltsGood b w done p ↔ done p := by
  simp only [altsGood_succ, parseAlts_end h, exists_const]
  exact Iff.rfl

/-- The search behind an interface descriptor and the setting that it ends at. -/
theorem seek_take_clean {done : IfaceParse → Prop} {p : IfaceParse} {d : Nat}
    (hd : ∀ q, done q → Clean b w q.cur.log)
    (h : FlowGood b w done done (andThen (.ok (seekHeader b m p)) (takeAlt b d (parseAlts b n)))) :
    Clean b w p.cur.log := by
  rw [flowGood_andThen] at h
  rcases hs : seekHeader b m p with ⟨f, q⟩
  rw [hs] at h
  have hq := h.clean hd fun q hq => (takeAlt_clean parseAlts_clean).of_good hd hq
  exact seekHeader_clean (by rw [hs]; exact hq)

/-- The setting behind a search that ended at the end of the data or at a header. -/
theorem takeAlt_fits {done : IfaceParse → Prop} {kd : Nat → Prop} {p : IfaceParse} {d a : Nat}
    {num : BitVec 8}
    (hdc : ∀ q, done q → Clean b w q.cur.log)
    (hd : ∀ q, Standing w o q.cur → Clean b w q.cur.log → (done q ↔ kd q.cur.off))
    (hrest : ∀ q, Standing w o q.cur → Clean b w q.cur.log → q.iface.ifNum = num →
      q.iface.numAlt = a + 1 → p.cur.off ≤ q.cur.off → (AltsGood b w done q ↔ k q.cur.off))
    (ha : a < maxAltPerIface) (hne : bNumEndpoints b d ≤ maxEpPerIface)
    (hc : Standing w o p.cur) (hl : Clean b w p.cur.log) (hnum : p.iface.ifNum = num)
    (hpa : p.iface.numAlt = a) :
    (p.cur.off = w →
      ((∃ n, FlowGood b w done done (takeAlt b d (parseAlts b n) p)) ↔ kd p.cur.off)) ∧
      (p.hdr = some p.cur.off → Follows b d p.cur.off → p.cur.off + 2 ≤ w →
        ((∃ n, FlowGood b w done done (takeAlt b d (parseAlts b n) p)) ↔
          if bDescriptorType b p.cur.off = usbDtInterface then k p.cur.off
          else EndpointsFit b w k (bNumEndpoints b d) p.cur.off)) := by
  have hlen := hc.len
  have hclean : Clean b w (addAlt d p).cur.log := clean_cons.mpr ⟨by rw [hpa]; exact ha, hl⟩
  constructor
  · intro hend
    have h0 : p.cur.len = 0 := by omega
    simp only [takeAlt_end h0, exists_const]
    exact hd (addAlt d p) (hc.note _) hclean
  · intro hh hf hr
    have h0 : p.cur.len ≠ 0 := by omega
    simp only [takeAlt_header h0 hh]
    have hclean' : Clean b w (((addAlt d p).cur.note (.read (p.cur.off + 1)))).log :=
      clean_cons.mpr ⟨show p.cur.off + 1 < w by omega, hclean⟩
    have hna : (addAlt d p).iface.numAlt = a + 1 := congrArg (· + 1) hpa
    split
    · exact hrest ⟨_, (addAlt d p).iface, _⟩ ((hc.note _).note _) hclean' hnum hna
        (Nat.le_refl _)
    · simp only [flowGood_andThen, flowGood_exists]
      exact parseEndpoints_fits (o := o) (p := ⟨_, (addAlt d p).iface, _⟩)
        (fun q hq => AltsGood.clean hdc hq) hdc
        (fun q hcq hlq hnq haq hle => hrest q hcq hlq (hnq.trans hnum) (haq.trans hna) hle)
        ((hc.note _).note _) hclean' (by omega)
        (show (addAlt d p).iface.numAlt - 1 < _ by rw [hna]; exact ha) hf

theorem iface_clean {done : IfaceParse → Prop} {p : IfaceParse}
    (hd : ∀ q, done q → Clean b w q.cur.log) (h : 0 < p.cur.len)
    (ht : bDescriptorType b p.cur.off = usbDtInterface) (hg : AltsGood b w done p) :
    Clean b w (readIf p.cur).log ∧
      (bInterfaceNumber b p.cur.off = p.iface.ifNum →
        Clean b w ((readIf p.cur).note (.read (p.cur.off + 4))).log) := by
  obtain ⟨rounds, hg⟩ := altsGood_succ.mp hg
  rw [parseAlts_iface h ht] at hg
  dsimp only at hg
  split at hg
  · rename_i hne
    exact ⟨hd _ hg, fun he => absurd he hne⟩
  · have h4 : Clean b w ((readIf p.cur).note (.read (p.cur.off + 4))).log := by
      split at hg
      · exact hg
      · split at hg
        · exact (clean_cons.mp hg).2
        · exact (clean_cons.mp (seek_take_clean hd hg)).2
    exact ⟨(clean_cons.mp h4).2, fun _ => h4⟩

/-- A round of the loop that meets an interface descriptor. -/
theorem iface_fits {done : IfaceParse → Prop} {kd : Nat → Prop} {p : IfaceParse} {a : Nat}
    {num : BitVec 8} {rest : Nat → Prop}
    (hdc : ∀ q, done q → Clean b w q.cur.log ∧ q.cur.parsedLen ≤ (w : Int) - o)
    (hd : ∀ q, Standing w o q.cur → Clean b w q.cur.log → (done q ↔ kd q.cur.off))
    (hc : Standing w o p.cur) (hl : Clean b w p.cur.log) (hnum : p.iface.ifNum = num)
    (hpa : p.iface.numAlt = a) (hpos : 0 < p.cur.len)
    (ht : bDescriptorType b p.cur.off = usbDtInterface)
    (hrest : ∀ q, Standing w o q.cur → Clean b w q.cur.log → q.iface.ifNum = num →
      q.iface.numAlt = a + 1 → p.cur.off < q.cur.off → (AltsGood b w done q ↔ rest q.cur.off)) :
    AltsGood b w done p ↔ p.cur.off + 2 ≤ w ∧ p.cur.off + 3 ≤ w ∧
      if bInterfaceNumber b p.cur.off ≠ num then kd p.cur.off
      else
        p.cur.off + 5 ≤ w ∧
          (maxEpPerIface < bNumEndpoints b p.cur.off ∨ maxAltPerIface ≤ a ∨
            nextDesc b p.cur.off ≤ w ∧
              HeaderFits b w kd
                (fun q =>
                  if bDescriptorType b q = usbDtInterface then rest q
                  else EndpointsFit b w rest (bNumEndpoints b p.cur.off) q)
                (w - nextDesc b p.cur.off) (nextDesc b p.cur.off)) := by
  have hdc' : ∀ q, done q → Clean b w q.cur.log := fun q hq => (hdc q hq).1
  have hover : ∀ q, done q → q.cur.parsedLen ≤ (w : Int) - o := fun q hq => (hdc q hq).2
  obtain ⟨hlen, hpar, hst, hle⟩ := id hc
  by_cases h3 : p.cur.off + 3 ≤ w
  swap
  · refine iff_of_false (fun h => h3 ?_) (fun h => h3 h.2.1)
    exact (clean_cons.mp (iface_clean hdc' hpos ht h).1).1
  have hclean : Clean b w (readIf p.cur).log :=
    clean_cons.mpr ⟨show p.cur.off + 2 < w by omega,
      clean_cons.mpr ⟨show p.cur.off + 1 < w by omega, hl⟩⟩
  have hc' : Standing w o (readIf p.cur) := (hc.note _).note _
  by_cases hother : bInterfaceNumber b p.cur.off ≠ num
  · rw [if_pos hother, altsGood_succ]
    simp only [parseAlts_iface hpos ht, hnum, if_pos hother, exists_const]
    exact (hd ⟨readIf p.cur, p.iface, p.hdr⟩ hc' hclean).trans
      ⟨fun h => ⟨by omega, h3, h⟩, fun h => h.2.2⟩
  rw [if_neg hother]
  by_cases h5 : p.cur.off + 5 ≤ w
  swap
  · refine iff_of_false (fun h => h5 ?_) (fun h => h5 h.2.2.1)
    have he := (iface_clean hdc' hpos ht h).2 (by rw [hnum]; exact not_not.mp hother)
    exact (clean_cons.mp he).1
  have hclean4 : Clean b w ((readIf p.cur).note (.read (p.cur.off + 4))).log :=
    clean_cons.mpr ⟨show p.cur.off + 4 < w by omega, hclean⟩
  rw [altsGood_succ, and_iff_right (by omega : p.cur.off + 2 ≤ w), and_iff_right h3,
    and_iff_right h5]
  simp only [parseAlts_iface hpos ht, hnum, if_neg hother]
  by_cases hne : maxEpPerIface < bNumEndpoints b p.cur.off
  · simp only [if_pos hne, exists_const]
    exact iff_of_true hclean4 (.inl hne)
  simp only [if_neg hne]
  have hclean0 : Clean b w (((readIf p.cur).note (.read (p.cur.off + 4))).note
      (.read p.cur.off)).log := clean_cons.mpr ⟨show p.cur.off < w by omega, hclean4⟩
  by_cases hna : maxAltPerIface ≤ p.iface.numAlt
  · simp only [if_pos hna, exists_const]
    exact iff_of_true hclean0 (.inr (.inl (hpa ▸ hna)))
  simp only [if_neg hna]
  rw [or_iff_right hne, or_iff_right (hpa ▸ hna)]
  by_cases hnx : nextDesc b p.cur.off ≤ w
  · rw [and_iff_right hnx]
    have hcs : Standing w o ((((readIf p.cur).note (.read (p.cur.off + 4))).note
        (.read p.cur.off)).skip (bLength b p.cur.off)) := by
      obtain ⟨h1, h2, h3, h4⟩ := hc.step hnx
      exact ⟨h1, h2, h3, h4⟩
    have hoff : ((((readIf p.cur).note (.read (p.cur.off + 4))).note (.read p.cur.off)).skip
        (bLength b p.cur.off)).off = nextDesc b p.cur.off := rfl
    have hclean1 : Clean b w ((((readIf p.cur).note (.read (p.cur.off + 4))).note
        (.read p.cur.off)).skip (bLength b p.cur.off)).log := hclean0
    generalize (((readIf p.cur).note (.read (p.cur.off + 4))).note
        (.read p.cur.off)).skip (bLength b p.cur.off) = c at hcs hoff hclean1 ⊢
    have hn : c.len.toNat = w - nextDesc b p.cur.off := by
      have := hcs.len
      omega
    simp only [flowGood_andThen, flowGood_exists, hn]
    rw [← hoff]
    have htake : ∀ q : IfaceParse, q.iface = p.iface → Standing w o q.cur →
        Clean b w q.cur.log → p.cur.off < q.cur.off → _ := fun q hq hcq hlq hlt =>
      takeAlt_fits (d := p.cur.off) (k := rest) hdc' hd (a := a)
        (fun q' h1 h2 h3 h4 h5 => hrest q' h1 h2 h3 h4 (Nat.lt_of_lt_of_le hlt h5)) (by omega)
        (by omega) hcq hlq (by rw [hq]; exact hnum) (by rw [hq]; exact hpa)
    have hfol : Follows b p.cur.off c.off := by rw [hoff]; exact Follows.first b p.cur.off
    refine seekHeader_fits (o := o) (p := ⟨c, p.iface, p.hdr⟩)
      (fun q _ hcq hlq => hd q hcq hlq)
      (fun q hq hcq hlq he => (htake q hq hcq hlq (by omega)).1 he)
      (fun q hq hcq hlq hh hf h2 hle hnb => (htake q hq hcq hlq ?_).2 hh hf h2) (Nat.le_refl _)
      hcs hclean1 hfol
    -- a length of zero is caught at the header
    have hle' : c.off ≤ q.cur.off := hle
    rw [hoff] at hle'
    unfold nextDesc at hle'
    by_contra hge
    have h0 : bLength b p.cur.off = 0 := by omega
    have hq0 : q.cur.off = p.cur.off := by omega
    exact hnb (.inr (by rw [hq0, h0]; decide))
  · refine iff_of_false ?_ (fun h => hnx h.1)
    rintro ⟨rounds, h⟩
    unfold nextDesc at hnx
    have h0 : (((((readIf p.cur).note (.read (p.cur.off + 4))).note (.read p.cur.off)).skip
        (bLength b p.cur.off)).len).toNat = 0 :=
      Int.toNat_of_nonpos (show p.cur.len - (bLength b p.cur.off : Int) ≤ 0 by omega)
    rw [h0, flowGood_andThen] at h
    refine takeAlt_over (o := o) hover ?_ ?_ h
    · show p.cur.len - (bLength b p.cur.off : Int) < 0
      omega
    · show (w : Int) - o < p.cur.parsedLen + (bLength b p.cur.off : Int)
      omega

/-- The settings of an interface from a cursor on, with `done` as the good end. -/
theorem parseAlts_fits {done : IfaceParse → Prop} {kd : Nat → Prop} {p : IfaceParse} {a : Nat}
    {num : BitVec 8}
    (hdc : ∀ q, done q → Clean b w q.cur.log ∧ q.cur.parsedLen ≤ (w : Int) - o)
    (hd : ∀ q, Standing w o q.cur → Clean b w q.cur.log → (done q ↔ kd q.cur.off))
    (hn : w - p.cur.off ≤ n) (hc : Standing w o p.cur) (hl : Clean b w p.cur.log)
    (hnum : p.iface.ifNum = num) (hpa : p.iface.numAlt = a) :
    AltsGood b w done p ↔ AltsFit b w kd num n a p.cur.off := by
  have hdc' : ∀ q, done q → Clean b w q.cur.log := fun q hq => (hdc q hq).1
  have hover : ∀ q, done q → q.cur.parsedLen ≤ (w : Int) - o := fun q hq => (hdc q hq).2
  induction n generalizing p a with
  | zero =>
    have hlen := hc.len
    have hle := hc.le
    have h0 : p.cur.len ≤ 0 := by omega
    rw [altsGood_end h0]
    exact hd p hc hl
  | succ n ih =>
    obtain ⟨hlen, hpar, hst, hle⟩ := id hc
    rw [AltsFit]
    by_cases h0 : p.cur.off = w
    · rw [if_pos h0, altsGood_end (by omega)]
      exact hd p hc hl
    rw [if_neg h0]
    have hpos : 0 < p.cur.len := by omega
    by_cases ht : bDescriptorType b p.cur.off = usbDtInterface
    · rw [if_neg (not_not_intro ht)]
      exact iface_fits hdc hd hc hl hnum hpa hpos ht fun q hcq hlq hnq haq hq =>
        ih (by omega) hcq hlq hnq haq
    · rw [if_pos ht]
      by_cases hL : bLength b p.cur.off = 0
      · refine iff_of_false ?_ (fun h => by omega)
        rintro ⟨rounds, h⟩
        rw [parseAlts_spins hpos ht hL] at h
        exact h
      have hsame : AltsGood b w done p ↔ AltsGood b w done
          ⟨p.cur.readHdr.skip (bLength b p.cur.off), p.iface, p.hdr⟩ := by
        rw [altsGood_succ]
        simp only [parseAlts_skip hpos ht]
        exact Iff.rfl
      rw [hsame]
      by_cases h2 : p.cur.off + 2 ≤ w
      · have hclean : Clean b w p.cur.readHdr.log := clean_readHdr.mpr ⟨h2, hl⟩
        by_cases hnx : nextDesc b p.cur.off ≤ w
        · have hrest := ih (p := ⟨_, p.iface, p.hdr⟩)
            (show w - (p.cur.off + bLength b p.cur.off) ≤ n by omega) (hc.step hnx) hclean hnum hpa
          exact hrest.trans ⟨fun h => ⟨h2, by omega, hnx, h⟩, fun h => h.2.2.2⟩
        · refine iff_of_false ?_ (fun h => hnx h.2.2.1)
          rintro ⟨rounds, h⟩
          unfold nextDesc at hnx
          refine parseAlts_over (o := o) hover ?_ ?_ h
          · show p.cur.len - (bLength b p.cur.off : Int) ≤ 0
            omega
          · show (w : Int) - o < p.cur.parsedLen + (bLength b p.cur.off : Int)
            omega
      · refine iff_of_false (fun h => h2 ?_) (fun h => h2 h.1)
        have hr : Clean b w p.cur.readHdr.log := h.clean hdc'
        exact (clean_readHdr.mp hr).1

end Ma35d1.UsbHost.Core
