import Ma35d1.UsbHost.Uac.ParserSafety
import Ma35d1.UsbHost.Uvc.Parser

/-!
# When parsing a video stream is safe

The loops of `uvc_parse_streaming_interface` end, and what they read and write is where it should
be, exactly where the descriptors that they come by are whole and the tables have room. Which
descriptors these are follows from the length bytes and from the counter of the frames, which the
intervals of a frame count as well.
-/

namespace Ma35d1.UsbHost.Uvc.Parser

open Ma35d1.Machine.Checked
open Ma35d1.UsbHost.Core (Buf bLength bDescriptorType wTotalLength nextDesc usbDtInterface
  usbDtEndpoint)
open Ma35d1.UsbHost.Uac (AtLeast sizeofDescIf bDescriptorSubtype SeekFits found Matches)

/-! ## Frames -/

/-- The counter of the frames behind an uncompressed frame at `p` -/
def vsuCount (b : Buf) (p i : Nat) : Nat :=
  if bFrameIntervalType b p = 0 then i else bFrameIntervalType b p

/-- The fields of an uncompressed frame are there, and its row has an entry for each interval. The
intervals are looked for behind the three fields of continuous ones. -/
def VsuFits (b : Buf) (w p : Nat) : Prop :=
  p + 26 ≤ w ∧
    if bFrameIntervalType b p = 0 then p + sizeofDescVsuFrame ≤ w
    else bFrameIntervalType b p ≤ maxInterval ∧
      p + sizeofDescVsuFrame + 4 * bFrameIntervalType b p ≤ w

instance (b : Buf) (w p : Nat) : Decidable (VsuFits b w p) :=
  inferInstanceAs (Decidable (_ ∧ ite _ _ _))

def MjpgFits (w p : Nat) : Prop := p + 9 ≤ w

instance (w p : Nat) : Decidable (MjpgFits w p) := inferInstanceAs (Decidable (_ ≤ _))

/-- Each frame that the `for` comes to fits, up to a descriptor that is not one. `k` holds of the
room that is left and of the place behind them. -/
def FramesFit (b : Buf) (w : Nat) (subtype : BitVec 8) (fits : Nat → Prop) (count : Nat → Nat → Nat)
    (p : Nat) (k : Nat → Nat → Prop) : Nat → Nat → Nat → Prop
  | 0, _, d => k 0 d
  | n + 1, i, d =>
    if i < bNumFrameDescriptors b p then
      p + d + 1 < w ∧
        (bDescriptorType b (p + d) ≠ uvcCsInterface ∨
          p + d + 2 < w ∧
            (bDescriptorSubtype b (p + d) ≠ subtype ∨
              fits (p + d) ∧
                FramesFit b w subtype fits count p k n (count (p + d) i + 1)
                  (d + bLength b (p + d))))
    else k (n + 1) d

/-! ## The loops -/

/-- For the format at `p`, with `formats` formats in the table and room for `n` frames -/
def FormatFits (b : Buf) (w : Nat) (subtype : BitVec 8) (fits : Nat → Prop)
    (count : Nat → Nat → Nat) (p formats n : Nat) (k : Nat → Nat → Nat → Prop) : Prop :=
  formats < uvcMaxFormat ∧
    FramesFit b w subtype fits count p (fun n d => k (formats + 1) n d) n 0 (bLength b p)

/-- For the descriptor at `p`: `k` holds of the formats, of the room and of how far it goes. -/
def ClassDescFits (b : Buf) (w p formats n : Nat) (k : Nat → Nat → Nat → Prop) : Prop :=
  if bDescriptorSubtype b p = vsFormatUncompressed then
    FormatFits b w vsFrameUncompressed (VsuFits b w) (vsuCount b) p formats n k
  else if bDescriptorSubtype b p = vsFormatMjpeg then
    FormatFits b w vsFrameMjpeg (MjpgFits w) (fun _ i => i) p formats n k
  else if bDescriptorSubtype b p = vsFrameUncompressed ∨ bDescriptorSubtype b p = vsFrameMjpeg ∨
      bDescriptorSubtype b p ∈ unsupported then k formats n 0
  else True

/-- The class-specific descriptors from `p` on fit, and so does what is behind each of them; `k`
holds where they end. -/
def ClassDescsFit (b : Buf) (w : Nat) (k : Nat → Prop) (formats n p : Nat) : Prop :=
  p ≤ w ∧
    if w < p + sizeofDescIf ∨ bDescriptorType b p ≠ uvcCsInterface then k p
    else
      ClassDescFits b w p formats n fun formats n d =>
        if _h : p + d < w then
          if _h0 : bLength b (p + d) = 0 then True
          else ClassDescsFit b w k formats n (nextDesc b (p + d))
        else False
termination_by w - p
decreasing_by
  unfold nextDesc
  omega

/-- The settings from `p` on fit, with `alts` settings in the table. -/
def AltsFit (b : Buf) (w : Nat) (ifNum : BitVec 8) (alts p : Nat) : Prop :=
  p ≤ w ∧
    if w < p + sizeofDescIf ∨ Matches b (streamFields ifNum) p = false then True
    else if _h0 : bLength b p = 0 then True
    else if _h1 : nextDesc b p + 1 < w then
      if bDescriptorType b (nextDesc b p) ≠ usbDtEndpoint then AltsFit b w ifNum alts (nextDesc b p)
      else
        nextDesc b p + 5 < w ∧ alts < uvcMaxAltIf ∧
          (bLength b (nextDesc b p) = 0 ∨
            AltsFit b w ifNum (alts + 1) (nextDesc b (nextDesc b p)))
    else False
termination_by w - p
decreasing_by
  all_goals
    unfold nextDesc at *
    omega

/-- What `uvc_parse_streaming_interface` comes by fits. -/
def StreamFits (b : Buf) (ifNum : BitVec 8) (vdev : UvcDev) : Prop :=
  3 < wTotalLength b ∧ SeekFits b (wTotalLength b) (streamFields ifNum) (bLength b 0) ∧
    ∀ p ∈ found b (wTotalLength b) (streamFields ifNum) (bLength b 0),
      ClassDescsFit b (wTotalLength b) (AltsFit b (wTotalLength b) ifNum vdev.alts.length)
        vdev.vc.formats.length vdev.vc.room (nextDesc b p)

/-- `uvc_parse_streaming_interface` ends, reads nothing at or behind `wTotalLength`, and writes
nothing behind a table. -/
def StreamSafe (b : Buf) (ifNum : BitVec 8) (vdev : UvcDev) : Prop :=
  Clean (uvcParseStreamingInterface b ifNum vdev) fun _ => True

section

variable {b : Buf} {w p n i d : Nat} {subtype : BitVec 8} {ifNum : BitVec 8} {vc : UvcCtrl}
  {alts : List AltEntry} {format : ImageFormat}

/-! ## Steps -/

theorem clean_frameIntervals {k : List (BitVec 32) → Prop} :
    Clean (frameIntervals b w p n i) k ↔
      (n = 0 ∨ i + n ≤ maxInterval ∧ p + sizeofDescVsuFrame + 4 * (i + n) ≤ w) ∧
        k ((List.range' i n).map fun j => word b (p + sizeofDescVsuFrame + 4 * j)) := by
  induction n generalizing i k with
  | zero => simp [frameIntervals]
  | succ n ih =>
    rw [frameIntervals, clean_guarded, clean_bind, ih, List.range'_succ, List.map_cons, clean_ok,
      ← and_assoc]
    refine and_congr_left fun _ => ?_
    unfold sizeofDescVsuFrame maxInterval
    omega

/-- What an uncompressed frame at `p` leaves in the tables -/
def vsuEntry (b : Buf) (format : ImageFormat) (p : Nat) : FrameEntry :=
  if bFrameIntervalType b p = 0 then
    { frameIdx := bFrameIndex b p, frameFormat := format, width := wWidth b p,
      height := wHeight b p, frameIntervalType := b (p + 25),
      frameIntervalMin := word b (p + 26), frameIntervalMax := word b (p + 30),
      frameIntervalStep := word b (p + 34) }
  else
    { frameIdx := bFrameIndex b p, frameFormat := format, width := wWidth b p,
      height := wHeight b p, frameIntervalType := b (p + 25), frameIntervalNum := b (p + 25),
      frameIntervalList := (List.range' 0 (bFrameIntervalType b p)).map fun j =>
        word b (p + sizeofDescVsuFrame + 4 * j) }

def mjpgEntry (b : Buf) (format : ImageFormat) (p : Nat) : FrameEntry :=
  { frameIdx := bFrameIndex b p, frameFormat := format, width := wWidth b p,
    height := wHeight b p }

/-- What the loop is told of the frames -/
def FrameIs (frame : ImageFormat → Nat → Nat → Run Int (FrameEntry × Nat)) (fits : Nat → Prop)
    (count : Nat → Nat → Nat) (entry : ImageFormat → Nat → FrameEntry) : Prop :=
  ∀ format p i k, Clean (frame format p i) k ↔ fits p ∧ k (entry format p, count p i)

theorem frameIs_vsu : FrameIs (vsuFrame b w) (VsuFits b w) (vsuCount b) (vsuEntry b) := by
  intro format p i k
  unfold vsuFrame VsuFits vsuCount vsuEntry
  rw [clean_guarded, and_assoc]
  refine and_congr Iff.rfl ?_
  by_cases h0 : bFrameIntervalType b p = 0
  · simp only [if_pos h0, clean_guarded, clean_ok]
    exact and_congr Iff.rfl Iff.rfl
  · simp only [if_neg h0, clean_bind, clean_frameIntervals, clean_ok, Nat.zero_add]
    rw [or_iff_right h0]

theorem frameIs_mjpg : FrameIs (mjpgFrame b w) (MjpgFits w) (fun _ i => i) (mjpgEntry b) := by
  intro format p i k
  exact clean_guarded

theorem room_addFrame {f : FrameEntry} (h : vc.room = n + 1) : (vc.addFrame f).room = n := by
  unfold UvcCtrl.room UvcCtrl.addFrame at *
  rw [List.length_append, List.length_singleton]
  omega

theorem clean_parseFrames {frame : ImageFormat → Nat → Nat → Run Int (FrameEntry × Nat)}
    {fits : Nat → Prop} {count : Nat → Nat → Nat} {entry : ImageFormat → Nat → FrameEntry}
    {k : UvcCtrl × Nat → Prop} {k' : Nat → Nat → Prop} (hf : FrameIs frame fits count entry)
    (hk : ∀ vc' d, vc'.formats = vc.formats → (k (vc', d) ↔ k' vc'.room d)) (hn : vc.room = n) :
    Clean (parseFrames b w subtype frame p n i d vc) k ↔
      FramesFit b w subtype fits count p k' n i d := by
  induction n generalizing i d vc with
  | zero => exact (hk vc d rfl).trans (by rw [hn]; exact Iff.rfl)
  | succ n ih =>
    rw [parseFrames, FramesFit]
    by_cases hi : i < bNumFrameDescriptors b p
    swap
    · rw [if_neg hi, if_neg hi, clean_ok, hk vc d rfl, hn]
    rw [if_pos hi, if_pos hi, clean_guarded]
    refine and_congr Iff.rfl ?_
    by_cases ht : bDescriptorType b (p + d) ≠ uvcCsInterface
    · rw [if_pos ht, clean_early]
      exact iff_of_true trivial (.inl ht)
    rw [if_neg ht, or_iff_right ht, clean_guarded]
    refine and_congr Iff.rfl ?_
    by_cases hs : bDescriptorSubtype b (p + d) ≠ subtype
    · rw [if_pos hs, clean_early]
      exact iff_of_true trivial (.inl hs)
    rw [if_neg hs, or_iff_right hs, clean_bind, hf]
    refine and_congr Iff.rfl ?_
    exact ih (fun vc' d h => hk vc' d h) (room_addFrame hn)

theorem clean_parseFormat {frame : ImageFormat → Nat → Nat → Run Int (FrameEntry × Nat)}
    {fits : Nat → Prop} {count : Nat → Nat → Nat} {entry : ImageFormat → Nat → FrameEntry}
    {k : UvcCtrl × Nat → Prop} {k' : Nat → Nat → Nat → Prop} (hf : FrameIs frame fits count entry)
    (hk : ∀ vc' d, k (vc', d) ↔ k' vc'.formats.length vc'.room d) :
    Clean (parseFormat b w subtype format frame vc p) k ↔
      FormatFits b w subtype fits count p vc.formats.length vc.room k' := by
  unfold parseFormat FormatFits
  rw [clean_guarded]
  refine and_congr Iff.rfl (clean_parseFrames hf (fun vc' d h => ?_) rfl)
  have hlen : vc'.formats.length = vc.formats.length + 1 := by
    rw [h]
    exact List.length_append
  rw [hk, hlen]

theorem clean_parseClassDesc {k : UvcCtrl × Nat → Prop} {k' : Nat → Nat → Nat → Prop}
    (hp : p + sizeofDescIf ≤ w) (hk : ∀ vc' d, k (vc', d) ↔ k' vc'.formats.length vc'.room d) :
    Clean (parseClassDesc b w vc p) k ↔
      ClassDescFits b w p vc.formats.length vc.room k' := by
  have h9 : p + 9 ≤ w := hp
  unfold parseClassDesc ClassDescFits
  rw [clean_guarded, and_iff_right (by omega)]
  split
  · rw [clean_guarded, and_iff_right (by omega), clean_parseFormat frameIs_vsu hk]
  split
  · rw [clean_guarded, and_iff_right (by omega), clean_parseFormat frameIs_mjpg hk]
  split
  · exact hk vc 0
  · exact Iff.rfl

/-! ## Walks -/

theorem atLeast_iff {m : Nat} : AtLeast ((w : Int) - p) m ↔ w < p ∨ p + m ≤ w := by
  unfold AtLeast
  omega

theorem not_atLeast {m : Nat} (hp : p ≤ w) (h : w < p + m) : ¬ AtLeast ((w : Int) - p) m := by
  rw [atLeast_iff]
  omega

theorem clean_parseClassDescs {k : UvcCtrl × Nat → Prop} {k' : Nat → Prop}
    (hk : ∀ vc p, k (vc, p) ↔ k' p) :
    Clean (parseClassDescs b w vc p) k ↔
      ClassDescsFit b w k' vc.formats.length vc.room p := by
  induction hm : w - p using Nat.strong_induction_on generalizing vc p with
  | _ m ih =>
    rw [parseClassDescs, ClassDescsFit]
    by_cases hp : p ≤ w
    swap
    · rw [if_pos (atLeast_iff.mpr (.inl (by omega))), clean_guarded]
      exact iff_of_false (fun h => by omega) fun h => hp h.1
    rw [and_iff_right hp]
    by_cases hs : w < p + sizeofDescIf
    · rw [if_neg (not_atLeast hp hs), if_pos (.inl hs), clean_ok, hk]
    have h9 : p + 9 ≤ w := Nat.not_lt.mp hs
    have hsize : AtLeast ((w : Int) - p) sizeofDescIf := atLeast_iff.mpr (.inr h9)
    rw [if_pos hsize, clean_guarded, and_iff_right (by omega)]
    by_cases ht : bDescriptorType b p ≠ uvcCsInterface
    · rw [if_pos ht, if_pos (.inr ht), clean_ok, hk]
    rw [if_neg ht, if_neg (not_or.mpr ⟨hs, ht⟩), clean_bind]
    refine clean_parseClassDesc h9 fun vc' d => ?_
    by_cases hd : p + d < w
    · rw [dif_pos hd, dif_pos hd]
      by_cases h0 : bLength b (p + d) = 0
      · rw [dif_pos h0, dif_pos h0, clean_early]
      · rw [dif_neg h0, dif_neg h0]
        have hlt : p < nextDesc b (p + d) := by
          unfold nextDesc
          omega
        exact ih _ (by omega : w - nextDesc b (p + d) < m) rfl
    · rw [dif_neg hd, dif_neg hd, clean_fault]

theorem streamFields_ne_nil : streamFields ifNum ≠ [] := List.cons_ne_nil _ _

theorem streamFields_lt : ∀ f ∈ streamFields ifNum, f.1 < sizeofDescIf := by
  simp [streamFields, sizeofDescIf]

theorem clean_parseAlts : Clean (parseAlts b w ifNum alts p) (fun _ => True) ↔
    AltsFit b w ifNum alts.length p := by
  induction hm : w - p using Nat.strong_induction_on generalizing alts p with
  | _ m ih =>
    rw [parseAlts, AltsFit]
    by_cases hp : p ≤ w
    swap
    · rw [if_pos (atLeast_iff.mpr (.inl (by omega))),
        Uac.fieldsAre_none streamFields_ne_nil (by omega)]
      exact iff_of_false id fun h => hp h.1
    rw [and_iff_right hp]
    by_cases hs : w < p + sizeofDescIf
    · rw [if_neg (not_atLeast hp hs), if_pos (.inl hs), clean_ok]
    have h9 : p + 9 ≤ w := Nat.not_lt.mp hs
    have hsize : AtLeast ((w : Int) - p) sizeofDescIf := atLeast_iff.mpr (.inr h9)
    rw [if_pos hsize, Uac.fieldsAre_eq fun f hf => by
      have hlt : f.1 < 9 := streamFields_lt f hf
      omega]
    cases hmatch : Matches b (streamFields ifNum) p with
    | false =>
      have hend : w < p + sizeofDescIf ∨ false = false := .inr rfl
      rw [if_pos hend]
      exact Iff.rfl
    | true =>
      have hnot : ¬ (w < p + sizeofDescIf ∨ true = false) := not_or.mpr ⟨hs, by decide⟩
      have h8 : ¬ (w : Int) - p < 8 := by omega
      rw [if_neg hnot]
      dsimp only
      rw [if_neg h8]
      by_cases h0 : bLength b p = 0
      · rw [dif_pos h0, dif_pos h0, clean_early]
      rw [dif_neg h0, dif_neg h0]
      have hlt : p < nextDesc b p := by
        unfold nextDesc
        omega
      by_cases h1 : nextDesc b p + 1 < w
      swap
      · rw [dif_neg h1, dif_neg h1, clean_fault]
      rw [dif_pos h1, dif_pos h1]
      by_cases ht : bDescriptorType b (nextDesc b p) ≠ usbDtEndpoint
      · rw [if_pos ht, if_pos ht]
        exact ih _ (by omega) rfl
      rw [if_neg ht, if_neg ht, ← and_assoc]
      by_cases h5 : nextDesc b p + 5 < w ∧ alts.length < uvcMaxAltIf
      swap
      · rw [if_neg h5, clean_fault]
        exact iff_of_false id fun h => h5 h.1
      rw [if_pos h5, and_iff_right h5]
      by_cases hl : bLength b (nextDesc b p) = 0
      · rw [if_pos hl, clean_early]
        exact iff_of_true trivial (.inl hl)
      · rw [if_neg hl, or_iff_right hl]
        have hlt' : nextDesc b p < nextDesc b (nextDesc b p) := by
          show nextDesc b p < nextDesc b p + bLength b (nextDesc b p)
          omega
        have hlen : ∀ e : AltEntry, (alts ++ [e]).length = alts.length + 1 := fun e =>
          List.length_append
        rw [← hlen ⟨bAlternateSetting b p, Core.packetSize (wMaxPacketSize b (nextDesc b p))⟩]
        exact ih _ (by omega : w - nextDesc b (nextDesc b p) < m) rfl

theorem streamSafe_iff {vdev : UvcDev} : StreamSafe b ifNum vdev ↔ StreamFits b ifNum vdev := by
  unfold StreamSafe StreamFits uvcParseStreamingInterface
  dsimp only
  rw [clean_guarded, Uac.seek_eq streamFields_ne_nil streamFields_lt]
  refine and_congr Iff.rfl ?_
  by_cases hseek : SeekFits b (wTotalLength b) (streamFields ifNum) (bLength b 0)
  swap
  · rw [if_neg hseek]
    exact iff_of_false id fun h => hseek h.1
  rw [if_pos hseek, and_iff_right hseek]
  cases found b (wTotalLength b) (streamFields ifNum) (bLength b 0) with
  | none => exact iff_of_true trivial fun p hp => nomatch hp
  | some p =>
    simp only [Option.mem_some_iff, forall_eq']
    unfold parseStream
    simp only [clean_bind, clean_ok]
    exact clean_parseClassDescs fun vc p => clean_parseAlts

end

end Ma35d1.UsbHost.Uvc.Parser
