import Mathlib.Data.List.Infix
import Ma35d1.Machine.Trace
import Ma35d1.UsbHost.Uvc.Streaming

/-!
# What becomes of a frame

A frame is sent as packets with one FID, the last of which has EOF; some of them may be lost.
Three things go wrong: the first payload of an image is copied without a look at its length,
at ERR or at EOF; a frame that meets what is left of another one is dropped with it; and a
packet with two flag bits set ends the image.
-/

namespace Ma35d1.UsbHost.Uvc

open Machine.Trace

variable {v : Vdev} {p : Packet} {l : List Packet}

/-! ## One packet -/

/-- A packet that is not ignored. -/
def Valid (p : Packet) : Prop := 2 ≤ p.length ∧ hdrLen p ≤ p.length

instance : DecidablePred Valid := fun _ => inferInstanceAs (Decidable (_ ∧ _))

theorem payload_length (p : Packet) : (payload p).length = p.length - hdrLen p :=
  List.length_drop ..

namespace Vdev

/-- The payload is appended to a started image. -/
def append (v : Vdev) (p : Packet) : Vdev :=
  if 0 < p.length - hdrLen p then
    { v.copy v.imgSize p with imgSize := v.imgSize + (p.length - hdrLen p) }
  else v

/-- The payload is the first of an image. -/
def start (v : Vdev) (p : Packet) : Vdev :=
  { Vdev.copy { v with currentFrameToggle := fid p } 0 p with imgSize := p.length - hdrLen p }

theorem range_memcpy (b : Nat → BitVec 8) (n : Nat) (d : List (BitVec 8)) :
    (List.range (n + d.length)).map (memcpy b n d) = (List.range n).map b ++ d := by
  rw [List.range_add, List.map_append, List.map_map]
  congr 1
  · apply List.map_congr_left
    intro i hi
    exact if_pos (List.mem_range.1 hi)
  · apply List.ext_getElem
    · simp
    · intro i h₁ h₂
      have hn : ¬ n + i < n := by omega
      simp [memcpy, hn, h₂]

theorem append_image (v : Vdev) (p : Packet) : (v.append p).image = v.image ++ payload p := by
  unfold append
  split
  · have h := range_memcpy v.imgBuff v.imgSize (payload p)
    rwa [payload_length] at h
  · have hnil : payload p = [] := List.eq_nil_of_length_eq_zero (by rw [payload_length]; omega)
    rw [hnil, List.append_nil]

theorem start_image (v : Vdev) (p : Packet) : (v.start p).image = payload p := by
  have h := range_memcpy v.imgBuff 0 (payload p)
  rw [payload_length, Nat.zero_add] at h
  exact h

@[simp] theorem append_toggle (v : Vdev) (p : Packet) :
    (v.append p).currentFrameToggle = v.currentFrameToggle := by unfold append; split <;> rfl

@[simp] theorem append_error (v : Vdev) (p : Packet) :
    (v.append p).currentFrameError = v.currentFrameError := by unfold append; split <;> rfl

@[simp] theorem append_images (v : Vdev) (p : Packet) : (v.append p).images = v.images := by
  unfold append; split <;> rfl

@[simp] theorem append_imgBuffSize (v : Vdev) (p : Packet) :
    (v.append p).imgBuffSize = v.imgBuffSize := by unfold append; split <;> rfl

@[simp] theorem append_funcRx (v : Vdev) (p : Packet) : (v.append p).funcRx = v.funcRx := by
  unfold append; split <;> rfl

theorem append_imgSize (v : Vdev) (p : Packet) :
    (v.append p).imgSize = v.imgSize + (p.length - hdrLen p) := by
  unfold append
  split
  · rfl
  · omega

end Vdev

/-- What `uvc_parse_streaming_data` makes of a valid packet. -/
inductive Parsed (v : Vdev) (p : Packet) : Vdev → Prop
  | dropped (herr : v.currentFrameError = true) (heof : hasEof p = false) : Parsed v p v
  | resync (herr : v.currentFrameError = true) (heof : hasEof p = true) :
      Parsed v p { v with currentFrameError := false, imgSize := 0 }
  | empty (herr : v.currentFrameError = false) (hsize : v.imgSize = 0) (hdata : payload p = []) :
      Parsed v p { v with currentFrameToggle := fid p }
  | start (herr : v.currentFrameError = false) (hsize : v.imgSize = 0) (hdata : payload p ≠ []) :
      Parsed v p (v.start p)
  | bad (herr : v.currentFrameError = false) (hsize : v.imgSize ≠ 0)
      (hbad : fid p ≠ v.currentFrameToggle ∨ hasErr p = true ∨
        v.imgBuffSize < v.imgSize + (p.length - hdrLen p)) :
      Parsed v p { v with currentFrameError := true }
  | ended (herr : v.currentFrameError = false) (hsize : v.imgSize ≠ 0)
      (hfid : fid p = v.currentFrameToggle) (hgood : hasErr p = false)
      (hres : hasResPts p = true) : Parsed v p v.deliver
  | middle (herr : v.currentFrameError = false) (hsize : v.imgSize ≠ 0)
      (hfid : fid p = v.currentFrameToggle) (hgood : hasErr p = false)
      (hroom : v.imgSize + (p.length - hdrLen p) ≤ v.imgBuffSize) (heof : hasEof p = false) :
      Parsed v p (v.append p)
  | last (herr : v.currentFrameError = false) (hsize : v.imgSize ≠ 0)
      (hfid : fid p = v.currentFrameToggle) (hgood : hasErr p = false)
      (hroom : v.imgSize + (p.length - hdrLen p) ≤ v.imgBuffSize) (heof : hasEof p = true) :
      Parsed v p (v.append p).deliver

theorem payload_eq_nil_iff : payload p = [] ↔ ¬ 0 < p.length - hdrLen p := by
  rw [← payload_length, List.length_pos_iff, not_not]

theorem parseStreamingData_invalid (hv : ¬ Valid p) : parseStreamingData v p = v := by
  unfold parseStreamingData
  split
  · rfl
  · rename_i h₁
    rw [if_pos]
    by_contra h₂
    exact hv ⟨by omega, by omega⟩

theorem parsed (v : Vdev) (hv : Valid p) : Parsed v p (parseStreamingData v p) := by
  obtain ⟨hlen, hhdr⟩ := hv
  unfold parseStreamingData
  rw [if_neg (by omega), if_neg (by omega)]
  dsimp only
  by_cases herr : v.currentFrameError = true
  · rw [if_pos herr]
    by_cases heof : hasEof p = true
    · rw [if_pos heof]
      exact .resync herr heof
    · rw [if_neg heof]
      exact .dropped herr (Bool.eq_false_of_not_eq_true heof)
  · rw [if_neg herr]
    have herr := Bool.eq_false_of_not_eq_true herr
    by_cases hsize : v.imgSize = 0
    · rw [if_pos hsize]
      by_cases hdata : 0 < p.length - hdrLen p
      · rw [if_pos hdata]
        exact .start herr hsize fun h => payload_eq_nil_iff.1 h hdata
      · rw [if_neg hdata]
        exact .empty herr hsize (payload_eq_nil_iff.2 hdata)
    rw [if_neg hsize]
    by_cases hfid : fid p = v.currentFrameToggle
    · rw [if_neg (not_not.2 hfid)]
      by_cases hgood : hasErr p = true
      · rw [if_pos hgood]
        exact .bad herr hsize (.inr (.inl hgood))
      rw [if_neg hgood]
      have hgood := Bool.eq_false_of_not_eq_true hgood
      by_cases hres : hasResPts p = true
      · rw [if_pos hres]
        exact .ended herr hsize hfid hgood hres
      rw [if_neg hres]
      by_cases hroom : v.imgBuffSize < v.imgSize + (p.length - hdrLen p)
      · rw [if_pos hroom]
        exact .bad herr hsize (.inr (.inr hroom))
      rw [if_neg hroom]
      by_cases heof : hasEof p = true
      · rw [if_pos heof]
        exact .last herr hsize hfid hgood (Nat.not_lt.1 hroom) heof
      · rw [if_neg heof]
        exact .middle herr hsize hfid hgood (Nat.not_lt.1 hroom)
          (Bool.eq_false_of_not_eq_true heof)
    · rw [if_pos hfid]
      exact .bad herr hsize (.inl hfid)

/-! ## The image buffer -/

/-- The image fits, and every copy stayed in the buffer and in its packet. -/
structure Inside (v : Vdev) : Prop where
  imgSize : v.imgSize ≤ v.imgBuffSize
  copies : ∀ c ∈ v.copies, c.dst + c.len ≤ c.imgBuffSize ∧ c.src + c.len ≤ c.pktLen

/-- A payload that starts an image fits and is free of error: nothing checks it. -/
def KeepsPacket (v : Vdev) (p : Packet) : Prop :=
  Valid p → v.currentFrameError = false → v.imgSize = 0 → payload p ≠ [] →
    (payload p).length ≤ v.imgBuffSize ∧ hasErr p = false

def packetStep (v : Vdev) (p : Packet) : Option Vdev := some (parseStreamingData v p)

theorem append_inside (h : Inside v) (hv : Valid p)
    (hroom : v.imgSize + (p.length - hdrLen p) ≤ v.imgBuffSize) : Inside (v.append p) := by
  have hhdr := hv.2
  constructor
  · rw [Vdev.append_imgSize, Vdev.append_imgBuffSize]
    exact hroom
  · unfold Vdev.append
    split
    · exact List.forall_mem_cons.2 ⟨⟨hroom, by dsimp only; omega⟩, h.copies⟩
    · exact h.copies

theorem deliver_inside (h : Inside v) : Inside v.deliver := ⟨Nat.zero_le _, h.copies⟩

theorem parse_inside (h : Inside v) (hk : KeepsPacket v p) : Inside (parseStreamingData v p) := by
  by_cases hv : Valid p
  · have hhdr := hv.2
    have hp := parsed v hv
    generalize parseStreamingData v p = w at hp ⊢
    cases hp with
    | dropped => exact h
    | resync => exact ⟨Nat.zero_le _, h.copies⟩
    | empty => exact ⟨h.imgSize, h.copies⟩
    | start herr hsize hdata =>
      have hfit := (hk hv herr hsize hdata).1
      rw [payload_length] at hfit
      refine ⟨hfit, List.forall_mem_cons.2 ⟨⟨?_, by dsimp only; omega⟩, h.copies⟩⟩
      rw [Nat.zero_add]
      exact hfit
    | bad => exact ⟨h.imgSize, h.copies⟩
    | ended => exact deliver_inside h
    | middle _ _ _ _ hroom => exact append_inside h hv hroom
    | last _ _ _ _ hroom => exact deliver_inside (append_inside h hv hroom)
  · rw [parseStreamingData_invalid hv]
    exact h

theorem parse_funcRx (v : Vdev) (p : Packet) : (parseStreamingData v p).funcRx = v.funcRx := by
  by_cases hv : Valid p
  · have hp := parsed v hv
    generalize parseStreamingData v p = w at hp ⊢
    cases hp with
    | middle | last => exact Vdev.append_funcRx v p
    | _ => rfl
  · rw [parseStreamingData_invalid hv]

/-! ## Images of one frame -/

/-- An image made of payloads of `l`, in order, with one FID and without error. -/
def OfPackets (l : List Packet) (img : List (BitVec 8)) : Prop :=
  ∃ ps : List Packet, ps.Sublist l ∧ (∃ f, ∀ p ∈ ps, fid p = f ∧ hasErr p = false) ∧ img = ps.flatMap payload

/-- The image in the buffer, if it counts, is made of packets of `l`. -/
def Held (l : List Packet) (v : Vdev) : Prop :=
  v.currentFrameError = true ∨ v.imgSize = 0 ∨ ∃ ps : List Packet, ps.Sublist l ∧
    (∀ p ∈ ps, fid p = v.currentFrameToggle ∧ hasErr p = false) ∧ v.image = ps.flatMap payload

theorem OfPackets.mono {l l' : List Packet} {img : List (BitVec 8)} (hs : l.Sublist l')
    (h : OfPackets l img) : OfPackets l' img := by
  obtain ⟨ps, hps, hone, himg⟩ := h
  exact ⟨ps, hps.trans hs, hone, himg⟩

/-- What is held becomes an image. -/
theorem deliver_images (v : Vdev) :
    v.deliver.images = v.images ∨ v.imgSize ≠ 0 ∧ v.deliver.images = v.images ++ [v.image] := by
  unfold Vdev.deliver
  dsimp only
  split
  · rename_i h
    simp only [Bool.and_eq_true, decide_eq_true_eq] at h
    exact .inr ⟨by omega, rfl⟩
  · exact .inl rfl

theorem Held.append (h : Held l v) (herr : v.currentFrameError = false) (hsize : v.imgSize ≠ 0)
    (hfid : fid p = v.currentFrameToggle) (hgood : hasErr p = false) :
    ∃ ps : List Packet, ps.Sublist (l ++ [p]) ∧
      (∀ p ∈ ps, fid p = v.currentFrameToggle ∧ hasErr p = false) ∧
      (v.append p).image = ps.flatMap payload := by
  rcases h with h | h | ⟨ps, hps, hone, himg⟩
  · rw [herr] at h
    cases h
  · exact absurd h hsize
  · refine ⟨ps ++ [p], hps.append_right [p], fun q hq => ?_, ?_⟩
    · rcases List.mem_append.1 hq with hq | hq
      · exact hone q hq
      · rw [List.mem_singleton.1 hq]
        exact ⟨hfid, hgood⟩
    · rw [Vdev.append_image, himg, List.flatMap_append, List.flatMap_singleton]

/-- A packet leaves what is held made of packets of the frame, and so is what it delivers. -/
theorem parse_held (h : Held l v) (hk : KeepsPacket v p) :
    Held (l ++ [p]) (parseStreamingData v p) ∧
      ∃ new, (parseStreamingData v p).images = v.images ++ new ∧
        ∀ img ∈ new, OfPackets (l ++ [p]) img := by
  have hsub : ∀ {ps : List Packet}, ps.Sublist l → ps.Sublist (l ++ [p]) := fun hs =>
    hs.trans (List.sublist_append_left l [p])
  have hnone : ∀ {w : Vdev}, w.images = v.images → ∃ new, w.images = v.images ++ new ∧
      ∀ img ∈ new, OfPackets (l ++ [p]) img := fun hw =>
    ⟨[], by rw [hw, List.append_nil], nofun⟩
  by_cases hv : Valid p
  · have hp := parsed v hv
    generalize parseStreamingData v p = w at hp ⊢
    cases hp with
    | dropped herr => exact ⟨.inl herr, hnone rfl⟩
    | resync => exact ⟨.inr (.inl rfl), hnone rfl⟩
    | empty _ hsize => exact ⟨.inr (.inl hsize), hnone rfl⟩
    | start herr hsize hdata =>
      refine ⟨.inr (.inr ⟨[p], List.sublist_append_right l [p], ?_, ?_⟩), hnone rfl⟩
      · intro q hq
        rw [List.mem_singleton.1 hq]
        exact ⟨rfl, (hk hv herr hsize hdata).2⟩
      · rw [Vdev.start_image, List.flatMap_singleton]
    | bad => exact ⟨.inl rfl, hnone rfl⟩
    | ended herr hsize =>
      refine ⟨.inr (.inl rfl), ?_⟩
      rcases deliver_images v with hd | ⟨-, hd⟩
      · exact hnone hd
      · refine ⟨[v.image], hd, fun img himg => ?_⟩
        rw [List.mem_singleton.1 himg]
        rcases h with h | h | ⟨ps, hps, hone, hi⟩
        · rw [herr] at h
          cases h
        · exact absurd h hsize
        · exact ⟨ps, hsub hps, ⟨_, hone⟩, hi⟩
    | middle herr hsize hfid hgood =>
      obtain ⟨ps, hps, hone, himg⟩ := h.append herr hsize hfid hgood
      refine ⟨.inr (.inr ⟨ps, hps, ?_, himg⟩), hnone (Vdev.append_images v p)⟩
      rw [Vdev.append_toggle]
      exact hone
    | last herr hsize hfid hgood =>
      obtain ⟨ps, hps, hone, himg⟩ := h.append herr hsize hfid hgood
      refine ⟨.inr (.inl rfl), ?_⟩
      rcases deliver_images (v.append p) with hd | ⟨-, hd⟩
      · exact hnone (hd.trans (Vdev.append_images v p))
      · rw [Vdev.append_images] at hd
        refine ⟨[(v.append p).image], hd, fun img hi => ?_⟩
        rw [List.mem_singleton.1 hi]
        exact ⟨ps, hps, ⟨_, hone⟩, himg⟩
  · rw [parseStreamingData_invalid hv]
    refine ⟨?_, hnone rfl⟩
    rcases h with h | h | ⟨ps, hps, hone, hi⟩
    · exact .inl h
    · exact .inr (.inl h)
    · exact .inr (.inr ⟨ps, hsub hps, hone, hi⟩)

theorem feed_cons (v : Vdev) (p : Packet) (l : List Packet) :
    feed v (p :: l) = feed (parseStreamingData v p) l := rfl

theorem feed_held {l' : List Packet} (h : Held l v) (hk : EachStep packetStep KeepsPacket v l') :
    ∃ new, (feed v l').images = v.images ++ new ∧ ∀ img ∈ new, OfPackets (l ++ l') img := by
  induction l' generalizing v l with
  | nil => exact ⟨[], (List.append_nil _).symm, nofun⟩
  | cons p l' ih =>
    obtain ⟨hp, hl⟩ := hk _ rfl
    obtain ⟨h', new, hnew, hof⟩ := parse_held h hp
    obtain ⟨new', hnew', hof'⟩ := ih h' hl
    rw [feed_cons]
    refine ⟨new ++ new', by rw [hnew', hnew, List.append_assoc], fun img himg => ?_⟩
    rw [List.append_cons]
    rcases List.mem_append.1 himg with hi | hi
    · exact (hof img hi).mono (List.sublist_append_left (l ++ [p]) l')
    · exact hof' img hi

/-! ## Frames -/

/-- The packets that are not ignored. -/
def headers (l : List Packet) : List Packet := l.filter Valid

theorem headers_cons_of_valid (hv : Valid p) : headers (p :: l) = p :: headers l :=
  List.filter_cons_of_pos (by simpa using hv)

theorem headers_cons_of_not (hv : ¬ Valid p) : headers (p :: l) = headers l :=
  List.filter_cons_of_neg (by simpa using hv)

theorem feed_headers (v : Vdev) (l : List Packet) : feed v l = feed v (headers l) := by
  induction l generalizing v with
  | nil => rfl
  | cons p l ih =>
    by_cases hv : Valid p
    · rw [headers_cons_of_valid hv, feed_cons, feed_cons, ih]
    · rw [headers_cons_of_not hv, feed_cons, parseStreamingData_invalid hv, ih]

/-- EOF is on the last packet and on no other. -/
def Ends : List Packet → Prop
  | [] => False
  | p :: l => if l = [] then hasEof p = true else hasEof p = false ∧ Ends l

instance decidableEnds : (l : List Packet) → Decidable (Ends l)
  | [] => inferInstanceAs (Decidable False)
  | p :: l =>
    have := decidableEnds l
    inferInstanceAs (Decidable (if l = [] then hasEof p = true else hasEof p = false ∧ Ends l))

/-- The packets of one frame, from the first to the one with EOF, none with an error. -/
structure IsFrame (l : List Packet) : Prop where
  ends : Ends (headers l)
  one : ∃ f, ∀ p ∈ headers l, fid p = f ∧ hasErr p = false

/-- The image that the packets make. -/
def frameImage (l : List Packet) : List (BitVec 8) := (headers l).flatMap payload

/-- A frame as it was sent, and those of its packets that are parsed. -/
structure Frame where
  sent : List Packet
  arrived : List Packet
  sub : arrived.Sublist sent

/-- All packets of a frame arrive, and it fits in the buffer. -/
structure Complete (imgBuffSize : Nat) (f : Frame) : Prop where
  arrived : f.arrived = f.sent
  isFrame : IsFrame f.sent
  fits : (frameImage f.sent).length ≤ imgBuffSize

def noPayload (p : Packet) : Bool := (payload p).isEmpty

/-- The packets behind the first payload. -/
def later (l : List Packet) : List Packet :=
  ((headers l).dropWhile noPayload).tail

/-- What the code needs of a complete frame and of the state it starts in. -/
structure Regular (v : Vdev) (l : List Packet) : Prop where
  imgSize : v.imgSize = 0
  noError : v.currentFrameError = false
  later : later l ≠ []
  noResPts : ∀ p ∈ Uvc.later l, hasResPts p = false

/-- A frame that arrives whole is regular; one that does not is told from what is in the
buffer by its FID; and no payload starts an image unchecked. -/
structure KeepsFrame (v : Vdev) (f : Frame) : Prop where
  whole : Complete v.imgBuffSize f → Regular v f.sent
  fresh : ∀ p, (headers f.arrived).head? = some p → v.imgSize ≠ 0 →
    v.currentFrameError = false → fid p ≠ v.currentFrameToggle
  packets : EachStep packetStep KeepsPacket v f.arrived

/-- The images of a frame are made of its packets only. -/
theorem frame_images (hfresh : ∀ p, (headers l).head? = some p → v.imgSize ≠ 0 →
      v.currentFrameError = false → fid p ≠ v.currentFrameToggle)
    (hk : EachStep packetStep KeepsPacket v l) :
    ∃ new, (feed v l).images = v.images ++ new ∧ ∀ img ∈ new, OfPackets l img := by
  by_cases herr : v.currentFrameError = true
  · exact feed_held (l := []) (.inl herr) hk
  by_cases hsize : v.imgSize = 0
  · exact feed_held (l := []) (.inr (.inl hsize)) hk
  have herr := Bool.eq_false_of_not_eq_true herr
  induction l with
  | nil => exact ⟨[], (List.append_nil _).symm, nofun⟩
  | cons p l ih =>
    by_cases hv : Valid p
    · have hhead := hfresh p (by rw [headers_cons_of_valid hv]; rfl) hsize herr
      have hp := parsed v hv
      obtain ⟨-, hl⟩ := hk _ rfl
      rw [feed_cons]
      generalize parseStreamingData v p = w at hp hl ⊢
      -- the first packet meets an image that is not its own
      have hbad : w.currentFrameError = true ∧ w.images = v.images := by
        cases hp with
        | bad => exact ⟨rfl, rfl⟩
        | dropped h | resync h =>
          rw [herr] at h
          cases h
        | empty _ h | start _ h => exact absurd h hsize
        | ended _ _ h | middle _ _ h | last _ _ h => exact absurd h hhead
      rw [← hbad.2]
      exact feed_held (l := [p]) (.inl hbad.1) hl
    · obtain ⟨-, hl⟩ := hk _ rfl
      rw [feed_cons]
      rw [parseStreamingData_invalid hv] at hl ⊢
      obtain ⟨new, hnew, hof⟩ := ih (fun q hq => hfresh q (by rwa [headers_cons_of_not hv])) hl
      exact ⟨new, hnew, fun img hi => (hof img hi).mono (List.sublist_cons_self p l)⟩

/-- A packet of the frame that is being assembled. -/
theorem parse_good (hv : Valid p) (herr : v.currentFrameError = false) (hsize : v.imgSize ≠ 0)
    (hfid : fid p = v.currentFrameToggle) (hgood : hasErr p = false) (hres : hasResPts p = false)
    (hroom : v.imgSize + (payload p).length ≤ v.imgBuffSize) :
    parseStreamingData v p = if hasEof p then (v.append p).deliver else v.append p := by
  have hp := parsed v hv
  rw [payload_length] at hroom
  generalize parseStreamingData v p = w at hp ⊢
  cases hp with
  | dropped h | resync h =>
    rw [herr] at h
    cases h
  | empty _ h | start _ h => exact absurd h hsize
  | bad _ _ h =>
    rcases h with h | h | h
    · exact absurd hfid h
    · rw [hgood] at h
      cases h
    · omega
  | ended _ _ _ _ h =>
    rw [hres] at h
    cases h
  | middle _ _ _ _ _ h => rw [h, if_neg nofun]
  | last _ _ _ _ _ h => rw [h, if_pos rfl]

/-- The packets up to EOF complete the image and hand it over. -/
theorem feed_started (hv : ∀ p ∈ l, Valid p) (hends : Ends l) (hrx : v.funcRx = true)
    (herr : v.currentFrameError = false) (hsize : v.imgSize ≠ 0)
    (hone : ∀ p ∈ l, fid p = v.currentFrameToggle ∧ hasErr p = false)
    (hres : ∀ p ∈ l, hasResPts p = false)
    (hroom : v.imgSize + (l.flatMap payload).length ≤ v.imgBuffSize) :
    (feed v l).images = v.images ++ [v.image ++ l.flatMap payload] := by
  induction l generalizing v with
  | nil => exact hends.elim
  | cons p l ih =>
    obtain ⟨hvp, hvl⟩ := List.forall_mem_cons.1 hv
    obtain ⟨⟨hfid, hgood⟩, honel⟩ := List.forall_mem_cons.1 hone
    obtain ⟨hresp, hresl⟩ := List.forall_mem_cons.1 hres
    rw [List.flatMap_cons, List.length_append] at hroom
    have hparse := parse_good hvp herr hsize hfid hgood hresp (by omega)
    have hgrown : (v.append p).imgSize = v.imgSize + (payload p).length := by
      rw [Vdev.append_imgSize, payload_length]
    rw [feed_cons, List.flatMap_cons, ← List.append_assoc, ← Vdev.append_image]
    by_cases hl : l = []
    · have heof : hasEof p = true := by rwa [Ends, if_pos hl] at hends
      rw [hparse, heof, if_pos rfl, hl, List.flatMap_nil, List.append_nil]
      show (v.append p).deliver.images = _
      have hpos : 0 < (v.append p).imgSize := by omega
      simp [Vdev.deliver, hrx, hpos]
    · obtain ⟨heof, hends⟩ : hasEof p = false ∧ Ends l := by rwa [Ends, if_neg hl] at hends
      rw [hparse, heof, if_neg nofun, ← Vdev.append_images v p]
      apply ih hvl hends
      · rw [Vdev.append_funcRx, hrx]
      · rw [Vdev.append_error, herr]
      · omega
      · simpa using honel
      · exact hresl
      · rw [Vdev.append_imgBuffSize]
        omega

/-- The packets of a whole frame, from a clean start: those without payload are passed over,
the next one starts the image. -/
theorem feed_clean {f : BitVec 8} (hv : ∀ p ∈ l, Valid p) (hends : Ends l)
    (hrx : v.funcRx = true) (herr : v.currentFrameError = false) (hsize : v.imgSize = 0)
    (hone : ∀ p ∈ l, fid p = f ∧ hasErr p = false)
    (hlater : (l.dropWhile noPayload).tail ≠ [])
    (hres : ∀ p ∈ (l.dropWhile noPayload).tail, hasResPts p = false)
    (hroom : (l.flatMap payload).length ≤ v.imgBuffSize) :
    (feed v l).images = v.images ++ [l.flatMap payload] := by
  induction l generalizing v with
  | nil => exact hends.elim
  | cons p l ih =>
    obtain ⟨hvp, hvl⟩ := List.forall_mem_cons.1 hv
    obtain ⟨⟨hfid, hgood⟩, honel⟩ := List.forall_mem_cons.1 hone
    have hp := parsed v hvp
    rw [feed_cons]
    by_cases hdata : payload p = []
    · have hskip : noPayload p = true := by simpa [noPayload] using hdata
      rw [List.dropWhile_cons_of_pos hskip] at hlater hres
      have hl : l ≠ [] := by
        rintro rfl
        exact hlater rfl
      have hends : Ends l := by
        rw [Ends, if_neg hl] at hends
        exact hends.2
      rw [List.flatMap_cons, hdata, List.nil_append] at hroom ⊢
      have hparse : parseStreamingData v p = { v with currentFrameToggle := fid p } := by
        generalize parseStreamingData v p = w at hp ⊢
        cases hp with
        | empty => rfl
        | dropped h | resync h =>
          rw [herr] at h
          cases h
        | start _ _ h => exact absurd hdata h
        | bad _ h | ended _ h | middle _ h | last _ h => exact absurd hsize h
      rw [hparse]
      exact ih (v := { v with currentFrameToggle := fid p }) hvl hends hrx herr hsize honel
        hlater hres hroom
    · have hkeep : ¬ noPayload p = true := by simpa [noPayload] using hdata
      rw [List.dropWhile_cons_of_neg hkeep, List.tail_cons] at hlater hres
      have hends : Ends l := by
        rw [Ends, if_neg hlater] at hends
        exact hends.2
      have hparse : parseStreamingData v p = v.start p := by
        generalize parseStreamingData v p = w at hp ⊢
        cases hp with
        | start => rfl
        | dropped h | resync h =>
          rw [herr] at h
          cases h
        | empty _ _ h => exact absurd h hdata
        | bad _ h | ended _ h | middle _ h | last _ h => exact absurd hsize h
      have hlen : (v.start p).imgSize = (payload p).length := (payload_length p).symm
      have hpos := List.length_pos_iff.2 hdata
      rw [List.flatMap_cons, List.length_append] at hroom
      have hstart := feed_started (v := v.start p) hvl hends hrx herr (by omega)
        (fun q hq => ⟨(honel q hq).1.trans hfid.symm, (honel q hq).2⟩) hres
        (by rw [hlen]; exact hroom)
      rw [Vdev.start_image] at hstart
      rw [hparse, List.flatMap_cons]
      exact hstart

theorem frame_whole {f : Frame} (hrx : v.funcRx = true) (hc : Complete v.imgBuffSize f)
    (hr : Regular v f.sent) : (feed v f.arrived).images = v.images ++ [frameImage f.sent] := by
  obtain ⟨fid, hone⟩ := hc.isFrame.one
  rw [hc.arrived, feed_headers]
  have hvalid : ∀ p ∈ headers f.sent, Valid p := fun p hp => by
    simpa using List.of_mem_filter hp
  exact feed_clean hvalid hc.isFrame.ends hrx hr.noError hr.imgSize hone hr.later hr.noResPts
    hc.fits

/-! ## Streams -/

/-- What happens to a stream: a frame is sent, or the application changes the buffer, as it
may do when it is handed an image. -/
inductive Event
  | frame (f : Frame)
  | setVideoBuffer (imageBuff : Nat → BitVec 8) (imgBuffSize : Nat)

def step (v : Vdev) : Event → Option Vdev
  | .frame f => some (feed v f.arrived)
  | .setVideoBuffer imageBuff imgBuffSize => some (setVideoBuffer v imageBuff imgBuffSize)

/-- The images that a frame brings about are made of its own packets, and a frame that arrives
whole and fits brings about its image and no other. -/
structure Delivered (v : Vdev) (f : Frame) : Prop where
  inside : Always packetStep Inside v f.arrived
  images : ∃ new, (feed v f.arrived).images = v.images ++ new ∧
    (∀ img ∈ new, OfPackets f.arrived img) ∧
    (Complete v.imgBuffSize f → new = [frameImage f.sent])

/-- The property of a step. -/
def StepDelivers (v : Vdev) : Event → Prop
  | .frame f => Delivered v f
  | .setVideoBuffer _ _ => True

/-- The condition on a step. -/
def Keeps (v : Vdev) : Event → Prop
  | .frame f => KeepsFrame v f
  | .setVideoBuffer _ _ => True

/-- What holds between the frames. -/
structure Streaming (v : Vdev) : Prop where
  inside : Inside v
  funcRx : v.funcRx = true

theorem feed_always (h : Inside v) (hk : EachStep packetStep KeepsPacket v l) :
    Always packetStep Inside v l :=
  always_of_eachStep (fun _ _ _ hi hp ht => Option.some.inj ht ▸ parse_inside hi hp) h hk

theorem run_packetStep (v : Vdev) (l : List Packet) : run packetStep v l = some (feed v l) := by
  induction l generalizing v with
  | nil => rfl
  | cons p l ih => exact ih (parseStreamingData v p)

theorem feed_funcRx (v : Vdev) (l : List Packet) : (feed v l).funcRx = v.funcRx := by
  induction l generalizing v with
  | nil => rfl
  | cons p l ih => rw [feed_cons, ih, parse_funcRx]

theorem frame_delivered {f : Frame} (hs : Streaming v) (hk : KeepsFrame v f) : Delivered v f := by
  refine ⟨feed_always hs.inside hk.packets, ?_⟩
  obtain ⟨new, hnew, hof⟩ := frame_images hk.fresh hk.packets
  refine ⟨new, hnew, hof, fun hc => ?_⟩
  have hwhole := frame_whole hs.funcRx hc (hk.whole hc)
  rw [hnew] at hwhole
  exact List.append_cancel_left hwhole

theorem step_streaming {e : Event} {w : Vdev} (hs : Streaming v) (hk : Keeps v e)
    (h : step v e = some w) : Streaming w := by
  cases e with
  | frame f =>
    obtain rfl := Option.some.inj h
    refine ⟨(feed_always hs.inside hk.packets).last (run_packetStep v f.arrived), ?_⟩
    rw [feed_funcRx, hs.funcRx]
  | setVideoBuffer imageBuff imgBuffSize =>
    obtain rfl := Option.some.inj h
    exact ⟨⟨Nat.zero_le _, hs.inside.copies⟩, hs.funcRx⟩

theorem step_delivers {e : Event} (hs : Streaming v) (hk : Keeps v e) : StepDelivers v e := by
  cases e with
  | frame f => exact frame_delivered hs hk
  | setVideoBuffer imageBuff imgBuffSize => trivial

theorem init_streaming (size : Nat) : Streaming (Vdev.init size) := ⟨⟨Nat.zero_le _, nofun⟩, rfl⟩

/-- While the steps meet the condition, no copy leaves the buffer, every image is made of
packets of one frame, and every frame that arrives whole is handed over exactly once. -/
theorem run_delivers (size : Nat) (es : List Event) (h : EachStep step Keeps (Vdev.init size) es) :
    Always step Inside (Vdev.init size) es ∧ EachStep step StepDelivers (Vdev.init size) es := by
  have hstreaming := always_of_eachStep (fun _ _ _ hs hk ht => step_streaming hs hk ht)
    (init_streaming size) h
  exact ⟨hstreaming.mono fun _ hs => hs.inside,
    eachStep_of_eachStep (fun _ _ _ hs hk ht => ⟨step_streaming hs hk ht, step_delivers hs hk⟩)
      (init_streaming size) h⟩

/-! ## Frames of one packet and of two -/

/-- A packet with a header of two bytes and the flags `b`. -/
def packet (b : BitVec 8) (d : List (BitVec 8)) : Packet := 2 :: b :: d

def wholeFrame (l : List Packet) : Frame := ⟨l, l, List.Sublist.refl l⟩

def twoPackets : Frame := wholeFrame [packet 0x80 [1, 2], packet 0x82 [3]]

def onePacket : Frame := wholeFrame [packet 0x82 [1, 2]]

theorem run_delivers_twoPackets :
    Always step Inside (Vdev.init 16) [.frame twoPackets] ∧
      EachStep step StepDelivers (Vdev.init 16) [.frame twoPackets] := by
  refine run_delivers 16 [.frame twoPackets] fun t ht => ⟨⟨fun _ => ?_, ?_, ?_⟩, trivial⟩
  · exact ⟨rfl, rfl, by decide, by decide⟩
  · exact fun p _ h => absurd rfl h
  · refine fun _ hw => ⟨fun _ _ _ _ => by decide, fun _ _ => ⟨fun _ _ h _ => ?_, trivial⟩⟩
    obtain rfl := Option.some.inj hw
    exact absurd h (by decide)

/-- A frame of a single packet arrives whole, and no image is handed over. -/
theorem onePacket_not_delivered :
    ¬ EachStep step StepDelivers (Vdev.init 16) [.frame onePacket] := by
  intro h
  obtain ⟨hd, -⟩ := h _ rfl
  obtain ⟨new, hnew, -, hwhole⟩ := hd.images
  have hc : Complete 16 onePacket := ⟨rfl, ⟨by decide, 0, by decide⟩, by decide⟩
  rw [hwhole hc] at hnew
  exact absurd hnew (by decide)

end Ma35d1.UsbHost.Uvc
