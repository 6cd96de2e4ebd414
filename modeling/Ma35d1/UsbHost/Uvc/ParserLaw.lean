import Ma35d1.UsbHost.Core.RoundTrip
import Ma35d1.UsbHost.Uvc.ParserSafety
import Ma35d1.UsbHost.Uvc.StreamDescription

/-!
# Which video streams are listed

On the bytes of a well-formed configuration the three loops come by the descriptors one after the
other, as long as nothing that they skip belongs to the stream.
-/

namespace Ma35d1.UsbHost.Uvc.Parser

open Ma35d1.Machine.Layout
open Ma35d1.Machine.Checked
open Ma35d1.UsbHost.Core (Buf bLength bDescriptorType wTotalLength nextDesc maxDescBuffSize
  usbDtInterface usbDtEndpoint)
open Ma35d1.UsbHost.Core.Description (descBytes descBytes_length)
open Ma35d1.UsbHost.Uac (AtLeast sizeofDescIf bDescriptorSubtype SeekFits found Matches)

variable {b : Buf} {w p n i d : Nat} {l m body : List (BitVec 8)} {type num : BitVec 8}
  {vc : UvcCtrl} {alts : List AltEntry}

/-! ## What is read of a descriptor -/

/-- What is left of the configuration from `p` on -/
structure Stands (b : Buf) (w p : Nat) (l : List (BitVec 8)) : Prop where
  bytes : LiesAt b p l
  len : p + l.length = w

theorem Stands.behind (h : Stands b w p (l ++ m)) : Stands b w (p + l.length) m := by
  have hlen := h.len
  rw [List.length_append] at hlen
  exact ⟨h.bytes.right, by omega⟩

theorem half_eq {x : BitVec 16} (h : LiesAt b p (halfBytes x ++ m)) : half b p = x := by
  have h0 : b p = x.extractLsb' 0 8 := h.head
  have h1 : b (p + 1) = x.extractLsb' 8 8 := h.tail.head
  rw [half, h0, h1]
  exact Core.word_append x

theorem word_eq {x : BitVec 32} (h : LiesAt b p (wordBytes x ++ m)) : word b p = x := by
  have h0 : b p = x.extractLsb' 0 8 := h.head
  have h1 : b (p + 1) = x.extractLsb' 8 8 := h.tail.head
  have h2 : b (p + 2) = x.extractLsb' 16 8 := h.tail.tail.head
  have h3 : b (p + 3) = x.extractLsb' 24 8 := h.tail.tail.tail.head
  rw [word, h0, h1, h2, h3, BitVec.extractLsb'_append_extractLsb'_eq_extractLsb' (by rfl),
    BitVec.extractLsb'_append_extractLsb'_eq_extractLsb' (by rfl),
    BitVec.extractLsb'_append_extractLsb'_eq_extractLsb' (by rfl)]
  exact BitVec.extractLsb'_eq_self

/-- A descriptor in front of the rest `m` -/
structure Sees (b : Buf) (w p : Nat) (type : BitVec 8) (body m : List (BitVec 8)) : Prop where
  length : bLength b p = body.length + 2
  type : bDescriptorType b p = type
  cells : LiesAt b (p + 2) body
  next : Stands b w (nextDesc b p) m
  le : p + body.length + 2 ≤ w

theorem Stands.sees (h : Stands b w p (descBytes type body ++ m)) (hs : body.length ≤ 253) :
    Sees b w p type body m := by
  have hlen : bLength b p = body.length + 2 := by
    have h0 : b p = BitVec.ofNat 8 (body.length + 2) := h.bytes.head
    unfold bLength
    rw [h0]
    exact (BitVec.toNat_ofNat ..).trans (Nat.mod_eq_of_lt (by omega))
  have hnext : nextDesc b p = p + (descBytes type body).length := by
    rw [nextDesc, hlen, descBytes_length]
  have hw := h.len
  rw [List.length_append, descBytes_length] at hw
  have hbody : LiesAt b (p + 2) (body ++ m) := h.bytes.tail.tail
  refine ⟨hlen, h.bytes.tail.head, hbody.left, ?_, by omega⟩
  rw [hnext]
  exact h.behind

/-! ## Steps over class-specific descriptors -/

theorem stream_short {vdev : UvcDev} (hp : p ≤ w) (h : w < p + sizeofDescIf) :
    parseStream b w num vdev p = .ok vdev := by
  have hnot : ¬ AtLeast ((w : Int) - p) sizeofDescIf := not_atLeast hp h
  unfold parseStream
  rw [parseClassDescs, if_neg hnot, ok_bind, parseAlts, if_neg hnot, ok_bind]

/-- A round of the second loop -/
theorem stream_step {vc' : UvcCtrl} (hp : p + sizeofDescIf ≤ w)
    (ht : bDescriptorType b p = uvcCsInterface) (hdesc : parseClassDesc b w vc p = .ok (vc', d))
    (hd : p + d < w) (h0 : bLength b (p + d) ≠ 0) :
    parseStream b w num ⟨vc, alts⟩ p = parseStream b w num ⟨vc', alts⟩ (nextDesc b (p + d)) := by
  have hsize : AtLeast ((w : Int) - p) sizeofDescIf := atLeast_iff.mpr (.inr hp)
  have hlt : p + 1 < w := by
    unfold sizeofDescIf at hp
    omega
  unfold parseStream
  rw [parseClassDescs, if_pos hsize, guarded_of hlt, if_neg (not_not_intro ht), hdesc, ok_bind,
    dif_pos hd, dif_neg h0]

/-- Descriptors that the `switch` takes no notice of -/
def skipped : List (BitVec 8) := vsFrameUncompressed :: vsFrameMjpeg :: unsupported

theorem not_format : ∀ s ∈ skipped, s ≠ vsFormatUncompressed ∧ s ≠ vsFormatMjpeg := by
  decide +kernel

theorem stream_skip {s : BitVec 8} (h : Stands b w p (descBytes uvcCsInterface (s :: body) ++ m))
    (hs : s ∈ skipped) (hshort : body.length ≤ 252) :
    Stands b w (nextDesc b p) m ∧ ∀ vdev, parseStream b w num vdev p =
      parseStream b w num vdev (nextDesc b p) := by
  have hsee := h.sees (by rw [List.length_cons]; omega)
  have hle := hsee.le
  have hnext := hsee.next.len
  refine ⟨hsee.next, fun vdev => ?_⟩
  by_cases h9 : w < p + sizeofDescIf
  · have hgt : p ≤ nextDesc b p := Core.le_nextDesc b p
    rw [stream_short (by omega) h9, stream_short (by omega) (by omega)]
  have hsub : bDescriptorSubtype b p = s := hsee.cells.head
  obtain ⟨hu, hm⟩ := not_format s hs
  have hcase : s = vsFrameUncompressed ∨ s = vsFrameMjpeg ∨ s ∈ unsupported := by
    rcases List.mem_cons.mp hs with hs | hs
    · exact .inl hs
    · exact .inr (List.mem_cons.mp hs)
  have hdesc : parseClassDesc b w vdev.vc p = .ok (vdev.vc, 0) := by
    unfold parseClassDesc
    rw [List.length_cons] at hle
    rw [guarded_of (by omega), hsub, if_neg hu, if_neg hm, if_pos hcase]
  have hlen := hsee.length
  exact stream_step (Nat.not_lt.mp h9) hsee.type hdesc (by omega) (by rw [Nat.add_zero]; omega)

/-- The body of a descriptor that is skipped -/
def Skips (body : List (BitVec 8)) : Prop :=
  ∃ s rest, body = s :: rest ∧ s ∈ skipped ∧ rest.length ≤ 252

theorem stream_skips {ls : List (List (BitVec 8))} (hls : ∀ body ∈ ls, Skips body)
    (h : Stands b w p (ls.flatMap (descBytes uvcCsInterface) ++ m)) :
    ∃ q, Stands b w q m ∧ ∀ vdev, parseStream b w num vdev p = parseStream b w num vdev q := by
  induction ls generalizing p with
  | nil => exact ⟨p, h, fun _ => rfl⟩
  | cons body ls ih =>
    obtain ⟨s, rest, rfl, hs, hshort⟩ := hls body List.mem_cons_self
    rw [List.flatMap_cons, List.append_assoc] at h
    obtain ⟨hnext, hrun⟩ := stream_skip h hs hshort
    obtain ⟨q, hq, hrest⟩ := ih (fun body hb => hls body (List.mem_cons_of_mem _ hb)) hnext
    exact ⟨q, hq, fun vdev => (hrun vdev).trans (hrest vdev)⟩

/-! ## Frames -/

/-- The parser gets the intervals right: it keeps continuous ones of uncompressed frames, and none
of MJPEG frames. -/
def FrameDesc.Listed (c : Coding) (f : FrameDesc) : Prop :=
  match f.intervals with
  | .continuous dwMin dwMax dwStep => c = .mjpeg → dwMin = 0 ∧ dwMax = 0 ∧ dwStep = 0
  | .discrete .. => False

/-- The fields of a frame -/
def Coding.frame (b : Buf) (w : Nat) : Coding → ImageFormat → Nat → Nat → Run Int (FrameEntry × Nat)
  | .mjpeg => mjpgFrame b w
  | _ => vsuFrame b w

theorem Intervals.bytes_length_le (v : Intervals) : v.bytes.length ≤ 228 := by
  cases v with
  | continuous dwMin dwMax dwStep => exact (by decide : 12 ≤ 228)
  | discrete list _ short =>
    have hlen : (list.flatMap wordBytes).length = 4 * list.length := by
      rw [List.length_flatMap]
      simp [wordBytes, Nat.mul_comm]
    show (list.flatMap wordBytes).length ≤ 228
    omega

theorem FrameDesc.body_length (c : Coding) (f : FrameDesc) :
    (f.body c).length = 24 + f.intervals.bytes.length := by
  simp only [body, halfBytes, wordBytes, List.length_append, List.length_cons, List.length_nil]
  omega

theorem FrameDesc.skips (c : Coding) (f : FrameDesc) : Skips (f.body c) := by
  refine ⟨c.frameSubtype, _, rfl, ?_, ?_⟩
  · cases c <;> decide
  · have hlen := f.body_length c
    have hle := f.intervals.bytes_length_le
    have hbody : (f.body c).length = _ + 1 := rfl
    omega

/-- The fields of a frame that are read of both kinds -/
structure FrameSeen (b : Buf) (p : Nat) (f : FrameDesc) : Prop where
  index : bFrameIndex b p = f.bFrameIndex
  width : wWidth b p = f.wWidth
  height : wHeight b p = f.wHeight
  type : b (p + 25) = f.intervals.type
  intervals : LiesAt b (p + 26) f.intervals.bytes

theorem frameSeen {c : Coding} {f : FrameDesc} (h : LiesAt b (p + 2) (f.body c)) :
    FrameSeen b p f := by
  have hw : LiesAt b (p + 5) _ := h.right
  have hh : LiesAt b (p + 7) _ := hw.right
  have h9 : LiesAt b (p + 9) _ := hh.right
  have h13 : LiesAt b (p + 13) _ := h9.right
  have h17 : LiesAt b (p + 17) _ := h13.right
  have h21 : LiesAt b (p + 21) _ := h17.right
  have ht : LiesAt b (p + 25) (f.intervals.type :: f.intervals.bytes) := h21.right
  exact ⟨h.tail.head, half_eq hw, half_eq hh, ht.head, ht.tail⟩

theorem frame_run {c : Coding} {f : FrameDesc} (h : LiesAt b (p + 2) (f.body c))
    (hle : p + (f.body c).length + 2 ≤ w) (hf : f.Listed c) :
    c.frame b w c.format p i = .ok (f.entry c, i) := by
  obtain ⟨hidx, hwidth, hheight, htype, hints⟩ := frameSeen h
  rw [FrameDesc.body_length] at hle
  unfold FrameDesc.Listed at hf
  unfold FrameDesc.entry
  cases hv : f.intervals with
  | discrete list _ _ =>
    rw [hv] at hf
    exact hf.elim
  | continuous dwMin dwMax dwStep =>
    rw [hv] at hf htype hints hle
    have hlen : (Intervals.continuous dwMin dwMax dwStep).bytes.length = 12 := rfl
    rw [hlen] at hle
    by_cases hc : c = .mjpeg
    · subst hc
      obtain ⟨rfl, rfl, rfl⟩ := hf rfl
      show guarded _ _ = _
      rw [guarded_of (by omega), hidx, hwidth, hheight]
    · have hframe : c.frame b w = vsuFrame b w := by cases c <;> first | rfl | exact absurd rfl hc
      have hmin : LiesAt b (p + 26) (wordBytes dwMin ++ (wordBytes dwMax ++ wordBytes dwStep)) :=
        hints
      have hmax : LiesAt b (p + 30) (wordBytes dwMax ++ wordBytes dwStep) := hmin.right
      have hstep : LiesAt b (p + 34) (wordBytes dwStep ++ []) := by
        rw [List.append_nil]
        exact hmax.right
      have h0 : bFrameIntervalType b p = 0 := by
        rw [bFrameIntervalType, htype]
        rfl
      rw [hframe, vsuFrame, guarded_of (by omega), if_pos h0, guarded_of (by omega), hidx, hwidth,
        hheight, htype, word_eq hmin, word_eq hmax, word_eq hstep]
      rfl

/-- The frames of a format are listed as long as there is room. -/
theorem frames_run {c : Coding} {fs : List FrameDesc}
    (h : Stands b w (p + d) (Group.framesBytes c fs ++ m))
    (hi : i + fs.length = bNumFrameDescriptors b p) (hn : vc.room = n)
    (hl : ∀ f ∈ fs.take n, f.Listed c) (hlast : vc.lastFormat = c.format) :
    ∃ d', Stands b w (p + d') (Group.framesBytes c (fs.drop n) ++ m) ∧
      parseFrames b w c.frameSubtype (c.frame b w) p n i d vc =
        .ok (⟨vc.formats, vc.frames ++ (fs.take n).map (FrameDesc.entry c)⟩, d') := by
  induction n generalizing fs i d vc with
  | zero => exact ⟨d, h, by rw [parseFrames, List.take_zero, List.map_nil, List.append_nil]⟩
  | succ n ih =>
    cases fs with
    | nil =>
      refine ⟨d, h, ?_⟩
      rw [List.length_nil] at hi
      rw [parseFrames, if_neg (by omega), List.take_nil, List.map_nil, List.append_nil]
    | cons f fs =>
      have heq : Group.framesBytes c (f :: fs) ++ m = descBytes uvcCsInterface (f.body c) ++
          (Group.framesBytes c fs ++ m) := by
        rw [Group.framesBytes, List.flatMap_cons, List.append_assoc]
        rfl
      rw [heq] at h
      have hlen := f.body_length c
      have hshort := f.intervals.bytes_length_le
      have hsee := h.sees (by omega)
      have hle := hsee.le
      rw [List.length_cons] at hi
      have hsub : bDescriptorSubtype b (p + d) = c.frameSubtype := hsee.cells.head
      rw [List.take_succ_cons] at hl
      have hnext : Stands b w (p + (d + bLength b (p + d))) (Group.framesBytes c fs ++ m) := by
        rw [← Nat.add_assoc]
        exact hsee.next
      have hcount : i + 1 + fs.length = bNumFrameDescriptors b p := by omega
      have hlast' : (vc.addFrame (f.entry c)).lastFormat = c.format := hlast
      obtain ⟨d', hstands, hrun⟩ := ih hnext hcount (room_addFrame hn)
        (fun f' hf' => hl f' (List.mem_cons_of_mem _ hf')) hlast'
      refine ⟨d', hstands, ?_⟩
      rw [parseFrames, if_pos (by omega), guarded_of (by omega), if_neg (not_not_intro hsee.type),
        guarded_of (by omega), if_neg (not_not_intro hsub), hlast,
        frame_run hsee.cells hle (hl f List.mem_cons_self), ok_bind, hrun, List.take_succ_cons,
        List.map_cons]
      rw [UvcCtrl.addFrame, List.append_assoc]
      rfl

/-! ## Formats -/

theorem parseClassDesc_format {c : Coding} (hp : p + sizeofDescIf ≤ w)
    (hsub : bDescriptorSubtype b p = c.formatSubtype)
    (hguid : c ≠ .mjpeg → imageFormat (word b (p + 5)) = c.format) :
    parseClassDesc b w vc p = parseFormat b w c.frameSubtype c.format (c.frame b w) vc p := by
  have h9 : p + 9 ≤ w := hp
  unfold parseClassDesc
  rw [guarded_of (by omega), hsub]
  by_cases hc : c = .mjpeg
  · subst hc
    have hmjpeg : Coding.mjpeg.formatSubtype = vsFormatMjpeg := rfl
    rw [if_neg (by decide), if_pos hmjpeg, guarded_of (by omega)]
    rfl
  · have hother : c.formatSubtype = vsFormatUncompressed := by
      cases c <;> first | rfl | exact absurd rfl hc
    rw [hguid hc, guarded_of (by omega : p + 8 < w), if_pos hother]
    cases c <;> first | rfl | exact absurd rfl hc

theorem imageFormat_guid {c : Coding} (hc : c ≠ .mjpeg) (h : LiesAt b p (c.guid ++ l)) :
    imageFormat (word b p) = c.format := by
  have hword : ∀ x0 x1 x2 x3 : BitVec 8, LiesAt b p ([x0, x1, x2, x3] ++ l) →
      word b p = x3 ++ x2 ++ (x1 ++ x0) := by
    intro x0 x1 x2 x3 h
    have h0 : b p = x0 := h.head
    have h1 : b (p + 1) = x1 := h.tail.head
    have h2 : b (p + 2) = x2 := h.tail.tail.head
    have h3 : b (p + 3) = x3 := h.tail.tail.tail.head
    rw [word, h0, h1, h2, h3]
  cases c with
  | mjpeg => exact absurd rfl hc
  | yuy2 => rw [hword _ _ _ _ h]; decide
  | nv12 => rw [hword _ _ _ _ h]; decide
  | m420 => rw [hword _ _ _ _ h]; decide
  | i420 => rw [hword _ _ _ _ h]; decide

theorem Group.body_length (g : Group) :
    9 ≤ g.body.length ∧ g.body.length ≤ 253 := by
  have hlen : g.body.length = 3 + (g.coding.guid.length + g.extra.length) := by
    simp only [body, List.length_append, List.length_cons, List.length_nil]
  rw [hlen, g.extra_length]
  cases g.coding <;> decide

/-- The format is listed, with as many of its frames as there is room for. -/
def UvcCtrl.addGroup (vc : UvcCtrl) (g : Group) : UvcCtrl where
  formats := vc.formats ++ [g.formatEntry]
  frames := vc.frames ++ g.frameEntries.take vc.room

theorem format_run {g : Group} (h : Stands b w p (g.bytes ++ m))
    (hformats : vc.formats.length < uvcMaxFormat)
    (hl : ∀ f ∈ g.frames.take vc.room, f.Listed g.coding) :
    ∃ d, Stands b w (p + d) (Group.framesBytes g.coding (g.frames.drop vc.room) ++
        (Group.othersBytes g.others ++ m)) ∧
      parseClassDesc b w vc p = .ok (vc.addGroup g, d) := by
  have hbytes : g.bytes ++ m = descBytes uvcCsInterface g.body ++
      (Group.framesBytes g.coding g.frames ++ (Group.othersBytes g.others ++ m)) := by
    rw [Group.bytes, List.append_assoc, List.append_assoc]
  rw [hbytes] at h
  obtain ⟨hlen, hshort⟩ := g.body_length
  have hsee := h.sees hshort
  have hle := hsee.le
  have hidx : bFormatIndex b p = g.bFormatIndex := hsee.cells.tail.head
  have hnum : bNumFrameDescriptors b p = g.frames.length := by
    have hcell : b (p + 4) = BitVec.ofNat 8 g.frames.length := hsee.cells.tail.tail.head
    rw [bNumFrameDescriptors, hcell, BitVec.toNat_ofNat, Nat.mod_eq_of_lt g.counted]
  have hguid : LiesAt b (p + 5) (g.coding.guid ++ g.extra) := hsee.cells.tail.tail.tail
  have hlast : (vc.addFormat g.formatEntry).lastFormat = g.coding.format := by
    unfold UvcCtrl.lastFormat UvcCtrl.addFormat
    rw [List.getLast?_append, List.getLast?_singleton]
    rfl
  obtain ⟨d, hstands, hrun⟩ := frames_run (i := 0) (d := bLength b p) hsee.next
    (by rw [Nat.zero_add, hnum]) (rfl : (vc.addFormat g.formatEntry).room = vc.room) hl hlast
  refine ⟨d, hstands, ?_⟩
  rw [parseClassDesc_format (by unfold sizeofDescIf; omega) hsee.cells.head
    fun hc => imageFormat_guid hc hguid, parseFormat, guarded_of hformats, hidx]
  rw [UvcCtrl.addGroup, Group.frameEntries, ← List.map_take]
  exact hrun

/-- With room for `n` frames, the frames that go into the table are listed, and the descriptor that
is skipped behind those of each format does not belong to the stream: it is one of another kind, a
frame that there is no room for, or a `stray` one behind the last format. -/
def GroupsListed (stray : Prop) : Nat → List Group → Prop
  | _, [] => True
  | n, g :: gs =>
    (∀ f ∈ g.frames.take n, f.Listed g.coding) ∧
      (g.others ≠ [] ∨ n < g.frames.length ∨ gs = [] ∧ stray) ∧
      GroupsListed stray (n - g.frames.length) gs

/-- The descriptor behind the frames that are listed is skipped. -/
theorem group_step {g : Group} {d : Nat} (h : Stands b w p (g.bytes ++ m))
    (hdesc : parseClassDesc b w vc p = .ok (vc.addGroup g, d))
    (hnext : Stands b w (p + d) (descBytes type body ++ l)) (hshort : body.length ≤ 253) :
    Stands b w (nextDesc b (p + d)) l ∧ parseStream b w num ⟨vc, alts⟩ p =
      parseStream b w num ⟨vc.addGroup g, alts⟩ (nextDesc b (p + d)) := by
  have hfirst : Sees b w p uvcCsInterface g.body (Group.framesBytes g.coding g.frames ++
      (Group.othersBytes g.others ++ m)) := by
    refine Stands.sees ?_ g.body_length.2
    rwa [Group.bytes, List.append_assoc, List.append_assoc] at h
  have hle := hfirst.le
  have hlen := g.body_length.1
  have hsee := hnext.sees hshort
  have hle' := hsee.le
  have hpos := hsee.length
  refine ⟨hsee.next, stream_step ?_ hfirst.type hdesc (by omega) (by omega)⟩
  unfold sizeofDescIf
  omega

theorem group_run {g : Group} (h : Stands b w p (g.bytes ++ m))
    (hformats : vc.formats.length < uvcMaxFormat)
    (hl : ∀ f ∈ g.frames.take vc.room, f.Listed g.coding)
    (hbehind : g.others ≠ [] ∨ vc.room < g.frames.length) :
    ∃ q, Stands b w q m ∧ parseStream b w num ⟨vc, alts⟩ p =
      parseStream b w num ⟨vc.addGroup g, alts⟩ q := by
  obtain ⟨d, hstands, hdesc⟩ := format_run h hformats hl
  -- the descriptors that are left of the group
  obtain ⟨ls, hls⟩ : ∃ ls, ls = (g.frames.drop vc.room).map (FrameDesc.body g.coding) ++
      g.others.map (fun o => o.bDescriptorSubtype :: o.body) := ⟨_, rfl⟩
  have hbytes : Group.framesBytes g.coding (g.frames.drop vc.room) ++
      (Group.othersBytes g.others ++ m) = ls.flatMap (descBytes uvcCsInterface) ++ m := by
    rw [hls, List.flatMap_append, List.flatMap_map, List.flatMap_map, List.append_assoc]
    rfl
  have hskips : ∀ body ∈ ls, Skips body := by
    intro body hbody
    rw [hls] at hbody
    rcases List.mem_append.mp hbody with hbody | hbody
    · obtain ⟨f, -, rfl⟩ := List.mem_map.mp hbody
      exact f.skips g.coding
    · obtain ⟨o, -, rfl⟩ := List.mem_map.mp hbody
      exact ⟨_, _, rfl, List.mem_cons_of_mem _ (List.mem_cons_of_mem _ o.other), o.short⟩
  have hne : ls ≠ [] := by
    intro hnil
    obtain ⟨hf, ho⟩ := List.append_eq_nil_iff.mp (hls.symm.trans hnil)
    rcases hbehind with hothers | hroom
    · exact hothers (List.map_eq_nil_iff.mp ho)
    · have hdrop := List.drop_eq_nil_iff.mp (List.map_eq_nil_iff.mp hf)
      omega
  rw [hbytes] at hstands
  cases ls with
  | nil => exact absurd rfl hne
  | cons body ls =>
    obtain ⟨s, rest, rfl, -, hshort⟩ := hskips body List.mem_cons_self
    rw [List.flatMap_cons, List.append_assoc] at hstands
    obtain ⟨hnext, hstep⟩ := group_step h hdesc hstands (by rw [List.length_cons]; omega)
    obtain ⟨q, hq, hrun⟩ :=
      stream_skips (fun body hb => hskips body (List.mem_cons_of_mem _ hb)) hnext
    exact ⟨q, hq, hstep.trans (hrun _)⟩

/-- The last format, with nothing of its own behind its frames -/
theorem group_last {g : Group} (h : Stands b w p (g.bytes ++ (descBytes type body ++ l)))
    (hformats : vc.formats.length < uvcMaxFormat)
    (hl : ∀ f ∈ g.frames.take vc.room, f.Listed g.coding) (hothers : g.others = [])
    (hroom : g.frames.length ≤ vc.room) (hshort : body.length ≤ 253) :
    ∃ q, Stands b w q l ∧ parseStream b w num ⟨vc, alts⟩ p =
      parseStream b w num ⟨vc.addGroup g, alts⟩ q := by
  obtain ⟨d, hstands, hdesc⟩ := format_run h hformats hl
  rw [List.drop_eq_nil_iff.mpr hroom, hothers] at hstands
  exact ⟨_, group_step h hdesc hstands hshort⟩

theorem room_addGroup {g : Group} : (vc.addGroup g).room = vc.room - g.frames.length := by
  have hcount : g.frameEntries.length = g.frames.length := List.length_map ..
  unfold UvcCtrl.room UvcCtrl.addGroup
  rw [List.length_append, List.length_take, hcount]
  unfold UvcCtrl.room
  omega

/-- With all formats listed -/
def UvcCtrl.addGroups (vc : UvcCtrl) (gs : List Group) : UvcCtrl where
  formats := vc.formats ++ gs.map Group.formatEntry
  frames := vc.frames ++ (StreamParts.frameEntries gs).take vc.room

theorem addGroups_nil : vc.addGroups [] = vc := by
  unfold UvcCtrl.addGroups StreamParts.frameEntries
  rw [List.map_nil, List.flatMap_nil, List.take_nil, List.append_nil, List.append_nil]

theorem addGroups_cons {g : Group} {gs : List Group} :
    (vc.addGroup g).addGroups gs = vc.addGroups (g :: gs) := by
  have hcount : g.frameEntries.length = g.frames.length := List.length_map ..
  have hentries : StreamParts.frameEntries (g :: gs) =
      g.frameEntries ++ StreamParts.frameEntries gs := List.flatMap_cons
  rw [UvcCtrl.addGroups, UvcCtrl.addGroups, room_addGroup, hentries, List.take_append, hcount,
    List.map_cons]
  show (⟨(vc.formats ++ [g.formatEntry]) ++ _, (vc.frames ++ g.frameEntries.take vc.room) ++ _⟩ :
    UvcCtrl) = _
  rw [List.append_assoc, List.append_assoc]
  rfl

/-- Each format is listed in its turn, and the loop is at what is behind them all, or behind the
first descriptor of that. -/
theorem groups_run {gs : List Group} {stray : Prop}
    (hm : stray → ∃ t body, m = descBytes t body ++ l ∧ body.length ≤ 253)
    (h : Stands b w p (gs.flatMap Group.bytes ++ m))
    (hformats : vc.formats.length + gs.length ≤ uvcMaxFormat) (hl : GroupsListed stray vc.room gs) :
    ∃ q, (Stands b w q m ∨ stray ∧ Stands b w q l) ∧ parseStream b w num ⟨vc, alts⟩ p =
      parseStream b w num ⟨vc.addGroups gs, alts⟩ q := by
  induction gs generalizing p vc with
  | nil => exact ⟨p, .inl h, by rw [addGroups_nil]⟩
  | cons g gs ih =>
    obtain ⟨hframes, hbehind, hrest⟩ := hl
    rw [List.flatMap_cons, List.append_assoc] at h
    rw [List.length_cons] at hformats
    by_cases hown : g.others ≠ [] ∨ vc.room < g.frames.length
    · obtain ⟨q, hq, hrun⟩ := group_run h (by omega) hframes hown
      have hlen : (vc.addGroup g).formats.length = vc.formats.length + 1 := List.length_append
      rw [← room_addGroup] at hrest
      obtain ⟨q', hq', hrun'⟩ := ih hq (by omega) hrest
      exact ⟨q', hq', hrun.trans (by rw [hrun', addGroups_cons])⟩
    · obtain ⟨hothers, hroom⟩ := not_or.mp hown
      have hlast : gs = [] ∧ stray := by
        rcases hbehind with hb | hb | hb
        · exact absurd hb hothers
        · exact absurd hb hroom
        · exact hb
      obtain ⟨rfl, hstray⟩ := hlast
      obtain ⟨t, body, rfl, hshort⟩ := hm hstray
      obtain ⟨q, hq, hrun⟩ := group_last h (by omega) hframes (not_not.mp hothers)
        (Nat.not_lt.mp hroom) hshort
      refine ⟨q, .inr ⟨hstray, hq⟩, hrun.trans ?_⟩
      rw [← addGroups_cons, addGroups_nil]

end Ma35d1.UsbHost.Uvc.Parser
