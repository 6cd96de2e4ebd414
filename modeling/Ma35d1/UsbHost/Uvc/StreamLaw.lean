import Ma35d1.UsbHost.Uvc.ParserLaw

/-!
# Video streams from end to end

The interface descriptor of the stream is found behind what is in front of it, and the settings are
listed behind its class-specific descriptors.
-/

namespace Ma35d1.UsbHost.Uvc.Parser

open Ma35d1.Machine.Layout
open Ma35d1.Machine.Checked
open Ma35d1.UsbHost.Core (Buf bLength bDescriptorType wTotalLength nextDesc maxDescBuffSize
  usbDtConfiguration usbDtInterface usbDtEndpoint)
open Ma35d1.UsbHost.Core.Description (descBytes descBytes_length)
open Ma35d1.UsbHost.Uac (AtLeast sizeofDescIf Matches seek)

variable {b : Buf} {w p q : Nat} {l m : List (BitVec 8)} {num : BitVec 8} {vc : UvcCtrl}
  {alts : List AltEntry} {ds : List Desc}

/-! ## Interface descriptors -/

theorem matches_iff : Matches b (streamFields num) p = true ↔ bDescriptorType b p = usbDtInterface ∧
    b (p + 2) = num ∧ b (p + 5) = usbClassVideo ∧ b (p + 6) = uvcScVideostreaming := by
  simp [Matches, streamFields, bDescriptorType]

/-- The loops take the descriptors of the stream for its own. -/
theorem Desc.matches_iff {d : Desc} (h : Stands b w p (d.bytes ++ m)) :
    Matches b (streamFields num) p = true ↔ d.IsStream num := by
  have hsee := h.sees d.short
  rw [Parser.matches_iff, hsee.type, Desc.IsStream]
  refine and_congr_right fun ht => ?_
  have hwhole := d.whole ht
  have hcell : ∀ i (hi : i < d.body.length), b (p + 2 + i) = d.body[i] := liesAt_iff.mp hsee.cells
  have h0 := hcell 0 (by omega)
  have h3 := hcell 3 (by omega)
  have h4 := hcell 4 (by omega)
  rw [List.getElem?_eq_getElem (by omega), List.getElem?_eq_getElem (by omega),
    List.getElem?_eq_getElem (by omega), Option.some_inj, Option.some_inj, Option.some_inj, ← h0,
    ← h3, ← h4]

/-- The interface descriptor is found. -/
theorem seek_before {body : List (BitVec 8)}
    (hbody : ∀ p, LiesAt b (p + 2) body → b (p + 2) = num ∧ b (p + 5) = usbClassVideo ∧
      b (p + 6) = uvcScVideostreaming) (hlen : body.length = 7)
    (h : Stands b w p (ds.flatMap Desc.bytes ++ (descBytes usbDtInterface body ++ m)))
    (hfirst : ∀ d ∈ ds, ¬ d.IsStream num) :
    ∃ q, seek b w (streamFields num) p = some (some q) ∧ Stands b w (nextDesc b q) m := by
  induction ds generalizing p with
  | nil =>
    have hsee := Stands.sees h (by omega)
    have hle := hsee.le
    have hin : p < w ∧ p + sizeofDescIf ≤ w := by
      unfold sizeofDescIf
      omega
    refine ⟨p, ?_, hsee.next⟩
    rw [Uac.seek_at streamFields_lt hin, if_pos (matches_iff.mpr ⟨hsee.type, hbody p hsee.cells⟩)]
  | cons d ds ih =>
    rw [List.flatMap_cons, List.append_assoc] at h
    have hsee := h.sees d.short
    have hle := hsee.le
    have hpos := hsee.length
    have hrest := hsee.next.len
    rw [List.length_append, List.length_append, descBytes_length] at hrest
    have hin : p < w ∧ p + sizeofDescIf ≤ w := by
      have hgt : p ≤ nextDesc b p := Core.le_nextDesc b p
      unfold sizeofDescIf
      omega
    obtain ⟨q, hq, hnext⟩ := ih hsee.next fun e he => hfirst e (List.mem_cons_of_mem _ he)
    refine ⟨q, ?_, hnext⟩
    rw [Uac.seek_at streamFields_lt hin,
      if_neg fun hm => hfirst d List.mem_cons_self ((Desc.matches_iff h).mp hm),
      if_neg (by omega)]
    exact hq

/-! ## Alternate settings -/

/-- The descriptors do not begin with one of the stream. -/
def Apart (num : BitVec 8) (ds : List Desc) : Prop :=
  ∀ d ∈ ds.head?, d.type ≠ uvcCsInterface ∧ ¬ d.IsStream num

theorem parseAlts_end (h : Stands b w p (ds.flatMap Desc.bytes)) (hds : Apart num ds) :
    parseAlts b w num alts p = .ok alts := by
  have hle : p ≤ w := by
    have hlen := h.len
    omega
  rw [parseAlts]
  by_cases h9 : p + sizeofDescIf ≤ w
  swap
  · rw [if_neg (not_atLeast hle (Nat.not_le.mp h9))]
  have hsize : AtLeast ((w : Int) - p) sizeofDescIf := atLeast_iff.mpr (.inr h9)
  rw [if_pos hsize, Uac.fieldsAre_eq fun f hf => by
    have hlt := streamFields_lt f hf
    omega]
  cases ds with
  | nil =>
    have hlen : p + 0 = w := h.len
    unfold sizeofDescIf at h9
    omega
  | cons d ds =>
    rw [List.flatMap_cons] at h
    have hno : Matches b (streamFields num) p = false :=
      Bool.eq_false_iff.mpr fun hm => (hds d rfl).2 ((Desc.matches_iff h).mp hm)
    rw [hno]

/-- The endpoint of a setting -/
theorem setting_run {a : Alternate} (h : Stands b w p (a.bytes num ++ m))
    (hroom : alts.length < uvcMaxAltIf) : ∃ q, Stands b w q m ∧
      parseAlts b w num alts p = parseAlts b w num (alts ++ [a.entry]) q := by
  rw [Alternate.bytes, List.append_assoc] at h
  have hif := h.sees (by decide : 7 ≤ 253)
  have hep := hif.next.sees (by decide : 5 ≤ 253)
  have hlen : bLength b p = 9 := hif.length
  have hlen' : bLength b (nextDesc b p) = 7 := hep.length
  have hle : nextDesc b p + 5 + 2 ≤ w := hep.le
  have hnext : nextDesc b p = p + 9 := by rw [nextDesc, hlen]
  have hsize : AtLeast ((w : Int) - p) sizeofDescIf := by
    refine atLeast_iff.mpr (.inr ?_)
    unfold sizeofDescIf
    omega
  have hmatch : Matches b (streamFields num) p = true :=
    matches_iff.mpr ⟨hif.type, hif.cells.head, hif.cells.tail.tail.tail.head,
      hif.cells.tail.tail.tail.tail.head⟩
  have halt : bAlternateSetting b p = a.bAlternateSetting := hif.cells.tail.head
  have hmax : LiesAt b (nextDesc b p + 4) (halfBytes a.wMaxPacketSize ++ [a.bInterval]) :=
    hep.cells.tail.tail
  refine ⟨_, hep.next, ?_⟩
  rw [parseAlts, if_pos hsize, Uac.fieldsAre_eq fun f hf => by
    have hlt : f.1 < 9 := streamFields_lt f hf
    omega, hmatch]
  dsimp only
  rw [if_neg (by omega), dif_neg (by omega), dif_pos (by omega), if_neg (not_not_intro hep.type),
    if_pos ⟨by omega, hroom⟩, if_neg (by omega), wMaxPacketSize, half_eq hmax, halt,
    Core.packetSize_toNat]
  rfl

theorem settings_run {as : List Alternate}
    (h : Stands b w p (as.flatMap (Alternate.bytes num) ++ ds.flatMap Desc.bytes))
    (hds : Apart num ds) (hroom : alts.length + as.length ≤ uvcMaxAltIf) :
    parseAlts b w num alts p = .ok (alts ++ as.map Alternate.entry) := by
  induction as generalizing p alts with
  | nil =>
    rw [List.map_nil, List.append_nil]
    exact parseAlts_end h hds
  | cons a as ih =>
    rw [List.flatMap_cons, List.append_assoc] at h
    rw [List.length_cons] at hroom
    have hlt : alts.length < uvcMaxAltIf := by omega
    obtain ⟨q, hq, hrun⟩ := setting_run h hlt
    rw [hrun, ih hq (by rw [List.length_append, List.length_singleton]; omega), List.append_assoc,
      List.map_cons]
    rfl

/-- The second loop ends at what is not class-specific, or too short. -/
theorem stream_end (hp : p ≤ w)
    (h : w < p + sizeofDescIf ∨ bDescriptorType b p ≠ uvcCsInterface) :
    parseStream b w num ⟨vc, alts⟩ p = parseAlts b w num alts p >>= fun alts => .ok ⟨vc, alts⟩ := by
  have hdescs : parseClassDescs b w vc p = .ok (vc, p) := by
    rw [parseClassDescs]
    by_cases h9 : w < p + sizeofDescIf
    · rw [if_neg (not_atLeast hp h9)]
    · have hsize : AtLeast ((w : Int) - p) sizeofDescIf := atLeast_iff.mpr (.inr (by omega))
      have hin : p + 1 < w := by
        unfold sizeofDescIf at h9
        omega
      rw [if_pos hsize, guarded_of hin, if_pos (h.resolve_left h9)]
  unfold parseStream
  rw [hdescs, ok_bind]

theorem stream_apart (h : Stands b w p (ds.flatMap Desc.bytes)) (hds : Apart num ds) :
    parseStream b w num ⟨vc, alts⟩ p = .ok ⟨vc, alts⟩ := by
  have hlen := h.len
  rw [stream_end (by omega), parseAlts_end h hds, ok_bind]
  cases ds with
  | nil =>
    left
    rw [List.flatMap_nil, List.length_nil] at hlen
    unfold sizeofDescIf
    omega
  | cons d ds =>
    right
    rw [List.flatMap_cons] at h
    rw [(h.sees d.short).type]
    exact (hds d rfl).1

theorem stream_settings {as : List Alternate}
    (h : Stands b w p (as.flatMap (Alternate.bytes num) ++ ds.flatMap Desc.bytes))
    (hds : Apart num ds) (hroom : alts.length + as.length ≤ uvcMaxAltIf) :
    parseStream b w num ⟨vc, alts⟩ p = .ok ⟨vc, alts ++ as.map Alternate.entry⟩ := by
  cases as with
  | nil =>
    rw [List.map_nil, List.append_nil]
    exact stream_apart h hds
  | cons a as =>
    have hlen := h.len
    have htype : bDescriptorType b p = usbDtInterface := by
      rw [List.flatMap_cons, List.append_assoc, Alternate.bytes, List.append_assoc] at h
      exact (h.sees (by decide : 7 ≤ 253)).type
    rw [stream_end (by omega) (.inr (by rw [htype]; decide)), settings_run h hds hroom, ok_bind]

/-! ## The law -/

/-- The configuration in the buffer has the described stream. -/
structure Describes (b : Buf) (ifNum : BitVec 8) (x : StreamDesc) : Prop where
  number : x.bInterfaceNumber = ifNum
  bytes : LiesAt b 0 x.bytes

/-- On a new device the parser returns 0, and the tables list the stream. -/
def Faithful (b : Buf) (ifNum : BitVec 8) (x : StreamDesc) : Prop :=
  uvcParseStreamingInterface b ifNum .zero = .ok x.listed

/-- Parsing is safe, and every well-formed stream is listed. -/
def StreamLaw (b : Buf) (ifNum : BitVec 8) (vdev : UvcDev) : Prop :=
  StreamSafe b ifNum vdev ∧ ∀ x, Describes b ifNum x → Faithful b ifNum x

/-- There are no settings, and the first descriptor behind the last format can be skipped. -/
def StreamDesc.Stray (x : StreamDesc) : Prop :=
  x.alternates = [] ∧ ∃ d ds, x.behind = d :: ds ∧ Apart x.bInterfaceNumber ds

/-- The tables have room for the stream, and the parser gets its frames right and skips nothing of
it. -/
structure StreamDesc.Listed (x : StreamDesc) : Prop where
  formats : x.groups.length ≤ uvcMaxFormat
  alternates : x.alternates.length ≤ uvcMaxAltIf
  groups : GroupsListed x.Stray uvcMaxFrame x.groups

theorem Describes.total {x : StreamDesc} {ifNum : BitVec 8} (h : Describes b ifNum x) :
    wTotalLength b = x.total := by
  have hlo : b 2 = BitVec.ofNat 8 x.total := h.bytes.tail.tail.head
  have hhi : b 3 = BitVec.ofNat 8 (x.total / 256) := h.bytes.tail.tail.tail.head
  have hle := x.fits
  unfold maxDescBuffSize at hle
  rw [wTotalLength, hlo, hhi, BitVec.toNat_ofNat, BitVec.toNat_ofNat]
  omega

theorem Describes.stands {x : StreamDesc} {ifNum : BitVec 8} (h : Describes b ifNum x) :
    Stands b x.total (bLength b 0) x.body := by
  have hheader :
      ([BitVec.ofNat 8 x.total, BitVec.ofNat 8 (x.total / 256)] ++ x.header).length = 7 := by
    rw [List.length_append, x.header_length]
    rfl
  have hall : Stands b x.total 0 x.bytes := by
    refine ⟨h.bytes, ?_⟩
    rw [StreamParts.bytes, List.length_append, descBytes_length, hheader, StreamParts.total]
    omega
  have hsee := Stands.sees hall (by omega)
  have hnext : nextDesc b 0 = bLength b 0 := Nat.zero_add _
  rw [← hnext]
  exact hsee.next

theorem faithful_of_listed {x : StreamDesc} {ifNum : BitVec 8} (h : Describes b ifNum x)
    (hl : x.Listed) : Faithful b ifNum x := by
  obtain ⟨rfl, -⟩ := id h
  obtain ⟨hformats, halts, hgroups⟩ := hl
  have hstands := h.stands
  have htotal : 3 < x.total := by
    unfold StreamParts.total
    omega
  obtain ⟨i, hseek, hstream⟩ := seek_before
    (fun p hp => ⟨hp.head, hp.tail.tail.tail.head, hp.tail.tail.tail.tail.head⟩) rfl hstands x.first
  have hheaders : Group.othersBytes x.headers = (x.headers.map fun o =>
      o.bDescriptorSubtype :: o.body).flatMap (descBytes uvcCsInterface) := by
    rw [List.flatMap_map]
    rfl
  rw [StreamParts.stream, hheaders] at hstream
  have hskips : ∀ body ∈ x.headers.map fun o => o.bDescriptorSubtype :: o.body, Skips body := by
    intro body hb
    obtain ⟨o, -, rfl⟩ := List.mem_map.mp hb
    exact ⟨_, _, rfl, List.mem_cons_of_mem _ (List.mem_cons_of_mem _ o.other), o.short⟩
  obtain ⟨p, hp, hskip⟩ := stream_skips hskips hstream
  have hstray : x.Stray → ∃ t body, x.tail = descBytes t body ++ x.behind.tail.flatMap Desc.bytes ∧
      body.length ≤ 253 := by
    rintro ⟨hnone, d, ds, hbehind, -⟩
    refine ⟨d.type, d.body, ?_, d.short⟩
    rw [StreamParts.tail, hnone, hbehind]
    rfl
  have hroom : (0 : Nat) + x.groups.length ≤ uvcMaxFormat := by omega
  have hroom' : ([] : List AltEntry).length + x.alternates.length ≤ uvcMaxAltIf := by
    rw [List.length_nil]
    omega
  obtain ⟨q, hq, hrun⟩ : ∃ q, (Stands b x.total q x.tail ∨
      x.Stray ∧ Stands b x.total q (x.behind.tail.flatMap Desc.bytes)) ∧
      parseStream b x.total x.bInterfaceNumber .zero p =
        parseStream b x.total x.bInterfaceNumber ⟨x.listed.vc, []⟩ q :=
    groups_run hstray hp hroom hgroups
  unfold Faithful uvcParseStreamingInterface
  rw [h.total]
  dsimp only
  rw [guarded_of htotal, hseek]
  dsimp only
  rw [hskip, hrun]
  rcases hq with hq | ⟨⟨hnone, d, ds, hbehind, happart⟩, hq⟩
  · rw [stream_settings hq x.last hroom']
    rfl
  · rw [hbehind] at hq
    have hlisted : x.listed = ⟨x.listed.vc, []⟩ := by
      rw [StreamParts.listed, hnone]
      rfl
    rw [stream_apart hq happart, ← hlisted]

/-- Parsing is safe exactly where the descriptors that the loops come by are whole and the tables
have room. A well-formed stream is listed if it fits into the tables, its frames have no intervals but
continuous ones of uncompressed frames, and nothing of it stands where a descriptor is skipped. -/
theorem uvcParseStreamingInterface_law (b : Buf) (ifNum : BitVec 8) (vdev : UvcDev) :
    (StreamSafe b ifNum vdev ↔ StreamFits b ifNum vdev) ∧
      ∀ x, Describes b ifNum x → x.Listed → Faithful b ifNum x :=
  ⟨streamSafe_iff, fun _ h hl => faithful_of_listed h hl⟩

/-! ### Two cameras -/

/-- A frame of the given size -/
def plainFrame (index : BitVec 8) (width height : BitVec 16) (intervals : Intervals) : FrameDesc :=
  ⟨index, 0, width, height, 0x01770000, 0x08CA0000, 0x00096000, 333333, intervals⟩

/-- One setting with three packets of 1024 bytes in a microframe -/
def threePackets : Alternate := ⟨1, 0, 0, 0x81, 0x05, 0x1400, 1⟩

/-- A color matching descriptor -/
def colorFormat : ClassDesc := ⟨0x0D, [0x01, 0x01, 0x04], by decide, by decide⟩

/-- A YUY2 camera with these frames -/
def camera (frames : List FrameDesc) : StreamParts where
  header := [0x02, 0x01, 0x00, 0x80, 0xFA]
  before := []
  bInterfaceNumber := 1
  bAlternateSetting := 0
  bNumEndpoints := 0
  bInterfaceProtocol := 0
  iInterface := 0
  headers := [⟨0x01, [0x01, 0x38, 0x00, 0x81, 0x00, 0x03, 0x00, 0x00, 0x00, 0x01, 0x00], by decide,
    by decide⟩]
  groups := if h : frames.length < 256 then
    [⟨.yuy2, 1, List.replicate 18 0, frames, [colorFormat], by decide, h⟩] else []
  alternates := [threePackets]
  behind := []

/-- One frame with continuous intervals -/
def oneFrame : StreamDesc where
  toStreamParts := camera [plainFrame 1 640 480 (.continuous 333333 666666 333333)]
  header_length := rfl
  first := fun d hd => absurd hd List.not_mem_nil
  last := fun d hd => nomatch hd
  fits := by decide

/-- The first of two frames has one interval. -/
def twoFrames : StreamDesc where
  toStreamParts := camera
    [plainFrame 1 640 480 (.discrete [333333] (List.cons_ne_nil _ _) (by decide)),
      plainFrame 2 320 240 (.continuous 333333 666666 333333)]
  header_length := rfl
  first := fun d hd => absurd hd List.not_mem_nil
  last := fun d hd => nomatch hd
  fits := by decide +kernel

/-- A buffer with the configuration -/
def StreamDesc.buf (x : StreamDesc) : Buf := fun p => x.bytes.getD p 0

theorem StreamDesc.describes (x : StreamDesc) : Describes x.buf x.bInterfaceNumber x :=
  ⟨rfl, liesAt_getD x.bytes 0⟩

theorem uvcParseStreamingInterface_law_oneFrame : Faithful oneFrame.buf 1 oneFrame := by
  refine (uvcParseStreamingInterface_law oneFrame.buf 1 .zero).2 oneFrame oneFrame.describes ?_
  refine ⟨by decide, by decide, ?_, .inl (List.cons_ne_nil _ _), trivial⟩
  intro f hf
  obtain rfl := List.mem_singleton.mp hf
  exact fun hc => nomatch hc

/-- The counter of the frames is left behind by the interval, and the second frame is lost. -/
theorem not_streamLaw_twoFrames : ¬ StreamLaw twoFrames.buf 1 .zero := by
  rintro ⟨-, hlisted⟩
  have hlost : ((uvcParseStreamingInterface twoFrames.buf 1 .zero).toOption.map
      fun v => v.vc.frames.length) = some 1 := by decide +kernel
  rw [hlisted twoFrames twoFrames.describes] at hlost
  exact absurd (Option.some.inj hlost) (by decide)

end Ma35d1.UsbHost.Uvc.Parser
