import Mathlib.Algebra.GroupWithZero.Nat
import Ma35d1.Machine.Checked
import Ma35d1.UsbHost.Uac.Parser

/-!
# Parsing the descriptors of a video stream

`uvc_parse_streaming_interface` goes along the length bytes of a configuration and fills the tables
of a `UVC_DEV_T`. Every byte that it reads and every entry that it writes is checked here: a run is
a fault where the source reads a byte at or behind `wTotalLength` or writes behind a table.
-/

namespace Ma35d1.UsbHost.Uvc.Parser

open Ma35d1.Machine.Checked
open Ma35d1.UsbHost.Core (Buf bLength bDescriptorType bInterfaceNumber wTotalLength nextDesc
  packetSize usbDtInterface usbDtEndpoint)
open Ma35d1.UsbHost.Uac (AtLeast Fields fieldsAre seek sizeofDescIf bDescriptorSubtype)

scoped instance lawfulByte : LawfulBEq (BitVec 8) := inferInstance

def uvcMaxFormat : Nat := 8
def uvcMaxFrame : Nat := 24
def uvcMaxAltIf : Nat := 12

/-- The second bound of `frame_interval_list` -/
def maxInterval : Nat := 8

def usbClassVideo : BitVec 8 := 0x0E
def uvcScVideostreaming : BitVec 8 := 0x02
def uvcCsInterface : BitVec 8 := 0x24

def vsFormatUncompressed : BitVec 8 := 0x04
def vsFrameUncompressed : BitVec 8 := 0x05
def vsFormatMjpeg : BitVec 8 := 0x06
def vsFrameMjpeg : BitVec 8 := 0x07

/-- `VS_UNDEFINED` to `VS_OUTPUT_HEADER`, `VS_FORMAT_MPEG2TS`, `VS_FORMAT_DV`, `VS_COLORFORMAT`, and
`VS_FORMAT_FRAME_BASED` to `VS_FORMAT_VP8_SIMULCAST` -/
def unsupported : List (BitVec 8) :=
  [0x00, 0x01, 0x02, 0x03, 0x0A, 0x0C, 0x0D, 0x10, 0x11, 0x12, 0x13, 0x14, 0x15, 0x16, 0x17, 0x18]

def uvcRetParser : Int := -3013

/-! ## Tables -/

/-- `IMAGE_FORMAT_E` -/
inductive ImageFormat where
  | invalid | yuy2 | nv12 | m420 | i420 | mjpeg
  deriving DecidableEq, Repr

/-- `format_idx[i]` and `format[i]` -/
structure FormatEntry where
  formatIdx : BitVec 8
  format : ImageFormat
  deriving DecidableEq, Repr

/-- `frame_idx[i]` to `frame_interval_list[i]`; of the list, the entries that are written -/
structure FrameEntry where
  frameIdx : BitVec 8
  frameFormat : ImageFormat
  width : BitVec 16
  height : BitVec 16
  frameIntervalType : BitVec 8 := 0
  frameIntervalMin : BitVec 32 := 0
  frameIntervalMax : BitVec 32 := 0
  frameIntervalStep : BitVec 32 := 0
  frameIntervalNum : BitVec 8 := 0
  frameIntervalList : List (BitVec 32) := []
  deriving DecidableEq, Repr

/-- `alt_no[i]` and `max_pktsz[i]` -/
structure AltEntry where
  altNo : BitVec 8
  maxPktsz : BitVec 16
  deriving DecidableEq, Repr

/-- The tables of `UVC_CTRL_T`, up to `num_of_formats` and `num_of_frames` -/
structure UvcCtrl where
  formats : List FormatEntry
  frames : List FrameEntry
  deriving DecidableEq, Repr

/-- What is parsed of a `UVC_DEV_T` -/
structure UvcDev where
  vc : UvcCtrl
  /-- the table of `UVC_STRM_T`, up to `num_of_alt` -/
  alts : List AltEntry
  deriving DecidableEq, Repr

/-- `alloc_uvc_device` clears a new device. -/
def UvcDev.zero : UvcDev := ⟨⟨[], []⟩, []⟩

namespace UvcCtrl

/-- `vc->format[vc->num_of_formats - 1]` -/
def lastFormat (vc : UvcCtrl) : ImageFormat := (vc.formats.getLast?).elim .invalid (·.format)

def addFormat (vc : UvcCtrl) (f : FormatEntry) : UvcCtrl := { vc with formats := vc.formats ++ [f] }

def addFrame (vc : UvcCtrl) (f : FrameEntry) : UvcCtrl := { vc with frames := vc.frames ++ [f] }

end UvcCtrl

/-! ## Fields -/

def half (b : Buf) (p : Nat) : BitVec 16 := b (p + 1) ++ b p

def word (b : Buf) (p : Nat) : BitVec 32 := b (p + 3) ++ b (p + 2) ++ (b (p + 1) ++ b p)

def bFormatIndex (b : Buf) (p : Nat) : BitVec 8 := b (p + 3)

def bNumFrameDescriptors (b : Buf) (p : Nat) : Nat := (b (p + 4)).toNat

/-- The format of `guidFormat[0]`; for another one `format[idx]` is left as it is. -/
def imageFormat (guid : BitVec 32) : ImageFormat :=
  if guid = 0x32595559 then .yuy2
  else if guid = 0x3231564E then .nv12
  else if guid = 0x3032344D then .m420
  else if guid = 0x30323449 then .i420
  else .invalid

def bFrameIndex (b : Buf) (p : Nat) : BitVec 8 := b (p + 3)

def wWidth (b : Buf) (p : Nat) : BitVec 16 := half b (p + 5)

def wHeight (b : Buf) (p : Nat) : BitVec 16 := half b (p + 7)

def bFrameIntervalType (b : Buf) (p : Nat) : Nat := (b (p + 25)).toNat

/-- `sizeof(DESC_VSU_FRAME_T)` -/
def sizeofDescVsuFrame : Nat := 38

/-! ## Frames -/

/-- `for (i = 0; i < vsu_frame->bFrameIntervalType; i++)` with `n` rounds to go: what is written to
`frame_interval_list[idx]` from `i` on -/
def frameIntervals (b : Buf) (w p : Nat) : Nat → Nat → Run Int (List (BitVec 32))
  | 0, _ => .ok []
  | n + 1, i =>
    -- `p = (uint32_t *)(vsu_frame + 1)`
    guarded (p + sizeofDescVsuFrame + 4 * i + 3 < w ∧ i < maxInterval)
      (frameIntervals b w p n (i + 1) >>= fun l =>
        .ok (word b (p + sizeofDescVsuFrame + 4 * i) :: l))

/-- The fields of an uncompressed frame, and `i` behind them -/
def vsuFrame (b : Buf) (w : Nat) (format : ImageFormat) (p i : Nat) : Run Int (FrameEntry × Nat) :=
  guarded (p + 25 < w)
    (if bFrameIntervalType b p = 0 then
      guarded (p + 37 < w)
        (.ok ({ frameIdx := bFrameIndex b p, frameFormat := format, width := wWidth b p,
                height := wHeight b p, frameIntervalType := b (p + 25),
                frameIntervalMin := word b (p + 26), frameIntervalMax := word b (p + 30),
                frameIntervalStep := word b (p + 34) }, i))
    else
      frameIntervals b w p (bFrameIntervalType b p) 0 >>= fun l =>
        -- the loop over the intervals counts in `i` too
        .ok ({ frameIdx := bFrameIndex b p, frameFormat := format, width := wWidth b p,
               height := wHeight b p, frameIntervalType := b (p + 25),
               frameIntervalNum := b (p + 25), frameIntervalList := l }, bFrameIntervalType b p))

/-- The fields of an MJPEG frame -/
def mjpgFrame (b : Buf) (w : Nat) (format : ImageFormat) (p i : Nat) : Run Int (FrameEntry × Nat) :=
  guarded (p + 8 < w)
    (.ok ({ frameIdx := bFrameIndex b p, frameFormat := format, width := wWidth b p,
            height := wHeight b p }, i))

/-- The `for` of a format at `p`, whose frames have the given subtype, with `n` frames left in the
table and `bptr` at `p + d`; it comes to the tables and the last `d`. -/
def parseFrames (b : Buf) (w : Nat) (subtype : BitVec 8)
    (frame : ImageFormat → Nat → Nat → Run Int (FrameEntry × Nat)) (p : Nat) :
    Nat → Nat → Nat → UvcCtrl → Run Int (UvcCtrl × Nat)
  | 0, _, d, vc => .ok (vc, d)
  | n + 1, i, d, vc =>
    if i < bNumFrameDescriptors b p then
      guarded (p + d + 1 < w)
        (if bDescriptorType b (p + d) ≠ uvcCsInterface then early uvcRetParser
        else
          guarded (p + d + 2 < w)
            (if bDescriptorSubtype b (p + d) ≠ subtype then early uvcRetParser
            else
              frame vc.lastFormat (p + d) i >>= fun r =>
                parseFrames b w subtype frame p n (r.2 + 1) (d + bLength b (p + d))
                  (vc.addFrame r.1)))
    else .ok (vc, d)

/-- How many frames fit -/
def UvcCtrl.room (vc : UvcCtrl) : Nat := uvcMaxFrame - vc.frames.length

/-! ## Formats -/

/-- A format at `p` goes into the tables, with its frames. -/
def parseFormat (b : Buf) (w : Nat) (subtype : BitVec 8) (format : ImageFormat)
    (frame : ImageFormat → Nat → Nat → Run Int (FrameEntry × Nat)) (vc : UvcCtrl) (p : Nat) :
    Run Int (UvcCtrl × Nat) :=
  guarded (vc.formats.length < uvcMaxFormat)
    (parseFrames b w subtype frame p vc.room 0 (bLength b p)
      (vc.addFormat ⟨bFormatIndex b p, format⟩))

/-- The `switch` for the descriptor at `p`: the tables, and how far `bptr` is advanced -/
def parseClassDesc (b : Buf) (w : Nat) (vc : UvcCtrl) (p : Nat) : Run Int (UvcCtrl × Nat) :=
  guarded (p + 2 < w)
    (if bDescriptorSubtype b p = vsFormatUncompressed then
      guarded (p + 8 < w)
        (parseFormat b w vsFrameUncompressed (imageFormat (word b (p + 5))) (vsuFrame b w) vc p)
    else if bDescriptorSubtype b p = vsFormatMjpeg then
      guarded (p + 4 < w) (parseFormat b w vsFrameMjpeg .mjpeg (mjpgFrame b w) vc p)
    else if bDescriptorSubtype b p = vsFrameUncompressed ∨ bDescriptorSubtype b p = vsFrameMjpeg ∨
        bDescriptorSubtype b p ∈ unsupported then .ok (vc, 0)
    else early uvcRetParser)

/-- The second loop, for the class-specific descriptors from `p` on -/
def parseClassDescs (b : Buf) (w : Nat) (vc : UvcCtrl) (p : Nat) : Run Int (UvcCtrl × Nat) :=
  if AtLeast ((w : Int) - p) sizeofDescIf then
    guarded (p + 1 < w)
      (if bDescriptorType b p ≠ uvcCsInterface then .ok (vc, p)
      else
        parseClassDesc b w vc p >>= fun r =>
          -- behind a format `ifd` is the descriptor after its frames
          if _h : p + r.2 < w then
            -- prevent infinite loop
            if _h0 : bLength b (p + r.2) = 0 then early uvcRetParser
            else parseClassDescs b w r.1 (nextDesc b (p + r.2))
          else fault)
  else .ok (vc, p)
termination_by w - p
decreasing_by
  unfold nextDesc
  omega

/-! ## Alternate settings -/

def streamFields (ifNum : BitVec 8) : Fields :=
  [(1, (· == usbDtInterface)), (2, (· == ifNum)), (5, (· == usbClassVideo)),
    (6, (· == uvcScVideostreaming))]

/-- `epd->wMaxPacketSize` -/
def wMaxPacketSize (b : Buf) (p : Nat) : BitVec 16 := half b (p + 4)

def bAlternateSetting (b : Buf) (p : Nat) : BitVec 8 := b (p + 3)

/-- The third loop, for the settings from `p` on -/
def parseAlts (b : Buf) (w : Nat) (ifNum : BitVec 8) (alts : List AltEntry) (p : Nat) :
    Run Int (List AltEntry) :=
  if AtLeast ((w : Int) - p) sizeofDescIf then
    match fieldsAre b w p (streamFields ifNum) with
    | none => fault
    | some false => .ok alts
    | some true =>
      if (w : Int) - p < 8 then early uvcRetParser
      else if _h0 : bLength b p = 0 then early uvcRetParser
      else
        if _h1 : nextDesc b p + 1 < w then
          if bDescriptorType b (nextDesc b p) ≠ usbDtEndpoint then
            parseAlts b w ifNum alts (nextDesc b p)
          else if nextDesc b p + 5 < w ∧ alts.length < uvcMaxAltIf then
            if bLength b (nextDesc b p) = 0 then early uvcRetParser
            else
              parseAlts b w ifNum
                (alts ++ [⟨bAlternateSetting b p, packetSize (wMaxPacketSize b (nextDesc b p))⟩])
                (nextDesc b (nextDesc b p))
          else fault
        else fault
  else .ok alts
termination_by w - p
decreasing_by
  all_goals
    unfold nextDesc at *
    omega

/-- The second and the third loop, from `p` on -/
def parseStream (b : Buf) (w : Nat) (ifNum : BitVec 8) (vdev : UvcDev) (p : Nat) : Run Int UvcDev :=
  parseClassDescs b w vdev.vc p >>= fun r =>
    parseAlts b w ifNum vdev.alts r.2 >>= fun alts => .ok ⟨r.1, alts⟩

/-- `uvc_parse_streaming_interface` for interface `ifNum`: what is in the device when it returns 0,
or the code that it returns -/
def uvcParseStreamingInterface (b : Buf) (ifNum : BitVec 8) (vdev : UvcDev) : Run Int UvcDev :=
  let w := wTotalLength b
  -- `config->bLength` and `config->wTotalLength`
  guarded (3 < w)
    (match seek b w (streamFields ifNum) (bLength b 0) with
    | none => fault
    | some none => early uvcRetParser
    | some (some p) => parseStream b w ifNum vdev (nextDesc b p))

end Ma35d1.UsbHost.Uvc.Parser
