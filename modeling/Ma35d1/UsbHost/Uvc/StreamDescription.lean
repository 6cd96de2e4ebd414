import Ma35d1.UsbHost.Core.Description
import Ma35d1.UsbHost.Uvc.Parser

/-!
# What a configuration describes of a video stream

A value of these types is a configuration with one well-formed video streaming interface, and other
descriptors around it; `bytes` is what the device sends for it, and `listed` what the host is to
know of the stream.
-/

namespace Ma35d1.UsbHost.Uvc.Parser

open Ma35d1.UsbHost.Core (maxDescBuffSize usbDtConfiguration usbDtInterface usbDtEndpoint)
open Ma35d1.UsbHost.Core.Description (descBytes)

def halfBytes (x : BitVec 16) : List (BitVec 8) := [x.extractLsb' 0 8, x.extractLsb' 8 8]

def wordBytes (x : BitVec 32) : List (BitVec 8) :=
  [x.extractLsb' 0 8, x.extractLsb' 8 8, x.extractLsb' 16 8, x.extractLsb' 24 8]

/-! ## Class-specific descriptors -/

/-- A class-specific descriptor that is neither a supported format nor one of its frames -/
structure ClassDesc where
  bDescriptorSubtype : BitVec 8
  body : List (BitVec 8)
  other : bDescriptorSubtype ∈ unsupported
  short : body.length ≤ 252

def ClassDesc.bytes (c : ClassDesc) : List (BitVec 8) :=
  descBytes uvcCsInterface (c.bDescriptorSubtype :: c.body)

/-- The intervals of a frame; a descriptor has 255 bytes at most. -/
inductive Intervals where
  | continuous (dwMin dwMax dwStep : BitVec 32)
  | discrete (list : List (BitVec 32)) (nonempty : list ≠ []) (short : list.length ≤ 57)

namespace Intervals

/-- `bFrameIntervalType` -/
def type : Intervals → BitVec 8
  | continuous .. => 0
  | discrete list _ _ => BitVec.ofNat 8 list.length

def bytes : Intervals → List (BitVec 8)
  | continuous dwMin dwMax dwStep => wordBytes dwMin ++ (wordBytes dwMax ++ wordBytes dwStep)
  | discrete list _ _ => list.flatMap wordBytes

end Intervals

structure FrameDesc where
  bFrameIndex : BitVec 8
  bmCapabilities : BitVec 8
  wWidth : BitVec 16
  wHeight : BitVec 16
  dwMinBitRate : BitVec 32
  dwMaxBitRate : BitVec 32
  dwMaxVideoFrameBufferSize : BitVec 32
  dwDefaultFrameInterval : BitVec 32
  intervals : Intervals

/-- The supported formats -/
inductive Coding where
  | yuy2 | nv12 | m420 | i420 | mjpeg
  deriving DecidableEq

namespace Coding

def format : Coding → ImageFormat
  | yuy2 => .yuy2
  | nv12 => .nv12
  | m420 => .m420
  | i420 => .i420
  | mjpeg => .mjpeg

/-- `guidFormat[0]`, the four characters of the name -/
def guid : Coding → List (BitVec 8)
  | yuy2 => [0x59, 0x55, 0x59, 0x32]
  | nv12 => [0x4E, 0x56, 0x31, 0x32]
  | m420 => [0x4D, 0x34, 0x32, 0x30]
  | i420 => [0x49, 0x34, 0x32, 0x30]
  | mjpeg => []

/-- The bytes of the format descriptor behind it -/
def extra : Coding → Nat
  | mjpeg => 6
  | _ => 18

def formatSubtype : Coding → BitVec 8
  | mjpeg => vsFormatMjpeg
  | _ => vsFormatUncompressed

def frameSubtype : Coding → BitVec 8
  | mjpeg => vsFrameMjpeg
  | _ => vsFrameUncompressed

end Coding

namespace FrameDesc

def body (c : Coding) (f : FrameDesc) : List (BitVec 8) :=
  [c.frameSubtype, f.bFrameIndex, f.bmCapabilities] ++ (halfBytes f.wWidth ++
    (halfBytes f.wHeight ++ (wordBytes f.dwMinBitRate ++ (wordBytes f.dwMaxBitRate ++
      (wordBytes f.dwMaxVideoFrameBufferSize ++ (wordBytes f.dwDefaultFrameInterval ++
        (f.intervals.type :: f.intervals.bytes)))))))

def bytes (c : Coding) (f : FrameDesc) : List (BitVec 8) := descBytes uvcCsInterface (f.body c)

/-- What the host is to know of a frame of this format -/
def entry (c : Coding) (f : FrameDesc) : FrameEntry :=
  match f.intervals with
  | .continuous dwMin dwMax dwStep =>
    { frameIdx := f.bFrameIndex, frameFormat := c.format, width := f.wWidth, height := f.wHeight,
      frameIntervalMin := dwMin, frameIntervalMax := dwMax, frameIntervalStep := dwStep }
  | .discrete list _ _ =>
    { frameIdx := f.bFrameIndex, frameFormat := c.format, width := f.wWidth, height := f.wHeight,
      frameIntervalType := BitVec.ofNat 8 list.length,
      frameIntervalNum := BitVec.ofNat 8 list.length, frameIntervalList := list }

end FrameDesc

/-- A format with its frames, and the other descriptors behind them -/
structure Group where
  coding : Coding
  bFormatIndex : BitVec 8
  extra : List (BitVec 8)
  frames : List FrameDesc
  others : List ClassDesc
  extra_length : extra.length = coding.extra
  /-- `bNumFrameDescriptors` is a byte. -/
  counted : frames.length < 256

namespace Group

def body (g : Group) : List (BitVec 8) :=
  [g.coding.formatSubtype, g.bFormatIndex, BitVec.ofNat 8 g.frames.length] ++
    (g.coding.guid ++ g.extra)

def framesBytes (c : Coding) (fs : List FrameDesc) : List (BitVec 8) :=
  fs.flatMap (FrameDesc.bytes c)

def othersBytes (cs : List ClassDesc) : List (BitVec 8) := cs.flatMap ClassDesc.bytes

def bytes (g : Group) : List (BitVec 8) :=
  descBytes uvcCsInterface g.body ++ (framesBytes g.coding g.frames ++ othersBytes g.others)

def formatEntry (g : Group) : FormatEntry := ⟨g.bFormatIndex, g.coding.format⟩

def frameEntries (g : Group) : List FrameEntry := g.frames.map (FrameDesc.entry g.coding)

end Group

/-! ## Alternate settings -/

/-- An alternate setting with its endpoint -/
structure Alternate where
  bAlternateSetting : BitVec 8
  bInterfaceProtocol : BitVec 8
  iInterface : BitVec 8
  bEndpointAddress : BitVec 8
  bmAttributes : BitVec 8
  wMaxPacketSize : BitVec 16
  bInterval : BitVec 8

namespace Alternate

/-- An interface descriptor of the stream -/
def ifaceBody (num alt numEndpoints protocol i : BitVec 8) : List (BitVec 8) :=
  [num, alt, numEndpoints, usbClassVideo, uvcScVideostreaming, protocol, i]

def endpointBody (a : Alternate) : List (BitVec 8) :=
  [a.bEndpointAddress, a.bmAttributes] ++ (halfBytes a.wMaxPacketSize ++ [a.bInterval])

def bytes (num : BitVec 8) (a : Alternate) : List (BitVec 8) :=
  descBytes usbDtInterface
    (ifaceBody num a.bAlternateSetting 1 a.bInterfaceProtocol a.iInterface) ++
      descBytes usbDtEndpoint a.endpointBody

/-- Bits 10 to 0 of `wMaxPacketSize`, as often as bits 12 and 11 say -/
def entry (a : Alternate) : AltEntry where
  altNo := a.bAlternateSetting
  maxPktsz := BitVec.ofNat 16
    (a.wMaxPacketSize.toNat % 2048 * (1 + a.wMaxPacketSize.toNat / 2048 % 4))

end Alternate

/-! ## The configuration -/

/-- A descriptor of any type -/
structure Desc where
  type : BitVec 8
  body : List (BitVec 8)
  whole : type = usbDtInterface → 7 ≤ body.length
  short : body.length ≤ 253

namespace Desc

def bytes (d : Desc) : List (BitVec 8) := descBytes d.type d.body

/-- An interface descriptor of the stream -/
def IsStream (num : BitVec 8) (d : Desc) : Prop :=
  d.type = usbDtInterface ∧ d.body[0]? = some num ∧ d.body[3]? = some usbClassVideo ∧
    d.body[4]? = some uvcScVideostreaming

end Desc

/-- The parts of a configuration, with the descriptor of the configuration in `header` from
`bNumInterfaces` on -/
structure StreamParts where
  header : List (BitVec 8)
  before : List Desc
  bInterfaceNumber : BitVec 8
  bAlternateSetting : BitVec 8
  bNumEndpoints : BitVec 8
  bInterfaceProtocol : BitVec 8
  iInterface : BitVec 8
  /-- the header of the stream, and what else is in front of the first format -/
  headers : List ClassDesc
  groups : List Group
  alternates : List Alternate
  behind : List Desc

namespace StreamParts

/-- What is behind the class-specific descriptors -/
def tail (x : StreamParts) : List (BitVec 8) :=
  x.alternates.flatMap (Alternate.bytes x.bInterfaceNumber) ++ x.behind.flatMap Desc.bytes

def stream (x : StreamParts) : List (BitVec 8) :=
  Group.othersBytes x.headers ++ (x.groups.flatMap Group.bytes ++ x.tail)

/-- The bytes behind the configuration descriptor -/
def body (x : StreamParts) : List (BitVec 8) :=
  x.before.flatMap Desc.bytes ++
    (descBytes usbDtInterface (Alternate.ifaceBody x.bInterfaceNumber x.bAlternateSetting
      x.bNumEndpoints x.bInterfaceProtocol x.iInterface) ++ x.stream)

/-- `wTotalLength` -/
def total (x : StreamParts) : Nat := 9 + x.body.length

def bytes (x : StreamParts) : List (BitVec 8) :=
  descBytes usbDtConfiguration
    ([BitVec.ofNat 8 x.total, BitVec.ofNat 8 (x.total / 256)] ++ x.header) ++ x.body

/-- All frames, in order -/
def frameEntries (gs : List Group) : List FrameEntry := gs.flatMap Group.frameEntries

/-- What the host is to know: the frames that the table has room for -/
def listed (x : StreamParts) : UvcDev where
  vc := ⟨x.groups.map Group.formatEntry, (frameEntries x.groups).take uvcMaxFrame⟩
  alts := x.alternates.map Alternate.entry

end StreamParts

/-- A configuration with a well-formed streaming interface: nothing in front of the interface
descriptor is taken for it, and what is behind the settings does not belong to the stream. -/
structure StreamDesc extends StreamParts where
  header_length : header.length = 5
  first : ∀ d ∈ before, ¬ d.IsStream bInterfaceNumber
  last : ∀ d ∈ behind.head?, d.type ≠ uvcCsInterface ∧ ¬ d.IsStream bInterfaceNumber
  fits : toStreamParts.total ≤ maxDescBuffSize

end Ma35d1.UsbHost.Uvc.Parser
