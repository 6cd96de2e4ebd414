import Ma35d1.UsbHost.Types

/-!
# Assembling video frames

`uvc_parse_streaming_data` is given one isochronous packet after the other and appends its
payload to the image buffer. A packet is its bytes; the first is the length of its header and
the second holds the flags. Copies into the buffer and images passed to `func_rx` are
recorded in order.
-/

namespace Ma35d1.UsbHost.Uvc

abbrev Packet := List (BitVec 8)

def uvcPlErr : BitVec 8 := 0x40#8
def uvcPlRes : BitVec 8 := 0x10#8
def uvcPlPts : BitVec 8 := 0x04#8
def uvcPlEof : BitVec 8 := 0x02#8
def uvcPlFid : BitVec 8 := 0x01#8

/-- `buff[0]` -/
def hdrLen (buff : Packet) : Nat := (buff.getD 0 0).toNat
/-- `buff[1]` -/
def flags (buff : Packet) : BitVec 8 := buff.getD 1 0

def hasErr (buff : Packet) : Bool := flags buff &&& uvcPlErr != 0
def hasEof (buff : Packet) : Bool := flags buff &&& uvcPlEof != 0
def hasResPts (buff : Packet) : Bool :=
  flags buff &&& uvcPlRes != 0 && flags buff &&& uvcPlPts != 0
def fid (buff : Packet) : BitVec 8 := flags buff &&& uvcPlFid

/-- The bytes behind the header. -/
def payload (buff : Packet) : List (BitVec 8) := buff.drop (hdrLen buff)

/-- A `memcpy` into the image buffer: offsets in the buffer and in the packet, length, and
the sizes of both. -/
structure Copy where
  dst : Nat
  src : Nat
  len : Nat
  imgBuffSize : Nat
  pktLen : Nat

/-- What the stream uses of a `UVC_DEV_T`. -/
structure Vdev where
  imgBuff : Nat → BitVec 8
  imgBuffSize : Nat
  imgSize : Nat
  /-- whether `func_rx` is set -/
  funcRx : Bool
  currentFrameError : Bool
  currentFrameToggle : BitVec 8
  images : List (List (BitVec 8))
  copies : List Copy

/-- `memcpy(b + dst, src, …)` -/
def memcpy (b : Nat → BitVec 8) (dst : Nat) (src : List (BitVec 8)) (i : Nat) : BitVec 8 :=
  if i < dst then b i else (src[i - dst]?).getD (b i)

namespace Vdev

/-- A device that streams into a buffer of `size` bytes. -/
def init (size : Nat) : Vdev := ⟨fun _ => 0, size, 0, true, false, 0, [], []⟩

/-- The bytes received so far. -/
def image (v : Vdev) : List (BitVec 8) := (List.range v.imgSize).map v.imgBuff

/-- `memcpy(vdev->img_buff + dst, buff + buff[0], data_len)` -/
def copy (v : Vdev) (dst : Nat) (buff : Packet) : Vdev :=
  { v with
    imgBuff := memcpy v.imgBuff dst (payload buff)
    copies := ⟨dst, hdrLen buff, buff.length - hdrLen buff, v.imgBuffSize, buff.length⟩ :: v.copies }

/-- `vdev->func_rx(vdev, vdev->img_buff, vdev->img_size)`, and the image is taken off. -/
def deliver (v : Vdev) : Vdev :=
  { v with
    images := if v.funcRx && decide (0 < v.imgSize) then v.images ++ [v.image] else v.images
    imgSize := 0 }

end Vdev

/-- `uvc_parse_streaming_data` -/
def parseStreamingData (v : Vdev) (buff : Packet) : Vdev :=
  if buff.length < 2 then v
  else if buff.length < hdrLen buff then v
  else
    let dataLen := buff.length - hdrLen buff
    if v.currentFrameError then
      if hasEof buff then { v with currentFrameError := false, imgSize := 0 } else v
    else if v.imgSize = 0 then
      let v := { v with currentFrameToggle := fid buff }
      if 0 < dataLen then { v.copy 0 buff with imgSize := dataLen } else v
    else if fid buff ≠ v.currentFrameToggle then { v with currentFrameError := true }
    else if hasErr buff then { v with currentFrameError := true }
    else if hasResPts buff then v.deliver
    else if v.imgBuffSize < v.imgSize + dataLen then { v with currentFrameError := true }
    else
      let v :=
        if 0 < dataLen then { v.copy v.imgSize buff with imgSize := v.imgSize + dataLen } else v
      if hasEof buff then v.deliver else v

/-- `usbh_uvc_set_video_buffer` -/
def setVideoBuffer (v : Vdev) (imageBuff : Nat → BitVec 8) (imgBuffSize : Nat) : Vdev :=
  { v with imgBuff := imageBuff, imgBuffSize := imgBuffSize, imgSize := 0 }

/-- Packets, one after the other. -/
def feed (v : Vdev) (l : List Packet) : Vdev := l.foldl parseStreamingData v

end Ma35d1.UsbHost.Uvc
