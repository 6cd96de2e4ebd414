import Ma35d1.UsbHost.MemAlloc
import Ma35d1.UsbHost.Types

/-!
# Configuration descriptors

`usbh_parse_configuration` hands the bytes of a configuration to
`usbh_parse_interface`, which hands some to `usbh_parse_endpoint`. A pointer into
the buffer is its offset, and the bytes behind the buffer can be read too. The
model records what the two inner parsers read, index and report.
-/

namespace Ma35d1.UsbHost.Core

def maxDescBuffSize : Nat := 4096
def maxUdevDriver : Nat := 8
def maxAltPerIface : Nat := 8
def maxEpPerIface : Nat := 6

def usbDtConfiguration : BitVec 8 := 0x02#8
def usbDtInterface : BitVec 8 := 0x04#8
def usbDtEndpoint : BitVec 8 := 0x05#8

/-! ## The buffer -/

/-- Memory from the start of the descriptor buffer on. -/
abbrev Buf := Nat → BitVec 8

/-- `((DESC_HDR_T *)p)->bLength` -/
def bLength (b : Buf) (p : Nat) : Nat := (b p).toNat

def bDescriptorType (b : Buf) (p : Nat) : BitVec 8 := b (p + 1)

def bInterfaceNumber (b : Buf) (p : Nat) : BitVec 8 := b (p + 2)

def bNumEndpoints (b : Buf) (p : Nat) : Nat := (b (p + 4)).toNat

/-- `config->wTotalLength` -/
def wTotalLength (b : Buf) : Nat := (b 2).toNat + 256 * (b 3).toNat

/-- `config->bNumInterfaces` -/
def bNumInterfaces (b : Buf) : Nat := (b 4).toNat

/-- `(pksz & 0x07ff) * (1 + ((pksz >> 11) & 3))` -/
def packetSize (w : BitVec 16) : BitVec 16 :=
  (w &&& 0x07ff#16) * (1#16 + ((w >>> 11) &&& 3#16))

/-- What `usbh_parse_endpoint` stores of the descriptor at `p`. -/
def epInfo (b : Buf) (p : Nat) : EpInfo where
  bEndpointAddress := b (p + 2)
  bmAttributes := b (p + 3)
  bInterval := (b (p + 6)).toNat
  wMaxPacketSize := packetSize ((b (p + 5)).append (b (p + 4)))

/-! ## Interfaces -/

structure AltIface where
  /-- the offset of the descriptor in `cfd_buff` -/
  ifd : Option Nat
  ep : Nat → EpInfo

structure Iface where
  ifNum : BitVec 8
  numAlt : Nat
  alt : Nat → AltIface
  /-- the slot of `_drivers` -/
  driver : Option Nat

/-- A block from `usbh_alloc_mem` is zero. -/
def Iface.zero (ifNum : BitVec 8) : Iface where
  ifNum := ifNum
  numAlt := 0
  alt := fun _ => ⟨none, fun _ => ⟨0, 0, 0, 0⟩⟩
  driver := none

/-- `sizeof(IFACE_T)` -/
def sizeofIface : Nat := 880

/-- What the two inner parsers do. -/
inductive ParseEvent
  /-- a byte of the buffer is read -/
  | read (p : Nat)
  /-- `alt[i]` is indexed -/
  | alt (i : Nat)
  /-- `ep[i]` of a setting is indexed -/
  | ep (i : Nat)
  /-- the endpoint descriptor at `p` is recorded for the setting of the descriptor at `ifd` -/
  | endpoint (ifd p : Nat)
  /-- a parser that was given `len` bytes reports `ret` -/
  | report (len ret : Int)
  deriving DecidableEq, Repr

/-- Why a run of the parser has no result. -/
inductive Stop
  /-- a pointer is followed that was never set -/
  | wild
  /-- the rounds given to the loop are used up -/
  | rounds
  deriving DecidableEq, Repr

/-- `desc_buff`, `len` and `parsed_len` of a parser. -/
structure Cursor where
  off : Nat
  len : Int
  parsedLen : Int
  log : List ParseEvent

namespace Cursor

/-- `desc_buff += n; parsed_len += n; len -= n` -/
def skip (c : Cursor) (n : Int) : Cursor :=
  { c with off := c.off + n.toNat, len := c.len - n, parsedLen := c.parsedLen + n }

def note (c : Cursor) (e : ParseEvent) : Cursor := { c with log := e :: c.log }

/-- The header at `desc_buff` is read. -/
def readHdr (c : Cursor) : Cursor := (c.note (.read c.off)).note (.read (c.off + 1))

end Cursor

/-- `(len < hdr->bLength) || (hdr->bLength < 2)` at `desc_buff` -/
def badHdr (b : Buf) (c : Cursor) : Bool := c.len < bLength b c.off || bLength b c.off < 2

/-! ## `usbh_parse_endpoint` -/

/-- `while (len > 0)`, with `n` at least `len` and `ep` as `ep_desc`: where `ep_desc` points
when the loop ends, or `none` for `USBH_ERR_DESCRIPTOR`. -/
def seekEndpoint (b : Buf) : Nat → Option Nat → Cursor → Option (Option Nat) × Cursor
  | 0, ep, c => (some ep, c)
  | n + 1, ep, c =>
    if c.len ≤ 0 then (some ep, c)
    -- the message of a broken header prints its type
    else if badHdr b c then (none, c.readHdr)
    else if bDescriptorType b c.off = usbDtEndpoint then (some (some c.off), c.readHdr)
    else seekEndpoint b n (some c.off) (c.readHdr.skip (bLength b c.off))

/-- The fields of the descriptor at `p` go to `alt->ep[ep_idx]`. -/
def storeEndpoint (p ifd epIdx : Nat) (c : Cursor) : Cursor :=
  ((((((c.note (.endpoint ifd p)).note (.ep epIdx)).note (.read (p + 2))).note
    (.read (p + 3))).note (.read (p + 6))).note (.read (p + 4))).note (.read (p + 5))

/-- The function behind its loop. -/
def finishEndpoint (b : Buf) (ifd epIdx : Nat) (len : Int) :
    Option (Option Nat) × Cursor → Except Stop (Option (Int × EpInfo) × List ParseEvent)
  | (none, c) => .ok (none, c.log)
  | (some none, _) => .error .wild
  | (some (some p), c) =>
    let ret := c.parsedLen + bLength b p
    .ok (some (ret, epInfo b p),
      (((storeEndpoint p ifd epIdx c).note (.read p)).note (.report len ret)).log)

/-- `usbh_parse_endpoint` for `ep[epIdx]` of the setting of the descriptor at `ifd`: the
bytes consumed, or `none` for `USBH_ERR_DESCRIPTOR`, and what was read. -/
def usbhParseEndpoint (b : Buf) (ifd epIdx off : Nat) (len : Int) (log : List ParseEvent) :
    Except Stop (Option (Int × EpInfo) × List ParseEvent) :=
  finishEndpoint b ifd epIdx len (seekEndpoint b len.toNat none ⟨off, len, 0, log⟩)

/-! ## `usbh_parse_interface` -/

structure IfaceParse where
  cur : Cursor
  iface : Iface
  /-- `hdr` -/
  hdr : Option Nat

/-- Where a block of the function goes on. -/
inductive Flow
  | next
  /-- `goto parse_done` -/
  | done
  /-- `goto err_out` -/
  | err (ret : Int)

/-- The inner `while (len > 0)`, with `n` at least `len`. -/
def seekHeader (b : Buf) : Nat → IfaceParse → Flow × IfaceParse
  | 0, p => (.next, p)
  | n + 1, p =>
    if p.cur.len ≤ 0 then (.next, p)
    else
      let q := { p with hdr := some p.cur.off, cur := p.cur.readHdr }
      if badHdr b p.cur then (.err usbhErrDescriptor, q)
      else if bDescriptorType b p.cur.off = usbDtConfiguration then (.done, q)
      else if bDescriptorType b p.cur.off = usbDtInterface ∨
          bDescriptorType b p.cur.off = usbDtEndpoint then (.next, q)
      else seekHeader b n { q with cur := q.cur.skip (bLength b p.cur.off) }

/-- `iface->alt[iface->num_alt].ifd = if_desc; iface->num_alt++` -/
def addAlt (ifd : Nat) (p : IfaceParse) : IfaceParse :=
  { p with
    cur := p.cur.note (.alt p.iface.numAlt)
    iface := { p.iface with
      alt := Function.update p.iface.alt p.iface.numAlt
        { p.iface.alt p.iface.numAlt with ifd := some ifd }
      numAlt := p.iface.numAlt + 1 } }

/-- `alt[num_alt-1].ep[i] = info` -/
def setEp (i : Nat) (info : EpInfo) (f : Iface) : Iface :=
  let a := f.alt (f.numAlt - 1)
  { f with
    alt := Function.update f.alt (f.numAlt - 1) { a with ep := Function.update a.ep i info } }

/-- `for (i = 0; i < if_desc->bNumEndpoints; i++)` with `n` rounds to go -/
def parseEndpoints (b : Buf) (ifd : Nat) : Nat → Nat → IfaceParse → Except Stop (Flow × IfaceParse)
  | 0, _, p => .ok (.next, p)
  | n + 1, i, p =>
    match usbhParseEndpoint b ifd i p.cur.off p.cur.len
        (.alt (p.iface.numAlt - 1) :: p.cur.log) with
    | .error e => .error e
    | .ok (none, log) => .ok (.err usbhErrDescriptor, { p with cur := { p.cur with log := log } })
    | .ok (some (ret, info), log) =>
      parseEndpoints b ifd n (i + 1) { p with
        cur := ({ p.cur with log := log }).skip ret
        iface := setEp i info p.iface }

/-- A block goes on with `k` unless it jumps. -/
def andThen (r : Except Stop (Flow × IfaceParse)) (k : IfaceParse → Except Stop (Flow × IfaceParse)) :
    Except Stop (Flow × IfaceParse) :=
  match r with
  | .ok (.next, p) => k p
  | .ok (.done, p) => .ok (.done, p)
  | .ok (.err ret, p) => .ok (.err ret, p)
  | .error e => .error e

/-- The setting of the descriptor at `d` is added and its endpoints are parsed; `k` is the
next round of the outer loop. -/
def takeAlt (b : Buf) (d : Nat) (k : IfaceParse → Except Stop (Flow × IfaceParse))
    (p : IfaceParse) : Except Stop (Flow × IfaceParse) :=
  let q := addAlt d p
  if q.cur.len = 0 then .ok (.done, q)
  else
    match q.hdr with
    | none => .error .wild
    | some h =>
      let q := { q with cur := q.cur.note (.read (h + 1)) }
      if bDescriptorType b h = usbDtInterface then k q
      else andThen (parseEndpoints b d (bNumEndpoints b d) 0 q) k

/-- The outer `while (len > 0)`, for at most `n` rounds. -/
def parseAlts (b : Buf) : Nat → IfaceParse → Except Stop (Flow × IfaceParse)
  | 0, _ => .error .rounds
  | n + 1, p =>
    let d := p.cur.off
    if p.cur.len ≤ 0 then .ok (.done, p)
    else if bDescriptorType b d ≠ usbDtInterface then
      parseAlts b n { p with cur := p.cur.readHdr.skip (bLength b d) }
    else
      let c := (p.cur.note (.read (d + 1))).note (.read (d + 2))
      if bInterfaceNumber b d ≠ p.iface.ifNum then .ok (.done, { p with cur := c })
      else
        let c := c.note (.read (d + 4))
        if maxEpPerIface < bNumEndpoints b d then .ok (.err usbhErrIfEpLimit, { p with cur := c })
        else
          let c := (c.note (.read d)).skip (bLength b d)
          if maxAltPerIface ≤ p.iface.numAlt then .ok (.err usbhErrIfAltLimit, { p with cur := c })
          else
            andThen (.ok (seekHeader b c.len.toNat { p with cur := c })) (takeAlt b d (parseAlts b n))

/-! ## Class drivers -/

/-- The DMA pool and what belongs to the class drivers. -/
structure Host (δ : Type) where
  dma : DmaPool
  drv : δ

/-- `_drivers[i]->probe`, where slot `i` holds a driver; it is handed the address of the
interface with what lies there. -/
abbrev Drivers (δ : Type) := Nat → Option (Addr → Iface → Host δ → Int × Host δ)

/-- `for (i = 0; i < MAX_UDEV_DRIVER; i++)` with `n` rounds to go: the slot that matched -/
def probeDrivers {δ : Type} (drivers : Drivers δ) (x : Addr) (f : Iface) : Nat → Nat → Host δ →
    Option Nat × Host δ
  | 0, _, h => (none, h)
  | n + 1, i, h =>
    match drivers i with
    | none => probeDrivers drivers x f n (i + 1) h
    | some probe =>
      let r := probe x f h
      if r.1 = 0 then (some i, r.2) else probeDrivers drivers x f n (i + 1) r.2

/-- What a parser leaves: its return value, `udev->iface_list` and the memory. -/
structure Parsed (δ : Type) where
  ret : Int
  ifaces : List (Addr × Iface)
  host : Host δ
  log : List ParseEvent

/-- `parse_done`: the interface goes to the driver that takes it. -/
def parseDone {δ : Type} (drivers : Drivers δ) (x : Addr) (len : Int)
    (ifaces : List (Addr × Iface)) (h : Host δ) (p : IfaceParse) : Parsed δ :=
  let r := probeDrivers drivers x p.iface maxUdevDriver 0 h
  let log := .report len p.cur.parsedLen :: p.cur.log
  match r.1 with
  | some i => ⟨p.cur.parsedLen, (x, { p.iface with driver := some i }) :: ifaces, r.2, log⟩
  | none =>
    ⟨p.cur.parsedLen, ifaces, { r.2 with dma := r.2.dma.usbhFreeMem x sizeofIface }, log⟩

def usbhParseInterface {δ : Type} (drivers : Drivers δ) (b : Buf) (rounds off : Nat) (len : Int)
    (ifaces : List (Addr × Iface)) (h : Host δ) (log : List ParseEvent) :
    Except Stop (Parsed δ) :=
  match h.dma.usbhAllocMem sizeofIface with
  | none => .ok ⟨usbhErrMemoryOut, ifaces, h, log⟩
  | some (x, dma) =>
    let h := { h with dma := dma }
    match parseAlts b rounds ⟨⟨off, len, 0, .read (off + 2) :: log⟩,
        .zero (bInterfaceNumber b off), none⟩ with
    | .error e => .error e
    | .ok (.err r, p) =>
      .ok ⟨r, ifaces, { h with dma := h.dma.usbhFreeMem x sizeofIface }, p.cur.log⟩
    | .ok (_, p) => .ok (parseDone drivers x len ifaces h p)

/-! ## `usbh_parse_configuration` -/

/-- `while (len >= sizeof(DESC_HDR_T))`, with `n` at least `len`: the next interface
descriptor, or `none` for `USBH_ERR_DESCRIPTOR`. The comparison is unsigned, so a negative
`len` enters the loop. -/
def seekInterface (b : Buf) : Nat → Cursor → Option Cursor
  | 0, c => if 0 ≤ c.len then some c else none
  | n + 1, c =>
    if 0 ≤ c.len ∧ c.len < 2 then some c
    else if badHdr b c then none
    else if bDescriptorType b c.off = usbDtInterface then some c
    else seekInterface b n (c.skip (bLength b c.off))

/-- `for (i = 0; i < config->bNumInterfaces; i++)` with `n` rounds to go -/
def parseInterfaces {δ : Type} (drivers : Drivers δ) (b : Buf) (rounds : Nat) : Nat → Cursor →
    List (Addr × Iface) → Host δ → Except Stop (Parsed δ)
  | 0, c, ifaces, h => .ok ⟨if 0 < c.len then usbhErrDescriptor else c.len, ifaces, h, c.log⟩
  | n + 1, c, ifaces, h =>
    match seekInterface b c.len.toNat c with
    | none => .ok ⟨usbhErrDescriptor, ifaces, h, c.log⟩
    | some c =>
      match usbhParseInterface drivers b rounds c.off c.len ifaces h c.log with
      | .error e => .error e
      | .ok r =>
        if r.ret < 0 then .ok r
        else parseInterfaces drivers b rounds n ({ c with log := r.log }.skip r.ret) r.ifaces r.host

def usbhParseConfiguration {δ : Type} (drivers : Drivers δ) (b : Buf) (rounds : Nat)
    (ifaces : List (Addr × Iface)) (h : Host δ) : Except Stop (Parsed δ) :=
  parseInterfaces drivers b rounds (bNumInterfaces b)
    (Cursor.skip ⟨0, wTotalLength b, 0, []⟩ (bLength b 0)) ifaces h

end Ma35d1.UsbHost.Core
