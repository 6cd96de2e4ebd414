import Ma35d1.Machine.Layout
import Ma35d1.UsbHost.Core.Descriptor

/-!
# What a configuration describes

A configuration is a header and its interfaces. The settings of an interface stand together,
each with its endpoints, and descriptors of other types may stand anywhere behind the header.
A value of these types is well formed; `bytes` is what the device sends for it.
-/

namespace Ma35d1.UsbHost.Core.Description

open Machine.Layout

/-- A descriptor of the type, with what stands behind its type. -/
def descBytes (type : BitVec 8) (body : List (BitVec 8)) : List (BitVec 8) :=
  BitVec.ofNat 8 (body.length + 2) :: type :: body

@[simp] theorem descBytes_length (type : BitVec 8) (body : List (BitVec 8)) :
    (descBytes type body).length = body.length + 2 := rfl

/-- A class-specific or association descriptor. -/
structure Other where
  type : BitVec 8
  body : List (BitVec 8)
  other : type ≠ usbDtConfiguration ∧ type ≠ usbDtInterface ∧ type ≠ usbDtEndpoint
  short : body.length ≤ 253

def Other.bytes (o : Other) : List (BitVec 8) := descBytes o.type o.body

def othersBytes (os : List Other) : List (BitVec 8) := os.flatMap Other.bytes

/-- An endpoint with the other descriptors before it; an audio endpoint has `extra` bytes. -/
structure Endpoint where
  before : List Other
  bEndpointAddress : BitVec 8
  bmAttributes : BitVec 8
  wMaxPacketSize : BitVec 16
  bInterval : BitVec 8
  extra : List (BitVec 8)
  short : extra.length ≤ 248

namespace Endpoint

/-- Bits 10 to 0 of `wMaxPacketSize`. -/
def size (e : Endpoint) : Nat := e.wMaxPacketSize.toNat % 2048

/-- Bits 12 and 11: the additional transactions of a microframe. -/
def additional (e : Endpoint) : Nat := e.wMaxPacketSize.toNat / 2048 % 4

def body (e : Endpoint) : List (BitVec 8) :=
  [e.bEndpointAddress, e.bmAttributes, e.wMaxPacketSize.extractLsb' 0 8,
    e.wMaxPacketSize.extractLsb' 8 8, e.bInterval] ++ e.extra

def bytes (e : Endpoint) : List (BitVec 8) :=
  othersBytes e.before ++ descBytes usbDtEndpoint e.body

theorem body_short (e : Endpoint) : e.body.length ≤ 253 := by
  have := e.short
  rw [body, List.length_append]
  simp only [List.length_cons, List.length_nil]
  omega

/-- The endpoint without the descriptors before it. -/
def bare (e : Endpoint) : Endpoint := { e with before := [] }

/-- What the host is to know of the endpoint. -/
def info (e : Endpoint) : EpInfo where
  bEndpointAddress := e.bEndpointAddress
  bmAttributes := e.bmAttributes
  bInterval := e.bInterval.toNat
  wMaxPacketSize := BitVec.ofNat 16 (e.size * (1 + e.additional))

end Endpoint

/-- An alternate setting, with the other descriptors behind its last endpoint. -/
structure Setting where
  bAlternateSetting : BitVec 8
  bInterfaceClass : BitVec 8
  bInterfaceSubClass : BitVec 8
  bInterfaceProtocol : BitVec 8
  iInterface : BitVec 8
  endpoints : List Endpoint
  behind : List Other
  fits : endpoints.length ≤ maxEpPerIface

namespace Setting

def body (num : BitVec 8) (s : Setting) : List (BitVec 8) :=
  [num, s.bAlternateSetting, BitVec.ofNat 8 s.endpoints.length, s.bInterfaceClass,
    s.bInterfaceSubClass, s.bInterfaceProtocol, s.iInterface]

/-- The interface descriptor. -/
def header (num : BitVec 8) (s : Setting) : List (BitVec 8) := descBytes usbDtInterface (s.body num)

theorem body_short {num : BitVec 8} (s : Setting) : (s.body num).length ≤ 253 := by
  show 7 ≤ 253
  decide

def bytes (num : BitVec 8) (s : Setting) : List (BitVec 8) :=
  s.header num ++ (s.endpoints.flatMap Endpoint.bytes ++ othersBytes s.behind)

end Setting

def settingsBytes (num : BitVec 8) (ss : List Setting) : List (BitVec 8) :=
  ss.flatMap (Setting.bytes num)

structure Interface where
  bInterfaceNumber : BitVec 8
  settings : List Setting
  nonempty : settings ≠ []
  fits : settings.length ≤ maxAltPerIface

def Interface.bytes (i : Interface) : List (BitVec 8) :=
  settingsBytes i.bInterfaceNumber i.settings

def interfacesBytes (is : List Interface) : List (BitVec 8) := is.flatMap Interface.bytes

/-- The bytes behind the header. -/
def configBody (before : List Other) (interfaces : List Interface) : List (BitVec 8) :=
  othersBytes before ++ interfacesBytes interfaces

structure Configuration where
  bConfigurationValue : BitVec 8
  iConfiguration : BitVec 8
  bmAttributes : BitVec 8
  bMaxPower : BitVec 8
  before : List Other
  interfaces : List Interface
  nonempty : interfaces ≠ []
  /-- The settings of one interface number are contiguous. -/
  distinct : (interfaces.map Interface.bInterfaceNumber).Nodup
  /-- `bNumInterfaces` is a byte. -/
  counted : interfaces.length < 256
  fits : 9 + (configBody before interfaces).length ≤ maxDescBuffSize

namespace Configuration

/-- `wTotalLength` -/
def total (d : Configuration) : Nat := 9 + (configBody d.before d.interfaces).length

/-- The configuration descriptor. -/
def header (d : Configuration) : List (BitVec 8) :=
  descBytes usbDtConfiguration [BitVec.ofNat 8 d.total, BitVec.ofNat 8 (d.total / 256),
    BitVec.ofNat 8 d.interfaces.length, d.bConfigurationValue, d.iConfiguration, d.bmAttributes,
    d.bMaxPower]

def bytes (d : Configuration) : List (BitVec 8) := d.header ++ configBody d.before d.interfaces

end Configuration

/-! ## The interfaces described -/

/-- The setting of the descriptor at `ifd`, with the endpoints in their order. -/
def altOf (ifd : Nat) (infos : List EpInfo) : AltIface where
  ifd := some ifd
  ep i := infos.getD i ⟨0, 0, 0, 0⟩

/-- The settings whose bytes start at `off`, in their order. -/
def altsOf (num : BitVec 8) : List Setting → Nat → Nat → AltIface
  | [], _, _ => ⟨none, fun _ => ⟨0, 0, 0, 0⟩⟩
  | s :: _, off, 0 => altOf off (s.endpoints.map Endpoint.info)
  | s :: ss, off, k + 1 => altsOf num ss (off + (s.bytes num).length) k

/-- The interface of the settings whose bytes start at `off`, before a driver has it. -/
def ifaceOf (num : BitVec 8) (ss : List Setting) (off : Nat) : Iface where
  ifNum := num
  numAlt := ss.length
  alt := altsOf num ss off
  driver := none

/-- One interface for each interface described, in their order. -/
def ifacesOf : List Interface → Nat → List Iface
  | [], _ => []
  | i :: is, off =>
    ifaceOf i.bInterfaceNumber i.settings off :: ifacesOf is (off + i.bytes.length)

/-- The interfaces of a configuration that lies at the start of the buffer. -/
def Configuration.ifaces (d : Configuration) : List Iface :=
  ifacesOf d.interfaces (9 + (othersBytes d.before).length)

/-! ## What the expected interfaces hold -/

/-- `f` has the settings and endpoints of `i`, and `ifd` of each setting leads to its descriptor. -/
structure Describes (b : Buf) (i : Interface) (f : Iface) : Prop where
  number : f.ifNum = i.bInterfaceNumber
  count : f.numAlt = i.settings.length
  setting : ∀ k s, i.settings[k]? = some s → ∃ ifd, (f.alt k).ifd = some ifd ∧
    LiesAt b ifd (s.header i.bInterfaceNumber)
  endpoint : ∀ k s, i.settings[k]? = some s → ∀ j e, s.endpoints[j]? = some e →
    (f.alt k).ep j = e.info
  packet : ∀ k s, i.settings[k]? = some s → ∀ j e, s.endpoints[j]? = some e →
    ((f.alt k).ep j).wMaxPacketSize.toNat = e.size * (1 + e.additional)

/-- The product fits the field, whichever its factors are. -/
theorem Endpoint.info_wMaxPacketSize (e : Endpoint) :
    e.info.wMaxPacketSize.toNat = e.size * (1 + e.additional) := by
  have hs : e.size < 2048 := Nat.mod_lt _ (by decide)
  have ha : 1 + e.additional ≤ 4 := by
    have := Nat.mod_lt (e.wMaxPacketSize.toNat / 2048) (show 0 < 4 by decide)
    unfold additional
    omega
  have hp : e.size * (1 + e.additional) ≤ 2048 * 4 := Nat.mul_le_mul (by omega) ha
  exact (BitVec.toNat_ofNat ..).trans (Nat.mod_eq_of_lt (by omega))

section Expected

variable {b : Buf} {num : BitVec 8} {off : Nat} {ss : List Setting}

theorem altsOf_setting (hb : LiesAt b off (settingsBytes num ss)) {k : Nat} {s : Setting}
    (hk : ss[k]? = some s) : ∃ ifd, altsOf num ss off k = altOf ifd (s.endpoints.map Endpoint.info) ∧
      LiesAt b ifd (s.header num) := by
  induction ss generalizing off k with
  | nil => cases hk
  | cons s₀ ss ih =>
    have hs : LiesAt b off (s₀.bytes num ++ settingsBytes num ss) := hb
    cases k with
    | zero =>
      obtain rfl := Option.some.inj hk
      exact ⟨off, rfl, hs.left.left⟩
    | succ k => exact ih hs.right hk

theorem describes_ifaceOf {i : Interface} (hb : LiesAt b off i.bytes) :
    Describes b i (ifaceOf i.bInterfaceNumber i.settings off) := by
  have hend : ∀ k s, i.settings[k]? = some s → ∀ j e, s.endpoints[j]? = some e →
      ((ifaceOf i.bInterfaceNumber i.settings off).alt k).ep j = e.info := by
    intro k s hk j e hj
    obtain ⟨ifd, halt, -⟩ := altsOf_setting hb hk
    show (altsOf i.bInterfaceNumber i.settings off k).ep j = e.info
    rw [halt]
    show (s.endpoints.map Endpoint.info).getD j ⟨0, 0, 0, 0⟩ = e.info
    rw [List.getD_eq_getElem?_getD, List.getElem?_map, hj]
    rfl
  refine ⟨rfl, rfl, fun k s hk => ?_, hend, fun k s hk j e hj => ?_⟩
  · obtain ⟨ifd, halt, hh⟩ := altsOf_setting hb hk
    refine ⟨ifd, ?_, hh⟩
    show (altsOf i.bInterfaceNumber i.settings off k).ifd = some ifd
    rw [halt]
    rfl
  · rw [hend k s hk j e hj]
    exact e.info_wMaxPacketSize

theorem describes_ifacesOf {is : List Interface} (hb : LiesAt b off (interfacesBytes is)) :
    List.Forall₂ (Describes b) is (ifacesOf is off) := by
  induction is generalizing off with
  | nil => exact .nil
  | cons i is ih =>
    have hi : LiesAt b off (i.bytes ++ interfacesBytes is) := hb
    exact .cons (describes_ifaceOf hi.left) (ih hi.right)

theorem ifacesOf_ifNum (is : List Interface) (off : Nat) :
    (ifacesOf is off).map Iface.ifNum = is.map Interface.bInterfaceNumber := by
  induction is generalizing off with
  | nil => rfl
  | cons i is ih => exact congrArg (i.bInterfaceNumber :: ·) (ih _)

end Expected

/-- One interface for each number. -/
theorem Configuration.ifaces_nodup (d : Configuration) : (d.ifaces.map Iface.ifNum).Nodup := by
  rw [ifaces, ifacesOf_ifNum]
  exact d.distinct

/-- The interfaces expected are those described. -/
theorem Configuration.describes {b : Buf} {d : Configuration} (hb : LiesAt b 0 d.bytes) :
    List.Forall₂ (Describes b) d.interfaces d.ifaces := by
  have hbody : LiesAt b (0 + 9) (configBody d.before d.interfaces) := hb.right
  apply describes_ifacesOf
  rw [← Nat.zero_add 9]
  exact hbody.right

end Ma35d1.UsbHost.Core.Description
