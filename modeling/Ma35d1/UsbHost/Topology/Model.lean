import Mathlib.Algebra.GroupWithZero.Nat
import Mathlib.Data.List.FinRange

/-!
# Devices, hubs and addresses

The USB host keeps the devices of its four root controllers on one list, `g_udev_list`, its hubs in
the table `g_hub_dev`, and marks the addresses that it has given out in `_dev_addr_pool`. What is
done when a port changes is followed here as far as it reaches these: a device is connected with its
interfaces, or disconnected together with what its hubs find at their ports. A structure is named by
its address.
-/

namespace Ma35d1.UsbHost.Topology

/-- An index of `g_hub_dev`, which has `MAX_HUB_DEVICE` entries -/
abbrev Slot := Fin 8

/-- The most characters that `pos_id` holds in front of its 0 -/
def posIdMax : Nat := 8

/-- `OHCI_PORT_CNT`; the loop of `ehci_rh_polling` has one port as well. -/
def rootPortCnt : Nat := 1

/-- The units of the DMA pool, and those of a `UDEV_T` and of `MAX_DESC_BUFF_SIZE` bytes -/
def dmaUnits : Nat := 128
def udevUnits : Nat := 1
def cfdUnits : Nat := 4

/-- `SPEED_E` -/
inductive Speed
  | low | full | high
  deriving DecidableEq

/-- `ehci0_driver` to `ohci1_driver` -/
inductive HcDriver
  | ehci0 | ehci1 | ohci0 | ohci1
  deriving DecidableEq

def HcDriver.isEhci : HcDriver → Bool
  | .ehci0 | .ehci1 => true
  | .ohci0 | .ohci1 => false

/-- `IFACE_T`, with whether its driver is `hub_driver` -/
structure Iface where
  addr : Nat
  isHub : Bool
  deriving DecidableEq

/-- `UDEV_T` -/
structure Udev where
  id : Nat
  parent : Option Slot
  portNum : Nat
  devNum : Nat
  speed : Speed
  hcDriver : HcDriver
  cfdBuff : Bool
  ifaceList : List Iface
  deriving DecidableEq

def Udev.units (d : Udev) : Nat := udevUnits + if d.cfdBuff then cfdUnits else 0

/-- `HUB_DEV_T`, with `iface->udev` -/
structure HubDev where
  iface : Nat
  udev : Nat
  posId : List (BitVec 8)
  bNbrPorts : BitVec 8
  deriving DecidableEq

/-- An entry of `g_hub_dev` is `none` where its `iface` is `NULL`. -/
structure Usb where
  gUdevList : List Udev
  gHubDev : Slot → Option HubDev
  devAddrPool : Nat → Bool
  deviceAddr : Nat
  /-- the units of the DMA pool that are not of a device -/
  others : Nat

/-- Memory that has been freed is used, `pos_id` is written behind its end, the memory handed out is
in use, or a loop has not ended. -/
inductive Fault
  | freed | overrun | inUse | fuel
  deriving DecidableEq

namespace Usb

variable (s : Usb)

/-- `usbh_memory_init` and `usbh_hub_init` -/
def init : Usb := ⟨[], fun _ => none, fun _ => false, 1, 0⟩

/-! ## The list of devices -/

def device (id : Nat) : Option Udev := s.gUdevList.find? fun d => d.id = id

def dmaUsed : Nat := s.others + (s.gUdevList.map Udev.units).sum

/-- The pool has room for `n` units more. -/
def HasRoom (n : Nat) : Prop := s.dmaUsed + n ≤ dmaUnits

instance (n : Nat) : Decidable (s.HasRoom n) := inferInstanceAs (Decidable (_ ≤ _))

def liveIfaces : List Nat := s.gUdevList.flatMap fun d => d.ifaceList.map Iface.addr

/-- A field of the device at `id` is written. -/
def update (id : Nat) (f : Udev → Udev) : Usb :=
  { s with gUdevList := s.gUdevList.map fun d => if d.id = id then f d else d }

def setIfaces (id : Nat) (is : List Iface) : Usb := s.update id fun d => { d with ifaceList := is }

def addIface (id : Nat) (i : Iface) : Usb :=
  s.update id fun d => { d with ifaceList := i :: d.ifaceList }

/-- `free_device` -/
def freeDevice (id : Nat) : Usb :=
  { s with gUdevList := s.gUdevList.eraseP fun d => d.id = id }

/-! ## Addresses -/

def nextAddr (a : Nat) : Nat := if 128 ≤ a + 1 then 1 else a + 1

/-- `while (1)` in `alloc_dev_address` -/
def searchAddr (pool : Nat → Bool) : Nat → Nat → Option Nat
  | 0, _ => none
  | fuel + 1, a => if pool a = false then some a else searchAddr pool fuel (nextAddr a)

/-- `alloc_dev_address` -/
def allocDevAddress : Except Fault (Nat × Usb) :=
  match searchAddr s.devAddrPool 128 (nextAddr s.deviceAddr) with
  | none => .error .fuel
  | some a => .ok (a, { s with
      devAddrPool := Function.update s.devAddrPool a true
      deviceAddr := a })

/-- `free_dev_address` -/
def freeDevAddress (a : Nat) : Usb :=
  if a < 128 then { s with devAddrPool := Function.update s.devAddrPool a false } else s

/-! ## The table of hubs -/

/-- `alloc_hub_device` -/
def allocHubDevice : Option Slot := (List.finRange 8).find? fun k => (s.gHubDev k).isNone

/-- `find_hub_device` -/
def findHubDevice (iface : Nat) : Option Slot :=
  (List.finRange 8).find? fun k => (s.gHubDev k).any fun h => h.iface = iface

/-- `free_hub_device`; the entries behind the hub's own are compared with `NULL`. -/
def freeHubDevice (k : Slot) : Usb :=
  { s with gHubDev := fun j =>
      if j ≤ k ∧ (s.gHubDev j).map HubDev.iface = (s.gHubDev k).map HubDev.iface then none
      else s.gHubDev j }

def setHub (k : Slot) (h : HubDev) : Usb :=
  { s with gHubDev := Function.update s.gHubDev k (some h) }

/-- The first hub with the position, as `usbh_find_device` looks for it -/
def hubAt (hubId : List (BitVec 8)) : Option Slot :=
  (List.finRange 8).find? fun k => (s.gHubDev k).any fun h => h.posId = hubId

/-- `usbh_find_device` -/
def usbhFindDevice (hubId : List (BitVec 8)) (port : Nat) : Option Udev :=
  (s.hubAt hubId).bind fun k =>
    s.gUdevList.find? fun d => d.parent = some k ∧ d.portNum = port

/-- `str`, which is empty where `'0'` and the port add up to 0 -/
def posChar (port : Nat) : List (BitVec 8) :=
  if BitVec.ofNat 8 (48 + port) = 0 then [] else [BitVec.ofNat 8 (48 + port)]

/-- `parent->pos_id` -/
def hubPos : Option Slot → List (BitVec 8)
  | none => []
  | some k => ((s.gHubDev k).map HubDev.posId).getD []

/-- The `pos_id` that `hub_probe` puts together -/
def posIdAt (parent : Option Slot) (port : Nat) : List (BitVec 8) := s.hubPos parent ++ posChar port

/-! ## Disconnecting -/

mutual

/-- `disconnect_device` -/
def disconnectDevice : Nat → Usb → Nat → Except Fault Usb
  | 0, _, _ => .error .fuel
  | fuel + 1, s, id => do
    let s ← dropIfaces fuel s id
    match s.device id with
    | none => .error .freed
    | some d => .ok ((s.freeDevAddress d.devNum).freeDevice id)
termination_by structural fuel => fuel

/-- The loop over `iface_list` in `disconnect_device` and in `usbh_reset_device` -/
def dropIfaces : Nat → Usb → Nat → Except Fault Usb
  | 0, _, _ => .error .fuel
  | fuel + 1, s, id =>
    match s.device id with
    | none => .error .freed
    | some d =>
      match d.ifaceList with
      | [] => .ok s
      | i :: is => do
        let s ← (if i.isHub then hubDisconnect fuel (s.setIfaces id is) i.addr
          else .ok (s.setIfaces id is))
        dropIfaces fuel s id
termination_by structural fuel => fuel

/-- `hub_disconnect` -/
def hubDisconnect : Nat → Usb → Nat → Except Fault Usb
  | 0, _, _ => .error .fuel
  | fuel + 1, s, iface =>
    match s.findHubDevice iface with
    | none => .ok s
    | some k => do
      let s ← disconnectPorts fuel s k 1
      .ok (s.freeHubDevice k)
termination_by structural fuel => fuel

/-- The loop over the ports in `hub_disconnect` -/
def disconnectPorts : Nat → Usb → Slot → Nat → Except Fault Usb
  | 0, _, _, _ => .error .fuel
  | fuel + 1, s, k, port =>
    match s.gHubDev k with
    | none => .ok s
    | some hub =>
      if hub.bNbrPorts.toNat < port then .ok s
      else match s.usbhFindDevice hub.posId port with
        | none => disconnectPorts fuel s k (port + 1)
        | some d => do
          let s ← disconnectDevice fuel s d.id
          disconnectPorts fuel s k (port + 1)
termination_by structural fuel => fuel

end

def ifaceCount : Nat := (s.gUdevList.map fun d => d.ifaceList.length).sum

/-- How far the calls of `disconnect_device` nest and its loops run, at most -/
def disconnectFuel : Nat := 260 * s.ifaceCount + 2

def disconnect (id : Nat) : Except Fault Usb := disconnectDevice s.disconnectFuel s id

/-! ## Connecting -/

/-- What comes of an interface: no driver takes it, a driver other than the hub's does, `hub_probe`
does, or `hub_probe` fails after it has taken an entry of the table. -/
inductive Probe
  | unbound
  | bound (addr : Nat)
  | hub (addr : Nat) (ports : BitVec 8)
  | hubFails (addr : Nat)
  deriving DecidableEq

/-- `hub_probe` from where it has an entry of the table -/
def hubProbe (d : Udev) (addr : Nat) (ports : BitVec 8) (k : Slot) : Except Fault Usb :=
  if (s.posIdAt d.parent d.portNum).length ≤ posIdMax then
    .ok (s.setHub k ⟨addr, d.id, s.posIdAt d.parent d.portNum, ports⟩)
  else .error .overrun

/-- One turn of the loop of `usbh_parse_configuration` -/
def probe (d : Udev) : Probe → Except Fault Usb
  | .unbound => .ok s
  | .bound addr =>
    if addr ∈ s.liveIfaces then .error .inUse else .ok (s.addIface d.id ⟨addr, false⟩)
  | .hub addr ports =>
    if addr ∈ s.liveIfaces then .error .inUse
    else match s.allocHubDevice with
      | none => .ok s
      | some k => do
        let s ← s.hubProbe d addr ports k
        .ok (s.addIface d.id ⟨addr, true⟩)
  | .hubFails addr =>
    if addr ∈ s.liveIfaces then .error .inUse
    else match s.allocHubDevice with
      | none => .ok s
      | some k => do
        let s ← s.hubProbe d addr 0 k
        .ok (s.freeHubDevice k)

/-- `usbh_parse_configuration` -/
def parseConfiguration (d : Udev) : Usb → List Probe → Except Fault Usb
  | s, [] => .ok s
  | s, p :: ps => do
    let s ← s.probe d p
    parseConfiguration d s ps

/-- How far `connect_device` comes: the address is not set, the device descriptor is not read, there
is no memory for the configuration, the configuration is not read or not set, or its interfaces are
gone through, to the end or not. -/
inductive Enumeration
  | noAddress
  | noDescriptor
  | noBuffer
  | noConfiguration
  | parsed (probes : List Probe) (ok : Bool)
  deriving DecidableEq

/-- `connect_device`, and whether it returns 0 -/
def connectDevice (d : Udev) (e : Enumeration) : Except Fault (Bool × Usb) := do
  let (a, s) ← s.allocDevAddress
  if e = .noAddress then .ok (false, s.freeDevAddress a)
  else
    let s := s.update d.id fun d => { d with devNum := a }
    if e = .noDescriptor ∨ e = .noBuffer ∨ ¬ s.HasRoom cfdUnits then
      .ok (false, s.freeDevAddress a)
    else
      let s := s.update d.id fun d => { d with cfdBuff := true }
      match e with
      | .parsed probes ok => do
        let s ← parseConfiguration d s probes
        .ok (if ok then (true, s) else (false, s.freeDevAddress a))
      | _ => .ok (false, s.freeDevAddress a)

/-- `alloc_device`, `connect_device`, and `free_device` where that fails -/
def attach (d : Udev) (e : Enumeration) : Except Fault Usb :=
  if s.HasRoom udevUnits then
    if (s.device d.id).isSome then .error .inUse
    else do
      let (ok, s) ← { s with gUdevList := d :: s.gUdevList }.connectDevice d e
      .ok (if ok then s else s.freeDevice d.id)
  else .ok s

/-! ## Ports -/

/-- What is found at a port whose connection has changed: no device, a device whose reset fails, or
one that `connect_device` is called with -/
inductive PortChange
  | gone
  | noReset
  | attached (id : Nat) (speed : Speed) (e : Enumeration)
  deriving DecidableEq

/-- What `ehci_find_device_by_port` and `ohci_find_device_by_port` look for -/
def MatchesPort (hc : HcDriver) (port : Nat) (d : Udev) : Prop :=
  if hc.isEhci then d.hcDriver = hc ∧ d.parent = none ∧ d.portNum = port ∧ d.speed = .high
  else d.parent = none ∧ d.portNum = port ∧ (d.speed = .low ∨ d.speed = .full)

instance (hc : HcDriver) (port : Nat) (d : Udev) : Decidable (MatchesPort hc port d) :=
  inferInstanceAs (Decidable (if hc.isEhci
    then d.hcDriver = hc ∧ d.parent = none ∧ d.portNum = port ∧ d.speed = .high
    else d.parent = none ∧ d.portNum = port ∧ (d.speed = .low ∨ d.speed = .full)))

def findDeviceByPort (hc : HcDriver) (port : Nat) : Option Udev :=
  s.gUdevList.find? fun d => MatchesPort hc port d

/-- `while (1)` in `ehci_rh_polling` and in `ohci_rh_polling` -/
def disconnectRoot (hc : HcDriver) (port : Nat) : Nat → Usb → Except Fault Usb
  | 0, _ => .error .fuel
  | fuel + 1, s =>
    match s.findDeviceByPort hc port with
    | none => .ok s
    | some d => do
      let s ← s.disconnect d.id
      disconnectRoot hc port fuel s

def disconnectRootPort (hc : HcDriver) (port : Nat) : Except Fault Usb :=
  disconnectRoot hc port (s.gUdevList.length + 1) s

/-- The speed of a device at a root port -/
def rootSpeed (hc : HcDriver) (speed : Speed) : Speed :=
  if hc.isEhci then .high else if speed = .low then .low else .full

/-- A connect-status change in `ehci_rh_polling` or `ohci_rh_polling` -/
def rhPolling (hc : HcDriver) (port : Nat) (change : PortChange) : Except Fault Usb := do
  let s ← s.disconnectRootPort hc port
  match change with
  | .gone => if hc.isEhci then s.disconnectRootPort hc port else .ok s
  | .noReset => .ok s
  | .attached id speed e => s.attach ⟨id, none, port, 0, rootSpeed hc speed, hc, false, []⟩ e

/-- What is found at the port is disconnected. -/
def disconnectPort (hub : HubDev) (port : Nat) : Except Fault Usb :=
  match s.usbhFindDevice hub.posId port with
  | none => .ok s
  | some d => s.disconnect d.id

/-- `port_connect_change` -/
def portConnectChange (k : Slot) (hub : HubDev) (port : Nat) (change : PortChange) :
    Except Fault Usb := do
  let s ← s.disconnectPort hub port
  match change with
  | .gone | .noReset => .ok s
  | .attached id speed e =>
    match (s.gHubDev k).bind fun hub => s.device hub.udev with
    | none => .error .freed
    | some u => s.attach ⟨id, some k, port, 0, speed, u.hcDriver, false, []⟩ e

/-- `usbh_reset_device` from where the hubs have been polled: `none` where a request fails, else the
interfaces it comes to. A device that the hubs have disconnected has been freed. -/
def resetDevice (id : Nat) (probes : Option (List Probe)) : Except Fault Usb :=
  match s.device id with
  | none => .error .freed
  | some d => do
    let s ← dropIfaces s.disconnectFuel s id
    match probes with
    | none => .ok s
    | some probes => parseConfiguration d s probes

inductive Event
  | rootPort (hc : HcDriver) (port : Nat) (change : PortChange)
  | hubPort (k : Slot) (port : Nat) (change : PortChange)
  | reset (id : Nat) (probes : Option (List Probe))
  /-- memory is taken or given back by anything but the list of devices -/
  | others (n : Nat)

/-- A hub is asked for its port before anything is done there. -/
def step (s : Usb) : Event → Option Usb
  | .rootPort hc port change =>
    if 1 ≤ port ∧ port ≤ rootPortCnt then (s.rhPolling hc port change).toOption else none
  | .hubPort k port change =>
    (s.gHubDev k).bind fun hub =>
      if 1 ≤ port ∧ port ≤ hub.bNbrPorts.toNat ∧ (s.device hub.udev).isSome then
        (s.portConnectChange k hub port change).toOption
      else none
  | .reset id probes => (s.resetDevice id probes).toOption
  | .others n => if n + (s.dmaUsed - s.others) ≤ dmaUnits then some { s with others := n } else none

end Usb

end Ma35d1.UsbHost.Topology
