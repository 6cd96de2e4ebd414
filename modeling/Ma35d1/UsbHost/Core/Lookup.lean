import Ma35d1.UsbHost.Types

/-!
# Finding an endpoint of an interface
-/

namespace Ma35d1.UsbHost

def epAddrDirIn : BitVec 8 := 0x80#8
def epAddrDirMask : BitVec 8 := 0x80#8
def epAttrTtMask : BitVec 8 := 0x03#8

/-- `usbh_iface_find_ep` over the endpoints of the current setting -/
def ifaceFindEp (ep : List EpInfo) (epAddr dirType : BitVec 8) : Option EpInfo :=
  if epAddr = 0 then
    ep.find? fun e =>
      e.bEndpointAddress &&& epAddrDirMask == dirType &&& epAddrDirMask &&
        e.bmAttributes &&& epAttrTtMask == dirType &&& epAttrTtMask
  else ep.find? fun e => e.bEndpointAddress == epAddr

end Ma35d1.UsbHost
