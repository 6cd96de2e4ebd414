import Ma35d1.UsbHost.Core.Lookup
import Ma35d1.UsbHost.Core.ParseSafety

/-!
# Parsing the descriptors of an audio device

The UAC driver walks over a configuration from one length byte to the next. Every byte that it reads
is checked here: a function is `none` where the source reads a byte at or behind `wTotalLength`.
-/

namespace Ma35d1.UsbHost.Uac

open Ma35d1.UsbHost.Core (Buf bLength bDescriptorType bNumEndpoints wTotalLength nextDesc
  usbDtInterface usbDtEndpoint)

def usbClassAudio : BitVec 8 := 0x01
def subclsAudiocontrol : BitVec 8 := 0x01
def subclsAudiostreaming : BitVec 8 := 0x02

def csInterface : BitVec 8 := 0x24
def csEndpoint : BitVec 8 := 0x25

def inputTerminal : BitVec 8 := 0x02
def outputTerminal : BitVec 8 := 0x03
def featureUnit : BitVec 8 := 0x06
def extensionUnit : BitVec 8 := 0x08

def asGeneral : BitVec 8 := 0x01
def formatType : BitVec 8 := 0x02
def formatSpecific : BitVec 8 := 0x03

def uacTtUsbStreaming : BitVec 16 := 0x0101

def uacRetOutOfMemory : Int := -2007
def uacRetDevNotSupported : Int := -2011
def uacRetParser : Int := -2013

/-- `sizeof(DESC_IF_T)` -/
def sizeofDescIf : Nat := 9

/-- `sizeof(DESC_HDR_T)` -/
def sizeofDescHdr : Nat := 2

/-! ## Fields -/

def bDescriptorSubtype (b : Buf) (p : Nat) : BitVec 8 := b (p + 2)

def bTerminalID (b : Buf) (p : Nat) : BitVec 8 := b (p + 3)

def wTerminalType (b : Buf) (p : Nat) : BitVec 16 := (b (p + 5)).append (b (p + 4))

/-- `((AC_OT_T *)p)->bSourceID` -/
def bSourceID (b : Buf) (p : Nat) : BitVec 8 := b (p + 7)

def bUnitID (b : Buf) (p : Nat) : BitVec 8 := b (p + 3)

def bTerminalLink (b : Buf) (p : Nat) : BitVec 8 := b (p + 3)

/-- `((AS_FT1_T *)p)->bSamFreqType` -/
def bSamFreqType (b : Buf) (p : Nat) : Nat := (b (p + 7)).toNat

/-- `((AS_FT1_T *)p)->tSamFreq[i]` stands here. -/
def tSamFreq (p i : Nat) : Nat := p + 8 + 3 * i

/-! ## Walks -/

/-- `size >= n` for a `sizeof`: the comparison is unsigned, so a negative `size` is large. -/
def AtLeast (size : Int) (n : Nat) : Prop := size < 0 ∨ n ≤ size

instance (size : Int) (n : Nat) : Decidable (AtLeast size n) := inferInstanceAs (Decidable (_ ∨ _))

/-- What an `if` asks of the bytes of a descriptor, one after the other -/
abbrev Fields := List (Nat × (BitVec 8 → Bool))

/-- `&&`: a byte is read if those in front of it are as they should be. -/
def fieldsAre (b : Buf) (w p : Nat) : Fields → Option Bool
  | [] => some true
  | (k, is) :: fields =>
    if p + k < w then if is (b (p + k)) then fieldsAre b w p fields else some false else none

/-- `while (size >= sizeof(DESC_IF_T))`: the first descriptor from `p` on with these fields -/
def seek (b : Buf) (w : Nat) (fields : Fields) (p : Nat) : Option (Option Nat) :=
  if AtLeast ((w : Int) - p) sizeofDescIf then
    match fieldsAre b w p fields with
    | none => none
    | some true => some (some p)
    | some false =>
      if _h : p < w then
        -- prevent infinite loop
        if _h0 : bLength b p = 0 then some none else seek b w fields (nextDesc b p)
      else none
  else some none
termination_by w - p
decreasing_by
  unfold nextDesc
  omega

/-- `while (size > sizeof(DESC_HDR_T))`: the descriptors from `p` on go to `parse`, as long as they
are of the given types. -/
def walk {σ : Type} (b : Buf) (w : Nat) (types : BitVec 8 → Bool)
    (parse : σ → Nat → Option (Int × σ)) (s : σ) (p : Nat) : Option (Int × σ) :=
  if AtLeast ((w : Int) - p) (sizeofDescHdr + 1) then
    if _h : p + 1 < w then
      if types (bDescriptorType b p) then
        match parse s p with
        | none => none
        | some (ret, s) =>
          if ret < 0 then some (uacRetParser, s)
          -- prevent infinite loop
          else if _h0 : bLength b p = 0 then some (uacRetParser, s)
          else walk b w types parse s (nextDesc b p)
      else some (0, s)
    else none
  else some (0, s)
termination_by w - p
decreasing_by
  unfold nextDesc
  omega

/-! ## The control interface -/

/-- `AC_IF_T` without the pointer to the interface -/
structure AcIf where
  micId : BitVec 8
  micFuid : BitVec 8
  speakerId : BitVec 8
  speakerFuid : BitVec 8
  deriving DecidableEq

def AcIf.zero : AcIf := ⟨0, 0, 0, 0⟩

/-- `uac_parse_ac_interface` for the descriptor at `p` -/
def uacParseAcInterface (b : Buf) (w : Nat) (acif : AcIf) (p : Nat) : Option (Int × AcIf) :=
  if p + 2 < w then
    if bDescriptorSubtype b p = inputTerminal then
      if p + 5 < w then
        if wTerminalType b p = uacTtUsbStreaming then some (0, acif)
        else if wTerminalType b p &&& 0x200 = 0x200 then
          some (0, { acif with micId := bTerminalID b p })
        else some (0, acif)
      else none
    else if bDescriptorSubtype b p = outputTerminal then
      if p + 5 < w then
        if wTerminalType b p = uacTtUsbStreaming then some (0, acif)
        else if wTerminalType b p &&& 0x300 = 0x300 then
          if p + 7 < w then
            some (0, { acif with speakerId := bTerminalID b p, speakerFuid := bSourceID b p })
          else none
        else some (0, acif)
      else none
    -- `AC_DESCRIPTOR_UNDEFINED`, `HEADER` and the units
    else if bDescriptorSubtype b p ≤ extensionUnit then some (0, acif)
    else some (uacRetParser, acif)
  else none

def featureUnitFields (micId : BitVec 8) : Fields :=
  [(1, (· == csInterface)), (2, (· == featureUnit)), (4, (· == micId))]

/-- `uac_set_microphone_feature_unit`; its return value is not used. -/
def uacSetMicrophoneFeatureUnit (b : Buf) (acif : AcIf) : Option AcIf :=
  match seek b (wTotalLength b) (featureUnitFields acif.micId) (bLength b 0) with
  | none => none
  | some none => some acif
  | some (some p) => some { acif with micFuid := bUnitID b p }

def acInterfaceFields (ifNum : BitVec 8) : Fields :=
  [(1, (· == usbDtInterface)), (2, (· == ifNum)), (5, (· == usbClassAudio)),
    (6, (· == subclsAudiocontrol))]

/-- `uac_parse_control_interface`: the return value and what is in `uac->acif` -/
def uacParseControlInterface (b : Buf) (ifNum : BitVec 8) : Option (Int × AcIf) :=
  let w := wTotalLength b
  -- `config->bLength` and `config->wTotalLength`
  if 3 < w then
    match seek b w (acInterfaceFields ifNum) (bLength b 0) with
    | none => none
    | some none => some (uacRetParser, .zero)
    | some (some p) =>
      match walk b w (· == csInterface) (uacParseAcInterface b w) .zero (nextDesc b p) with
      | none => none
      | some (ret, acif) =>
        if ret < 0 then some (ret, acif)
        else (uacSetMicrophoneFeatureUnit b acif).map fun acif => (0, acif)
  else none

/-! ## A streaming interface -/

/-- What is read of an `IFACE_T`: the endpoints of its settings, and those of the selected one -/
structure AudioIface where
  ifNum : BitVec 8
  alt : List (List EpInfo)
  aif : List EpInfo

/-- The fields of an `AS_IF_T` that are parsed -/
structure AsIf where
  ep : Option EpInfo
  asGen : Option Nat
  it : Option Nat
  ot : Option Nat
  ft : Option Nat
  csEpd : Option Nat

def AsIf.zero : AsIf := ⟨none, none, none, none, none, none⟩

/-- `uac_parse_as_interface` for the descriptor at `p` -/
def uacParseAsInterface (b : Buf) (w : Nat) (aif : List EpInfo) (asif : AsIf) (p : Nat) :
    Option (Int × AsIf) :=
  if p + 2 < w then
    if bDescriptorType b p = usbDtEndpoint then
      match aif.find? fun ep => ep.bEndpointAddress == b (p + 2) with
      | some ep => some (0, { asif with ep := some ep })
      | none => some (uacRetParser, asif)
    else if bDescriptorType b p = csEndpoint then some (0, { asif with csEpd := some p })
    else if bDescriptorSubtype b p = asGeneral then some (0, { asif with asGen := some p })
    else if bDescriptorSubtype b p = formatType then some (0, { asif with ft := some p })
    -- `AS_DESCRIPTOR_UNDEFINED` and `FORMAT_SPECIFIC`
    else if bDescriptorSubtype b p ≤ formatSpecific then some (0, asif)
    else some (uacRetParser, asif)
  else none

/-- `iface_have_iso_in_ep` and `iface_have_iso_out_ep` -/
def AudioIface.haveIsoEp (iface : AudioIface) (dir : BitVec 8) : Bool :=
  iface.alt.any fun eps => eps.any fun ep =>
    ep.bmAttributes &&& epAttrTtMask == epAttrTtIso && ep.bEndpointAddress &&& epAddrDirMask == dir

def terminalFields (id : BitVec 8) : Fields :=
  [(1, (· == csInterface)), (2, fun t => t == inputTerminal || t == outputTerminal), (3, (· == id))]

/-- `uac_find_terminal` -/
def uacFindTerminal (b : Buf) (id : BitVec 8) : Option (Option Nat) :=
  seek b (wTotalLength b) (terminalFields id) (bLength b 0)

def asInterfaceFields (ifNum bAlternateSetting : BitVec 8) : Fields :=
  [(1, (· == usbDtInterface)), (2, (· == ifNum)), (3, (· == bAlternateSetting)),
    (5, (· == usbClassAudio)), (6, (· == subclsAudiostreaming))]

/-- How `uac_parse_streaming_interface` ends: with `UAC_RET_PARSER`, with an interface without
endpoints, or with what it copies to `uac->asif_in` or `uac->asif_out` -/
inductive StreamParse
  | failed
  | idle
  | asifIn (asif : AsIf)
  | asifOut (asif : AsIf)

/-- The function behind its loops -/
def finishStream (b : Buf) (iface : AudioIface) (asif : AsIf) : Option StreamParse :=
  match asif.asGen with
  | none => some .failed
  | some g =>
    if iface.haveIsoEp epAddrDirIn then
      if g + 3 < wTotalLength b then
        (uacFindTerminal b (bTerminalLink b g)).map fun ot => .asifIn { asif with ot := ot }
      else none
    else if iface.haveIsoEp 0 then
      if g + 3 < wTotalLength b then
        (uacFindTerminal b (bTerminalLink b g)).map fun it => .asifOut { asif with it := it }
      else none
    else some .failed

/-- The types that the second loop of `uac_parse_streaming_interface` goes on with -/
def asTypes (t : BitVec 8) : Bool := t == csInterface || t == usbDtEndpoint || t == csEndpoint

def uacParseStreamingInterface (b : Buf) (iface : AudioIface) (bAlternateSetting : BitVec 8) :
    Option StreamParse :=
  let w := wTotalLength b
  if 3 < w then
    match seek b w (asInterfaceFields iface.ifNum bAlternateSetting) (bLength b 0) with
    | none => none
    | some none => some .failed
    | some (some p) =>
      if bNumEndpoints b p = 0 then some .idle
      else
        match walk b w asTypes (uacParseAsInterface b w iface.aif) .zero (nextDesc b p) with
        | none => none
        | some (ret, asif) => if ret < 0 then some .failed else finishStream b iface asif
  else none

/-! ## Sampling rates -/

/-- `srate_to_u32` -/
def srateToU32 (b : Buf) (p : Nat) : BitVec 32 :=
  ((b (p + 2)).setWidth 32 <<< 16) ||| ((b (p + 1)).setWidth 32 <<< 8) ||| (b p).setWidth 32

/-- An entry of `srate_list` that is written, and where its frequency stands -/
structure Rate where
  index : Nat
  place : Nat
  value : BitVec 32

/-- `srate_list[i] = srate_to_u32(&ft->tSamFreq[i][0])` -/
def rateAt (b : Buf) (ft i : Nat) : Rate := ⟨i, tSamFreq ft i, srateToU32 b (tSamFreq ft i)⟩

/-- `usbh_uac_get_sampling_rate`, where `ft` is that of the target: the return value, `*type`, and
the entries it writes -/
def usbhUacGetSamplingRate (b : Buf) (ft : Option Nat) (maxCnt : Int) :
    Int × Option Nat × List Rate :=
  match ft with
  | none => (uacRetDevNotSupported, none, [])
  | some p =>
    let type := bSamFreqType b p
    if type = 0 then
      if maxCnt < 2 then (uacRetOutOfMemory, some type, [])
      else (0, some type, [rateAt b p 0, rateAt b p 1])
    else (0, some type, (List.range type).map (rateAt b p))

end Ma35d1.UsbHost.Uac
